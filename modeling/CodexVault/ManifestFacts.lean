import CodexVault.VaultStore

/-!
# Manifests that are accepted

What the store writes it also reads: a manifest keeps its header through a
rotation, fits the size limit, and opens under the password it was wrapped for.
The laws of the JSON and UUID libraries are collected in `TextLaws`.
-/

namespace CodexVault

open ByteStrings Programs

/-- The bytes of all texts of a manifest. -/
def UserManifest.textLength (m : UserManifest) : Nat :=
  (textBytes m.id).length + (textBytes m.username).length + (textBytes m.kdf.algorithm).length +
    (textBytes m.kdf.salt).length + (textBytes m.wrappedDataKey.algorithm).length +
    (textBytes m.wrappedDataKey.iv).length + (textBytes m.wrappedDataKey.ciphertext).length +
    (textBytes m.wrappedDataKey.authenticationTag).length + (textBytes m.vaultFormat).length

/-- The documented behaviour of `serde_json` and `uuid`: what is written reads
back, a text takes at most six bytes for each of its own, and no form of a UUID
is longer than the URN. -/
structure TextLaws (lib : Libraries) : Prop where
  fromJson_toJson : ∀ m, lib.fromJson (lib.toJson m ++ [10]) = .ok m
  length_toJson : ∀ m, (lib.toJson m).length ≤ 1024 + 6 * m.textLength
  length_uuid : ∀ text id, lib.parseUuid text = some id → (textBytes text).length ≤ 45
  parse_uuidText : ∀ id, lib.parseUuid (lib.uuidText id) = some id

theorem textBytes_ofList (chars : List Char) :
    textBytes (String.ofList chars) = chars.flatMap String.utf8EncodeChar := by
  unfold textBytes
  rw [String.toByteArray_ofList]
  exact List.toList_data_toByteArray

theorem length_textBytes_ofList (chars : List Char) :
    (textBytes (String.ofList chars)).length ≤ 4 * chars.length := by
  rw [textBytes_ofList]
  induction chars with
  | nil => exact Nat.zero_le _
  | cons c rest ih =>
      have hc := c.utf8Size_le_four
      rw [List.flatMap_cons, List.length_append, List.length_cons, String.length_utf8EncodeChar]
      omega

theorem length_textBytes_encode (engine : Base64.Engine) (b : Bytes) :
    (textBytes (engine.encode b)).length ≤ 4 * ((b.length + 2) / 3 * 4) := by
  have h := length_textBytes_ofList (engine.encode b).toList
  rwa [String.ofList_toList, String.length_toList, engine.length_encode] at h

theorem length_of_isValidUsername {username : String} (h : isValidUsername username = true) :
    (textBytes username).length ≤ 64 := by
  unfold isValidUsername at h
  split at h
  · cases h
  · next first rest heq =>
      rw [heq]
      simp only [Bool.and_eq_true, decide_eq_true_eq] at h
      exact h.1.1

/-- What `validate` accepts. -/
structure UserManifest.Valid (lib : Libraries) (m : UserManifest) : Prop where
  version : m.version = manifestVersion
  id : lib.parseUuid m.id ≠ none
  username : isValidUsername m.username = true
  createdAt : m.createdAt ≠ 0
  vaultFormat : m.vaultFormat = CodexVault.vaultFormat
  algorithm : m.wrappedDataKey.algorithm = wrapAlgorithm

theorem UserManifest.validate_eq_ok {lib : Libraries} {m : UserManifest} :
    m.validate lib = .ok () ↔ m.Valid lib := by
  unfold validate
  constructor
  · intro h
    split at h
    · cases h
    · next hnot =>
        simp only [not_or, not_not, Bool.not_eq_false] at hnot
        obtain ⟨hversion, hid, husername, hcreated, hformat, halgorithm⟩ := hnot
        exact ⟨hversion, hid, husername, hcreated, hformat, halgorithm⟩
  · rintro ⟨hversion, hid, husername, hcreated, hformat, halgorithm⟩
    rw [if_neg]
    simp only [not_or, not_not, Bool.not_eq_false]
    exact ⟨hversion, hid, husername, hcreated, hformat, halgorithm⟩

theorem parseManifest_eq_ok {lib : Libraries} {contents : Bytes} {m : UserManifest} :
    parseManifest lib contents = .ok m ↔
      contents.length ≤ manifestSizeLimit ∧ lib.fromJson contents = .ok m ∧ m.Valid lib := by
  unfold parseManifest
  constructor
  · intro h
    split at h
    · cases h
    · next hlen =>
        split at h
        · cases h
        · next m' hjson =>
            split at h
            · cases h
            · next hvalid =>
                cases h
                exact ⟨by omega, hjson, UserManifest.validate_eq_ok.mp hvalid⟩
  · rintro ⟨hlen, hjson, hvalid⟩
    rw [if_neg (by omega), hjson]
    simp only [UserManifest.validate_eq_ok.mpr hvalid]

/-- The wrapped key of a manifest the store writes. -/
structure WrappedKey.Written (lib : Libraries) (wrapped : WrappedKey) : Prop where
  algorithm : wrapped.algorithm = wrapAlgorithm
  texts : ∃ (nonce : FixedBytes 12) (ciphertext tag : Bytes),
    ciphertext.length = 32 ∧ tag.length = tagLength ∧
    wrapped.iv = lib.base64.encode nonce.toBytes ∧
    wrapped.ciphertext = lib.base64.encode ciphertext ∧
    wrapped.authenticationTag = lib.base64.encode tag

/-- **A manifest that is written is accepted**, when its header is. -/
theorem parseManifest_written {lib : Libraries} (laws : TextLaws lib) {m : UserManifest}
    (hvalid : m.Valid lib) (hkdf : ∃ salt, m.kdf = kdfParametersFor lib salt)
    (hwrapped : m.wrappedDataKey.Written lib) :
    parseManifest lib (lib.toJson m ++ [10]) = .ok m := by
  rw [parseManifest_eq_ok]
  refine ⟨?_, laws.fromJson_toJson m, hvalid⟩
  obtain ⟨salt, hsalt⟩ := hkdf
  obtain ⟨halgorithm, nonce, ciphertext, tag, hc, ht, hiv, hciphertext, htag⟩ := hwrapped
  obtain ⟨id, hid⟩ := Option.ne_none_iff_exists'.mp hvalid.id
  have h1 := laws.length_uuid _ _ hid
  have h2 := length_of_isValidUsername hvalid.username
  have h3 : (textBytes "argon2id").length = 8 := by decide
  have h4 := length_textBytes_encode lib.base64 salt.toBytes
  have h5 : (textBytes wrapAlgorithm).length = 11 := by decide
  have h6 := length_textBytes_encode lib.base64 nonce.toBytes
  have h7 := length_textBytes_encode lib.base64 ciphertext
  have h8 := length_textBytes_encode lib.base64 tag
  have h9 : (textBytes CodexVault.vaultFormat).length = 8 := by decide
  have hlen := laws.length_toJson m
  simp only [UserManifest.textLength, hsalt, kdfParametersFor, halgorithm, hiv, hciphertext, htag,
    hvalid.vaultFormat, h3, h5, h9] at hlen
  simp only [FixedBytes.length_toBytes, hc, ht] at h4 h6 h7 h8
  have htagLength : tagLength = 16 := rfl
  have hlimit : manifestSizeLimit = 65536 := rfl
  rw [htagLength] at h8
  rw [List.length_append, List.length_singleton]
  omega

/-- What `wrap_data_key` makes is what a manifest can carry. -/
theorem written_of_wrapWithNonce {lib : Libraries} (A : LawfulAead) (hA : lib.aead = A.toAead)
    {nonce : FixedBytes 12} {dataKey wrappingKey : Key} {aad : Bytes} {wrapped : WrappedKey}
    (h : wrapWithNonce lib nonce dataKey wrappingKey aad = .ok wrapped) : wrapped.Written lib := by
  obtain ⟨ciphertext, tag, htag, hencrypt, rfl⟩ := wrapWithNonce_eq_ok h
  rw [hA] at hencrypt
  have hlen := A.length_encrypt hencrypt
  have htagLength : tagLength = 16 := rfl
  rw [List.length_append, dataKey.length_toBytes, htag, htagLength] at hlen
  exact ⟨rfl, nonce, ciphertext, tag, by omega, htag, rfl, rfl, rfl⟩

/-- **Unwrapping undoes wrapping.** -/
theorem unwrapDataKey_wrapWithNonce {lib : Libraries} (A : LawfulAead)
    (hA : lib.aead = A.toAead) {nonce : FixedBytes 12} {dataKey wrappingKey : Key} {aad : Bytes}
    {wrapped : WrappedKey} (h : wrapWithNonce lib nonce dataKey wrappingKey aad = .ok wrapped) :
    unwrapDataKey lib wrapped wrappingKey aad = .ok dataKey := by
  obtain ⟨ciphertext, tag, htag, hencrypt, rfl⟩ := wrapWithNonce_eq_ok h
  rw [hA] at hencrypt
  have hlen := A.length_encrypt hencrypt
  have htagLength : tagLength = 16 := rfl
  rw [List.length_append, dataKey.length_toBytes, htag, htagLength] at hlen
  refine unwrapDataKey_eq_ok.mpr ⟨nonce, ciphertext, tag, rfl, by omega, rfl, htag, rfl, ?_⟩
  rw [hA]
  exact A.decrypt_encrypt hencrypt

/-- What `openManifest` checks. -/
theorem openManifest_eq_ok {lib : Libraries} {username : String} {password : Bytes}
    {m : UserManifest} {key : Key} :
    openManifest lib username password m = .ok key ↔
      eqIgnoreAsciiCase m.username username = true ∧
      ∃ wrappingKey aad, deriveKey lib password m.kdf = .ok wrappingKey ∧
        m.associatedData = .ok aad ∧
        unwrapDataKey lib m.wrappedDataKey wrappingKey aad = .ok key := by
  unfold openManifest
  constructor
  · intro h
    split at h
    · cases h
    · next hname =>
        split at h
        · cases h
        · next wrappingKey hkey =>
            split at h
            · cases h
            · next aad haad =>
                exact ⟨by simpa using hname, wrappingKey, aad, hkey, haad, h⟩
  · rintro ⟨hname, wrappingKey, aad, hkey, haad, h⟩
    rw [if_neg (by simp [hname]), hkey]
    simp only [haad, h]

/-- The data key of a manifest, wrapped for a password. -/
structure WrappedFor (lib : Libraries) (password : Bytes) (dataKey : Key) (m : UserManifest) :
    Prop where
  kdf : ∃ salt, m.kdf = kdfParametersFor lib salt
  wrapped : ∃ nonce wrappingKey aad, deriveKey lib password m.kdf = .ok wrappingKey ∧
    m.associatedData = .ok aad ∧
    wrapWithNonce lib nonce dataKey wrappingKey aad = .ok m.wrappedDataKey

/-- `m'` is `m` with its data key wrapped anew, around a salt. -/
structure Rewraps (lib : Libraries) (username : String) (current new : Bytes)
    (salt : FixedBytes 16) (m m' : UserManifest) (dataKey : Key) : Prop where
  opened : openManifest lib username current m = .ok dataKey
  header : m' = { m with kdf := kdfParametersFor lib salt, wrappedDataKey := m'.wrappedDataKey }
  written : WrappedFor lib new dataKey m'

/-- **A manifest opens under the password it was wrapped for**, and under every
spelling of its username. -/
theorem openManifest_wrappedFor {lib : Libraries} (A : LawfulAead) (hA : lib.aead = A.toAead)
    {username : String} {password : Bytes} {dataKey : Key} {m : UserManifest}
    (h : WrappedFor lib password dataKey m)
    (hname : eqIgnoreAsciiCase m.username username = true) :
    openManifest lib username password m = .ok dataKey := by
  obtain ⟨nonce, wrappingKey, aad, hkey, haad, hwrap⟩ := h.wrapped
  exact openManifest_eq_ok.mpr
    ⟨hname, wrappingKey, aad, hkey, haad, unwrapDataKey_wrapWithNonce A hA hwrap⟩

/-- The keys two passwords give for one salt differ, and what is encrypted under
the second does not open under the first. -/
structure Unrelated (lib : Libraries) (password other : Bytes) : Prop where
  keys : ∀ salt key key', deriveKey lib other (kdfParametersFor lib salt) = .ok key →
    deriveKey lib password (kdfParametersFor lib salt) = .ok key' → key ≠ key'
  sealed : ∀ salt key key', deriveKey lib other (kdfParametersFor lib salt) = .ok key →
    deriveKey lib password (kdfParametersFor lib salt) = .ok key' → key ≠ key' →
    ∀ nonce aad message ciphertext, lib.aead.encrypt key' nonce aad message = some ciphertext →
      lib.aead.decrypt key nonce aad ciphertext = none

/-- **No other password opens it.** -/
theorem openManifest_of_unrelated {lib : Libraries} {username : String} {password other : Bytes}
    {dataKey key : Key} {m : UserManifest} (hother : Unrelated lib password other)
    (h : WrappedFor lib password dataKey m) : openManifest lib username other m ≠ .ok key := by
  intro hopen
  obtain ⟨_, otherKey, aad, hkey, haad, hunwrap⟩ := openManifest_eq_ok.mp hopen
  obtain ⟨nonce, wrappingKey, aad', hkey', haad', hwrap⟩ := h.wrapped
  obtain ⟨salt, hsalt⟩ := h.kdf
  obtain ⟨ciphertext, tag, htag, hencrypt, hwrapped⟩ := wrapWithNonce_eq_ok hwrap
  obtain ⟨nonce', ciphertext', tag', hiv, _, hciphertext, _, htext, hdecrypt⟩ :=
    unwrapDataKey_eq_ok.mp hunwrap
  rw [haad] at haad'
  cases haad'
  rw [hwrapped] at hiv hciphertext htext
  have hnonce := FixedBytes.ext (lib.base64.encode_injective hiv)
  have hciphertext := lib.base64.encode_injective hciphertext
  have htext := lib.base64.encode_injective htext
  rw [hsalt] at hkey hkey'
  have hkeys := hother.keys salt otherKey wrappingKey hkey hkey'
  have hnone := hother.sealed salt otherKey wrappingKey hkey hkey' hkeys nonce aad _ _ hencrypt
  rw [hnonce, hciphertext, htext, hdecrypt] at hnone
  cases hnone

theorem Rewraps.valid {lib : Libraries} {username : String} {current new : Bytes}
    {salt : FixedBytes 16} {m m' : UserManifest} {dataKey : Key} (A : LawfulAead)
    (hA : lib.aead = A.toAead) (h : Rewraps lib username current new salt m m' dataKey)
    (hvalid : m.Valid lib) : m'.Valid lib ∧ m'.wrappedDataKey.Written lib := by
  obtain ⟨nonce, wrappingKey, aad, _, _, hwrap⟩ := h.written.wrapped
  have hwritten := written_of_wrapWithNonce A hA hwrap
  refine ⟨?_, hwritten⟩
  rw [h.header]
  exact ⟨hvalid.version, hvalid.id, hvalid.username, hvalid.createdAt, hvalid.vaultFormat,
    hwritten.algorithm⟩

end CodexVault
