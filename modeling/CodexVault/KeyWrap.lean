import CodexVault.FrameFormat
import CodexVault.Manifest

/-!
# Key derivation and key wrapping

The wrapping key comes from the password and the parameters in the manifest; the
data key is encrypted under it, with the rest of the manifest as associated data.
The manifest stores nonce, ciphertext and tag as separate base64 texts.
-/

namespace CodexVault

open ByteStrings Programs

/-- The parameters `default_kdf_parameters` makes around a salt. -/
def kdfParametersFor (lib : Libraries) (salt : FixedBytes 16) : KdfParameters where
  algorithm := "argon2id"
  salt := lib.base64.encode salt.toBytes
  memoryCostKiB := 64 * 1024
  timeCost := 3
  parallelism := 1
  outputLength := 32

/-- `default_kdf_parameters`. -/
def defaultKdfParameters (lib : Libraries) : Io KdfParameters := do
  match ← ask (.random 16) with
  | none => throw (.cryptography "operating-system random source failed")
  | some salt => return kdfParametersFor lib salt

/-- `validate_parameters`. -/
def validateParameters (p : KdfParameters) : Except VaultError Unit :=
  if p.algorithm ≠ "argon2id" ∨
      ¬ (16 * 1024 ≤ p.memoryCostKiB.toNat ∧ p.memoryCostKiB.toNat ≤ 256 * 1024) ∨
      ¬ (1 ≤ p.timeCost.toNat ∧ p.timeCost.toNat ≤ 10) ∨
      ¬ (1 ≤ p.parallelism.toNat ∧ p.parallelism.toNat ≤ 16) ∨ p.outputLength ≠ 32 then
    .error (.invalidConfiguration "invalid Argon2id parameters in user manifest")
  else .ok ()

/-- `derive_key`. -/
def deriveKey (lib : Libraries) (password : Bytes) (p : KdfParameters) : Except VaultError Key :=
  match validateParameters p with
  | .error e => .error e
  | .ok () =>
      match lib.base64.decode p.salt with
      | none => .error (.invalidConfiguration "invalid KDF salt encoding")
      | some salt =>
          if salt.length ≠ 16 then .error (.invalidConfiguration "invalid KDF salt length")
          else if lib.argon2Params p.memoryCostKiB p.timeCost p.parallelism = false then
            .error (.invalidConfiguration "invalid Argon2id parameters")
          else match lib.argon2id password salt p.memoryCostKiB p.timeCost p.parallelism with
            | none => .error (.cryptography "Argon2id key derivation failed")
            | some key => .ok key

/-- `wrap_data_key` after the nonce is drawn. -/
def wrapWithNonce (lib : Libraries) (nonce : FixedBytes 12) (dataKey wrappingKey : Key)
    (associatedData : Bytes) : Except VaultError WrappedKey :=
  match lib.aead.encrypt wrappingKey nonce associatedData dataKey.toBytes with
  | none => .error (.cryptography "data-key wrapping failed")
  | some encrypted =>
      if encrypted.length < tagLength then
        .error (.cryptography "invalid wrapped data-key length")
      else
        let split := encrypted.length - tagLength
        .ok {
          algorithm := wrapAlgorithm
          iv := lib.base64.encode nonce.toBytes
          ciphertext := lib.base64.encode (encrypted.take split)
          authenticationTag := lib.base64.encode (encrypted.drop split) }

/-- `wrap_data_key`. -/
def wrapDataKey (lib : Libraries) (dataKey wrappingKey : Key) (associatedData : Bytes) :
    Io WrappedKey := do
  match ← ask (.random 12) with
  | none => throw (.cryptography "operating-system random source failed")
  | some nonce => ofExcept (wrapWithNonce lib nonce dataKey wrappingKey associatedData)

/-- `unwrap_data_key`. -/
def unwrapDataKey (lib : Libraries) (wrapped : WrappedKey) (wrappingKey : Key)
    (associatedData : Bytes) : Except VaultError Key :=
  match lib.base64.decode wrapped.iv, lib.base64.decode wrapped.ciphertext,
      lib.base64.decode wrapped.authenticationTag with
  | some nonceBytes, some ciphertext, some tag =>
      match FixedBytes.ofBytes? 12 nonceBytes with
      | none => .error .authentication
      | some nonce =>
          if ciphertext.length ≠ 32 ∨ tag.length ≠ tagLength then .error .authentication
          else match lib.aead.decrypt wrappingKey nonce associatedData (ciphertext ++ tag) with
            | none => .error .authentication
            | some plaintext =>
                match FixedBytes.ofBytes? 32 plaintext with
                | none => .error .authentication
                | some key => .ok key
  | _, _, _ => .error .authentication

/-! ## Facts -/

theorem validateParameters_kdfParametersFor (lib : Libraries) (salt : FixedBytes 16) :
    validateParameters (kdfParametersFor lib salt) = .ok () := by
  apply if_neg
  have htime : (3 : UInt32).toNat = 3 := by decide
  have hparallel : (1 : UInt32).toNat = 1 := by decide
  simp [kdfParametersFor, htime, hparallel]

/-- **What an unwrapped key was.**  Its three texts are the canonical encodings of a
nonce and of a ciphertext that opens to it. -/
theorem unwrapDataKey_eq_ok {lib : Libraries} {wrapped : WrappedKey} {wrappingKey key : Key}
    {aad : Bytes} :
    unwrapDataKey lib wrapped wrappingKey aad = .ok key ↔
      ∃ (nonce : FixedBytes 12) (ciphertext tag : Bytes),
        wrapped.iv = lib.base64.encode nonce.toBytes ∧ ciphertext.length = 32 ∧
        wrapped.ciphertext = lib.base64.encode ciphertext ∧ tag.length = tagLength ∧
        wrapped.authenticationTag = lib.base64.encode tag ∧
        lib.aead.decrypt wrappingKey nonce aad (ciphertext ++ tag) = some key.toBytes := by
  constructor
  · intro h
    unfold unwrapDataKey at h
    split at h
    · next nonceBytes ciphertext tag hiv hciphertext htag =>
        split at h
        · cases h
        · next nonce hnonce =>
            split at h
            · cases h
            · next hlengths =>
                split at h
                · cases h
                · next plaintext hdecrypt =>
                    split at h
                    · cases h
                    · next key' hkey =>
                        cases h
                        have hlen := not_or.mp hlengths
                        have hbytes := FixedBytes.ofBytes?_eq_some.mp hkey
                        have hnonce := FixedBytes.ofBytes?_eq_some.mp hnonce
                        refine ⟨nonce, ciphertext, tag, ?_, not_not.mp hlen.1,
                          lib.base64.decode_eq_some.mp hciphertext, not_not.mp hlen.2,
                          lib.base64.decode_eq_some.mp htag, ?_⟩
                        · rw [hnonce]
                          exact lib.base64.decode_eq_some.mp hiv
                        · rw [hbytes]
                          exact hdecrypt
    · cases h
  · rintro ⟨nonce, ciphertext, tag, hiv, hlen, hciphertext, htag, htext, hdecrypt⟩
    unfold unwrapDataKey
    rw [hiv, hciphertext, htext]
    simp only [Base64.Engine.decode_encode, FixedBytes.ofBytes?_toBytes, hlen, htag, hdecrypt]
    simp

/-- **What a wrapped key is.** -/
theorem wrapWithNonce_eq_ok {lib : Libraries} {nonce : FixedBytes 12} {dataKey wrappingKey : Key}
    {aad : Bytes} {wrapped : WrappedKey}
    (h : wrapWithNonce lib nonce dataKey wrappingKey aad = .ok wrapped) :
    ∃ ciphertext tag, tag.length = tagLength ∧
      lib.aead.encrypt wrappingKey nonce aad dataKey.toBytes = some (ciphertext ++ tag) ∧
      wrapped = { algorithm := wrapAlgorithm, iv := lib.base64.encode nonce.toBytes,
                  ciphertext := lib.base64.encode ciphertext,
                  authenticationTag := lib.base64.encode tag } := by
  unfold wrapWithNonce at h
  split at h
  · cases h
  · next encrypted hencrypt =>
      split at h
      · cases h
      · next hlen =>
          cases h
          refine ⟨_, _, ?_, ?_, rfl⟩
          · rw [List.length_drop]
            omega
          · rw [List.take_append_drop]
            exact hencrypt

end CodexVault
