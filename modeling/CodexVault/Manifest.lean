import CodexVault.Aead
import CodexVault.Base64
import CodexVault.PrivatePaths

/-!
# Manifests

A manifest says how the data key of a profile is wrapped.  `associatedData`
covers every field but the wrapped key itself: `associatedData_injective` shows
that nothing else can be read out of it.

`Libraries` collects the parts of the program whose code is elsewhere.
-/

namespace CodexVault

open ByteStrings Programs

/-- `KdfParameters`. -/
structure KdfParameters where
  algorithm : String
  salt : String
  memoryCostKiB : UInt32
  timeCost : UInt32
  parallelism : UInt32
  outputLength : UInt32
  deriving DecidableEq

/-- `WrappedKey`. -/
structure WrappedKey where
  algorithm : String
  iv : String
  ciphertext : String
  authenticationTag : String
  deriving DecidableEq

/-- `UserManifest`. -/
structure UserManifest where
  version : UInt32
  id : String
  username : String
  createdAt : UInt64
  kdf : KdfParameters
  wrappedDataKey : WrappedKey
  vaultFormat : String
  deriving DecidableEq

/-- The libraries the store calls. -/
structure Libraries where
  /-- AES-256-GCM. -/
  aead : Aead
  /-- `argon2::Params::new` accepts memory, time and parallelism. -/
  argon2Params : UInt32 → UInt32 → UInt32 → Bool
  /-- Argon2id of a password and a salt. -/
  argon2id : Bytes → Bytes → UInt32 → UInt32 → UInt32 → Option Key
  /-- `serde_json::to_writer_pretty`. -/
  toJson : UserManifest → Bytes
  /-- `serde_json::from_slice`. -/
  fromJson : Bytes → Except String UserManifest
  /-- `Uuid::to_string`. -/
  uuidText : Uuid → String
  /-- `Uuid::parse_str`. -/
  parseUuid : String → Option Uuid
  /-- `base64::engine::general_purpose::STANDARD`. -/
  base64 : Base64.Engine
  tar : Tar

/-- `MANIFEST_VERSION`. -/
def manifestVersion : UInt32 := 1

/-- `VAULT_FORMAT`. -/
def vaultFormat : String := "cdxvlt02"

/-- The name of the only wrapping algorithm. -/
def wrapAlgorithm : String := "aes-256-gcm"

/-- `u8::is_ascii_alphanumeric`. -/
def isAsciiAlphanumeric (byte : UInt8) : Bool :=
  decide (48 ≤ byte ∧ byte ≤ 57) || decide (65 ≤ byte ∧ byte ≤ 90) ||
    decide (97 ≤ byte ∧ byte ≤ 122)

/-- `is_valid_username`. -/
def isValidUsername (username : String) : Bool :=
  match textBytes username with
  | [] => false
  | first :: rest =>
      decide ((first :: rest).length ≤ 64) && isAsciiAlphanumeric first &&
        (first :: rest).all fun byte =>
          isAsciiAlphanumeric byte || byte == 46 || byte == 95 || byte == 45

/-- `str::to_ascii_lowercase`. -/
def toAsciiLowercase (text : String) : String := String.ofList (text.toList.map Char.toLower)

/-- `str::eq_ignore_ascii_case`. -/
def eqIgnoreAsciiCase (a b : String) : Bool := decide (toAsciiLowercase a = toAsciiLowercase b)

namespace UserManifest

/-- `UserManifest::new_header`. -/
def newHeader (lib : Libraries) (username : String) (kdf : KdfParameters) : Io UserManifest := do
  match ← ask .now with
  | none => throw (.invalidConfiguration "system clock is before Unix epoch")
  | some createdAt => do
      let id ← ask .newUuid
      return {
        version := manifestVersion
        id := lib.uuidText id
        username := username
        createdAt := createdAt
        kdf := kdf
        wrappedDataKey :=
          { algorithm := wrapAlgorithm, iv := "", ciphertext := "", authenticationTag := "" }
        vaultFormat := CodexVault.vaultFormat }

/-- `push_field`. -/
def pushField (value : Bytes) : Except VaultError Bytes :=
  if 2 ^ 32 ≤ value.length then
    .error (.invalidConfiguration "manifest field exceeds encoding limit")
  else .ok (bigEndian 4 value.length ++ value)

/-- The bytes `CDXVAULT-WRAP-AAD-01`. -/
def associatedDataLabel : Bytes :=
  [0x43, 0x44, 0x58, 0x56, 0x41, 0x55, 0x4c, 0x54, 0x2d, 0x57, 0x52, 0x41, 0x50, 0x2d, 0x41,
    0x41, 0x44, 0x2d, 0x30, 0x31]

/-- `UserManifest::associated_data`. -/
def associatedData (m : UserManifest) : Except VaultError Bytes := do
  let id ← pushField (textBytes m.id)
  let username ← pushField (textBytes m.username)
  let algorithm ← pushField (textBytes m.kdf.algorithm)
  let salt ← pushField (textBytes m.kdf.salt)
  let format ← pushField (textBytes m.vaultFormat)
  return associatedDataLabel ++ (bigEndian 4 m.version.toNat ++ (id ++ (username ++
    (bigEndian 8 m.createdAt.toNat ++ (algorithm ++ (salt ++
      (bigEndian 4 m.kdf.memoryCostKiB.toNat ++ (bigEndian 4 m.kdf.timeCost.toNat ++
        (bigEndian 4 m.kdf.parallelism.toNat ++ (bigEndian 4 m.kdf.outputLength.toNat ++
          format))))))))))

/-- `UserManifest::validate`. -/
def validate (lib : Libraries) (m : UserManifest) : Except VaultError Unit :=
  if m.version ≠ manifestVersion ∨ lib.parseUuid m.id = none ∨
      isValidUsername m.username = false ∨ m.createdAt = 0 ∨
      m.vaultFormat ≠ CodexVault.vaultFormat ∨ m.wrappedDataKey.algorithm ≠ wrapAlgorithm then
    .error (.invalidConfiguration "unsupported or invalid user manifest")
  else .ok ()

/-! ## What the associated data determines -/

theorem textBytes_injective {a b : String} (h : textBytes a = textBytes b) : a = b := by
  have hdata : a.toByteArray.data = b.toByteArray.data := Array.toList_inj.mp h
  apply String.toByteArray_inj.mp
  exact ByteArray.ext hdata

theorem pushField_eq_ok {value out : Bytes} :
    pushField value = .ok out ↔
      value.length < 2 ^ 32 ∧ out = bigEndian 4 value.length ++ value := by
  unfold pushField
  split
  · next h =>
      constructor
      · intro h
        cases h
      · rintro ⟨hlt, _⟩
        omega
  · next h =>
      constructor
      · intro heq
        cases heq
        exact ⟨by omega, rfl⟩
      · rintro ⟨_, rfl⟩
        rfl

/-- A field with its length in front can be told from what follows. -/
theorem pushField_append {a b x y : Bytes} {text text' : String}
    (ha : pushField (textBytes text) = .ok a) (hb : pushField (textBytes text') = .ok b)
    (h : a ++ x = b ++ y) : text = text' ∧ x = y := by
  obtain ⟨hlt, rfl⟩ := pushField_eq_ok.mp ha
  obtain ⟨hlt', rfl⟩ := pushField_eq_ok.mp hb
  rw [List.append_assoc, List.append_assoc] at h
  obtain ⟨hlen, hrest⟩ := List.append_inj h (by simp)
  have hlen' := bigEndian_injective (by omega) (by omega) hlen
  obtain ⟨hvalue, hxy⟩ := List.append_inj hrest hlen'
  exact ⟨textBytes_injective hvalue, hxy⟩

/-- A number of fixed width can be told from what follows. -/
theorem bigEndian_append {width m n : Nat} {x y : Bytes} (hm : m < 256 ^ width)
    (hn : n < 256 ^ width) (h : bigEndian width m ++ x = bigEndian width n ++ y) :
    m = n ∧ x = y := by
  obtain ⟨hnum, hxy⟩ := List.append_inj h (by simp)
  exact ⟨bigEndian_injective hm hn hnum, hxy⟩

theorem uint32_append {m n : UInt32} {x y : Bytes}
    (h : bigEndian 4 m.toNat ++ x = bigEndian 4 n.toNat ++ y) : m = n ∧ x = y := by
  have hm := m.toNat_lt
  have hn := n.toNat_lt
  obtain ⟨hnum, hxy⟩ := bigEndian_append (by omega) (by omega) h
  exact ⟨UInt32.toNat_inj.mp hnum, hxy⟩

theorem uint64_append {m n : UInt64} {x y : Bytes}
    (h : bigEndian 8 m.toNat ++ x = bigEndian 8 n.toNat ++ y) : m = n ∧ x = y := by
  have hm := m.toNat_lt
  have hn := n.toNat_lt
  obtain ⟨hnum, hxy⟩ := bigEndian_append (by omega) (by omega) h
  exact ⟨UInt64.toNat_inj.mp hnum, hxy⟩

/-- The parts of the associated data. -/
theorem associatedData_eq_ok {m : UserManifest} {out : Bytes}
    (h : m.associatedData = .ok out) :
    ∃ id username algorithm salt format,
      pushField (textBytes m.id) = .ok id ∧ pushField (textBytes m.username) = .ok username ∧
      pushField (textBytes m.kdf.algorithm) = .ok algorithm ∧
      pushField (textBytes m.kdf.salt) = .ok salt ∧
      pushField (textBytes m.vaultFormat) = .ok format ∧
      out = associatedDataLabel ++ (bigEndian 4 m.version.toNat ++ (id ++ (username ++
        (bigEndian 8 m.createdAt.toNat ++ (algorithm ++ (salt ++
          (bigEndian 4 m.kdf.memoryCostKiB.toNat ++ (bigEndian 4 m.kdf.timeCost.toNat ++
            (bigEndian 4 m.kdf.parallelism.toNat ++ (bigEndian 4 m.kdf.outputLength.toNat ++
              format)))))))))) := by
  unfold associatedData at h
  cases hid : pushField (textBytes m.id) with
  | error e => rw [hid] at h; cases h
  | ok id =>
  cases husername : pushField (textBytes m.username) with
  | error e => rw [hid, husername] at h; cases h
  | ok username =>
  cases halgorithm : pushField (textBytes m.kdf.algorithm) with
  | error e => rw [hid, husername, halgorithm] at h; cases h
  | ok algorithm =>
  cases hsalt : pushField (textBytes m.kdf.salt) with
  | error e => rw [hid, husername, halgorithm, hsalt] at h; cases h
  | ok salt =>
  cases hformat : pushField (textBytes m.vaultFormat) with
  | error e => rw [hid, husername, halgorithm, hsalt, hformat] at h; cases h
  | ok format =>
      rw [hid, husername, halgorithm, hsalt, hformat] at h
      cases h
      exact ⟨id, username, algorithm, salt, format, rfl, rfl, rfl, rfl, rfl, rfl⟩

/-- **The associated data determines the manifest** up to the wrapped key. -/
theorem associatedData_injective {m m' : UserManifest} {out : Bytes}
    (h : m.associatedData = .ok out) (h' : m'.associatedData = .ok out) :
    { m with wrappedDataKey := m'.wrappedDataKey } = m' := by
  obtain ⟨id, username, algorithm, salt, format, hid, husername, halgorithm, hsalt, hformat, rfl⟩ :=
    associatedData_eq_ok h
  obtain ⟨_, _, _, _, _, hid', husername', halgorithm', hsalt', hformat', heq⟩ :=
    associatedData_eq_ok h'
  have heq := List.append_cancel_left heq
  obtain ⟨hversion, heq⟩ := uint32_append heq
  obtain ⟨hid, heq⟩ := pushField_append hid hid' heq
  obtain ⟨husername, heq⟩ := pushField_append husername husername' heq
  obtain ⟨hcreated, heq⟩ := uint64_append heq
  obtain ⟨halgorithm, heq⟩ := pushField_append halgorithm halgorithm' heq
  obtain ⟨hsalt, heq⟩ := pushField_append hsalt hsalt' heq
  obtain ⟨hmemory, heq⟩ := uint32_append heq
  obtain ⟨htime, heq⟩ := uint32_append heq
  obtain ⟨hparallelism, heq⟩ := uint32_append heq
  obtain ⟨hlength, heq⟩ := uint32_append heq
  have hformats : m.vaultFormat = m'.vaultFormat := by
    refine (pushField_append hformat hformat' (x := []) (y := []) ?_).1
    rw [List.append_nil, List.append_nil, heq]
  obtain ⟨version, id, username, created, ⟨algorithm, salt, memory, time, parallelism, length⟩,
    wrapped, format⟩ := m
  obtain ⟨version', id', username', created',
    ⟨algorithm', salt', memory', time', parallelism', length'⟩, wrapped', format'⟩ := m'
  simp_all

/-- **The encoding is injective** on all fields but the wrapped key. -/
theorem associatedData_eq_iff {m m' : UserManifest} {out out' : Bytes}
    (h : m.associatedData = .ok out) (h' : m'.associatedData = .ok out') :
    out = out' ↔
      m.version = m'.version ∧ m.id = m'.id ∧ m.username = m'.username ∧
        m.createdAt = m'.createdAt ∧ m.kdf.algorithm = m'.kdf.algorithm ∧
        m.kdf.salt = m'.kdf.salt ∧ m.kdf.memoryCostKiB = m'.kdf.memoryCostKiB ∧
        m.kdf.timeCost = m'.kdf.timeCost ∧ m.kdf.parallelism = m'.kdf.parallelism ∧
        m.kdf.outputLength = m'.kdf.outputLength ∧ m.vaultFormat = m'.vaultFormat := by
  constructor
  · rintro rfl
    have hsame := associatedData_injective h h'
    rw [← hsame]
    exact ⟨rfl, rfl, rfl, rfl, rfl, rfl, rfl, rfl, rfl, rfl, rfl⟩
  · rintro ⟨hversion, hid, husername, hcreated, halgorithm, hsalt, hmemory, htime, hparallelism,
      hlength, hformat⟩
    have hsame : m.associatedData = m'.associatedData := by
      unfold associatedData
      rw [hversion, hid, husername, hcreated, halgorithm, hsalt, hmemory, htime, hparallelism,
        hlength, hformat]
    rw [h, h'] at hsame
    exact Except.ok.inj hsame

/-- A byte shifted from one field to the next shows. -/
theorem associatedData_eq_iff_shifted :
    ∃ out out', out ≠ out' ∧
      associatedData ⟨1, "ab", "c", 1, ⟨"", "", 0, 0, 0, 0⟩, ⟨"", "", "", ""⟩, ""⟩ = .ok out ∧
      associatedData ⟨1, "a", "bc", 1, ⟨"", "", 0, 0, 0, 0⟩, ⟨"", "", "", ""⟩, ""⟩ = .ok out' := by
  refine ⟨_, _, fun heq => ?_, rfl, rfl⟩
  have hfirst :
      associatedData ⟨1, "ab", "c", 1, ⟨"", "", 0, 0, 0, 0⟩, ⟨"", "", "", ""⟩, ""⟩ = .ok _ := rfl
  have hsecond :
      associatedData ⟨1, "a", "bc", 1, ⟨"", "", 0, 0, 0, 0⟩, ⟨"", "", "", ""⟩, ""⟩ = .ok _ := rfl
  obtain ⟨_, hid, _⟩ := (associatedData_eq_iff hfirst hsecond).mp heq
  exact absurd hid (by decide)

end UserManifest

end CodexVault
