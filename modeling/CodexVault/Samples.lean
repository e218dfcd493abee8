import CodexVault.RestoredTrees
import CodexVault.SecondNames
import Mathlib.Data.List.Dedup
import Mathlib.Data.List.Sort

/-!
# Sample libraries

Concrete libraries that satisfy the laws the results assume: a text format for
manifests, hyphenated UUIDs, a cipher whose tag is half of its key, and a key
derivation that joins password and salt.  A small machine goes with them.
-/

namespace CodexVault

open ByteStrings Programs Contract

/-- A way to write values so that they can be read back from the front of any
byte string. -/
structure Codec (α : Type) where
  write : α → Bytes
  read : Bytes → Option (α × Bytes)
  read_write : ∀ a rest, read (write a ++ rest) = some (a, rest)

namespace Codec

variable {α β : Type}

/-- One value after another. -/
def pair (c : Codec α) (d : Codec β) : Codec (α × β) where
  write x := c.write x.1 ++ d.write x.2
  read b := (c.read b).bind fun (x, rest) => (d.read rest).map fun (y, rest) => ((x, y), rest)
  read_write := by
    intro x rest
    rw [List.append_assoc, c.read_write, Option.bind_some]
    dsimp only
    rw [d.read_write, Option.map_some]

/-- The values of another type, by what they stand for. -/
def via (c : Codec α) (view : β → α) (back : α → β) (h : ∀ b, back (view b) = b) :
    Codec β where
  write b := c.write (view b)
  read b := (c.read b).map fun (a, rest) => (back a, rest)
  read_write := by
    intro b rest
    rw [c.read_write, Option.map_some]
    dsimp only
    rw [h]

/-- A number below `256 ^ width`. -/
def number (width : Nat) : Codec (Fin (256 ^ width)) where
  write n := bigEndian width n.val
  read b :=
    if h : width ≤ b.length then
      some (⟨value (b.take width), by
        have hlt := value_lt (b.take width)
        rwa [List.length_take, Nat.min_eq_left h] at hlt⟩, b.drop width)
    else none
  read_write := by
    intro n rest
    have hlen : (bigEndian width n.val).length = width := length_bigEndian _ _
    rw [dif_pos (by rw [List.length_append, hlen]; omega)]
    simp only [List.take_left' hlen, List.drop_left' hlen, value_bigEndian_of_lt n.isLt]

/-- The elements, each behind a mark, up to the end mark. -/
def readList (c : Codec α) : Nat → Bytes → Option (List α × Bytes)
  | fuel + 1, 1 :: rest =>
      (c.read rest).bind fun (a, rest) =>
        (readList c fuel rest).map fun (l, rest) => (a :: l, rest)
  | _ + 1, 0 :: rest => some ([], rest)
  | _, _ => none

/-- A list of any length. -/
def list (c : Codec α) : Codec (List α) where
  write l := l.flatMap (fun a => 1 :: c.write a) ++ [0]
  read b := readList c b.length b
  read_write := by
    intro l rest
    have hread : ∀ fuel, l.length < fuel →
        readList c fuel (l.flatMap (fun a => 1 :: c.write a) ++ [0] ++ rest) = some (l, rest) := by
      induction l with
      | nil =>
          intro fuel hfuel
          obtain ⟨n, rfl⟩ := Nat.exists_eq_succ_of_ne_zero (Nat.ne_of_gt hfuel)
          rfl
      | cons a l ih =>
          intro fuel hfuel
          obtain ⟨n, rfl⟩ := Nat.exists_eq_succ_of_ne_zero (Nat.ne_zero_of_lt hfuel)
          have hrest := ih n (Nat.lt_of_succ_lt_succ hfuel)
          simp only [List.flatMap_cons, List.cons_append, List.append_assoc] at hrest ⊢
          rw [readList, c.read_write, Option.bind_some]
          simp only [hrest, Option.map_some]
    apply hread
    have hlen : ∀ l : List α, l.length ≤ (l.flatMap fun a => 1 :: c.write a).length := by
      intro l
      induction l with
      | nil => exact Nat.le_refl _
      | cons a l ih =>
          simp only [List.flatMap_cons, List.length_append, List.length_cons]
          omega
    have hlen := hlen l
    rw [List.length_append, List.length_append, List.length_singleton]
    omega

def uint32 : Codec UInt32 :=
  (number 4).via (fun n => ⟨n.toNat, n.toNat_lt⟩) (fun n => UInt32.ofNat n.val)
    fun _ => UInt32.ofNat_toNat

def uint64 : Codec UInt64 :=
  (number 8).via (fun n => ⟨n.toNat, n.toNat_lt⟩) (fun n => UInt64.ofNat n.val)
    fun _ => UInt64.ofNat_toNat

def char : Codec Char :=
  (number 3).via
    (fun c => ⟨c.toNat, by
      have h := c.valid
      have hlt : c.toNat < 0x110000 := by
        rcases h with h | h
        · exact Nat.lt_of_lt_of_le h (by decide)
        · exact h.2
      exact Nat.lt_of_lt_of_le hlt (by decide)⟩)
    (fun n => Char.ofNat n.val) fun c => Char.ofNat_toNat c

def byte : Codec UInt8 :=
  (number 1).via (fun n => ⟨n.toNat, n.toNat_lt⟩) (fun n => UInt8.ofNat n.val)
    fun _ => UInt8.ofNat_toNat

def text : Codec String :=
  (list char).via String.toList String.ofList fun _ => String.ofList_toList

def kdfParameters : Codec KdfParameters :=
  (text.pair (text.pair (uint32.pair (uint32.pair (uint32.pair uint32))))).via
    (fun p => (p.algorithm, p.salt, p.memoryCostKiB, p.timeCost, p.parallelism, p.outputLength))
    (fun x => ⟨x.1, x.2.1, x.2.2.1, x.2.2.2.1, x.2.2.2.2.1, x.2.2.2.2.2⟩)
    fun _ => rfl

def wrappedKey : Codec WrappedKey :=
  (text.pair (text.pair (text.pair text))).via
    (fun k => (k.algorithm, k.iv, k.ciphertext, k.authenticationTag))
    (fun x => ⟨x.1, x.2.1, x.2.2.1, x.2.2.2⟩)
    fun _ => rfl

def userManifest : Codec UserManifest :=
  (uint32.pair (text.pair (text.pair (uint64.pair
    (kdfParameters.pair (wrappedKey.pair text)))))).via
    (fun m => (m.version, m.id, m.username, m.createdAt, m.kdf, m.wrappedDataKey, m.vaultFormat))
    (fun x => ⟨x.1, x.2.1, x.2.2.1, x.2.2.2.1, x.2.2.2.2.1, x.2.2.2.2.2.1, x.2.2.2.2.2.2⟩)
    fun _ => rfl

theorem length_text (s : String) : (text.write s).length ≤ 4 * (textBytes s).length + 1 := by
  have hbytes : (textBytes s).length = (s.toList.flatMap String.utf8EncodeChar).length := by
    rw [← textBytes_ofList, String.ofList_toList]
  have hlist : ∀ l : List Char, (l.flatMap fun a => 1 :: char.write a).length ≤
      4 * (l.flatMap String.utf8EncodeChar).length := by
    intro l
    induction l with
    | nil => exact Nat.le_refl _
    | cons c l ih =>
        have hchar : (char.write c).length = 3 := length_bigEndian _ _
        have hpos := c.utf8Size_pos
        simp only [List.flatMap_cons, List.length_append, List.length_cons, hchar,
          String.length_utf8EncodeChar]
        omega
  have h := hlist s.toList
  rw [hbytes]
  change (s.toList.flatMap (fun a => 1 :: char.write a) ++ [0]).length ≤ _
  rw [List.length_append, List.length_singleton]
  omega

theorem length_userManifest (m : UserManifest) :
    (userManifest.write m).length ≤ 1024 + 6 * m.textLength := by
  have h1 := length_text m.id
  have h2 := length_text m.username
  have h3 := length_text m.kdf.algorithm
  have h4 := length_text m.kdf.salt
  have h5 := length_text m.wrappedDataKey.algorithm
  have h6 := length_text m.wrappedDataKey.iv
  have h7 := length_text m.wrappedDataKey.ciphertext
  have h8 := length_text m.wrappedDataKey.authenticationTag
  have h9 := length_text m.vaultFormat
  have h32 : ∀ n : UInt32, (uint32.write n).length = 4 := fun _ => length_bigEndian _ _
  have h64 : ∀ n : UInt64, (uint64.write n).length = 8 := fun _ => length_bigEndian _ _
  simp only [userManifest, kdfParameters, wrappedKey, via, pair, List.length_append, h32, h64,
    UserManifest.textLength]
  omega

end Codec

/-! ## UUIDs -/

/-- A lower-case hexadecimal digit. -/
def hexDigit (n : Nat) : Char := Char.ofNat (if n < 10 then 48 + n else 87 + n)

def hexValue (c : Char) : Option UInt8 :=
  if 48 ≤ c.toNat ∧ c.toNat ≤ 57 then some (UInt8.ofNat (c.toNat - 48))
  else if 97 ≤ c.toNat ∧ c.toNat ≤ 102 then some (UInt8.ofNat (c.toNat - 87))
  else none

def hexDigits (b : Bytes) : List Char :=
  b.flatMap fun x => [hexDigit (x.toNat / 16), hexDigit (x.toNat % 16)]

def readHex : List Char → Option Bytes
  | [] => some []
  | a :: b :: rest => do
      let high ← hexValue a
      let low ← hexValue b
      return (16 * high + low) :: (← readHex rest)
  | _ => none

/-- The groups of 8, 4, 4, 4 and 12 digits. -/
def hyphenated (digits : List Char) : List Char :=
  digits.take 8 ++ '-' :: ((digits.drop 8).take 4 ++ '-' :: ((digits.drop 12).take 4 ++
    '-' :: ((digits.drop 16).take 4 ++ '-' :: digits.drop 20)))

def hyphenatedUuid (id : Uuid) : String := String.ofList (hyphenated (hexDigits id.toBytes))

/-- The UUID a text is the hyphenated form of. -/
def parseHyphenated (text : String) : Option Uuid :=
  (readHex (text.toList.filter (· ≠ '-'))).bind fun bytes =>
    (FixedBytes.ofBytes? 16 bytes).filter fun id => decide (hyphenatedUuid id = text)

theorem hexValue_hexDigit : ∀ n < 16, hexValue (hexDigit n) = some (UInt8.ofNat n) := by
  decide

theorem hexDigit_facts : ∀ n < 16, hexDigit n ≠ '-' ∧ (hexDigit n).utf8Size = 1 := by
  decide

theorem readHex_hexDigits (b : Bytes) : readHex (hexDigits b) = some b := by
  induction b with
  | nil => rfl
  | cons x rest ih =>
      have hlt := x.toNat_lt
      have hbyte : 16 * UInt8.ofNat (x.toNat / 16) + UInt8.ofNat (x.toNat % 16) = x := by
        apply UInt8.toNat_inj.mp
        simp
        omega
      change readHex (hexDigit _ :: hexDigit _ :: hexDigits rest) = _
      rw [readHex, hexValue_hexDigit _ (by omega), hexValue_hexDigit _ (by omega), ih]
      simp [hbyte]

theorem mem_hexDigits {b : Bytes} {c : Char} (h : c ∈ hexDigits b) :
    c ≠ '-' ∧ c.utf8Size = 1 := by
  obtain ⟨x, _, hc⟩ := List.mem_flatMap.mp h
  have hlt := x.toNat_lt
  rw [List.mem_cons, List.mem_singleton] at hc
  rcases hc with rfl | rfl
  · exact hexDigit_facts _ (by omega)
  · exact hexDigit_facts _ (by omega)

theorem filter_hyphenated {digits : List Char} (h : ∀ c ∈ digits, c ≠ '-') :
    (hyphenated digits).filter (· ≠ '-') = digits := by
  have hall : ∀ l : List Char, l ⊆ digits → l.filter (· ≠ '-') = l := by
    intro l hl
    apply List.filter_eq_self.mpr
    intro c hc
    simpa using h c (hl hc)
  have htake : ∀ i n, ((digits.drop i).take n).filter (· ≠ '-') = (digits.drop i).take n :=
    fun i n => hall _ fun c hc => List.mem_of_mem_drop (List.mem_of_mem_take hc)
  have hzero := htake 0 8
  rw [List.drop_zero] at hzero
  unfold hyphenated
  simp only [List.filter_append, List.filter_cons, ne_eq, not_true_eq_false, decide_false,
    Bool.false_eq_true, if_false]
  have hlast := hall (digits.drop 20) (List.drop_subset _ _)
  simp only [ne_eq] at hzero htake hlast
  rw [hzero, htake, htake, htake, hlast]
  have hdrop : ∀ i j, digits.drop (i + j) = (digits.drop i).drop j := fun i j => by
    rw [List.drop_drop]
  rw [hdrop 16 4, List.take_append_drop, hdrop 12 4, List.take_append_drop, hdrop 8 4,
    List.take_append_drop, List.take_append_drop]

theorem parseHyphenated_hyphenatedUuid (id : Uuid) :
    parseHyphenated (hyphenatedUuid id) = some id := by
  have hdigits : ∀ c ∈ hexDigits id.toBytes, c ≠ '-' := fun c hc => (mem_hexDigits hc).1
  have hfilter := filter_hyphenated hdigits
  unfold parseHyphenated
  rw [show (hyphenatedUuid id).toList = hyphenated (hexDigits id.toBytes) from
    String.toList_ofList, hfilter, readHex_hexDigits]
  simp

theorem length_hexDigits (b : Bytes) : (hexDigits b).length = 2 * b.length := by
  induction b with
  | nil => rfl
  | cons x rest ih =>
      change (hexDigits rest).length + 1 + 1 = _
      rw [ih, List.length_cons]
      omega

/-- A text of one-byte letters. -/
theorem length_textBytes_of_ascii {chars : List Char} (h : ∀ c ∈ chars, c.utf8Size = 1) :
    (textBytes (String.ofList chars)).length = chars.length := by
  rw [textBytes_ofList]
  induction chars with
  | nil => rfl
  | cons c rest ih =>
      rw [List.flatMap_cons, List.length_append, String.length_utf8EncodeChar,
        h c List.mem_cons_self, ih fun d hd => h d (List.mem_cons_of_mem _ hd), List.length_cons]
      omega

theorem mem_hyphenated {digits : List Char} {c : Char} (hc : c ∈ hyphenated digits) :
    c = '-' ∨ c ∈ digits := by
  simp only [hyphenated, List.mem_append, List.mem_cons] at hc
  rcases hc with h | rfl | h | rfl | h | rfl | h | rfl | h
  · exact .inr (List.mem_of_mem_take h)
  · exact .inl rfl
  · exact .inr (List.mem_of_mem_drop (List.mem_of_mem_take h))
  · exact .inl rfl
  · exact .inr (List.mem_of_mem_drop (List.mem_of_mem_take h))
  · exact .inl rfl
  · exact .inr (List.mem_of_mem_drop (List.mem_of_mem_take h))
  · exact .inl rfl
  · exact .inr (List.mem_of_mem_drop h)

theorem length_hyphenatedUuid (id : Uuid) : (textBytes (hyphenatedUuid id)).length = 36 := by
  unfold hyphenatedUuid
  rw [length_textBytes_of_ascii]
  · have hlen := length_hexDigits id.toBytes
    rw [id.length_toBytes] at hlen
    simp [hyphenated, hlen]
  · intro c hc
    have hmem := mem_hyphenated hc
    rcases hmem with rfl | h
    · decide
    · exact (mem_hexDigits h).2

/-! ## Libraries -/

/-- A cipher that appends the first half of the key. -/
def taggingAead : LawfulAead where
  encrypt key _ _ message := some (message ++ key.toBytes.take 16)
  decrypt key _ _ ciphertext :=
    if ciphertext.drop (ciphertext.length - 16) = key.toBytes.take 16 then
      some (ciphertext.take (ciphertext.length - 16))
    else none
  encrypt_isSome := fun key _ _ message _ => ⟨message ++ key.toBytes.take 16, rfl⟩
  length_encrypt := by
    intro key nonce aad message ciphertext h
    rw [← Option.some.inj h, List.length_append, List.length_take, key.length_toBytes]
    rfl
  decrypt_encrypt := by
    intro key nonce aad message ciphertext h
    rw [← Option.some.inj h]
    simp [key.length_toBytes]

/-- The first sixteen bytes of a text, filled up with zeros. -/
def firstSixteen (b : Bytes) : Bytes := (b ++ List.replicate 16 0).take 16

theorem length_firstSixteen (b : Bytes) : (firstSixteen b).length = 16 := by
  simp [firstSixteen]

/-- Password and salt, side by side. -/
def joinedKey (password salt : Bytes) : Key :=
  ⟨firstSixteen password ++ firstSixteen salt, by
    rw [List.length_append, length_firstSixteen, length_firstSixteen]⟩

/-- Libraries over a tar format. -/
def sampleLibraries (tar : Tar) : Libraries where
  aead := taggingAead.toAead
  argon2Params _ _ _ := true
  argon2id password salt _ _ _ := some (joinedKey password salt)
  toJson := Codec.userManifest.write
  fromJson b :=
    match Codec.userManifest.read b with
    | some (manifest, [10]) => .ok manifest
    | _ => .error "invalid JSON"
  uuidText := hyphenatedUuid
  parseUuid := parseHyphenated
  base64 := Base64.standard
  tar := tar

theorem textLaws_sample (tar : Tar) : TextLaws (sampleLibraries tar) where
  fromJson_toJson := by
    intro m
    change (match Codec.userManifest.read (Codec.userManifest.write m ++ [10]) with
      | some (manifest, [10]) => Except.ok manifest
      | _ => Except.error "invalid JSON") = .ok m
    rw [Codec.userManifest.read_write]
    rfl
  length_toJson := Codec.length_userManifest
  length_uuid := by
    intro text id h
    obtain ⟨bytes, _, hfilter⟩ := Option.bind_eq_some_iff.mp h
    obtain ⟨_, htext⟩ := Option.filter_eq_some_iff.mp hfilter
    rw [← of_decide_eq_true htext, length_hyphenatedUuid]
    decide
  parse_uuidText := parseHyphenated_hyphenatedUuid

/-- Passwords that differ in their first sixteen bytes have unrelated keys. -/
theorem unrelated_sample {tar : Tar} {password other : Bytes}
    (h : firstSixteen password ≠ firstSixteen other) :
    Unrelated (sampleLibraries tar) password other := by
  have hkey : ∀ {text salt key},
      deriveKey (sampleLibraries tar) text (kdfParametersFor (sampleLibraries tar) salt) =
        .ok key → key.toBytes.take 16 = firstSixteen text := by
    intro text salt key hderive
    unfold deriveKey at hderive
    rw [validateParameters_kdfParametersFor] at hderive
    simp only [kdfParametersFor, Base64.Engine.decode_encode, salt.length_toBytes, ne_eq,
      not_true_eq_false, if_false] at hderive
    cases hderive
    exact List.take_left' (length_firstSixteen text)
  refine ⟨fun salt key key' hother hpassword heq => ?_,
    fun salt key key' hother hpassword _ nonce aad message ciphertext hencrypt => ?_⟩
  · rw [← hkey hother, ← hkey hpassword, heq] at h
    exact h rfl
  · have htag : ciphertext = message ++ key'.toBytes.take 16 := (Option.some.inj hencrypt).symm
    change (if _ then _ else _) = _
    rw [if_neg]
    rw [htag, hkey hother, hkey hpassword, List.length_append, length_firstSixteen,
      Nat.add_sub_cancel, List.drop_left]
    exact h

/-! ## A machine -/

namespace FileSystem

/-- Only the root directory. -/
def bare (attr : Attr) : FileSystem where
  node p := if p = [] then some (.directory attr) else none
  paths := [[]]
  mem_paths := by
    intro p hp
    split at hp
    · next h =>
        rw [h]
        exact List.mem_singleton_self _
    · exact absurd rfl hp
  parent_of := by
    intro p name hp
    rw [if_neg (List.append_ne_nil_of_right_ne_nil p (List.cons_ne_nil _ _))] at hp
    exact absurd rfl hp

/-- A file system with the listed nodes, each put after the directory it is in. -/
def holding (attr : Attr) (nodes : List (FsPath × Node)) : FileSystem :=
  nodes.foldl (fun fs entry => fs.place entry.1 entry.2) (bare attr)

/-- The paths at and below a directory, short paths first. -/
def listingOf (fs : FileSystem) (directory : FsPath) : List FsPath :=
  ((fs.paths.dedup.filter fun p => decide (directory <+: p) && (fs.node p).isSome).map
    (List.drop directory.length)).insertionSort fun a b => a.length ≤ b.length

theorem enumerates_listingOf (fs : FileSystem) (directory : FsPath) :
    fs.Enumerates directory (fs.listingOf directory) where
  mem_iff := by
    intro path
    unfold listingOf
    rw [List.mem_insertionSort, List.mem_map]
    constructor
    · rintro ⟨p, hp, rfl⟩
      rw [List.mem_filter, Bool.and_eq_true, decide_eq_true_eq] at hp
      obtain ⟨_, ⟨rest, rfl⟩, hsome⟩ := hp
      rw [List.drop_left]
      exact Option.isSome_iff_ne_none.mp hsome
    · intro h
      refine ⟨directory ++ path, ?_, List.drop_left⟩
      rw [List.mem_filter, List.mem_dedup, Bool.and_eq_true, decide_eq_true_eq]
      exact ⟨fs.mem_paths h, List.prefix_append _ _, Option.isSome_iff_ne_none.mpr h⟩
  parentFirst := by
    have hnodup : (fs.listingOf directory).Nodup := by
      unfold listingOf
      rw [(List.perm_insertionSort _ _).nodup_iff]
      refine List.Nodup.map_on ?_ (fs.paths.nodup_dedup.filter _)
      intro p hp q hq heq
      rw [List.mem_filter, Bool.and_eq_true, decide_eq_true_eq] at hp hq
      obtain ⟨_, ⟨rest, rfl⟩, _⟩ := hp
      obtain ⟨_, ⟨rest', rfl⟩, _⟩ := hq
      rw [List.drop_left, List.drop_left] at heq
      rw [heq]
    have hsorted : (fs.listingOf directory).Pairwise fun a b => a.length ≤ b.length :=
      List.pairwise_insertionSort _ _
    refine (hsorted.and hnodup).imp ?_
    rintro a b ⟨hle, hne⟩ habove
    exact hne (habove.eq_of_length_le hle).symm

end FileSystem

/-- A process of user 1000. -/
def sampleEnv : Env where
  uid := 1000
  process := 42
  foreign _ := false
  directoryMode := 0o755
  tempDir := ["tmp"]
  runtimeOverride := none
  xdgRuntimeDir := none

/-- Nothing fails; the random bytes are all `entropy` and each call has its own
UUID. -/
def sampleOracle (entropy : UInt8) (n : Nat) : Oracle where
  fault := none
  transfer := none
  progress := 0
  removed _ := false
  listing := []
  entropy _ := entropy
  uuid := ⟨bigEndian 16 n, length_bigEndian _ _⟩
  clock := some 1
  name := "session"

/-- The same, with a failure of one call. -/
def failingOracle (call : Nat) (kind : ErrorKind) (n : Nat) : Oracle :=
  { sampleOracle 1 n with fault := if n = call then some kind else none }

/-- The machine that answers call number `n` by oracle `n`. -/
def playing (env : Env) (oracles : Nat → Oracle) (n : Nat) (op : Op) (w : World) :
    op.Reply × World :=
  let listing := match op with
    | .readTree p => w.fs.listingOf p
    | _ => []
  serve env { oracles n with listing := listing } w op

theorem may_playing {env : Env} {allowed : Oracle → Prop} {oracles : Nat → Oracle}
    (hallowed : ∀ n listing, allowed { oracles n with listing := listing })
    (htransfer : ∀ n, (oracles n).transfer = none) (n : Nat) (op : Op) (w : World) :
    (machine env allowed).may op w (playing env oracles n op w).1
      (playing env oracles n op w).2 := by
  refine ⟨_, hallowed n _, ⟨?_, ?_⟩, rfl⟩
  · rintro p rfl
    exact w.fs.enumerates_listingOf p
  · intro fault h
    change (oracles n).transfer = some fault at h
    rw [htransfer] at h
    cases h

/-- **A run on the sample machine.** -/
theorem runs_playing {env : Env} {allowed : Oracle → Prop} {oracles : Nat → Oracle}
    (hallowed : ∀ n listing, allowed { oracles n with listing := listing })
    (htransfer : ∀ n, (oracles n).transfer = none) {α : Type} (p : Prog Op Op.Reply α)
    (w : World) :
    (machine env allowed).Runs p w (p.execute (playing env oracles) 0 w).1
      (p.execute (playing env oracles) 0 w).2 :=
  Contract.runs_execute (may_playing hallowed htransfer) 0 p w

/-- The machine with second names that answers call number `n` by oracle `n`. -/
def namedPlaying (env : Env) (oracles : Nat → Oracle) (n : Nat) (op : Op) (w : NamedWorld) :
    op.Reply × NamedWorld :=
  let listing := match op with
    | .readTree p => w.world.fs.listingOf p
    | _ => []
  namedServe env { oracles n with listing := listing } w op

theorem may_namedPlaying {env : Env} {allowed : Oracle → Prop} {oracles : Nat → Oracle}
    (hallowed : ∀ n listing, allowed { oracles n with listing := listing })
    (htransfer : ∀ n, (oracles n).transfer = none) (n : Nat) (op : Op) (w : NamedWorld) :
    (namedMachine env allowed).may op w (namedPlaying env oracles n op w).1
      (namedPlaying env oracles n op w).2 := by
  refine ⟨_, hallowed n _, ⟨?_, ?_⟩, rfl⟩
  · rintro p rfl
    exact w.world.fs.enumerates_listingOf p
  · intro fault h
    change (oracles n).transfer = some fault at h
    rw [htransfer] at h
    cases h

theorem runs_namedPlaying {env : Env} {allowed : Oracle → Prop} {oracles : Nat → Oracle}
    (hallowed : ∀ n listing, allowed { oracles n with listing := listing })
    (htransfer : ∀ n, (oracles n).transfer = none) {α : Type} (p : Prog Op Op.Reply α)
    (w : NamedWorld) :
    (namedMachine env allowed).Runs p w (p.execute (namedPlaying env oracles) 0 w).1
      (p.execute (namedPlaying env oracles) 0 w).2 :=
  Contract.runs_execute (may_namedPlaying hallowed htransfer) 0 p w

/-- The file at `p`, if there is one, has the second name `q`. -/
def World.linked (w : World) (p q : FsPath) : NamedWorld :=
  let fs := match w.fs.node p with
    | some n => w.fs.place q n
    | none => w.fs
  let linked := fs.isRegular p && decide (fs.node q = fs.node p)
  { world := { w with fs := fs }
    sameFile := fun a b => linked && decide (a = p ∨ a = q) && decide (b = p ∨ b = q)
    written := []
    agree := by
      intro a b h
      simp only [linked, Bool.and_eq_true, decide_eq_true_eq] at h
      obtain ⟨⟨⟨hregular, hnode⟩, ha⟩, hb⟩ := h
      have hat : ∀ {x}, x = p ∨ x = q → fs.node x = fs.node p := by
        rintro x (rfl | rfl)
        · rfl
        · exact hnode
      refine ⟨?_, (hat hb).trans (hat ha).symm⟩
      unfold FileSystem.isRegular at hregular ⊢
      rwa [hat ha]
    symm := by
      intro a b h
      simp only [linked, Bool.and_eq_true] at h ⊢
      exact ⟨⟨h.1.1, h.2⟩, h.1.2⟩
    trans := by
      intro a b c h h'
      simp only [linked, Bool.and_eq_true] at h h' ⊢
      exact ⟨h.1, h'.2⟩ }

/-! ## A store with one profile -/

/-- No entry is written or read. -/
def emptyTar : Tar where
  entryWrites _ := []
  entries _ := ([], none)
  readSizes _ := []

/-- The kind of an entry, by a number. -/
def EntryType.index : EntryType → UInt8
  | regular => 0
  | directory => 1
  | symlink => 2
  | hardLink => 3
  | fifo => 4
  | charDevice => 5
  | blockDevice => 6
  | gnuSparse => 7
  | other => 8

def EntryType.ofIndex (n : UInt8) : EntryType :=
  if n = 0 then regular else if n = 1 then directory else if n = 2 then symlink
  else if n = 3 then hardLink else if n = 4 then fifo else if n = 5 then charDevice
  else if n = 6 then blockDevice else if n = 7 then gnuSparse else other

theorem EntryType.ofIndex_index (t : EntryType) : ofIndex t.index = t := by
  cases t <;> decide

/-- A component of a path, by its kind and its name. -/
def PathComponent.parts : PathComponent → UInt8 × String
  | rootDir => (0, "")
  | curDir => (1, "")
  | parentDir => (2, "")
  | normal name => (3, name)

def PathComponent.ofParts (x : UInt8 × String) : PathComponent :=
  if x.1 = 0 then rootDir else if x.1 = 1 then curDir else if x.1 = 2 then parentDir
  else normal x.2

theorem PathComponent.ofParts_parts (c : PathComponent) : ofParts c.parts = c := by
  cases c <;> rfl

namespace Codec

/-- A number of any size. -/
def nat : Codec Nat :=
  (list byte).via (fun n => bigEndian (n.log2 + 1) n) value fun n =>
    value_bigEndian_of_lt (Nat.lt_of_lt_of_le Nat.lt_log2_self (Nat.pow_le_pow_left (by decide) _))

def tarEntry : Codec TarEntry :=
  ((list ((byte.pair text).via PathComponent.parts PathComponent.ofParts
      PathComponent.ofParts_parts)).pair
    ((byte.via EntryType.index EntryType.ofIndex EntryType.ofIndex_index).pair
      (nat.pair (list byte)))).via
    (fun e => (e.path, e.entryType, e.mode, e.body)) (fun x => ⟨x.1, x.2.1, x.2.2.1, x.2.2.2⟩)
    fun _ => rfl

end Codec

/-- The entries one after another, each behind a mark. -/
def listTar : Tar where
  entryWrites e := [1 :: Codec.tarEntry.write e]
  entries stream :=
    match (Codec.list Codec.tarEntry).read stream.1 with
    | some (entries, _) => (entries.map TarEntry.unchanged, stream.2)
    | none => ([], stream.2)
  readSizes _ := []

/-- **The sample format** gives every archive back. -/
theorem entries_listTar (entries : List TarEntry) :
    listTar.entries (listTar.archive entries, none) = (entries.map TarEntry.unchanged, none) := by
  have hbytes : listTar.archive entries =
      (Codec.list Codec.tarEntry).write entries ++ List.replicate 1023 0 := by
    have hwrites : (listTar.writes entries).flatten =
        entries.flatMap fun e => 1 :: Codec.tarEntry.write e := by
      unfold Tar.writes
      induction entries with
      | nil => rfl
      | cons e rest ih =>
          rw [List.map_cons, List.flatten_cons, List.flatten_append, ih, List.flatMap_cons]
          exact congrArg (· ++ _) (List.flatten_singleton)
    unfold Tar.archive
    rw [List.flatten_append, List.flatten_singleton, hwrites]
    change _ = entries.flatMap (fun e => 1 :: Codec.tarEntry.write e) ++ [0] ++ _
    rw [List.append_assoc]
    rfl
  rw [hbytes]
  change (match (Codec.list Codec.tarEntry).read
      ((Codec.list Codec.tarEntry).write entries ++ List.replicate 1023 0) with
    | some (entries, _) => (entries.map TarEntry.unchanged, none)
    | none => ([], none)) = _
  rw [Codec.read_write]

theorem roundTrips_listTar (entries : List TarEntry) : listTar.RoundTrips entries :=
  ⟨_, entries_listTar entries, restores_map_unchanged entries⟩

def sampleKey : Key := FixedBytes.replicate 32 9

/-- The header of the profile `alice`. -/
def sampleHeader (tar : Tar) (salt : FixedBytes 16) : UserManifest where
  version := manifestVersion
  id := hyphenatedUuid ⟨bigEndian 16 77, length_bigEndian _ _⟩
  username := "alice"
  createdAt := 1
  kdf := kdfParametersFor (sampleLibraries tar) salt
  wrappedDataKey :=
    { algorithm := wrapAlgorithm, iv := "", ciphertext := "", authenticationTag := "" }
  vaultFormat := CodexVault.vaultFormat

/-- The wrapped sample key, for a password. -/
def sampleWrapped (tar : Tar) (password : Bytes) (salt : FixedBytes 16) : WrappedKey :=
  match (sampleHeader tar salt).associatedData with
  | .error _ => (sampleHeader tar salt).wrappedDataKey
  | .ok aad =>
      match wrapWithNonce (sampleLibraries tar) (FixedBytes.replicate 12 0) sampleKey
          (joinedKey password salt.toBytes) aad with
      | .error _ => (sampleHeader tar salt).wrappedDataKey
      | .ok wrapped => wrapped

def sampleManifest (tar : Tar) (password : Bytes) (salt : FixedBytes 16) : UserManifest :=
  { sampleHeader tar salt with wrappedDataKey := sampleWrapped tar password salt }

def sampleStore : VaultStore where
  root := ["vault"]
  runtimeRoot := some { absolute := true, path := ["run"] }

/-- The password of the sample profile: sixteen letters `a`. -/
def samplePassword : Bytes := List.replicate 16 97

/-- The files of the sample: the profile `alice` with the given state file. -/
def sampleFiles (state : Bytes) : FileSystem :=
  FileSystem.holding ⟨1000, 0o755⟩
    [(["tmp"], .directory ⟨1000, 0o755⟩),
     (["run"], .directory ⟨1000, 0o700⟩),
     (["vault"], .directory ⟨1000, 0o700⟩),
     (["vault", "users"], .directory ⟨1000, 0o700⟩),
     (["vault", "users", "alice"], .directory ⟨1000, 0o700⟩),
     (["vault", "users", "alice", "manifest.json"],
       .file ⟨1000, 0o600⟩ (Codec.userManifest.write
         (sampleManifest emptyTar samplePassword (FixedBytes.replicate 16 0)) ++ [10]) false),
     (["vault", "users", "alice", "state.cvlt"], .file ⟨1000, 0o600⟩ state false)]

def sampleWorld (state : Bytes) : World where
  fs := sampleFiles state
  locked _ := none
  nextSerial := 0
  history := []

/-- A machine with an empty store. -/
def freshWorld : World where
  fs := FileSystem.holding ⟨1000, 0o755⟩
    [(["tmp"], .directory ⟨1000, 0o755⟩), (["run"], .directory ⟨1000, 0o700⟩),
     (["vault"], .directory ⟨1000, 0o700⟩)]
  locked _ := none
  nextSerial := 0
  history := []

/-- The clock reads so many seconds, and temporary directories have dotted names. -/
def ReadsClock (t : UInt64) (oracle : Oracle) : Prop := oracle.clock = some t ∧ oracle.Dotted

/-! ## Runs without a failure -/

/-- Nothing fails. -/
def quietOracle (n : Nat) : Oracle := { sampleOracle 5 n with name := ".tmp" }

/-- A program on the machine where nothing fails. -/
def quietRun {α : Type} (p : Prog Op Op.Reply α) (w : World) : α × World :=
  p.execute (playing sampleEnv quietOracle) 0 w

theorem runs_quietRun {α : Type} (p : Prog Op Op.Reply α) (w : World) :
    (machine sampleEnv (ReadsClock 1)).Runs p w (quietRun p w).1 (quietRun p w).2 :=
  runs_playing (fun _ _ => ⟨rfl, show Dotted ".tmp" by decide⟩) (fun _ => rfl) p w

/-- The same for a program that returns something, with a value for the other case. -/
theorem runs_quietRun_ok {α : Type} {p : Io α} {w : World} (a : α)
    (h : (quietRun p.run w).1.toOption.isSome = true) :
    (machine sampleEnv (ReadsClock 1)).Runs p.run w (.ok ((quietRun p.run w).1.toOption.getD a))
      (quietRun p.run w).2 := by
  have hrun := runs_quietRun p.run w
  cases hresult : (quietRun p.run w).1 with
  | error e =>
      rw [hresult] at h
      cases h
  | ok b =>
      rw [hresult] at hrun
      exact hrun

theorem runs_quietRun_unit {p : Io Unit} {w : World}
    (h : (quietRun p.run w).1.toOption.isSome = true) :
    (machine sampleEnv (ReadsClock 1)).Runs p.run w (.ok ()) (quietRun p.run w).2 :=
  runs_quietRun_ok () h

/-- What the sample machine writes when it seals these nodes. -/
def sampleSeal (tree : List TreeEntry) : Except VaultError Unit × Bytes :=
  sealFile taggingAead.toAead none (some (FixedBytes.replicate 12 5)) (FixedBytes.replicate 32 5)
    (builderInputs listTar (tree, none)).1 (builderInputs listTar (tree, none)).2

theorem sealedAs_sampleSeal {tree : List TreeEntry}
    (h : (sampleSeal tree).1.toOption.isSome = true) :
    SealedAs taggingAead.toAead (FixedBytes.replicate 32 5) (FixedBytes.replicate 12 5)
      (listTar.archive (archiveEntries tree).1) (sampleSeal tree).2 := by
  cases hresult : (sampleSeal tree).1 with
  | error e =>
      rw [hresult] at h
      cases h
  | ok u =>
      obtain ⟨hstop, seed, hseed, hsealed⟩ := sealFile_eq_ok hresult
      cases hseed
      have htree : SealedTree (sampleLibraries listTar) (FixedBytes.replicate 32 5)
        (FixedBytes.replicate 12 5) (tree, none) (sampleSeal tree).2 := ⟨hstop, hsealed⟩
      exact htree.archive.2.2

/-- An unseal of these nodes on the sample machine, and whether all of it succeeds. -/
def quietUnseal (path destination : FsPath) (tree : List TreeEntry) (w : World) : Bool × World :=
  let checked := quietRun (validatePrivateFile sampleEnv path).run w
  let opened := quietRun (sys (request (.openRead path))).run checked.2
  let unpacked := quietRun (unpackEntries destination
    ((archiveEntries tree).1.map TarEntry.unchanged)).run opened.2
  (checked.1.toOption.isSome && (sampleSeal tree).1.toOption.isSome &&
    decide (opened.1.toOption = some ((sampleSeal tree).2, none)) &&
    unpacked.1.toOption.isSome, unpacked.2)

theorem runs_quietUnseal {path destination : FsPath} {tree : List TreeEntry} {w : World}
    (h : (quietUnseal path destination tree w).1 = true) :
    (machine sampleEnv (ReadsClock 1)).Runs
      (unsealDirectory (sampleLibraries listTar) sampleEnv path destination
        (FixedBytes.replicate 32 5)).run w (.ok ()) (quietUnseal path destination tree w).2 := by
  unfold quietUnseal at h
  simp only [Bool.and_eq_true, decide_eq_true_eq] at h
  obtain ⟨⟨⟨hchecked, hsealed⟩, hopened⟩, hunpacked⟩ := h
  have hopen := runs_quietRun_ok ([], none) (by rw [hopened]; rfl)
  rw [hopened] at hopen
  exact runs_unsealDirectory taggingAead rfl (runs_quietRun_ok ⟨true, false, 0, 0, 0⟩ hchecked)
    hopen (sealedAs_sampleSeal hsealed) (entries_listTar _) (fun _ h => nomatch h)
    (runs_quietRun_unit hunpacked)

theorem ok_of_toOption {ε α : Type} {r : Except ε α} {a : α} (h : r.toOption = some a) :
    r = .ok a := by
  cases r with
  | error e => cases h
  | ok b => rw [Option.some.inj h]

/-- An unlock on the sample machine: whether all of it succeeds, and the vault. -/
def quietUnlock (username : String) (password : Bytes) (tree : List TreeEntry) (w : World) :
    Bool × UnlockedVault × World :=
  let userRoot := sampleStore.userRoot username
  let locked := quietRun (VaultStore.lockProfile sampleEnv userRoot).run w
  let read := quietRun (readManifest (sampleLibraries listTar) sampleEnv userRoot).run locked.2
  let manifest := read.1.toOption.getD (sampleHeader listTar (FixedBytes.replicate 16 0))
  let rooted := quietRun (sampleStore.chooseRuntimeRoot sampleEnv).run read.2
  let name := ((VaultStore.runtimeName (sampleLibraries listTar) manifest).toOption).getD ""
  let runtime := rooted.1.toOption.getD [] ++ [name]
  let made := quietRun (sys (request (.createDirectory runtime))).run rooted.2
  let homed := quietRun (ensurePrivateDirectory sampleEnv (runtime ++ ["codex-home"])).run made.2
  let filled := quietUnseal (userRoot ++ ["state.cvlt"]) (runtime ++ ["codex-home"]) tree homed.2
  (decide ((validateUsername username).toOption = some ()) && locked.1.toOption.isSome &&
    read.1.toOption.isSome &&
    decide ((manifest.validate (sampleLibraries listTar)).toOption = some ()) &&
    decide ((openManifest (sampleLibraries listTar) username password manifest).toOption =
      some (FixedBytes.replicate 32 5)) && rooted.1.toOption.isSome &&
    decide ((VaultStore.runtimeName (sampleLibraries listTar) manifest).toOption = some name) &&
    made.1.toOption.isSome && homed.1.toOption.isSome && filled.1,
    { username := manifest.username
      codexHome := runtime ++ ["codex-home"]
      runtime := runtime
      statePath := userRoot ++ ["state.cvlt"]
      dataKey := FixedBytes.replicate 32 5
      lock := locked.1.toOption.getD ⟨0, 0⟩
      lockPath := userRoot ++ ["active.lock"] }, filled.2)

theorem runs_quietUnlock {username : String} {password : Bytes} {tree : List TreeEntry}
    {w : World} (h : (quietUnlock username password tree w).1 = true) :
    (machine sampleEnv (ReadsClock 1)).Runs
      (sampleStore.unlock (sampleLibraries listTar) sampleEnv username password).run w
      (.ok (quietUnlock username password tree w).2.1)
      (quietUnlock username password tree w).2.2 := by
  unfold quietUnlock at h ⊢
  simp only [Bool.and_eq_true, decide_eq_true_eq] at h ⊢
  obtain ⟨⟨⟨⟨⟨⟨⟨⟨⟨hvalid, hlocked⟩, hread⟩, hmanifest⟩, hopen⟩, hrooted⟩, hname⟩, hmade⟩, hhomed⟩,
    hfilled⟩ := h
  exact runs_unlock (ok_of_toOption hvalid) (runs_quietRun_ok ⟨0, 0⟩ hlocked)
    (runs_quietRun_ok _ hread) (ok_of_toOption hmanifest) (ok_of_toOption hopen)
    (runs_quietRun_ok _ hrooted) (ok_of_toOption hname) (runs_quietRun_unit hmade)
    (runs_ok_bind.mpr ⟨(), _, runs_quietRun_unit hhomed, runs_quietUnseal hfilled⟩)

/-- The creation of a user in an empty store. -/
def firstAccount : Except VaultError Unit × World :=
  quietRun (sampleStore.addUser (sampleLibraries listTar) sampleEnv "Bob" samplePassword).run
    freshWorld

theorem runs_firstAccount : (machine sampleEnv (ReadsClock 1)).Runs
    (sampleStore.addUser (sampleLibraries listTar) sampleEnv "Bob" samplePassword).run
    freshWorld.begin (.ok ()) firstAccount.2 :=
  runs_quietRun_unit (by decide +kernel)

/-- The unlock of the user. -/
def firstUnlock : Bool × UnlockedVault × World :=
  quietUnlock "bob" samplePassword [⟨[], .directory ⟨1000, 0o755⟩⟩] firstAccount.2.begin

theorem runs_firstUnlock : (machine sampleEnv (ReadsClock 1)).Runs
    (sampleStore.unlock (sampleLibraries listTar) sampleEnv "bob" samplePassword).run
    firstAccount.2.begin (.ok firstUnlock.2.1) firstUnlock.2.2 :=
  runs_quietUnlock (by decide +kernel : firstUnlock.1 = true)

end CodexVault
