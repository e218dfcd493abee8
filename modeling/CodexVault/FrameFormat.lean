import CodexVault.ByteStrings
import CodexVault.VaultErrors

/-!
# The vault stream format

A vault stream is an eight-byte magic, a random twelve-byte nonce seed, and a
sequence of frames.  Each frame has a nine-byte header (type, sequence number,
plaintext length) and a ciphertext sixteen bytes longer than its plaintext.
The nonce of frame `i` is the seed plus `i` as a 96-bit number, computed byte
by byte in `nonceBytes`.

* `nonceBytes_isOk_iff` — the loop is 96-bit addition with overflow detection;
* `frameHeader_injective` — a header determines type, sequence and length.
-/

namespace CodexVault

open ByteStrings

/-- `MAGIC`, the bytes of `CDXVLT02`. -/
def magic : Bytes := [0x43, 0x44, 0x58, 0x56, 0x4c, 0x54, 0x30, 0x32]

/-- `FILE_HEADER_LENGTH`. -/
def fileHeaderLength : Nat := 20

/-- `FRAME_HEADER_LENGTH`. -/
def frameHeaderLength : Nat := 9

/-- `TAG_LENGTH`. -/
def tagLength : Nat := 16

/-- `CHUNK_SIZE`. -/
def chunkSize : Nat := 64 * 1024

/-- `DATA_FRAME`. -/
def dataFrame : UInt8 := 0

/-- `FINAL_FRAME`. -/
def finalFrame : UInt8 := 1

/-- `u32::MAX`. -/
def u32Max : UInt32 := 0xffffffff

theorem u32Max_toNat : u32Max.toNat = 2 ^ 32 - 1 := rfl

/-- Below `u32::MAX` the counter advances without wrapping. -/
theorem toNat_succ {x : UInt32} (h : x ≠ u32Max) : (x + 1).toNat = x.toNat + 1 := by
  have hne : x.toNat ≠ u32Max.toNat := fun heq => h (UInt32.toNat_inj.mp heq)
  have hlt := x.toNat_lt
  rw [u32Max_toNat] at hne
  have hone : (1 : UInt32).toNat = 1 := rfl
  rw [UInt32.toNat_add, hone, Nat.mod_eq_of_lt (by omega)]

/-- The bytes `MAGIC ++ nonce_seed` of a vault file. -/
def fileHeader (nonceSeed : FixedBytes 12) : Bytes := magic ++ nonceSeed.toBytes

@[simp] theorem length_fileHeader (nonceSeed : FixedBytes 12) :
    (fileHeader nonceSeed).length = fileHeaderLength := by
  simp [fileHeader, magic, fileHeaderLength]

theorem fileHeader_injective {a b : FixedBytes 12} (h : fileHeader a = fileHeader b) : a = b :=
  FixedBytes.ext (List.append_cancel_left h)

/-- The body of the loop of `nonce_bytes` for one byte. -/
def addByte (byte : UInt8) (carry : Nat) : UInt8 × Nat :=
  let sum := byte.toNat + (carry &&& 0xff)
  (UInt8.ofNat (sum &&& 0xff), (carry >>> 8) + (sum >>> 8))

/-- The loop of `nonce_bytes`, which runs from the last byte to the first. -/
def addCarry : Bytes → Nat → Bytes × Nat
  | [], carry => ([], carry)
  | byte :: rest, carry =>
      let low := addCarry rest carry
      let high := addByte byte low.2
      (high.1 :: low.1, high.2)

@[simp] theorem length_addCarry (b : Bytes) (carry : Nat) :
    (addCarry b carry).1.length = b.length := by
  induction b with
  | nil => rfl
  | cons byte rest ih => simp [addCarry, ih]

/-- `nonce_bytes`. -/
def nonceBytes (seed : FixedBytes 12) (sequence : UInt32) : Except VaultError (FixedBytes 12) :=
  let out := addCarry seed.toBytes sequence.toNat
  if out.2 ≠ 0 then .error (.cryptography "vault nonce sequence overflow")
  else .ok ⟨out.1, by simp [out]⟩

/-- `frame_header`. -/
def frameHeader (frameType : UInt8) (sequence : UInt32) (length : Nat) :
    Except VaultError Bytes :=
  if 2 ^ 32 ≤ length then .error (.cryptography "vault frame length overflow")
  else .ok (frameType :: (bigEndian 4 sequence.toNat ++ bigEndian 4 length))

/-- One byte of the addition: nothing is lost between the byte and the carry. -/
theorem addByte_value (byte : UInt8) (carry : Nat) :
    (addByte byte carry).1.toNat + (addByte byte carry).2 * 256 = byte.toNat + carry := by
  have hmask : ∀ n : Nat, n &&& 0xff = n % 256 := fun n =>
    Nat.and_two_pow_sub_one_eq_mod n 8
  have hbyte := byte.toNat_lt
  simp only [addByte, hmask, Nat.shiftRight_eq_div_pow]
  have hlow : (UInt8.ofNat ((byte.toNat + carry % 256) % 256)).toNat =
      (byte.toNat + carry % 256) % 256 := by simp
  rw [hlow]
  omega

/-- **The loop adds.**  The bytes and the final carry of the loop together hold
the sum of the seed and the sequence number. -/
theorem addCarry_value (b : Bytes) (carry : Nat) :
    value (addCarry b carry).1 + (addCarry b carry).2 * 256 ^ b.length = value b + carry := by
  induction b with
  | nil => simp [addCarry, value]
  | cons byte rest ih =>
      have hstep := addByte_value byte (addCarry rest carry).2
      simp only [addCarry, value, length_addCarry, List.length_cons]
      rw [Nat.pow_succ, Nat.mul_comm (256 ^ rest.length) 256, ← Nat.mul_assoc]
      generalize addByte byte (addCarry rest carry).2 = high at hstep
      generalize addCarry rest carry = low at ih hstep
      calc high.1.toNat * 256 ^ rest.length + value low.1 +
            high.2 * 256 * 256 ^ rest.length
          = (high.1.toNat + high.2 * 256) * 256 ^ rest.length + value low.1 := by
            rw [Nat.add_mul]; omega
        _ = byte.toNat * 256 ^ rest.length + (value low.1 + low.2 * 256 ^ rest.length) := by
            rw [hstep, Nat.add_mul]; omega
        _ = byte.toNat * 256 ^ rest.length + value rest + carry := by rw [ih]; omega

/-- The value of a nonce is the seed plus the sequence number. -/
theorem value_of_nonceBytes {seed nonce : FixedBytes 12} {sequence : UInt32}
    (h : nonceBytes seed sequence = .ok nonce) :
    value nonce.toBytes = value seed.toBytes + sequence.toNat := by
  unfold nonceBytes at h
  dsimp only at h
  split at h
  · cases h
  · next hcarry =>
      cases h
      have hsum := addCarry_value seed.toBytes sequence.toNat
      simpa [not_not.mp hcarry] using hsum

/-- **96-bit addition.**  The nonce exists exactly while the sum fits. -/
theorem nonceBytes_isOk_iff (seed : FixedBytes 12) (sequence : UInt32) :
    (∃ nonce, nonceBytes seed sequence = .ok nonce) ↔
      value seed.toBytes + sequence.toNat < 2 ^ 96 := by
  have hsum := addCarry_value seed.toBytes sequence.toNat
  have hlt := value_lt (addCarry seed.toBytes sequence.toNat).1
  simp only [length_addCarry, FixedBytes.length_toBytes] at hsum hlt
  have hpow : (256 : Nat) ^ 12 = 2 ^ 96 := by decide
  rw [hpow] at hsum hlt
  constructor
  · rintro ⟨nonce, h⟩
    have hv := value_of_nonceBytes h
    have hn := value_lt nonce.toBytes
    rw [FixedBytes.length_toBytes, hpow] at hn
    omega
  · intro hfit
    have hcarry : (addCarry seed.toBytes sequence.toNat).2 = 0 := by
      by_contra hne
      have hpos : 1 ≤ (addCarry seed.toBytes sequence.toNat).2 := Nat.one_le_iff_ne_zero.mpr hne
      have := Nat.mul_le_mul_right (2 ^ 96) hpos
      omega
    exact ⟨⟨(addCarry seed.toBytes sequence.toNat).1, by simp⟩, by simp [nonceBytes, hcarry]⟩

/-- Under one seed the nonce determines the sequence number. -/
theorem nonceBytes_injective {seed nonce : FixedBytes 12} {i j : UInt32}
    (hi : nonceBytes seed i = .ok nonce) (hj : nonceBytes seed j = .ok nonce) : i = j := by
  have h1 := value_of_nonceBytes hi
  have h2 := value_of_nonceBytes hj
  exact UInt32.toNat_inj.mp (by omega)

theorem frameHeader_eq_ok {frameType : UInt8} {sequence : UInt32} {length : Nat}
    (h : length < 2 ^ 32) :
    frameHeader frameType sequence length =
      .ok (frameType :: (bigEndian 4 sequence.toNat ++ bigEndian 4 length)) :=
  if_neg (Nat.not_le.mpr h)

theorem length_of_frameHeader {frameType : UInt8} {sequence : UInt32} {length : Nat}
    {header : Bytes} (h : frameHeader frameType sequence length = .ok header) :
    header.length = frameHeaderLength := by
  unfold frameHeader at h
  split at h
  · cases h
  · cases h
    simp [frameHeaderLength]

/-- **Headers are unambiguous.**  A frame header determines the frame's type,
sequence number and plaintext length. -/
theorem frameHeader_injective {t t' : UInt8} {s s' : UInt32} {n n' : Nat} {header : Bytes}
    (h : frameHeader t s n = .ok header) (h' : frameHeader t' s' n' = .ok header) :
    t = t' ∧ s = s' ∧ n = n' := by
  unfold frameHeader at h h'
  split at h
  · cases h
  · next hn =>
      split at h'
      · cases h'
      · next hn' =>
          have heq := Except.ok.inj (h.trans h'.symm)
          obtain ⟨ht, hrest⟩ := List.cons.inj heq
          obtain ⟨hs, hlen⟩ := List.append_inj hrest (by simp)
          have hs' := bigEndian_injective (s.toNat_lt) (s'.toNat_lt) hs
          exact ⟨ht, UInt32.toNat_inj.mp hs',
            bigEndian_injective (Nat.not_le.mp hn) (Nat.not_le.mp hn') hlen⟩

end CodexVault
