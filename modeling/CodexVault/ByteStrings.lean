import Mathlib.Algebra.Group.Nat.Defs
import Mathlib.Data.List.Basic
import Mathlib.Data.List.Infix

/-!
# Byte strings and big-endian numbers

Byte strings are lists of `UInt8`; an array of a fixed width is a list that
carries its length.  A byte string is read as a big-endian number by `value`
and a number is written back by `bigEndian`.

The three facts everything else uses are `value_bigEndian` (writing then
reading reduces modulo `256 ^ width`), `bigEndian_value` (reading then writing
is the identity) and `value_lt` (a width bounds the value).
-/

namespace ByteStrings

/-- A byte string. -/
abbrev Bytes := List UInt8

/-- An array of exactly `n` bytes. -/
structure FixedBytes (n : Nat) where
  toBytes : Bytes
  length_toBytes : toBytes.length = n
  deriving DecidableEq

attribute [simp] FixedBytes.length_toBytes

@[ext] theorem FixedBytes.ext {n : Nat} {a b : FixedBytes n}
    (h : a.toBytes = b.toBytes) : a = b := by
  cases a; cases b; cases h; rfl

/-- `n` copies of one byte. -/
def FixedBytes.replicate (n : Nat) (x : UInt8) : FixedBytes n :=
  ⟨List.replicate n x, List.length_replicate⟩

/-- A list of the right length is an array. -/
def FixedBytes.ofBytes? (n : Nat) (b : Bytes) : Option (FixedBytes n) :=
  if h : b.length = n then some ⟨b, h⟩ else none

theorem FixedBytes.ofBytes?_eq_some {n : Nat} {b : Bytes} {a : FixedBytes n} :
    FixedBytes.ofBytes? n b = some a ↔ a.toBytes = b := by
  unfold FixedBytes.ofBytes?
  split
  · next h =>
      constructor
      · intro ha
        cases ha
        rfl
      · intro ha
        exact congrArg some (FixedBytes.ext ha.symm)
  · next h =>
      constructor
      · intro ha
        cases ha
      · intro ha
        exact absurd (ha ▸ a.length_toBytes) h

@[simp] theorem FixedBytes.ofBytes?_toBytes {n : Nat} (a : FixedBytes n) :
    FixedBytes.ofBytes? n a.toBytes = some a :=
  FixedBytes.ofBytes?_eq_some.mpr rfl

/-- The big-endian value of a byte string. -/
def value : Bytes → Nat
  | [] => 0
  | x :: xs => x.toNat * 256 ^ xs.length + value xs

/-- The low `width` base-256 digits of `n`, most significant first. -/
def bigEndian : Nat → Nat → Bytes
  | 0, _ => []
  | width + 1, n => UInt8.ofNat (n / 256 ^ width) :: bigEndian width n

@[simp] theorem length_bigEndian (width n : Nat) : (bigEndian width n).length = width := by
  induction width with
  | zero => rfl
  | succ width ih => simp [bigEndian, ih]

/-- `width` bytes hold a number below `256 ^ width`. -/
theorem value_lt (b : Bytes) : value b < 256 ^ b.length := by
  induction b with
  | nil => simp [value]
  | cons x xs ih =>
      have hx : x.toNat < 256 := x.toNat_lt
      calc value (x :: xs)
          < x.toNat * 256 ^ xs.length + 256 ^ xs.length := Nat.add_lt_add_left ih _
        _ = (x.toNat + 1) * 256 ^ xs.length := by rw [Nat.succ_mul]
        _ ≤ 256 * 256 ^ xs.length := Nat.mul_le_mul_right _ hx
        _ = 256 ^ (x :: xs).length := by rw [List.length_cons, Nat.pow_succ, Nat.mul_comm]

/-- Writing then reading keeps the low digits. -/
theorem value_bigEndian (width n : Nat) : value (bigEndian width n) = n % 256 ^ width := by
  induction width with
  | zero => simp [bigEndian, value, Nat.mod_one]
  | succ width ih =>
      simp only [bigEndian, value, length_bigEndian, ih]
      have hdigit : (UInt8.ofNat (n / 256 ^ width)).toNat = n / 256 ^ width % 256 := by
        simp
      rw [hdigit, Nat.pow_succ, Nat.mod_mul, Nat.mul_comm, Nat.add_comm]

theorem value_bigEndian_of_lt {width n : Nat} (h : n < 256 ^ width) :
    value (bigEndian width n) = n := by
  rw [value_bigEndian, Nat.mod_eq_of_lt h]

/-- Two numbers that fit are equal when their encodings are. -/
theorem bigEndian_injective {width m n : Nat} (hm : m < 256 ^ width) (hn : n < 256 ^ width)
    (h : bigEndian width m = bigEndian width n) : m = n := by
  have hv := congrArg value h
  rwa [value_bigEndian_of_lt hm, value_bigEndian_of_lt hn] at hv

/-- A value determines the digits of a byte string of known length. -/
theorem value_injective {a b : Bytes} (hlen : a.length = b.length)
    (h : value a = value b) : a = b := by
  induction a generalizing b with
  | nil =>
      cases b with
      | nil => rfl
      | cons _ _ => simp at hlen
  | cons x xs ih =>
      cases b with
      | nil => simp at hlen
      | cons y ys =>
          have hl : xs.length = ys.length := by simpa using hlen
          have hxs := value_lt xs
          have hys := value_lt ys
          simp only [value, hl] at h hxs
          -- the leading digit is the quotient, the rest is the remainder
          have hpos : 0 < 256 ^ ys.length := Nat.pow_pos (by decide)
          have hdiv : x.toNat = y.toNat := by
            have hq := congrArg (· / 256 ^ ys.length) h
            simpa [Nat.mul_add_div, Nat.mul_comm _ (256 ^ ys.length), hpos,
              Nat.div_eq_of_lt hxs, Nat.div_eq_of_lt hys] using hq
          have hrest : value xs = value ys := by
            rw [hdiv] at h
            exact Nat.add_left_cancel h
          rw [UInt8.toNat_inj.mp hdiv, ih hl hrest]

/-- Reading then writing is the identity. -/
theorem bigEndian_value (b : Bytes) : bigEndian b.length (value b) = b := by
  apply value_injective (by simp)
  exact value_bigEndian_of_lt (value_lt b)

end ByteStrings
