import CodexVault.ByteStrings

/-!
# Base64

The `base64` crate is a parameter of the program.  `Base64.Engine` holds the two
functions that are called, with what is documented of them: decoding is strict, padding is
required and unused bits must be zero, so a text that decodes is the encoding of its bytes.

`Base64.standard` computes what the engine `STANDARD` does.
-/

namespace Base64

open ByteStrings

/-- An engine of the `base64` crate with padding. -/
structure Engine where
  encode : Bytes → String
  decode : String → Option Bytes
  /-- Only canonical texts decode. -/
  decode_eq_some : ∀ {text b}, decode text = some b ↔ text = encode b
  /-- Four letters for every three bytes begun. -/
  length_encode : ∀ b, (encode b).length = (b.length + 2) / 3 * 4

namespace Engine

variable (engine : Engine)

/-- Decoding undoes encoding. -/
@[simp] theorem decode_encode (b : Bytes) : engine.decode (engine.encode b) = some b :=
  engine.decode_eq_some.mpr rfl

theorem encode_injective {a b : Bytes} (h : engine.encode a = engine.encode b) : a = b := by
  have hdec := congrArg engine.decode h
  rw [decode_encode, decode_encode] at hdec
  exact Option.some.inj hdec

end Engine

/-! ## The standard alphabet -/

/-- The 64 letters. -/
def alphabet : List Char :=
  "ABCDEFGHIJKLMNOPQRSTUVWXYZabcdefghijklmnopqrstuvwxyz0123456789+/".toList

/-- The letter of a six-bit number. -/
def letter (n : Nat) : Char := alphabet.getD n '='

/-- The six-bit number of a letter. -/
def sextet (c : Char) : Option Nat := alphabet.idxOf? c

theorem letter_of_sextet {c : Char} {n : Nat} (h : sextet c = some n) :
    letter n = c ∧ n < 64 := by
  obtain ⟨hlt, hget, _⟩ := List.idxOf?_eq_some_iff.mp h
  constructor
  · simpa [letter, hlt] using hget
  · exact hlt

theorem sextet_letter {n : Nat} (h : n < 64) : sextet (letter n) = some n := by
  have hall : ∀ i : Fin 64, sextet (letter i.val) = some i.val := by decide +kernel
  exact hall ⟨n, h⟩

theorem sextet_pad : sextet '=' = none := by decide

theorem letter_ne_pad {n : Nat} (h : n < 64) : letter n ≠ '=' := by
  intro heq
  have hsome := sextet_letter h
  rw [heq, sextet_pad] at hsome
  cases hsome

/-- The letters of a byte string, three bytes at a time. -/
def encodeChars : Bytes → List Char
  | [] => []
  | [a] => [letter (a.toNat / 4), letter (a.toNat % 4 * 16), '=', '=']
  | [a, b] =>
      [letter (a.toNat / 4), letter (a.toNat % 4 * 16 + b.toNat / 16),
        letter (b.toNat % 16 * 4), '=']
  | a :: b :: c :: rest =>
      letter (a.toNat / 4) :: letter (a.toNat % 4 * 16 + b.toNat / 16) ::
        letter (b.toNat % 16 * 4 + c.toNat / 64) :: letter (c.toNat % 64) :: encodeChars rest

/-- The byte of a group with two pads. -/
def decodeOne (w x : Char) : Option Bytes := do
  let a ← sextet w
  let b ← sextet x
  if b % 16 = 0 then some [UInt8.ofNat (a * 4 + b / 16)] else none

/-- The bytes of a group with one pad. -/
def decodeTwo (w x y : Char) : Option Bytes := do
  let a ← sextet w
  let b ← sextet x
  let c ← sextet y
  if c % 4 = 0 then some [UInt8.ofNat (a * 4 + b / 16), UInt8.ofNat (b % 16 * 16 + c / 4)]
  else none

/-- The bytes of a full group. -/
def decodeThree (w x y z : Char) : Option Bytes := do
  let a ← sextet w
  let b ← sextet x
  let c ← sextet y
  let d ← sextet z
  some [UInt8.ofNat (a * 4 + b / 16), UInt8.ofNat (b % 16 * 16 + c / 4),
    UInt8.ofNat (c % 4 * 64 + d)]

/-- The bytes of a text, four letters at a time. -/
def decodeChars : List Char → Option Bytes
  | [] => some []
  | w :: x :: y :: z :: rest =>
      if y = '=' ∧ z = '=' ∧ rest = [] then decodeOne w x
      else if z = '=' ∧ rest = [] then decodeTwo w x y
      else do
        let group ← decodeThree w x y z
        let others ← decodeChars rest
        some (group ++ others)
  | _ => none

/-- Four letters for every three bytes begun. -/
@[simp] theorem length_encodeChars (b : Bytes) :
    (encodeChars b).length = (b.length + 2) / 3 * 4 := by
  fun_induction encodeChars b with
  | case1 => rfl
  | case2 a => simp
  | case3 a b => simp
  | case4 a b c rest ih =>
      simp only [List.length_cons, ih]
      omega

theorem ofNat_eq {n : Nat} {a : UInt8} (h : n = a.toNat) : UInt8.ofNat n = a := by
  rw [h, UInt8.ofNat_toNat]

theorem decodeChars_encodeChars (b : Bytes) : decodeChars (encodeChars b) = some b := by
  fun_induction encodeChars b with
  | case1 => rfl
  | case2 a =>
      have ha := a.toNat_lt
      simp only [decodeChars, and_self, if_true, decodeOne]
      rw [sextet_letter (by omega), sextet_letter (by omega)]
      have hbyte : a.toNat / 4 * 4 + a.toNat % 4 * 16 / 16 = a.toNat := by omega
      have hbits : a.toNat % 4 * 16 % 16 = 0 := by omega
      simp only [Option.bind_eq_bind, Option.bind_some, hbits, if_true, ofNat_eq hbyte]
  | case3 a b =>
      have ha := a.toNat_lt
      have hb := b.toNat_lt
      have hy : letter (b.toNat % 16 * 4) ≠ '=' := letter_ne_pad (by omega)
      simp only [decodeChars, hy, false_and, if_false, and_self, if_true, decodeTwo]
      rw [sextet_letter (by omega), sextet_letter (by omega), sextet_letter (by omega)]
      have hfirst : a.toNat / 4 * 4 + (a.toNat % 4 * 16 + b.toNat / 16) / 16 = a.toNat := by omega
      have hsecond : (a.toNat % 4 * 16 + b.toNat / 16) % 16 * 16 + b.toNat % 16 * 4 / 4 =
          b.toNat := by omega
      have hbits : b.toNat % 16 * 4 % 4 = 0 := by omega
      simp only [Option.bind_eq_bind, Option.bind_some, hbits, if_true, ofNat_eq hfirst,
        ofNat_eq hsecond]
  | case4 a b c rest ih =>
      have ha := a.toNat_lt
      have hb := b.toNat_lt
      have hc := c.toNat_lt
      have hy : letter (b.toNat % 16 * 4 + c.toNat / 64) ≠ '=' := letter_ne_pad (by omega)
      have hz : letter (c.toNat % 64) ≠ '=' := letter_ne_pad (by omega)
      simp only [decodeChars, hy, hz, false_and, if_false, decodeThree, ih]
      rw [sextet_letter (by omega), sextet_letter (by omega), sextet_letter (by omega),
        sextet_letter (by omega)]
      have hfirst : a.toNat / 4 * 4 + (a.toNat % 4 * 16 + b.toNat / 16) / 16 = a.toNat := by omega
      have hsecond : (a.toNat % 4 * 16 + b.toNat / 16) % 16 * 16 +
          (b.toNat % 16 * 4 + c.toNat / 64) / 4 = b.toNat := by omega
      have hthird : (b.toNat % 16 * 4 + c.toNat / 64) % 4 * 64 + c.toNat % 64 = c.toNat := by omega
      simp only [Option.bind_eq_bind, Option.bind_some, ofNat_eq hfirst, ofNat_eq hsecond,
        ofNat_eq hthird, List.cons_append, List.nil_append]

theorem decodeOne_eq_some {w x : Char} {b : Bytes} (h : decodeOne w x = some b) :
    encodeChars b = [w, x, '=', '='] := by
  simp only [decodeOne, Option.bind_eq_bind, Option.bind_eq_some_iff] at h
  obtain ⟨m, hm, n, hn, h⟩ := h
  split at h
  · next hbits =>
      cases h
      obtain ⟨rfl, hm⟩ := letter_of_sextet hm
      obtain ⟨rfl, hn⟩ := letter_of_sextet hn
      have hbyte : (UInt8.ofNat (m * 4 + n / 16)).toNat = m * 4 + n / 16 := by
        rw [UInt8.toNat_ofNat']
        omega
      simp only [encodeChars, hbyte]
      have h1 : (m * 4 + n / 16) / 4 = m := by omega
      have h2 : (m * 4 + n / 16) % 4 * 16 = n := by omega
      rw [h1, h2]
  · cases h

theorem decodeTwo_eq_some {w x y : Char} {b : Bytes} (h : decodeTwo w x y = some b) :
    encodeChars b = [w, x, y, '='] := by
  simp only [decodeTwo, Option.bind_eq_bind, Option.bind_eq_some_iff] at h
  obtain ⟨m, hm, n, hn, k, hk, h⟩ := h
  split at h
  · next hbits =>
      cases h
      obtain ⟨rfl, hm⟩ := letter_of_sextet hm
      obtain ⟨rfl, hn⟩ := letter_of_sextet hn
      obtain ⟨rfl, hk⟩ := letter_of_sextet hk
      have hfirst : (UInt8.ofNat (m * 4 + n / 16)).toNat = m * 4 + n / 16 := by
        rw [UInt8.toNat_ofNat']
        omega
      have hsecond : (UInt8.ofNat (n % 16 * 16 + k / 4)).toNat = n % 16 * 16 + k / 4 := by
        rw [UInt8.toNat_ofNat']
        omega
      simp only [encodeChars, hfirst, hsecond]
      have h1 : (m * 4 + n / 16) / 4 = m := by omega
      have h2 : (m * 4 + n / 16) % 4 * 16 + (n % 16 * 16 + k / 4) / 16 = n := by omega
      have h3 : (n % 16 * 16 + k / 4) % 16 * 4 = k := by omega
      rw [h1, h2, h3]
  · cases h

theorem decodeThree_eq_some {w x y z : Char} {group rest : Bytes}
    (h : decodeThree w x y z = some group) :
    encodeChars (group ++ rest) = w :: x :: y :: z :: encodeChars rest := by
  simp only [decodeThree, Option.bind_eq_bind, Option.bind_eq_some_iff, Option.some.injEq] at h
  obtain ⟨m, hm, n, hn, k, hk, l, hl, rfl⟩ := h
  obtain ⟨rfl, hm⟩ := letter_of_sextet hm
  obtain ⟨rfl, hn⟩ := letter_of_sextet hn
  obtain ⟨rfl, hk⟩ := letter_of_sextet hk
  obtain ⟨rfl, hl⟩ := letter_of_sextet hl
  have hfirst : (UInt8.ofNat (m * 4 + n / 16)).toNat = m * 4 + n / 16 := by
    rw [UInt8.toNat_ofNat']
    omega
  have hsecond : (UInt8.ofNat (n % 16 * 16 + k / 4)).toNat = n % 16 * 16 + k / 4 := by
    rw [UInt8.toNat_ofNat']
    omega
  have hthird : (UInt8.ofNat (k % 4 * 64 + l)).toNat = k % 4 * 64 + l := by
    rw [UInt8.toNat_ofNat']
    omega
  simp only [List.cons_append, List.nil_append, encodeChars, hfirst, hsecond, hthird]
  have h1 : (m * 4 + n / 16) / 4 = m := by omega
  have h2 : (m * 4 + n / 16) % 4 * 16 + (n % 16 * 16 + k / 4) / 16 = n := by omega
  have h3 : (n % 16 * 16 + k / 4) % 16 * 4 + (k % 4 * 64 + l) / 64 = k := by omega
  have h4 : (k % 4 * 64 + l) % 64 = l := by omega
  rw [h1, h2, h3, h4]

theorem decodeChars_eq_some {text : List Char} {b : Bytes} (h : decodeChars text = some b) :
    encodeChars b = text := by
  fun_induction decodeChars text generalizing b with
  | case1 =>
      cases h
      rfl
  | case2 w x y z rest hpad =>
      obtain ⟨rfl, rfl, rfl⟩ := hpad
      exact decodeOne_eq_some h
  | case3 w x y z rest _ hpad =>
      obtain ⟨rfl, rfl⟩ := hpad
      exact decodeTwo_eq_some h
  | case4 w x y z rest _ _ ih =>
      simp only [Option.bind_eq_bind, Option.bind_eq_some_iff, Option.some.injEq] at h
      obtain ⟨group, hgroup, others, hothers, rfl⟩ := h
      rw [decodeThree_eq_some hgroup, ih hothers]
  | case5 => cases h

/-- The engine `STANDARD`. -/
def standard : Engine where
  encode b := String.ofList (encodeChars b)
  decode text := decodeChars text.toList
  decode_eq_some := by
    intro text b
    constructor
    · intro h
      rw [decodeChars_eq_some h, String.ofList_toList]
    · rintro rfl
      rw [String.toList_ofList, decodeChars_encodeChars]
  length_encode b := by
    rw [String.length_ofList, length_encodeChars]

end Base64
