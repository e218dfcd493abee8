import Mathlib.Data.List.Basic
import Mathlib.Data.List.Infix

/-!
# Cutting a list into pieces of one size

`fullChunks size xs` are the complete pieces of `xs` and `remainder size xs` is
what is left over.  Feeding a list in two parts is the same as feeding it at
once, provided the second part is prefixed with what the first one left over:
this is `fullChunks_append` and `remainder_append`, and it is all a buffered
writer does.
-/

namespace Chunks

variable {α : Type}

/-- The complete pieces of length `size`, in order. -/
def fullChunks (size : Nat) (xs : List α) : List (List α) :=
  if _h : 0 < size ∧ size ≤ xs.length then
    xs.take size :: fullChunks size (xs.drop size)
  else []
termination_by xs.length
decreasing_by simp only [List.length_drop]; omega

/-- What is left after the complete pieces. -/
def remainder (size : Nat) (xs : List α) : List α :=
  if _h : 0 < size ∧ size ≤ xs.length then remainder size (xs.drop size) else xs
termination_by xs.length
decreasing_by simp only [List.length_drop]; omega

theorem fullChunks_of_lt {size : Nat} {xs : List α} (h : xs.length < size) :
    fullChunks size xs = [] := by
  rw [fullChunks, dif_neg (by omega)]

theorem remainder_of_lt {size : Nat} {xs : List α} (h : xs.length < size) :
    remainder size xs = xs := by
  rw [remainder, dif_neg (by omega)]

theorem fullChunks_of_le {size : Nat} {xs : List α} (hs : 0 < size) (h : size ≤ xs.length) :
    fullChunks size xs = xs.take size :: fullChunks size (xs.drop size) := by
  rw [fullChunks, dif_pos ⟨hs, h⟩]

theorem remainder_of_le {size : Nat} {xs : List α} (hs : 0 < size) (h : size ≤ xs.length) :
    remainder size xs = remainder size (xs.drop size) := by
  rw [remainder, dif_pos ⟨hs, h⟩]

/-- Every piece is complete. -/
theorem length_of_mem_fullChunks {size : Nat} {xs c : List α} (h : c ∈ fullChunks size xs) :
    c.length = size := by
  induction xs using fullChunks.induct size with
  | case1 xs hle ih =>
      rw [fullChunks_of_le hle.1 hle.2] at h
      rcases List.mem_cons.mp h with rfl | h
      · simp [hle.2]
      · exact ih h
  | case2 xs hlt =>
      rw [fullChunks, dif_neg hlt] at h
      cases h

/-- The leftover is shorter than a piece. -/
theorem length_remainder_lt {size : Nat} (hs : 0 < size) (xs : List α) :
    (remainder size xs).length < size := by
  induction xs using remainder.induct size with
  | case1 xs hle ih => rwa [remainder_of_le hle.1 hle.2]
  | case2 xs hlt =>
      rw [remainder, dif_neg hlt]
      omega

/-- **Cutting loses nothing.** -/
theorem flatten_fullChunks_append_remainder (size : Nat) (xs : List α) :
    (fullChunks size xs).flatten ++ remainder size xs = xs := by
  induction xs using fullChunks.induct size with
  | case1 xs hle ih =>
      rw [fullChunks_of_le hle.1 hle.2, remainder_of_le hle.1 hle.2, List.flatten_cons,
        List.append_assoc, ih, List.take_append_drop]
  | case2 xs hlt =>
      rw [fullChunks, dif_neg hlt, remainder, dif_neg hlt]
      rfl

/-- There are `length / size` pieces. -/
theorem length_fullChunks {size : Nat} (hs : 0 < size) (xs : List α) :
    (fullChunks size xs).length = xs.length / size := by
  induction xs using fullChunks.induct size with
  | case1 xs hle ih =>
      rw [fullChunks_of_le hle.1 hle.2, List.length_cons, ih, List.length_drop]
      have hsub : xs.length = xs.length - size + size := by omega
      conv_rhs => rw [hsub, Nat.add_div_right _ hs]
  | case2 xs hlt =>
      rw [fullChunks, dif_neg hlt, Nat.div_eq_of_lt (by omega)]
      rfl

/-- **Two feeds are one.**  The pieces of an append are the pieces of the first
part and those of its leftover followed by the second part. -/
theorem fullChunks_append {size : Nat} (hs : 0 < size) (xs ys : List α) :
    fullChunks size (xs ++ ys) =
      fullChunks size xs ++ fullChunks size (remainder size xs ++ ys) := by
  induction xs using fullChunks.induct size with
  | case1 xs hle ih =>
      have hlen : size ≤ (xs ++ ys).length := by rw [List.length_append]; omega
      rw [fullChunks_of_le hs hlen, List.take_append_of_le_length hle.2,
        List.drop_append_of_le_length hle.2, ih, fullChunks_of_le hs hle.2,
        remainder_of_le hs hle.2, List.cons_append]
  | case2 xs hlt =>
      have hshort : xs.length < size := by omega
      rw [fullChunks_of_lt hshort, remainder_of_lt hshort, List.nil_append]

theorem remainder_append {size : Nat} (hs : 0 < size) (xs ys : List α) :
    remainder size (xs ++ ys) = remainder size (remainder size xs ++ ys) := by
  induction xs using fullChunks.induct size with
  | case1 xs hle ih =>
      have hlen : size ≤ (xs ++ ys).length := by rw [List.length_append]; omega
      rw [remainder_of_le hs hlen, List.drop_append_of_le_length hle.2, ih,
        remainder_of_le hs hle.2]
  | case2 xs hlt =>
      have hshort : xs.length < size := by omega
      rw [remainder_of_lt hshort]

/-- The consecutive pieces of at most `size` elements, none of them empty. -/
def pieces (size : Nat) (xs : List α) : List (List α) :=
  if _h : 0 < size ∧ xs ≠ [] then xs.take size :: pieces size (xs.drop size) else []
termination_by xs.length
decreasing_by
  have hpos := List.length_pos_iff.mpr _h.2
  simp only [List.length_drop]
  omega

/-- The pieces are the complete ones and what is left, if anything is. -/
theorem pieces_eq {size : Nat} (hs : 0 < size) (xs : List α) :
    pieces size xs =
      fullChunks size xs ++ if remainder size xs = [] then [] else [remainder size xs] := by
  induction xs using fullChunks.induct size with
  | case1 xs hle ih =>
      have hne : xs ≠ [] := by
        rintro rfl
        rw [List.length_nil] at hle
        omega
      rw [pieces, dif_pos ⟨hs, hne⟩, ih, fullChunks_of_le hs hle.2, remainder_of_le hs hle.2,
        List.cons_append]
  | case2 xs hlt =>
      have hshort : xs.length < size := by omega
      rw [fullChunks_of_lt hshort, remainder_of_lt hshort, List.nil_append, pieces]
      by_cases hnil : xs = []
      · rw [dif_neg fun h => h.2 hnil, if_pos hnil]
      · rw [dif_pos ⟨hs, hnil⟩, if_neg hnil, List.take_of_length_le hshort.le,
          List.drop_of_length_le hshort.le, pieces, dif_neg fun h => h.2 rfl]

/-- What is left is what follows the complete pieces. -/
theorem remainder_eq_drop {size : Nat} (hs : 0 < size) (xs : List α) :
    remainder size xs = xs.drop (xs.length / size * size) := by
  have hsplit := flatten_fullChunks_append_remainder size xs
  have hflat : (fullChunks size xs).flatten.length = xs.length / size * size := by
    rw [← length_fullChunks hs, List.length_flatten,
      List.map_eq_replicate_iff.mpr fun c hc => length_of_mem_fullChunks hc]
    simp
  have hdrop : ((fullChunks size xs).flatten ++ remainder size xs).drop
      (fullChunks size xs).flatten.length = remainder size xs := List.drop_left
  rw [hsplit, hflat] at hdrop
  exact hdrop.symm

end Chunks
