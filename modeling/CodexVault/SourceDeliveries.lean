import CodexVault.ResumedReaders

/-!
# How the bytes arrive

A `Delivery` is a source that hands its bytes out in pieces and is interrupted in
between.  `drain_delivery_iff` compares reading it to the end with reading its
`content` in one piece.  Every `read_exact` of the reader starts again after an
interruption (`loadFrame_content`); the bare `read` behind the final frame does
not, since the counter has advanced by then, and the theorem says exactly when
that shows.
-/

namespace CodexVault

open ByteStrings

/-- What one `read` of a source meets. -/
inductive Arrival where
  | interrupted
  | bytes (first : UInt8) (more : Bytes)

/-- A source that hands out its pieces in order and then ends. -/
abbrev Delivery := List Arrival

namespace Delivery

/-- The bytes delivered. -/
def content : Delivery → Bytes
  | [] => []
  | .interrupted :: rest => content rest
  | .bytes first more :: rest => first :: (more ++ content rest)

/-- What is left of a piece comes first. -/
def putBack (left : Bytes) (rest : Delivery) : Delivery :=
  match left with
  | [] => rest
  | first :: more => .bytes first more :: rest

/-- One `read` into a buffer of `n` bytes takes from one piece only. -/
def read : Delivery → Nat → Except IoError Bytes × Delivery
  | [], _ => (.ok [], [])
  | .interrupted :: rest, _ => (.error (.os .interrupted), rest)
  | .bytes first more :: rest, n =>
      (.ok ((first :: more).take n), putBack ((first :: more).drop n) rest)

/-- `read_exact` of `std`: pieces are put together until there are `n` bytes, and
an interruption is tried again. -/
def gather : Delivery → Nat → Option Bytes × Delivery
  | delivery, 0 => (some [], delivery)
  | [], _ + 1 => (none, [])
  | .interrupted :: rest, n + 1 => gather rest (n + 1)
  | .bytes first more :: rest, n + 1 =>
      if n < more.length then (some (first :: more.take n), putBack (more.drop n) rest)
      else ((gather rest (n - more.length)).1.map fun b => first :: (more ++ b),
        (gather rest (n - more.length)).2)

@[simp] theorem content_putBack (left : Bytes) (rest : Delivery) :
    content (putBack left rest) = left ++ content rest := by
  cases left <;> rfl

/-- Gathering is taking from the content. -/
theorem gather_eq (delivery : Delivery) (n : Nat) :
    (n ≤ (content delivery).length ∧
      (gather delivery n).1 = some ((content delivery).take n) ∧
      content (gather delivery n).2 = (content delivery).drop n) ∨
    ((content delivery).length < n ∧ (gather delivery n).1 = none ∧
      content (gather delivery n).2 = []) := by
  fun_induction gather delivery n with
  | case1 delivery => exact .inl ⟨Nat.zero_le _, rfl, rfl⟩
  | case2 n => exact .inr ⟨Nat.succ_pos n, rfl, rfl⟩
  | case3 rest n ih => exact ih
  | case4 first more rest n hlt =>
      left
      have hle : n ≤ more.length := hlt.le
      refine ⟨?_, ?_, ?_⟩
      · simp only [content, List.length_cons, List.length_append]
        omega
      · simp [content, List.take_append_of_le_length hle]
      · simp [content, List.drop_append_of_le_length hle]
  | case5 first more rest n hge ih =>
      have hle : more.length ≤ n := Nat.not_lt.mp hge
      have hlength : (content (.bytes first more :: rest)).length =
          more.length + (content rest).length + 1 := by
        simp [content]
      rcases ih with ⟨hn, hok, hrest⟩ | ⟨hn, hnone, hrest⟩
      · left
        refine ⟨by omega, ?_, ?_⟩
        · rw [hok]
          simp [content, List.take_append, List.take_of_length_le hle]
        · rw [hrest]
          simp [content, List.drop_append, List.drop_of_length_le hle]
      · right
        refine ⟨by omega, ?_, hrest⟩
        rw [hnone]
        rfl

theorem length_gather {delivery rest : Delivery} {n : Nat} {b : Bytes}
    (h : gather delivery n = (some b, rest)) : b.length = n := by
  have hgather := gather_eq delivery n
  rw [h] at hgather
  rcases hgather with ⟨hn, hok, _⟩ | ⟨_, hnone, _⟩
  · cases hok
    rw [List.length_take]
    omega
  · cases hnone

/-- `read_exact`. -/
def readExact (delivery : Delivery) (n : Nat) : Except IoError (FixedBytes n) × Delivery :=
  match h : gather delivery n with
  | (some b, rest) => (.ok ⟨b, length_gather h⟩, rest)
  | (none, rest) => (.error (.os .unexpectedEof), rest)

instance : Source Delivery where
  read := read
  readExact := readExact

/-- **`read_exact` starts again.**  It returns what it returns in one piece. -/
theorem readExact_content (delivery : Delivery) (n : Nat) :
    Source.readExact (content delivery) n =
      ((Source.readExact delivery n).1, content (Source.readExact delivery n).2) := by
  have hgather := gather_eq delivery n
  change _ = ((readExact delivery n).1, content (readExact delivery n).2)
  unfold readExact
  split
  · next b rest h =>
      rw [h] at hgather
      rcases hgather with ⟨hn, hok, hrest⟩ | ⟨_, hnone, _⟩
      · have hsplit : content delivery = b ++ content rest := by
          rw [hrest, ← List.take_append_drop n (content delivery)]
          cases hok
          simp
        rw [hsplit]
        exact readExact_append ⟨b, length_gather h⟩ (content rest)
      · cases hnone
  · next rest h =>
      rw [h] at hgather
      rcases hgather with ⟨_, hok, _⟩ | ⟨hn, _, hrest⟩
      · cases hok
      · have hrun : Source.readExact (content delivery) n = (.error (.os .unexpectedEof), []) :=
          dif_neg (Nat.not_le.mpr hn)
        rw [hrun, hrest]

end Delivery

/-- **A frame loads the same way.**  However its bytes arrive, the result is the
same and the same bytes are left. -/
theorem loadFrame_content (A : Aead) (cipher : Key) (seed : FixedBytes 12) (sequence : UInt32)
    (inner : Delivery) :
    loadFrame A cipher seed sequence inner.content =
      ((loadFrame A cipher seed sequence inner).1,
        (loadFrame A cipher seed sequence inner).2.content) := by
  unfold loadFrame
  rw [Delivery.readExact_content inner 9]
  cases hheader : Source.readExact inner 9 with
  | mk result middle =>
      cases result with
      | error e => rfl
      | ok header =>
          dsimp only
          cases checkHeader sequence (parseFrameHeader header) with
          | some e => rfl
          | none =>
              dsimp only
              rw [Delivery.readExact_content middle]
              cases hbody : Source.readExact middle
                  ((parseFrameHeader header).length + tagLength) with
              | mk result rest =>
                  cases result with
                  | error e => rfl
                  | ok ciphertext =>
                      dsimp only
                      split
                      · rfl
                      · split
                        · rfl
                        · split <;> rfl

/-! ## A caller who tries again -/

/-- There are fewer numbers behind the next one. -/
theorem numbersLeft_lt {i : UInt32} (h : i ≠ u32Max) :
    2 ^ 32 - (i + 1).toNat < 2 ^ 32 - i.toNat := by
  have hlt := i.toNat_lt
  have hmax : i.toNat ≠ u32Max.toNat := fun heq => h (UInt32.toNat_inj.mp heq)
  rw [u32Max_toNat] at hmax
  rw [toNat_succ h]
  omega

section

variable {R : Type} [Source R] (A : Aead) (cipher : Key) (seed : FixedBytes 12)

/-- What the frames from number `sequence` on give a caller who tries again after
an interruption, and the error they end with. -/
def settled (sequence : UInt32) (inner : R) : Bytes × Option IoError :=
  match _h : loadFrame A cipher seed sequence inner with
  | (.error e, _) => ([], some e)
  | (.ok frame, inner) =>
      if frame.1 = finalFrame then
        match Source.read inner 1 with
        | (.error e, inner) =>
            if e.kind = .interrupted then settled (sequence + 1) inner else ([], some e)
        | (.ok trailing, _) =>
            if trailing ≠ [] then
              ([], some (ioIntegrity "encrypted vault has trailing data"))
            else ([], none)
      else (frame.2 ++ (settled (sequence + 1) inner).1, (settled (sequence + 1) inner).2)
termination_by 2 ^ 32 - sequence.toNat
decreasing_by all_goals exact numbersLeft_lt (loadFrame_ok _h).1

variable {A cipher seed}

theorem settled_of_error {sequence : UInt32} {inner inner' : R} {e : IoError}
    (h : loadFrame A cipher seed sequence inner = (.error e, inner')) :
    settled A cipher seed sequence inner = ([], some e) := by
  rw [settled]
  split
  · next h' =>
      rw [h] at h'
      cases h'
      rfl
  · next h' =>
      rw [h] at h'
      cases h'

theorem settled_of_data {sequence : UInt32} {inner inner' : R} {frameType : UInt8}
    {plaintext : Bytes} (hne : frameType ≠ finalFrame)
    (h : loadFrame A cipher seed sequence inner = (.ok (frameType, plaintext), inner')) :
    settled A cipher seed sequence inner =
      (plaintext ++ (settled A cipher seed (sequence + 1) inner').1,
        (settled A cipher seed (sequence + 1) inner').2) := by
  rw [settled]
  split
  · next h' =>
      rw [h] at h'
      cases h'
  · next h' =>
      rw [h] at h'
      cases h'
      exact if_neg hne

theorem settled_of_final {sequence : UInt32} {inner inner' : R} {plaintext : Bytes}
    (h : loadFrame A cipher seed sequence inner = (.ok (finalFrame, plaintext), inner')) :
    settled A cipher seed sequence inner =
      match Source.read inner' 1 with
      | (.error e, inner) =>
          if e.kind = .interrupted then settled A cipher seed (sequence + 1) inner
          else ([], some e)
      | (.ok trailing, _) =>
          if trailing ≠ [] then
            ([], some (ioIntegrity "encrypted vault has trailing data"))
          else ([], none) := by
  rw [settled]
  split
  · next h' =>
      rw [h] at h'
      cases h'
  · next h' =>
      rw [h] at h'
      cases h'
      exact if_pos rfl

end

namespace VaultReader

variable {R : Type} [Source R] (A : Aead)

/-- What the frames ahead give a caller who tries again. -/
def ahead (r : VaultReader R) : Bytes × Option IoError :=
  settled A r.cipher r.nonceSeed r.sequence r.inner

/-- What a caller who tries again will still get. -/
def outlook (r : VaultReader R) : Bytes × Option IoError :=
  if r.finalized then ([], none)
  else (r.plaintext.drop r.plaintextOffset ++ (ahead A r).1, (ahead A r).2)

variable {A}

theorem outlook_of_finalized {r : VaultReader R} (h : r.finalized = true) :
    outlook A r = ([], none) := if_pos h

theorem outlook_of_unfinished {r : VaultReader R} (h : r.finalized = false) :
    outlook A r = (r.plaintext.drop r.plaintextOffset ++ (ahead A r).1, (ahead A r).2) :=
  if_neg (by rw [h]; exact Bool.false_ne_true)

/-- An empty buffer has nothing to add. -/
theorem outlook_of_empty {r : VaultReader R} (h : r.finalized = false)
    (hempty : r.plaintext.length ≤ r.plaintextOffset) : outlook A r = ahead A r := by
  rw [outlook_of_unfinished h, List.drop_eq_nil_of_le hempty]
  rfl

/-- **One frame.**  It ends what is ahead with its error, leaves it as it is after an
interruption, or is the first part of it. -/
theorem readNextFrame_ahead {r : VaultReader R} (hfin : r.finalized = false) :
    (∃ e r', readNextFrame A r = (.error e, r') ∧ e.kind ≠ .interrupted ∧
      ahead A r = ([], some e)) ∨
    (∃ e r', readNextFrame A r = (.error e, r') ∧ e.kind = .interrupted ∧
      r'.finalized = false ∧ r'.plaintext = r.plaintext ∧
      r'.plaintextOffset = r.plaintextOffset ∧ ahead A r = ahead A r') ∨
    (∃ r', readNextFrame A r = (.ok (), r') ∧ ahead A r = outlook A r') := by
  unfold ahead readNextFrame
  cases hload : loadFrame A r.cipher r.nonceSeed r.sequence r.inner with
  | mk result inner =>
      cases result with
      | error e =>
          obtain ⟨message, rfl⟩ := loadFrame_error hload
          rw [settled_of_error hload]
          exact .inl ⟨_, _, rfl, (fun h => by cases h), rfl⟩
      | ok frame =>
          obtain ⟨frameType, plaintext⟩ := frame
          by_cases hfinal : frameType = finalFrame
          · subst hfinal
            rw [settled_of_final hload]
            dsimp only
            rw [if_pos rfl]
            cases hread : Source.read inner 1 with
            | mk result inner' =>
                cases result with
                | error e =>
                    by_cases hkind : e.kind = .interrupted
                    · refine .inr (.inl ⟨e, _, rfl, hkind, hfin, rfl, rfl, ?_⟩)
                      exact if_pos hkind
                    · exact .inl ⟨e, _, rfl, hkind, if_neg hkind⟩
                | ok trailing =>
                    dsimp only
                    by_cases htrail : trailing = []
                    · rw [if_neg (not_not.mpr htrail), if_neg (not_not.mpr htrail)]
                      exact .inr (.inr ⟨_, rfl, (outlook_of_finalized rfl).symm⟩)
                    · rw [if_pos htrail, if_pos htrail]
                      exact .inl ⟨_, _, rfl, (fun h => by cases h), rfl⟩
          · rw [settled_of_data hfinal hload]
            dsimp only
            rw [if_neg hfinal]
            refine .inr (.inr ⟨_, rfl, ?_⟩)
            symm
            exact outlook_of_unfinished (by exact hfin)

/-- **The frame loop.** -/
theorem fill_outlook (r : VaultReader R) :
    (∃ e r', fill A r = (.error e, r') ∧ e.kind ≠ .interrupted ∧
      outlook A r = ([], some e)) ∨
    (∃ e r', fill A r = (.error e, r') ∧ e.kind = .interrupted ∧ outlook A r = outlook A r') ∨
    (∃ r', fill A r = (.ok (), r') ∧ outlook A r = outlook A r' ∧
      (r'.finalized = false → r'.plaintextOffset < r'.plaintext.length)) := by
  fun_induction fill A r with
  | case1 r hr e r' h =>
      rw [outlook_of_empty hr.2 hr.1]
      rcases readNextFrame_ahead (A := A) hr.2 with ⟨e', r1, hrun, hkind, hahead⟩ |
        ⟨e', r1, hrun, hkind, hfin, hplain, hoff, hahead⟩ | ⟨r1, hrun, _⟩
      · rw [h] at hrun
        cases hrun
        exact .inl ⟨_, _, rfl, hkind, hahead⟩
      · rw [h] at hrun
        cases hrun
        refine .inr (.inl ⟨_, _, rfl, hkind, ?_⟩)
        rw [hahead, outlook_of_empty hfin (by rw [hplain, hoff]; exact hr.1)]
      · rw [h] at hrun
        cases congrArg Prod.fst hrun
  | case2 r hr r' h ih =>
      have hstep : outlook A r = outlook A r' := by
        rw [outlook_of_empty hr.2 hr.1]
        rcases readNextFrame_ahead (A := A) hr.2 with ⟨e', r1, hrun, _⟩ | ⟨e', r1, hrun, _⟩ |
          ⟨r1, hrun, hahead⟩
        · rw [h] at hrun
          cases congrArg Prod.fst hrun
        · rw [h] at hrun
          cases congrArg Prod.fst hrun
        · rw [h] at hrun
          cases hrun
          exact hahead
      rw [hstep]
      exact ih
  | case3 r hr =>
      refine .inr (.inr ⟨r, rfl, rfl, fun hfin => ?_⟩)
      by_contra hle
      exact hr ⟨Nat.not_lt.mp hle, hfin⟩

/-- **One call** takes the first part of the outlook, or ends it, or is
interrupted and leaves it as it is. -/
theorem read_outlook {r : VaultReader R} {size : Nat} (hsize : size ≠ 0) :
    (∃ e r', read A r size = (.error e, r') ∧ e.kind ≠ .interrupted ∧
      outlook A r = ([], some e)) ∨
    (∃ e r', read A r size = (.error e, r') ∧ e.kind = .interrupted ∧
      outlook A r = outlook A r') ∨
    (∃ r', read A r size = (.ok [], r') ∧ outlook A r = ([], none)) ∨
    (∃ b r', read A r size = (.ok b, r') ∧ b ≠ [] ∧
      outlook A r = (b ++ (outlook A r').1, (outlook A r').2)) := by
  unfold read
  rw [if_neg hsize]
  rcases fill_outlook (A := A) r with ⟨e, r1, hfill, hkind, hout⟩ | ⟨e, r1, hfill, hkind, hout⟩ |
    ⟨r1, hfill, hout, hleft⟩
  · rw [hfill]
    exact .inl ⟨e, r1, rfl, hkind, hout⟩
  · rw [hfill]
    exact .inr (.inl ⟨e, r1, rfl, hkind, hout⟩)
  · rw [hfill]
    dsimp only
    by_cases hfin : r1.finalized = true
    · rw [if_pos hfin]
      exact .inr (.inr (.inl ⟨r1, rfl, hout.trans (outlook_of_finalized hfin)⟩))
    · rw [if_neg hfin]
      have hfin' : r1.finalized = false := Bool.eq_false_iff.mpr hfin
      have hlt := hleft hfin'
      generalize hlen : min (r1.plaintext.drop r1.plaintextOffset).length size = length
      have hdrop : (r1.plaintext.drop r1.plaintextOffset).length =
          r1.plaintext.length - r1.plaintextOffset := List.length_drop
      refine .inr (.inr (.inr ⟨_, _, rfl, ?_, ?_⟩))
      · intro hnil
        have hzero := congrArg List.length hnil
        rw [List.length_take, List.length_nil] at hzero
        omega
      · have hnext : outlook A { r1 with plaintextOffset := r1.plaintextOffset + length } =
            (r1.plaintext.drop (r1.plaintextOffset + length) ++ (ahead A r1).1,
              (ahead A r1).2) :=
          outlook_of_unfinished hfin'
        rw [hout, hnext, outlook_of_unfinished hfin', ← List.append_assoc, ← List.drop_drop,
          List.take_append_drop]

/-- **Reading to the end** delivers the outlook. -/
theorem readToEnd_outlook (sizes : Nat → Nat) (k : Nat) (r : VaultReader R) :
    readToEnd A sizes k r = outlook A r := by
  fun_induction readToEnd A sizes k r with
  | case1 k r e r' hrun hkind ih =>
      rcases read_outlook (A := A) (r := r) (Nat.succ_ne_zero (sizes k)) with
        ⟨e', r1, hcall, hkind', _⟩ | ⟨e', r1, hcall, _, hout⟩ | ⟨r1, hcall, _⟩ |
        ⟨b, r1, hcall, _⟩
      · rw [hrun] at hcall
        cases hcall
        exact absurd hkind hkind'
      · rw [hrun] at hcall
        cases hcall
        rw [ih, hout]
      · rw [hrun] at hcall
        cases congrArg Prod.fst hcall
      · rw [hrun] at hcall
        cases congrArg Prod.fst hcall
  | case2 k r e r' hrun hkind =>
      rcases read_outlook (A := A) (r := r) (Nat.succ_ne_zero (sizes k)) with
        ⟨e', r1, hcall, _, hout⟩ | ⟨e', r1, hcall, hkind', _⟩ | ⟨r1, hcall, _⟩ |
        ⟨b, r1, hcall, _⟩
      · rw [hrun] at hcall
        cases hcall
        exact hout.symm
      · rw [hrun] at hcall
        cases hcall
        exact absurd hkind' hkind
      · rw [hrun] at hcall
        cases congrArg Prod.fst hcall
      · rw [hrun] at hcall
        cases congrArg Prod.fst hcall
  | case3 k r r' hrun =>
      rcases read_outlook (A := A) (r := r) (Nat.succ_ne_zero (sizes k)) with
        ⟨e', r1, hcall, _⟩ | ⟨e', r1, hcall, _⟩ | ⟨r1, hcall, hout⟩ | ⟨b, r1, hcall, hne, _⟩
      · rw [hrun] at hcall
        cases congrArg Prod.fst hcall
      · rw [hrun] at hcall
        cases congrArg Prod.fst hcall
      · exact hout.symm
      · rw [hrun] at hcall
        cases hcall
        exact absurd rfl hne
  | case4 k r b r' hrun hb ih =>
      rcases read_outlook (A := A) (r := r) (Nat.succ_ne_zero (sizes k)) with
        ⟨e', r1, hcall, _⟩ | ⟨e', r1, hcall, _⟩ | ⟨r1, hcall, _⟩ | ⟨b', r1, hcall, _, hout⟩
      · rw [hrun] at hcall
        cases congrArg Prod.fst hcall
      · rw [hrun] at hcall
        cases congrArg Prod.fst hcall
      · rw [hrun] at hcall
        cases congrArg Prod.fst hcall
        exact absurd rfl hb
      · rw [hrun] at hcall
        cases hcall
        rw [ih, hout]

end VaultReader

/-! ## The frame behind which an interruption counts -/

section

variable (A : Aead) (cipher : Key) (seed : FixedBytes 12)

/-- The frames from number `i` on are data frames up to a final frame of number
`j`, behind which `behind` is still to be delivered. -/
inductive FinalFrameAt : UInt32 → Delivery → UInt32 → Delivery → Prop
  | final {i : UInt32} {plaintext : Bytes} {delivery behind : Delivery}
      (hload : loadFrame A cipher seed i delivery = (.ok (finalFrame, plaintext), behind)) :
      FinalFrameAt i delivery i behind
  | data {i j : UInt32} {frameType : UInt8} {plaintext : Bytes}
      {delivery rest behind : Delivery} (hne : frameType ≠ finalFrame)
      (hload : loadFrame A cipher seed i delivery = (.ok (frameType, plaintext), rest))
      (tail : FinalFrameAt (i + 1) rest j behind) : FinalFrameAt i delivery j behind

/-- The frames from number `i` on are data frames without plaintext and final
frames with an interruption behind them, up to a final frame with a byte behind it. -/
inductive TrailingFrames : UInt32 → Delivery → Prop
  | final {i : UInt32} {plaintext more : Bytes} {first : UInt8} {delivery behind : Delivery}
      (hload : loadFrame A cipher seed i delivery =
        (.ok (finalFrame, plaintext), .bytes first more :: behind)) :
      TrailingFrames i delivery
  | interrupted {i : UInt32} {plaintext : Bytes} {delivery behind : Delivery}
      (hload : loadFrame A cipher seed i delivery =
        (.ok (finalFrame, plaintext), .interrupted :: behind))
      (tail : TrailingFrames (i + 1) behind) : TrailingFrames i delivery
  | data {i : UInt32} {frameType : UInt8} {delivery rest : Delivery}
      (hne : frameType ≠ finalFrame)
      (hload : loadFrame A cipher seed i delivery = (.ok (frameType, []), rest))
      (tail : TrailingFrames (i + 1) rest) : TrailingFrames i delivery

end

section

variable {A : Aead} {cipher : Key} {seed : FixedBytes 12}

/-- The text of a frame that is refused is not that of trailing data. -/
theorem loadFrame_error_ne {R : Type} [Source R] {sequence : UInt32} {inner inner' : R}
    {e : IoError} (h : loadFrame A cipher seed sequence inner = (.error e, inner')) :
    e ≠ ioIntegrity "encrypted vault has trailing data" := by
  unfold loadFrame at h
  split at h
  · cases h
    decide
  · dsimp only at h
    split at h
    · next hcheck =>
        cases h
        unfold checkHeader at hcheck
        split at hcheck
        · cases hcheck
          decide
        · split at hcheck
          · cases hcheck
            decide
          · split at hcheck
            · cases hcheck
              decide
            · cases hcheck
    · split at h
      · cases h
        decide
      · split at h
        · cases h
          decide
        · split at h
          · cases h
            decide
          · split at h
            · cases h
              decide
            · cases h

/-- What a final frame ends with: a further read that is not interrupted decides. -/
theorem settled_of_final_delivery {i : UInt32} {delivery behind : Delivery} {plaintext : Bytes}
    (h : loadFrame A cipher seed i delivery = (.ok (finalFrame, plaintext), behind)) :
    settled A cipher seed i delivery =
      match behind with
      | [] => ([], none)
      | .interrupted :: rest => settled A cipher seed (i + 1) rest
      | .bytes _ _ :: _ => ([], some (ioIntegrity "encrypted vault has trailing data")) := by
  rw [settled_of_final h]
  cases behind with
  | nil => rfl
  | cons arrival rest => cases arrival <;> rfl

/-- The same frame in one piece. -/
theorem settled_of_final_content {i : UInt32} {delivery behind : Delivery} {plaintext : Bytes}
    (h : loadFrame A cipher seed i delivery = (.ok (finalFrame, plaintext), behind)) :
    settled A cipher seed i delivery.content =
      if behind.content = [] then ([], none)
      else ([], some (ioIntegrity "encrypted vault has trailing data")) := by
  have hload : loadFrame A cipher seed i delivery.content =
      (.ok (finalFrame, plaintext), behind.content) := by
    rw [loadFrame_content, h]
  rw [settled_of_final hload]
  cases behind.content <;> rfl

/-- A frame that loads has bytes. -/
theorem content_ne_of_loadFrame {i : UInt32} {delivery rest : Delivery} {frame : UInt8 × Bytes}
    (h : loadFrame A cipher seed i delivery = (.ok frame, rest)) : delivery.content ≠ [] := by
  intro hnil
  have hload := loadFrame_content A cipher seed i delivery
  rw [h, hnil] at hload
  have hfst := congrArg Prod.fst hload
  cases hfst

theorem TrailingFrames.content_ne {i : UInt32} {delivery : Delivery}
    (h : TrailingFrames A cipher seed i delivery) : delivery.content ≠ [] := by
  cases h with
  | final hload => exact content_ne_of_loadFrame hload
  | interrupted hload _ => exact content_ne_of_loadFrame hload
  | data _ hload _ => exact content_ne_of_loadFrame hload

/-- The error of trailing data without plaintext comes from trailing frames only. -/
theorem settled_eq_trailing_iff {i : UInt32} {delivery : Delivery} :
    settled A cipher seed i delivery =
        ([], some (ioIntegrity "encrypted vault has trailing data")) ↔
      TrailingFrames A cipher seed i delivery := by
  constructor
  · intro h
    fun_induction settled A cipher seed i delivery with
    | case1 i delivery e rest hload =>
        cases h
        exact absurd rfl (loadFrame_error_ne hload)
    | case2 i delivery frame inner hload hfinal e rest hread hkind ih =>
        obtain ⟨frameType, plaintext⟩ := frame
        cases hfinal
        match inner, hread with
        | .interrupted :: rest', hread =>
            cases hread
            exact .interrupted hload (ih h)
    | case3 i delivery frame inner hload hfinal e rest hread hkind =>
        match inner, hread with
        | .interrupted :: rest', hread =>
            cases hread
            exact absurd rfl hkind
    | case4 i delivery frame inner hload hfinal trailing rest hread htrail =>
        obtain ⟨frameType, plaintext⟩ := frame
        cases hfinal
        match inner, hread with
        | [], hread =>
            cases hread
            exact absurd rfl htrail
        | .bytes first more :: rest', _ => exact .final hload
    | case5 i delivery frame inner hload hfinal trailing rest hread htrail => cases h
    | case6 i delivery frame inner hload hne ih =>
        obtain ⟨frameType, plaintext⟩ := frame
        obtain ⟨hplain, herror⟩ := Prod.mk.inj h
        obtain ⟨hnil, hrest⟩ := List.append_eq_nil_iff.mp hplain
        cases hnil
        exact .data hne hload (ih (Prod.ext hrest herror))
  · intro h
    induction h with
    | final hload => rw [settled_of_final_delivery hload]
    | interrupted hload _ ih =>
        rw [settled_of_final_delivery hload]
        exact ih
    | data hne hload _ ih =>
        rw [settled_of_data hne hload, ih]
        rfl

theorem finalFrameAt_of_final {i j : UInt32} {delivery inner behind : Delivery}
    {plaintext : Bytes}
    (hload : loadFrame A cipher seed i delivery = (.ok (finalFrame, plaintext), inner)) :
    FinalFrameAt A cipher seed i delivery j behind ↔ j = i ∧ behind = inner := by
  constructor
  · intro h
    cases h with
    | final h =>
        rw [hload] at h
        cases h
        exact ⟨rfl, rfl⟩
    | data hne h _ =>
        rw [hload] at h
        cases h
        exact absurd rfl hne
  · rintro ⟨rfl, rfl⟩
    exact .final hload

theorem finalFrameAt_of_data {i j : UInt32} {delivery inner behind : Delivery}
    {frameType : UInt8} {plaintext : Bytes} (hne : frameType ≠ finalFrame)
    (hload : loadFrame A cipher seed i delivery = (.ok (frameType, plaintext), inner)) :
    FinalFrameAt A cipher seed i delivery j behind ↔
      FinalFrameAt A cipher seed (i + 1) inner j behind := by
  constructor
  · intro h
    cases h with
    | final h =>
        rw [hload] at h
        cases h
        exact absurd rfl hne
    | data _ h tail =>
        rw [hload] at h
        cases h
        exact tail
  · exact .data hne hload

theorem not_finalFrameAt_of_error {i j : UInt32} {delivery inner behind : Delivery} {e : IoError}
    (hload : loadFrame A cipher seed i delivery = (.error e, inner)) :
    ¬ FinalFrameAt A cipher seed i delivery j behind := by
  intro h
  cases h with
  | final h =>
      rw [hload] at h
      cases h
  | data _ h _ =>
      rw [hload] at h
      cases h

/-- Behind a final frame only an interruption makes a difference, and only if what
follows it does not end like trailing data. -/
theorem settled_final_content_iff {i : UInt32} {delivery inner : Delivery} {plaintext : Bytes}
    (hload : loadFrame A cipher seed i delivery = (.ok (finalFrame, plaintext), inner)) :
    settled A cipher seed i delivery = settled A cipher seed i delivery.content ↔
      ∀ rest, inner = .interrupted :: rest → TrailingFrames A cipher seed (i + 1) rest := by
  rw [settled_of_final_content hload, settled_of_final_delivery hload]
  match inner with
  | [] => exact iff_of_true rfl fun rest h => by cases h
  | .bytes first more :: rest => exact iff_of_true rfl fun rest h => by cases h
  | .interrupted :: rest =>
      change settled A cipher seed (i + 1) rest =
        (if Delivery.content rest = [] then _ else _) ↔ _
      constructor
      · rintro h rest' ⟨⟩
        by_cases hnil : Delivery.content rest = []
        · -- without a byte left the next frame is cut off
          exfalso
          rw [if_pos hnil] at h
          cases hnext : loadFrame A cipher seed (i + 1) rest with
          | mk result inner' =>
              cases result with
              | error e =>
                  rw [settled_of_error hnext] at h
                  cases h
              | ok frame => exact content_ne_of_loadFrame hnext hnil
        · rw [if_neg hnil] at h
          exact settled_eq_trailing_iff.mp h
      · intro h
        have htrailing := h rest rfl
        rw [if_neg htrailing.content_ne]
        exact settled_eq_trailing_iff.mpr htrailing

/-- **Arrival.**  What the frames give a caller who tries again is what they give
in one piece, unless an interruption comes right behind the first final frame and no
further frames hide it. -/
theorem settled_content_iff {i : UInt32} {delivery : Delivery} :
    settled A cipher seed i delivery = settled A cipher seed i delivery.content ↔
      ∀ j rest, FinalFrameAt A cipher seed i delivery j (.interrupted :: rest) →
        TrailingFrames A cipher seed (j + 1) rest := by
  match hload : loadFrame A cipher seed i delivery with
  | (.error e, inner) =>
      have hcontent := loadFrame_content A cipher seed i delivery
      rw [hload] at hcontent
      rw [settled_of_error hload, settled_of_error hcontent]
      exact iff_of_true rfl fun j rest h => absurd h (not_finalFrameAt_of_error hload)
  | (.ok (frameType, plaintext), inner) =>
      by_cases hfinal : frameType = finalFrame
      · subst hfinal
        rw [settled_final_content_iff hload]
        constructor
        · intro h j rest hat
          obtain ⟨rfl, hinner⟩ := (finalFrameAt_of_final hload).mp hat
          exact h rest hinner.symm
        · intro h rest hinner
          exact h i rest ((finalFrameAt_of_final hload).mpr ⟨rfl, hinner.symm⟩)
      · have hcontent := loadFrame_content A cipher seed i delivery
        rw [hload] at hcontent
        have ih : settled A cipher seed (i + 1) inner =
              settled A cipher seed (i + 1) inner.content ↔
            ∀ j rest, FinalFrameAt A cipher seed (i + 1) inner j (.interrupted :: rest) →
              TrailingFrames A cipher seed (j + 1) rest :=
          settled_content_iff
        rw [settled_of_data hfinal hload, settled_of_data hfinal hcontent, Prod.mk.injEq,
          List.append_cancel_left_eq, ← Prod.ext_iff, ih]
        simp only [finalFrameAt_of_data hfinal hload]
termination_by 2 ^ 32 - i.toNat
decreasing_by exact numbersLeft_lt (loadFrame_ok hload).1

end

/-- Opening takes the header from either source. -/
theorem VaultReader.new_content (delivery : Delivery) (key : Key) :
    (∃ e, VaultReader.new delivery key = .error e ∧
      VaultReader.new delivery.content key = .error e) ∨
    (∃ r r', VaultReader.new delivery key = .ok r ∧
      VaultReader.new delivery.content key = .ok r' ∧
      r'.inner = r.inner.content ∧ r.cipher = key ∧ r'.cipher = key ∧
      r'.nonceSeed = r.nonceSeed ∧ r.sequence = 0 ∧ r'.sequence = 0 ∧
      r.plaintext = [] ∧ r'.plaintext = [] ∧ r.finalized = false ∧ r'.finalized = false) := by
  unfold VaultReader.new
  rw [Delivery.readExact_content delivery 20]
  cases Source.readExact delivery 20 with
  | mk result inner =>
      cases result with
      | error e => exact .inl ⟨_, rfl, rfl⟩
      | ok header =>
          dsimp only
          by_cases hmagic : header.toBytes.take magic.length = magic
          · rw [if_neg (not_not.mpr hmagic), if_neg (not_not.mpr hmagic)]
            exact .inr ⟨_, _, rfl, rfl, rfl, rfl, rfl, rfl, rfl, rfl, rfl, rfl, rfl, rfl⟩
          · rw [if_pos hmagic, if_pos hmagic]
            exact .inl ⟨_, rfl, rfl⟩

/-- A reader just opened has only frames ahead. -/
theorem VaultReader.outlook_of_new {R : Type} [Source R] {A : Aead} {r : VaultReader R}
    (hfin : r.finalized = false) (hplain : r.plaintext = []) (hseq : r.sequence = 0) :
    VaultReader.outlook A r = settled A r.cipher r.nonceSeed 0 r.inner := by
  rw [VaultReader.outlook_of_empty hfin (by rw [hplain]; exact Nat.zero_le _), VaultReader.ahead,
    hseq]

/-- What draining gives, when the source opens. -/
theorem drain_of_new {R : Type} [Source R] {A : Aead} {key : Key} {sizes : Nat → Nat} {inner : R}
    {r : VaultReader R} (h : VaultReader.new inner key = .ok r) (hfin : r.finalized = false)
    (hplain : r.plaintext = []) (hseq : r.sequence = 0) :
    drain A key sizes inner = ((settled A r.cipher r.nonceSeed 0 r.inner).1,
      (settled A r.cipher r.nonceSeed 0 r.inner).2.map mapReadError) := by
  unfold drain
  rw [h]
  dsimp only
  rw [VaultReader.readToEnd_outlook, VaultReader.outlook_of_new hfin hplain hseq]

/-- A source that fails by interruptions only leaves integrity errors to report. -/
theorem settled_error {R : Type} [Source R] {A : Aead} {cipher : Key} {seed : FixedBytes 12}
    (hread : ∀ (inner : R) e, (Source.read inner 1).1 = .error e → e.kind = .interrupted)
    {i : UInt32} {inner : R} {e : IoError} (h : (settled A cipher seed i inner).2 = some e) :
    ∃ message, e = ioIntegrity message := by
  fun_induction settled A cipher seed i inner with
  | case1 i inner e' rest hload =>
      cases h
      exact loadFrame_error hload
  | case2 i inner frame inner' hload hfinal e' rest hrun hkind ih => exact ih h
  | case3 i inner frame inner' hload hfinal e' rest hrun hkind =>
      exact absurd (hread inner' e' (congrArg Prod.fst hrun)) hkind
  | case4 =>
      cases h
      exact ⟨_, rfl⟩
  | case5 => cases h
  | case6 i inner frame inner' hload hne ih => exact ih h

theorem Delivery.read_error (inner : Delivery) (e : IoError)
    (h : (Source.read inner 1).1 = .error e) : e.kind = .interrupted := by
  match inner, h with
  | .interrupted :: rest, h =>
      cases h
      rfl

theorem bytes_read_error (inner : Bytes) (e : IoError)
    (h : (Source.read inner 1).1 = .error e) : e.kind = .interrupted := by
  cases h

/-- The caller sees the whole of an integrity error. -/
theorem map_mapReadError_inj {a b : Option IoError}
    (ha : ∀ e, a = some e → ∃ message, e = ioIntegrity message)
    (hb : ∀ e, b = some e → ∃ message, e = ioIntegrity message) :
    a.map mapReadError = b.map mapReadError ↔ a = b := by
  constructor
  · intro h
    match a, b with
    | none, none => rfl
    | some e, some e' =>
        obtain ⟨message, rfl⟩ := ha e rfl
        obtain ⟨message', rfl⟩ := hb e' rfl
        cases h
        rfl
  · rintro rfl
    rfl

/-- **The result does not depend on how the bytes arrive**, with one exception: an
interruption of the read behind the first final frame is not repeated by the reader
but taken up by the next call, which looks for another frame. -/
theorem drain_delivery_iff (A : Aead) (key : Key) (sizes sizes' : Nat → Nat)
    (delivery : Delivery) :
    drain A key sizes delivery = drain A key sizes' delivery.content ↔
      ∀ r, VaultReader.new delivery key = .ok r →
        ∀ j rest, FinalFrameAt A key r.nonceSeed 0 r.inner j (.interrupted :: rest) →
          TrailingFrames A key r.nonceSeed (j + 1) rest := by
  rcases VaultReader.new_content delivery key with ⟨e, hopen, hopen'⟩ |
    ⟨r, r', hopen, hopen', hinner, hkey, hkey', hseed, hseq, hseq', hplain, hplain', hfin, hfin'⟩
  · unfold drain
    rw [hopen, hopen']
    exact iff_of_true rfl fun r h => by cases h
  · rw [drain_of_new hopen hfin hplain hseq, drain_of_new hopen' hfin' hplain' hseq', hopen,
      hkey, hkey', hseed, hinner, Prod.mk.injEq,
      map_mapReadError_inj (fun e => settled_error Delivery.read_error)
        (fun e => settled_error bytes_read_error), ← Prod.ext_iff, settled_content_iff]
    constructor
    · rintro h r1 ⟨⟩
      exact h
    · exact fun h => h r rfl

/-- The finished sample stream in one piece, with an interruption behind it. -/
def interruptedSample : Delivery :=
  [.bytes 67 ((fileHeader (FixedBytes.replicate 12 0) ++
      (sampleSealings.map Sealing.bytes).flatten).drop 1), .interrupted]

/-- The frames of the sample from number `i` on, and the interruption. -/
def interruptedFrames (i : Nat) : Delivery :=
  Delivery.putBack ((sampleSealings.drop i).map Sealing.bytes).flatten [.interrupted]

/-- The plaintext of the sample is delivered either way, but the interrupted reader
reports a truncated stream. -/
theorem drain_interruptedSample :
    drain sampleAead.toAead (FixedBytes.replicate 32 0) (fun _ => 0) interruptedSample =
        ([7], some (.integrity "encrypted vault is truncated")) ∧
      drain sampleAead.toAead (FixedBytes.replicate 32 0) (fun _ => 0)
        interruptedSample.content = ([7], none) := by
  have hdata : loadFrame sampleAead.toAead (FixedBytes.replicate 32 0) (FixedBytes.replicate 12 0) 0
      (interruptedFrames 0) = (.ok (dataFrame, [7]), interruptedFrames 1) := rfl
  have hfinal : loadFrame sampleAead.toAead (FixedBytes.replicate 32 0)
      (FixedBytes.replicate 12 0) 1 (interruptedFrames 1) =
      (.ok (finalFrame, []), [.interrupted]) := rfl
  have hcontent := loadFrame_content sampleAead.toAead (FixedBytes.replicate 32 0)
    (FixedBytes.replicate 12 0) 0 (interruptedFrames 0)
  rw [hdata] at hcontent
  have hne : dataFrame ≠ finalFrame := by decide
  have hopen : VaultReader.new interruptedSample (FixedBytes.replicate 32 0) =
      .ok (⟨interruptedFrames 0, FixedBytes.replicate 32 0, FixedBytes.replicate 12 0, [], 0, 0,
        false⟩ : VaultReader Delivery) := rfl
  have hopen' : VaultReader.new interruptedSample.content (FixedBytes.replicate 32 0) =
      .ok (sampleReader (interruptedFrames 0).content) := rfl
  rw [drain_of_new hopen rfl rfl rfl, drain_of_new hopen' rfl rfl rfl]
  dsimp only [sampleReader]
  rw [settled_of_data hne hdata, settled_of_data hne hcontent]
  change (_ ++ (settled _ _ _ 1 (interruptedFrames 1)).1,
    (settled _ _ _ 1 (interruptedFrames 1)).2.map mapReadError) = _ ∧
    (_ ++ (settled _ _ _ 1 (interruptedFrames 1).content).1,
      (settled _ _ _ 1 (interruptedFrames 1).content).2.map mapReadError) = _
  rw [settled_of_final_delivery hfinal, settled_of_final_content hfinal]
  dsimp only
  rw [settled_of_error (e := ioIntegrity "encrypted vault is truncated") rfl]
  exact ⟨rfl, rfl⟩

theorem drain_depends_on_arrival :
    drain sampleAead.toAead (FixedBytes.replicate 32 0) (fun _ => 0) interruptedSample ≠
      drain sampleAead.toAead (FixedBytes.replicate 32 0) (fun _ => 0)
        interruptedSample.content := by
  rw [drain_interruptedSample.1, drain_interruptedSample.2]
  exact fun h => by cases h

end CodexVault
