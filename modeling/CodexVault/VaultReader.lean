import CodexVault.Aead
import CodexVault.FrameFormat

/-!
# The vault reader

`VaultReader` reads one frame at a time, checks it, and hands out its plaintext
piece by piece.  `loadFrame_ok` says once what an accepted frame is and
`readNextFrame_cases` what it does to the reader; every later fact about the
reader goes through them.

`remaining` is what the reader will still deliver and how it will end.  It does
not mention the sizes of the caller's buffers: `read_cons` and `read_nil` show
that a `read` takes the next bytes of it, whatever the size.
-/

namespace CodexVault

open ByteStrings

/-- The part of `std::io::Read` the program uses. -/
class Source (R : Type) where
  read : R → Nat → Except IoError Bytes × R
  readExact : R → (n : Nat) → Except IoError (FixedBytes n) × R

/-- A byte string as a source: a cursor over memory, or a file that does not
change while it is read. -/
instance : Source Bytes where
  read r n := (.ok (r.take n), r.drop n)
  readExact r n :=
    if h : n ≤ r.length then (.ok ⟨r.take n, by simp [h]⟩, r.drop n)
    else (.error (.os .unexpectedEof), [])

/-- `VaultReader`.  The field `file_header` is `fileHeader nonceSeed`, as in the
writer. -/
structure VaultReader (R : Type) where
  inner : R
  cipher : Key
  nonceSeed : FixedBytes 12
  plaintext : Bytes
  plaintextOffset : Nat
  sequence : UInt32
  finalized : Bool

/-- The fields of a frame header as the reader takes them apart. -/
structure HeaderFields where
  frameType : UInt8
  sequence : UInt32
  length : Nat

/-- `header[0]`, `header[1..5]` and `header[5..9]`. -/
def parseFrameHeader (header : FixedBytes 9) : HeaderFields where
  frameType := header.toBytes.headD 0
  sequence := UInt32.ofNat (value ((header.toBytes.drop 1).take 4))
  length := value (header.toBytes.drop 5)

/-- The nonce seed after the magic of a file header. -/
def headerSeed (header : FixedBytes 20) : FixedBytes 12 :=
  ⟨header.toBytes.drop magic.length, by simp [magic]⟩

/-- The checks of `read_next_frame` on a frame header. -/
def checkHeader (sequence : UInt32) (fields : HeaderFields) : Option IoError :=
  if fields.sequence ≠ sequence then
    some (ioIntegrity "encrypted vault frame order is invalid")
  else if fields.frameType ≠ dataFrame ∧ fields.frameType ≠ finalFrame then
    some (ioIntegrity "encrypted vault frame type is invalid")
  else if chunkSize < fields.length ∨ (fields.frameType = finalFrame ∧ fields.length ≠ 0) then
    some (ioIntegrity "encrypted vault frame length is invalid")
  else none

/-- The part of `read_next_frame` that does not change the reader's own fields:
a frame's type and its authenticated plaintext. -/
def loadFrame {R : Type} [Source R] (A : Aead) (cipher : Key) (nonceSeed : FixedBytes 12)
    (sequence : UInt32) (inner : R) : Except IoError (UInt8 × Bytes) × R :=
  match Source.readExact inner 9 with
  | (.error _, inner) => (.error (ioIntegrity "encrypted vault is truncated"), inner)
  | (.ok header, inner) =>
      let fields := parseFrameHeader header
      match checkHeader sequence fields with
      | some e => (.error e, inner)
      | none =>
          match Source.readExact inner (fields.length + tagLength) with
          | (.error _, inner) => (.error (ioIntegrity "encrypted vault is truncated"), inner)
          | (.ok ciphertext, inner) =>
              let associatedData := fileHeader nonceSeed ++ header.toBytes
              match nonceBytes nonceSeed fields.sequence with
              | .error _ =>
                  (.error (ioIntegrity "encrypted vault nonce sequence overflow"), inner)
              | .ok nonce =>
                  match A.decrypt cipher nonce associatedData ciphertext.toBytes with
                  | none =>
                      (.error (ioIntegrity "encrypted vault authentication failed"), inner)
                  | some plaintext =>
                      if sequence = u32Max then
                        (.error (ioIntegrity "encrypted vault frame sequence overflow"), inner)
                      else (.ok (fields.frameType, plaintext), inner)

/-- A frame that cannot be loaded is an integrity error. -/
theorem loadFrame_error {R : Type} [Source R] {A : Aead} {cipher : Key}
    {nonceSeed : FixedBytes 12} {sequence : UInt32} {inner inner' : R} {e : IoError}
    (h : loadFrame A cipher nonceSeed sequence inner = (.error e, inner')) :
    ∃ message, e = ioIntegrity message := by
  unfold loadFrame at h
  split at h
  · cases h
    exact ⟨_, rfl⟩
  · dsimp only at h
    split at h
    · next hcheck =>
        cases h
        unfold checkHeader at hcheck
        split at hcheck
        · exact ⟨_, (Option.some.inj hcheck).symm⟩
        · split at hcheck
          · exact ⟨_, (Option.some.inj hcheck).symm⟩
          · split at hcheck
            · exact ⟨_, (Option.some.inj hcheck).symm⟩
            · cases hcheck
    · split at h
      · cases h
        exact ⟨_, rfl⟩
      · split at h
        · cases h
          exact ⟨_, rfl⟩
        · split at h
          · cases h
            exact ⟨_, rfl⟩
          · split at h
            · cases h
              exact ⟨_, rfl⟩
            · cases h

/-- What a loaded frame was: its header passed the checks and its ciphertext
opened under the nonce of its number. -/
theorem loadFrame_ok {R : Type} [Source R] {A : Aead} {cipher : Key}
    {nonceSeed : FixedBytes 12} {sequence : UInt32} {inner inner' : R}
    {frameType : UInt8} {plaintext : Bytes}
    (h : loadFrame A cipher nonceSeed sequence inner = (.ok (frameType, plaintext), inner')) :
    sequence ≠ u32Max ∧
    ∃ (header : FixedBytes 9) (middle : R)
      (ciphertext : FixedBytes ((parseFrameHeader header).length + tagLength))
      (nonce : FixedBytes 12),
      Source.readExact inner 9 = (.ok header, middle) ∧
      checkHeader sequence (parseFrameHeader header) = none ∧
      (parseFrameHeader header).frameType = frameType ∧
      Source.readExact middle ((parseFrameHeader header).length + tagLength) =
        (.ok ciphertext, inner') ∧
      nonceBytes nonceSeed (parseFrameHeader header).sequence = .ok nonce ∧
      A.decrypt cipher nonce (fileHeader nonceSeed ++ header.toBytes) ciphertext.toBytes =
        some plaintext := by
  unfold loadFrame at h
  split at h
  · cases h
  · next header middle hheader =>
      dsimp only at h
      split at h
      · cases h
      · next hcheck =>
          split at h
          · cases h
          · next ciphertext inner2 hbody =>
              split at h
              · cases h
              · next nonce hnonce =>
                  split at h
                  · cases h
                  · next p hdec =>
                      split at h
                      · cases h
                      · next hne =>
                          cases h
                          exact ⟨hne, header, middle, ciphertext, nonce, hheader, hcheck, rfl,
                            hbody, hnonce, hdec⟩

namespace VaultReader

variable {R : Type} [Source R] (A : Aead)

/-- `VaultReader::new`. -/
def new (inner : R) (dataKey : Key) : Except VaultError (VaultReader R) :=
  match Source.readExact inner 20 with
  | (.error _, _) => .error (.integrity "encrypted vault header is truncated")
  | (.ok header, inner) =>
      if header.toBytes.take magic.length ≠ magic then
        .error (.integrity "unsupported encrypted vault format")
      else .ok {
        inner := inner
        cipher := dataKey
        nonceSeed := headerSeed header
        plaintext := []
        plaintextOffset := 0
        sequence := 0
        finalized := false }

/-- `read_next_frame`. -/
def readNextFrame (r : VaultReader R) : Except IoError Unit × VaultReader R :=
  match loadFrame A r.cipher r.nonceSeed r.sequence r.inner with
  | (.error e, inner) => (.error e, { r with inner := inner })
  | (.ok frame, inner) =>
      let r := { r with inner := inner, sequence := r.sequence + 1 }
      if frame.1 = finalFrame then
        match Source.read r.inner 1 with
        | (.error e, inner) => (.error e, { r with inner := inner })
        | (.ok trailing, inner) =>
            if trailing ≠ [] then
              (.error (ioIntegrity "encrypted vault has trailing data"), { r with inner := inner })
            else (.ok (), { r with inner := inner, finalized := true, plaintext := [] })
      else (.ok (), { r with plaintext := frame.2, plaintextOffset := 0 })

/-- **What one frame does to the reader.**  Nothing but the source moves; or the
counter advances and the read after the final frame fails; or the stream is
finalized; or a data frame is loaded. -/
theorem readNextFrame_cases (r : VaultReader R) :
    (∃ e inner, loadFrame A r.cipher r.nonceSeed r.sequence r.inner = (.error e, inner) ∧
      readNextFrame A r = (.error e, { r with inner := inner })) ∨
    (∃ frame inner e inner',
      loadFrame A r.cipher r.nonceSeed r.sequence r.inner = (.ok frame, inner) ∧
      readNextFrame A r =
        (.error e, { r with inner := inner', sequence := r.sequence + 1 })) ∨
    (∃ plaintext inner inner',
      loadFrame A r.cipher r.nonceSeed r.sequence r.inner =
        (.ok (finalFrame, plaintext), inner) ∧
      Source.read inner 1 = (.ok [], inner') ∧
      readNextFrame A r = (.ok (), { r with
        inner := inner', sequence := r.sequence + 1, finalized := true, plaintext := [] })) ∨
    (∃ frameType plaintext inner, frameType ≠ finalFrame ∧
      loadFrame A r.cipher r.nonceSeed r.sequence r.inner =
        (.ok (frameType, plaintext), inner) ∧
      readNextFrame A r = (.ok (), { r with
        inner := inner, sequence := r.sequence + 1, plaintext := plaintext,
        plaintextOffset := 0 })) := by
  unfold readNextFrame
  cases hload : loadFrame A r.cipher r.nonceSeed r.sequence r.inner with
  | mk result inner =>
      cases result with
      | error e => exact .inl ⟨e, inner, rfl, rfl⟩
      | ok frame =>
          obtain ⟨frameType, plaintext⟩ := frame
          right
          by_cases hfinal : frameType = finalFrame
          · subst hfinal
            dsimp only
            rw [if_pos rfl]
            cases hread : Source.read inner 1 with
            | mk result inner' =>
                cases result with
                | error e => exact .inl ⟨_, inner, e, inner', rfl, rfl⟩
                | ok trailing =>
                    by_cases htrail : trailing = []
                    · subst htrail
                      exact .inr (.inl ⟨plaintext, inner, inner', rfl, hread, rfl⟩)
                    · refine .inl ⟨_, inner, ioIntegrity "encrypted vault has trailing data",
                        inner', rfl, ?_⟩
                      dsimp only
                      rw [if_pos htrail]
          · refine .inr (.inr ⟨frameType, plaintext, inner, hfinal, rfl, ?_⟩)
            dsimp only
            rw [if_neg hfinal]

theorem sequence_ne_of_loadFrame {A : Aead} {r : VaultReader R} {frame : UInt8 × Bytes}
    {inner : R} (h : loadFrame A r.cipher r.nonceSeed r.sequence r.inner = (.ok frame, inner)) :
    r.sequence ≠ u32Max :=
  (loadFrame_ok h).1

/-- Frames left before the counter ends; the measure of the reader's loops. -/
def framesLeft (r : VaultReader R) : Nat := 2 ^ 32 - r.sequence.toNat

omit [Source R] in
theorem framesLeft_succ {r : VaultReader R} (h : r.sequence ≠ u32Max) (r' : VaultReader R)
    (hseq : r'.sequence = r.sequence + 1) : r'.framesLeft < r.framesLeft := by
  have hlt := r.sequence.toNat_lt
  have hne : r.sequence.toNat ≠ u32Max.toNat := fun heq => h (UInt32.toNat_inj.mp heq)
  rw [u32Max_toNat] at hne
  unfold framesLeft
  rw [hseq, toNat_succ h]
  omega

theorem framesLeft_lt {r r' : VaultReader R} (h : readNextFrame A r = (.ok (), r')) :
    r'.framesLeft < r.framesLeft := by
  rcases readNextFrame_cases A r with ⟨e, inner, _, hrun⟩ | ⟨_, _, e, _, _, hrun⟩ |
    ⟨p, inner, inner', hload, _, hrun⟩ | ⟨t, p, inner, _, hload, hrun⟩
  · rw [h] at hrun
    cases congrArg Prod.fst hrun
  · rw [h] at hrun
    cases congrArg Prod.fst hrun
  · rw [h] at hrun
    exact framesLeft_succ (sequence_ne_of_loadFrame hload) _ (congrArg (·.2.sequence) hrun)
  · rw [h] at hrun
    exact framesLeft_succ (sequence_ne_of_loadFrame hload) _ (congrArg (·.2.sequence) hrun)

/-- The loop of `read` that loads frames until one has plaintext. -/
def fill (r : VaultReader R) : Except IoError Unit × VaultReader R :=
  if r.plaintext.length ≤ r.plaintextOffset ∧ r.finalized = false then
    match _h : readNextFrame A r with
    | (.error e, r') => (.error e, r')
    | (.ok (), r') => fill r'
  else (.ok (), r)
termination_by r.framesLeft
decreasing_by exact framesLeft_lt A _h

/-- `VaultReader::read` into a buffer of `size` bytes. -/
def read (r : VaultReader R) (size : Nat) : Except IoError Bytes × VaultReader R :=
  if size = 0 then (.ok [], r)
  else match fill A r with
    | (.error e, r) => (.error e, r)
    | (.ok (), r) =>
        if r.finalized then (.ok [], r)
        else
          let remaining := r.plaintext.drop r.plaintextOffset
          let length := min remaining.length size
          (.ok (remaining.take length), { r with plaintextOffset := r.plaintextOffset + length })

/-- What the frames ahead will deliver, and the error they end with. -/
def upcoming (r : VaultReader R) : Bytes × Option IoError :=
  match _h : readNextFrame A r with
  | (.error e, _) => ([], some e)
  | (.ok (), r') =>
      if r'.finalized then ([], none)
      else (r'.plaintext ++ (upcoming r').1, (upcoming r').2)
termination_by r.framesLeft
decreasing_by all_goals exact framesLeft_lt A _h

/-- What the reader will still deliver: the rest of the current frame and the
frames ahead, and the error it will end with, if any. -/
def remaining (r : VaultReader R) : Bytes × Option IoError :=
  if r.finalized then ([], none)
  else (r.plaintext.drop r.plaintextOffset ++ (upcoming A r).1, (upcoming A r).2)

variable {A}

theorem upcoming_of_error {r r' : VaultReader R} {e : IoError}
    (h : readNextFrame A r = (.error e, r')) : upcoming A r = ([], some e) := by
  rw [upcoming]
  split
  · next h' =>
      rw [h] at h'
      cases h'
      rfl
  · next h' =>
      rw [h] at h'
      cases h'

theorem upcoming_of_ok {r r' : VaultReader R} (h : readNextFrame A r = (.ok (), r')) :
    upcoming A r =
      if r'.finalized then ([], none)
      else (r'.plaintext ++ (upcoming A r').1, (upcoming A r').2) := by
  rw [upcoming]
  split
  · next h' =>
      rw [h] at h'
      cases h'
  · next h' =>
      rw [h] at h'
      cases h'
      rfl

/-- The frames ahead do not depend on how much of this one was handed out. -/
theorem upcoming_setOffset (r : VaultReader R) (k : Nat) :
    upcoming A { r with plaintextOffset := k } = upcoming A r := by
  rcases readNextFrame_cases A r with ⟨e, inner, hload, hrun⟩ | ⟨f, inner, e, inner', hload, hrun⟩ |
    ⟨p, inner, inner', hload, hread, hrun⟩ | ⟨t, p, inner, hne, hload, hrun⟩
  · have hrun' : readNextFrame A { r with plaintextOffset := k } =
        (.error e, { r with plaintextOffset := k, inner := inner }) := by
      rw [readNextFrame, hload]
    rw [upcoming_of_error hrun, upcoming_of_error hrun']
  · obtain ⟨r', hrun'⟩ : ∃ r', readNextFrame A { r with plaintextOffset := k } =
        (.error e, r') := by
      unfold readNextFrame at hrun ⊢
      rw [hload] at hrun ⊢
      dsimp only at hrun ⊢
      split at hrun
      · next hfinal =>
          rw [if_pos hfinal]
          cases hread : Source.read inner 1 with
          | mk result inner2 =>
              rw [hread] at hrun
              cases result with
              | error e' =>
                  cases congrArg Prod.fst hrun
                  exact ⟨_, rfl⟩
              | ok trailing =>
                  dsimp only at hrun ⊢
                  split at hrun
                  · next htrail =>
                      rw [if_pos htrail]
                      cases congrArg Prod.fst hrun
                      exact ⟨_, rfl⟩
                  · cases congrArg Prod.fst hrun
      · cases congrArg Prod.fst hrun
    rw [upcoming_of_error hrun, upcoming_of_error hrun']
  · have hrun' : readNextFrame A { r with plaintextOffset := k } = (.ok (), { r with
        plaintextOffset := k, inner := inner', sequence := r.sequence + 1, finalized := true,
        plaintext := [] }) := by
      rw [readNextFrame, hload]
      dsimp only
      rw [if_pos rfl, hread]
      rfl
    rw [upcoming_of_ok hrun, upcoming_of_ok hrun']
    rfl
  · have hrun' : readNextFrame A { r with plaintextOffset := k } = (.ok (), { r with
        inner := inner, sequence := r.sequence + 1, plaintext := p, plaintextOffset := 0 }) := by
      rw [readNextFrame, hload]
      dsimp only
      rw [if_neg hne]
    rw [upcoming_of_ok hrun, upcoming_of_ok hrun']

theorem remaining_of_finalized {r : VaultReader R} (h : r.finalized = true) :
    remaining A r = ([], none) := if_pos h

theorem remaining_of_unfinished {r : VaultReader R} (h : r.finalized = false) :
    remaining A r =
      (r.plaintext.drop r.plaintextOffset ++ (upcoming A r).1, (upcoming A r).2) :=
  if_neg (by rw [h]; exact Bool.false_ne_true)

/-- Loading the next frame does not change what remains. -/
theorem remaining_readNextFrame {r r' : VaultReader R} (hr : r.finalized = false)
    (hempty : r.plaintext.length ≤ r.plaintextOffset)
    (h : readNextFrame A r = (.ok (), r')) : remaining A r = remaining A r' := by
  have hdrop : r.plaintext.drop r.plaintextOffset = [] := List.drop_eq_nil_of_le hempty
  rw [remaining_of_unfinished hr, hdrop, upcoming_of_ok h, List.nil_append]
  rcases readNextFrame_cases A r with ⟨e, inner, _, hrun⟩ | ⟨_, _, e, _, _, hrun⟩ |
    ⟨p, inner, inner', _, _, hrun⟩ | ⟨t, p, inner, _, _, hrun⟩
  · rw [h] at hrun
    cases congrArg Prod.fst hrun
  · rw [h] at hrun
    cases congrArg Prod.fst hrun
  · rw [h] at hrun
    have hfin : r'.finalized = true := congrArg (·.2.finalized) hrun
    rw [hfin, remaining_of_finalized hfin]
    rfl
  · rw [h] at hrun
    have hfin : r'.finalized = false := (congrArg (·.2.finalized) hrun).trans hr
    have hoff : r'.plaintextOffset = 0 := congrArg (·.2.plaintextOffset) hrun
    rw [hfin, remaining_of_unfinished hfin, hoff]
    rfl

/-- **The frame loop.**  It stops with a frame that has plaintext left, at the
end of the stream, or with the error that the stream ends in. -/
theorem fill_spec (r : VaultReader R) :
    (∃ e, (fill A r).1 = .error e ∧ remaining A r = ([], some e)) ∨
    ((fill A r).1 = .ok () ∧ (fill A r).2.finalized = true ∧ remaining A r = ([], none)) ∨
    ((fill A r).1 = .ok () ∧ (fill A r).2.finalized = false ∧
      (fill A r).2.plaintextOffset < (fill A r).2.plaintext.length ∧
      remaining A r = remaining A (fill A r).2) := by
  fun_induction fill A r with
  | case1 r hr e r' h =>
      have hdrop : r.plaintext.drop r.plaintextOffset = [] := List.drop_eq_nil_of_le hr.1
      exact .inl ⟨e, rfl, by simp [remaining, hr.2, upcoming_of_error h, hdrop]⟩
  | case2 r hr r' h ih => rwa [remaining_readNextFrame hr.2 hr.1 h]
  | case3 r hr =>
      by_cases hfin : r.finalized = true
      · exact .inr (.inl ⟨rfl, hfin, by simp [remaining, hfin]⟩)
      · rw [Bool.not_eq_true] at hfin
        exact .inr (.inr ⟨rfl, hfin, by
          by_contra hle
          exact hr ⟨Nat.not_lt.mp hle, hfin⟩, rfl⟩)

/-- A read at the end of what remains reports how the stream ends. -/
theorem read_nil {r : VaultReader R} {size : Nat} (hsize : size ≠ 0)
    (h : (remaining A r).1 = []) :
    ((remaining A r).2 = none ∧ (read A r size).1 = .ok [] ∧
      (read A r size).2.finalized = true) ∨
    ∃ e, (remaining A r).2 = some e ∧ (read A r size).1 = .error e := by
  have hfill := fill_spec (A := A) r
  unfold read
  rw [if_neg hsize]
  cases hrun : fill A r with
  | mk result r' =>
      rw [hrun] at hfill
      rcases hfill with ⟨e, rfl, hrem⟩ | ⟨rfl, hfin, hrem⟩ | ⟨rfl, hfin, hlt, hrem⟩
      · exact .inr ⟨e, by rw [hrem], rfl⟩
      · dsimp only at hfin ⊢
        rw [if_pos hfin]
        exact .inl ⟨by rw [hrem], rfl, hfin⟩
      · -- a loaded frame always has something left
        exfalso
        dsimp only at hfin hlt hrem
        rw [hrem] at h
        rw [remaining_of_unfinished hfin] at h
        have hle := List.drop_eq_nil_iff.mp (List.append_eq_nil_iff.mp h).1
        omega

/-- A read before the end takes the next bytes of what remains. -/
theorem read_cons {r : VaultReader R} {size : Nat} (hsize : size ≠ 0)
    (h : (remaining A r).1 ≠ []) :
    ∃ b, (read A r size).1 = .ok b ∧ b ≠ [] ∧ b.length ≤ size ∧
      (remaining A r).1 = b ++ (remaining A (read A r size).2).1 ∧
      (remaining A (read A r size).2).2 = (remaining A r).2 := by
  have hfill := fill_spec (A := A) r
  unfold read
  rw [if_neg hsize]
  cases hrun : fill A r with
  | mk result r' =>
      rw [hrun] at hfill
      rcases hfill with ⟨e, rfl, hrem⟩ | ⟨rfl, hfin, hrem⟩ | ⟨rfl, hfin, hlt, hrem⟩
      · exact absurd (by rw [hrem]) h
      · exact absurd (by rw [hrem]) h
      · dsimp only at hfin hlt hrem
        have hnot : ¬ r'.finalized = true := by rw [hfin]; exact Bool.false_ne_true
        dsimp only
        rw [if_neg hnot, hrem]
        generalize hlen : min (r'.plaintext.drop r'.plaintextOffset).length size = length
        have hdrop : (r'.plaintext.drop r'.plaintextOffset).length =
            r'.plaintext.length - r'.plaintextOffset := List.length_drop
        have hnext : remaining A { r' with plaintextOffset := r'.plaintextOffset + length } =
            (r'.plaintext.drop (r'.plaintextOffset + length) ++ (upcoming A r').1,
              (upcoming A r').2) := by
          rw [← upcoming_setOffset r' (r'.plaintextOffset + length)]
          exact remaining_of_unfinished hfin
        refine ⟨(r'.plaintext.drop r'.plaintextOffset).take length, rfl, ?_, ?_, ?_, ?_⟩
        · intro hnil
          have := congrArg List.length hnil
          rw [List.length_take, List.length_nil] at this
          omega
        · rw [List.length_take]
          omega
        · rw [hnext, remaining_of_unfinished hfin, ← List.append_assoc, ← List.drop_drop,
            List.take_append_drop]
        · rw [hnext, remaining_of_unfinished hfin]

end VaultReader

end CodexVault
