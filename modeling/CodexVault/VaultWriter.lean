import CodexVault.Aead
import CodexVault.Chunks
import CodexVault.FrameFormat

/-!
# The vault writer

`VaultWriter` buffers what it is given, cuts it into chunks and emits one
authenticated frame for each.  A `write` call has two paths, one through the
pending buffer and one straight from the input; `write_eq` shows that together
they encrypt the full chunks of `pending ++ input` in order and keep the
remainder, stopping at the first frame that fails.

The field `sealed` is a history variable: it records every encryption the
writer performs and is read by no function.
-/

namespace CodexVault

open ByteStrings Chunks

/-- The part of `std::io::Write` the program uses.  A write of a whole buffer is
accepted, or fails after an arbitrary prefix was accepted. -/
class Sink (W : Type) where
  /-- The bytes the sink has taken so far. -/
  accepted : W → Bytes
  writeAll : W → Bytes → Except IoError Unit × W
  flush : W → Except IoError Unit × W
  accepted_of_ok : ∀ {w b w'}, writeAll w b = (.ok (), w') → accepted w' = accepted w ++ b
  accepted_of_error : ∀ {w b e w'}, writeAll w b = (.error e, w') →
    ∃ p, p <+: b ∧ accepted w' = accepted w ++ p
  accepted_flush : ∀ w, accepted (flush w).2 = accepted w

/-- A sink that never fails. -/
class ReliableSink (W : Type) extends Sink W where
  writeAll_ok : ∀ w b, (writeAll w b).1 = .ok ()
  flush_ok : ∀ w, (flush w).1 = .ok ()

/-- `Vec<u8>` as a sink. -/
instance : ReliableSink Bytes where
  accepted w := w
  writeAll w b := (.ok (), w ++ b)
  flush w := (.ok (), w)
  accepted_of_ok := by
    intro w b w' h
    cases h
    rfl
  accepted_of_error := by
    intro w b e w' h
    cases h
  accepted_flush := fun _ => rfl
  writeAll_ok := fun _ _ => rfl
  flush_ok := fun _ => rfl

/-- One performed encryption: the frame it is for, its inputs and its output. -/
structure Sealing where
  frameType : UInt8
  sequence : UInt32
  header : Bytes
  nonce : FixedBytes 12
  associatedData : Bytes
  plaintext : Bytes
  ciphertext : Bytes
  deriving DecidableEq

/-- The frame as the sink receives it. -/
def Sealing.bytes (s : Sealing) : Bytes := s.header ++ s.ciphertext

/-- `VaultWriter`.  The field `file_header` is `fileHeader nonceSeed` throughout
the life of a writer and is not stored a second time. -/
structure VaultWriter (W : Type) where
  inner : Option W
  cipher : Key
  nonceSeed : FixedBytes 12
  pending : Bytes
  sequence : UInt32
  finished : Bool
  /-- History: every encryption performed so far. -/
  sealed : List Sealing

/-- The part of `write_frame` that does not touch the sink. -/
def sealFrame (A : Aead) (cipher : Key) (nonceSeed : FixedBytes 12) (sequence : UInt32)
    (frameType : UInt8) (plaintext : Bytes) : Except VaultError Sealing :=
  if sequence = u32Max then .error (.cryptography "vault frame sequence exhausted")
  else match frameHeader frameType sequence plaintext.length with
    | .error e => .error e
    | .ok header =>
        let associatedData := fileHeader nonceSeed ++ header
        match nonceBytes nonceSeed sequence with
        | .error e => .error e
        | .ok nonce =>
            match A.encrypt cipher nonce associatedData plaintext with
            | none => .error (.cryptography "vault frame encryption failed")
            | some ciphertext =>
                .ok { frameType, sequence, header, nonce, associatedData, plaintext, ciphertext }

namespace VaultWriter

variable {W : Type} [Sink W] (A : Aead)

/-- `VaultWriter::new`; `random` is what the operating system's random source
answers. -/
def new (random : Option (FixedBytes 12)) (inner : W) (dataKey : Key) :
    Except VaultError (VaultWriter W) :=
  match random with
  | none => .error (.cryptography "operating-system random source failed")
  | some nonceSeed =>
      match Sink.writeAll inner (fileHeader nonceSeed) with
      | (.error e, _) => .error (.io e)
      | (.ok (), inner) => .ok {
          inner := some inner
          cipher := dataKey
          nonceSeed := nonceSeed
          pending := []
          sequence := 0
          finished := false
          sealed := [] }

/-- `write_frame`. -/
def writeFrame (w : VaultWriter W) (frameType : UInt8) (plaintext : Bytes) :
    Except VaultError Unit × VaultWriter W :=
  match sealFrame A w.cipher w.nonceSeed w.sequence frameType plaintext with
  | .error e => (.error e, w)
  | .ok frame =>
      let w := { w with sealed := w.sealed ++ [frame] }
      match w.inner with
      | none => (.error (.cryptography "vault writer is already finished"), w)
      | some inner =>
          match Sink.writeAll inner frame.header with
          | (.error e, inner) => (.error (.io e), { w with inner := some inner })
          | (.ok (), inner) =>
              match Sink.writeAll inner frame.ciphertext with
              | (.error e, inner) => (.error (.io e), { w with inner := some inner })
              | (.ok (), inner) =>
                  (.ok (), { w with inner := some inner, sequence := w.sequence + 1 })

/-- The first part of `write`: top up a started buffer and emit it when full.
The result is the input that is left. -/
def fillPending (w : VaultWriter W) (input : Bytes) :
    Except VaultError Bytes × VaultWriter W :=
  if w.pending = [] then (.ok input, w)
  else
    let needed := chunkSize - w.pending.length
    let take := min needed input.length
    let frame := w.pending ++ input.take take
    if frame.length = chunkSize then
      match writeFrame A { w with pending := [] } dataFrame frame with
      | (.error e, w) => (.error e, w)
      | (.ok (), w) => (.ok (input.drop take), { w with pending := [] })
    else (.ok (input.drop take), { w with pending := frame })

/-- The loop of `write` over whole chunks of the input. -/
def writeChunks (w : VaultWriter W) (input : Bytes) :
    Except VaultError Bytes × VaultWriter W :=
  if _h : chunkSize ≤ input.length then
    match writeFrame A w dataFrame (input.take chunkSize) with
    | (.error e, w) => (.error e, w)
    | (.ok (), w) => writeChunks w (input.drop chunkSize)
  else (.ok input, w)
termination_by input.length
decreasing_by
  have hpos : 0 < chunkSize := by decide
  simp only [List.length_drop]
  omega

/-- `VaultWriter::write`. -/
def write (w : VaultWriter W) (input : Bytes) : Except IoError Nat × VaultWriter W :=
  if w.finished then (.error (.other "vault writer is already finished"), w)
  else match fillPending A w input with
    | (.error e, w) => (.error (.other e.text), w)
    | (.ok rest, w) =>
        match writeChunks A w rest with
        | (.error e, w) => (.error (.other e.text), w)
        | (.ok rest, w) => (.ok input.length, { w with pending := w.pending ++ rest })

/-- `finish` without its last line: the pending data, the final frame, the flush. -/
def writeFinal (w : VaultWriter W) : Except VaultError Unit × VaultWriter W :=
  let buffered :=
    if w.pending = [] then (.ok (), w)
    else writeFrame A { w with pending := [] } dataFrame w.pending
  match buffered with
  | (.error e, w) => (.error e, w)
  | (.ok (), w) =>
      match writeFrame A w finalFrame [] with
      | (.error e, w) => (.error e, w)
      | (.ok (), w) =>
          match w.inner with
          | none => (.error (.cryptography "vault writer is already finished"), w)
          | some inner =>
              match Sink.flush inner with
              | (.error e, inner) => (.error (.io e), { w with inner := some inner })
              | (.ok (), inner) => (.ok (), { w with inner := some inner, finished := true })

/-- `VaultWriter::finish`.  The second component is the writer as it is dropped,
so that what a failed `finish` has written stays visible. -/
def finish (w : VaultWriter W) : Except VaultError W × VaultWriter W :=
  match writeFinal A w with
  | (.error e, w) => (.error e, w)
  | (.ok (), w) =>
      match w.inner with
      | none => (.error (.cryptography "vault writer is already finished"), w)
      | some inner => (.ok inner, w)

/-- Successive `write` calls, the caller going on after an error. -/
def writes (w : VaultWriter W) : List Bytes → List (Except IoError Nat) × VaultWriter W
  | [] => ([], w)
  | input :: rest =>
      let first := write A w input
      let others := writes first.2 rest
      (first.1 :: others.1, others.2)

/-- Successive frames, stopping at the first that fails. -/
def writeFrames (w : VaultWriter W) : List (UInt8 × Bytes) → Except VaultError Unit × VaultWriter W
  | [] => (.ok (), w)
  | (frameType, plaintext) :: rest =>
      match writeFrame A w frameType plaintext with
      | (.error e, w) => (.error e, w)
      | (.ok (), w) => writeFrames w rest

/-- A writer that can still be used: it owns its sink and is not finished. -/
structure Live (w : VaultWriter W) : Prop where
  inner : ∃ sink, w.inner = some sink
  unfinished : w.finished = false
  short : w.pending.length < chunkSize

end VaultWriter

/-! ## Single frames -/

/-- A sealing is what `write_frame` computes for its own sequence number, type
and plaintext under this key and seed. -/
structure Sealing.Genuine (A : Aead) (cipher : Key) (nonceSeed : FixedBytes 12)
    (s : Sealing) : Prop where
  sequence_ne : s.sequence ≠ u32Max
  header_eq : frameHeader s.frameType s.sequence s.plaintext.length = .ok s.header
  nonce_eq : nonceBytes nonceSeed s.sequence = .ok s.nonce
  associatedData_eq : s.associatedData = fileHeader nonceSeed ++ s.header
  ciphertext_eq : A.encrypt cipher s.nonce s.associatedData s.plaintext = some s.ciphertext

theorem sealFrame_eq_ok {A : Aead} {cipher : Key} {nonceSeed : FixedBytes 12}
    {sequence : UInt32} {frameType : UInt8} {plaintext : Bytes} {s : Sealing} :
    sealFrame A cipher nonceSeed sequence frameType plaintext = .ok s ↔
      s.sequence = sequence ∧ s.frameType = frameType ∧ s.plaintext = plaintext ∧
        s.Genuine A cipher nonceSeed := by
  constructor
  · intro h
    unfold sealFrame at h
    split at h
    · cases h
    · next hseq =>
        split at h
        · cases h
        · next header hheader =>
            dsimp only at h
            split at h
            · cases h
            · next nonce hnonce =>
                split at h
                · cases h
                · next ciphertext hcipher =>
                    cases h
                    exact ⟨rfl, rfl, rfl, hseq, hheader, hnonce, rfl, hcipher⟩
  · rintro ⟨rfl, rfl, rfl, hs⟩
    have hcipher := hs.ciphertext_eq
    rw [hs.associatedData_eq] at hcipher
    simp only [sealFrame, if_neg hs.sequence_ne, hs.header_eq, hs.nonce_eq, hcipher]
    rw [← hs.associatedData_eq]

/-- The counter and the nonce still have room for frame number `n`. -/
def HasRoom (nonceSeed : FixedBytes 12) (n : Nat) : Prop :=
  n < 2 ^ 32 - 1 ∧ value nonceSeed.toBytes + n < 2 ^ 96

instance (nonceSeed : FixedBytes 12) (n : Nat) : Decidable (HasRoom nonceSeed n) := by
  unfold HasRoom
  infer_instance

theorem HasRoom.mono {nonceSeed : FixedBytes 12} {m n : Nat} (h : HasRoom nonceSeed n)
    (hmn : m ≤ n) : HasRoom nonceSeed m := by
  unfold HasRoom at h ⊢
  omega

theorem Sealing.Genuine.hasRoom {A : Aead} {cipher : Key} {nonceSeed : FixedBytes 12}
    {s : Sealing} (h : s.Genuine A cipher nonceSeed) : HasRoom nonceSeed s.sequence.toNat := by
  have hne : s.sequence.toNat ≠ u32Max.toNat :=
    fun heq => h.sequence_ne (UInt32.toNat_inj.mp heq)
  have hlt := s.sequence.toNat_lt
  rw [u32Max_toNat] at hne
  exact ⟨by omega, (nonceBytes_isOk_iff _ _).mp ⟨_, h.nonce_eq⟩⟩

/-- **A frame is sealed exactly while there is room.** -/
theorem sealFrame_isOk_iff (A : SealingAead) (cipher : Key) (nonceSeed : FixedBytes 12)
    (sequence : UInt32) (frameType : UInt8) {plaintext : Bytes}
    (hlen : plaintext.length ≤ chunkSize) :
    (∃ s, sealFrame A.toAead cipher nonceSeed sequence frameType plaintext = .ok s) ↔
      HasRoom nonceSeed sequence.toNat := by
  constructor
  · rintro ⟨s, h⟩
    obtain ⟨rfl, _, _, hs⟩ := sealFrame_eq_ok.mp h
    exact hs.hasRoom
  · intro hroom
    have hne : sequence ≠ u32Max := by
      rintro rfl
      have := hroom.1
      rw [u32Max_toNat] at this
      omega
    have hchunk : chunkSize = 65536 := rfl
    obtain ⟨nonce, hnonce⟩ := (nonceBytes_isOk_iff nonceSeed sequence).mpr hroom.2
    have hshort : plaintext.length < 2 ^ 32 := by omega
    have hheader : frameHeader frameType sequence plaintext.length = .ok _ :=
      frameHeader_eq_ok hshort
    obtain ⟨ciphertext, hcipher⟩ := A.encrypt_isSome cipher nonce
      (fileHeader nonceSeed ++
        (frameType :: (bigEndian 4 sequence.toNat ++ bigEndian 4 plaintext.length)))
      plaintext (by omega)
    exact ⟨⟨frameType, sequence, _, nonce, _, plaintext, ciphertext⟩,
      sealFrame_eq_ok.mpr ⟨rfl, rfl, rfl, hne, hheader, hnonce, rfl, hcipher⟩⟩

namespace VaultWriter

variable {W : Type} [Sink W] {A : Aead}

/-- **What one `write_frame` does.**  It is refused before the cipher runs and
changes nothing; or the frame is sealed and the sink takes a prefix of it and
fails, and the counter stays; or the sink takes all of it and the counter
advances. -/
theorem writeFrame_cases {w : VaultWriter W} {sink : W} (hsink : w.inner = some sink)
    (frameType : UInt8) (plaintext : Bytes) :
    (∃ e, sealFrame A w.cipher w.nonceSeed w.sequence frameType plaintext = .error e ∧
      writeFrame A w frameType plaintext = (.error e, w)) ∨
    (∃ s e sink' p,
      sealFrame A w.cipher w.nonceSeed w.sequence frameType plaintext = .ok s ∧
      writeFrame A w frameType plaintext =
        (.error e, { w with sealed := w.sealed ++ [s], inner := some sink' }) ∧
      p <+: s.bytes ∧ Sink.accepted sink' = Sink.accepted sink ++ p) ∨
    (∃ s sink',
      sealFrame A w.cipher w.nonceSeed w.sequence frameType plaintext = .ok s ∧
      writeFrame A w frameType plaintext =
        (.ok (), { w with
          sealed := w.sealed ++ [s], inner := some sink', sequence := w.sequence + 1 }) ∧
      Sink.accepted sink' = Sink.accepted sink ++ s.bytes) := by
  unfold writeFrame
  cases hseal : sealFrame A w.cipher w.nonceSeed w.sequence frameType plaintext with
  | error e => exact .inl ⟨e, rfl, rfl⟩
  | ok s =>
      right
      simp only [hsink]
      cases hheader : Sink.writeAll sink s.header with
      | mk result sink1 =>
          cases result with
          | error e =>
              obtain ⟨p, hp, hacc⟩ := Sink.accepted_of_error hheader
              exact .inl ⟨s, .io e, sink1, p, rfl, rfl, hp.trans (List.prefix_append _ _), hacc⟩
          | ok u =>
              have hacc1 := Sink.accepted_of_ok hheader
              dsimp only
              cases hbody : Sink.writeAll sink1 s.ciphertext with
              | mk result sink2 =>
                  cases result with
                  | error e =>
                      obtain ⟨p, hp, hacc⟩ := Sink.accepted_of_error hbody
                      refine .inl ⟨s, .io e, sink2, s.header ++ p, rfl, rfl, ?_, ?_⟩
                      · exact (List.prefix_append_right_inj s.header).mpr hp
                      · rw [hacc, hacc1, List.append_assoc]
                  | ok u =>
                      refine .inr ⟨s, sink2, rfl, rfl, ?_⟩
                      rw [Sink.accepted_of_ok hbody, hacc1, List.append_assoc]
                      rfl

/-- `write_frame` does not look at the pending buffer. -/
theorem writeFrame_pending (w : VaultWriter W) (frameType : UInt8) (plaintext b : Bytes) :
    writeFrame A { w with pending := b } frameType plaintext =
      ((writeFrame A w frameType plaintext).1,
        { (writeFrame A w frameType plaintext).2 with pending := b }) := by
  unfold writeFrame
  dsimp only
  cases sealFrame A w.cipher w.nonceSeed w.sequence frameType plaintext with
  | error e => rfl
  | ok s =>
      cases w.inner with
      | none => rfl
      | some sink =>
          dsimp only
          cases hheader : Sink.writeAll sink s.header with
          | mk result sink1 =>
              cases result with
              | error e => rfl
              | ok u =>
                  dsimp only
                  cases hbody : Sink.writeAll sink1 s.ciphertext with
                  | mk result sink2 => cases result <;> rfl

theorem writeFrames_pending (w : VaultWriter W) (frames : List (UInt8 × Bytes)) (b : Bytes) :
    writeFrames A { w with pending := b } frames =
      ((writeFrames A w frames).1, { (writeFrames A w frames).2 with pending := b }) := by
  induction frames generalizing w with
  | nil => rfl
  | cons frame rest ih =>
      simp only [writeFrames, writeFrame_pending]
      cases hrun : writeFrame A w frame.1 frame.2 with
      | mk result w' =>
          cases result with
          | error e => rfl
          | ok u => exact ih w'

/-! ## A write call is a list of frames -/

/-- The data frames of a byte string: one for each full chunk. -/
def dataFrames (b : Bytes) : List (UInt8 × Bytes) :=
  (fullChunks chunkSize b).map fun chunk => (dataFrame, chunk)

/-- The frames `finish` emits with `pending` left in the buffer. -/
def finalFrames (pending : Bytes) : List (UInt8 × Bytes) :=
  (if pending = [] then [] else [(dataFrame, pending)]) ++ [(finalFrame, [])]

theorem chunkSize_pos : 0 < chunkSize := by decide

theorem dataFrames_of_lt {b : Bytes} (h : b.length < chunkSize) : dataFrames b = [] := by
  rw [dataFrames, fullChunks_of_lt h]
  rfl

theorem dataFrames_of_le {b : Bytes} (h : chunkSize ≤ b.length) :
    dataFrames b = (dataFrame, b.take chunkSize) :: dataFrames (b.drop chunkSize) := by
  rw [dataFrames, fullChunks_of_le chunkSize_pos h]
  rfl

theorem writeChunks_eq (w : VaultWriter W) (input : Bytes) :
    writeChunks A w input =
      match writeFrames A w (dataFrames input) with
      | (.error e, w) => (.error e, w)
      | (.ok (), w) => (.ok (remainder chunkSize input), w) := by
  fun_induction writeChunks A w input with
  | case1 w input hle e w' herr =>
      rw [dataFrames_of_le hle]
      simp only [writeFrames, herr]
  | case2 w input hle w' hok ih =>
      rw [dataFrames_of_le hle, remainder_of_le chunkSize_pos hle]
      simp only [writeFrames, hok]
      exact ih
  | case3 w input hlt =>
      rw [dataFrames_of_lt (by omega), remainder_of_lt (by omega)]
      rfl

/-- **Buffering is invisible.**  A `write` on a live writer emits the full chunks
of what is pending followed by the input, and keeps the remainder. -/
theorem write_eq {w : VaultWriter W} (hw : w.Live) (input : Bytes) :
    write A w input =
      match writeFrames A { w with pending := [] } (dataFrames (w.pending ++ input)) with
      | (.error e, w') => (.error (.other e.text), w')
      | (.ok (), w') =>
          (.ok input.length,
            { w' with pending := remainder chunkSize (w.pending ++ input) }) := by
  obtain ⟨sink, hsink⟩ := hw.inner
  have hlen := hw.short
  rw [write, if_neg (by rw [hw.unfinished]; exact Bool.false_ne_true)]
  by_cases hempty : w.pending = []
  · -- nothing pending: the whole input goes through the chunk loop
    have hw' : { w with pending := [] } = w := by rw [← hempty]
    rw [fillPending, if_pos hempty, hw', hempty, List.nil_append]
    dsimp only
    rw [writeChunks_eq]
    cases hrun : writeFrames A w (dataFrames input) with
    | mk result w' =>
        cases result with
        | error e => rfl
        | ok u =>
            have hkeep : w'.pending = [] := by
              have h := writeFrames_pending (A := A) w (dataFrames input) []
              rw [hw', hrun] at h
              exact (congrArg (fun out => out.2.pending) h)
            simp only [hkeep, List.nil_append]
  · rw [fillPending, if_neg hempty]
    by_cases hfull : chunkSize ≤ (w.pending ++ input).length
    · -- the buffer fills up: its frame is the first full chunk
      rw [List.length_append] at hfull
      have htake : min (chunkSize - w.pending.length) input.length =
          chunkSize - w.pending.length := Nat.min_eq_left (by omega)
      have hfirst : (w.pending ++ input).take chunkSize =
          w.pending ++ input.take (chunkSize - w.pending.length) := by
        rw [List.take_append, List.take_of_length_le (by omega)]
      have hrest : (w.pending ++ input).drop chunkSize =
          input.drop (chunkSize - w.pending.length) := by
        rw [List.drop_append, List.drop_of_length_le (by omega), List.nil_append]
      have hframe : (w.pending ++ input.take (chunkSize - w.pending.length)).length =
          chunkSize := by
        rw [List.length_append, List.length_take]
        omega
      have hall : chunkSize ≤ (w.pending ++ input).length := by
        rw [List.length_append]; omega
      rw [dataFrames_of_le hall, remainder_of_le chunkSize_pos hall, hfirst, hrest]
      simp only [htake, hframe, if_true, writeFrames]
      cases hrun : writeFrame A { w with pending := [] } dataFrame
          (w.pending ++ input.take (chunkSize - w.pending.length)) with
      | mk result w' =>
          cases result with
          | error e => rfl
          | ok u =>
              have hkeep : { w' with pending := [] } = w' := by
                have h := writeFrame_pending (A := A) { w with pending := [] } dataFrame
                  (w.pending ++ input.take (chunkSize - w.pending.length)) []
                rw [hrun] at h
                exact (congrArg Prod.snd h).symm
              dsimp only
              rw [hkeep, writeChunks_eq]
              cases hloop : writeFrames A w'
                  (dataFrames (input.drop (chunkSize - w.pending.length))) with
              | mk result w'' =>
                  cases result with
                  | error e => rfl
                  | ok u =>
                      have hkeep' : w''.pending = [] := by
                        have h := writeFrames_pending (A := A) w'
                          (dataFrames (input.drop (chunkSize - w.pending.length))) []
                        rw [hkeep, hloop] at h
                        exact congrArg (fun out => out.2.pending) h
                      simp only [hkeep', List.nil_append]
    · -- everything fits into the buffer
      rw [List.length_append] at hfull
      have htake : min (chunkSize - w.pending.length) input.length = input.length :=
        Nat.min_eq_right (by omega)
      have hframe : ¬ (w.pending ++ input).length = chunkSize := by
        rw [List.length_append]; omega
      have hall : (w.pending ++ input).length < chunkSize := by
        rw [List.length_append]; omega
      rw [dataFrames_of_lt hall, remainder_of_lt hall]
      simp only [htake, List.take_length, List.drop_length, hframe, if_false, writeFrames]
      rw [writeChunks_eq, dataFrames_of_lt (by simp [chunkSize_pos]),
        remainder_of_lt (by simp [chunkSize_pos])]
      simp [writeFrames]

end VaultWriter

end CodexVault
