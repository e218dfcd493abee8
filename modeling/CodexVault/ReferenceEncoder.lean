import CodexVault.StreamRoundTrip

/-!
# The one-shot encoder

`reference` is what a vault stream is for: the file header, the plaintext in
pieces of 65536 bytes, each in a data frame numbered from zero, and an empty
final frame.  It knows nothing of buffers and calls.

`writer_refines_reference` connects it to the incremental writer: after any calls
the writer has put out the complete frames of the reference so far and holds the
rest, and `finish` completes it.
-/

namespace CodexVault

open ByteStrings Chunks

section Reference

variable (A : Aead) (key : Key) (seed : FixedBytes 12)

theorem length_counter (seed : FixedBytes 12) (sequence : Nat) :
    (bigEndian 12 (value seed.toBytes + sequence)).length = 12 := length_bigEndian _ _

/-- One frame: the header, and the plaintext encrypted under seed plus sequence
number, bound to both headers. -/
def referenceFrame (sequence : Nat) (frame : UInt8 × Bytes) : Option Bytes :=
  let header := frame.1 :: (bigEndian 4 sequence ++ bigEndian 4 frame.2.length)
  let nonce : FixedBytes 12 :=
    ⟨bigEndian 12 (value seed.toBytes + sequence), length_counter seed sequence⟩
  (A.encrypt key nonce (fileHeader seed ++ header) frame.2).map (header ++ ·)

/-- Frames with consecutive sequence numbers. -/
def referenceFrames : Nat → List (UInt8 × Bytes) → Option (List Bytes)
  | _, [] => some []
  | sequence, frame :: rest =>
      match referenceFrame A key seed sequence frame, referenceFrames (sequence + 1) rest with
      | some first, some others => some (first :: others)
      | _, _ => none

/-- The frames of a plaintext, the empty final frame last. -/
def referenceBody (plaintext : Bytes) : Option (List Bytes) :=
  referenceFrames A key seed 0
    ((pieces chunkSize plaintext).map (fun piece => (dataFrame, piece)) ++ [(finalFrame, [])])

/-- The whole stream. -/
def reference (plaintext : Bytes) : Option Bytes :=
  (referenceBody A key seed plaintext).map fun frames => fileHeader seed ++ frames.flatten

end Reference

variable {A : Aead} {key : Key} {seed : FixedBytes 12}

/-- The pieces are the frames of the writer. -/
theorem streamFrames_eq_pieces (plaintext : Bytes) :
    streamFrames plaintext =
      (pieces chunkSize plaintext).map (fun piece => (dataFrame, piece)) ++ [(finalFrame, [])] := by
  unfold streamFrames VaultWriter.dataFrames VaultWriter.finalFrames
  rw [pieces_eq VaultWriter.chunkSize_pos]
  split <;> simp

/-- **A frame the writer seals is the reference's frame of its number.** -/
theorem Sealing.Genuine.referenceFrame_eq {s : Sealing} (hs : s.Genuine A key seed) :
    referenceFrame A key seed s.sequence.toNat s.frame = some s.bytes := by
  have hheader := hs.header_eq
  unfold frameHeader at hheader
  split at hheader
  · cases hheader
  · have hheader := Except.ok.inj hheader
    have hvalue := value_of_nonceBytes hs.nonce_eq
    have hnonce : (⟨bigEndian 12 (value seed.toBytes + s.sequence.toNat), length_bigEndian _ _⟩ :
        FixedBytes 12) = s.nonce := by
      apply FixedBytes.ext
      have h := bigEndian_value s.nonce.toBytes
      rwa [s.nonce.length_toBytes, hvalue] at h
    have hcipher := hs.ciphertext_eq
    rw [hs.associatedData_eq, ← hheader] at hcipher
    unfold referenceFrame Sealing.frame
    dsimp only
    rw [hnonce, hcipher, Option.map_some, hheader]
    rfl

/-- Consecutive sealings are consecutive frames of the reference. -/
theorem referenceFrames_sealed {sealings : List Sealing} {k : Nat}
    (hgenuine : ∀ s ∈ sealings, s.Genuine A key seed)
    (hnumbered : ∀ (i : Nat) (s : Sealing), sealings[i]? = some s → s.sequence.toNat = k + i) :
    referenceFrames A key seed k (sealings.map Sealing.frame) =
      some (sealings.map Sealing.bytes) := by
  induction sealings generalizing k with
  | nil => rfl
  | cons s rest ih =>
      have hfirst := (hgenuine s List.mem_cons_self).referenceFrame_eq
      rw [hnumbered 0 s rfl, Nat.add_zero] at hfirst
      have hrest := ih (k := k + 1) (fun t ht => hgenuine t (List.mem_cons_of_mem _ ht)) (by
        intro i t hi
        have h := hnumbered (i + 1) t hi
        omega)
      rw [List.map_cons, referenceFrames, hfirst, hrest]
      rfl

/-- The frames of a first part come first. -/
theorem referenceFrames_append {k : Nat} {first second : List (UInt8 × Bytes)}
    {frames frames' : List Bytes}
    (h : referenceFrames A key seed k (first ++ second) = some frames)
    (h' : referenceFrames A key seed k first = some frames') :
    frames' = frames.take first.length := by
  induction first generalizing k frames frames' with
  | nil =>
      cases h'
      rfl
  | cons f rest ih =>
      rw [List.cons_append, referenceFrames] at h
      rw [referenceFrames] at h'
      split at h
      · next first others hfirst hothers =>
          rw [hfirst] at h'
          split at h'
          · next first' others' heq hothers' =>
              cases heq
              cases h
              cases h'
              rw [List.length_cons, List.take_succ_cons, ih hothers hothers']
          · cases h'
      · cases h

/-- Within capacity a live writer has put out every frame that is due. -/
theorem VaultWriter.Progress.due {W : Type} [ReliableSink W] {A : SealingAead} {base total : Bytes}
    {w : VaultWriter W} (hw : w.Progress A base total)
    (hroom : HasRoom w.nonceSeed (dataFrameCount total.length)) :
    w.sealed.map Sealing.frame = VaultWriter.dataFrames total ∧
      w.pending = remainder chunkSize total := by
  rcases hw.out with h | ⟨hstuck, hpre⟩
  · exact h
  · -- a stuck writer would have run out of numbers before the final frame
    exfalso
    apply hstuck
    apply hroom.mono
    have hlen := hpre.length_le
    have hcount := length_streamFrames total
    rw [streamFrames, List.length_append] at hcount
    have hpos := List.length_pos_iff.mpr
      (show VaultWriter.finalFrames (remainder chunkSize total) ≠ [] by
        simp [VaultWriter.finalFrames])
    rw [List.length_map] at hlen
    omega

/-- **The incremental writer refines the one-shot encoder.**  Within capacity all
calls succeed; before `finish` the sink holds the file header and the first
`n / 65536` frames of the reference, and the last `n % 65536` bytes are pending;
after it the sink holds the reference.  So only the concatenation of the inputs
counts. -/
theorem writer_refines_reference {W : Type} [ReliableSink W] (A : SealingAead) (dataKey : Key)
    (nonceSeed : FixedBytes 12) (sink : W) (inputs : List Bytes) :
    ∃ start, VaultWriter.new (some nonceSeed) sink dataKey = .ok start ∧
      let calls := VaultWriter.writes A.toAead start inputs
      let total := inputs.flatten
      (HasRoom nonceSeed (dataFrameCount total.length) →
        (∀ result ∈ calls.1, ∃ n, result = .ok n) ∧
        ∃ frames, referenceBody A.toAead dataKey nonceSeed total = some frames ∧
          (∃ sink', calls.2.inner = some sink' ∧ Sink.accepted sink' = Sink.accepted sink ++
            (fileHeader nonceSeed ++ (frames.take (total.length / chunkSize)).flatten)) ∧
          calls.2.pending = total.drop (total.length / chunkSize * chunkSize) ∧
          calls.2.pending.length = total.length % chunkSize ∧
          ∃ sink' stream, (VaultWriter.finish A.toAead calls.2).1 = .ok sink' ∧
            reference A.toAead dataKey nonceSeed total = some stream ∧
            Sink.accepted sink' = Sink.accepted sink ++ stream ∧
            ∀ others : List Bytes, others.flatten = total →
              ∃ sink2, (VaultWriter.finish A.toAead
                  (VaultWriter.writes A.toAead start others).2).1 = .ok sink2 ∧
                Sink.accepted sink2 = Sink.accepted sink') := by
  obtain ⟨start, hnew, hstart, hcipher, hseed⟩ :=
    VaultWriter.new_reliable (A := A) nonceSeed sink dataKey
  refine ⟨start, hnew, ?_⟩
  dsimp only
  intro hroom
  -- whatever the inputs are, a finished run has written the reference of their concatenation
  have hfinished : ∀ others : List Bytes, others.flatten = inputs.flatten →
      ∃ sink' frames, (∀ result ∈ (VaultWriter.writes A.toAead start others).1,
          ∃ n, result = .ok n) ∧
        (VaultWriter.finish A.toAead (VaultWriter.writes A.toAead start others).2).1 =
          .ok sink' ∧
        referenceBody A.toAead dataKey nonceSeed inputs.flatten = some frames ∧
        Sink.accepted sink' = Sink.accepted sink ++ (fileHeader nonceSeed ++ frames.flatten) := by
    intro others hothers
    let run : WriterRun W dataKey := ⟨nonceSeed, sink, start, hnew, others, true⟩
    have hplain : run.plaintext = inputs.flatten := hothers
    have hsum := run.summary A
    obtain ⟨hresults, hdone⟩ := (run.allOk_iff A rfl).mpr (by rw [hplain]; exact hroom)
    have hframes := hsum.completed_iff.mp hdone
    have hbody := referenceFrames_sealed hsum.genuine (k := 0) (by
      intro i s hi
      rw [hsum.numbered i s hi, Nat.zero_add])
    rw [hframes, hplain, streamFrames_eq_pieces] at hbody
    obtain ⟨sink', hok⟩ := hdone.2
    obtain ⟨sink2, hsink2, hacc⟩ := hsum.accepted
    have hlast : (run.last A.toAead).inner = some sink' := VaultWriter.inner_of_finish hok
    have hsame : sink2 = sink' := Option.some.inj (hsink2.symm.trans hlast)
    subst hsame
    exact ⟨sink2, _, hresults, hok, hbody, by rw [hacc, hsum.written_eq]⟩
  obtain ⟨sink', frames, hresults, hok, hbody, hacc⟩ := hfinished inputs rfl
  obtain ⟨hprog, hcipher', hseed', _⟩ := VaultWriter.writes_progress hstart inputs
  rw [List.nil_append] at hprog
  rw [hcipher] at hcipher'
  rw [hseed] at hseed'
  have hremainder := remainder_eq_drop VaultWriter.chunkSize_pos inputs.flatten
  obtain ⟨hdue, hpending⟩ := hprog.due (by rw [hseed']; exact hroom)
  refine ⟨hresults, frames, hbody, ?_, hpending.trans hremainder, ?_, sink', _, hok,
    ?_, hacc, ?_⟩
  · -- the frames so far are the first ones of the reference
    obtain ⟨sink2, hsink2, hacc2⟩ := hprog.emitted.sink
    refine ⟨sink2, hsink2, ?_⟩
    have hgenuine : ∀ s ∈ (VaultWriter.writes A.toAead start inputs).2.sealed,
        s.Genuine A.toAead dataKey nonceSeed := by
      intro s hs
      have hgen := hprog.emitted.genuine s hs
      rwa [hcipher', hseed'] at hgen
    have hearly := referenceFrames_sealed hgenuine (k := 0) (by
      intro i s hi
      rw [hprog.emitted.numbered i s hi, Nat.zero_add])
    rw [hdue] at hearly
    have hall := hbody
    unfold referenceBody at hall
    rw [← streamFrames_eq_pieces, streamFrames] at hall
    have htake := referenceFrames_append hall hearly
    rw [VaultWriter.dataFrames, List.length_map,
      length_fullChunks VaultWriter.chunkSize_pos] at htake
    rw [hacc2, htake, List.append_assoc]
  · rw [hpending, hremainder, List.length_drop]
    have hdiv := Nat.div_add_mod inputs.flatten.length chunkSize
    rw [Nat.mul_comm] at hdiv
    omega
  · rw [reference, hbody]
    rfl
  · intro others hothers
    obtain ⟨sink2, frames2, _, hok2, hbody2, hacc2⟩ := hfinished others hothers
    rw [hbody] at hbody2
    cases hbody2
    exact ⟨sink2, hok2, hacc2.trans hacc.symm⟩

end CodexVault
