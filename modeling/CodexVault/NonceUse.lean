import CodexVault.WriterRuns

/-!
# Nonce use of a writer over an arbitrary sink

The frame counter advances only after the sink has taken the whole frame.  When
the sink fails, the frame is already encrypted and its plaintext is gone from the
buffer, so the next frame is encrypted under the same nonce.  Two encryptions
with one nonce agree exactly when a caller that goes on after an error begins
with the frame the sink refused: `nonces_unique_iff` states this for every run,
every sink and every order of failures.
-/

namespace CodexVault

open ByteStrings Chunks

/-- Any two encryptions with different plaintext or associated data use
different nonces. -/
def NoncesUnique (sealed : List Sealing) : Prop :=
  ∀ s ∈ sealed, ∀ t ∈ sealed, s.nonce = t.nonce →
    s.plaintext = t.plaintext ∧ s.associatedData = t.associatedData

/-- Genuine sealings of one writer share a nonce exactly when they share a
number, and then differ exactly when their frames do. -/
theorem noncesUnique_iff {A : Aead} {key : Key} {seed : FixedBytes 12} {sealed : List Sealing}
    (h : ∀ s ∈ sealed, s.Genuine A key seed) :
    NoncesUnique sealed ↔
      ∀ s ∈ sealed, ∀ t ∈ sealed, s.sequence = t.sequence → s.frame = t.frame := by
  constructor
  · intro hunique s hs t ht hseq
    have hnonce : s.nonce = t.nonce :=
      Except.ok.inj ((h s hs).nonce_eq.symm.trans (hseq ▸ (h t ht).nonce_eq))
    obtain ⟨hplain, haad⟩ := hunique s hs t ht hnonce
    rw [(h s hs).associatedData_eq, (h t ht).associatedData_eq] at haad
    have hheader := List.append_cancel_left haad
    have htype := (frameHeader_injective (h s hs).header_eq (hheader ▸ (h t ht).header_eq)).1
    exact Prod.ext htype hplain
  · intro hframes s hs t ht hnonce
    have hseq := nonceBytes_injective (h s hs).nonce_eq (hnonce ▸ (h t ht).nonce_eq)
    obtain ⟨htype, hplain⟩ := Prod.mk.inj (hframes s hs t ht hseq)
    have hheader : s.header = t.header := by
      have hs' := (h s hs).header_eq
      rw [htype, hseq, hplain] at hs'
      exact Except.ok.inj (hs'.symm.trans (h t ht).header_eq)
    exact ⟨hplain, by rw [(h s hs).associatedData_eq, (h t ht).associatedData_eq, hheader]⟩

namespace VaultWriter

variable {W : Type} [Sink W] {A : SealingAead}

/-- `frame` was encrypted under the current number but not taken by the sink. -/
def Refused (w : VaultWriter W) (frame : UInt8 × Bytes) : Prop :=
  ∃ s ∈ w.sealed, s.sequence = w.sequence ∧ s.frame = frame

/-- A call that emits `frames` begins with the frame the sink refused, if it
refused one and the call emits any. -/
def Retries (w : VaultWriter W) (frames : List (UInt8 × Bytes)) : Prop :=
  ∀ frame, w.Refused frame → ∀ first ∈ frames.head?, first = frame

/-- What every writer keeps to, whatever its sink does. -/
structure Numbered (A : SealingAead) (w : VaultWriter W) : Prop where
  inner : ∃ sink, w.inner = some sink
  genuine : ∀ s ∈ w.sealed, s.Genuine A.toAead w.cipher w.nonceSeed
  bounded : ∀ s ∈ w.sealed, s.sequence.toNat ≤ w.sequence.toNat

omit [Sink W] in
theorem Numbered.setPending {w : VaultWriter W} (hw : w.Numbered A) (b : Bytes) :
    Numbered A { w with pending := b } :=
  ⟨hw.inner, hw.genuine, hw.bounded⟩

omit [Sink W] in
/-- The frames of a writer's own sealings determine whether a nonce repeats. -/
theorem Numbered.unique_iff {w : VaultWriter W} (hw : w.Numbered A) :
    NoncesUnique w.sealed ↔
      ∀ s ∈ w.sealed, ∀ t ∈ w.sealed, s.sequence = t.sequence → s.frame = t.frame :=
  noncesUnique_iff hw.genuine

omit [Sink W] in
/-- Sealing one more frame under the current number keeps nonces unique exactly
when it is the refused frame again. -/
theorem Numbered.unique_append_iff {w : VaultWriter W} (hw : w.Numbered A) {s : Sealing}
    (hs : s.Genuine A.toAead w.cipher w.nonceSeed) (hseq : s.sequence = w.sequence) :
    NoncesUnique (w.sealed ++ [s]) ↔
      NoncesUnique w.sealed ∧ ∀ frame, w.Refused frame → s.frame = frame := by
  have hall : ∀ t ∈ w.sealed ++ [s], t.Genuine A.toAead w.cipher w.nonceSeed := by
    intro t ht
    rcases List.mem_append.mp ht with ht | ht
    · exact hw.genuine t ht
    · rw [List.mem_singleton.mp ht]
      exact hs
  have hmem : s ∈ w.sealed ++ [s] := List.mem_append_right _ (List.mem_singleton_self s)
  rw [noncesUnique_iff hall, hw.unique_iff]
  constructor
  · intro h
    refine ⟨fun t ht u hu => h t (List.mem_append_left _ ht) u (List.mem_append_left _ hu), ?_⟩
    rintro frame ⟨t, ht, htseq, rfl⟩
    exact h s hmem t (List.mem_append_left _ ht) (hseq.trans htseq.symm)
  · rintro ⟨hold, hnew⟩ t ht u hu htu
    rcases List.mem_append.mp ht with ht | ht <;> rcases List.mem_append.mp hu with hu | hu
    · exact hold t ht u hu htu
    · rw [List.mem_singleton.mp hu] at htu ⊢
      exact (hnew _ ⟨t, ht, htu.trans hseq, rfl⟩).symm
    · rw [List.mem_singleton.mp ht] at htu ⊢
      exact hnew _ ⟨u, hu, htu.symm.trans hseq, rfl⟩
    · rw [List.mem_singleton.mp ht, List.mem_singleton.mp hu]

/-- **One frame.**  The numbering is kept, nonces stay unique exactly when a
refused frame is what is sealed, and a frame that goes out leaves nothing
refused. -/
theorem writeFrame_numbered {w : VaultWriter W} (hw : w.Numbered A) (frameType : UInt8)
    {plaintext : Bytes} (hlen : plaintext.length ≤ chunkSize) :
    (writeFrame A.toAead w frameType plaintext).2.Numbered A ∧
      (NoncesUnique (writeFrame A.toAead w frameType plaintext).2.sealed ↔
        NoncesUnique w.sealed ∧ w.Retries [(frameType, plaintext)]) ∧
      ((writeFrame A.toAead w frameType plaintext).1 = .ok () →
        ∀ frame, ¬ (writeFrame A.toAead w frameType plaintext).2.Refused frame) ∧
      (writeFrame A.toAead w frameType plaintext).2.finished = w.finished := by
  obtain ⟨sink, hsink⟩ := hw.inner
  have hhead : w.Retries [(frameType, plaintext)] ↔
      ∀ frame, w.Refused frame → (frameType, plaintext) = frame := by
    simp [Retries]
  have hextend : ∀ s : Sealing, s.Genuine A.toAead w.cipher w.nonceSeed →
      s.sequence = w.sequence → ∀ t ∈ w.sealed ++ [s],
        t.Genuine A.toAead w.cipher w.nonceSeed ∧ t.sequence.toNat ≤ w.sequence.toNat := by
    intro s hs hseq t ht
    rcases List.mem_append.mp ht with ht | ht
    · exact ⟨hw.genuine t ht, hw.bounded t ht⟩
    · rw [List.mem_singleton.mp ht]
      exact ⟨hs, by rw [hseq]⟩
  rcases writeFrame_cases (A := A.toAead) hsink frameType plaintext with
    ⟨e, hseal, hrun⟩ | ⟨s, e, sink', p, hseal, hrun, _, _⟩ | ⟨s, sink', hseal, hrun, _⟩
  · rw [hrun, hhead]
    refine ⟨hw, (and_iff_left ?_).symm, ?_, rfl⟩
    · -- a refused frame shows that there was room to seal
      rintro frame ⟨t, ht, htseq, _⟩
      have hroom := (hw.genuine t ht).hasRoom
      rw [htseq] at hroom
      obtain ⟨s, hs⟩ := (sealFrame_isOk_iff A w.cipher w.nonceSeed w.sequence frameType hlen).mpr
        hroom
      rw [hseal] at hs
      cases hs
    · intro h
      cases h
  · obtain ⟨hseq, htype, hplain, hgen⟩ := sealFrame_eq_ok.mp hseal
    have hframe : s.frame = (frameType, plaintext) := Prod.ext htype hplain
    rw [hrun, hhead, ← hframe]
    refine ⟨⟨⟨sink', rfl⟩, fun t ht => (hextend s hgen hseq t ht).1,
      fun t ht => (hextend s hgen hseq t ht).2⟩, hw.unique_append_iff hgen hseq, ?_, rfl⟩
    intro h
    cases h
  · obtain ⟨hseq, htype, hplain, hgen⟩ := sealFrame_eq_ok.mp hseal
    have hframe : s.frame = (frameType, plaintext) := Prod.ext htype hplain
    have hnext := toNat_succ (hseq ▸ hgen.sequence_ne)
    rw [hrun, hhead, ← hframe]
    refine ⟨⟨⟨sink', rfl⟩, fun t ht => (hextend s hgen hseq t ht).1, fun t ht => ?_⟩,
      hw.unique_append_iff hgen hseq, ?_, rfl⟩
    · have := (hextend s hgen hseq t ht).2
      dsimp only
      omega
    · rintro _ frame ⟨t, ht, htseq, _⟩
      have hle := (hextend s hgen hseq t ht).2
      rw [htseq] at hle
      dsimp only at hle
      omega

/-- **One call.**  Within a call no number is used twice, so only its first frame
matters. -/
theorem writeFrames_numbered {w : VaultWriter W} (hw : w.Numbered A)
    {frames : List (UInt8 × Bytes)} (hlen : ∀ f ∈ frames, f.2.length ≤ chunkSize) :
    (writeFrames A.toAead w frames).2.Numbered A ∧
      (NoncesUnique (writeFrames A.toAead w frames).2.sealed ↔
        NoncesUnique w.sealed ∧ w.Retries frames) ∧
      (writeFrames A.toAead w frames).2.finished = w.finished := by
  induction frames generalizing w with
  | nil => exact ⟨hw, (and_iff_left fun _ _ first hfirst => by cases hfirst).symm, rfl⟩
  | cons frame rest ih =>
      obtain ⟨frameType, plaintext⟩ := frame
      obtain ⟨hw1, hunique, hclear, hfin⟩ :=
        writeFrame_numbered hw frameType (hlen _ List.mem_cons_self)
      have hhead : w.Retries ((frameType, plaintext) :: rest) ↔
          w.Retries [(frameType, plaintext)] := Iff.rfl
      rw [hhead, ← hunique]
      cases hrun : writeFrame A.toAead w frameType plaintext with
      | mk result w1 =>
          rw [hrun] at hw1 hclear hfin
          cases result with
          | error e =>
              have hall : writeFrames A.toAead w ((frameType, plaintext) :: rest) =
                  (.error e, w1) := by simp only [writeFrames, hrun]
              rw [hall]
              exact ⟨hw1, Iff.rfl, hfin⟩
          | ok u =>
              have hall : writeFrames A.toAead w ((frameType, plaintext) :: rest) =
                  writeFrames A.toAead w1 rest := by simp only [writeFrames, hrun]
              obtain ⟨hw2, hunique2, hfin2⟩ :=
                ih hw1 (fun f hf => hlen f (List.mem_cons_of_mem _ hf))
              have hfree : w1.Retries rest := fun f hf => absurd hf (hclear rfl f)
              rw [hall, hunique2]
              exact ⟨hw2, and_iff_left hfree, hfin2.trans hfin⟩

/-- **One `write`.** -/
theorem write_numbered {w : VaultWriter W} (hw : w.Numbered A) (hlive : w.Live) (input : Bytes) :
    (write A.toAead w input).2.Numbered A ∧ (write A.toAead w input).2.Live ∧
      (NoncesUnique (write A.toAead w input).2.sealed ↔
        NoncesUnique w.sealed ∧ w.Retries (dataFrames (w.pending ++ input))) := by
  have hlen : ∀ f ∈ dataFrames (w.pending ++ input), f.2.length ≤ chunkSize :=
    fun f hf => length_le_of_mem_dataFrames hf
  obtain ⟨hw', hunique, hfin⟩ := writeFrames_numbered (hw.setPending []) hlen
  have hkeep := congrArg (fun out => out.2.pending)
    (writeFrames_pending (A := A.toAead) w (dataFrames (w.pending ++ input)) [])
  rw [write_eq hlive]
  cases hrun : writeFrames A.toAead { w with pending := [] } (dataFrames (w.pending ++ input)) with
  | mk result w' =>
      rw [hrun] at hw' hunique hfin hkeep
      have hunfinished : w'.finished = false := hfin.trans hlive.unfinished
      cases result with
      | error e =>
          refine ⟨hw', ⟨hw'.inner, hunfinished, ?_⟩, hunique⟩
          have hnil : w'.pending = [] := hkeep
          rw [hnil]
          exact chunkSize_pos
      | ok u =>
          exact ⟨hw'.setPending _,
            ⟨hw'.inner, hunfinished, length_remainder_lt chunkSize_pos _⟩, hunique⟩

/-- Each `write` of a list of calls begins with the refused frame, if there is
one. -/
def WritesRetry (A : Aead) (w : VaultWriter W) : List Bytes → Prop
  | [] => True
  | input :: rest =>
      w.Retries (dataFrames (w.pending ++ input)) ∧ WritesRetry A (write A w input).2 rest

/-- **Any number of `write` calls.** -/
theorem writes_numbered {w : VaultWriter W} (hw : w.Numbered A) (hlive : w.Live)
    (inputs : List Bytes) :
    (writes A.toAead w inputs).2.Numbered A ∧ (writes A.toAead w inputs).2.Live ∧
      (NoncesUnique (writes A.toAead w inputs).2.sealed ↔
        NoncesUnique w.sealed ∧ WritesRetry A.toAead w inputs) := by
  induction inputs generalizing w with
  | nil => exact ⟨hw, hlive, (and_iff_left trivial).symm⟩
  | cons input rest ih =>
      obtain ⟨hw1, hlive1, hunique1⟩ := write_numbered hw hlive input
      obtain ⟨hw2, hlive2, hunique2⟩ := ih hw1 hlive1
      refine ⟨hw2, hlive2, ?_⟩
      simp only [writes, WritesRetry]
      rw [hunique2, hunique1, and_assoc]

/-- **`finish`.** -/
theorem finish_numbered {w : VaultWriter W} (hw : w.Numbered A) (hlive : w.Live) :
    NoncesUnique (finish A.toAead w).2.sealed ↔
      NoncesUnique w.sealed ∧ w.Retries (finalFrames w.pending) := by
  have hlen : ∀ f ∈ finalFrames w.pending, f.2.length ≤ chunkSize :=
    fun f hf => length_le_of_mem_finalFrames hlive.short hf
  obtain ⟨hw', hunique, _⟩ := writeFrames_numbered (hw.setPending []) hlen
  have hsealed : (finish A.toAead w).2.sealed =
      (writeFrames A.toAead { w with pending := [] } (finalFrames w.pending)).2.sealed := by
    rw [finish, writeFinal_eq]
    cases hrun : writeFrames A.toAead { w with pending := [] } (finalFrames w.pending) with
    | mk result w' =>
        rw [hrun] at hw'
        cases result with
        | error e => rfl
        | ok u =>
            obtain ⟨sink, hsink⟩ := hw'.inner
            dsimp only at hsink
            cases hflush : Sink.flush sink with
            | mk result sink' => cases result <;> simp only [hsink, hflush]
  rw [hsealed]
  exact hunique

end VaultWriter

/-! ## Whole runs -/

namespace WriterRun

variable {W : Type} [Sink W] {dataKey : Key}

/-- Every call of the run that follows a failure begins with the frame the sink
refused. -/
def RetriesRefused (A : Aead) (run : WriterRun W dataKey) : Prop :=
  VaultWriter.WritesRetry A run.start run.inputs ∧
    (run.finishes = true →
      (run.afterWrites A).2.Retries (VaultWriter.finalFrames (run.afterWrites A).2.pending))

/-- A new writer is live, numbered from zero, and has encrypted nothing. -/
theorem start_numbered (A : SealingAead) (run : WriterRun W dataKey) :
    run.start.Numbered A ∧ run.start.Live ∧ run.start.sealed = [] := by
  have hopened := run.opened
  unfold VaultWriter.new at hopened
  dsimp only at hopened
  cases hwrite : Sink.writeAll run.sink (fileHeader run.nonceSeed) with
  | mk result sink =>
      rw [hwrite] at hopened
      cases result with
      | error e => cases hopened
      | ok u =>
          have hstart := Except.ok.inj hopened
          rw [← hstart]
          refine ⟨⟨⟨sink, rfl⟩, ?_, ?_⟩, ⟨⟨sink, rfl⟩, rfl, VaultWriter.chunkSize_pos⟩, rfl⟩
          · intro s hs
            cases hs
          · intro s hs
            cases hs

end WriterRun

/-- **Exactly when nonces are unique.**  Over any sink, however it fails, the
encryptions of a run never share a nonce unless they agree, if and only if every
call after a failure begins with the frame that was refused. -/
theorem nonces_unique_iff {W : Type} [Sink W] {dataKey : Key} (A : SealingAead)
    (run : WriterRun W dataKey) :
    NoncesUnique (run.last A.toAead).sealed ↔ run.RetriesRefused A.toAead := by
  obtain ⟨hnumbered, hlive, hempty⟩ := run.start_numbered A
  obtain ⟨hnumbered', hlive', hwrites⟩ := VaultWriter.writes_numbered hnumbered hlive run.inputs
  have hnone : NoncesUnique run.start.sealed := by
    rw [hempty]
    intro s hs
    cases hs
  rw [and_iff_right hnone] at hwrites
  unfold WriterRun.last WriterRun.RetriesRefused WriterRun.afterWrites
  by_cases hfin : run.finishes = true
  · rw [if_pos hfin, VaultWriter.finish_numbered hnumbered' hlive', hwrites]
    exact and_congr_right fun _ => (imp_iff_right hfin).symm
  · rw [if_neg hfin]
    exact hwrites.trans (and_iff_left fun h => absurd h hfin).symm

/-! ## A sink that fails once -/

/-- A sink whose write number `failAt` fails without taking anything. -/
structure FlakySink where
  taken : Bytes
  failAt : Nat

instance : Sink FlakySink where
  accepted w := w.taken
  writeAll w b :=
    if w.failAt = 1 then (.error (.os .other), { w with failAt := 0 })
    else (.ok (), { taken := w.taken ++ b, failAt := w.failAt - 1 })
  flush w := (.ok (), w)
  accepted_of_ok := by
    intro w b w' h
    split at h
    · cases h
    · cases h
      rfl
  accepted_of_error := by
    intro w b e w' h
    refine ⟨[], List.nil_prefix, ?_⟩
    split at h
    · cases h
      exact (List.append_nil _).symm
    · cases h
  accepted_flush := fun _ => rfl

/-- A caller that goes on with `second` after the sink refused `first`. -/
def flakyRun (first second : Bytes) : WriterRun FlakySink (FixedBytes.replicate 32 0) where
  nonceSeed := FixedBytes.replicate 12 0
  sink := { taken := [], failAt := 2 }
  start :=
    { inner := some { taken := fileHeader (FixedBytes.replicate 12 0), failAt := 1 }
      cipher := FixedBytes.replicate 32 0
      nonceSeed := FixedBytes.replicate 12 0
      pending := [], sequence := 0, finished := false, sealed := [] }
  opened := rfl
  inputs := [first, second]
  finishes := false

/-- A whole chunk is one frame. -/
theorem VaultWriter.dataFrames_of_length {b : Bytes} (h : b.length = chunkSize) :
    VaultWriter.dataFrames b = [(dataFrame, b)] := by
  have hrest : (b.drop chunkSize).length < chunkSize := by
    rw [List.length_drop, h, Nat.sub_self]
    exact VaultWriter.chunkSize_pos
  rw [VaultWriter.dataFrames_of_le h.ge, VaultWriter.dataFrames_of_lt hrest, ← h,
    List.take_length]

/-- The first chunk of the run is encrypted and refused. -/
theorem flakyRun_refused {first : Bytes} (second : Bytes) (hlen : first.length = chunkSize) :
    let w := (VaultWriter.write (tableAead []).toAead (flakyRun first second).start first).2
    w.pending = [] ∧ w.Refused (dataFrame, first) := by
  obtain ⟨_, hlive, _⟩ := (flakyRun first second).start_numbered (tableAead [])
  have hroom : HasRoom (FixedBytes.replicate 12 0) 0 := by decide
  obtain ⟨s, hs⟩ := (sealFrame_isOk_iff (tableAead []) (flakyRun first second).start.cipher
    (flakyRun first second).start.nonceSeed (flakyRun first second).start.sequence dataFrame
    hlen.le).mpr hroom
  obtain ⟨hseq, htype, hplain, _⟩ := sealFrame_eq_ok.mp hs
  have hframe : VaultWriter.writeFrame (tableAead []).toAead (flakyRun first second).start
      dataFrame first =
      (.error (.io (.os .other)), { (flakyRun first second).start with
        sealed := [s]
        inner := some { taken := fileHeader (FixedBytes.replicate 12 0), failAt := 0 } }) := by
    rw [VaultWriter.writeFrame, hs]
    rfl
  have hpending : (flakyRun first second).start.pending = [] := rfl
  have hself : { (flakyRun first second).start with pending := [] } =
      (flakyRun first second).start := rfl
  dsimp only
  rw [VaultWriter.write_eq hlive, hpending, List.nil_append,
    VaultWriter.dataFrames_of_length hlen, hself]
  simp only [VaultWriter.writeFrames, hframe]
  exact ⟨rfl, s, List.mem_singleton_self s, hseq, Prod.ext htype hplain⟩

/-- Two different chunks end up under the first nonce. -/
theorem flakyRun_reuses {first second : Bytes} (hfirst : first.length = chunkSize)
    (hsecond : second.length = chunkSize) (hne : second ≠ first) :
    ¬ NoncesUnique ((flakyRun first second).last (tableAead []).toAead).sealed := by
  intro hunique
  obtain ⟨hnumbered, hlive, _⟩ := (flakyRun first second).start_numbered (tableAead [])
  obtain ⟨_, _, hiff⟩ := VaultWriter.writes_numbered hnumbered hlive [first, second]
  obtain ⟨_, _, hretry, _⟩ := hiff.mp hunique
  obtain ⟨hpending, hrefused⟩ := flakyRun_refused second hfirst
  rw [hpending, List.nil_append, VaultWriter.dataFrames_of_length hsecond] at hretry
  exact hne (congrArg Prod.snd (hretry _ hrefused _ rfl))

/-- A chunk of ones is refused and a chunk of twos is encrypted under the same
nonce. -/
theorem nonces_reused_after_refusal :
    ¬ NoncesUnique ((flakyRun (List.replicate chunkSize 1) (List.replicate chunkSize 2)).last
      (tableAead []).toAead).sealed := by
  have hhead : (List.replicate chunkSize (2 : UInt8)) ≠ List.replicate chunkSize 1 := by
    intro heq
    have hmem : (2 : UInt8) ∈ List.replicate chunkSize (1 : UInt8) :=
      heq ▸ List.mem_replicate.mpr ⟨by decide, rfl⟩
    exact absurd (List.mem_replicate.mp hmem).2 (by decide)
  exact flakyRun_reuses List.length_replicate List.length_replicate hhead

end CodexVault
