import CodexVault.Archive
import CodexVault.StreamRoundTrip

/-!
# What a successful seal has written

A file that takes everything it is given is as good as a byte string: as long as
its calls succeed, a writer over any sink does what its `mirror` over a byte
string does.  With that, a successful `sealFile` is one finished `WriterRun` over
the archive.
-/

namespace CodexVault

open ByteStrings

namespace VaultWriter

variable {W : Type} [Sink W] {A : Aead}

/-- The writer over the bytes its sink has taken. -/
def mirror (w : VaultWriter W) : VaultWriter Bytes where
  inner := w.inner.map Sink.accepted
  cipher := w.cipher
  nonceSeed := w.nonceSeed
  pending := w.pending
  sequence := w.sequence
  finished := w.finished
  sealed := w.sealed

theorem writeFrame_mirror {w w' : VaultWriter W} {frameType : UInt8} {plaintext : Bytes}
    (h : writeFrame A w frameType plaintext = (.ok (), w')) :
    writeFrame A w.mirror frameType plaintext = (.ok (), w'.mirror) := by
  unfold writeFrame at h ⊢
  cases hseal : sealFrame A w.cipher w.nonceSeed w.sequence frameType plaintext with
  | error e =>
      rw [hseal] at h
      cases congrArg Prod.fst h
  | ok s =>
      have hmirror : sealFrame A w.mirror.cipher w.mirror.nonceSeed w.mirror.sequence frameType
          plaintext = .ok s := hseal
      rw [hseal] at h
      rw [hmirror]
      cases hinner : w.inner with
      | none =>
          simp only [hinner] at h
          cases congrArg Prod.fst h
      | some sink =>
          simp only [hinner] at h
          cases hheader : Sink.writeAll sink s.header with
          | mk result sink1 =>
              cases result with
              | error e =>
                  rw [hheader] at h
                  cases congrArg Prod.fst h
              | ok u =>
                  simp only [hheader] at h
                  cases hbody : Sink.writeAll sink1 s.ciphertext with
                  | mk result sink2 =>
                      cases result with
                      | error e =>
                          rw [hbody] at h
                          cases congrArg Prod.fst h
                      | ok u =>
                          simp only [hbody] at h
                          cases h
                          have h1 := Sink.accepted_of_ok hheader
                          have h2 := Sink.accepted_of_ok hbody
                          simp only [mirror, hinner, Option.map_some]
                          rw [h2, h1]
                          rfl

theorem fillPending_mirror {w w' : VaultWriter W} {input rest : Bytes}
    (h : fillPending A w input = (.ok rest, w')) :
    fillPending A w.mirror input = (.ok rest, w'.mirror) := by
  unfold fillPending at h ⊢
  have hpending : w.mirror.pending = w.pending := rfl
  rw [hpending]
  split at h
  · next hempty =>
      rw [if_pos hempty]
      cases h
      rfl
  · next hne =>
      rw [if_neg hne]
      dsimp only at h ⊢
      split at h
      · next hfull =>
          rw [if_pos hfull]
          split at h
          · cases congrArg Prod.fst h
          · next w1 hrun =>
              have hmirror := writeFrame_mirror hrun
              cases h
              have hsame : { w.mirror with pending := [] } =
                ({ w with pending := [] } : VaultWriter W).mirror := rfl
              rw [hsame, hmirror]
              rfl
      · next hshort =>
          rw [if_neg hshort]
          cases h
          rfl

theorem writeChunks_mirror {w w' : VaultWriter W} {input rest : Bytes}
    (h : writeChunks A w input = (.ok rest, w')) :
    writeChunks A w.mirror input = (.ok rest, w'.mirror) := by
  fun_induction writeChunks A w input with
  | case1 w input hlong e w1 hrun => cases congrArg Prod.fst h
  | case2 w input hlong w1 hrun ih =>
      rw [writeChunks, dif_pos hlong, writeFrame_mirror hrun]
      exact ih h
  | case3 w input hshort =>
      cases h
      rw [writeChunks, dif_neg hshort]

theorem write_mirror {w w' : VaultWriter W} {input : Bytes} {n : Nat}
    (h : write A w input = (.ok n, w')) : write A w.mirror input = (.ok n, w'.mirror) := by
  unfold write at h ⊢
  have hfinished : w.mirror.finished = w.finished := rfl
  rw [hfinished]
  split at h
  · cases congrArg Prod.fst h
  · next hopen =>
      rw [if_neg hopen]
      split at h
      · cases congrArg Prod.fst h
      · next rest w1 hfill =>
          rw [fillPending_mirror hfill]
          split at h
          · cases congrArg Prod.fst h
          · next rest' w2 hchunks =>
              simp only [writeChunks_mirror hchunks]
              cases h
              rfl

theorem writeInputs_mirror {w w' : VaultWriter W} {inputs : List Bytes}
    (h : writeInputs A w inputs = (.ok (), w')) :
    writeInputs A w.mirror inputs = (.ok (), w'.mirror) := by
  induction inputs generalizing w with
  | nil =>
      cases h
      rfl
  | cons input rest ih =>
      unfold writeInputs at h ⊢
      split at h
      · cases congrArg Prod.fst h
      · next n w1 hrun =>
          rw [write_mirror hrun]
          exact ih h

theorem writeFinal_mirror {w w' : VaultWriter W} (h : writeFinal A w = (.ok (), w')) :
    writeFinal A w.mirror = (.ok (), w'.mirror) := by
  have hbuffered : ∀ w1, (if w.pending = [] then (.ok (), w)
        else writeFrame A { w with pending := [] } dataFrame w.pending) =
          ((.ok (), w1) : Except VaultError Unit × VaultWriter W) →
      (if w.mirror.pending = [] then (.ok (), w.mirror)
        else writeFrame A { w.mirror with pending := [] } dataFrame w.mirror.pending) =
          ((.ok (), w1.mirror) : Except VaultError Unit × VaultWriter Bytes) := by
    intro w1 hrun
    have hpending : w.mirror.pending = w.pending := rfl
    rw [hpending]
    split at hrun
    · next hempty =>
        rw [if_pos hempty]
        cases hrun
        rfl
    · next hne =>
        rw [if_neg hne]
        exact writeFrame_mirror (w := { w with pending := [] }) hrun
  unfold writeFinal at h ⊢
  dsimp only at h ⊢
  split at h
  · cases congrArg Prod.fst h
  · next w1 hrun =>
      rw [hbuffered w1 hrun]
      dsimp only
      split at h
      · cases congrArg Prod.fst h
      · next w2 hfinal =>
          rw [writeFrame_mirror hfinal]
          dsimp only
          split at h
          · cases congrArg Prod.fst h
          · next sink hinner =>
              have hmirror : w2.mirror.inner = some (Sink.accepted sink) := by
                simp only [mirror, hinner, Option.map_some]
              rw [hmirror]
              split at h
              · cases congrArg Prod.fst h
              · next sink' hflush =>
                  cases h
                  have hsame := Sink.accepted_flush sink
                  rw [hflush] at hsame
                  simp only [mirror, Option.map_some, hsame]
                  rfl

theorem finish_mirror {w w' : VaultWriter W} {sink : W} (h : finish A w = (.ok sink, w')) :
    finish A w.mirror = (.ok (Sink.accepted sink), w'.mirror) := by
  unfold finish at h ⊢
  split at h
  · cases congrArg Prod.fst h
  · next w1 hfinal =>
      rw [writeFinal_mirror hfinal]
      dsimp only
      split at h
      · cases congrArg Prod.fst h
      · next sink' hinner =>
          have hmirror : w1.mirror.inner = some (Sink.accepted sink') := by
            simp only [mirror, hinner, Option.map_some]
          rw [hmirror]
          cases h
          rfl

/-- Calls that all succeed are the same whether or not the caller would have
stopped. -/
theorem writes_of_writeInputs {w w' : VaultWriter W} {inputs : List Bytes}
    (h : writeInputs A w inputs = (.ok (), w')) : (writes A w inputs).2 = w' := by
  induction inputs generalizing w with
  | nil =>
      cases h
      rfl
  | cons input rest ih =>
      unfold writeInputs at h
      split at h
      · cases congrArg Prod.fst h
      · next n w1 hrun =>
          rw [writes, hrun]
          exact ih h

theorem writeInputs_append {w w1 w2 : VaultWriter W} {inputs : List Bytes} {input : Bytes}
    {n : Nat} (h : writeInputs A w inputs = (.ok (), w1))
    (h' : write A w1 input = (.ok n, w2)) :
    writeInputs A w (inputs ++ [input]) = (.ok (), w2) := by
  induction inputs generalizing w with
  | nil =>
      cases h
      simp only [List.nil_append, writeInputs, h']
  | cons first rest ih =>
      unfold writeInputs at h
      rw [List.cons_append, writeInputs]
      split at h
      · cases congrArg Prod.fst h
      · exact ih h

end VaultWriter

/-- What a successful seal of these inputs has written under a key. -/
def SealedAs (A : Aead) (dataKey : Key) (seed : FixedBytes 12) (plaintext contents : Bytes) :
    Prop :=
  ∃ run : WriterRun Bytes dataKey, run.Completed A ∧ run.nonceSeed = seed ∧
    run.plaintext = plaintext ∧ contents = run.written A

section

variable {W : Type} [Sink W] {A : Aead} {dataKey : Key} {inputs : List Bytes}
    {stop : Option IoError} {random : Option (FixedBytes 12)}

/-- A builder that succeeds has written the inputs and the trailer, and finished. -/
theorem sealWriter_eq_ok {w w' : VaultWriter W} (h : sealWriter A w inputs stop = (.ok (), w')) :
    stop = none ∧ ∃ w1 sink, VaultWriter.writeInputs A w (inputs ++ [Tar.trailer]) = (.ok (), w1) ∧
      VaultWriter.finish A w1 = (.ok sink, w') := by
  unfold sealWriter at h
  split at h
  · cases congrArg Prod.fst h
  · next w1 hwrites =>
      split at h
      · cases congrArg Prod.fst h
      · split at h
        · cases congrArg Prod.fst h
        · next n w2 htrailer =>
            split at h
            · cases congrArg Prod.fst h
            · next sink w3 hfinish =>
                cases h
                exact ⟨rfl, w2, sink, VaultWriter.writeInputs_append hwrites htrailer, hfinish⟩

/-- A seal that succeeds over a sink that was empty is a finished run. -/
theorem sealStream_eq_ok {sink : W} (hempty : Sink.accepted sink = [])
    (h : (sealStream A random sink dataKey inputs stop).1 = .ok ()) :
    stop = none ∧ ∃ seed, random = some seed ∧
      SealedAs A dataKey seed (inputs.flatten ++ Tar.trailer)
        (sealStream A random sink dataKey inputs stop).2 := by
  unfold sealStream at h ⊢
  cases random with
  | none => cases h
  | some seed =>
      cases hwrite : Sink.writeAll sink (fileHeader seed) with
      | mk result sink1 =>
          cases result with
          | error e =>
              simp only [VaultWriter.new, hwrite] at h
              cases h
          | ok u =>
              simp only [VaultWriter.new, hwrite] at h ⊢
              cases hseal : sealWriter A
                  ⟨some sink1, dataKey, seed, [], 0, false, []⟩ inputs stop with
              | mk result w' =>
                  rw [hseal] at h
                  dsimp only at h
                  subst h
                  obtain ⟨rfl, w1, sink', hwrites, hfinish⟩ := sealWriter_eq_ok hseal
                  refine ⟨rfl, seed, rfl, ?_⟩
                  -- the same calls over a byte string
                  have hopened : VaultWriter.new (some seed) ([] : Bytes) dataKey =
                      .ok (VaultWriter.mirror ⟨some sink1, dataKey, seed, [], 0, false, []⟩) := by
                    have hacc := Sink.accepted_of_ok hwrite
                    rw [hempty] at hacc
                    simp only [VaultWriter.mirror, Option.map_some, hacc]
                    rfl
                  have hcalls := VaultWriter.writes_of_writeInputs
                    (VaultWriter.writeInputs_mirror hwrites)
                  have hdone := VaultWriter.finish_mirror hfinish
                  refine ⟨⟨seed, [], _, hopened, inputs ++ [Tar.trailer], true⟩, ⟨rfl, ?_⟩,
                    rfl, ?_, ?_⟩
                  · refine ⟨Sink.accepted sink', ?_⟩
                    rw [WriterRun.afterWrites, hcalls, hdone]
                  · rw [WriterRun.plaintext, List.flatten_append, List.flatten_singleton]
                  · have hlast : w'.mirror.inner = w'.inner.map Sink.accepted := rfl
                    unfold WriterRun.written WriterRun.last
                    rw [if_pos rfl, WriterRun.afterWrites, hcalls, hdone]
                    dsimp only
                    rw [hlast]
                    cases w'.inner with
                    | none => rfl
                    | some inner => rfl

end

/-- **A successful seal** has written one finished stream: the archive under the key
and a seed that was drawn. -/
theorem sealFile_eq_ok {A : Aead} {fault : Option TransferFault}
    {random : Option (FixedBytes 12)} {dataKey : Key} {inputs : List Bytes} {stop : Option IoError}
    (h : (sealFile A fault random dataKey inputs stop).1 = .ok ()) :
    stop = none ∧ ∃ seed, random = some seed ∧
      SealedAs A dataKey seed (inputs.flatten ++ Tar.trailer)
        (sealFile A fault random dataKey inputs stop).2 := by
  unfold sealFile at h ⊢
  cases fault with
  | none => exact sealStream_eq_ok rfl h
  | some fault => exact sealStream_eq_ok rfl h

/-- A sealed stream begins with its file header. -/
theorem SealedAs.header {A : SealingAead} {dataKey : Key} {seed : FixedBytes 12}
    {plaintext contents : Bytes} (h : SealedAs A.toAead dataKey seed plaintext contents) :
    fileHeader seed <+: contents := by
  obtain ⟨run, _, rfl, _, rfl⟩ := h
  rw [(run.summary A).written_eq]
  exact List.prefix_append _ _

/-- **A sealed stream reads back** under its key. -/
theorem SealedAs.opens {A : LawfulAead} {dataKey : Key} {seed : FixedBytes 12}
    {plaintext contents : Bytes} (h : SealedAs A.toAead dataKey seed plaintext contents) :
    ∃ r, VaultReader.new contents dataKey = .ok r ∧
      VaultReader.remaining A.toAead r = (plaintext, none) := by
  obtain ⟨run, hdone, _, rfl, rfl⟩ := h
  exact run.remaining_written A hdone

end CodexVault
