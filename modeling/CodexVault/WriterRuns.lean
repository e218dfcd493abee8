import CodexVault.VaultWriter

/-!
# Runs of the vault writer

A `WriterRun` is one writer's whole life: it is created over a sink, is given a
list of inputs and is then finished or abandoned.  Over a sink that never fails
the run has one shape, stated in `WriterRun.summary`: it emits a prefix of
`streamFrames plaintext`, one genuine sealing for each number from zero, and it
completes exactly when it emits all of them.

The invariant behind it is `Progress`: either every frame due so far is out and
the remainder is pending, or the numbers are exhausted and no later frame can be
sealed.
-/

namespace CodexVault

open ByteStrings Chunks

/-- The frame a sealing is for. -/
def Sealing.frame (s : Sealing) : UInt8 × Bytes := (s.frameType, s.plaintext)

/-- All frames of a finished stream over this plaintext. -/
def streamFrames (plaintext : Bytes) : List (UInt8 × Bytes) :=
  VaultWriter.dataFrames plaintext ++
    VaultWriter.finalFrames (remainder chunkSize plaintext)

/-- The number of data frames of a stream: `ceil (n / 65536)`. -/
def dataFrameCount (n : Nat) : Nat := (n + (chunkSize - 1)) / chunkSize

theorem length_streamFrames (plaintext : Bytes) :
    (streamFrames plaintext).length = dataFrameCount plaintext.length + 1 := by
  have hsplit := flatten_fullChunks_append_remainder chunkSize plaintext
  have hlt := length_remainder_lt VaultWriter.chunkSize_pos plaintext
  have hcount := length_fullChunks VaultWriter.chunkSize_pos plaintext
  have hflat : (fullChunks chunkSize plaintext).flatten.length =
      plaintext.length / chunkSize * chunkSize := by
    rw [← hcount, List.length_flatten,
      List.map_eq_replicate_iff.mpr fun c hc => length_of_mem_fullChunks hc]
    simp
  have hlen := congrArg List.length hsplit
  rw [List.length_append, hflat] at hlen
  have hchunk : chunkSize = 65536 := rfl
  unfold streamFrames VaultWriter.dataFrames VaultWriter.finalFrames dataFrameCount
  rw [List.length_append, List.length_map, hcount]
  simp only [hchunk] at hlt hlen ⊢
  split
  · next hnil =>
      rw [hnil] at hlen
      simp only [List.length_nil, List.length_append, List.length_singleton] at hlen ⊢
      omega
  · next hne =>
      have hpos := List.length_pos_iff.mpr hne
      simp only [List.length_append, List.length_singleton]
      omega

/-- No frame holds more than a chunk. -/
theorem length_le_of_mem_dataFrames {b : Bytes} {f : UInt8 × Bytes}
    (h : f ∈ VaultWriter.dataFrames b) : f.2.length ≤ chunkSize := by
  obtain ⟨c, hc, rfl⟩ := List.mem_map.mp h
  exact le_of_eq (length_of_mem_fullChunks hc)

theorem length_le_of_mem_finalFrames {pending : Bytes} (hp : pending.length < chunkSize)
    {f : UInt8 × Bytes} (h : f ∈ VaultWriter.finalFrames pending) :
    f.2.length ≤ chunkSize := by
  unfold VaultWriter.finalFrames at h
  rcases List.mem_append.mp h with h | h
  · split at h
    · cases h
    · rw [List.mem_singleton.mp h]
      exact hp.le
  · rw [List.mem_singleton.mp h]
    exact Nat.zero_le _

/-- The data frames and the final frame together hold the plaintext. -/
theorem flatten_streamFrames (plaintext : Bytes) :
    ((streamFrames plaintext).map Prod.snd).flatten = plaintext := by
  have hsplit := flatten_fullChunks_append_remainder chunkSize plaintext
  have hid : (Prod.snd ∘ fun chunk : Bytes => (dataFrame, chunk)) = id := rfl
  unfold streamFrames VaultWriter.dataFrames VaultWriter.finalFrames
  rw [List.map_append, List.map_map, hid, List.map_id, List.flatten_append]
  split
  · next hnil => simpa [hnil] using hsplit
  · simpa using hsplit

namespace VaultWriter

variable {W : Type} [ReliableSink W] {A : SealingAead}

/-- What a writer over a reliable sink has produced: the sink holds the sealed
frames one after another, and they are numbered from zero. -/
structure Emitted (A : SealingAead) (base : Bytes) (w : VaultWriter W) : Prop where
  sink : ∃ sink, w.inner = some sink ∧
    Sink.accepted sink = base ++ (w.sealed.map Sealing.bytes).flatten
  counter : w.sequence.toNat = w.sealed.length
  numbered : ∀ (i : Nat) (s : Sealing), w.sealed[i]? = some s → s.sequence.toNat = i
  genuine : ∀ s ∈ w.sealed, s.Genuine A.toAead w.cipher w.nonceSeed

/-- The fields a frame leaves alone. -/
structure SameSession (w w' : VaultWriter W) : Prop where
  cipher : w'.cipher = w.cipher
  nonceSeed : w'.nonceSeed = w.nonceSeed
  pending : w'.pending = w.pending
  finished : w'.finished = w.finished

/-- A writer from which no further frame can be sealed. -/
def Stuck (w : VaultWriter W) : Prop := ¬ HasRoom w.nonceSeed w.sealed.length

/-- Over a reliable sink a frame goes out whenever there is room. -/
theorem writeFrame_reliable {base : Bytes} {w : VaultWriter W} (hw : w.Emitted A base)
    (frameType : UInt8) {plaintext : Bytes} (hlen : plaintext.length ≤ chunkSize) :
    (w.Stuck ∧ ∃ e, writeFrame A.toAead w frameType plaintext = (.error e, w)) ∨
    ∃ s w', writeFrame A.toAead w frameType plaintext = (.ok (), w') ∧
      w'.Emitted A base ∧ SameSession w w' ∧ w'.sealed = w.sealed ++ [s] ∧
      s.frame = (frameType, plaintext) := by
  obtain ⟨sink, hsink, hacc⟩ := hw.sink
  have hroom := sealFrame_isOk_iff A w.cipher w.nonceSeed w.sequence frameType hlen
  rcases writeFrame_cases (A := A.toAead) hsink frameType plaintext with
    ⟨e, hseal, hrun⟩ | ⟨s, e, sink', p, hseal, hrun, hp, hacc'⟩ | ⟨s, sink', hseal, hrun, hacc'⟩
  · refine .inl ⟨?_, e, hrun⟩
    intro hstuck
    rw [← hw.counter] at hstuck
    obtain ⟨s, hs⟩ := hroom.mpr hstuck
    rw [hseal] at hs
    cases hs
  · -- the sink cannot fail
    exfalso
    have hheader := ReliableSink.writeAll_ok sink s.header
    unfold writeFrame at hrun
    rw [hseal] at hrun
    simp only [hsink] at hrun
    cases h1 : Sink.writeAll sink s.header with
    | mk r1 sink1 =>
        rw [h1] at hheader
        dsimp only at hheader
        subst hheader
        have hbody := ReliableSink.writeAll_ok sink1 s.ciphertext
        cases h2 : Sink.writeAll sink1 s.ciphertext with
        | mk r2 sink2 =>
            rw [h2] at hbody
            dsimp only at hbody
            subst hbody
            simp only [h1, h2] at hrun
            cases congrArg Prod.fst hrun
  · obtain ⟨hseq, htype, hplain, hgen⟩ := sealFrame_eq_ok.mp hseal
    refine .inr ⟨s, _, hrun, ⟨⟨sink', rfl, ?_⟩, ?_, ?_, ?_⟩, ⟨rfl, rfl, rfl, rfl⟩, rfl, ?_⟩
    · rw [hacc', hacc]
      simp [List.append_assoc]
    · have hne : w.sequence ≠ u32Max := hseq ▸ hgen.sequence_ne
      simp [toNat_succ hne, hw.counter]
    · intro i s' hi
      by_cases hlt : i < w.sealed.length
      · rw [List.getElem?_append_left hlt] at hi
        exact hw.numbered i s' hi
      · rw [List.getElem?_append_right (by omega)] at hi
        obtain ⟨hzero, rfl⟩ : i - w.sealed.length = 0 ∧ s = s' := by
          simpa [List.getElem?_singleton] using hi
        rw [hseq, hw.counter]
        omega
    · intro s' hs'
      rcases List.mem_append.mp hs' with h | h
      · exact hw.genuine s' h
      · rw [List.mem_singleton.mp h]
        exact hgen
    · rw [Sealing.frame, htype, hplain]

omit [ReliableSink W] in
theorem SameSession.trans {a b c : VaultWriter W} (h : SameSession a b) (h' : SameSession b c) :
    SameSession a c :=
  ⟨h'.cipher.trans h.cipher, h'.nonceSeed.trans h.nonceSeed, h'.pending.trans h.pending,
    h'.finished.trans h.finished⟩

/-- **A list of frames goes out up to the point where the room ends.** -/
theorem writeFrames_reliable {base : Bytes} {w : VaultWriter W} (hw : w.Emitted A base)
    {frames : List (UInt8 × Bytes)} (hlen : ∀ f ∈ frames, f.2.length ≤ chunkSize) :
    ∃ w' out, w'.Emitted A base ∧ SameSession w w' ∧
      w'.sealed.map Sealing.frame = w.sealed.map Sealing.frame ++ out ∧ out <+: frames ∧
      ((writeFrames A.toAead w frames = (.ok (), w') ∧ out = frames) ∨
        (w'.Stuck ∧ out ≠ frames ∧ ∃ e, writeFrames A.toAead w frames = (.error e, w'))) := by
  induction frames generalizing w with
  | nil =>
      exact ⟨w, [], hw, ⟨rfl, rfl, rfl, rfl⟩, by simp, List.prefix_rfl, .inl ⟨rfl, rfl⟩⟩
  | cons frame rest ih =>
      obtain ⟨frameType, plaintext⟩ := frame
      rcases writeFrame_reliable hw frameType (hlen _ List.mem_cons_self) with
        ⟨hstuck, e, hrun⟩ | ⟨s, w1, hrun, hw1, hsame, hsealed, hframe⟩
      · refine ⟨w, [], hw, ⟨rfl, rfl, rfl, rfl⟩, by simp, List.nil_prefix,
          .inr ⟨hstuck, (List.cons_ne_nil _ _).symm, e, ?_⟩⟩
        simp only [writeFrames, hrun]
      · obtain ⟨w', out, hw', hsame', hout, hpre, hend⟩ :=
          ih hw1 (fun f hf => hlen f (List.mem_cons_of_mem _ hf))
        refine ⟨w', (frameType, plaintext) :: out, hw', hsame.trans hsame', ?_,
          (List.prefix_cons_inj _).mpr hpre, ?_⟩
        · rw [hout, hsealed, List.map_append, List.map_singleton, hframe, List.append_assoc]
          rfl
        · simp only [writeFrames, hrun]
          rcases hend with ⟨hok, rfl⟩ | ⟨hstuck, hne, herr⟩
          · exact .inl ⟨hok, rfl⟩
          · exact .inr ⟨hstuck, fun heq => hne (List.cons.inj heq).2, herr⟩

/-- A live writer after the inputs `total` over a reliable sink: either all
frames due are out and the remainder is pending, or no frame can follow. -/
structure Progress (A : SealingAead) (base total : Bytes) (w : VaultWriter W) : Prop where
  emitted : w.Emitted A base
  live : w.Live
  out : (w.sealed.map Sealing.frame = dataFrames total ∧ w.pending = remainder chunkSize total) ∨
    (w.Stuck ∧ w.sealed.map Sealing.frame <+: dataFrames total)

theorem dataFrames_append (total input : Bytes) :
    dataFrames (total ++ input) =
      dataFrames total ++ dataFrames (remainder chunkSize total ++ input) := by
  unfold dataFrames
  rw [fullChunks_append chunkSize_pos, List.map_append]

/-- A stuck writer seals nothing, whatever it is given. -/
theorem writeFrames_stuck {base : Bytes} {w : VaultWriter W} (hw : w.Emitted A base)
    (hstuck : w.Stuck) {frames : List (UInt8 × Bytes)}
    (hlen : ∀ f ∈ frames, f.2.length ≤ chunkSize) :
    (writeFrames A.toAead w frames).2 = w ∧
      (frames ≠ [] → ∃ e, writeFrames A.toAead w frames = (.error e, w)) := by
  cases frames with
  | nil => exact ⟨rfl, fun h => absurd rfl h⟩
  | cons frame rest =>
      obtain ⟨frameType, plaintext⟩ := frame
      rcases writeFrame_reliable hw frameType (hlen _ List.mem_cons_self) with
        ⟨_, e, hrun⟩ | ⟨s, w1, hrun, hw1, hsame, hsealed, _⟩
      · have hall : writeFrames A.toAead w ((frameType, plaintext) :: rest) = (.error e, w) := by
          simp only [writeFrames, hrun]
        exact ⟨by rw [hall], fun _ => ⟨e, hall⟩⟩
      · -- a sealed frame would have had room
        exfalso
        apply hstuck
        have hmem : w1.sealed[w.sealed.length]? = some s := by simp [hsealed]
        have hgen := hw1.genuine s (List.mem_of_getElem? hmem)
        have hroom := hgen.hasRoom
        rwa [hw1.numbered _ _ hmem, hsame.nonceSeed] at hroom

/-- The pending buffer plays no part in what was emitted. -/
theorem Emitted.setPending {base : Bytes} {w : VaultWriter W} (hw : w.Emitted A base)
    (b : Bytes) : Emitted A base { w with pending := b } :=
  ⟨hw.sink, hw.counter, hw.numbered, hw.genuine⟩

/-- **One `write` call.**  Progress is kept; the call returns the input's length,
or the writer is stuck afterwards. -/
theorem write_progress {base total : Bytes} {w : VaultWriter W} (hw : w.Progress A base total)
    (input : Bytes) :
    (write A.toAead w input).2.Progress A base (total ++ input) ∧
      (write A.toAead w input).2.cipher = w.cipher ∧
      (write A.toAead w input).2.nonceSeed = w.nonceSeed ∧
      ((write A.toAead w input).1 = .ok input.length ∨ (write A.toAead w input).2.Stuck) := by
  have hw0 := hw.emitted.setPending []
  have hlen : ∀ f ∈ dataFrames (w.pending ++ input), f.2.length ≤ chunkSize :=
    fun f hf => length_le_of_mem_dataFrames hf
  have hshort := length_remainder_lt chunkSize_pos (w.pending ++ input)
  obtain ⟨w', out, hw', hsame, hout, hpre, hend⟩ := writeFrames_reliable hw0 hlen
  have hinner : ∃ sink, w'.inner = some sink := hw'.sink.imp fun _ h => h.1
  have hunfinished : w'.finished = false := hsame.finished.trans hw.live.unfinished
  rcases hw.out with ⟨hframes, hpending⟩ | ⟨hstuck, hframes⟩
  · rcases hend with ⟨hrun, rfl⟩ | ⟨hstuck, _, e, hrun⟩
    · have hwrite : write A.toAead w input = (.ok input.length,
          { w' with pending := remainder chunkSize (w.pending ++ input) }) := by
        rw [write_eq hw.live, hrun]
      rw [hwrite]
      refine ⟨⟨hw'.setPending _, ⟨hinner, hunfinished, hshort⟩, .inl ⟨?_, ?_⟩⟩,
        hsame.cipher, hsame.nonceSeed, .inl rfl⟩
      · rw [hout, hframes, hpending, ← dataFrames_append]
      · rw [hpending]
        exact (remainder_append chunkSize_pos total input).symm
    · have hwrite : write A.toAead w input = (.error (.other e.text), w') := by
        rw [write_eq hw.live, hrun]
      rw [hwrite]
      refine ⟨⟨hw', ⟨hinner, hunfinished, ?_⟩, .inr ⟨hstuck, ?_⟩⟩,
        hsame.cipher, hsame.nonceSeed, .inr hstuck⟩
      · rw [hsame.pending]
        exact chunkSize_pos
      · rw [hout, hframes, dataFrames_append, ← hpending]
        exact (List.prefix_append_right_inj _).mpr hpre
  · -- a stuck writer buffers or fails, but emits nothing
    have hstuck0 : Stuck { w with pending := [] } := hstuck
    have hsame' := (writeFrames_stuck hw0 hstuck0 hlen).1
    have hpre' : w.sealed.map Sealing.frame <+: dataFrames (total ++ input) := by
      rw [dataFrames_append]
      exact hframes.trans (List.prefix_append _ _)
    rcases hend with ⟨hrun, _⟩ | ⟨_, _, e, hrun⟩
    · rw [hrun] at hsame'
      dsimp only at hsame'
      subst hsame'
      have hwrite : write A.toAead w input = (.ok input.length,
          { w with pending := remainder chunkSize (w.pending ++ input) }) := by
        rw [write_eq hw.live, hrun]
      rw [hwrite]
      exact ⟨⟨hw0.setPending _, ⟨hinner, hunfinished, hshort⟩, .inr ⟨hstuck, hpre'⟩⟩,
        rfl, rfl, .inl rfl⟩
    · rw [hrun] at hsame'
      dsimp only at hsame'
      subst hsame'
      have hwrite : write A.toAead w input =
          (.error (.other e.text), { w with pending := [] }) := by
        rw [write_eq hw.live, hrun]
      rw [hwrite]
      exact ⟨⟨hw0, ⟨hinner, hunfinished, chunkSize_pos⟩, .inr ⟨hstuck, hpre'⟩⟩,
        rfl, rfl, .inr hstuck⟩

/-- **Any number of `write` calls.** -/
theorem writes_progress {base total : Bytes} {w : VaultWriter W} (hw : w.Progress A base total)
    (inputs : List Bytes) :
    (writes A.toAead w inputs).2.Progress A base (total ++ inputs.flatten) ∧
      (writes A.toAead w inputs).2.cipher = w.cipher ∧
      (writes A.toAead w inputs).2.nonceSeed = w.nonceSeed ∧
      ((∀ r ∈ (writes A.toAead w inputs).1, ∃ n, r = .ok n) ∨
        ∃ n, n ≤ (dataFrames (total ++ inputs.flatten)).length ∧ ¬ HasRoom w.nonceSeed n) := by
  induction inputs generalizing w total with
  | nil => simpa [writes] using hw
  | cons input rest ih =>
      obtain ⟨hw1, hcipher, hseed, hresult⟩ := write_progress hw input
      obtain ⟨hw2, hcipher', hseed', hresults⟩ := ih hw1
      simp only [writes, List.flatten_cons, ← List.append_assoc]
      refine ⟨hw2, hcipher'.trans hcipher, hseed'.trans hseed, ?_⟩
      rw [hseed] at hresults
      rcases hresult with hok | hstuck
      · rcases hresults with hall | hfull
        · refine .inl fun r hr => ?_
          rcases List.mem_cons.mp hr with rfl | hr
          · exact ⟨_, hok⟩
          · exact hall r hr
        · exact .inr hfull
      · -- the frames already out bound the number at which the room ended
        refine .inr ⟨(write A.toAead w input).2.sealed.length, ?_, hseed ▸ hstuck⟩
        have hle : (write A.toAead w input).2.sealed.length ≤
            (dataFrames (total ++ input)).length := by
          have hpre : (write A.toAead w input).2.sealed.map Sealing.frame <+:
              dataFrames (total ++ input) := by
            rcases hw1.out with ⟨h, _⟩ | ⟨_, h⟩
            · exact h ▸ List.prefix_rfl
            · exact h
          simpa using hpre.length_le
        rw [dataFrames_append, List.length_append]
        omega

omit [ReliableSink W] in
theorem writeFinal_eq [Sink W] (w : VaultWriter W) :
    writeFinal A.toAead w =
      match writeFrames A.toAead { w with pending := [] } (finalFrames w.pending) with
      | (.error e, w') => (.error e, w')
      | (.ok (), w') =>
          match w'.inner with
          | none => (.error (.cryptography "vault writer is already finished"), w')
          | some inner =>
              match Sink.flush inner with
              | (.error e, inner) => (.error (.io e), { w' with inner := some inner })
              | (.ok (), inner) => (.ok (), { w' with inner := some inner, finished := true }) := by
  unfold writeFinal finalFrames
  by_cases hempty : w.pending = []
  · have hw' : { w with pending := [] } = w := by rw [← hempty]
    rw [if_pos hempty, if_pos hempty, hw']
    simp only [List.nil_append, writeFrames]
    cases writeFrame A.toAead w finalFrame [] with
    | mk result w' => cases result <;> rfl
  · rw [if_neg hempty, if_neg hempty]
    simp only [List.singleton_append, writeFrames]
    cases writeFrame A.toAead { w with pending := [] } dataFrame w.pending with
    | mk result w' =>
        cases result with
        | error e => rfl
        | ok u =>
            dsimp only
            cases writeFrame A.toAead w' finalFrame [] with
            | mk result w'' => cases result <;> rfl

/-- **`finish`.**  It returns the sink and the stream is complete, or the room
ended before the final frame. -/
theorem finish_progress {base total : Bytes} {w : VaultWriter W} (hw : w.Progress A base total) :
    (finish A.toAead w).2.Emitted A base ∧
      (finish A.toAead w).2.cipher = w.cipher ∧
      (finish A.toAead w).2.nonceSeed = w.nonceSeed ∧
      (((∃ sink, (finish A.toAead w).1 = .ok sink ∧ (finish A.toAead w).2.inner = some sink) ∧
          (finish A.toAead w).2.sealed.map Sealing.frame = streamFrames total) ∨
        ((∃ e, (finish A.toAead w).1 = .error e) ∧
          (finish A.toAead w).2.sealed.map Sealing.frame <+: streamFrames total ∧
          (finish A.toAead w).2.sealed.map Sealing.frame ≠ streamFrames total ∧
          (finish A.toAead w).2.Stuck)) := by
  have hw0 := hw.emitted.setPending []
  have hlen : ∀ f ∈ finalFrames w.pending, f.2.length ≤ chunkSize :=
    fun f hf => length_le_of_mem_finalFrames hw.live.short hf
  have hne : finalFrames w.pending ≠ [] := by simp [finalFrames]
  obtain ⟨w', out, hw', hsame, hout, hpre, hend⟩ := writeFrames_reliable hw0 hlen
  rcases hend with ⟨hrun, rfl⟩ | ⟨hstuck, hshort, e, hrun⟩
  · obtain ⟨sink, hsink, hacc⟩ := hw'.sink
    have hflush := ReliableSink.flush_ok sink
    cases hf : Sink.flush sink with
    | mk result sink' =>
        rw [hf] at hflush
        dsimp only at hflush
        subst hflush
        have hfinish : finish A.toAead w =
            (.ok sink', { w' with inner := some sink', finished := true }) := by
          rw [finish, writeFinal_eq, hrun]
          simp only [hsink, hf]
        have hacc' : Sink.accepted sink' = Sink.accepted sink := by
          rw [← Sink.accepted_flush sink, hf]
        rw [hfinish]
        refine ⟨⟨⟨sink', rfl, hacc'.trans hacc⟩, hw'.counter, hw'.numbered, hw'.genuine⟩,
          hsame.cipher, hsame.nonceSeed, .inl ⟨⟨sink', rfl, rfl⟩, ?_⟩⟩
        rcases hw.out with ⟨hframes, hpending⟩ | ⟨hstuck, _⟩
        · rw [hout, hframes, hpending]
          rfl
        · obtain ⟨e, herr⟩ := (writeFrames_stuck hw0 hstuck hlen).2 hne
          rw [hrun] at herr
          cases congrArg Prod.fst herr
  · have hfinish : finish A.toAead w = (.error e, w') := by
      rw [finish, writeFinal_eq, hrun]
    rw [hfinish]
    refine ⟨hw', hsame.cipher, hsame.nonceSeed, .inr ⟨⟨e, rfl⟩, ?_⟩⟩
    rcases hw.out with ⟨hframes, hpending⟩ | ⟨hstuck0, hframes⟩
    · rw [hout, hframes, streamFrames, ← hpending]
      exact ⟨(List.prefix_append_right_inj _).mpr hpre,
        fun heq => hshort (List.append_cancel_left heq), hstuck⟩
    · have hkeep := (writeFrames_stuck hw0 hstuck0 hlen).1
      rw [hrun] at hkeep
      dsimp only at hkeep
      subst hkeep
      refine ⟨hframes.trans (List.prefix_append _ _), ?_, hstuck⟩
      intro heq
      have hle := hframes.length_le
      rw [heq, streamFrames, List.length_append] at hle
      have := List.length_pos_iff.mpr
        (show finalFrames (remainder chunkSize total) ≠ [] by simp [finalFrames])
      omega

/-- A new writer over a reliable sink has written its file header. -/
theorem new_reliable (nonceSeed : FixedBytes 12) (sink : W) (dataKey : Key) :
    ∃ w, VaultWriter.new (some nonceSeed) sink dataKey = .ok w ∧
      w.Progress A (Sink.accepted sink ++ fileHeader nonceSeed) [] ∧
      w.cipher = dataKey ∧ w.nonceSeed = nonceSeed := by
  have hok := ReliableSink.writeAll_ok sink (fileHeader nonceSeed)
  cases hwrite : Sink.writeAll sink (fileHeader nonceSeed) with
  | mk result sink' =>
      rw [hwrite] at hok
      dsimp only at hok
      subst hok
      refine ⟨⟨some sink', dataKey, nonceSeed, [], 0, false, []⟩, ?_,
        ⟨⟨⟨sink', rfl, ?_⟩, rfl, ?_, ?_⟩, ⟨⟨sink', rfl⟩, rfl, chunkSize_pos⟩, .inl ⟨?_, ?_⟩⟩,
        rfl, rfl⟩
      · simp only [VaultWriter.new, hwrite]
      · simpa using Sink.accepted_of_ok hwrite
      · intro i s hs
        simp at hs
      · intro s hs
        cases hs
      · have hnone : dataFrames ([] : Bytes) = [] := dataFrames_of_lt chunkSize_pos
        rw [hnone]
        rfl
      · have hnone : remainder chunkSize ([] : Bytes) = [] := remainder_of_lt chunkSize_pos
        rw [hnone]

end VaultWriter

/-! ## Whole runs -/

/-- The life of one writer under a key: what it is created with, what it is
given, and whether it is finished or abandoned. -/
structure WriterRun (W : Type) [Sink W] (dataKey : Key) where
  nonceSeed : FixedBytes 12
  sink : W
  start : VaultWriter W
  opened : VaultWriter.new (some nonceSeed) sink dataKey = .ok start
  inputs : List Bytes
  finishes : Bool

namespace WriterRun

variable {W : Type} [Sink W] {dataKey : Key}

/-- The results of the `write` calls and the writer after them. -/
def afterWrites (A : Aead) (r : WriterRun W dataKey) :
    List (Except IoError Nat) × VaultWriter W :=
  VaultWriter.writes A r.start r.inputs

/-- The writer at the end of the run. -/
def last (A : Aead) (r : WriterRun W dataKey) : VaultWriter W :=
  if r.finishes then (VaultWriter.finish A (r.afterWrites A).2).2 else (r.afterWrites A).2

/-- `finish` was called and returned the sink. -/
def Completed (A : Aead) (r : WriterRun W dataKey) : Prop :=
  r.finishes = true ∧ ∃ sink, (VaultWriter.finish A (r.afterWrites A).2).1 = .ok sink

/-- The bytes the run put into its sink. -/
def written (A : Aead) (r : WriterRun W dataKey) : Bytes :=
  match (r.last A).inner with
  | none => []
  | some sink => (Sink.accepted sink).drop (Sink.accepted r.sink).length

/-- Everything the run was given. -/
def plaintext (r : WriterRun W dataKey) : Bytes := r.inputs.flatten

end WriterRun

/-- What a run over a reliable sink leaves behind. -/
structure WriterRun.Summary {W : Type} [Sink W] {dataKey : Key} (A : SealingAead)
    (r : WriterRun W dataKey) : Prop where
  written_eq : r.written A.toAead =
    fileHeader r.nonceSeed ++ ((r.last A.toAead).sealed.map Sealing.bytes).flatten
  accepted : ∃ sink, (r.last A.toAead).inner = some sink ∧
    Sink.accepted sink = Sink.accepted r.sink ++ r.written A.toAead
  numbered : ∀ (i : Nat) (s : Sealing),
    (r.last A.toAead).sealed[i]? = some s → s.sequence.toNat = i
  genuine : ∀ s ∈ (r.last A.toAead).sealed, s.Genuine A.toAead dataKey r.nonceSeed
  frames_prefix : (r.last A.toAead).sealed.map Sealing.frame <+: streamFrames r.plaintext
  completed_iff : r.Completed A.toAead ↔
    (r.last A.toAead).sealed.map Sealing.frame = streamFrames r.plaintext

/-- **The shape of a run.**  Over a reliable sink a run emits a prefix of the
frames of its plaintext, numbered from zero, and completes exactly when it emits
all of them. -/
theorem WriterRun.summary {W : Type} [ReliableSink W] {dataKey : Key} (A : SealingAead)
    (r : WriterRun W dataKey) : r.Summary A := by
  obtain ⟨w, hnew, hstart, hcipher, hseed⟩ :=
    VaultWriter.new_reliable (A := A) r.nonceSeed r.sink dataKey
  have hw : w = r.start := Except.ok.inj (hnew.symm.trans r.opened)
  subst hw
  obtain ⟨hprog, hcipher', hseed', _⟩ := VaultWriter.writes_progress hstart r.inputs
  rw [List.nil_append] at hprog
  rw [hcipher] at hcipher'
  rw [hseed] at hseed'
  -- both endings leave a writer over a sink that starts with the file header
  have hwritten : ∀ w : VaultWriter W, r.last A.toAead = w →
      w.Emitted A (Sink.accepted r.sink ++ fileHeader r.nonceSeed) →
      r.written A.toAead = fileHeader r.nonceSeed ++ (w.sealed.map Sealing.bytes).flatten ∧
        ∃ sink, w.inner = some sink ∧
          Sink.accepted sink = Sink.accepted r.sink ++ r.written A.toAead := by
    intro w hlast hw
    obtain ⟨sink, hsink, hacc⟩ := hw.sink
    have heq : r.written A.toAead =
        fileHeader r.nonceSeed ++ (w.sealed.map Sealing.bytes).flatten := by
      rw [WriterRun.written, hlast, hsink]
      dsimp only
      rw [hacc, List.append_assoc, List.drop_left]
    exact ⟨heq, sink, hsink, by rw [heq, hacc, List.append_assoc]⟩
  by_cases hfin : r.finishes = true
  · obtain ⟨hem, hc, hs, hend⟩ := VaultWriter.finish_progress hprog
    have hlast : r.last A.toAead =
        (VaultWriter.finish A.toAead (r.afterWrites A.toAead).2).2 := by
      rw [WriterRun.last, if_pos hfin]
    refine ⟨?_, ?_, ?_, ?_, ?_, ?_⟩
    · rw [hlast]
      exact (hwritten _ hlast hem).1
    · rw [hlast]
      exact (hwritten _ hlast hem).2
    · rw [hlast]
      exact hem.numbered
    · rw [hlast]
      intro s hs'
      have hgen := hem.genuine s hs'
      rwa [hc, hcipher', hs, hseed'] at hgen
    · rw [hlast]
      rcases hend with ⟨_, h⟩ | ⟨_, h, _⟩
      · exact h ▸ List.prefix_rfl
      · exact h
    · rw [hlast]
      constructor
      · rintro ⟨_, sink, hok⟩
        rcases hend with ⟨_, h⟩ | ⟨⟨e, he⟩, _⟩
        · exact h
        · exact absurd (hok.symm.trans he) (by simp)
      · intro heq
        rcases hend with ⟨⟨sink, hok, _⟩, _⟩ | ⟨_, _, hne, _⟩
        · exact ⟨hfin, sink, hok⟩
        · exact absurd heq hne
  · have hlast : r.last A.toAead = (r.afterWrites A.toAead).2 := by
      rw [WriterRun.last, if_neg hfin]
    have hpre : (r.afterWrites A.toAead).2.sealed.map Sealing.frame <+:
        VaultWriter.dataFrames r.plaintext := by
      rcases hprog.out with ⟨h, _⟩ | ⟨_, h⟩
      · exact h ▸ List.prefix_rfl
      · exact h
    refine ⟨?_, ?_, ?_, ?_, ?_, ?_⟩
    · rw [hlast]
      exact (hwritten _ hlast hprog.emitted).1
    · rw [hlast]
      exact (hwritten _ hlast hprog.emitted).2
    · rw [hlast]
      exact hprog.emitted.numbered
    · rw [hlast]
      intro s hs'
      have hgen := hprog.emitted.genuine s hs'
      rwa [hcipher', hseed'] at hgen
    · rw [hlast]
      exact hpre.trans (List.prefix_append _ _)
    · rw [hlast]
      constructor
      · rintro ⟨h, _⟩
        exact absurd h hfin
      · intro heq
        -- an abandoned run has no final frame
        have hle := hpre.length_le
        rw [heq, streamFrames, List.length_append] at hle
        have := List.length_pos_iff.mpr
          (show VaultWriter.finalFrames (remainder chunkSize r.plaintext) ≠ [] by
            simp [VaultWriter.finalFrames])
        omega

/-- **Capacity.**  All calls of a finished run succeed exactly when its final
frame still has a number and a nonce. -/
theorem WriterRun.allOk_iff {W : Type} [ReliableSink W] {dataKey : Key} (A : SealingAead)
    (r : WriterRun W dataKey) (hfin : r.finishes = true) :
    ((∀ result ∈ (r.afterWrites A.toAead).1, ∃ n, result = .ok n) ∧ r.Completed A.toAead) ↔
      HasRoom r.nonceSeed (dataFrameCount r.plaintext.length) := by
  have hsum := r.summary A
  have hcount := length_streamFrames r.plaintext
  constructor
  · rintro ⟨_, hdone⟩
    -- the final frame was sealed under the last number
    have heq := hsum.completed_iff.mp hdone
    have hlen := congrArg List.length heq
    rw [List.length_map, hcount] at hlen
    have hlt : dataFrameCount r.plaintext.length < (r.last A.toAead).sealed.length := by omega
    have hget := List.getElem?_eq_getElem hlt
    have hroom := (hsum.genuine _ (List.getElem_mem hlt)).hasRoom
    rwa [hsum.numbered _ _ hget] at hroom
  · intro hroom
    obtain ⟨w, hnew, hstart, hcipher, hseed⟩ :=
      VaultWriter.new_reliable (A := A) r.nonceSeed r.sink dataKey
    have hw : w = r.start := Except.ok.inj (hnew.symm.trans r.opened)
    subst hw
    obtain ⟨hprog, _, hseed', hresults⟩ := VaultWriter.writes_progress hstart r.inputs
    rw [List.nil_append] at hprog hresults
    rw [hseed] at hseed' hresults
    have hdata : (VaultWriter.dataFrames r.plaintext).length ≤
        dataFrameCount r.plaintext.length := by
      have : (VaultWriter.finalFrames (remainder chunkSize r.plaintext)).length ≠ 0 := by
        simp [VaultWriter.finalFrames]
      rw [streamFrames, List.length_append] at hcount
      omega
    refine ⟨?_, ?_⟩
    · rcases hresults with h | ⟨n, hn, hfull⟩
      · exact h
      · exact absurd (hroom.mono (hn.trans hdata)) hfull
    · obtain ⟨_, _, hs, hend⟩ := VaultWriter.finish_progress hprog
      rcases hend with ⟨⟨sink, hok, _⟩, _⟩ | ⟨_, hpre, hne, hstuck⟩
      · exact ⟨hfin, sink, hok⟩
      · -- a proper prefix of the stream ends at or before the final frame
        exfalso
        apply hstuck
        rw [hs, hseed']
        apply hroom.mono
        have hlt := lt_of_le_of_ne hpre.length_le fun h => hne (hpre.eq_of_length h)
        have htotal : (streamFrames r.inputs.flatten).length =
            dataFrameCount r.plaintext.length + 1 := hcount
        rw [htotal, List.length_map] at hlt
        exact Nat.lt_succ_iff.mp hlt

end CodexVault
