import CodexVault.SealedFrames

/-!
# What is written can be read

The stream of a finished run is read back by any caller, whatever the sizes of
its buffers: `upcoming_sealed` is the induction over the frames and
`stream_round_trip` the result, with the exact capacity of a stream.
-/

namespace CodexVault

open ByteStrings Chunks

/-- The frames of a stream are data frames within a chunk and one final frame. -/
theorem streamFrames_eq (plaintext : Bytes) :
    ∃ chunks : List Bytes,
      streamFrames plaintext = chunks.map (fun c => (dataFrame, c)) ++ [(finalFrame, [])] ∧
      chunks.flatten = plaintext ∧ ∀ c ∈ chunks, c.length ≤ chunkSize := by
  have hsplit := flatten_fullChunks_append_remainder chunkSize plaintext
  have hlt := length_remainder_lt VaultWriter.chunkSize_pos plaintext
  unfold streamFrames VaultWriter.dataFrames VaultWriter.finalFrames
  by_cases hnil : remainder chunkSize plaintext = []
  · refine ⟨fullChunks chunkSize plaintext, ?_, ?_, fun c hc => ?_⟩
    · rw [if_pos hnil, List.nil_append]
    · rwa [hnil, List.append_nil] at hsplit
    · exact le_of_eq (length_of_mem_fullChunks hc)
  · refine ⟨fullChunks chunkSize plaintext ++ [remainder chunkSize plaintext], ?_, ?_, ?_⟩
    · rw [if_neg hnil, List.map_append, List.map_singleton, List.append_assoc]
    · simpa using hsplit
    · intro c hc
      rcases List.mem_append.mp hc with hc | hc
      · exact le_of_eq (length_of_mem_fullChunks hc)
      · rw [List.mem_singleton.mp hc]
        exact hlt.le

namespace VaultReader

/-- A reader opened on a file header starts at the first frame. -/
theorem new_fileHeader (seed : FixedBytes 12) (rest : Bytes) (dataKey : Key) :
    VaultReader.new (fileHeader seed ++ rest) dataKey =
      .ok { inner := rest, cipher := dataKey, nonceSeed := seed, plaintext := [],
            plaintextOffset := 0, sequence := 0, finalized := false } := by
  have hread := readExact_append (n := 20) ⟨fileHeader seed, length_fileHeader seed⟩ rest
  have hmagic : (fileHeader seed).take magic.length = magic := List.take_left
  have hseed : headerSeed ⟨fileHeader seed, length_fileHeader seed⟩ = seed :=
    FixedBytes.ext List.drop_left
  unfold VaultReader.new
  rw [hread]
  dsimp only
  rw [if_neg (not_not.mpr hmagic), hseed]

/-- A reader that opens has taken its seed from the file header. -/
theorem new_eq_ok {S : Bytes} {dataKey : Key} {r : VaultReader Bytes}
    (h : VaultReader.new S dataKey = .ok r) :
    S = fileHeader r.nonceSeed ++ r.inner ∧ r.cipher = dataKey ∧ r.sequence = 0 ∧
      r.plaintext = [] ∧ r.plaintextOffset = 0 ∧ r.finalized = false := by
  unfold VaultReader.new at h
  cases hread : Source.readExact S 20 with
  | mk result inner =>
      rw [hread] at h
      cases result with
      | error e => cases h
      | ok header =>
          dsimp only at h
          split at h
          · cases h
          · next hmagic =>
              cases h
              refine ⟨?_, rfl, rfl, rfl, rfl, rfl⟩
              rw [readExact_eq_ok hread, fileHeader, headerSeed]
              dsimp only
              nth_rewrite 1 [← List.take_append_drop magic.length header.toBytes]
              rw [not_not.mp hmagic]

/-- A reader that does not open reports a broken vault. -/
theorem new_eq_error {R : Type} [Source R] {inner : R} {dataKey : Key} {e : VaultError}
    (h : VaultReader.new inner dataKey = .error e) : e.IsIntegrity := by
  unfold VaultReader.new at h
  split at h
  · cases h
    exact ⟨_, rfl⟩
  · split at h
    · cases h
      exact ⟨_, rfl⟩
    · cases h

/-- A data frame that loads is the next part of what is coming. -/
theorem upcoming_of_dataFrame {R : Type} [Source R] {A : Aead} {r : VaultReader R}
    (hr : r.finalized = false) {b : Bytes} {inner : R}
    (hload : loadFrame A r.cipher r.nonceSeed r.sequence r.inner = (.ok (dataFrame, b), inner)) :
    upcoming A r =
      (b ++ (upcoming A { r with inner := inner, sequence := r.sequence + 1, plaintext := b,
                                 plaintextOffset := 0 }).1,
        (upcoming A { r with inner := inner, sequence := r.sequence + 1, plaintext := b,
                             plaintextOffset := 0 }).2) := by
  have hne : dataFrame ≠ finalFrame := by decide
  have hrun : readNextFrame A r = (.ok (), { r with
      inner := inner, sequence := r.sequence + 1, plaintext := b, plaintextOffset := 0 }) := by
    rw [readNextFrame, hload]
    dsimp only
    rw [if_neg hne]
  rw [upcoming_of_ok hrun]
  dsimp only
  rw [hr, if_neg Bool.false_ne_true]

/-- A final frame at the very end of the source ends the stream. -/
theorem upcoming_of_finalFrame {A : Aead} {r : VaultReader Bytes} {b : Bytes}
    (hload : loadFrame A r.cipher r.nonceSeed r.sequence r.inner = (.ok (finalFrame, b), [])) :
    upcoming A r = ([], none) := by
  have hrun : readNextFrame A r = (.ok (), { r with
      inner := [], sequence := r.sequence + 1, finalized := true, plaintext := [] }) := by
    rw [readNextFrame, hload]
    rfl
  rw [upcoming_of_ok hrun]
  rfl

/-- The first of the sealings left is loaded next. -/
theorem loadFrame_next (A : LawfulAead) {s : Sealing} {rest : List Sealing}
    {r : VaultReader Bytes} (hs : s.Genuine A.toAead r.cipher r.nonceSeed)
    (hproper : ProperFrame s.frame) (hseq : s.sequence.toNat = r.sequence.toNat)
    (hinner : r.inner = ((s :: rest).map Sealing.bytes).flatten) :
    loadFrame A.toAead r.cipher r.nonceSeed r.sequence r.inner =
      (.ok s.frame, (rest.map Sealing.bytes).flatten) := by
  rw [hinner, List.map_cons, List.flatten_cons, ← UInt32.toNat_inj.mp hseq]
  exact loadFrame_sealed hs hproper (A.decrypt_encrypt hs.ciphertext_eq) _

/-- **The sealed frames of a finished stream are what is coming.**  The
induction is on the data frames; the reader's counter stays at the number of the
first sealing left. -/
theorem upcoming_sealed (A : LawfulAead) {chunks : List Bytes} {sealings : List Sealing}
    {r : VaultReader Bytes}
    (hframes : sealings.map Sealing.frame =
      chunks.map (fun c => (dataFrame, c)) ++ [(finalFrame, [])])
    (hchunks : ∀ c ∈ chunks, c.length ≤ chunkSize)
    (hgenuine : ∀ s ∈ sealings, s.Genuine A.toAead r.cipher r.nonceSeed)
    (hnumbered : ∀ (i : Nat) (s : Sealing), sealings[i]? = some s →
      s.sequence.toNat = r.sequence.toNat + i)
    (hfin : r.finalized = false)
    (hinner : r.inner = (sealings.map Sealing.bytes).flatten) :
    upcoming A.toAead r = (chunks.flatten, none) := by
  induction chunks generalizing sealings r with
  | nil =>
      obtain ⟨s, rfl, hs⟩ : ∃ s, sealings = [s] ∧ s.frame = (finalFrame, []) := by
        simpa using hframes
      have hload := loadFrame_next A (hgenuine s List.mem_cons_self) (.inr hs)
        (hnumbered 0 s rfl) hinner
      rw [hs] at hload
      exact upcoming_of_finalFrame hload
  | cons c chunks ih =>
      obtain ⟨s, rest, rfl, hs, hrest⟩ := List.map_eq_cons_iff.mp hframes
      have hgen := hgenuine s List.mem_cons_self
      have hseq := hnumbered 0 s rfl
      have hproper : ProperFrame s.frame :=
        .inl (by rw [hs]; exact ⟨rfl, hchunks c List.mem_cons_self⟩)
      have hload := loadFrame_next A hgen hproper hseq hinner
      rw [hs] at hload
      have hnext : (r.sequence + 1).toNat = r.sequence.toNat + 1 :=
        toNat_succ (UInt32.toNat_inj.mp hseq ▸ hgen.sequence_ne)
      rw [upcoming_of_dataFrame hfin hload, ih hrest, List.flatten_cons]
      · exact fun c hc => hchunks c (List.mem_cons_of_mem _ hc)
      · exact fun s hs => hgenuine s (List.mem_cons_of_mem _ hs)
      · intro i s hi
        have hi' := hnumbered (i + 1) s hi
        dsimp only
        omega
      · exact hfin
      · rfl

end VaultReader

/-- A `finish` that succeeds returns the sink the writer still holds. -/
theorem VaultWriter.inner_of_finish {W : Type} [Sink W] {A : Aead} {w : VaultWriter W} {sink : W}
    (h : (VaultWriter.finish A w).1 = .ok sink) : (VaultWriter.finish A w).2.inner = some sink := by
  unfold VaultWriter.finish at h ⊢
  cases hrun : VaultWriter.writeFinal A w with
  | mk result w' =>
      rw [hrun] at h
      cases result with
      | error e => cases h
      | ok u =>
          dsimp only at h ⊢
          cases hinner : w'.inner with
          | none =>
              rw [hinner] at h
              cases h
          | some inner =>
              rw [hinner] at h
              cases h
              exact hinner

/-- **A finished stream reads back.**  A reader opened on it will deliver its
plaintext and end well. -/
theorem WriterRun.remaining_written {W : Type} [ReliableSink W] {dataKey : Key} (A : LawfulAead)
    (run : WriterRun W dataKey) (hdone : run.Completed A.toAead) :
    ∃ r, VaultReader.new (run.written A.toAead) dataKey = .ok r ∧
      VaultReader.remaining A.toAead r = (run.plaintext, none) := by
  have hsum := run.summary A.toSealingAead
  obtain ⟨chunks, hstream, hflat, hchunks⟩ := streamFrames_eq run.plaintext
  have hframes := (hsum.completed_iff.mp hdone).trans hstream
  rw [hsum.written_eq, VaultReader.new_fileHeader]
  refine ⟨_, rfl, ?_⟩
  rw [VaultReader.remaining_of_unfinished rfl, VaultReader.upcoming_sealed A hframes hchunks
    hsum.genuine ?_ rfl rfl, hflat]
  · rfl
  · intro i s hi
    rw [hsum.numbered i s hi]
    exact (Nat.zero_add i).symm

/-- The results of a list of reads hand out `plaintext` in non-empty pieces, and
`Ok(0)` only once all of it is delivered. -/
def Delivers (results : List (Except IoError Bytes)) (plaintext : Bytes) : Prop :=
  ∃ (pieces : List Bytes) (rest : Nat),
    results = pieces.map .ok ++ List.replicate rest (.ok []) ∧
    (∀ b ∈ pieces, b ≠ []) ∧ pieces.flatten <+: plaintext ∧
    (rest ≠ 0 → pieces.flatten = plaintext)

/-- More calls than bytes deliver everything and then `Ok(0)`. -/
theorem Delivers.all {results : List (Except IoError Bytes)} {plaintext : Bytes}
    (h : Delivers results plaintext) (hlen : plaintext.length < results.length) :
    ∃ (pieces : List Bytes) (rest : Nat), rest ≠ 0 ∧ pieces.flatten = plaintext ∧
      results = pieces.map .ok ++ List.replicate rest (.ok []) := by
  obtain ⟨pieces, rest, hres, hne, hpre, hdone⟩ := h
  have hcount : pieces.length ≤ pieces.flatten.length := by
    clear hres hpre hdone
    induction pieces with
    | nil => exact Nat.zero_le _
    | cons b bs ih =>
        have hb := List.length_pos_iff.mpr (hne b List.mem_cons_self)
        have hbs := ih fun b' hb' => hne b' (List.mem_cons_of_mem _ hb')
        rw [List.flatten_cons, List.length_append, List.length_cons]
        omega
  have hrest : rest ≠ 0 := by
    rintro rfl
    have hle := hpre.length_le
    rw [hres] at hlen
    simp only [List.replicate_zero, List.append_nil, List.length_map] at hlen
    omega
  exact ⟨pieces, rest, hrest, hdone hrest, hres⟩

/-- **The vault stream round trip.**  All calls of a writer over a reliable sink
succeed exactly when the data frames and the final frame have a number and a
nonce; and then a reader of the stream delivers the inputs to any sequence of
calls, and `verifyFinished` succeeds at any point of it. -/
theorem stream_round_trip {W : Type} [ReliableSink W] (A : LawfulAead) (dataKey : Key)
    (nonceSeed : FixedBytes 12) (sink : W) (inputs : List Bytes) :
    ∃ start, VaultWriter.new (some nonceSeed) sink dataKey = .ok start ∧
      let calls := VaultWriter.writes A.toAead start inputs
      let finished := VaultWriter.finish A.toAead calls.2
      let frames := dataFrameCount inputs.flatten.length
      (((∀ result ∈ calls.1, ∃ n, result = .ok n) ∧ ∃ sink', finished.1 = .ok sink') ↔
        frames ≤ 2 ^ 32 - 2 ∧ value nonceSeed.toBytes + frames < 2 ^ 96) ∧
      (frames ≤ 2 ^ 32 - 2 ∧ value nonceSeed.toBytes + frames < 2 ^ 96 →
        ∃ sink' stream r, finished.1 = .ok sink' ∧
          Sink.accepted sink' = Sink.accepted sink ++ stream ∧
          VaultReader.new stream dataKey = .ok r ∧
          ∀ sizes : List Nat, (∀ size ∈ sizes, size ≠ 0) →
            Delivers (VaultReader.reads A.toAead r sizes).1 inputs.flatten ∧
            VaultReader.verifyFinished A.toAead (VaultReader.reads A.toAead r sizes).2 =
              .ok ()) := by
  obtain ⟨start, hnew, _⟩ :=
    VaultWriter.new_reliable (A := A.toSealingAead) nonceSeed sink dataKey
  refine ⟨start, hnew, ?_⟩
  -- the calls are those of one finished run
  let run : WriterRun W dataKey := ⟨nonceSeed, sink, start, hnew, inputs, true⟩
  have hcapacity := run.allOk_iff A.toSealingAead rfl
  have hroom : ∀ n, HasRoom nonceSeed n ↔ n ≤ 2 ^ 32 - 2 ∧ value nonceSeed.toBytes + n < 2 ^ 96 :=
    fun n => and_congr_left' (by omega)
  have hcompleted : run.Completed A.toAead ↔
      ∃ sink', (VaultWriter.finish A.toAead
        (VaultWriter.writes A.toAead start inputs).2).1 = .ok sink' :=
    and_iff_right rfl
  dsimp only
  rw [← hroom, ← hcompleted]
  refine ⟨hcapacity, fun hfits => ?_⟩
  have hdone := (hcapacity.mpr hfits).2
  obtain ⟨sink', hok⟩ := hdone.2
  have hlast : (run.last A.toAead).inner = some sink' := VaultWriter.inner_of_finish hok
  obtain ⟨sink2, hsink2, hacc⟩ := (run.summary A.toSealingAead).accepted
  have hsame : sink2 = sink' := Option.some.inj (hsink2.symm.trans hlast)
  subst hsame
  obtain ⟨r, hopen, hrem⟩ := run.remaining_written A hdone
  refine ⟨sink2, _, r, hok, hacc, hopen, fun sizes hsizes => ?_⟩
  obtain ⟨pieces, rest, hres, hne, hflat, hend, hrest⟩ :=
    VaultReader.reads_of_good (A := A.toAead) (r := r) (by rw [hrem]) hsizes
  rw [hrem] at hflat
  refine ⟨⟨pieces, rest, hres, hne, ⟨_, hflat.symm⟩, fun h => ?_⟩,
    VaultReader.verifyFinished_of_good hend⟩
  rw [hrest h, List.append_nil] at hflat
  exact hflat.symm

end CodexVault
