import CodexVault.StreamRoundTrip

/-!
# Nothing else can be read

Under one data key the only ciphertexts that open are those that some writer
sealed (`OnlySealed`).  Then a reader accepts, whatever bytes it is given, the
frames of one run in order and from the first: `loadFrame_authentic` pins a
single frame, `upcoming_authentic` carries it along the stream, and
`stream_integrity` states the result for every caller.
-/

namespace CodexVault

open ByteStrings

/-- Only the last frame of a stream is final. -/
theorem length_of_finalFrame {plaintext : Bytes} {k : Nat} {frame : UInt8 × Bytes}
    (h : (streamFrames plaintext)[k]? = some frame) (hfinal : frame.1 = finalFrame) :
    k + 1 = (streamFrames plaintext).length := by
  obtain ⟨chunks, hstream, _⟩ := streamFrames_eq plaintext
  have hlt := (List.getElem?_eq_some_iff.mp h).1
  rw [hstream] at h hlt ⊢
  by_cases hk : k < chunks.length
  · -- the frames before it are data frames
    exfalso
    rw [List.getElem?_append_left (by simpa using hk), List.getElem?_map] at h
    obtain ⟨c, _, rfl⟩ := Option.map_eq_some_iff.mp h
    have hne : dataFrame ≠ finalFrame := by decide
    exact hne hfinal
  · simp only [List.length_append, List.length_map, List.length_singleton] at hlt ⊢
    omega

section

variable {ι : Type} {W : ι → Type} [∀ i, ReliableSink (W i)] {dataKey : Key} {A : SealingAead}
  {runs : ∀ i, WriterRun (W i) dataKey}

/-- The ideal AEAD, relative to a collection of writer runs under one key: what
a run sealed opens to what was sealed, and nothing else opens. -/
structure OnlySealed (A : SealingAead) (runs : ∀ i, WriterRun (W i) dataKey) : Prop where
  opens : ∀ i, ∀ s ∈ ((runs i).last A.toAead).sealed,
    A.decrypt dataKey s.nonce s.associatedData s.ciphertext = some s.plaintext
  authentic : ∀ nonce associatedData ciphertext plaintext,
    A.decrypt dataKey nonce associatedData ciphertext = some plaintext →
      ∃ i, ∃ s ∈ ((runs i).last A.toAead).sealed,
        s.nonce = nonce ∧ s.associatedData = associatedData ∧ s.ciphertext = ciphertext

/-- What a loaded frame took from a byte string. -/
theorem loadFrame_matches {A : Aead} {key : Key} {seed : FixedBytes 12} {sequence : UInt32}
    {inner inner' : Bytes} {frame : UInt8 × Bytes}
    (h : loadFrame A key seed sequence inner = (.ok frame, inner')) :
    ∃ (header : FixedBytes 9) (ciphertext : Bytes) (nonce : FixedBytes 12),
      inner = header.toBytes ++ ciphertext ++ inner' ∧
      (parseFrameHeader header).sequence = sequence ∧
      (parseFrameHeader header).frameType = frame.1 ∧
      A.decrypt key nonce (fileHeader seed ++ header.toBytes) ciphertext = some frame.2 := by
  obtain ⟨_, header, middle, ciphertext, nonce, hread, hcheck, htype, hbody, _, hdec⟩ :=
    loadFrame_ok h
  refine ⟨header, ciphertext.toBytes, nonce, ?_, (checkHeader_eq_none.mp hcheck).1, htype, hdec⟩
  rw [readExact_eq_ok hread, readExact_eq_ok hbody, List.append_assoc]

/-- **One frame.**  A loaded frame is a sealing of the run with the reader's
seed, under the reader's number, and it was at the front byte for byte. -/
theorem loadFrame_authentic (hideal : OnlySealed A runs) {seed : FixedBytes 12}
    {sequence : UInt32} {inner inner' : Bytes} {frame : UInt8 × Bytes}
    (h : loadFrame A.toAead dataKey seed sequence inner = (.ok frame, inner')) :
    ∃ i, (runs i).nonceSeed = seed ∧ ∃ s ∈ ((runs i).last A.toAead).sealed,
      s.sequence = sequence ∧ s.frame = frame ∧ inner = s.bytes ++ inner' := by
  obtain ⟨header, ciphertext, nonce, hinner, hseq, htype, hdec⟩ := loadFrame_matches h
  obtain ⟨i, s, hs, rfl, haad, rfl⟩ := hideal.authentic _ _ _ _ hdec
  have hgen := ((runs i).summary A).genuine s hs
  have hplain : s.plaintext = frame.2 :=
    Option.some.inj ((hideal.opens i s hs).symm.trans (haad ▸ hdec))
  -- the associated data pins the file header and the frame header
  rw [hgen.associatedData_eq] at haad
  obtain ⟨hfile, hheader⟩ := List.append_inj haad (by simp)
  have hfields := parseFrameHeader_of_frameHeader (hheader ▸ hgen.header_eq)
  rw [hfields] at hseq htype
  refine ⟨i, fileHeader_injective hfile, s, hs, hseq, Prod.ext htype hplain, ?_⟩
  rw [hinner, Sealing.bytes, hheader]

/-- The frame that loads is the first of those a run has left. -/
theorem loadFrame_next_of_run (hideal : OnlySealed A runs)
    (hseeds : Function.Injective fun i => (runs i).nonceSeed) {i : ι} {sequence : UInt32}
    {inner inner' : Bytes} {frame : UInt8 × Bytes}
    (h : loadFrame A.toAead dataKey (runs i).nonceSeed sequence inner = (.ok frame, inner')) :
    ∃ s, ((runs i).last A.toAead).sealed.drop sequence.toNat =
        s :: ((runs i).last A.toAead).sealed.drop (sequence.toNat + 1) ∧
      ((runs i).last A.toAead).sealed[sequence.toNat]? = some s ∧
      s.frame = frame ∧ inner = s.bytes ++ inner' := by
  obtain ⟨j, hj, s, hs, hseq, hframe, hinner⟩ := loadFrame_authentic hideal h
  obtain rfl : j = i := hseeds hj
  obtain ⟨k, hk⟩ := List.mem_iff_getElem?.mp hs
  have hkseq := ((runs j).summary A).numbered k s hk
  rw [hseq] at hkseq
  subst hkseq
  obtain ⟨hlt, hget⟩ := List.getElem?_eq_some_iff.mp hk
  exact ⟨s, by rw [List.drop_eq_getElem_cons hlt, hget], hk, hframe, hinner⟩

namespace VaultReader

/-- Without a run for the reader's seed no frame is accepted. -/
theorem upcoming_foreign (hideal : OnlySealed A runs) {r : VaultReader Bytes}
    (hkey : r.cipher = dataKey) (hseed : ∀ i, (runs i).nonceSeed ≠ r.nonceSeed) :
    ∃ e, upcoming A.toAead r = ([], some e) := by
  have hnone : ∀ frame inner,
      loadFrame A.toAead r.cipher r.nonceSeed r.sequence r.inner ≠ (.ok frame, inner) := by
    intro frame inner h
    rw [hkey] at h
    obtain ⟨i, hi, _⟩ := loadFrame_authentic hideal h
    exact hseed i hi
  rcases readNextFrame_cases A.toAead r with ⟨e, inner, _, hrun⟩ | ⟨frame, inner, e, _, hload, _⟩ |
    ⟨p, inner, _, hload, _, _⟩ | ⟨t, p, inner, _, hload, _⟩
  · exact ⟨e, upcoming_of_error hrun⟩
  · exact absurd hload (hnone _ _)
  · exact absurd hload (hnone _ _)
  · exact absurd hload (hnone _ _)

/-- **The stream.**  A reader at number `k` of a run will deliver a prefix of
what the run sealed from there on; and if it ends well, exactly that follows and
the run had sealed its whole stream. -/
theorem upcoming_authentic (hideal : OnlySealed A runs)
    (hseeds : Function.Injective fun i => (runs i).nonceSeed) {i : ι} (r : VaultReader Bytes)
    (hkey : r.cipher = dataKey) (hseed : (runs i).nonceSeed = r.nonceSeed)
    (hfin : r.finalized = false) :
    let left := ((runs i).last A.toAead).sealed.drop r.sequence.toNat
    (upcoming A.toAead r).1 <+: (left.map Sealing.plaintext).flatten ∧
      ((upcoming A.toAead r).2 = none →
        r.inner = (left.map Sealing.bytes).flatten ∧
        ((runs i).last A.toAead).sealed.map Sealing.frame = streamFrames (runs i).plaintext) := by
  have hsum := (runs i).summary A
  dsimp only
  fun_induction upcoming A.toAead r with
  | case1 r e r' h => exact ⟨List.nil_prefix, fun h => by cases h⟩
  | case2 r r' h hfin' =>
      refine ⟨List.nil_prefix, fun _ => ?_⟩
      rcases readNextFrame_cases A.toAead r with ⟨e, inner, _, hrun⟩ | ⟨_, _, e, _, _, hrun⟩ |
        ⟨p, inner, inner', hload, hend, hrun⟩ | ⟨t, p, inner, _, hload, hrun⟩
      · rw [h] at hrun
        cases congrArg Prod.fst hrun
      · rw [h] at hrun
        cases congrArg Prod.fst hrun
      · rw [hkey, ← hseed] at hload
        obtain ⟨s, hdrop, hget, hframe, hinner⟩ := loadFrame_next_of_run hideal hseeds hload
        -- nothing follows the final frame
        have hnil : inner = [] := by
          have htake : inner.take 1 = [] := Except.ok.inj (congrArg Prod.fst hend)
          simpa using htake
        have hframes : (((runs i).last A.toAead).sealed.map Sealing.frame)[r.sequence.toNat]? =
            some (finalFrame, p) := by
          rw [List.getElem?_map, hget, Option.map_some, hframe]
        have hlast : r.sequence.toNat + 1 = (streamFrames (runs i).plaintext).length := by
          refine length_of_finalFrame ?_ (rfl : (finalFrame, p).1 = finalFrame)
          obtain ⟨_, hsplit⟩ := hsum.frames_prefix
          rw [← hsplit, List.getElem?_append_left (List.getElem?_eq_some_iff.mp hframes).1,
            hframes]
        have hall : ((runs i).last A.toAead).sealed.map Sealing.frame =
            streamFrames (runs i).plaintext := by
          apply hsum.frames_prefix.eq_of_length_le
          rw [← hlast]
          exact (List.getElem?_eq_some_iff.mp hframes).1
        have hlen := congrArg List.length hall
        rw [List.length_map, ← hlast] at hlen
        rw [hdrop, List.drop_of_length_le (by omega), hinner, hnil]
        exact ⟨by simp, hall⟩
      · rw [h] at hrun
        have hfalse : r'.finalized = r.finalized := congrArg (·.2.finalized) hrun
        rw [hfin, hfin'] at hfalse
        cases hfalse
  | case3 r r' h hfin' ih =>
      rcases readNextFrame_cases A.toAead r with ⟨e, inner, _, hrun⟩ | ⟨_, _, e, _, _, hrun⟩ |
        ⟨p, inner, inner', hload, hend, hrun⟩ | ⟨t, p, inner, _, hload, hrun⟩
      · rw [h] at hrun
        cases congrArg Prod.fst hrun
      · rw [h] at hrun
        cases congrArg Prod.fst hrun
      · rw [h] at hrun
        exact absurd (congrArg (·.2.finalized) hrun) hfin'
      · have hne := sequence_ne_of_loadFrame hload
        rw [hkey, ← hseed] at hload
        obtain ⟨s, hdrop, hget, hframe, hinner⟩ := loadFrame_next_of_run hideal hseeds hload
        rw [h] at hrun
        cases congrArg Prod.snd hrun
        have hthis := ih hkey hseed hfin
        rw [toNat_succ hne] at hthis
        have hplain : s.plaintext = p := congrArg Prod.snd hframe
        rw [hdrop, List.map_cons, List.flatten_cons, hplain, List.map_cons, List.flatten_cons]
        refine ⟨(List.prefix_append_right_inj p).mpr hthis.1, fun hend => ?_⟩
        obtain ⟨hinner', hall⟩ := hthis.2 hend
        dsimp only at hinner'
        rw [hinner, hinner']
        exact ⟨rfl, hall⟩

end VaultReader

/-- **No forgery, splice, reorder, truncation or extension.**  Let some writers
with distinct seeds seal streams under one key, each over a sink that never
fails, finished or abandoned, and let nothing else open.  Whatever bytes a
reader is given and however it is driven: it delivers a prefix of the plaintext
of the run whose seed is in the header, nothing if there is none, and it reports
the end only on the complete output of a finished run. -/
theorem stream_integrity (hideal : OnlySealed A runs)
    (hseeds : Function.Injective fun i => (runs i).nonceSeed) (S : Bytes)
    {r : VaultReader Bytes} (hopen : VaultReader.new S dataKey = .ok r) (sizes : List Nat) :
    (∀ i, fileHeader (runs i).nonceSeed <+: S →
      (VaultReader.readStream A.toAead r sizes).1 <+: (runs i).plaintext) ∧
    ((∀ i, ¬ fileHeader (runs i).nonceSeed <+: S) →
      (VaultReader.readStream A.toAead r sizes).1 = []) ∧
    ((VaultReader.readStream A.toAead r sizes).2 = .endOfStream →
      ∃ i, (runs i).Completed A.toAead ∧ S = (runs i).written A.toAead) := by
  obtain ⟨hS, hkey, hseq, hplain, hoff, hfin⟩ := VaultReader.new_eq_ok hopen
  obtain ⟨hdelivered, hdone, _⟩ := VaultReader.readStream_spec (A := A.toAead) r sizes
  have hrem : VaultReader.remaining A.toAead r = VaultReader.upcoming A.toAead r := by
    rw [VaultReader.remaining_of_unfinished hfin, hplain, List.drop_nil, List.nil_append]
  rw [hrem] at hdelivered hdone
  have hheader : ∀ i, fileHeader (runs i).nonceSeed <+: S ↔ (runs i).nonceSeed = r.nonceSeed := by
    intro i
    constructor
    · rintro ⟨rest, hrest⟩
      exact fileHeader_injective (List.append_inj (hrest.trans hS) (by simp)).1
    · intro hi
      rw [hS, hi]
      exact List.prefix_append _ _
  have hthis := fun i hi =>
    VaultReader.upcoming_authentic hideal hseeds (i := i) r hkey hi hfin
  have hzero : r.sequence.toNat = 0 := by
    rw [hseq]
    rfl
  simp only [hzero, List.drop_zero] at hthis
  simp only [hheader]
  refine ⟨fun i hi => ?_, fun hnone => ?_, fun hend => ?_⟩
  · have hsum := (runs i).summary A
    have hplain' : (((runs i).last A.toAead).sealed.map Sealing.plaintext).flatten <+:
        (runs i).plaintext := by
      rw [← flatten_streamFrames (runs i).plaintext]
      have hmap := hsum.frames_prefix.map Prod.snd
      rw [List.map_map] at hmap
      exact hmap.flatten
    exact hdelivered.trans ((hthis i hi).1.trans hplain')
  · obtain ⟨e, he⟩ := VaultReader.upcoming_foreign hideal hkey hnone
    rw [he] at hdelivered
    exact List.prefix_nil.mp hdelivered
  · have hgood := hdone hend
    by_cases hex : ∃ i, (runs i).nonceSeed = r.nonceSeed
    · obtain ⟨i, hi⟩ := hex
      have hsum := (runs i).summary A
      obtain ⟨hinner, hall⟩ := (hthis i hi).2 (by rw [hgood])
      exact ⟨i, hsum.completed_iff.mpr hall, by rw [hsum.written_eq, hS, hinner, hi]⟩
    · obtain ⟨e, he⟩ := VaultReader.upcoming_foreign hideal hkey (not_exists.mp hex)
      rw [he] at hgood
      cases congrArg Prod.snd hgood

end

/-! ## A small collection of runs -/

/-- One finished stream and one abandoned stream under a key of zeros. -/
def sampleRuns (finished : Bool) : WriterRun Bytes (FixedBytes.replicate 32 0) where
  nonceSeed := FixedBytes.replicate 12 (if finished then 0 else 1)
  sink := []
  start :=
    { inner := some (fileHeader (FixedBytes.replicate 12 (if finished then 0 else 1)))
      cipher := FixedBytes.replicate 32 0
      nonceSeed := FixedBytes.replicate 12 (if finished then 0 else 1)
      pending := [], sequence := 0, finished := false, sealed := [] }
  opened := rfl
  inputs := [[7]]
  finishes := finished

/-- The two frames of the finished stream. -/
def sampleSealings : List Sealing :=
  let seed : FixedBytes 12 := FixedBytes.replicate 12 0
  let data := [0, 0, 0, 0, 0, 0, 0, 0, 1]
  let final := [1, 0, 0, 0, 1, 0, 0, 0, 0]
  [{ frameType := dataFrame, sequence := 0, header := data, nonce := seed,
     associatedData := fileHeader seed ++ data, plaintext := [7],
     ciphertext := 7 :: List.replicate 16 0 },
   { frameType := finalFrame, sequence := 1, header := final,
     nonce := ⟨[0, 0, 0, 0, 0, 0, 0, 0, 0, 0, 0, 1], rfl⟩,
     associatedData := fileHeader seed ++ final, plaintext := [],
     ciphertext := List.replicate 16 0 }]

/-- An AEAD that opens exactly these two frames. -/
def sampleAead : SealingAead :=
  tableAead (sampleSealings.map fun s => (s.nonce, s.associatedData, s.ciphertext, s.plaintext))

theorem sampleRuns_afterWrites (finished : Bool) :
    ((sampleRuns finished).afterWrites sampleAead.toAead).2 =
      { (sampleRuns finished).start with pending := [7] } := by
  have hlive : (sampleRuns finished).start.Live :=
    ⟨⟨_, rfl⟩, rfl, VaultWriter.chunkSize_pos⟩
  have hshort : ([] ++ [7] : Bytes).length < chunkSize := by decide
  have hwrite : VaultWriter.write sampleAead.toAead (sampleRuns finished).start [7] =
      (.ok 1, { (sampleRuns finished).start with pending := [7] }) := by
    rw [VaultWriter.write_eq hlive]
    have hpending : (sampleRuns finished).start.pending = [] := rfl
    rw [hpending, VaultWriter.dataFrames_of_lt hshort, Chunks.remainder_of_lt hshort]
    rfl
  change (VaultWriter.write sampleAead.toAead (sampleRuns finished).start [7]).2 = _
  rw [hwrite]

theorem sampleRuns_sealed (finished : Bool) :
    ((sampleRuns finished).last sampleAead.toAead).sealed =
      if finished then sampleSealings else [] := by
  unfold WriterRun.last
  rw [sampleRuns_afterWrites]
  cases finished with
  | true => rfl
  | false => rfl

theorem onlySealed_sample : OnlySealed sampleAead sampleRuns where
  opens := by
    intro finished s hs
    rw [sampleRuns_sealed] at hs
    cases finished with
    | true =>
        rcases List.mem_cons.mp hs with rfl | hs
        · rfl
        · rw [List.mem_singleton.mp hs]
          rfl
    | false => cases hs
  authentic := by
    intro nonce associatedData ciphertext plaintext h
    obtain ⟨entry, hentry, rfl, rfl, rfl⟩ := mem_of_tableAead h
    obtain ⟨s, hs, rfl⟩ := List.mem_map.mp hentry
    refine ⟨true, s, ?_, rfl, rfl, rfl⟩
    rw [sampleRuns_sealed]
    exact hs

/-- The theorem at the output of the finished run, read with two small buffers. -/
theorem stream_integrity_sample :
    ∃ r, VaultReader.new ((sampleRuns true).written sampleAead.toAead)
        (FixedBytes.replicate 32 0) = .ok r ∧
      (VaultReader.readStream sampleAead.toAead r [4, 4]).1 <+: [7] ∧
      ((VaultReader.readStream sampleAead.toAead r [4, 4]).2 = .endOfStream →
        ∃ i, (sampleRuns i).Completed sampleAead.toAead ∧
          (sampleRuns true).written sampleAead.toAead =
            (sampleRuns i).written sampleAead.toAead) := by
  have hseeds : Function.Injective fun i => (sampleRuns i).nonceSeed := by
    intro a b
    cases a <;> cases b <;> decide
  have hwritten := ((sampleRuns true).summary sampleAead).written_eq
  have hopen := VaultReader.new_fileHeader (sampleRuns true).nonceSeed
    (((sampleRuns true).last sampleAead.toAead).sealed.map Sealing.bytes).flatten
    (FixedBytes.replicate 32 0)
  rw [← hwritten] at hopen
  obtain ⟨hpre, _, hend⟩ := stream_integrity onlySealed_sample hseeds _ hopen [4, 4]
  refine ⟨_, hopen, ?_, hend⟩
  apply hpre true
  rw [hwritten]
  exact List.prefix_append _ _

end CodexVault
