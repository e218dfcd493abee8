import CodexVault.ReaderGrammar
import CodexVault.StreamIntegrity

/-!
# Reading on after an error

A `read` that fails leaves the reader usable: the bytes of the rejected frame are
gone, the sequence counter stays.  `Clean` holds of a reader that has met no
error, `Skipped` of one that has; both are kept by every further call.

`verifyFinished_certifies_iff` follows: what `verifyFinished` accepts is the output
of a finished writer exactly when no earlier call has failed.
-/

namespace CodexVault

open ByteStrings

theorem readExact_eq_error {n : Nat} {r r' : Bytes} {e : IoError}
    (h : Source.readExact r n = (.error e, r')) : r' = [] := by
  change (if h : n ≤ r.length then _ else _) = _ at h
  split at h
  · cases h
  · cases h
    rfl

/-- A frame that cannot be loaded from a byte string uses up some of it, or all. -/
theorem loadFrame_error_inner {A : Aead} {key : Key} {seed : FixedBytes 12} {sequence : UInt32}
    {inner inner' : Bytes} {e : IoError}
    (h : loadFrame A key seed sequence inner = (.error e, inner')) :
    inner' = [] ∨ inner'.length < inner.length := by
  unfold loadFrame at h
  split at h
  · next hheader =>
      cases h
      exact .inl (readExact_eq_error hheader)
  · next header middle hheader =>
      have hlen := congrArg List.length (readExact_eq_ok hheader)
      rw [List.length_append, header.length_toBytes] at hlen
      dsimp only at h
      split at h
      · cases h
        exact .inr (by omega)
      · split at h
        · next hbody =>
            cases h
            exact .inl (readExact_eq_error hbody)
        · next ciphertext inner2 hbody =>
            have hlen' := congrArg List.length (readExact_eq_ok hbody)
            rw [List.length_append] at hlen'
            right
            split at h
            · cases h
              omega
            · split at h
              · cases h
                omega
              · split at h
                · cases h
                  omega
                · cases h

section

variable {ι : Type} {W : ι → Type} [∀ i, ReliableSink (W i)] {dataKey : Key} {A : SealingAead}
  {runs : ∀ i, WriterRun (W i) dataKey}

/-- The frames a reader of run `i` has accepted so far, with the file header. -/
def acceptedBytes (A : SealingAead) (runs : ∀ i, WriterRun (W i) dataKey) (i : ι)
    (r : VaultReader Bytes) : Bytes :=
  fileHeader r.nonceSeed ++
    ((((runs i).last A.toAead).sealed.take r.sequence.toNat).map Sealing.bytes).flatten

/-- A reader that has accepted frames of run `i` only, all of them if it has
reached the end. -/
structure Follows (A : SealingAead) (runs : ∀ i, WriterRun (W i) dataKey) (i : ι)
    (r : VaultReader Bytes) : Prop where
  cipher : r.cipher = dataKey
  nonceSeed : r.nonceSeed = (runs i).nonceSeed
  complete : r.finalized = true → (runs i).Completed A.toAead ∧
    ((runs i).last A.toAead).sealed.length = r.sequence.toNat

/-- A reader of `S` that has met no error: `S` is what it accepted and what is left. -/
structure Clean (A : SealingAead) (runs : ∀ i, WriterRun (W i) dataKey) (i : ι) (S : Bytes)
    (r : VaultReader Bytes) : Prop extends Follows A runs i r where
  split : S = acceptedBytes A runs i r ++ r.inner
  atEnd : r.finalized = true → r.inner = []

/-- A reader of `S` that has met an error: bytes of `S` were dropped, or there are
no more and the end was not reached. -/
structure Skipped (A : SealingAead) (runs : ∀ i, WriterRun (W i) dataKey) (i : ι) (S : Bytes)
    (r : VaultReader Bytes) : Prop extends Follows A runs i r where
  lost : (r.finalized = false ∧ r.inner = []) ∨
    (acceptedBytes A runs i r).length + r.inner.length < S.length

/-- The run whose frame `k` is final is complete. -/
theorem completed_of_finalFrame {i : ι} {k : Nat} {s : Sealing}
    (hget : ((runs i).last A.toAead).sealed[k]? = some s) (hfinal : s.frameType = finalFrame) :
    (runs i).Completed A.toAead ∧ ((runs i).last A.toAead).sealed.length = k + 1 := by
  have hsum := (runs i).summary A
  have hframe : (((runs i).last A.toAead).sealed.map Sealing.frame)[k]? = some s.frame := by
    rw [List.getElem?_map, hget, Option.map_some]
  have hlast : k + 1 = (streamFrames (runs i).plaintext).length := by
    have hframeType : s.frame.1 = finalFrame := hfinal
    refine length_of_finalFrame ?_ hframeType
    obtain ⟨_, hsplit⟩ := hsum.frames_prefix
    rw [← hsplit, List.getElem?_append_left (List.getElem?_eq_some_iff.mp hframe).1, hframe]
  have hall : ((runs i).last A.toAead).sealed.map Sealing.frame =
      streamFrames (runs i).plaintext := by
    apply hsum.frames_prefix.eq_of_length_le
    rw [← hlast]
    exact (List.getElem?_eq_some_iff.mp hframe).1
  have hlen := congrArg List.length hall
  rw [List.length_map, ← hlast] at hlen
  exact ⟨hsum.completed_iff.mpr hall, hlen⟩

/-- Accepting the next frame of the run. -/
theorem Follows.next (hideal : OnlySealed A runs)
    (hseeds : Function.Injective fun i => (runs i).nonceSeed) {i : ι} {r t : VaultReader Bytes}
    {frame : UInt8 × Bytes} {inner : Bytes} (h : Follows A runs i r)
    (hload : loadFrame A.toAead r.cipher r.nonceSeed r.sequence r.inner = (.ok frame, inner))
    (hseed : t.nonceSeed = r.nonceSeed) (hsequence : t.sequence = r.sequence + 1) :
    ∃ s : Sealing, s.frame = frame ∧ s.bytes ≠ [] ∧ r.inner = s.bytes ++ inner ∧
      acceptedBytes A runs i t = acceptedBytes A runs i r ++ s.bytes ∧
      (frame.1 = finalFrame → (runs i).Completed A.toAead ∧
        ((runs i).last A.toAead).sealed.length = t.sequence.toNat) := by
  have hne := VaultReader.sequence_ne_of_loadFrame hload
  rw [h.cipher, h.nonceSeed] at hload
  obtain ⟨s, hdrop, hget, hframe, hinner⟩ := loadFrame_next_of_run hideal hseeds hload
  have hgenuine := ((runs i).summary A).genuine s (List.mem_of_getElem? hget)
  refine ⟨s, hframe, ?_, hinner, ?_, fun hfinal => ?_⟩
  · intro hnil
    have hlen := congrArg List.length hnil
    rw [Sealing.bytes, List.length_append, hgenuine.length_header, List.length_nil] at hlen
    omega
  · unfold acceptedBytes
    rw [hseed, hsequence, toNat_succ hne, List.take_add_one, hget]
    simp
  · rw [hsequence, toNat_succ hne]
    apply completed_of_finalFrame hget
    rw [← hfinal, ← hframe]
    rfl

/-- A frame that fails leaves the reader's own fields alone, or was the final frame
with something after it. -/
theorem readNextFrame_error_cases {A : Aead} {r r' : VaultReader Bytes} {e : IoError}
    (h : VaultReader.readNextFrame A r = (.error e, r')) :
    (∃ inner, loadFrame A r.cipher r.nonceSeed r.sequence r.inner = (.error e, inner) ∧
      r' = { r with inner := inner }) ∨
    ∃ plaintext inner, inner ≠ [] ∧
      loadFrame A r.cipher r.nonceSeed r.sequence r.inner =
        (.ok (finalFrame, plaintext), inner) ∧
      r' = { r with inner := inner.drop 1, sequence := r.sequence + 1 } := by
  unfold VaultReader.readNextFrame at h
  split at h
  · next e' inner hload =>
      cases h
      exact .inl ⟨inner, hload, rfl⟩
  · next frame inner hload =>
      obtain ⟨frameType, plaintext⟩ := frame
      dsimp only at h
      split at h
      · next hfinal =>
          subst hfinal
          have hread : Source.read inner 1 = (.ok (inner.take 1), inner.drop 1) := rfl
          rw [hread] at h
          dsimp only at h
          split at h
          · next htrailing =>
              cases h
              refine .inr ⟨plaintext, inner, ?_, hload, rfl⟩
              rintro rfl
              exact htrailing rfl
          · cases h
      · cases h

/-- **One frame from a clean reader.** -/
theorem frameRule_clean (hideal : OnlySealed A runs)
    (hseeds : Function.Injective fun i => (runs i).nonceSeed) (i : ι) (S : Bytes) :
    VaultReader.FrameRule A.toAead (Clean A runs i S) (Skipped A runs i S) where
  ok := by
    intro r r' hfin h hrun
    rcases VaultReader.readNextFrame_cases A.toAead r with ⟨e, inner, _, hcase⟩ |
      ⟨_, _, e, _, _, hcase⟩ | ⟨p, inner, inner', hload, hend, hcase⟩ |
      ⟨t, p, inner, _, hload, hcase⟩
    · rw [hrun] at hcase
      cases congrArg Prod.fst hcase
    · rw [hrun] at hcase
      cases congrArg Prod.fst hcase
    · rw [hrun] at hcase
      cases congrArg Prod.snd hcase
      obtain ⟨s, _, _, hinner, haccepted, hcomplete⟩ :=
        h.toFollows.next hideal hseeds (t := { r with
          inner := inner', sequence := r.sequence + 1, finalized := true, plaintext := [] })
          hload rfl rfl
      have hnil : inner = [] := by
        have htake : inner.take 1 = [] := Except.ok.inj (congrArg Prod.fst hend)
        simpa using htake
      have hnil' : inner' = [] := by
        have hdrop : inner.drop 1 = inner' := congrArg Prod.snd hend
        rw [← hdrop, hnil]
        rfl
      refine ⟨⟨h.cipher, h.nonceSeed, fun _ => hcomplete rfl⟩, ?_, fun _ => hnil'⟩
      rw [haccepted, h.split, hinner, hnil, hnil', List.append_nil, List.append_nil]
    · rw [hrun] at hcase
      cases congrArg Prod.snd hcase
      obtain ⟨s, _, _, hinner, haccepted, _⟩ :=
        h.toFollows.next hideal hseeds (t := { r with
          inner := inner, sequence := r.sequence + 1, plaintext := p, plaintextOffset := 0 })
          hload rfl rfl
      have hnot : ¬ r.finalized = true := by
        rw [hfin]
        exact Bool.false_ne_true
      refine ⟨⟨h.cipher, h.nonceSeed, fun hf => absurd hf hnot⟩, ?_, fun hf => absurd hf hnot⟩
      rw [haccepted, h.split, hinner, List.append_assoc]
  error := by
    intro r e r' hfin h hrun
    have hnot : ¬ r.finalized = true := by
      rw [hfin]
      exact Bool.false_ne_true
    have hlen := congrArg List.length h.split
    rw [List.length_append] at hlen
    rcases readNextFrame_error_cases hrun with ⟨inner, hload, rfl⟩ | ⟨p, inner, hne, hload, rfl⟩
    · refine ⟨⟨h.cipher, h.nonceSeed, fun hf => absurd hf hnot⟩, ?_⟩
      rcases loadFrame_error_inner hload with hnil | hlt
      · exact .inl ⟨hfin, hnil⟩
      · refine .inr ?_
        change (acceptedBytes A runs i r).length + inner.length < S.length
        omega
    · obtain ⟨s, _, _, hinner, haccepted, _⟩ :=
        h.toFollows.next hideal hseeds (t := { r with
          inner := inner.drop 1, sequence := r.sequence + 1 }) hload rfl rfl
      refine ⟨⟨h.cipher, h.nonceSeed, fun hf => absurd hf hnot⟩, .inr ?_⟩
      have hpos := List.length_pos_iff.mpr hne
      rw [hinner, List.length_append] at hlen
      rw [haccepted, List.length_append]
      dsimp only
      rw [List.length_drop]
      omega
  offset := fun _ _ h => ⟨⟨h.cipher, h.nonceSeed, h.complete⟩, h.split, h.atEnd⟩

/-- **One frame after an error.**  What was dropped does not come back. -/
theorem frameRule_skipped (hideal : OnlySealed A runs)
    (hseeds : Function.Injective fun i => (runs i).nonceSeed) (i : ι) (S : Bytes) :
    VaultReader.FrameRule A.toAead (Skipped A runs i S) (Skipped A runs i S) where
  ok := by
    intro r r' hfin h hrun
    have hkeep : ∀ {s : Sealing} {inner : Bytes}, s.bytes ≠ [] → r.inner = s.bytes ++ inner →
        (acceptedBytes A runs i r).length + (s.bytes.length + inner.length) < S.length := by
      intro s inner hne hinner
      rcases h.lost with ⟨_, hnil⟩ | hlt
      · rw [hinner] at hnil
        exact absurd (List.append_eq_nil_iff.mp hnil).1 hne
      · rwa [hinner, List.length_append] at hlt
    rcases VaultReader.readNextFrame_cases A.toAead r with ⟨e, inner, _, hcase⟩ |
      ⟨_, _, e, _, _, hcase⟩ | ⟨p, inner, inner', hload, hend, hcase⟩ |
      ⟨t, p, inner, _, hload, hcase⟩
    · rw [hrun] at hcase
      cases congrArg Prod.fst hcase
    · rw [hrun] at hcase
      cases congrArg Prod.fst hcase
    · rw [hrun] at hcase
      cases congrArg Prod.snd hcase
      obtain ⟨s, _, hne, hinner, haccepted, hcomplete⟩ :=
        h.toFollows.next hideal hseeds (t := { r with
          inner := inner', sequence := r.sequence + 1, finalized := true, plaintext := [] })
          hload rfl rfl
      refine ⟨⟨h.cipher, h.nonceSeed, fun _ => hcomplete rfl⟩, .inr ?_⟩
      have hlt := hkeep hne hinner
      have hdrop : inner.drop 1 = inner' := congrArg Prod.snd hend
      rw [haccepted, List.length_append]
      dsimp only
      rw [← hdrop, List.length_drop]
      omega
    · rw [hrun] at hcase
      cases congrArg Prod.snd hcase
      obtain ⟨s, _, hne, hinner, haccepted, _⟩ :=
        h.toFollows.next hideal hseeds (t := { r with
          inner := inner, sequence := r.sequence + 1, plaintext := p, plaintextOffset := 0 })
          hload rfl rfl
      have hnot : ¬ r.finalized = true := by
        rw [hfin]
        exact Bool.false_ne_true
      refine ⟨⟨h.cipher, h.nonceSeed, fun hf => absurd hf hnot⟩, .inr ?_⟩
      have hlt := hkeep hne hinner
      rw [haccepted, List.length_append]
      dsimp only
      omega
  error := by
    intro r e r' hfin h hrun
    have hnot : ¬ r.finalized = true := by
      rw [hfin]
      exact Bool.false_ne_true
    rcases readNextFrame_error_cases hrun with ⟨inner, hload, rfl⟩ | ⟨p, inner, hne, hload, rfl⟩
    · refine ⟨⟨h.cipher, h.nonceSeed, fun hf => absurd hf hnot⟩, ?_⟩
      rcases loadFrame_error_inner hload with hnil | hlt
      · exact .inl ⟨hfin, hnil⟩
      · rcases h.lost with ⟨_, hnil⟩ | hlost
        · rw [hnil, List.length_nil] at hlt
          omega
        · refine .inr ?_
          change (acceptedBytes A runs i r).length + inner.length < S.length
          omega
    · obtain ⟨s, _, hbytes, hinner, haccepted, _⟩ :=
        h.toFollows.next hideal hseeds (t := { r with
          inner := inner.drop 1, sequence := r.sequence + 1 }) hload rfl rfl
      refine ⟨⟨h.cipher, h.nonceSeed, fun hf => absurd hf hnot⟩, .inr ?_⟩
      rcases h.lost with ⟨_, hnil⟩ | hlt
      · rw [hinner] at hnil
        exact absurd (List.append_eq_nil_iff.mp hnil).1 hbytes
      · rw [hinner, List.length_append] at hlt
        rw [haccepted, List.length_append]
        dsimp only
        rw [List.length_drop]
        omega
  offset := fun _ _ h => ⟨⟨h.cipher, h.nonceSeed, h.complete⟩, h.lost⟩

/-- A reader whose seed no run has used accepts no frame. -/
theorem frameRule_foreign (hideal : OnlySealed A runs) :
    let Foreign := fun r : VaultReader Bytes => r.cipher = dataKey ∧ r.finalized = false ∧
      ∀ i, (runs i).nonceSeed ≠ r.nonceSeed
    VaultReader.FrameRule A.toAead Foreign Foreign := by
  dsimp only
  have hnone : ∀ {r : VaultReader Bytes} {frame inner}, r.cipher = dataKey →
      (∀ i, (runs i).nonceSeed ≠ r.nonceSeed) →
      loadFrame A.toAead r.cipher r.nonceSeed r.sequence r.inner ≠ (.ok frame, inner) := by
    intro r frame inner hkey hseed hload
    rw [hkey] at hload
    obtain ⟨i, hi, _⟩ := loadFrame_authentic hideal hload
    exact hseed i hi
  refine ⟨fun r r' hfin h hrun => ?_, fun r e r' hfin h hrun => ?_, fun r k h => h⟩
  · rcases VaultReader.readNextFrame_cases A.toAead r with ⟨e, inner, _, hcase⟩ |
      ⟨_, _, e, _, _, hcase⟩ | ⟨p, inner, inner', hload, _, _⟩ | ⟨t, p, inner, _, hload, _⟩
    · rw [hrun] at hcase
      cases congrArg Prod.fst hcase
    · rw [hrun] at hcase
      cases congrArg Prod.fst hcase
    · exact absurd hload (hnone h.1 h.2.2)
    · exact absurd hload (hnone h.1 h.2.2)
  · rcases readNextFrame_error_cases hrun with ⟨inner, _, rfl⟩ | ⟨p, inner, _, hload, _⟩
    · exact h
    · exact absurd hload (hnone h.1 h.2.2)

/-- **What `verify_finished` certifies.**  Let some writers with distinct seeds seal
streams under one key and let nothing else open.  When it returns `Ok`, the
source was the complete output of a finished writer exactly if no earlier call had
failed; an error that was ignored stands for bytes that the certificate misses. -/
theorem verifyFinished_certifies_iff (hideal : OnlySealed A runs)
    (hseeds : Function.Injective fun i => (runs i).nonceSeed) (S : Bytes)
    {r : VaultReader Bytes} (hopen : VaultReader.new S dataKey = .ok r) (sizes : List Nat)
    (hverify : VaultReader.verifyFinished A.toAead (VaultReader.reads A.toAead r sizes).2 =
      .ok ()) :
    (∃ i, (runs i).Completed A.toAead ∧ S = (runs i).written A.toAead) ↔
      ∀ result ∈ (VaultReader.reads A.toAead r sizes).1, ∃ b, result = .ok b := by
  obtain ⟨hS, hkey, hseq, _, _, hfin⟩ := VaultReader.new_eq_ok hopen
  obtain ⟨hcopy, hdone⟩ := VaultReader.copy_of_verifyFinished hverify
  have hkind : ∀ (r : VaultReader Bytes) size e, (VaultReader.read A.toAead r size).1 = .error e →
      e.kind ≠ .interrupted := by
    intro r size e h
    obtain ⟨message, rfl⟩ := VaultReader.read_error h
    exact fun h => by cases h
  by_cases hex : ∃ i, (runs i).nonceSeed = r.nonceSeed
  · obtain ⟨i, hi⟩ := hex
    have hnot : ¬ r.finalized = true := by
      rw [hfin]
      exact Bool.false_ne_true
    have hheader : acceptedBytes A runs i r = fileHeader r.nonceSeed := by
      have hzero : r.sequence.toNat = 0 := by
        rw [hseq]
        rfl
      unfold acceptedBytes
      rw [hzero, List.take_zero, List.map_nil, List.flatten_nil, List.append_nil]
    have hstart : Clean A runs i S r :=
      ⟨⟨hkey, hi.symm, fun hf => absurd hf hnot⟩, by rw [hheader]; exact hS,
        fun hf => absurd hf hnot⟩
    have hclean := frameRule_clean hideal hseeds i S
    have hskipped := frameRule_skipped hideal hseeds i S
    obtain ⟨hall, hsome⟩ := hclean.reads hskipped hstart sizes
    constructor
    · rintro ⟨j, hj, hwritten⟩
      by_contra hfailed
      -- the reader has skipped bytes, so the source is longer than what was written
      have hend := hskipped.copy hkind (hsome hfailed) hcopy
      obtain ⟨_, hlen⟩ := hend.complete hdone
      rcases hend.lost with ⟨hf, _⟩ | hlt
      · rw [hdone] at hf
        cases hf
      · have hsum := ((runs j).summary A).written_eq
        have hseed : (runs j).nonceSeed = r.nonceSeed := by
          rw [hwritten, hsum] at hS
          exact fileHeader_injective (List.append_inj hS (by simp)).1
        obtain rfl : j = i := hseeds (hseed.trans hi.symm)
        rw [hwritten, hsum] at hlt
        unfold acceptedBytes at hlt
        rw [hend.nonceSeed, ← hlen, List.take_length] at hlt
        omega
    · intro hok
      have hend := hclean.copy hkind (hall hok) hcopy
      obtain ⟨hcompleted, hlen⟩ := hend.complete hdone
      refine ⟨i, hcompleted, ?_⟩
      rw [hend.split, hend.atEnd hdone, List.append_nil, ((runs i).summary A).written_eq]
      unfold acceptedBytes
      rw [hend.nonceSeed, ← hlen, List.take_length]
  · -- no frame was accepted, so the end was not reached
    exfalso
    have hrule := frameRule_foreign hideal
    have hstart := And.intro hkey (And.intro hfin (not_exists.mp hex))
    have hreads := hrule.reads hrule hstart sizes
    have hforeign : (VaultReader.reads A.toAead r sizes).2.cipher = dataKey ∧
        (VaultReader.reads A.toAead r sizes).2.finalized = false ∧
        ∀ i, (runs i).nonceSeed ≠ (VaultReader.reads A.toAead r sizes).2.nonceSeed := by
      by_cases hok : ∀ result ∈ (VaultReader.reads A.toAead r sizes).1, ∃ b, result = .ok b
      · exact hreads.1 hok
      · exact hreads.2 hok
    have hend := (hrule.copy hkind hforeign hcopy).2.1
    rw [hdone] at hend
    cases hend

end

/-! ## A frame that is not there -/

/-- The finished sample stream with nine bytes put in after its file header. -/
def paddedStream : Bytes :=
  fileHeader (FixedBytes.replicate 12 0) ++
    (List.replicate 9 0xff ++ (sampleSealings.map Sealing.bytes).flatten)

/-- A reader of the sample that has accepted nothing yet. -/
def sampleReader (inner : Bytes) : VaultReader Bytes where
  inner := inner
  cipher := FixedBytes.replicate 32 0
  nonceSeed := FixedBytes.replicate 12 0
  plaintext := []
  plaintextOffset := 0
  sequence := 0
  finalized := false

/-- The first call fails on the nine bytes, and the rest is a good stream. -/
theorem paddedStream_verified :
    ∃ r, VaultReader.new paddedStream (FixedBytes.replicate 32 0) = .ok r ∧
      (∃ e, (VaultReader.reads sampleAead.toAead r [1]).1 = [.error e]) ∧
      VaultReader.verifyFinished sampleAead.toAead
        (VaultReader.reads sampleAead.toAead r [1]).2 = .ok () := by
  refine ⟨sampleReader (List.replicate 9 0xff ++ (sampleSealings.map Sealing.bytes).flatten),
    VaultReader.new_fileHeader _ _ _, ?_⟩
  have hread : VaultReader.read sampleAead.toAead
      (sampleReader (List.replicate 9 0xff ++ (sampleSealings.map Sealing.bytes).flatten)) 1 =
      (.error (ioIntegrity "encrypted vault frame order is invalid"),
        sampleReader (sampleSealings.map Sealing.bytes).flatten) :=
    VaultReader.read_of_frame_error Nat.one_ne_zero (Nat.le_refl 0) rfl rfl
  have hupcoming : VaultReader.upcoming sampleAead.toAead
      (sampleReader (sampleSealings.map Sealing.bytes).flatten) = ([7], none) := by
    rw [VaultReader.upcoming_eq_iff rfl]
    refine ⟨[⟨1, 7 :: List.replicate 16 0, [7]⟩], ⟨0, List.replicate 16 0, []⟩, rfl, ?_, rfl,
      ⟨rfl, rfl⟩, by decide, by decide, rfl⟩
    intro k f hk
    cases k with
    | zero =>
        cases hk
        exact ⟨by decide, rfl, rfl⟩
    | succ k => cases hk
  have hreads : VaultReader.reads sampleAead.toAead
      (sampleReader (List.replicate 9 0xff ++ (sampleSealings.map Sealing.bytes).flatten)) [1] =
      ([.error (ioIntegrity "encrypted vault frame order is invalid")],
        sampleReader (sampleSealings.map Sealing.bytes).flatten) := by
    rw [VaultReader.reads, hread]
    rfl
  rw [hreads]
  refine ⟨⟨_, rfl⟩, VaultReader.verifyFinished_of_good ?_⟩
  rw [VaultReader.remaining_of_unfinished rfl, hupcoming]

theorem injective_sampleRuns : Function.Injective fun i => (sampleRuns i).nonceSeed := by
  intro a b
  cases a <;> cases b <;> decide

/-- No run has written the padded stream. -/
theorem paddedStream_ne (i : Bool) :
    paddedStream ≠ (sampleRuns i).written sampleAead.toAead := by
  intro h
  rw [((sampleRuns i).summary sampleAead).written_eq, sampleRuns_sealed] at h
  have hlen := congrArg List.length h
  cases i <;> revert hlen <;> decide

/-- The theorem at the padded stream. -/
theorem verifyFinished_certifies_iff_padded :
    ∃ r, VaultReader.new paddedStream (FixedBytes.replicate 32 0) = .ok r ∧
      ((∃ i, (sampleRuns i).Completed sampleAead.toAead ∧
          paddedStream = (sampleRuns i).written sampleAead.toAead) ↔
        ∀ result ∈ (VaultReader.reads sampleAead.toAead r [1]).1, ∃ b, result = .ok b) := by
  obtain ⟨r, hopen, _, hverify⟩ := paddedStream_verified
  exact ⟨r, hopen,
    verifyFinished_certifies_iff onlySealed_sample injective_sampleRuns _ hopen [1] hverify⟩

/-- A stream that no writer wrote is certified after one ignored error. -/
theorem verifyFinished_misses_skipped_bytes :
    OnlySealed sampleAead sampleRuns ∧
      ∃ r, VaultReader.new paddedStream (FixedBytes.replicate 32 0) = .ok r ∧
        VaultReader.verifyFinished sampleAead.toAead
          (VaultReader.reads sampleAead.toAead r [1]).2 = .ok () ∧
        ¬ ∃ i, (sampleRuns i).Completed sampleAead.toAead ∧
          paddedStream = (sampleRuns i).written sampleAead.toAead := by
  obtain ⟨r, hopen, _, hverify⟩ := paddedStream_verified
  refine ⟨onlySealed_sample, r, hopen, hverify, ?_⟩
  rintro ⟨i, _, hwritten⟩
  exact paddedStream_ne i hwritten

end CodexVault
