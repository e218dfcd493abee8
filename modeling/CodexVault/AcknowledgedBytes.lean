import CodexVault.NonceUse
import CodexVault.ReaderGrammar

/-!
# Acknowledged bytes

A `write` that finds bytes in the buffer takes them out before their frame is
written.  When the sink refuses that frame, they are gone, although an earlier call
has acknowledged them, and the next frame goes out under the same number.

`Ledger` relates the frames that the sink has taken whole to the bytes it holds,
remains of refused frames included.  `acknowledged_kept` concludes that the stream
of a finished run, if it decodes at all, holds every acknowledged input in order,
when no call has its first frame refused while bytes are in the buffer.
-/

namespace CodexVault

open ByteStrings Chunks

/-- The pieces stand in `whole` one after the other, perhaps with others between. -/
def AppearInOrder : List Bytes → Bytes → Prop
  | [], _ => True
  | piece :: rest, whole => ∃ before after, whole = before ++ piece ++ after ∧
      AppearInOrder rest after

theorem AppearInOrder.append {pieces : List Bytes} {whole : Bytes}
    (h : AppearInOrder pieces whole) (more : Bytes) : AppearInOrder pieces (whole ++ more) := by
  induction pieces generalizing whole with
  | nil => exact trivial
  | cons piece rest ih =>
      obtain ⟨before, after, rfl, hrest⟩ := h
      exact ⟨before, after ++ more, List.append_assoc _ _ _, ih hrest⟩

theorem AppearInOrder.mono {pieces : List Bytes} {whole longer : Bytes}
    (h : AppearInOrder pieces whole) (hpre : whole <+: longer) : AppearInOrder pieces longer := by
  obtain ⟨more, rfl⟩ := hpre
  exact h.append more

theorem AppearInOrder.concat {pieces : List Bytes} {whole : Bytes}
    (h : AppearInOrder pieces whole) (piece : Bytes) :
    AppearInOrder (pieces ++ [piece]) (whole ++ piece) := by
  induction pieces generalizing whole with
  | nil => exact ⟨whole, [], (List.append_nil _).symm, trivial⟩
  | cons first rest ih =>
      obtain ⟨before, after, rfl, hrest⟩ := h
      exact ⟨before, after ++ piece, List.append_assoc _ _ _, ih hrest⟩

/-! ## What a sink holds -/

/-- The bytes of whole frames in order, with `extra` bytes of refused ones between
them. -/
inductive Holds : List Sealing → Bytes → Nat → Prop
  | nothing : Holds [] [] 0
  | frame {out : List Sealing} {b : Bytes} {extra : Nat} (s : Sealing) (h : Holds out b extra) :
      Holds (out ++ [s]) (b ++ s.bytes) extra
  | remains {out : List Sealing} {b : Bytes} {extra : Nat} (p : Bytes) (h : Holds out b extra) :
      Holds out (b ++ p) (extra + p.length)

theorem Holds.length {out : List Sealing} {b : Bytes} {extra : Nat} (h : Holds out b extra) :
    b.length = (out.map Sealing.bytes).flatten.length + extra := by
  induction h with
  | nothing => rfl
  | frame s _ ih =>
      rw [List.length_append, ih, List.map_append, List.flatten_append, List.length_append]
      simp
      omega
  | remains p _ ih =>
      rw [List.length_append, ih, Nat.add_assoc]

theorem Holds.eq_of_none {out : List Sealing} {b : Bytes} {extra : Nat} (h : Holds out b extra)
    (hnone : extra = 0) : b = (out.map Sealing.bytes).flatten := by
  induction h with
  | nothing => rfl
  | frame s _ ih => simp [ih hnone]
  | remains p _ ih =>
      obtain ⟨hextra, hp⟩ := Nat.add_eq_zero_iff.mp hnone
      rw [ih hextra, List.length_eq_zero_iff.mp hp, List.append_nil]

/-- The plaintext of the frames. -/
def plaintextOf (out : List Sealing) : Bytes := (out.map Sealing.plaintext).flatten

theorem plaintextOf_append (out more : List Sealing) :
    plaintextOf (out ++ more) = plaintextOf out ++ plaintextOf more := by
  rw [plaintextOf, List.map_append, List.flatten_append]
  rfl

theorem plaintextOf_frames {more : List Sealing} {frames : List (UInt8 × Bytes)}
    (h : more.map Sealing.frame = frames) : plaintextOf more = (frames.map Prod.snd).flatten := by
  rw [← h, List.map_map]
  rfl

namespace VaultWriter

variable {W : Type} [Sink W] {A : SealingAead}

/-- The frames `out` went out whole; `base` and the bytes `b` are in the sink. -/
structure Ledger (A : SealingAead) (w : VaultWriter W) (base : Bytes) (out : List Sealing)
    (b : Bytes) (extra : Nat) : Prop extends w.Numbered A where
  accepted : ∀ sink, w.inner = some sink → Sink.accepted sink = base ++ b
  holds : Holds out b extra
  mem : ∀ s ∈ out, s ∈ w.sealed
  numbered : ∀ (k : Nat) (s : Sealing), out[k]? = some s → s.sequence.toNat = k
  count : out.length = w.sequence.toNat

/-- The parts of a writer that no call changes. -/
structure SameKey (w w' : VaultWriter W) : Prop where
  cipher : w'.cipher = w.cipher
  nonceSeed : w'.nonceSeed = w.nonceSeed
  finished : w'.finished = w.finished

omit [Sink W] in
theorem SameKey.refl (w : VaultWriter W) : w.SameKey w := ⟨rfl, rfl, rfl⟩

omit [Sink W] in
theorem SameKey.trans {w w' w'' : VaultWriter W} (h : w.SameKey w') (h' : w'.SameKey w'') :
    w.SameKey w'' :=
  ⟨h'.cipher.trans h.cipher, h'.nonceSeed.trans h.nonceSeed, h'.finished.trans h.finished⟩

theorem Ledger.setPending {w : VaultWriter W} {base b : Bytes} {out : List Sealing} {extra : Nat}
    (h : w.Ledger A base out b extra) (pending : Bytes) :
    Ledger A { w with pending := pending } base out b extra :=
  ⟨h.toNumbered.setPending pending, h.accepted, h.holds, h.mem, h.numbered, h.count⟩

/-- **One frame.**  It goes out whole under the next number, or it is refused and
leaves remains. -/
theorem writeFrame_ledger {w : VaultWriter W} {base b : Bytes} {out : List Sealing} {extra : Nat}
    (h : w.Ledger A base out b extra) (frame : UInt8 × Bytes)
    (hlen : frame.2.length ≤ chunkSize) :
    w.SameKey (writeFrame A.toAead w frame.1 frame.2).2 ∧
    (∀ s ∈ (writeFrame A.toAead w frame.1 frame.2).2.sealed, s ∈ w.sealed ∨ s.frame = frame) ∧
    (((writeFrame A.toAead w frame.1 frame.2).1 = .ok () ∧ ∃ s, s.frame = frame ∧
        (writeFrame A.toAead w frame.1 frame.2).2.sealed = w.sealed ++ [s] ∧
        (writeFrame A.toAead w frame.1 frame.2).2.Ledger A base (out ++ [s]) (b ++ s.bytes) extra) ∨
      ((∃ e, (writeFrame A.toAead w frame.1 frame.2).1 = .error e) ∧ ∃ b' extra',
        (writeFrame A.toAead w frame.1 frame.2).2.Ledger A base out b' extra')) := by
  obtain ⟨sink, hsink⟩ := h.inner
  obtain ⟨hnumbered, _, _, _⟩ := writeFrame_numbered h.toNumbered frame.1 hlen
  have haccepted := h.accepted sink hsink
  rcases writeFrame_cases (A := A.toAead) hsink frame.1 frame.2 with
    ⟨e, hseal, hrun⟩ | ⟨s, e, sink', p, hseal, hrun, _, hacc⟩ | ⟨s, sink', hseal, hrun, hacc⟩
  · rw [hrun]
    exact ⟨.refl w, fun s hs => .inl hs, .inr ⟨⟨e, rfl⟩, b, extra, h⟩⟩
  · obtain ⟨_, htype, hplain, _⟩ := sealFrame_eq_ok.mp hseal
    rw [hrun] at hnumbered ⊢
    refine ⟨⟨rfl, rfl, rfl⟩, fun t ht => ?_, .inr ⟨⟨e, rfl⟩, b ++ p, extra + p.length, hnumbered,
      fun sink hs => ?_, h.holds.remains p, fun t ht => List.mem_append_left _ (h.mem t ht),
      h.numbered, h.count⟩⟩
    · rcases List.mem_append.mp ht with ht | ht
      · exact .inl ht
      · rw [List.mem_singleton.mp ht]
        exact .inr (Prod.ext htype hplain)
    · cases hs
      rw [hacc, haccepted, List.append_assoc]
  · obtain ⟨hseq, htype, hplain, hgen⟩ := sealFrame_eq_ok.mp hseal
    have hnext := toNat_succ (hseq ▸ hgen.sequence_ne)
    rw [hrun] at hnumbered ⊢
    refine ⟨⟨rfl, rfl, rfl⟩, fun t ht => ?_, .inl ⟨rfl, s, Prod.ext htype hplain, rfl, hnumbered,
      fun sink hs => ?_, h.holds.frame s, fun t ht => ?_, fun k t ht => ?_, ?_⟩⟩
    · rcases List.mem_append.mp ht with ht | ht
      · exact .inl ht
      · rw [List.mem_singleton.mp ht]
        exact .inr (Prod.ext htype hplain)
    · cases hs
      rw [hacc, haccepted, List.append_assoc]
    · rcases List.mem_append.mp ht with ht | ht
      · exact List.mem_append_left _ (h.mem t ht)
      · exact List.mem_append_right _ ht
    · by_cases hk : k < out.length
      · rw [List.getElem?_append_left hk] at ht
        exact h.numbered k t ht
      · have hlast := (List.getElem?_eq_some_iff.mp ht).1
        rw [List.length_append, List.length_singleton] at hlast
        obtain rfl : k = out.length := by omega
        rw [List.getElem?_concat_length] at ht
        cases ht
        rw [hseq, h.count]
    · rw [List.length_append, List.length_singleton, h.count]
      exact hnext.symm

/-- **Some frames**, up to the first that is refused. -/
theorem writeFrames_ledger {w : VaultWriter W} {base b : Bytes} {out : List Sealing} {extra : Nat}
    (h : w.Ledger A base out b extra) {frames : List (UInt8 × Bytes)}
    (hlen : ∀ f ∈ frames, f.2.length ≤ chunkSize) :
    w.SameKey (writeFrames A.toAead w frames).2 ∧
    (∀ s ∈ (writeFrames A.toAead w frames).2.sealed, s ∈ w.sealed ∨ s.frame ∈ frames) ∧
    (((writeFrames A.toAead w frames).1 = .ok () ∧ ∃ more, more.map Sealing.frame = frames ∧
        (writeFrames A.toAead w frames).2.sealed = w.sealed ++ more ∧
        (writeFrames A.toAead w frames).2.Ledger A base (out ++ more)
          (b ++ (more.map Sealing.bytes).flatten) extra) ∨
      ((∃ e, (writeFrames A.toAead w frames).1 = .error e) ∧ ∃ more b' extra',
        more.map Sealing.frame <+: frames ∧
        ((∀ first ∈ frames.head?, (writeFrame A.toAead w first.1 first.2).1 = .ok ()) →
          more ≠ []) ∧
        (writeFrames A.toAead w frames).2.Ledger A base (out ++ more) b' extra')) := by
  induction frames generalizing w out b extra with
  | nil =>
      refine ⟨.refl w, fun s hs => .inl hs, .inl ⟨rfl, [], rfl, (List.append_nil _).symm, ?_⟩⟩
      simpa [writeFrames] using h
  | cons frame rest ih =>
      obtain ⟨hsame, hsealed, hone⟩ := writeFrame_ledger h frame (hlen _ List.mem_cons_self)
      rw [writeFrames]
      cases hrun : writeFrame A.toAead w frame.1 frame.2 with
      | mk result w1 =>
      rw [hrun] at hsame hsealed hone
      rcases hone with ⟨hok, s, hframe, hadded, hnext⟩ | ⟨⟨e, herror⟩, b', extra', hnext⟩
      · cases hok
        obtain ⟨hsame', hsealed', hrest⟩ :=
          ih hnext fun f hf => hlen f (List.mem_cons_of_mem _ hf)
        refine ⟨hsame.trans hsame', fun t ht => ?_, ?_⟩
        · rcases hsealed' t ht with hold | hnew
          · rcases hsealed t hold with hold | rfl
            · exact .inl hold
            · exact .inr List.mem_cons_self
          · exact .inr (List.mem_cons_of_mem _ hnew)
        · rcases hrest with ⟨hok, more, hmore, hall, hlast⟩ |
            ⟨herror, more, b', extra', hmore, _, hlast⟩
          · refine .inl ⟨hok, s :: more, ?_, ?_, ?_⟩
            · rw [List.map_cons, hframe, hmore]
            · rw [hall, hadded, List.append_assoc]
              rfl
            · simpa using hlast
          · refine .inr ⟨herror, s :: more, b', extra', ?_, fun _ => List.cons_ne_nil _ _, ?_⟩
            · rw [List.map_cons, hframe]
              exact (List.prefix_append_right_inj [frame]).mpr hmore
            · simpa using hlast
      · cases herror
        refine ⟨hsame, fun t ht => ?_, .inr ⟨⟨e, rfl⟩, [], b', extra', List.nil_prefix,
          fun hfirst => ?_, ?_⟩⟩
        · rcases hsealed t ht with hold | rfl
          · exact .inl hold
          · exact .inr List.mem_cons_self
        · have hok := hfirst frame rfl
          rw [hrun] at hok
          cases hok
        · simpa using hnext

/-- The frame is a whole chunk of data, as every frame of a `write` is. -/
def WholeChunk (s : Sealing) : Prop := s.frameType = dataFrame ∧ s.plaintext.length = chunkSize

theorem wholeChunk_of_mem {s : Sealing} {b : Bytes} (h : s.frame ∈ dataFrames b) :
    WholeChunk s := by
  obtain ⟨c, hc, hframe⟩ := List.mem_map.mp h
  obtain ⟨htype, hplain⟩ := Prod.mk.inj hframe
  refine ⟨htype.symm, ?_⟩
  rw [← hplain]
  exact length_of_mem_fullChunks hc

/-- The sink takes both writes of a frame. -/
def TakesFrame (sink : W) (s : Sealing) : Prop :=
  (Sink.writeAll sink s.header).1 = .ok () ∧
    (Sink.writeAll (Sink.writeAll sink s.header).2 s.ciphertext).1 = .ok ()

theorem writeFrame_of_takes {w : VaultWriter W} {sink : W} (hsink : w.inner = some sink)
    {frame : UInt8 × Bytes} (hlen : frame.2.length ≤ chunkSize)
    (hroom : HasRoom w.nonceSeed w.sequence.toNat)
    (htakes : ∀ s, sealFrame A.toAead w.cipher w.nonceSeed w.sequence frame.1 frame.2 = .ok s →
      TakesFrame sink s) : (writeFrame A.toAead w frame.1 frame.2).1 = .ok () := by
  obtain ⟨s, hs⟩ :=
    (sealFrame_isOk_iff A w.cipher w.nonceSeed w.sequence frame.1 hlen).mpr hroom
  obtain ⟨hheader, hcipher⟩ := htakes s hs
  simp only [writeFrame, hs, hsink]
  cases hfirst : Sink.writeAll sink s.header with
  | mk result sink' =>
  rw [hfirst] at hheader hcipher
  cases hheader
  cases hsecond : Sink.writeAll sink' s.ciphertext with
  | mk result sink'' =>
  rw [hsecond] at hcipher
  cases hcipher
  dsimp only
  rw [hsecond]

/-- A call that finds bytes in the buffer does not have its first frame, which begins
with them, refused by the sink. -/
def BufferAccepted (A : Aead) (w : VaultWriter W) (input : Bytes) : Prop :=
  w.pending ≠ [] → ∀ first ∈ (dataFrames (w.pending ++ input)).head?, ∀ sink s,
    w.inner = some sink →
    sealFrame A w.cipher w.nonceSeed w.sequence first.1 first.2 = .ok s → TakesFrame sink s

/-- What a `write` leaves of what was there: everything when it succeeds; and when it
fails, what the frames hold that went out, the bytes of the buffer in front. -/
theorem write_ledger {w : VaultWriter W} {base b : Bytes} {out : List Sealing} {extra : Nat}
    (h : w.Ledger A base out b extra) (hlive : w.Live) (hwhole : ∀ s ∈ w.sealed, WholeChunk s)
    (input : Bytes) :
    w.SameKey (write A.toAead w input).2 ∧ (write A.toAead w input).2.Live ∧
    (∀ s ∈ (write A.toAead w input).2.sealed, WholeChunk s) ∧
    ∃ more b' extra', (write A.toAead w input).2.Ledger A base (out ++ more) b' extra' ∧
      ((∃ n, (write A.toAead w input).1 = .ok n ∧
          plaintextOf (out ++ more) ++ (write A.toAead w input).2.pending =
            plaintextOf out ++ w.pending ++ input) ∨
        (∃ e, (write A.toAead w input).1 = .error e ∧
          (HasRoom w.nonceSeed w.sequence.toNat → BufferAccepted A.toAead w input →
            plaintextOf out ++ w.pending <+:
              plaintextOf (out ++ more) ++ (write A.toAead w input).2.pending))) := by
  have hlen : ∀ f ∈ dataFrames (w.pending ++ input), f.2.length ≤ chunkSize :=
    fun f hf => length_le_of_mem_dataFrames hf
  obtain ⟨_, hlive', _⟩ := write_numbered h.toNumbered hlive input
  obtain ⟨hsame, hsealed, hout⟩ := writeFrames_ledger (h.setPending []) hlen
  have hkeep := congrArg (fun out => out.2.pending)
    (writeFrames_pending (A := A.toAead) w (dataFrames (w.pending ++ input)) [])
  have hchunks : ∀ s ∈ (writeFrames A.toAead { w with pending := [] }
      (dataFrames (w.pending ++ input))).2.sealed, WholeChunk s := by
    intro s hs
    rcases hsealed s hs with hold | hnew
    · exact hwhole s hold
    · exact wholeChunk_of_mem hnew
  rw [write_eq hlive] at hlive' ⊢
  cases hrun : writeFrames A.toAead { w with pending := [] }
      (dataFrames (w.pending ++ input)) with
  | mk result w' =>
  rw [hrun] at hsame hout hkeep hchunks hlive'
  rcases hout with ⟨hok, more, hmore, _, hlast⟩ |
    ⟨⟨e, herror⟩, more, b', extra', hmore, hsome, hlast⟩
  · cases hok
    refine ⟨⟨hsame.cipher, hsame.nonceSeed, hsame.finished⟩, hlive', hchunks, more, _, _,
      hlast.setPending _, .inl ⟨_, rfl, ?_⟩⟩
    have hframes : plaintextOf more = (fullChunks chunkSize (w.pending ++ input)).flatten := by
      rw [plaintextOf_frames hmore, dataFrames, List.map_map]
      exact congrArg List.flatten (List.map_id _)
    dsimp only
    rw [plaintextOf_append, hframes, List.append_assoc, flatten_fullChunks_append_remainder,
      List.append_assoc]
  · cases herror
    have hnil : w'.pending = [] := hkeep
    refine ⟨⟨hsame.cipher, hsame.nonceSeed, hsame.finished⟩, hlive', hchunks, more, b', extra',
      hlast, .inr ⟨_, rfl, fun hroom haccepted => ?_⟩⟩
    dsimp only
    rw [hnil, List.append_nil, plaintextOf_append]
    refine (List.prefix_append_right_inj _).mpr ?_
    by_cases hpending : w.pending = []
    · rw [hpending]
      exact List.nil_prefix
    · -- the first frame went out, and it begins with the buffer
      obtain ⟨sink, hsink⟩ := h.inner
      obtain ⟨first, rest, rfl⟩ := List.exists_cons_of_ne_nil (hsome fun first hfirst =>
        writeFrame_of_takes (w := { w with pending := [] }) hsink
          (hlen first (List.mem_of_mem_head? hfirst)) hroom
          fun s hs => haccepted hpending first hfirst sink s hsink hs)
      obtain ⟨others, hothers⟩ := hmore
      have hle : chunkSize ≤ (w.pending ++ input).length := by
        by_contra hlt
        rw [dataFrames_of_lt (Nat.not_le.mp hlt)] at hothers
        cases hothers
      rw [dataFrames_of_le hle, List.map_cons, List.cons_append] at hothers
      have hplain : first.plaintext = (w.pending ++ input).take chunkSize :=
        congrArg Prod.snd (List.cons.inj hothers).1
      have hshort := hlive.short
      rw [plaintextOf, List.map_cons, List.flatten_cons, hplain, List.take_append,
        List.take_of_length_le hshort.le, List.append_assoc]
      exact List.prefix_append _ _

/-! ## Whole runs -/

/-- The inputs whose `write` succeeds. -/
def acknowledged (A : Aead) (w : VaultWriter W) : List Bytes → List Bytes
  | [] => []
  | input :: rest =>
      match write A w input with
      | (.ok _, w') => input :: acknowledged A w' rest
      | (.error _, w') => acknowledged A w' rest

/-- No call has bytes of the buffer refused by the sink. -/
def BuffersAccepted (A : Aead) (w : VaultWriter W) : List Bytes → Prop
  | [] => True
  | input :: rest => BufferAccepted A w input ∧ BuffersAccepted A (write A w input).2 rest

theorem writes_sameKey {w : VaultWriter W} {base b : Bytes} {out : List Sealing}
    {extra : Nat} (h : w.Ledger A base out b extra) (hlive : w.Live)
    (hwhole : ∀ s ∈ w.sealed, WholeChunk s) (inputs : List Bytes) :
    w.SameKey (writes A.toAead w inputs).2 ∧
      w.sequence.toNat ≤ (writes A.toAead w inputs).2.sequence.toNat := by
  induction inputs generalizing w out b extra with
  | nil => exact ⟨.refl w, Nat.le_refl _⟩
  | cons input rest ih =>
      obtain ⟨hsame, hlive1, hwhole1, more, b1, extra1, h1, _⟩ :=
        write_ledger h hlive hwhole input
      obtain ⟨hsame', hle⟩ := ih h1 hlive1 hwhole1
      have hstep : w.sequence.toNat ≤ (write A.toAead w input).2.sequence.toNat := by
        rw [← h.count, ← h1.count, List.length_append]
        exact Nat.le_add_right _ _
      exact ⟨hsame.trans hsame', hstep.trans hle⟩

/-- **Any number of `write` calls.**  What was acknowledged is in the frames that went
out and in the buffer. -/
theorem writes_ledger {w : VaultWriter W} {base b : Bytes} {out : List Sealing} {extra : Nat}
    {pieces : List Bytes} (h : w.Ledger A base out b extra) (hlive : w.Live)
    (hwhole : ∀ s ∈ w.sealed, WholeChunk s) (hpieces : AppearInOrder pieces
      (plaintextOf out ++ w.pending)) {inputs : List Bytes}
    (haccepted : BuffersAccepted A.toAead w inputs)
    (hroom : HasRoom w.nonceSeed (writes A.toAead w inputs).2.sequence.toNat) :
    (writes A.toAead w inputs).2.Live ∧
    (∀ s ∈ (writes A.toAead w inputs).2.sealed, WholeChunk s) ∧
    ∃ out' b' extra', (writes A.toAead w inputs).2.Ledger A base out' b' extra' ∧
      AppearInOrder (pieces ++ acknowledged A.toAead w inputs)
        (plaintextOf out' ++ (writes A.toAead w inputs).2.pending) := by
  induction inputs generalizing w out b extra pieces with
  | nil =>
      refine ⟨hlive, hwhole, out, b, extra, h, ?_⟩
      rw [acknowledged, List.append_nil]
      exact hpieces
  | cons input rest ih =>
      obtain ⟨hfirst, hothers⟩ := haccepted
      have hfit := hroom.mono (writes_sameKey h hlive hwhole _).2
      obtain ⟨hsame, hlive1, hwhole1, more, b1, extra1, h1, hresult⟩ :=
        write_ledger h hlive hwhole input
      rw [writes] at hroom ⊢
      rw [acknowledged]
      cases hrun : write A.toAead w input with
      | mk result w1 =>
      rw [hrun] at hsame hlive1 hwhole1 h1 hresult hothers hroom
      dsimp only at hsame hlive1 hwhole1 h1 hresult hothers hroom ⊢
      rw [← hsame.nonceSeed] at hroom
      rcases hresult with ⟨n, hok, hkept⟩ | ⟨e, herror, hkept⟩
      · cases hok
        have hpieces1 : AppearInOrder (pieces ++ [input]) (plaintextOf (out ++ more) ++
            w1.pending) := by
          rw [hkept]
          exact hpieces.concat input
        have hlast := ih h1 hlive1 hwhole1 hpieces1 hothers hroom
        rw [List.append_assoc] at hlast
        exact hlast
      · cases herror
        exact ih h1 hlive1 hwhole1 (hpieces.mono (hkept hfit hfirst)) hothers hroom

/-- A `finish` that succeeds had a number left. -/
theorem room_of_finish {w : VaultWriter W} (hlive : w.Live) {sink : W}
    (hok : (finish A.toAead w).1 = .ok sink) : HasRoom w.nonceSeed w.sequence.toNat := by
  by_contra hroom
  have hrefused : ∀ frame ∈ finalFrames w.pending, ∃ e,
      writeFrame A.toAead { w with pending := [] } frame.1 frame.2 =
        (.error e, { w with pending := [] }) := by
    intro frame hframe
    have hnone := mt (sealFrame_isOk_iff A w.cipher w.nonceSeed w.sequence frame.1
      (length_le_of_mem_finalFrames hlive.short hframe)).mp hroom
    cases hseal : sealFrame A.toAead w.cipher w.nonceSeed w.sequence frame.1 frame.2 with
    | error e => exact ⟨e, by simp only [writeFrame, hseal]⟩
    | ok s => exact absurd ⟨s, hseal⟩ hnone
  obtain ⟨first, rest, hframes⟩ := List.exists_cons_of_ne_nil
    (show finalFrames w.pending ≠ [] by simp [finalFrames])
  obtain ⟨e, herror⟩ := hrefused first (hframes ▸ List.mem_cons_self)
  rw [finish, writeFinal_eq, hframes, writeFrames, herror] at hok
  cases hok

/-- **A `finish` that succeeds** puts its frames into the sink. -/
theorem finish_ledger {w : VaultWriter W} {base b : Bytes} {out : List Sealing} {extra : Nat}
    (h : w.Ledger A base out b extra) (hlive : w.Live) {sink : W}
    (hok : (finish A.toAead w).1 = .ok sink) :
    ∃ more, more.map Sealing.frame = finalFrames w.pending ∧
      (finish A.toAead w).2.sealed = w.sealed ++ more ∧
      Sink.accepted sink = base ++ (b ++ (more.map Sealing.bytes).flatten) ∧
      (∀ s ∈ w.sealed ++ more, s.Genuine A.toAead w.cipher w.nonceSeed) ∧
      ∀ (k : Nat) (s : Sealing), (out ++ more)[k]? = some s → s.sequence.toNat = k := by
  have hlen : ∀ f ∈ finalFrames w.pending, f.2.length ≤ chunkSize :=
    fun f hf => length_le_of_mem_finalFrames hlive.short hf
  obtain ⟨hsame, _, hout⟩ := writeFrames_ledger (h.setPending []) hlen
  unfold finish at hok ⊢
  rw [writeFinal_eq] at hok ⊢
  cases hrun : writeFrames A.toAead { w with pending := [] } (finalFrames w.pending) with
  | mk result w' =>
  rw [hrun] at hsame hout hok
  rcases hout with ⟨hdone, more, hmore, hall, hlast⟩ | ⟨⟨e, herror⟩, _⟩
  · cases hdone
    obtain ⟨inner, hinner⟩ := hlast.inner
    have haccepted := hlast.accepted inner hinner
    have hgenuine := hlast.genuine
    rw [hsame.cipher, hsame.nonceSeed, hall] at hgenuine
    dsimp only at hok ⊢ hinner
    rw [hinner] at hok ⊢
    dsimp only at hok ⊢
    have hflushed := Sink.accepted_flush inner
    cases hflush : Sink.flush inner with
    | mk result inner' =>
    rw [hflush] at hok hflushed
    cases result with
    | error e => cases hok
    | ok u =>
        cases hok
        exact ⟨more, hmore, hall, hflushed.trans haccepted, hgenuine, hlast.numbered⟩
  · cases herror
    cases hok

end VaultWriter

/-! ## What decodes -/

/-- The ideal AEAD, relative to the encryptions of one stream: each of them opens to
what was encrypted, and nothing else opens under the header of the stream. -/
structure OpensOnly (A : Aead) (key : Key) (seed : FixedBytes 12) (sealed : List Sealing) :
    Prop where
  opens : ∀ s ∈ sealed, A.decrypt key s.nonce s.associatedData s.ciphertext = some s.plaintext
  authentic : ∀ nonce header ciphertext plaintext,
    A.decrypt key nonce (fileHeader seed ++ header) ciphertext = some plaintext →
      ∃ s ∈ sealed, s.nonce = nonce ∧ s.associatedData = fileHeader seed ++ header ∧
        s.ciphertext = ciphertext

/-- The last sixteen bytes of a ciphertext. -/
def Sealing.tag (s : Sealing) : Bytes := s.ciphertext.drop (s.ciphertext.length - tagLength)

/-- Encryptions under one nonce whose associated data differ have different tags. -/
def TagsDiffer (sealed : List Sealing) : Prop :=
  ∀ s ∈ sealed, ∀ t ∈ sealed, s.nonce = t.nonce → s.tag = t.tag →
    s.associatedData = t.associatedData

section

variable {A : SealingAead} {key : Key} {seed : FixedBytes 12} {sealed : List Sealing}

theorem Sealing.Genuine.length_bytes {s : Sealing} (h : s.Genuine A.toAead key seed) :
    s.bytes.length = s.plaintext.length + 25 ∧ tagLength ≤ s.ciphertext.length := by
  have hcipher := A.length_encrypt h.ciphertext_eq
  have hheader := length_of_frameHeader h.header_eq
  have htag : tagLength = 16 := rfl
  have hnine : frameHeaderLength = 9 := rfl
  rw [Sealing.bytes, List.length_append]
  omega

/-- A frame that opens is one of the encryptions. -/
theorem Frame.OpensAt.mem_sealed (hopens : OpensOnly A.toAead key seed sealed)
    (hgenuine : ∀ s ∈ sealed, s.Genuine A.toAead key seed) {f : Frame} {frameType : UInt8}
    {i : Nat} (h : f.OpensAt A.toAead key seed frameType i) (hlen : f.length < 2 ^ 32)
    (hi : i < 2 ^ 32) :
    ∃ s ∈ sealed, s.frameType = frameType ∧ s.sequence.toNat = i ∧
      s.plaintext.length = f.length ∧ s.plaintext = f.plaintext ∧
      s.bytes = f.bytesAt frameType i := by
  obtain ⟨s, hs, hnonce, haad, hcipher⟩ := hopens.authentic _ _ _ _ h.opens
  have hplain := hopens.opens s hs
  rw [hnonce, haad, hcipher, h.opens] at hplain
  have hgen := hgenuine s hs
  rw [hgen.associatedData_eq] at haad
  have hheader := List.append_cancel_left haad
  have hnumber : (UInt32.ofNat i).toNat = i := UInt32.toNat_ofNat_of_lt' hi
  have hexpected : frameHeader frameType (UInt32.ofNat i) f.length = .ok s.header := by
    rw [frameHeader_eq_ok hlen, hheader, hnumber]
    rfl
  obtain ⟨htype, hseq, hlength⟩ := frameHeader_injective hgen.header_eq hexpected
  refine ⟨s, hs, htype, ?_, hlength, (Option.some.inj hplain).symm, ?_⟩
  · rw [hseq, hnumber]
  · rw [Sealing.bytes, Frame.bytesAt, hheader, hcipher]

/-- A stream that decodes is made of encryptions, numbered from the first. -/
theorem FramesFrom.sealings (hopens : OpensOnly A.toAead key seed sealed)
    (hgenuine : ∀ s ∈ sealed, s.Genuine A.toAead key seed) {i : Nat} {b plaintext : Bytes}
    {frames : List Frame} {last : Frame}
    (h : FramesFrom A.toAead key seed i b plaintext frames last) :
    ∃ data final, (∀ s ∈ data, s ∈ sealed ∧ s.frameType = dataFrame) ∧ final ∈ sealed ∧
      final.frameType = finalFrame ∧
      b = ((data ++ [final]).map Sealing.bytes).flatten ∧
      plaintext = plaintextOf (data ++ [final]) ∧
      ∀ (k : Nat) (s : Sealing), (data ++ [final])[k]? = some s → s.sequence.toNat = i + k := by
  induction frames generalizing i b plaintext with
  | nil =>
      obtain ⟨rfl, hlen, hlast, hroom, rfl⟩ := framesFrom_nil.mp h
      have hi : i < 2 ^ 32 := by
        have := hroom.1
        omega
      obtain ⟨s, hs, htype, hseq, hlength, _, hbytes⟩ :=
        hlast.mem_sealed hopens hgenuine (by omega) hi
      have hnil : s.plaintext = [] := List.length_eq_zero_iff.mp (hlength.trans hlen)
      refine ⟨[], s, fun t ht => ?_, hs, htype, ?_, ?_, fun k t ht => ?_⟩
      · cases ht
      · simp [hbytes]
      · simp [plaintextOf, hnil]
      · cases k with
        | zero =>
            cases ht
            exact hseq
        | succ k => cases ht
  | cons f rest ih =>
      obtain ⟨hlen, hfirst, b', plaintext', rfl, rfl, hrest⟩ := framesFrom_cons.mp h
      have hchunk : chunkSize = 65536 := rfl
      have hi : i < 2 ^ 32 := by
        have := hrest.number
        omega
      obtain ⟨s, hs, htype, hseq, _, hplain, hbytes⟩ :=
        hfirst.mem_sealed hopens hgenuine (by omega) hi
      obtain ⟨data, final, hdata, hfinal, hkind, rfl, rfl, hnumbers⟩ := ih hrest
      refine ⟨s :: data, final, fun t ht => ?_, hfinal, hkind, ?_, ?_, fun k t ht => ?_⟩
      · rcases List.mem_cons.mp ht with rfl | ht
        · exact ⟨hs, htype⟩
        · exact hdata t ht
      · simp [hbytes]
      · simp [plaintextOf, hplain]
      · cases k with
        | zero =>
            cases ht
            exact hseq
        | succ k =>
            rw [hnumbers k t ht]
            omega

/-- Two encryptions under one number with one frame have one plaintext. -/
theorem OpensOnly.plaintext_eq (hopens : OpensOnly A.toAead key seed sealed)
    (hgenuine : ∀ s ∈ sealed, s.Genuine A.toAead key seed) {s t : Sealing} (hs : s ∈ sealed)
    (ht : t ∈ sealed) (hseq : s.sequence = t.sequence) (hbytes : s.bytes = t.bytes) :
    s.plaintext = t.plaintext := by
  have hgs := hgenuine s hs
  have hgt := hgenuine t ht
  have hlength : s.header.length = t.header.length :=
    (length_of_frameHeader hgs.header_eq).trans (length_of_frameHeader hgt.header_eq).symm
  obtain ⟨hheader, hcipher⟩ := List.append_inj hbytes hlength
  have hnonce : s.nonce = t.nonce :=
    Except.ok.inj (hgs.nonce_eq.symm.trans (hseq ▸ hgt.nonce_eq))
  have hopen := hopens.opens s hs
  rw [hnonce, hgs.associatedData_eq, hheader, ← hgt.associatedData_eq, hcipher,
    hopens.opens t ht] at hopen
  exact (Option.some.inj hopen).symm

/-- Encryptions under the same numbers with the same frames have the same plaintexts. -/
theorem OpensOnly.plaintextOf_eq (hopens : OpensOnly A.toAead key seed sealed)
    (hgenuine : ∀ s ∈ sealed, s.Genuine A.toAead key seed) {out more : List Sealing}
    (hout : ∀ s ∈ out, s ∈ sealed) (hmore : ∀ s ∈ more, s ∈ sealed)
    (hseq : ∀ (k : Nat) (s t : Sealing), out[k]? = some s → more[k]? = some t →
      s.sequence = t.sequence)
    (hbytes : out.map Sealing.bytes = more.map Sealing.bytes) :
    plaintextOf out = plaintextOf more := by
  refine congrArg List.flatten (List.ext_getElem? fun k => ?_)
  have hk := congrArg (·[k]?) hbytes
  simp only [List.getElem?_map] at hk ⊢
  cases hs : out[k]? with
  | none =>
      cases ht : more[k]? with
      | none => rfl
      | some t =>
          rw [hs, ht] at hk
          cases hk
  | some s =>
      cases ht : more[k]? with
      | none =>
          rw [hs, ht] at hk
          cases hk
      | some t =>
          rw [hs, ht] at hk
          exact congrArg some (hopens.plaintext_eq hgenuine (hout s (List.mem_of_getElem? hs))
            (hmore t (List.mem_of_getElem? ht)) (hseq k s t hs ht) (Option.some.inj hk))

/-- Whole chunks take up equal room. -/
theorem length_whole_chunks (hgenuine : ∀ s ∈ sealed, s.Genuine A.toAead key seed)
    {out : List Sealing} (hout : ∀ s ∈ out, s ∈ sealed ∧ VaultWriter.WholeChunk s) :
    (out.map Sealing.bytes).map List.length = List.replicate out.length (chunkSize + 25) := by
  refine List.eq_replicate_iff.mpr ⟨by simp, fun n hn => ?_⟩
  obtain ⟨b, hb, rfl⟩ := List.mem_map.mp hn
  obtain ⟨s, hs, rfl⟩ := List.mem_map.mp hb
  obtain ⟨hmem, _, hlength⟩ := hout s hs
  rw [(hgenuine s hmem).length_bytes.1, hlength]

/-- The tag is at the end of the frame. -/
theorem Sealing.Genuine.drop_bytes {s : Sealing} (h : s.Genuine A.toAead key seed) :
    s.bytes.drop (s.bytes.length - tagLength) = s.tag := by
  have hle := h.length_bytes.2
  rw [Sealing.bytes, List.length_append, Sealing.tag, Nat.add_sub_assoc hle,
    List.drop_length_add_append]

/-- Frames of one number that end two equal streams in front of one last frame are of
one length. -/
theorem length_eq_of_tails (hgenuine : ∀ s ∈ sealed, s.Genuine A.toAead key seed)
    (htags : TagsDiffer sealed) {s t : Sealing} (hs : s ∈ sealed) (ht : t ∈ sealed)
    (hseq : s.sequence = t.sequence) {b c tail : Bytes}
    (h : b ++ s.bytes ++ tail = c ++ t.bytes ++ tail) :
    s.plaintext.length = t.plaintext.length := by
  have hgs := hgenuine s hs
  have hgt := hgenuine t ht
  have hsame := List.append_cancel_right h
  have htag : s.tag = t.tag := by
    have hdrop := congrArg (fun b => b.drop (b.length - tagLength)) hsame
    have hls := hgs.length_bytes
    have hlt := hgt.length_bytes
    have hsize : tagLength = 16 := rfl
    rw [List.length_append, List.length_append, Nat.add_sub_assoc (by omega),
      Nat.add_sub_assoc (by omega), List.drop_length_add_append, List.drop_length_add_append,
      hgs.drop_bytes, hgt.drop_bytes] at hdrop
    exact hdrop
  have hnonce : s.nonce = t.nonce :=
    Except.ok.inj (hgs.nonce_eq.symm.trans (hseq ▸ hgt.nonce_eq))
  have haad := htags s hs t ht hnonce htag
  rw [hgs.associatedData_eq, hgt.associatedData_eq] at haad
  have hheader := List.append_cancel_left haad
  exact (frameHeader_injective hgs.header_eq (hheader ▸ hgt.header_eq)).2.2

/-- The frames that a stream ends with, and its numbering, when `finish` has put
`more` behind the frames of the `write` calls. -/
theorem ends_with_final (hgenuine : ∀ s ∈ sealed, s.Genuine A.toAead key seed)
    (htags : TagsDiffer sealed) {before more out data : List Sealing} {pending b : Bytes}
    {final : Sealing} (hsealed : sealed = before ++ more)
    (hbefore : ∀ s ∈ before, VaultWriter.WholeChunk s)
    (hmore : more.map Sealing.frame = VaultWriter.finalFrames pending)
    (hshort : pending.length < chunkSize)
    (hnumbered : ∀ (k : Nat) (s : Sealing), (out ++ more)[k]? = some s → s.sequence.toNat = k)
    (hdata : ∀ s ∈ data, s ∈ sealed ∧ s.frameType = dataFrame) (hfinal : final ∈ sealed)
    (hkind : final.frameType = finalFrame)
    (hnumbers : ∀ (k : Nat) (s : Sealing), (data ++ [final])[k]? = some s → s.sequence.toNat = k)
    (hbytes : ((data ++ [final]).map Sealing.bytes).flatten =
      b ++ (more.map Sealing.bytes).flatten) :
    ∃ chunks, data ++ [final] = chunks ++ more ∧ chunks.length = out.length ∧
      ∀ s ∈ chunks, s ∈ sealed ∧ VaultWriter.WholeChunk s := by
  have hne : dataFrame ≠ finalFrame := by decide
  -- what comes before `more` in the numbering was sealed by a `write`
  have hchunk : ∀ (k : Nat) (s : Sealing), data[k]? = some s → k < out.length →
      s ∈ sealed ∧ VaultWriter.WholeChunk s := by
    intro k s hk hlt
    have hs := (hdata s (List.mem_of_getElem? hk)).1
    refine ⟨hs, ?_⟩
    rw [hsealed] at hs
    rcases List.mem_append.mp hs with hs | hs
    · exact hbefore s hs
    · obtain ⟨j, hj⟩ := List.mem_iff_getElem?.mp hs
      have hplace := hnumbered (out.length + j) s
        (by rw [List.getElem?_append_right (by omega)]; simpa using hj)
      have hplace' := hnumbers k s (by
        rw [List.getElem?_append_left (List.getElem?_eq_some_iff.mp hk).1]
        exact hk)
      omega
  have hlast : final ∈ more := by
    rw [hsealed] at hfinal
    rcases List.mem_append.mp hfinal with hfinal | hfinal
    · exact absurd ((hbefore final hfinal).1.symm.trans hkind) hne
    · exact hfinal
  have hcount := hnumbers data.length final (by simp)
  have hwhole : ∀ chunks : List Sealing, chunks <+: data → chunks.length = out.length →
      ∀ s ∈ chunks, s ∈ sealed ∧ VaultWriter.WholeChunk s := by
    rintro chunks ⟨others, rfl⟩ hlen s hs
    obtain ⟨k, hk⟩ := List.mem_iff_getElem?.mp hs
    have hlt := (List.getElem?_eq_some_iff.mp hk).1
    exact hchunk k s (by rw [List.getElem?_append_left hlt, hk]) (by omega)
  by_cases hpending : pending = []
  · rw [VaultWriter.finalFrames, if_pos hpending, List.nil_append] at hmore
    obtain ⟨z, rfl⟩ := List.length_eq_one_iff.mp
      ((List.length_map Sealing.frame).symm.trans (congrArg List.length hmore))
    obtain rfl := List.mem_singleton.mp hlast
    have hlen : data.length = out.length := by
      rw [← hcount]
      exact hnumbered out.length final (by simp)
    exact ⟨data, rfl, hlen, hwhole data List.prefix_rfl hlen⟩
  · rw [VaultWriter.finalFrames, if_neg hpending, List.singleton_append] at hmore
    obtain ⟨a, z, rfl⟩ := List.length_eq_two.mp
      ((List.length_map Sealing.frame).symm.trans (congrArg List.length hmore))
    obtain ⟨hframe, hframe'⟩ := List.cons.inj hmore
    obtain ⟨htype, hplain⟩ := Prod.mk.inj hframe
    have hkind' : z.frameType = finalFrame := congrArg Prod.fst (List.cons.inj hframe').1
    obtain rfl : final = z := by
      rcases List.mem_cons.mp hlast with rfl | hlast
      · exact absurd (htype.symm.trans hkind) hne
      · exact List.mem_singleton.mp hlast
    have hlen : data.length = out.length + 1 := by
      rw [← hcount]
      exact hnumbered (out.length + 1) final (by
        rw [List.getElem?_append_right (by omega)]
        simp)
    obtain ⟨chunks, c, rfl⟩ := (List.eq_nil_or_concat' data).resolve_left (by
      rintro rfl
      cases hlen)
    rw [List.length_append, List.length_singleton, Nat.add_right_cancel_iff] at hlen
    have hc : (chunks ++ [c])[out.length]? = some c := by
      rw [← hlen, List.getElem?_concat_length]
    obtain ⟨hcsealed, hctype⟩ := hdata c (List.mem_of_getElem? hc)
    have hcnumber : c.sequence.toNat = out.length := by
      refine hnumbers out.length c ?_
      rw [List.getElem?_append_left (List.getElem?_eq_some_iff.mp hc).1, hc]
    have hanumber : a.sequence.toNat = out.length := hnumbered out.length a (by simp)
    have htails : (chunks.map Sealing.bytes).flatten ++ c.bytes ++ final.bytes =
        b ++ a.bytes ++ final.bytes := by simpa using hbytes
    have hlength := length_eq_of_tails hgenuine htags hcsealed
      (hsealed ▸ List.mem_append_right _ List.mem_cons_self)
      (UInt32.toNat_inj.mp (hcnumber.trans hanumber.symm)) htails
    -- the frame in the place of the buffer's is no whole chunk, so it is that very frame
    obtain rfl : c = a := by
      rw [hsealed] at hcsealed
      rcases List.mem_append.mp hcsealed with hold | hnew
      · have hsize := (hbefore c hold).2
        rw [hlength, hplain] at hsize
        omega
      · rcases List.mem_cons.mp hnew with rfl | hnew
        · rfl
        · rw [List.mem_singleton.mp hnew, hkind] at hctype
          exact absurd hctype.symm hne
    exact ⟨chunks, by simp, hlen, hwhole chunks (List.prefix_append _ _) hlen⟩

end

namespace WriterRun

variable {W : Type} [Sink W] {dataKey : Key} {A : SealingAead}

/-- A new writer has sent the header of the stream. -/
theorem start_ledger (run : WriterRun W dataKey) :
    run.start.Ledger A (Sink.accepted run.sink ++ fileHeader run.nonceSeed) [] [] 0 ∧
      run.start.cipher = dataKey ∧ run.start.nonceSeed = run.nonceSeed ∧
      run.start.pending = [] := by
  obtain ⟨hnumbered, _, _⟩ := run.start_numbered A
  have hopened := run.opened
  unfold VaultWriter.new at hopened
  dsimp only at hopened
  cases hwrite : Sink.writeAll run.sink (fileHeader run.nonceSeed) with
  | mk result sink =>
      rw [hwrite] at hopened
      cases result with
      | error e => cases hopened
      | ok u =>
          have hstart := Except.ok.inj hopened
          have haccepted := Sink.accepted_of_ok hwrite
          rw [← hstart] at hnumbered ⊢
          refine ⟨⟨hnumbered, fun inner hinner => ?_, .nothing, fun s hs => ?_,
            fun k s hk => ?_, rfl⟩, rfl, rfl, rfl⟩
          · cases hinner
            rw [haccepted, List.append_nil]
          · cases hs
          · cases hk

end WriterRun

/-- **Acknowledged bytes are kept.**  In a run in which no call has bytes of the buffer
refused by the sink, `finish` succeeding and the stream decoding mean that every
acknowledged input is in the plaintext, in order. -/
theorem acknowledged_kept {W : Type} [Sink W] {dataKey : Key} (A : SealingAead)
    (run : WriterRun W dataKey) (sizes : Nat → Nat)
    (hopens : OpensOnly A.toAead dataKey run.nonceSeed (run.last A.toAead).sealed)
    (htags : TagsDiffer (run.last A.toAead).sealed)
    (haccepted : VaultWriter.BuffersAccepted A.toAead run.start run.inputs)
    (hdone : run.Completed A.toAead) {P : Bytes}
    (hdecode : decode A.toAead dataKey sizes (run.written A.toAead) = .ok P) :
    AppearInOrder (VaultWriter.acknowledged A.toAead run.start run.inputs) P := by
  obtain ⟨hfinishes, sink, hok⟩ := hdone
  have hlast : run.last A.toAead =
      (VaultWriter.finish A.toAead (VaultWriter.writes A.toAead run.start run.inputs).2).2 :=
    if_pos hfinishes
  rw [WriterRun.afterWrites] at hok
  obtain ⟨hstart, hcipher, hseed, hpending⟩ := run.start_ledger (A := A)
  obtain ⟨_, hlive, hnone⟩ := run.start_numbered A
  have hwhole : ∀ s ∈ run.start.sealed, VaultWriter.WholeChunk s := by
    rw [hnone]
    intro s hs
    cases hs
  have hsame := (VaultWriter.writes_sameKey hstart hlive hwhole run.inputs).1
  -- the frames that went out, and those of `finish` behind them
  have hroom := VaultWriter.room_of_finish
    (VaultWriter.writes_numbered hstart.toNumbered hlive run.inputs).2.1 hok
  rw [hsame.nonceSeed] at hroom
  obtain ⟨hlive', hchunks, out, b, extra, hledger, hkept⟩ := VaultWriter.writes_ledger hstart
    hlive hwhole (show AppearInOrder [] _ from trivial) haccepted hroom
  obtain ⟨more, hmore, hsealed, hwritten, hgenuine, hnumbered⟩ :=
    VaultWriter.finish_ledger hledger hlive' hok
  rw [hlast, hsealed] at hopens htags
  rw [hsame.cipher, hsame.nonceSeed, hcipher, hseed] at hgenuine
  have hstream : run.written A.toAead =
      fileHeader run.nonceSeed ++ (b ++ (more.map Sealing.bytes).flatten) := by
    rw [WriterRun.written, hlast, VaultWriter.inner_of_finish hok]
    dsimp only
    rw [hwritten, List.append_assoc, List.drop_left]
  -- the frames that are read back
  rw [(decode_eq_ok_iff A.toAead dataKey sizes _).1, hstream] at hdecode
  obtain ⟨seed, body, frames, last, hbody, hframes⟩ := hdecode
  obtain ⟨hheader, rfl⟩ := List.append_inj hbody (by simp [fileHeader])
  obtain rfl : run.nonceSeed = seed := fileHeader_injective hheader
  obtain ⟨data, final, hdata, hfinal, hkind, hbytes, rfl, hnumbers⟩ :=
    FramesFrom.sealings hopens hgenuine hframes
  simp only [Nat.zero_add] at hnumbers
  obtain ⟨chunks, hends, hlen, hread⟩ := ends_with_final hgenuine htags rfl hchunks hmore
    hlive'.short hnumbered hdata hfinal hkind hnumbers hbytes.symm
  rw [hends] at hbytes hnumbers ⊢
  rw [List.map_append, List.flatten_append] at hbytes
  have hbytes' := List.append_cancel_right hbytes
  -- nothing of a refused frame is among them, so they are the frames that went out
  have hout : ∀ s ∈ out, s ∈ _ ∧ VaultWriter.WholeChunk s :=
    fun s hs => ⟨List.mem_append_left more (hledger.mem s hs), hchunks s (hledger.mem s hs)⟩
  have hlengths : (out.map Sealing.bytes).map List.length =
      (chunks.map Sealing.bytes).map List.length := by
    rw [length_whole_chunks hgenuine hout, length_whole_chunks hgenuine hread, hlen]
  have hnothing : extra = 0 := by
    have htotal := hledger.holds.length
    rw [hbytes', List.length_flatten, List.length_flatten, hlengths] at htotal
    omega
  have hsent := List.eq_iff_flatten_eq.mpr
    ⟨(hledger.holds.eq_of_none hnothing).symm.trans hbytes', hlengths⟩
  have hplain : plaintextOf chunks = plaintextOf out := by
    refine hopens.plaintextOf_eq hgenuine (fun s hs => (hread s hs).1) (fun s hs => (hout s hs).1)
      (fun k s t hs ht => UInt32.toNat_inj.mp ?_) hsent.symm
    rw [hnumbers k s (by rw [List.getElem?_append_left (List.getElem?_eq_some_iff.mp hs).1, hs]),
      hledger.numbered k t ht]
  rw [plaintextOf_append, hplain, plaintextOf_frames hmore, VaultWriter.finalFrames]
  by_cases hnil : (VaultWriter.writes A.toAead run.start run.inputs).2.pending = []
  · simpa [hnil] using hkept
  · simpa [hnil] using hkept

/-! ## A caller that goes on after a refused chunk -/

/-- What `markingAead` ends a ciphertext with: the header of the frame. -/
def mark (associatedData : Bytes) : Bytes := (associatedData.drop 20 ++ List.replicate 16 0).take 16

theorem length_mark (associatedData : Bytes) : (mark associatedData).length = 16 := by
  simp [mark]

/-- An AEAD that marks a message with its frame's header and opens the listed triples
of nonce, associated data and ciphertext. -/
def markingAead (table : List (FixedBytes 12 × Bytes × Bytes)) : SealingAead where
  encrypt _ _ aad message := some (message ++ mark aad)
  decrypt _ nonce aad ciphertext :=
    if (nonce, aad, ciphertext) ∈ table then some (ciphertext.take (ciphertext.length - 16))
    else none
  encrypt_isSome := fun _ _ aad message _ => ⟨message ++ mark aad, rfl⟩
  length_encrypt := by
    intro key nonce aad message ciphertext h
    rw [← Option.some.inj h, List.length_append, length_mark]

section

variable {table : List (FixedBytes 12 × Bytes × Bytes)} {key : Key} {seed : FixedBytes 12}
  {sealed : List Sealing}

theorem take_marked (message aad : Bytes) :
    (message ++ mark aad).take ((message ++ mark aad).length - 16) = message := by
  rw [List.length_append, length_mark, Nat.add_sub_cancel, List.take_left]

theorem opensOnly_marking (hgenuine : ∀ s ∈ sealed, s.Genuine (markingAead table).toAead key seed)
    (htable : table = sealed.map fun s => (s.nonce, s.associatedData, s.ciphertext)) :
    OpensOnly (markingAead table).toAead key seed sealed := by
  refine ⟨fun s hs => ?_, fun nonce header ciphertext plaintext h => ?_⟩
  · have hmem : (s.nonce, s.associatedData, s.ciphertext) ∈ table :=
      htable ▸ List.mem_map_of_mem hs
    have hcipher : s.plaintext ++ mark s.associatedData = s.ciphertext :=
      Option.some.inj (hgenuine s hs).ciphertext_eq
    refine (if_pos hmem).trans (congrArg some ?_)
    rw [← hcipher, take_marked]
  · have hmem : (nonce, fileHeader seed ++ header, ciphertext) ∈ table := by
      by_contra hnot
      have hnone := (if_neg hnot).symm.trans h
      cases hnone
    rw [htable] at hmem
    obtain ⟨s, hs, htriple⟩ := List.mem_map.mp hmem
    obtain ⟨hnonce, hrest⟩ := Prod.mk.inj htriple
    obtain ⟨haad, hcipher⟩ := Prod.mk.inj hrest
    exact ⟨s, hs, hnonce, haad, hcipher⟩

theorem tagsDiffer_marking
    (hgenuine : ∀ s ∈ sealed, s.Genuine (markingAead table).toAead key seed) :
    TagsDiffer sealed := by
  have htag : ∀ s ∈ sealed, s.tag = s.header ++ List.replicate 7 0 := by
    intro s hs
    have hgen := hgenuine s hs
    have hcipher : s.plaintext ++ mark s.associatedData = s.ciphertext :=
      Option.some.inj hgen.ciphertext_eq
    have hnine : s.header.length = 9 := length_of_frameHeader hgen.header_eq
    have hmark : mark s.associatedData = s.header ++ List.replicate 7 0 := by
      rw [mark, hgen.associatedData_eq, List.drop_append_of_le_length (by simp [fileHeaderLength]),
        List.drop_eq_nil_of_le (by simp [fileHeaderLength]), List.nil_append, List.take_append,
        hnine, List.take_of_length_le (by omega)]
      rfl
    have hsize : tagLength = 16 := rfl
    rw [Sealing.tag, ← hcipher, List.length_append, length_mark, hsize, Nat.add_sub_cancel,
      List.drop_left, hmark]
  intro s hs t ht _ h
  rw [htag s hs, htag t ht] at h
  rw [(hgenuine s hs).associatedData_eq, (hgenuine t ht).associatedData_eq,
    List.append_cancel_right h]

/-- The frame that a writer seals with `markingAead`. -/
def markedSealing (seed : FixedBytes 12) (frameType : UInt8) (sequence : UInt32)
    (plaintext : Bytes) : Sealing :=
  let header := headerBytes frameType sequence.toNat plaintext.length
  let associatedData := fileHeader seed ++ header
  { frameType, sequence, header, nonce := nonceAt seed sequence.toNat, associatedData, plaintext
    ciphertext := plaintext ++ mark associatedData }

theorem sealFrame_marking {sequence : UInt32} (frameType : UInt8) {plaintext : Bytes}
    (hlen : plaintext.length ≤ chunkSize) (hroom : HasRoom seed sequence.toNat) :
    sealFrame (markingAead table).toAead key seed sequence frameType plaintext =
      .ok (markedSealing seed frameType sequence plaintext) := by
  obtain ⟨s, hs⟩ :=
    (sealFrame_isOk_iff (markingAead table) key seed sequence frameType hlen).mpr hroom
  obtain ⟨hseq, htype, hplain, hgen⟩ := sealFrame_eq_ok.mp hs
  have hchunk : chunkSize = 65536 := rfl
  refine sealFrame_eq_ok.mpr ⟨rfl, rfl, rfl, hseq ▸ hgen.sequence_ne,
    frameHeader_eq_ok (by dsimp only [markedSealing]; omega), ?_, rfl, rfl⟩
  have hnonce := hgen.nonce_eq
  rw [← nonceAt_eq hnonce, hseq] at hnonce
  exact hnonce

theorem VaultWriter.writeFrames_append {W : Type} [Sink W] {A : Aead} {w w' : VaultWriter W}
    {frames : List (UInt8 × Bytes)} (h : writeFrames A w frames = (.ok (), w'))
    (more : List (UInt8 × Bytes)) : writeFrames A w (frames ++ more) = writeFrames A w' more := by
  induction frames generalizing w with
  | nil =>
      cases h
      rfl
  | cons frame rest ih =>
      rw [writeFrames] at h
      rw [List.cons_append, writeFrames]
      cases hrun : writeFrame A w frame.1 frame.2 with
      | mk result w1 =>
          rw [hrun] at h
          cases result with
          | error e => cases h
          | ok u => exact ih h

/-- The frames that a writer seals with `markingAead`, from number `i` on. -/
def markedFrames (seed : FixedBytes 12) : Nat → List (UInt8 × Bytes) → List Sealing
  | _, [] => []
  | i, frame :: rest =>
      markedSealing seed frame.1 (UInt32.ofNat i) frame.2 :: markedFrames seed (i + 1) rest

theorem markedFrames_append (i : Nat) (frames more : List (UInt8 × Bytes)) :
    markedFrames seed i (frames ++ more) =
      markedFrames seed i frames ++ markedFrames seed (i + frames.length) more := by
  induction frames generalizing i with
  | nil => rfl
  | cons frame rest ih =>
      rw [List.cons_append, markedFrames, markedFrames, ih, List.cons_append, List.length_cons]
      congr 3
      omega

theorem toNat_ofNat_of_room {i : Nat} (hroom : HasRoom seed i) : (UInt32.ofNat i).toNat = i :=
  UInt32.toNat_ofNat_of_lt' (by have := hroom.1; change i < 4294967296; omega)

theorem genuine_markedFrames {i : Nat} {frames : List (UInt8 × Bytes)}
    (hlen : ∀ f ∈ frames, f.2.length ≤ chunkSize) (hroom : HasRoom seed (i + frames.length)) :
    ∀ s ∈ markedFrames seed i frames, s.Genuine (markingAead table).toAead key seed := by
  induction frames generalizing i with
  | nil => exact fun s hs => absurd hs List.not_mem_nil
  | cons frame rest ih =>
      have hi : HasRoom seed i := hroom.mono (Nat.le_add_right _ _)
      have hfirst : sealFrame (markingAead table).toAead key seed (UInt32.ofNat i) frame.1
          frame.2 = .ok (markedSealing seed frame.1 (UInt32.ofNat i) frame.2) :=
        sealFrame_marking frame.1 (hlen frame List.mem_cons_self)
          ((toNat_ofNat_of_room hi).symm ▸ hi)
      intro s hs
      rcases List.mem_cons.mp hs with rfl | hs
      · exact (sealFrame_eq_ok.mp hfirst).2.2.2
      · refine ih (fun f hf => hlen f (List.mem_cons_of_mem _ hf)) ?_ s hs
        rw [List.length_cons] at hroom
        exact hroom.mono (by omega)

/-- **A sink that does not fail meanwhile** takes the frames. -/
theorem writeFrames_marked {w : VaultWriter FlakySink} (sink : FlakySink) (i : Nat)
    {frames : List (UInt8 × Bytes)} (hinner : w.inner = some sink)
    (hsequence : w.sequence = UInt32.ofNat i)
    (hsink : sink.failAt = 0 ∨ 2 * frames.length < sink.failAt)
    (hlen : ∀ f ∈ frames, f.2.length ≤ chunkSize)
    (hroom : HasRoom w.nonceSeed (i + frames.length)) :
    VaultWriter.writeFrames (markingAead table).toAead w frames = (.ok (), { w with
      sealed := w.sealed ++ markedFrames w.nonceSeed i frames
      inner := some
        { taken := sink.taken ++ ((markedFrames w.nonceSeed i frames).map Sealing.bytes).flatten
          failAt := sink.failAt - 2 * frames.length }
      sequence := UInt32.ofNat (i + frames.length) }) := by
  induction frames generalizing w sink i with
  | nil =>
      simp only [VaultWriter.writeFrames, markedFrames, List.map_nil, List.flatten_nil,
        List.append_nil, List.length_nil, Nat.add_zero, Nat.mul_zero, Nat.sub_zero,
        ← hsequence, ← hinner]
  | cons frame rest ih =>
      have hi : HasRoom w.nonceSeed i := hroom.mono (Nat.le_add_right _ _)
      have hseal : sealFrame (markingAead table).toAead w.cipher w.nonceSeed w.sequence frame.1
          frame.2 = .ok (markedSealing w.nonceSeed frame.1 (UInt32.ofNat i) frame.2) := by
        rw [hsequence]
        exact sealFrame_marking frame.1 (hlen frame List.mem_cons_self)
          ((toNat_ofNat_of_room hi).symm ▸ hi)
      rw [List.length_cons] at hsink hroom
      have hheader : ∀ b, Sink.writeAll sink b =
          (.ok (), { taken := sink.taken ++ b, failAt := sink.failAt - 1 }) :=
        fun b => if_neg (by omega)
      have hbody : ∀ taken b, Sink.writeAll ({ taken, failAt := sink.failAt - 1 } : FlakySink) b =
          (.ok (), { taken := taken ++ b, failAt := sink.failAt - 1 - 1 }) :=
        fun taken b => if_neg (by dsimp only; omega)
      have hstep : w.sequence + 1 = UInt32.ofNat (i + 1) := by
        rw [hsequence, UInt32.ofNat_add]
        rfl
      have hframe : VaultWriter.writeFrame (markingAead table).toAead w frame.1 frame.2 =
          (.ok (), { w with
            sealed := w.sealed ++ [markedSealing w.nonceSeed frame.1 (UInt32.ofNat i) frame.2]
            inner := some
              { taken := sink.taken ++
                  (markedSealing w.nonceSeed frame.1 (UInt32.ofNat i) frame.2).bytes
                failAt := sink.failAt - 2 }
            sequence := UInt32.ofNat (i + 1) }) := by
        simp only [VaultWriter.writeFrame, hseal, hinner, hheader, hbody, hstep, Sealing.bytes,
          List.append_assoc, Nat.sub_sub]
      rw [VaultWriter.writeFrames, hframe]
      dsimp only
      have hrest : sink.failAt - 2 = 0 ∨ 2 * rest.length < sink.failAt - 2 := by omega
      refine Eq.trans (ih _ (i + 1) rfl rfl hrest
        (fun f hf => hlen f (List.mem_cons_of_mem _ hf)) (hroom.mono (by omega))) ?_
      simp only [markedFrames, List.map_cons, List.flatten_cons, List.append_assoc,
        List.singleton_append, List.length_cons, Nat.sub_sub, Nat.add_assoc, Nat.add_comm 1,
        Nat.mul_add, Nat.mul_one, Nat.add_comm 2]

/-- The frames are read back, when the cipher opens them. -/
theorem framesFrom_marked {i : Nat} {chunks : List Bytes}
    (hlen : ∀ chunk ∈ chunks, chunk.length ≤ chunkSize)
    (hroom : HasRoom seed (i + (chunks.length + 1)))
    (hopens : ∀ s ∈ markedFrames seed i (chunks.map (Prod.mk dataFrame) ++ [(finalFrame, [])]),
      (markingAead table).decrypt key s.nonce s.associatedData s.ciphertext = some s.plaintext) :
    ∃ frames last, FramesFrom (markingAead table).toAead key seed i
      ((markedFrames seed i (chunks.map (Prod.mk dataFrame) ++ [(finalFrame, [])])).map
        Sealing.bytes).flatten chunks.flatten frames last := by
  have hcipher : ∀ (p b : Bytes), (p ++ mark b).length = p.length + tagLength := by
    intro p b
    rw [List.length_append, length_mark]
    rfl
  have hi : HasRoom seed i := hroom.mono (Nat.le_add_right _ _)
  have hnumber := toNat_ofNat_of_room hi
  induction chunks generalizing i with
  | nil =>
      have hlast := hopens _ List.mem_cons_self
      refine ⟨[], ⟨0, (markedSealing seed finalFrame (UInt32.ofNat i) []).ciphertext, []⟩,
        framesFrom_nil.mpr ⟨?_, rfl, ⟨hcipher [] _, ?_⟩, hi, rfl⟩⟩
      · simp [markedFrames, Sealing.bytes, markedSealing, Frame.bytesAt, hnumber]
      · simp only [markedSealing, hnumber] at hlast ⊢
        exact hlast
  | cons chunk rest ih =>
      have hfirst := hopens _ List.mem_cons_self
      rw [List.length_cons] at hroom
      obtain ⟨frames, last, hrest⟩ := ih (i := i + 1)
        (fun c hc => hlen c (List.mem_cons_of_mem _ hc)) (hroom.mono (by omega))
        (fun s hs => hopens s (List.mem_cons_of_mem _ hs)) (hroom.mono (by omega))
        (toNat_ofNat_of_room (hroom.mono (by omega)))
      refine ⟨⟨chunk.length, (markedSealing seed dataFrame (UInt32.ofNat i) chunk).ciphertext,
          chunk⟩ :: frames, last, framesFrom_cons.mpr ⟨hlen chunk List.mem_cons_self,
        ⟨hcipher chunk _, ?_⟩, _, _, ?_, rfl, hrest⟩⟩
      · simp only [markedSealing, hnumber] at hfirst ⊢
        exact hfirst
      · simp [markedFrames, Sealing.bytes, markedSealing, Frame.bytesAt, hnumber]

end

/-- The sink takes the chunks of `sent` and refuses the next one, which is `refused`. -/
structure Refusal where
  /-- The bytes in the buffer when the chunks come. -/
  held : Bytes
  sent : List Bytes
  refused : Bytes
  short : held.length < chunkSize
  begins : held <+: (sent ++ [refused]).flatten
  whole : ∀ chunk ∈ sent ++ [refused], chunk.length = chunkSize
  few : sent.length + 2 < 2 ^ 32 - 1

namespace Refusal

variable (c : Refusal)

def seed : FixedBytes 12 := FixedBytes.replicate 12 0

/-- The frames of the chunks. -/
def chunkFrames (chunks : List Bytes) : List (UInt8 × Bytes) := chunks.map (Prod.mk dataFrame)

/-- The frames of a three, and the final one. -/
def lastFrames : List (UInt8 × Bytes) := [(dataFrame, [3]), (finalFrame, [])]

/-- A caller that buffers `held`, writes the rest of the chunks, and goes on with a three
when that has failed. -/
def run : WriterRun FlakySink (FixedBytes.replicate 32 0) where
  nonceSeed := seed
  sink := { taken := [], failAt := 2 * c.sent.length + 2 }
  start :=
    { inner := some { taken := fileHeader seed, failAt := 2 * c.sent.length + 1 }
      cipher := FixedBytes.replicate 32 0
      nonceSeed := seed
      pending := [], sequence := 0, finished := false, sealed := [] }
  opened := rfl
  inputs := [c.held, (c.sent ++ [c.refused]).flatten.drop c.held.length, [3]]
  finishes := true

/-- What the run seals. -/
def sealings : List Sealing :=
  markedFrames seed 0 (chunkFrames (c.sent ++ [c.refused])) ++
    markedFrames seed c.sent.length lastFrames

/-- The cipher of the run. -/
def aead : SealingAead :=
  markingAead (c.sealings.map fun s => (s.nonce, s.associatedData, s.ciphertext))

/-- The frames that arrive. -/
def arrived : List Sealing := markedFrames seed 0 (chunkFrames c.sent ++ lastFrames)

/-- The bytes that arrive. -/
def stream : Bytes := fileHeader seed ++ (c.arrived.map Sealing.bytes).flatten

/-- The writer after the refusal. -/
def refusedWriter : VaultWriter FlakySink :=
  { c.run.start with
    sealed := markedFrames seed 0 (chunkFrames (c.sent ++ [c.refused]))
    inner := some
      { taken := fileHeader seed ++
          ((markedFrames seed 0 (chunkFrames c.sent)).map Sealing.bytes).flatten
        failAt := 0 }
    sequence := UInt32.ofNat c.sent.length }

/-! ### The calls -/

theorem hasRoom {n : Nat} (h : n ≤ c.sent.length + 2) : HasRoom seed n := by
  have hfew := c.few
  have hzero : value seed.toBytes = 0 := by decide
  unfold HasRoom
  omega

theorem length_chunkFrames {chunks : List Bytes} :
    (chunkFrames chunks).length = chunks.length := List.length_map _

theorem chunkFrames_le {chunks : List Bytes} (h : ∀ chunk ∈ chunks, chunk.length = chunkSize) :
    ∀ f ∈ chunkFrames chunks, f.2.length ≤ chunkSize := by
  intro f hf
  obtain ⟨chunk, hchunk, rfl⟩ := List.mem_map.mp hf
  exact (h chunk hchunk).le

theorem lastFrames_le : ∀ f ∈ lastFrames, f.2.length ≤ chunkSize := by decide

theorem whole_sent : ∀ chunk ∈ c.sent, chunk.length = chunkSize :=
  fun chunk h => c.whole chunk (List.mem_append_left _ h)

theorem length_refused : c.refused.length = chunkSize :=
  c.whole _ (List.mem_append_right _ List.mem_cons_self)

/-- The chunks of whole chunks. -/
theorem dataFrames_flatten {chunks : List Bytes}
    (h : ∀ chunk ∈ chunks, chunk.length = chunkSize) :
    VaultWriter.dataFrames chunks.flatten = chunkFrames chunks := by
  induction chunks with
  | nil => exact VaultWriter.dataFrames_of_lt VaultWriter.chunkSize_pos
  | cons chunk rest ih =>
      have hchunk := h chunk List.mem_cons_self
      rw [List.flatten_cons, VaultWriter.dataFrames_of_le (by rw [List.length_append]; omega),
        List.take_left' hchunk, List.drop_left' hchunk,
        ih fun other hother => h other (List.mem_cons_of_mem _ hother)]
      rfl

/-- The first input is buffered. -/
theorem write_held : VaultWriter.write c.aead.toAead c.run.start c.held =
    (.ok c.held.length, { c.run.start with pending := c.held }) := by
  have hlive := (c.run.start_numbered c.aead).2.1
  have hpending : c.run.start.pending = [] := rfl
  rw [VaultWriter.write_eq hlive, hpending, List.nil_append,
    VaultWriter.dataFrames_of_lt c.short, remainder_of_lt c.short]
  rfl

/-- The chunks before the last go out, and that is refused. -/
theorem write_chunks :
    VaultWriter.write c.aead.toAead { c.run.start with pending := c.held }
        ((c.sent ++ [c.refused]).flatten.drop c.held.length) =
      (.error (.other (VaultError.io (.os .other)).text), c.refusedWriter) := by
  have hlive : VaultWriter.Live { c.run.start with pending := c.held } :=
    ⟨⟨_, rfl⟩, rfl, c.short⟩
  have hinput : c.held ++ (c.sent ++ [c.refused]).flatten.drop c.held.length =
      (c.sent ++ [c.refused]).flatten := by
    obtain ⟨rest, hrest⟩ := c.begins
    rw [← hrest, List.drop_left]
  have hsent : VaultWriter.writeFrames c.aead.toAead c.run.start (chunkFrames c.sent) = _ :=
    writeFrames_marked _ 0 rfl rfl
      (.inr (by rw [length_chunkFrames]; exact Nat.lt_succ_self _))
      (chunkFrames_le c.whole_sent) (by rw [length_chunkFrames]; exact c.hasRoom (by omega))
  have hroom : HasRoom seed c.sent.length := c.hasRoom (by omega)
  have hseal : sealFrame c.aead.toAead (FixedBytes.replicate 32 0) seed
      (UInt32.ofNat c.sent.length) dataFrame c.refused =
      .ok (markedSealing seed dataFrame (UInt32.ofNat c.sent.length) c.refused) :=
    sealFrame_marking dataFrame c.length_refused.le ((toNat_ofNat_of_room hroom).symm ▸ hroom)
  have hlast : VaultWriter.writeFrames c.aead.toAead
      { c.run.start with
        sealed := markedFrames seed 0 (chunkFrames c.sent)
        inner := some
          { taken := fileHeader seed ++
              ((markedFrames seed 0 (chunkFrames c.sent)).map Sealing.bytes).flatten
            failAt := 1 }
        sequence := UInt32.ofNat c.sent.length } [(dataFrame, c.refused)] =
      (.error (.io (.os .other)), c.refusedWriter) := by
    rw [VaultWriter.writeFrames, VaultWriter.writeFrame]
    dsimp only
    rw [show c.run.start.cipher = FixedBytes.replicate 32 0 from rfl,
      show c.run.start.nonceSeed = seed from rfl, hseal]
    simp only [refusedWriter, chunkFrames, List.map_append, List.map_cons, List.map_nil,
      markedFrames_append, markedFrames, List.length_map, Nat.zero_add]
    rfl
  have hself : { c.run.start with pending := [] } = c.run.start := rfl
  have hfail : 2 * c.sent.length + 1 - 2 * c.sent.length = 1 := by omega
  rw [length_chunkFrames, Nat.zero_add] at hsent
  have hframes : VaultWriter.writeFrames c.aead.toAead c.run.start
      (VaultWriter.dataFrames (c.sent ++ [c.refused]).flatten) =
      (.error (.io (.os .other)), c.refusedWriter) := by
    rw [dataFrames_flatten c.whole, chunkFrames, List.map_append]
    refine (VaultWriter.writeFrames_append hsent _).trans ?_
    dsimp only
    rw [hfail]
    exact hlast
  rw [VaultWriter.write_eq hlive]
  dsimp only
  rw [hself, hinput, hframes]

/-- The last input is buffered. -/
theorem write_three : VaultWriter.write c.aead.toAead c.refusedWriter [3] =
    (.ok 1, { c.refusedWriter with pending := [3] }) := by
  have hlive : c.refusedWriter.Live := ⟨⟨_, rfl⟩, rfl, VaultWriter.chunkSize_pos⟩
  have hpending : c.refusedWriter.pending = [] := rfl
  have hshort : ([3] : Bytes).length < chunkSize := by decide
  rw [VaultWriter.write_eq hlive, hpending, List.nil_append, VaultWriter.dataFrames_of_lt hshort,
    remainder_of_lt hshort]
  rfl

/-- The writer when its frame has taken the place of the refused one. -/
def finishedWriter : VaultWriter FlakySink :=
  { c.refusedWriter with
    sealed := c.sealings
    inner := some { taken := c.stream, failAt := 0 }
    sequence := UInt32.ofNat (c.sent.length + 2), finished := true }

theorem finish_eq :
    VaultWriter.finish c.aead.toAead { c.refusedWriter with pending := [3] } =
      (.ok { taken := c.stream, failAt := 0 }, c.finishedWriter) := by
  have hframes : VaultWriter.finalFrames [3] = lastFrames := by decide
  have hstream : fileHeader seed ++
      ((markedFrames seed 0 (chunkFrames c.sent)).map Sealing.bytes).flatten ++
        ((markedFrames seed c.sent.length lastFrames).map Sealing.bytes).flatten = c.stream := by
    rw [stream, arrived, markedFrames_append, length_chunkFrames, Nat.zero_add, List.map_append,
      List.flatten_append, List.append_assoc]
  have hwritten : VaultWriter.writeFrames c.aead.toAead { c.refusedWriter with pending := [] }
      lastFrames = (.ok (), { c.finishedWriter with finished := false }) := by
    refine Eq.trans (writeFrames_marked _ c.sent.length rfl rfl (.inl rfl) lastFrames_le
      (c.hasRoom le_rfl)) ?_
    rw [finishedWriter, ← hstream]
    rfl
  rw [VaultWriter.finish, VaultWriter.writeFinal_eq]
  dsimp only
  rw [hframes, hwritten]
  rfl

/-! ### The run -/

theorem inputs_eq : c.run.inputs =
    [c.held, (c.sent ++ [c.refused]).flatten.drop c.held.length, [3]] := rfl

theorem afterWrites : (c.run.afterWrites c.aead.toAead).2 =
    { c.refusedWriter with pending := [3] } := by
  rw [WriterRun.afterWrites, inputs_eq]
  simp only [VaultWriter.writes, write_held, write_chunks, write_three]

theorem acknowledged_eq :
    VaultWriter.acknowledged c.aead.toAead c.run.start c.run.inputs = [c.held, [3]] := by
  rw [inputs_eq]
  simp only [VaultWriter.acknowledged, write_held, write_chunks, write_three]

theorem last_eq : c.run.last c.aead.toAead = c.finishedWriter := by
  have hfinishes : c.run.finishes = true := rfl
  rw [WriterRun.last, if_pos hfinishes, afterWrites, finish_eq]

theorem completed : c.run.Completed c.aead.toAead := by
  refine ⟨rfl, { taken := c.stream, failAt := 0 }, ?_⟩
  rw [afterWrites, finish_eq]

theorem written_eq : c.run.written c.aead.toAead = c.stream := by
  rw [WriterRun.written, last_eq]
  rfl

/-- The cipher is ideal for the run. -/
theorem ideal : OpensOnly c.aead.toAead (FixedBytes.replicate 32 0) c.run.nonceSeed
      (c.run.last c.aead.toAead).sealed ∧
    TagsDiffer (c.run.last c.aead.toAead).sealed := by
  have hgenuine : ∀ s ∈ c.sealings, s.Genuine c.aead.toAead (FixedBytes.replicate 32 0) seed := by
    intro s hs
    rcases List.mem_append.mp hs with hs | hs
    · refine genuine_markedFrames (chunkFrames_le c.whole) ?_ s hs
      rw [length_chunkFrames, List.length_append]
      exact c.hasRoom (by simp)
    · exact genuine_markedFrames lastFrames_le (c.hasRoom le_rfl) s hs
  rw [last_eq]
  exact ⟨opensOnly_marking hgenuine rfl, tagsDiffer_marking hgenuine⟩

/-- When a chunk goes out, no byte of the buffer is in a frame that is refused. -/
theorem buffersAccepted (hsent : c.sent ≠ []) :
    VaultWriter.BuffersAccepted c.aead.toAead c.run.start c.run.inputs := by
  rw [inputs_eq]
  simp only [VaultWriter.BuffersAccepted, write_held, write_chunks]
  refine ⟨fun h => absurd rfl h, fun _ first _ sink s hsink _ => ?_, fun h => absurd rfl h,
    trivial⟩
  have hpos : 0 < c.sent.length := List.length_pos_iff.mpr hsent
  have hsame : ({ taken := fileHeader seed, failAt := 2 * c.sent.length + 1 } : FlakySink) = sink :=
    Option.some.inj hsink
  subst hsame
  constructor
  · exact congrArg Prod.fst (if_neg (by dsimp only; omega))
  · have hheader : ∀ b : Bytes, Sink.writeAll
        ({ taken := fileHeader seed, failAt := 2 * c.sent.length + 1 } : FlakySink) b =
          (.ok (), { taken := fileHeader seed ++ b, failAt := 2 * c.sent.length }) :=
      fun b => if_neg (by dsimp only; omega)
    rw [hheader]
    exact congrArg Prod.fst (if_neg (by dsimp only; omega))

/-- What arrives is what was sent, and the three. -/
theorem decode_written (sizes : Nat → Nat) :
    decode c.aead.toAead (FixedBytes.replicate 32 0) sizes (c.run.written c.aead.toAead) =
      .ok (c.sent.flatten ++ [3]) := by
  have hframes : chunkFrames c.sent ++ lastFrames =
      (c.sent ++ [[3]]).map (Prod.mk dataFrame) ++ [(finalFrame, [])] := by
    simp [chunkFrames, lastFrames]
  have hopens : ∀ s ∈ c.arrived, c.aead.decrypt (FixedBytes.replicate 32 0) s.nonce
      s.associatedData s.ciphertext = some s.plaintext := by
    have hseals : (c.run.last c.aead.toAead).sealed = c.sealings := by rw [last_eq]; rfl
    have hall := hseals ▸ c.ideal.1.opens
    intro s hs
    apply hall
    rw [arrived, markedFrames_append, length_chunkFrames, Nat.zero_add] at hs
    rw [sealings, chunkFrames, List.map_append, markedFrames_append]
    rcases List.mem_append.mp hs with hs | hs
    · exact List.mem_append_left _ (List.mem_append_left _ hs)
    · exact List.mem_append_right _ hs
  have hlen : ∀ chunk ∈ c.sent ++ [[3]], chunk.length ≤ chunkSize := by
    intro chunk hchunk
    rcases List.mem_append.mp hchunk with hchunk | hchunk
    · exact (c.whole_sent chunk hchunk).le
    · rw [List.mem_singleton.mp hchunk]
      decide
  rw [arrived, hframes] at hopens
  have hflat : (c.sent ++ [[3]]).flatten = c.sent.flatten ++ [3] := by simp
  obtain ⟨frames, last, hread⟩ := framesFrom_marked hlen
    (c.hasRoom (by simp)) hopens
  rw [hflat] at hread
  rw [written_eq, (decode_eq_ok_iff _ _ _ _).1]
  refine ⟨seed, _, frames, last, rfl, ?_⟩
  rw [arrived, hframes]
  exact hread

end Refusal

/-- The byte in the buffer begins the chunk that is refused. -/
def lostByte : Refusal where
  held := [1]
  sent := []
  refused := 1 :: List.replicate (chunkSize - 1) 2
  short := by decide
  begins := ⟨List.replicate (chunkSize - 1) 2, by simp⟩
  whole := by simp [Nat.sub_add_cancel (show 1 ≤ chunkSize from VaultWriter.chunkSize_pos)]
  few := by decide

/-- The byte in the buffer begins a chunk that goes out; the one behind it is refused. -/
def keptByte : Refusal where
  held := [1]
  sent := [1 :: List.replicate (chunkSize - 1) 2]
  refused := List.replicate chunkSize 2
  short := by decide
  begins := ⟨List.replicate (chunkSize - 1) 2 ++ List.replicate chunkSize 2, by simp⟩
  whole := by simp [Nat.sub_add_cancel (show 1 ≤ chunkSize from VaultWriter.chunkSize_pos)]
  few := by decide

/-- The theorem at a run in which acknowledged bytes stand in front of a frame that goes
out, and the frame behind it is refused. -/
theorem acknowledged_kept_sample :
    AppearInOrder (VaultWriter.acknowledged keptByte.aead.toAead keptByte.run.start
      keptByte.run.inputs) (keptByte.sent.flatten ++ [3]) := by
  obtain ⟨hopens, htags⟩ := keptByte.ideal
  refine acknowledged_kept keptByte.aead keptByte.run (fun _ => 8) hopens htags ?_
    keptByte.completed (keptByte.decode_written _)
  have hsent : keptByte.sent ≠ [] := List.cons_ne_nil _ _
  exact keptByte.buffersAccepted hsent

/-- **A byte that a `write` has acknowledged** goes with the chunk that the sink refuses. -/
theorem acknowledged_byte_lost :
    OpensOnly lostByte.aead.toAead (FixedBytes.replicate 32 0) lostByte.run.nonceSeed
        (lostByte.run.last lostByte.aead.toAead).sealed ∧
      TagsDiffer (lostByte.run.last lostByte.aead.toAead).sealed ∧
      lostByte.run.Completed lostByte.aead.toAead ∧
      decode lostByte.aead.toAead (FixedBytes.replicate 32 0) (fun _ => 8)
        (lostByte.run.written lostByte.aead.toAead) = .ok [3] ∧
      VaultWriter.acknowledged lostByte.aead.toAead lostByte.run.start lostByte.run.inputs =
        [[1], [3]] ∧
      ¬ AppearInOrder [[1], [3]] [3] := by
  obtain ⟨hopens, htags⟩ := lostByte.ideal
  refine ⟨hopens, htags, lostByte.completed, lostByte.decode_written _,
    lostByte.acknowledged_eq, ?_⟩
  rintro ⟨before, after, hwhole, _⟩
  have hmem : (1 : UInt8) ∈ ([3] : Bytes) := by
    rw [hwhole]
    simp
  exact absurd hmem (by decide)

end CodexVault
