import CodexVault.VaultReader

/-!
# Runs of the vault reader

A caller drives a `VaultReader` by a list of `read` calls, or lets
`verifyFinished` drain it.  `readStream` is a caller that stops at the first
error or at the end of the stream.  All three are described by `remaining`: the
calls deliver pieces of it in order and end the way it ends.
-/

namespace CodexVault

open ByteStrings

/-- How a caller's loop of `read` calls ended. -/
inductive StreamEnd where
  /-- The caller made no further call. -/
  | stopped
  /-- A call with a non-empty buffer returned `Ok(0)`. -/
  | endOfStream
  | failed (error : IoError)
  deriving DecidableEq

namespace VaultReader

variable {R : Type} [Source R] (A : Aead)

/-- Successive `read` calls with buffers of the given sizes. -/
def reads (r : VaultReader R) : List Nat → List (Except IoError Bytes) × VaultReader R
  | [] => ([], r)
  | size :: rest =>
      let first := read A r size
      let others := reads first.2 rest
      (first.1 :: others.1, others.2)

/-- Successive `read` calls up to the first error or the end of the stream: the
bytes delivered and how it ended. -/
def readStream (r : VaultReader R) : List Nat → Bytes × StreamEnd
  | [] => ([], .stopped)
  | size :: rest =>
      match read A r size with
      | (.error e, _) => ([], .failed e)
      | (.ok b, r') =>
          if b = [] ∧ size ≠ 0 then ([], .endOfStream)
          else (b ++ (readStream r' rest).1, (readStream r' rest).2)

/-- The buffer of `io::copy`. -/
def copyBuffer : Nat := 8 * 1024

theorem copyBuffer_ne : copyBuffer ≠ 0 := by decide

variable {A}

/-- The frame loop either advances the counter or stops where it began; without
a frame it can only fail with an integrity error. -/
theorem fill_progress (r : VaultReader R) :
    (fill A r).2.framesLeft < r.framesLeft ∨
      (fill A r = (.ok (), r)) ∨
      ∃ message inner, fill A r = (.error (ioIntegrity message), { r with inner := inner }) := by
  fun_induction fill A r with
  | case1 r hr e r' h =>
      rcases readNextFrame_cases A r with ⟨e', inner, hload, hrun⟩ |
        ⟨frame, inner, e', inner', hload, hrun⟩ | ⟨p, inner, inner', hload, _, hrun⟩ |
        ⟨t, p, inner, _, hload, hrun⟩
      · obtain ⟨message, rfl⟩ := loadFrame_error hload
        rw [h] at hrun
        exact .inr (.inr ⟨message, inner, hrun⟩)
      · rw [h] at hrun
        refine .inl (framesLeft_succ (sequence_ne_of_loadFrame hload) _ ?_)
        exact congrArg (·.2.sequence) hrun
      · rw [h] at hrun
        cases congrArg Prod.fst hrun
      · rw [h] at hrun
        cases congrArg Prod.fst hrun
  | case2 r hr r' h ih =>
      have hlt := framesLeft_lt A h
      rcases ih with hlt' | heq | ⟨message, inner, heq⟩
      · exact .inl (hlt'.trans hlt)
      · exact .inl (by rw [heq]; exact hlt)
      · exact .inl (by rw [heq]; exact hlt)
  | case3 r hr => exact .inr (.inl rfl)

/-- A read that delivers bytes, or fails with anything but an integrity error,
uses up frames or bytes of the current frame. -/
theorem read_progress {r : VaultReader R} {size : Nat} (hsize : size ≠ 0)
    (h : (∃ b, (read A r size).1 = .ok b ∧ b ≠ []) ∨
      ∃ e, (read A r size).1 = .error e ∧ e.kind = .interrupted) :
    (read A r size).2.framesLeft < r.framesLeft ∨
      ((read A r size).2.framesLeft = r.framesLeft ∧
        (read A r size).2.plaintext.length - (read A r size).2.plaintextOffset <
          r.plaintext.length - r.plaintextOffset) := by
  have hfill := fill_progress (A := A) r
  unfold read at h ⊢
  rw [if_neg hsize] at h ⊢
  cases hrun : fill A r with
  | mk result r' =>
      rw [hrun] at h hfill
      cases result with
      | error e =>
          rcases hfill with hlt | heq | ⟨message, inner, heq⟩
          · exact .inl hlt
          · cases congrArg Prod.fst heq
          · -- an integrity error is not retried
            cases congrArg Prod.fst heq
            rcases h with ⟨b, hb, _⟩ | ⟨e, he, hkind⟩
            · cases hb
            · cases he
              cases hkind
      | ok u =>
          dsimp only at h ⊢ hfill
          by_cases hfin : r'.finalized = true
          · rw [if_pos hfin] at h
            rcases h with ⟨b, hb, hne⟩ | ⟨e, he, _⟩
            · cases hb
              exact absurd rfl hne
            · cases he
          · rw [if_neg hfin] at h ⊢
            rcases hfill with hlt | heq | ⟨message, inner, heq⟩
            · exact .inl hlt
            · cases congrArg Prod.snd heq
              refine .inr ⟨rfl, ?_⟩
              rcases h with ⟨b, hb, hne⟩ | ⟨e, he, _⟩
              · have hlen := List.length_pos_iff.mpr hne
                rw [← Except.ok.inj hb, List.length_take, List.length_drop] at hlen
                simp only [List.length_drop]
                omega
              · cases he
            · cases congrArg Prod.fst heq

variable (A)

/-- `io::copy(&mut self, &mut io::sink())`: read until `Ok(0)`, trying again
after an interruption. -/
def copy (r : VaultReader R) : Except IoError Unit × VaultReader R :=
  match _h : read A r copyBuffer with
  | (.error e, r') => if _hkind : e.kind = .interrupted then copy r' else (.error e, r')
  | (.ok b, r') => if _hb : b = [] then (.ok (), r') else copy r'
termination_by (r.framesLeft, r.plaintext.length - r.plaintextOffset)
decreasing_by
  · have hprog := read_progress (A := A) (r := r) copyBuffer_ne
      (.inr ⟨e, by rw [_h], _hkind⟩)
    rw [_h] at hprog
    exact Prod.lex_def.mpr hprog
  · have hprog := read_progress (A := A) (r := r) copyBuffer_ne
      (.inl ⟨b, by rw [_h], _hb⟩)
    rw [_h] at hprog
    exact Prod.lex_def.mpr hprog

/-- `VaultReader::verify_finished`. -/
def verifyFinished (r : VaultReader R) : Except VaultError Unit :=
  match copy A r with
  | (.error e, _) => .error (mapReadError e)
  | (.ok (), r) =>
      if r.finalized then .ok () else .error (.integrity "encrypted vault is truncated")

variable {A}

theorem read_zero (r : VaultReader R) : read A r 0 = (.ok [], r) := if_pos rfl

/-- **Reading a good stream.**  When what remains ends well, calls with
non-empty buffers deliver non-empty pieces of it in order, and then `Ok(0)` for
ever. -/
theorem reads_of_good {r : VaultReader R} (hend : (remaining A r).2 = none) {sizes : List Nat}
    (hsizes : ∀ size ∈ sizes, size ≠ 0) :
    ∃ (pieces : List Bytes) (rest : Nat),
      (reads A r sizes).1 = pieces.map .ok ++ List.replicate rest (.ok []) ∧
      (∀ b ∈ pieces, b ≠ []) ∧
      (remaining A r).1 = pieces.flatten ++ (remaining A (reads A r sizes).2).1 ∧
      (remaining A (reads A r sizes).2).2 = none ∧
      (rest ≠ 0 → (remaining A (reads A r sizes).2).1 = []) := by
  induction sizes generalizing r with
  | nil => exact ⟨[], 0, rfl, by simp, rfl, hend, fun h => absurd rfl h⟩
  | cons size sizes ih =>
      have hsize := hsizes size List.mem_cons_self
      have hrest := fun s hs => hsizes s (List.mem_cons_of_mem _ hs)
      simp only [reads]
      by_cases hnil : (remaining A r).1 = []
      · rcases read_nil hsize hnil with ⟨_, hok, hfin⟩ | ⟨e, he, _⟩
        · have hrem := remaining_of_finalized (A := A) hfin
          obtain ⟨pieces, rest, hres, hne, hflat, hend', hdone⟩ :=
            ih (by rw [hrem]) hrest
          rw [hrem] at hflat
          -- nothing is left, so there is no further piece
          obtain ⟨hp, hr⟩ := List.append_eq_nil_iff.mp hflat.symm
          have hpieces : pieces = [] := by
            cases pieces with
            | nil => rfl
            | cons b bs =>
                rw [List.flatten_cons] at hp
                exact absurd (List.append_eq_nil_iff.mp hp).1 (hne b List.mem_cons_self)
          subst hpieces
          refine ⟨[], rest + 1, ?_, by simp, by rw [hnil, hr]; rfl, hend', fun _ => hr⟩
          rw [hok, hres]
          rfl
        · rw [hend] at he
          cases he
      · obtain ⟨b, hok, hb, _, hrem, hend1⟩ := read_cons hsize hnil
        obtain ⟨pieces, rest, hres, hne, hflat, hend', hdone⟩ := ih (hend1.trans hend) hrest
        refine ⟨b :: pieces, rest, ?_, ?_, ?_, hend', hdone⟩
        · rw [hok, hres]
          rfl
        · intro b' hb'
          rcases List.mem_cons.mp hb' with rfl | hb'
          · exact hb
          · exact hne b' hb'
        · rw [hrem, hflat, List.flatten_cons, List.append_assoc]

/-- On a good stream a call delivers the next bytes or reports the end. -/
theorem read_of_good {r : VaultReader R} (hend : (remaining A r).2 = none) {size : Nat}
    (hsize : size ≠ 0) :
    ∃ b, (read A r size).1 = .ok b ∧ (remaining A (read A r size).2).2 = none ∧
      (b = [] → (read A r size).2.finalized = true) := by
  by_cases hnil : (remaining A r).1 = []
  · rcases read_nil hsize hnil with ⟨_, hok, hfin⟩ | ⟨e, he, _⟩
    · exact ⟨[], hok, by rw [remaining_of_finalized hfin], fun _ => hfin⟩
    · rw [hend] at he
      cases he
  · obtain ⟨b, hok, hb, _, _, hend'⟩ := read_cons hsize hnil
    exact ⟨b, hok, hend'.trans hend, fun h => absurd h hb⟩

/-- `io::copy` reads a good stream to its end. -/
theorem copy_of_good {r : VaultReader R} (hend : (remaining A r).2 = none) :
    (copy A r).1 = .ok () ∧ (copy A r).2.finalized = true := by
  fun_induction copy A r with
  | case1 r e r' h hkind ih =>
      obtain ⟨b, hok, _⟩ := read_of_good hend copyBuffer_ne
      rw [h] at hok
      cases hok
  | case2 r e r' h hkind =>
      obtain ⟨b, hok, _⟩ := read_of_good hend copyBuffer_ne
      rw [h] at hok
      cases hok
  | case3 r r' h =>
      obtain ⟨b, hok, _, hfin⟩ := read_of_good hend copyBuffer_ne
      rw [h] at hok hfin
      cases hok
      exact ⟨rfl, hfin rfl⟩
  | case4 r b r' h hb ih =>
      obtain ⟨_, _, hend', _⟩ := read_of_good hend copyBuffer_ne
      rw [h] at hend'
      exact ih hend'

/-- **Draining a good stream succeeds.** -/
theorem verifyFinished_of_good {r : VaultReader R} (hend : (remaining A r).2 = none) :
    verifyFinished A r = .ok () := by
  have hcopy := copy_of_good hend
  unfold verifyFinished
  cases hrun : copy A r with
  | mk result r' =>
      rw [hrun] at hcopy
      obtain ⟨rfl, hfin⟩ := hcopy
      exact if_pos hfin

/-- **A caller's loop** delivers a prefix of what remains; when it reaches the
end of the stream or an error it has delivered all of it. -/
theorem readStream_spec (r : VaultReader R) (sizes : List Nat) :
    (readStream A r sizes).1 <+: (remaining A r).1 ∧
      ((readStream A r sizes).2 = .endOfStream →
        remaining A r = ((readStream A r sizes).1, none)) ∧
      (∀ e, (readStream A r sizes).2 = .failed e →
        remaining A r = ((readStream A r sizes).1, some e)) := by
  induction sizes generalizing r with
  | nil =>
      refine ⟨List.nil_prefix, ?_, ?_⟩
      · intro h
        cases h
      · intro e h
        cases h
  | cons size sizes ih =>
      rw [readStream]
      by_cases hsize : size = 0
      · subst hsize
        rw [read_zero]
        simpa using ih r
      · by_cases hnil : (remaining A r).1 = []
        · rcases read_nil hsize hnil with ⟨hend, hok, _⟩ | ⟨e, he, herr⟩
          · cases hrun : read A r size with
            | mk result r' =>
                rw [hrun] at hok
                dsimp only at hok
                subst hok
                dsimp only
                rw [if_pos ⟨rfl, hsize⟩]
                refine ⟨List.nil_prefix, fun _ => Prod.ext hnil hend, ?_⟩
                intro e h
                cases h
          · cases hrun : read A r size with
            | mk result r' =>
                rw [hrun] at herr
                dsimp only at herr
                subst herr
                refine ⟨List.nil_prefix, ?_, ?_⟩
                · intro h
                  cases h
                · intro e' h
                  cases h
                  exact Prod.ext hnil he
        · obtain ⟨b, hok, hb, _, hrem, hend⟩ := read_cons hsize hnil
          cases hrun : read A r size with
          | mk result r' =>
              rw [hrun] at hok hrem hend
              dsimp only at hok hrem hend
              subst hok
              obtain ⟨hpre, hdone, hfailed⟩ := ih r'
              dsimp only
              rw [if_neg fun h => hb h.1]
              refine ⟨?_, ?_, ?_⟩
              · rw [hrem]
                exact (List.prefix_append_right_inj b).mpr hpre
              · intro h
                have hr' := hdone h
                rw [hr'] at hrem hend
                exact Prod.ext hrem hend.symm
              · intro e h
                have hr' := hfailed e h
                rw [hr'] at hrem hend
                exact Prod.ext hrem hend.symm

/-- A frame that fails is reported at once. -/
theorem read_of_frame_error {r r' : VaultReader R} {size : Nat} {e : IoError} (hsize : size ≠ 0)
    (hempty : r.plaintext.length ≤ r.plaintextOffset) (hfin : r.finalized = false)
    (h : readNextFrame A r = (.error e, r')) : read A r size = (.error e, r') := by
  have hfill : fill A r = (.error e, r') := by
    rw [fill, if_pos ⟨hempty, hfin⟩]
    split
    · next heq =>
        rw [h] at heq
        exact heq.symm
    · next heq =>
        rw [h] at heq
        cases heq
  unfold read
  rw [if_neg hsize, hfill]

/-! ## Invariants of a reader -/

/-- `I` is kept by frames that load and by handing out bytes, and a frame that
fails leads from `I` to `J`. -/
structure FrameRule (A : Aead) (I J : VaultReader R → Prop) : Prop where
  ok : ∀ r r', r.finalized = false → I r → readNextFrame A r = (.ok (), r') → I r'
  error : ∀ r e r', r.finalized = false → I r → readNextFrame A r = (.error e, r') → J r'
  offset : ∀ r k, I r → I { r with plaintextOffset := k }

variable {I J : VaultReader R → Prop}

theorem FrameRule.fill (hrule : FrameRule A I J) {r : VaultReader R} (h : I r) :
    ((fill A r).1 = .ok () → I (fill A r).2) ∧
      ∀ e, (fill A r).1 = .error e → J (fill A r).2 := by
  fun_induction VaultReader.fill A r with
  | case1 r hr e r' hrun =>
      exact ⟨fun h' => (by cases h'), fun e' _ => hrule.error r e r' hr.2 h hrun⟩
  | case2 r hr r' hrun ih => exact ih (hrule.ok r r' hr.2 h hrun)
  | case3 r hr => exact ⟨fun _ => h, fun e h' => by cases h'⟩

theorem FrameRule.read (hrule : FrameRule A I J) {r : VaultReader R} (h : I r) (size : Nat) :
    (∀ b, (read A r size).1 = .ok b → I (read A r size).2) ∧
      ∀ e, (read A r size).1 = .error e → J (read A r size).2 := by
  have hfill := hrule.fill h
  unfold VaultReader.read
  by_cases hsize : size = 0
  · rw [if_pos hsize]
    exact ⟨fun _ _ => h, fun e h' => by cases h'⟩
  · rw [if_neg hsize]
    cases hrun : VaultReader.fill A r with
    | mk result r' =>
        rw [hrun] at hfill
        cases result with
        | error e => exact ⟨fun b h' => (by cases h'), fun e' _ => hfill.2 e rfl⟩
        | ok u =>
            have hr' := hfill.1 rfl
            dsimp only
            split
            · exact ⟨fun _ _ => hr', fun e h' => by cases h'⟩
            · exact ⟨fun _ _ => hrule.offset _ _ hr', fun e h' => by cases h'⟩

/-- **Any calls.**  Without a failed call `I` holds at the end, and `J` holds from
the first failed call on. -/
theorem FrameRule.reads (hrule : FrameRule A I J) (hrule' : FrameRule A J J)
    {r : VaultReader R} (h : I r) (sizes : List Nat) :
    ((∀ result ∈ (reads A r sizes).1, ∃ b, result = .ok b) → I (reads A r sizes).2) ∧
      ((¬ ∀ result ∈ (reads A r sizes).1, ∃ b, result = .ok b) → J (reads A r sizes).2) := by
  have hafter : ∀ (sizes : List Nat) (r : VaultReader R), J r →
      J (VaultReader.reads A r sizes).2 := by
    intro sizes
    induction sizes with
    | nil => exact fun _ hr => hr
    | cons size rest ih =>
        intro r hr
        apply ih
        cases hread : (VaultReader.read A r size).1 with
        | ok b => exact (hrule'.read hr size).1 b hread
        | error e => exact (hrule'.read hr size).2 e hread
  induction sizes generalizing r with
  | nil => exact ⟨fun _ => h, fun hnot => absurd (fun _ hmem => by cases hmem) hnot⟩
  | cons size rest ih =>
      cases hread : (VaultReader.read A r size).1 with
      | ok b =>
          have hnext := ih ((hrule.read h size).1 b hread)
          have hiff : (∀ result ∈ (VaultReader.reads A r (size :: rest)).1, ∃ b, result = .ok b) ↔
              ∀ result ∈ (VaultReader.reads A (VaultReader.read A r size).2 rest).1,
                ∃ b, result = .ok b := by
            simp [VaultReader.reads, hread]
          rw [hiff]
          exact hnext
      | error e =>
          have hnot : ¬ ∀ result ∈ (VaultReader.reads A r (size :: rest)).1,
              ∃ b, result = .ok b := by
            simp [VaultReader.reads, hread]
          exact ⟨fun hall => absurd hall hnot,
            fun _ => hafter rest _ ((hrule.read h size).2 e hread)⟩

/-- Draining, where no call is interrupted. -/
theorem FrameRule.copy (hrule : FrameRule A I J)
    (hkind : ∀ (r : VaultReader R) size e, (VaultReader.read A r size).1 = .error e →
      e.kind ≠ .interrupted)
    {r : VaultReader R} (h : I r) (hok : (copy A r).1 = .ok ()) : I (copy A r).2 := by
  fun_induction VaultReader.copy A r with
  | case1 r e r' hrun hinterrupted ih =>
      exact absurd hinterrupted (hkind r copyBuffer e (by rw [hrun]))
  | case2 r e r' hrun hinterrupted => cases hok
  | case3 r r' hrun =>
      have hread := (hrule.read h copyBuffer).1 [] (by rw [hrun])
      rwa [hrun] at hread
  | case4 r b r' hrun hb ih =>
      have hread := (hrule.read h copyBuffer).1 b (by rw [hrun])
      rw [hrun] at hread
      exact ih hread hok

theorem copy_of_verifyFinished {r : VaultReader R} (h : verifyFinished A r = .ok ()) :
    (copy A r).1 = .ok () ∧ (copy A r).2.finalized = true := by
  unfold verifyFinished at h
  cases hrun : VaultReader.copy A r with
  | mk result r' =>
      rw [hrun] at h
      cases result with
      | error e => cases h
      | ok u =>
          dsimp only at h
          split at h
          · next hfin => exact ⟨rfl, hfin⟩
          · cases h

end VaultReader

end CodexVault
