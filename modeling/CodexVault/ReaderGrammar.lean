import CodexVault.StreamRoundTrip

/-!
# The grammar of vault streams

`VaultStream` says which byte strings are vault streams under a key, and of which
plaintext, frame by frame and without a reader.  `loadFrame_eq_ok_iff` is the
rule for one frame, `upcoming_eq_iff` carries it along the stream, and
`decode_eq_ok_iff` concludes that the reader accepts the grammar and nothing else.

The cipher is arbitrary: nothing is assumed of what opens.
-/

namespace CodexVault

open ByteStrings

/-- The header of frame `i`. -/
def headerBytes (frameType : UInt8) (i length : Nat) : Bytes :=
  frameType :: (bigEndian 4 i ++ bigEndian 4 length)

/-- The nonce of frame `i`. -/
def nonceAt (seed : FixedBytes 12) (i : Nat) : FixedBytes 12 :=
  ⟨bigEndian 12 (value seed.toBytes + i), length_bigEndian _ _⟩

/-- A frame: the length in its header, its ciphertext, and what that opens to. -/
structure Frame where
  length : Nat
  ciphertext : Bytes
  plaintext : Bytes

/-- The frame as frame `i` of a stream. -/
def Frame.bytesAt (f : Frame) (frameType : UInt8) (i : Nat) : Bytes :=
  headerBytes frameType i f.length ++ f.ciphertext

section

variable (A : Aead) (key : Key) (seed : FixedBytes 12)

/-- The ciphertext is a tag longer than the length says and opens in place `i`. -/
structure Frame.OpensAt (f : Frame) (frameType : UInt8) (i : Nat) : Prop where
  length_ciphertext : f.ciphertext.length = f.length + tagLength
  opens : A.decrypt key (nonceAt seed i) (fileHeader seed ++ headerBytes frameType i f.length)
    f.ciphertext = some f.plaintext

/-- Data frames from number `i` on. -/
def dataBytes : Nat → List Frame → Bytes
  | _, [] => []
  | i, f :: rest => f.bytesAt dataFrame i ++ dataBytes (i + 1) rest

/-- Data frames from number `i` on and one final frame, with nothing after it. -/
structure FramesFrom (i : Nat) (b plaintext : Bytes) (frames : List Frame) (last : Frame) :
    Prop where
  bytes_eq : b = dataBytes i frames ++ last.bytesAt finalFrame (i + frames.length)
  data : ∀ (k : Nat) (f : Frame), frames[k]? = some f →
    f.length ≤ chunkSize ∧ f.OpensAt A key seed dataFrame (i + k)
  length_last : last.length = 0
  last : last.OpensAt A key seed finalFrame (i + frames.length)
  number : i + frames.length ≤ 2 ^ 32 - 2
  nonce : value seed.toBytes + (i + frames.length) < 2 ^ 96
  plaintext_eq : plaintext = (frames.map Frame.plaintext).flatten

end

/-- `S` is a vault stream of `P`: the magic, a seed, data frames numbered from
zero and one final frame. -/
def VaultStream (A : Aead) (key : Key) (S P : Bytes) : Prop :=
  ∃ (seed : FixedBytes 12) (body : Bytes) (frames : List Frame) (last : Frame),
    S = magic ++ seed.toBytes ++ body ∧ FramesFrom A key seed 0 body P frames last

/-! ## One frame -/

/-- A header is its three fields. -/
theorem headerBytes_parse (header : FixedBytes 9) :
    header.toBytes = headerBytes (parseFrameHeader header).frameType
      (parseFrameHeader header).sequence.toNat (parseFrameHeader header).length := by
  obtain ⟨b, hb⟩ := header
  match b, hb with
  | [t, s0, s1, s2, s3, l0, l1, l2, l3], _ =>
      have hs := bigEndian_value [s0, s1, s2, s3]
      have hl := bigEndian_value [l0, l1, l2, l3]
      have hlt : value [s0, s1, s2, s3] < 256 ^ 4 := value_lt [s0, s1, s2, s3]
      have hpow : 256 ^ 4 = UInt32.size := by decide
      rw [hpow] at hlt
      have hof : (UInt32.ofNat (value [s0, s1, s2, s3])).toNat = value [s0, s1, s2, s3] :=
        UInt32.toNat_ofNat_of_lt' hlt
      change _ = t :: (bigEndian 4 (UInt32.ofNat (value [s0, s1, s2, s3])).toNat ++
        bigEndian 4 (value [l0, l1, l2, l3]))
      rw [hof]
      exact congrArg (t :: ·) (congrArg₂ (· ++ ·) hs.symm hl.symm)

theorem length_headerBytes (frameType : UInt8) (i length : Nat) :
    (headerBytes frameType i length).length = 9 := by
  simp [headerBytes]

theorem nonceAt_eq {seed nonce : FixedBytes 12} {sequence : UInt32}
    (h : nonceBytes seed sequence = .ok nonce) : nonceAt seed sequence.toNat = nonce := by
  have hvalue := value_of_nonceBytes h
  have hbytes := bigEndian_value nonce.toBytes
  rw [nonce.length_toBytes, hvalue] at hbytes
  exact FixedBytes.ext hbytes

/-- The kind of a frame and the lengths it may have. -/
def FrameKind (frameType : UInt8) (length : Nat) : Prop :=
  (frameType = dataFrame ∧ length ≤ chunkSize) ∨ (frameType = finalFrame ∧ length = 0)

theorem FrameKind.length_le {frameType : UInt8} {length : Nat} (h : FrameKind frameType length) :
    length ≤ chunkSize := by
  rcases h with ⟨_, h⟩ | ⟨_, h⟩ <;> omega

/-- **One frame.**  The reader loads exactly the frames of the grammar. -/
theorem loadFrame_eq_ok_iff {A : Aead} {key : Key} {seed : FixedBytes 12} {sequence : UInt32}
    {inner inner' : Bytes} {frameType : UInt8} {plaintext : Bytes} :
    loadFrame A key seed sequence inner = (.ok (frameType, plaintext), inner') ↔
      ∃ f : Frame, f.plaintext = plaintext ∧ FrameKind frameType f.length ∧
        f.OpensAt A key seed frameType sequence.toNat ∧ HasRoom seed sequence.toNat ∧
        inner = f.bytesAt frameType sequence.toNat ++ inner' := by
  constructor
  · intro h
    obtain ⟨hne, header, middle, ciphertext, nonce, hread, hcheck, rfl, hbody, hnonce, hdec⟩ :=
      loadFrame_ok h
    obtain ⟨hseq, hkind⟩ := checkHeader_eq_none.mp hcheck
    have hheader := headerBytes_parse header
    rw [hseq] at hnonce hheader
    refine ⟨⟨(parseFrameHeader header).length, ciphertext.toBytes, plaintext⟩, rfl, hkind,
      ⟨ciphertext.length_toBytes, ?_⟩, ?_, ?_⟩
    · rw [nonceAt_eq hnonce]
      dsimp only
      rw [← hheader]
      exact hdec
    · have hlt := sequence.toNat_lt
      have hmax : sequence.toNat ≠ u32Max.toNat := fun heq => hne (UInt32.toNat_inj.mp heq)
      rw [u32Max_toNat] at hmax
      exact ⟨by omega, (nonceBytes_isOk_iff _ _).mp ⟨nonce, hnonce⟩⟩
    · rw [readExact_eq_ok hread, readExact_eq_ok hbody, ← List.append_assoc]
      dsimp only [Frame.bytesAt]
      rw [← hheader]
  · rintro ⟨f, rfl, hkind, hopens, hroom, rfl⟩
    have hchunk : chunkSize = 65536 := rfl
    have hlen := hkind.length_le
    obtain ⟨header, hheader⟩ : ∃ header : FixedBytes 9,
        header.toBytes = headerBytes frameType sequence.toNat f.length :=
      ⟨⟨_, length_headerBytes _ _ _⟩, rfl⟩
    have hfields : parseFrameHeader header = ⟨frameType, sequence, f.length⟩ := by
      apply parseFrameHeader_of_frameHeader
      rw [hheader]
      exact frameHeader_eq_ok (by omega)
    have hbody : f.ciphertext.length = (parseFrameHeader header).length + tagLength := by
      rw [hfields]
      exact hopens.length_ciphertext
    have hread1 : Source.readExact (f.bytesAt frameType sequence.toNat ++ inner') 9 =
        (.ok header, f.ciphertext ++ inner') := by
      rw [Frame.bytesAt, ← hheader, List.append_assoc]
      exact readExact_append header (f.ciphertext ++ inner')
    have hread2 := readExact_append ⟨f.ciphertext, hbody⟩ inner'
    have hcheck : checkHeader sequence (parseFrameHeader header) = none := by
      rw [hfields]
      exact checkHeader_eq_none.mpr ⟨rfl, hkind⟩
    obtain ⟨nonce, hnonce⟩ := (nonceBytes_isOk_iff seed sequence).mpr hroom.2
    have hne : sequence ≠ u32Max := by
      rintro rfl
      have hlt := hroom.1
      rw [u32Max_toNat] at hlt
      omega
    have hdec := hopens.opens
    rw [nonceAt_eq hnonce, ← hheader] at hdec
    have hseq : (parseFrameHeader header).sequence = sequence := by rw [hfields]
    have htype : (parseFrameHeader header).frameType = frameType := by rw [hfields]
    generalize f.bytesAt frameType sequence.toNat ++ inner' = input at hread1 ⊢
    rw [loadFrame, hread1]
    dsimp only
    rw [hcheck]
    dsimp only
    rw [hread2]
    dsimp only
    rw [hseq, hnonce]
    dsimp only
    rw [hdec]
    dsimp only
    rw [if_neg hne, htype]

/-! ## Streams of frames -/

section

variable {A : Aead} {key : Key} {seed : FixedBytes 12}

/-- A final frame alone. -/
theorem framesFrom_nil {i : Nat} {b plaintext : Bytes} {last : Frame} :
    FramesFrom A key seed i b plaintext [] last ↔
      b = last.bytesAt finalFrame i ∧ last.length = 0 ∧ last.OpensAt A key seed finalFrame i ∧
        HasRoom seed i ∧ plaintext = [] := by
  constructor
  · rintro ⟨hb, _, hlen, hlast, hnumber, hnonce, hplain⟩
    simp only [List.length_nil, Nat.add_zero] at hb hlast hnumber hnonce
    exact ⟨hb, hlen, hlast, ⟨by omega, hnonce⟩, hplain⟩
  · rintro ⟨hb, hlen, hlast, ⟨hnumber, hnonce⟩, hplain⟩
    refine ⟨hb, fun k f hk => ?_, hlen, hlast, ?_, hnonce, hplain⟩
    · simp at hk
    · rw [List.length_nil]
      omega

/-- A data frame and the frames after it. -/
theorem framesFrom_cons {i : Nat} {b plaintext : Bytes} {f last : Frame} {rest : List Frame} :
    FramesFrom A key seed i b plaintext (f :: rest) last ↔
      f.length ≤ chunkSize ∧ f.OpensAt A key seed dataFrame i ∧
        ∃ b' plaintext', b = f.bytesAt dataFrame i ++ b' ∧ plaintext = f.plaintext ++ plaintext' ∧
          FramesFrom A key seed (i + 1) b' plaintext' rest last := by
  have hlength : i + (f :: rest).length = i + 1 + rest.length := by
    rw [List.length_cons]
    omega
  constructor
  · rintro ⟨hb, hdata, hlen, hlast, hnumber, hnonce, hplain⟩
    obtain ⟨hf, hopens⟩ := hdata 0 f rfl
    rw [hlength] at hb hlast hnumber hnonce
    refine ⟨hf, hopens, dataBytes (i + 1) rest ++ last.bytesAt finalFrame (i + 1 + rest.length),
      (rest.map Frame.plaintext).flatten, ?_, ?_, rfl, ?_, hlen, hlast, hnumber, hnonce, rfl⟩
    · rw [hb, dataBytes, List.append_assoc]
    · rw [hplain, List.map_cons, List.flatten_cons]
    · intro k g hk
      have h := hdata (k + 1) g hk
      rwa [← Nat.add_assoc, Nat.add_right_comm] at h
  · rintro ⟨hf, hopens, b', plaintext', rfl, rfl, hb, hdata, hlen, hlast, hnumber, hnonce, hplain⟩
    rw [← hlength] at hlast hnumber hnonce hb
    refine ⟨?_, fun k g hk => ?_, hlen, hlast, hnumber, hnonce, ?_⟩
    · rw [hb, dataBytes, List.append_assoc]
    · cases k with
      | zero =>
          cases hk
          exact ⟨hf, hopens⟩
      | succ k =>
          have h := hdata k g hk
          rwa [Nat.add_right_comm, Nat.add_assoc] at h
    · rw [hplain, List.map_cons, List.flatten_cons]

end

namespace VaultReader

variable {A : Aead}

/-- A data frame that loads is not final. -/
theorem frameKind_data {frameType : UInt8} {length : Nat} (h : FrameKind frameType length)
    (hne : frameType ≠ finalFrame) : frameType = dataFrame ∧ length ≤ chunkSize := by
  rcases h with h | ⟨htype, _⟩
  · exact h
  · exact absurd htype hne

/-- **The stream.**  What is coming ends well exactly when the source holds the
frames of the grammar from the reader's number on. -/
theorem upcoming_eq_iff {r : VaultReader Bytes} (hfin : r.finalized = false)
    {plaintext : Bytes} :
    upcoming A r = (plaintext, none) ↔
      ∃ frames last, FramesFrom A r.cipher r.nonceSeed r.sequence.toNat r.inner plaintext
        frames last := by
  constructor
  · intro h
    fun_induction upcoming A r generalizing plaintext with
    | case1 r e r' hrun => cases congrArg Prod.snd h
    | case2 r r' hrun hfin' =>
        rcases readNextFrame_cases A r with ⟨e, inner, _, hcase⟩ | ⟨_, _, e, _, _, hcase⟩ |
          ⟨p, inner, inner', hload, hend, hcase⟩ | ⟨t, p, inner, _, _, hcase⟩
        · rw [hrun] at hcase
          cases congrArg Prod.fst hcase
        · rw [hrun] at hcase
          cases congrArg Prod.fst hcase
        · obtain ⟨f, _, hkind, hopens, hroom, hinner⟩ := loadFrame_eq_ok_iff.mp hload
          have hnil : inner = [] := by
            have htake : inner.take 1 = [] := Except.ok.inj (congrArg Prod.fst hend)
            simpa using htake
          have hlen : f.length = 0 := by
            rcases hkind with ⟨htype, _⟩ | ⟨_, hlen⟩
            · exact absurd htype (by decide)
            · exact hlen
          rw [hnil, List.append_nil] at hinner
          refine ⟨[], f, framesFrom_nil.mpr ⟨hinner, hlen, hopens, hroom, ?_⟩⟩
          exact (congrArg Prod.fst h).symm
        · rw [hrun] at hcase
          have hfalse : r'.finalized = r.finalized := congrArg (·.2.finalized) hcase
          rw [hfin, hfin'] at hfalse
          cases hfalse
    | case3 r r' hrun hfin' ih =>
        rcases readNextFrame_cases A r with ⟨e, inner, _, hcase⟩ | ⟨_, _, e, _, _, hcase⟩ |
          ⟨p, inner, inner', hload, hend, hcase⟩ | ⟨t, p, inner, htype, hload, hcase⟩
        · rw [hrun] at hcase
          cases congrArg Prod.fst hcase
        · rw [hrun] at hcase
          cases congrArg Prod.fst hcase
        · rw [hrun] at hcase
          exact absurd (congrArg (·.2.finalized) hcase) hfin'
        · have hne := sequence_ne_of_loadFrame hload
          obtain ⟨f, hplain, hkind, hopens, hroom, hinner⟩ := loadFrame_eq_ok_iff.mp hload
          obtain ⟨rfl, hlen⟩ := frameKind_data hkind htype
          rw [hrun] at hcase
          cases congrArg Prod.snd hcase
          obtain ⟨hfst, hsnd⟩ := Prod.mk.inj h
          obtain ⟨frames, last, hrest⟩ := ih hfin (Prod.ext rfl hsnd)
          dsimp only at hrest
          rw [toNat_succ hne] at hrest
          refine ⟨f :: frames, last, framesFrom_cons.mpr ⟨hlen, hopens, _, _, hinner, ?_, hrest⟩⟩
          rw [hplain]
          exact hfst.symm
  · rintro ⟨frames, last, h⟩
    induction frames generalizing r plaintext with
    | nil =>
        obtain ⟨hinner, hlen, hopens, hroom, rfl⟩ := framesFrom_nil.mp h
        apply upcoming_of_finalFrame (b := last.plaintext)
        refine loadFrame_eq_ok_iff.mpr ⟨last, rfl, .inr ⟨rfl, hlen⟩, hopens, hroom, ?_⟩
        rw [hinner, List.append_nil]
    | cons f rest ih =>
        obtain ⟨hlen, hopens, b', plaintext', hinner, rfl, hrest⟩ := framesFrom_cons.mp h
        have hroom : HasRoom r.nonceSeed r.sequence.toNat := by
          have hnumber := hrest.number
          have hnonce := hrest.nonce
          exact ⟨by omega, by omega⟩
        have hload : loadFrame A r.cipher r.nonceSeed r.sequence r.inner =
            (.ok (dataFrame, f.plaintext), b') :=
          loadFrame_eq_ok_iff.mpr ⟨f, rfl, .inl ⟨rfl, hlen⟩, hopens, hroom, hinner⟩
        have hne := sequence_ne_of_loadFrame hload
        rw [← toNat_succ hne] at hrest
        have hnext := ih (r := { r with
          inner := b', sequence := r.sequence + 1, plaintext := f.plaintext,
          plaintextOffset := 0 }) hfin hrest
        rw [upcoming_of_dataFrame hfin hload, hnext]

/-- Over a byte string the only errors are integrity errors. -/
theorem upcoming_error {r : VaultReader Bytes} {e : IoError}
    (h : (upcoming A r).2 = some e) : ∃ message, e = ioIntegrity message := by
  fun_induction upcoming A r with
  | case1 r e' r' hrun =>
      cases h
      rcases readNextFrame_cases A r with
        ⟨e, inner, hload, hcase⟩ | ⟨frame, inner, e, _, hload, _⟩ |
        ⟨p, inner, inner', _, _, hcase⟩ | ⟨t, p, inner, _, _, hcase⟩
      · rw [hrun] at hcase
        cases congrArg Prod.fst hcase
        exact loadFrame_error hload
      · unfold readNextFrame at hrun
        rw [hload] at hrun
        dsimp only at hrun
        split at hrun
        · have hread : Source.read inner 1 = (.ok (inner.take 1), inner.drop 1) := rfl
          rw [hread] at hrun
          dsimp only at hrun
          split at hrun
          · cases congrArg Prod.fst hrun
            exact ⟨_, rfl⟩
          · cases congrArg Prod.fst hrun
        · cases congrArg Prod.fst hrun
      · rw [hrun] at hcase
        cases congrArg Prod.fst hcase
      · rw [hrun] at hcase
        cases congrArg Prod.fst hcase
  | case2 r r' hrun hfin => cases h
  | case3 r r' hrun hfin ih => exact ih h

theorem remaining_error {r : VaultReader Bytes} {e : IoError}
    (h : (remaining A r).2 = some e) : ∃ message, e = ioIntegrity message := by
  unfold remaining at h
  split at h
  · cases h
  · exact upcoming_error h

theorem read_error {r : VaultReader Bytes} {size : Nat} {e : IoError}
    (h : (read A r size).1 = .error e) : ∃ message, e = ioIntegrity message := by
  by_cases hsize : size = 0
  · subst hsize
    rw [read_zero] at h
    cases h
  · by_cases hnil : (remaining A r).1 = []
    · rcases read_nil hsize hnil with ⟨_, hok, _⟩ | ⟨e', hend, herr⟩
      · rw [hok] at h
        cases h
      · rw [herr] at h
        cases h
        exact remaining_error hend
    · obtain ⟨b, hok, _⟩ := read_cons hsize hnil
      rw [hok] at h
      cases h

/-! ## Reading to the end -/

variable {R : Type} [Source R] (A)

/-- Calls with buffers of `sizes k + 1` bytes up to the end of the stream or the
first error, an interruption being tried again: `read_to_end` and `io::copy`. -/
def readToEnd (sizes : Nat → Nat) (k : Nat) (r : VaultReader R) : Bytes × Option IoError :=
  match _h : read A r (sizes k + 1) with
  | (.error e, r') =>
      if _hkind : e.kind = .interrupted then readToEnd sizes (k + 1) r' else ([], some e)
  | (.ok b, r') =>
      if _hb : b = [] then ([], none)
      else (b ++ (readToEnd sizes (k + 1) r').1, (readToEnd sizes (k + 1) r').2)
termination_by (r.framesLeft, r.plaintext.length - r.plaintextOffset)
decreasing_by
  · have hprog := read_progress (A := A) (r := r) (Nat.succ_ne_zero (sizes k))
      (.inr ⟨e, by rw [_h], _hkind⟩)
    rw [_h] at hprog
    exact Prod.lex_def.mpr hprog
  all_goals
    have hprog := read_progress (A := A) (r := r) (Nat.succ_ne_zero (sizes k))
      (.inl ⟨b, by rw [_h], _hb⟩)
    rw [_h] at hprog
    exact Prod.lex_def.mpr hprog

variable {A}

/-- **Reading to the end** delivers what remains, when that does not end in an
interruption. -/
theorem readToEnd_eq {sizes : Nat → Nat} {k : Nat} {r : VaultReader R}
    (h : ∀ e, (remaining A r).2 = some e → e.kind ≠ .interrupted) :
    readToEnd A sizes k r = remaining A r := by
  have hpos := Nat.succ_ne_zero (sizes k)
  fun_induction readToEnd A sizes k r with
  | case1 k r e r' hrun hkind =>
      by_cases hnil : (remaining A r).1 = []
      · rcases read_nil hpos hnil with ⟨_, hok, _⟩ | ⟨e', hend, herr⟩
        · rw [hrun] at hok
          cases hok
        · rw [hrun] at herr
          cases herr
          exact absurd hkind (h _ hend)
      · obtain ⟨b, hok, _⟩ := read_cons hpos hnil
        rw [hrun] at hok
        cases hok
  | case2 k r e r' hrun hkind =>
      by_cases hnil : (remaining A r).1 = []
      · rcases read_nil hpos hnil with ⟨_, hok, _⟩ | ⟨e', hend, herr⟩
        · rw [hrun] at hok
          cases hok
        · rw [hrun] at herr
          cases herr
          exact Prod.ext hnil.symm hend.symm
      · obtain ⟨b, hok, _⟩ := read_cons hpos hnil
        rw [hrun] at hok
        cases hok
  | case3 k r r' hrun =>
      by_cases hnil : (remaining A r).1 = []
      · rcases read_nil hpos hnil with ⟨hend, _, _⟩ | ⟨e', _, herr⟩
        · exact Prod.ext hnil.symm hend.symm
        · rw [hrun] at herr
          cases herr
      · obtain ⟨b, hok, hne, _⟩ := read_cons hpos hnil
        rw [hrun] at hok
        cases hok
        exact absurd rfl hne
  | case4 k r b r' hrun hb ih =>
      by_cases hnil : (remaining A r).1 = []
      · rcases read_nil hpos hnil with ⟨_, hok, _⟩ | ⟨e', _, herr⟩
        · rw [hrun] at hok
          cases hok
          exact absurd rfl hb
        · rw [hrun] at herr
          cases herr
      · obtain ⟨b', hok, _, _, hsplit, hend⟩ := read_cons hpos hnil
        rw [hrun] at hok hsplit hend
        cases hok
        have hrest := ih (fun e he => h e (hend ▸ he)) (Nat.succ_ne_zero _)
        rw [hrest]
        exact Prod.ext hsplit.symm hend

end VaultReader

/-- Opening a source and reading it to the end: the plaintext delivered, and the
error it ends with. -/
def drain {R : Type} [Source R] (A : Aead) (key : Key) (sizes : Nat → Nat) (inner : R) :
    Bytes × Option VaultError :=
  match VaultReader.new inner key with
  | .error e => ([], some e)
  | .ok r =>
      let out := VaultReader.readToEnd A sizes 0 r
      (out.1, out.2.map mapReadError)

/-- The plaintext of a source that ends well. -/
def decode {R : Type} [Source R] (A : Aead) (key : Key) (sizes : Nat → Nat) (inner : R) :
    Except VaultError Bytes :=
  match drain A key sizes inner with
  | (_, some e) => .error e
  | (plaintext, none) => .ok plaintext

/-- What a reader that has just been opened will deliver. -/
theorem VaultReader.remaining_of_new {A : Aead} {key : Key} {S : Bytes} {r : VaultReader Bytes}
    (h : VaultReader.new S key = .ok r) (plaintext : Bytes) :
    VaultReader.remaining A r = (plaintext, none) ↔ VaultStream A key S plaintext := by
  obtain ⟨hS, hkey, hseq, hplain, _, hfin⟩ := VaultReader.new_eq_ok h
  have hzero : r.sequence.toNat = 0 := by
    rw [hseq]
    rfl
  rw [VaultReader.remaining_of_unfinished hfin, hplain, List.drop_nil, List.nil_append,
    VaultReader.upcoming_eq_iff hfin, hkey, hzero]
  constructor
  · rintro ⟨frames, last, hframes⟩
    exact ⟨r.nonceSeed, r.inner, frames, last, hS, hframes⟩
  · rintro ⟨seed, body, frames, last, hS', hframes⟩
    rw [hS] at hS'
    obtain ⟨hheader, hbody⟩ := List.append_inj hS' (by simp [fileHeader])
    rw [fileHeader_injective hheader, hbody]
    exact ⟨frames, last, hframes⟩

/-- **The reader accepts exactly the grammar.**  Whatever the cipher opens and
however large the buffers are, reading to the end gives the plaintext of a vault
stream, and an integrity error for every other byte string. -/
theorem decode_eq_ok_iff (A : Aead) (key : Key) (sizes : Nat → Nat) (S : Bytes) :
    (∀ P, decode A key sizes S = .ok P ↔ VaultStream A key S P) ∧
      ((¬ ∃ P, VaultStream A key S P) →
        ∃ e, decode A key sizes S = .error e ∧ e.IsIntegrity) := by
  unfold decode drain
  cases hopen : VaultReader.new S key with
  | error e =>
      have hnone : ∀ P, ¬ VaultStream A key S P := by
        rintro P ⟨seed, body, frames, last, rfl, _⟩
        have hok := VaultReader.new_fileHeader seed body key
        unfold fileHeader at hok
        rw [hok] at hopen
        cases hopen
      refine ⟨fun P => ?_, fun _ => ⟨e, rfl, VaultReader.new_eq_error hopen⟩⟩
      exact iff_of_false (by simp) (hnone P)
  | ok r =>
      have hiff := VaultReader.remaining_of_new (A := A) hopen
      have hread : VaultReader.readToEnd A sizes 0 r = VaultReader.remaining A r := by
        apply VaultReader.readToEnd_eq
        intro e he
        obtain ⟨message, rfl⟩ := VaultReader.remaining_error he
        exact fun h => by cases h
      dsimp only
      rw [hread]
      cases hrem : VaultReader.remaining A r with
      | mk plaintext ending =>
          rw [hrem] at hiff
          cases ending with
          | none =>
              have hstream := (hiff plaintext).mp rfl
              refine ⟨fun P => ?_, fun hnot => absurd ⟨plaintext, hstream⟩ hnot⟩
              rw [← hiff P]
              simp
          | some e =>
              obtain ⟨message, rfl⟩ := VaultReader.remaining_error (e := e) (by rw [hrem])
              refine ⟨fun P => ?_, fun _ => ⟨_, rfl, message, rfl⟩⟩
              rw [← hiff P]
              simp

end CodexVault
