import CodexVault.ReaderRuns
import CodexVault.WriterRuns

/-!
# Sealed frames seen from the reader

The reader's checks and the writer's framing fit together: `loadFrame_sealed` says
that a sealing at the front of a byte string is loaded by a reader at its position.
-/

namespace CodexVault

open ByteStrings

/-! ## Byte strings as sources -/

theorem readExact_append {n : Nat} (a : FixedBytes n) (rest : Bytes) :
    Source.readExact (a.toBytes ++ rest) n = (.ok a, rest) := by
  have hle : n ≤ (a.toBytes ++ rest).length := by simp
  have htake : (a.toBytes ++ rest).take n = a.toBytes := List.take_left' a.length_toBytes
  have hdrop : (a.toBytes ++ rest).drop n = rest := List.drop_left' a.length_toBytes
  change (if h : n ≤ (a.toBytes ++ rest).length then _ else _) = _
  rw [dif_pos hle]
  exact Prod.ext (congrArg Except.ok (FixedBytes.ext htake)) hdrop

theorem readExact_eq_ok {n : Nat} {r r' : Bytes} {a : FixedBytes n}
    (h : Source.readExact r n = (.ok a, r')) : r = a.toBytes ++ r' := by
  change (if h : n ≤ r.length then _ else _) = _ at h
  split at h
  · cases h
    exact (List.take_append_drop n r).symm
  · cases h

/-! ## Headers -/

/-- Reading a header back. -/
theorem parseFrameHeader_of_frameHeader {t : UInt8} {s : UInt32} {n : Nat}
    {header : FixedBytes 9} (h : frameHeader t s n = .ok header.toBytes) :
    parseFrameHeader header = ⟨t, s, n⟩ := by
  unfold frameHeader at h
  split at h
  · cases h
  · next hn =>
      have hbytes := (Except.ok.inj h).symm
      have hs : ((header.toBytes.drop 1).take 4) = bigEndian 4 s.toNat := by
        rw [hbytes, List.drop_one, List.tail_cons]
        exact List.take_left' (length_bigEndian _ _)
      have hlen : header.toBytes.drop 5 = bigEndian 4 n := by
        rw [hbytes, List.drop_succ_cons]
        exact List.drop_left' (length_bigEndian _ _)
      have hsval : value (bigEndian 4 s.toNat) = s.toNat := value_bigEndian_of_lt s.toNat_lt
      have hnval : value (bigEndian 4 n) = n := value_bigEndian_of_lt (Nat.not_le.mp hn)
      unfold parseFrameHeader
      rw [hs, hlen, hsval, hnval, UInt32.ofNat_toNat, hbytes]
      rfl

/-- The checks on a header pass exactly for the two kinds of frame, within their
lengths and at the expected number. -/
theorem checkHeader_eq_none {sequence : UInt32} {fields : HeaderFields} :
    checkHeader sequence fields = none ↔
      fields.sequence = sequence ∧
        ((fields.frameType = dataFrame ∧ fields.length ≤ chunkSize) ∨
          (fields.frameType = finalFrame ∧ fields.length = 0)) := by
  have hne : finalFrame ≠ dataFrame := by decide
  unfold checkHeader
  constructor
  · intro h
    split at h
    · cases h
    · next hseq =>
        split at h
        · cases h
        · next htype =>
            split at h
            · cases h
            · next hlen =>
                refine ⟨not_not.mp hseq, ?_⟩
                by_cases hfinal : fields.frameType = finalFrame
                · exact .inr ⟨hfinal, not_not.mp fun hz => hlen (.inr ⟨hfinal, hz⟩)⟩
                · refine .inl ⟨not_not.mp fun hd => htype ⟨hd, hfinal⟩, ?_⟩
                  exact Nat.not_lt.mp fun hlt => hlen (.inl hlt)
  · rintro ⟨hseq, ⟨htype, hlen⟩ | ⟨htype, hlen⟩⟩
    · rw [if_neg (not_not.mpr hseq), if_neg fun h => h.1 htype, if_neg]
      rintro (hlt | ⟨hfinal, _⟩)
      · omega
      · exact hne (hfinal.symm.trans htype)
    · rw [if_neg (not_not.mpr hseq), if_neg fun h => h.2 htype, if_neg]
      rintro (hlt | ⟨_, hz⟩)
      · omega
      · exact hz hlen

/-- The kinds of frames a writer emits. -/
def ProperFrame (frame : UInt8 × Bytes) : Prop :=
  (frame.1 = dataFrame ∧ frame.2.length ≤ chunkSize) ∨ frame = (finalFrame, [])

/-! ## Frames -/

theorem Sealing.Genuine.length_header {A : Aead} {key : Key} {seed : FixedBytes 12} {s : Sealing}
    (h : s.Genuine A key seed) : s.header.length = 9 :=
  length_of_frameHeader h.header_eq

/-- **A sealed frame is loaded** by a reader that has arrived at its number. -/
theorem loadFrame_sealed {A : SealingAead} {key : Key} {seed : FixedBytes 12} {s : Sealing}
    (hs : s.Genuine A.toAead key seed) (hframe : ProperFrame s.frame)
    (hdec : A.decrypt key s.nonce s.associatedData s.ciphertext = some s.plaintext)
    (rest : Bytes) :
    loadFrame A.toAead key seed s.sequence (s.bytes ++ rest) =
      (.ok (s.frameType, s.plaintext), rest) := by
  have hheader : s.header.length = 9 := hs.length_header
  have hfields : parseFrameHeader ⟨s.header, hheader⟩ =
      ⟨s.frameType, s.sequence, s.plaintext.length⟩ :=
    parseFrameHeader_of_frameHeader hs.header_eq
  have hcheck : checkHeader s.sequence (parseFrameHeader ⟨s.header, hheader⟩) = none := by
    rw [hfields, checkHeader_eq_none]
    refine ⟨rfl, ?_⟩
    rcases hframe with ⟨htype, hlen⟩ | hfinal
    · exact .inl ⟨htype, hlen⟩
    · obtain ⟨htype, hplain⟩ := Prod.mk.inj hfinal
      exact .inr ⟨htype, by rw [hplain]; rfl⟩
  have hbody : s.ciphertext.length =
      (parseFrameHeader ⟨s.header, hheader⟩).length + tagLength := by
    rw [hfields]
    exact A.length_encrypt hs.ciphertext_eq
  have hread1 : Source.readExact (s.bytes ++ rest) 9 =
      (.ok (⟨s.header, hheader⟩ : FixedBytes 9), s.ciphertext ++ rest) := by
    rw [Sealing.bytes, List.append_assoc]
    exact readExact_append ⟨s.header, hheader⟩ _
  have hread2 := readExact_append ⟨s.ciphertext, hbody⟩ rest
  rw [hs.associatedData_eq] at hdec
  have hseq : (parseFrameHeader ⟨s.header, hheader⟩).sequence = s.sequence := by rw [hfields]
  have htype : (parseFrameHeader ⟨s.header, hheader⟩).frameType = s.frameType := by rw [hfields]
  unfold loadFrame
  rw [hread1]
  dsimp only
  rw [hcheck]
  dsimp only
  rw [hread2]
  dsimp only
  rw [hseq, hs.nonce_eq]
  dsimp only
  rw [hdec]
  dsimp only
  rw [if_neg hs.sequence_ne, htype]

/-- The reader accepts some frame with this number exactly while there is room. -/
theorem loadFrame_isOk_iff (A : LawfulAead) (key : Key) (seed : FixedBytes 12)
    (sequence : UInt32) :
    (∃ (b rest : Bytes) (frame : UInt8 × Bytes),
      loadFrame A.toAead key seed sequence b = (.ok frame, rest)) ↔
      HasRoom seed sequence.toNat := by
  constructor
  · rintro ⟨b, rest, ⟨frameType, plaintext⟩, h⟩
    obtain ⟨hne, header, _, _, nonce, _, hcheck, _, _, hnonce, _⟩ := loadFrame_ok h
    rw [(checkHeader_eq_none.mp hcheck).1] at hnonce
    have hlast : sequence.toNat ≠ u32Max.toNat := fun heq => hne (UInt32.toNat_inj.mp heq)
    have hlt := sequence.toNat_lt
    rw [u32Max_toNat] at hlast
    exact ⟨by omega, (nonceBytes_isOk_iff _ _).mp ⟨nonce, hnonce⟩⟩
  · intro hroom
    have hshort : ([] : Bytes).length ≤ chunkSize := Nat.zero_le _
    obtain ⟨s, hs⟩ := (sealFrame_isOk_iff A.toSealingAead key seed sequence finalFrame
      hshort).mpr hroom
    obtain ⟨rfl, htype, hplain, hgen⟩ := sealFrame_eq_ok.mp hs
    exact ⟨_, [], _, loadFrame_sealed hgen (.inr (Prod.ext htype hplain))
      (A.decrypt_encrypt hgen.ciphertext_eq) []⟩

/-- **The nonce of a frame** is the seed plus its number, as long as the sum has 96
bits; writer and reader stop at the same number. -/
theorem nonceBytes_is_addition (seed : FixedBytes 12) (sequence : UInt32) :
    ((∃ nonce, nonceBytes seed sequence = .ok nonce ∧
        value nonce.toBytes = value seed.toBytes + sequence.toNat) ↔
      value seed.toBytes + sequence.toNat < 2 ^ 96) ∧
    ((∃ e, nonceBytes seed sequence = .error e) ↔
      2 ^ 96 ≤ value seed.toBytes + sequence.toNat) ∧
    (∀ other nonce, nonceBytes seed sequence = .ok nonce → nonceBytes seed other = .ok nonce →
      sequence = other) ∧
    ∀ (A : LawfulAead) (key : Key),
      ((∀ frameType plaintext, ∃ e,
          sealFrame A.toAead key seed sequence frameType plaintext = .error e) ↔
        ∀ b : Bytes, ∃ e rest, loadFrame A.toAead key seed sequence b = (.error e, rest)) := by
  have hok := nonceBytes_isOk_iff seed sequence
  refine ⟨?_, ?_, fun other nonce h h' => nonceBytes_injective h h', fun A key => ?_⟩
  · rw [← hok]
    constructor
    · rintro ⟨nonce, h, _⟩
      exact ⟨nonce, h⟩
    · rintro ⟨nonce, h⟩
      exact ⟨nonce, h, value_of_nonceBytes h⟩
  · rw [← Nat.not_lt, ← hok]
    cases nonceBytes seed sequence with
    | error e => simp
    | ok nonce => simp
  · have hwriter : (∀ frameType plaintext, ∃ e,
        sealFrame A.toAead key seed sequence frameType plaintext = .error e) ↔
        ¬ HasRoom seed sequence.toNat := by
      constructor
      · intro hall hroom
        have hshort : ([] : Bytes).length ≤ chunkSize := Nat.zero_le _
        obtain ⟨s, hs⟩ := (sealFrame_isOk_iff A.toSealingAead key seed sequence finalFrame
          hshort).mpr hroom
        obtain ⟨e, he⟩ := hall finalFrame []
        rw [hs] at he
        cases he
      · intro hfull frameType plaintext
        cases hseal : sealFrame A.toAead key seed sequence frameType plaintext with
        | error e => exact ⟨e, rfl⟩
        | ok s =>
            obtain ⟨rfl, _, _, hgen⟩ := sealFrame_eq_ok.mp hseal
            exact absurd hgen.hasRoom hfull
    have hreader : (∀ b : Bytes, ∃ e rest,
        loadFrame A.toAead key seed sequence b = (.error e, rest)) ↔
        ¬ HasRoom seed sequence.toNat := by
      rw [← loadFrame_isOk_iff A key]
      constructor
      · rintro hall ⟨b, rest, frame, h⟩
        obtain ⟨e, rest', he⟩ := hall b
        rw [h] at he
        cases he
      · intro hnone b
        cases hload : loadFrame A.toAead key seed sequence b with
        | mk result rest =>
            cases result with
            | error e => exact ⟨e, rest, rfl⟩
            | ok frame => exact absurd ⟨b, rest, frame, hload⟩ hnone
    exact hwriter.trans hreader.symm

end CodexVault
