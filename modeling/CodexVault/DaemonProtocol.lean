import CodexVault.SealedFrames
import CodexVault.SystemCalls

/-!
# The daemon protocol

A message is a JSON text of 1 to 16384 bytes with its length in front.
`writeMessage` and `readMessage` are `write_message` and `read_message`; the JSON
library is a `JsonCodec`.

`readMessage_consumes` says what one call takes from a byte string, and
`message_framing` that a sequence of writes is taken apart again by as many reads.
-/

namespace CodexVault

open ByteStrings

/-- `PROTOCOL_VERSION`. -/
def protocolVersion : UInt16 := 1

/-- `MAX_FRAME_BYTES`. -/
def maxFrameBytes : Nat := 16 * 1024

/-- `DaemonRequest`. -/
inductive DaemonRequest where
  | status (protocolVersion : UInt16)
  deriving DecidableEq

/-- `DaemonErrorCode`. -/
inductive DaemonErrorCode where
  | unsupportedProtocol
  | peerRejected
  | invalidRequest
  deriving DecidableEq

/-- `CapabilityState`. -/
inductive CapabilityState where
  | enabled
  | disabled
  deriving DecidableEq

/-- `PeerIdentity`. -/
structure PeerIdentity where
  pid : Int32
  uid : UInt32
  gid : UInt32
  deriving DecidableEq

/-- `DaemonCapabilities`. -/
structure DaemonCapabilities where
  kernelPeerCredentials : CapabilityState
  pamAuthentication : CapabilityState
  dedicatedUid : CapabilityState
  encryptedMount : CapabilityState
  deriving DecidableEq

/-- `DaemonStatus`. -/
structure DaemonStatus where
  protocolVersion : UInt16
  daemonVersion : String
  daemonUid : UInt32
  peer : PeerIdentity
  capabilities : DaemonCapabilities
  deriving DecidableEq

/-- `DaemonResponse`. -/
inductive DaemonResponse where
  | status (status : DaemonStatus)
  | error (protocolVersion : UInt16) (code : DaemonErrorCode) (message : String)
  deriving DecidableEq

/-- `alpha_status_only`. -/
def DaemonCapabilities.alphaStatusOnly : DaemonCapabilities where
  kernelPeerCredentials := .enabled
  pamAuthentication := .disabled
  dedicatedUid := .disabled
  encryptedMount := .disabled

/-- `serde_json::to_vec` and `serde_json::from_slice` at a type, with the texts of
their errors. -/
structure JsonCodec (α : Type) where
  toVec : α → Except String Bytes
  fromSlice : Bytes → Except String α

/-- `write_message`. -/
def writeMessage {α W : Type} [Sink W] (codec : JsonCodec α) (writer : W) (message : α) :
    Except VaultError Unit × W :=
  match codec.toVec message with
  | .error text => (.error (.serialization text), writer)
  | .ok payload =>
      if payload = [] ∨ maxFrameBytes < payload.length then
        (.error (.protocol ("message length must be between 1 and " ++ toString maxFrameBytes ++
          " bytes")), writer)
      else if 2 ^ 32 ≤ payload.length then
        (.error (.protocol "message length exceeds u32"), writer)
      else match Sink.writeAll writer (bigEndian 4 payload.length) with
        | (.error e, writer) => (.error (.io e), writer)
        | (.ok (), writer) =>
            match Sink.writeAll writer payload with
            | (.error e, writer) => (.error (.io e), writer)
            | (.ok (), writer) =>
                match Sink.flush writer with
                | (.error e, writer) => (.error (.io e), writer)
                | (.ok (), writer) => (.ok (), writer)

/-- `protocol_io`. -/
def protocolIo (context : String) (error : IoError) : VaultError :=
  .protocol (context ++ ": " ++ error.text)

/-- `read_message` after the header. -/
def readPayload {α R : Type} [Source R] (codec : JsonCodec α) (length : Nat) (reader : R) :
    Except VaultError α × R :=
  if length = 0 ∨ maxFrameBytes < length then
    (.error (.protocol ("invalid message length " ++ toString length ++ "; maximum is " ++
      toString maxFrameBytes)), reader)
  else match Source.readExact reader length with
    | (.error e, reader) => (.error (protocolIo "message payload is truncated" e), reader)
    | (.ok payload, reader) =>
        match codec.fromSlice payload.toBytes with
        | .error text => (.error (.protocol ("invalid JSON message: " ++ text)), reader)
        | .ok message => (.ok message, reader)

/-- `read_message`. -/
def readMessage {α R : Type} [Source R] (codec : JsonCodec α) (reader : R) :
    Except VaultError α × R :=
  match Source.readExact reader 4 with
  | (.error e, reader) => (.error (protocolIo "message header is truncated" e), reader)
  | (.ok header, reader) => readPayload codec (value header.toBytes) reader

/-- The message as it travels. -/
def frameOf (payload : Bytes) : Bytes := bigEndian 4 payload.length ++ payload

/-- A payload of a length that is allowed. -/
def FitsFrame (payload : Bytes) : Prop := 1 ≤ payload.length ∧ payload.length ≤ maxFrameBytes

instance (payload : Bytes) : Decidable (FitsFrame payload) := by
  unfold FitsFrame
  infer_instance

section

variable {α : Type} {codec : JsonCodec α}

theorem value_frameLength {payload : Bytes} (h : FitsFrame payload) :
    value (bigEndian 4 payload.length) = payload.length := by
  apply value_bigEndian_of_lt
  have hmax : maxFrameBytes = 16384 := rfl
  have hlt := h.2
  omega

/-! ## Writing -/

/-- **One write** to a sink that takes everything: a whole frame, or nothing and an
error. -/
theorem writeMessage_spec {W : Type} [ReliableSink W] (codec : JsonCodec α) (writer : W)
    (message : α) :
    (∃ payload, codec.toVec message = .ok payload ∧ FitsFrame payload ∧
      (writeMessage codec writer message).1 = .ok () ∧
      Sink.accepted (writeMessage codec writer message).2 =
        Sink.accepted writer ++ frameOf payload) ∨
    (∃ e, (∀ payload, codec.toVec message = .ok payload → ¬ FitsFrame payload) ∧
      writeMessage codec writer message = (.error e, writer)) := by
  unfold writeMessage
  cases hjson : codec.toVec message with
  | error text => exact .inr ⟨_, (fun _ h => by cases h), rfl⟩
  | ok payload =>
      dsimp only
      by_cases hsize : payload = [] ∨ maxFrameBytes < payload.length
      · rw [if_pos hsize]
        refine .inr ⟨_, ?_, rfl⟩
        intro payload' h hfits
        cases h
        rcases hsize with rfl | hlong
        · exact absurd hfits.1 (by decide)
        · exact absurd hfits.2 (Nat.not_le.mpr hlong)
      · have hfits : FitsFrame payload := by
          obtain ⟨hne, hle⟩ := not_or.mp hsize
          exact ⟨List.length_pos_iff.mpr hne, Nat.not_lt.mp hle⟩
        have hmax : maxFrameBytes = 16384 := rfl
        have hshort := hfits.2
        rw [if_neg hsize, if_neg (by omega)]
        have hheader := ReliableSink.writeAll_ok writer (bigEndian 4 payload.length)
        cases hfirst : Sink.writeAll writer (bigEndian 4 payload.length) with
        | mk result writer1 =>
            rw [hfirst] at hheader
            cases hheader
            have hbody := ReliableSink.writeAll_ok writer1 payload
            dsimp only
            cases hsecond : Sink.writeAll writer1 payload with
            | mk result writer2 =>
                rw [hsecond] at hbody
                cases hbody
                have hflush := ReliableSink.flush_ok writer2
                have hkept := Sink.accepted_flush writer2
                dsimp only
                cases hthird : Sink.flush writer2 with
                | mk result writer3 =>
                    rw [hthird] at hflush hkept
                    cases hflush
                    refine .inl ⟨payload, rfl, hfits, rfl, ?_⟩
                    dsimp only at hkept ⊢
                    rw [hkept, Sink.accepted_of_ok hsecond, Sink.accepted_of_ok hfirst,
                      frameOf, List.append_assoc]

/-! ## Reading -/

/-- **A frame is read back**, and what follows it is left. -/
theorem readMessage_frameOf {payload rest : Bytes} (h : FitsFrame payload) :
    readMessage codec (frameOf payload ++ rest) =
      match codec.fromSlice payload with
      | .error text => (.error (.protocol ("invalid JSON message: " ++ text)), rest)
      | .ok message => (.ok message, rest) := by
  have hheader : Source.readExact (frameOf payload ++ rest) 4 =
      (.ok (⟨bigEndian 4 payload.length, length_bigEndian _ _⟩ : FixedBytes 4),
        payload ++ rest) := by
    rw [frameOf, List.append_assoc]
    exact readExact_append ⟨bigEndian 4 payload.length, length_bigEndian _ _⟩ _
  have hbody := readExact_append ⟨payload, rfl⟩ rest
  have hsize : ¬ (payload.length = 0 ∨ maxFrameBytes < payload.length) := by
    rw [not_or]
    exact ⟨Nat.one_le_iff_ne_zero.mp h.1, Nat.not_lt.mpr h.2⟩
  unfold readMessage
  rw [hheader]
  dsimp only
  rw [value_frameLength h, readPayload, if_neg hsize, hbody]

theorem readExact_consumes {n : Nat} {r r' : Bytes} {result : Except IoError (FixedBytes n)}
    (h : Source.readExact r n = (result, r')) :
    ∃ consumed, r = consumed ++ r' ∧ consumed.length ≤ n ∧
      ∀ a, result = .ok a → consumed = a.toBytes := by
  change (if h : n ≤ r.length then _ else _) = _ at h
  split at h
  · next hle =>
      cases h
      refine ⟨r.take n, (List.take_append_drop n r).symm, List.length_take_le n r, ?_⟩
      intro a ha
      cases ha
      rfl
  · next hlt =>
      cases h
      refine ⟨r, (List.append_nil r).symm, by omega, fun a ha => ?_⟩
      cases ha

/-- The payload that is read is as long as announced. -/
theorem readPayload_consumes {length : Nat} {r rest : Bytes} {result : Except VaultError α}
    (h : readPayload codec length r = (result, rest)) :
    ∃ consumed, r = consumed ++ rest ∧ consumed.length ≤ length ∧
      consumed.length ≤ maxFrameBytes ∧
      ∀ message, result = .ok message → consumed.length = length ∧ FitsFrame consumed ∧
        codec.fromSlice consumed = .ok message := by
  unfold readPayload at h
  split at h
  · cases h
    refine ⟨[], rfl, Nat.zero_le _, Nat.zero_le _, fun message hok => ?_⟩
    cases hok
  · next hsize =>
      obtain ⟨hpos, hmax⟩ := not_or.mp hsize
      cases hread : Source.readExact r length with
      | mk body rest1 =>
      obtain ⟨consumed, rfl, hlen, hpayload⟩ := readExact_consumes hread
      rw [hread] at h
      cases body with
      | error e =>
          cases h
          refine ⟨consumed, rfl, hlen, by omega, fun message hok => ?_⟩
          cases hok
      | ok payload =>
          have hbytes := hpayload payload rfl
          have hexact : consumed.length = length := by rw [hbytes, payload.length_toBytes]
          dsimp only at h
          rw [← hbytes] at h
          split at h
          · cases h
            refine ⟨consumed, rfl, hlen, by omega, fun message hok => ?_⟩
            cases hok
          · next decoded hjson =>
              cases h
              refine ⟨consumed, rfl, hlen, by omega, fun message hok => ?_⟩
              cases hok
              exact ⟨hexact, ⟨by omega, by omega⟩, hjson⟩

/-- **One read of an arbitrary byte string** takes no more than it is told to, and
succeeds only on a whole frame. -/
theorem readMessage_consumes {S rest : Bytes} {result : Except VaultError α}
    (h : readMessage codec S = (result, rest)) :
    ∃ consumed, S = consumed ++ rest ∧ consumed.length ≤ 4 + maxFrameBytes ∧
      (4 ≤ consumed.length → consumed.length ≤ 4 + value (consumed.take 4)) ∧
      ∀ message, result = .ok message →
        ∃ payload, consumed = frameOf payload ∧ FitsFrame payload ∧
          codec.fromSlice payload = .ok message := by
  unfold readMessage at h
  cases hfirst : Source.readExact S 4 with
  | mk header rest1 =>
  obtain ⟨first, rfl, hfour, hheader⟩ := readExact_consumes hfirst
  rw [hfirst] at h
  cases header with
  | error e =>
      cases h
      refine ⟨first, rfl, by omega, fun hlen => by omega, fun message hok => ?_⟩
      cases hok
  | ok header =>
      have hbytes := hheader header rfl
      have hfour : first.length = 4 := by rw [hbytes, header.length_toBytes]
      obtain ⟨second, rfl, hwithin, hmax, hok⟩ := readPayload_consumes h
      have hlen : (first ++ second).length = 4 + second.length := by
        rw [List.length_append, hfour]
      refine ⟨first ++ second, (List.append_assoc _ _ _).symm, by omega, fun _ => ?_, ?_⟩
      · rw [hlen, List.take_left' hfour, hbytes]
        omega
      · intro message hmessage
        obtain ⟨hexact, hfits, hjson⟩ := hok message hmessage
        refine ⟨second, ?_, hfits, hjson⟩
        have hback := bigEndian_value header.toBytes
        rw [header.length_toBytes, ← hexact] at hback
        rw [frameOf, hback, hbytes]

end

/-! ## Sequences of messages -/

/-- The two types of messages. -/
inductive MessageKind where
  | request
  | response

abbrev MessageKind.Message : MessageKind → Type
  | request => DaemonRequest
  | response => DaemonResponse

/-- A message of either type. -/
abbrev DaemonMessage := (kind : MessageKind) × kind.Message

/-- The JSON library at both types. -/
abbrev MessageCodecs := (kind : MessageKind) → JsonCodec kind.Message

/-- Successive `write_message` calls on one writer, whatever becomes of each. -/
def writeMessages {W : Type} [Sink W] (codecs : MessageCodecs) (writer : W) :
    List DaemonMessage → List (Except VaultError Unit) × W
  | [] => ([], writer)
  | message :: rest =>
      let first := writeMessage (codecs message.1) writer message.2
      let others := writeMessages codecs first.2 rest
      (first.1 :: others.1, others.2)

/-- Successive `read_message` calls, each for the type that is expected. -/
def readMessages {R : Type} [Source R] (codecs : MessageCodecs) (reader : R) :
    List MessageKind → List ((kind : MessageKind) × Except VaultError kind.Message) × R
  | [] => ([], reader)
  | kind :: rest =>
      let first := readMessage (codecs kind) reader
      let others := readMessages codecs first.2 rest
      (⟨kind, first.1⟩ :: others.1, others.2)

/-- The JSON of the message exists and has an allowed length. -/
def MessageCodecs.fits (codecs : MessageCodecs) (message : DaemonMessage) : Bool :=
  match (codecs message.1).toVec message.2 with
  | .error _ => false
  | .ok payload => decide (FitsFrame payload)

/-- Reading the message back gives it again. -/
def MessageCodecs.RoundTrips (codecs : MessageCodecs) (message : DaemonMessage) : Prop :=
  ∀ payload, (codecs message.1).toVec message.2 = .ok payload →
    (codecs message.1).fromSlice payload = .ok message.2

section

variable {codecs : MessageCodecs}

/-- A write succeeds for the messages that fit, and appends a frame or nothing. -/
theorem writeMessage_fits (codecs : MessageCodecs) (buffer : Bytes) (message : DaemonMessage) :
    (codecs.fits message = true ∧ ∃ payload,
      (codecs message.1).toVec message.2 = .ok payload ∧ FitsFrame payload ∧
      writeMessage (codecs message.1) buffer message.2 = (.ok (), buffer ++ frameOf payload)) ∨
    (codecs.fits message = false ∧ ∃ e,
      writeMessage (codecs message.1) buffer message.2 = (.error e, buffer)) := by
  unfold MessageCodecs.fits
  rcases writeMessage_spec (codecs message.1) buffer message.2 with
    ⟨payload, hjson, hfits, hok, hbytes⟩ | ⟨e, hnot, herror⟩
  · refine .inl ⟨?_, payload, hjson, hfits, Prod.ext hok hbytes⟩
    rw [hjson]
    exact decide_eq_true hfits
  · refine .inr ⟨?_, e, herror⟩
    split
    · rfl
    · next payload hjson => exact decide_eq_false (hnot payload hjson)

/-- The results of a sequence of writes. -/
theorem writeMessages_results (buffer : Bytes) (messages : List DaemonMessage) :
    (writeMessages codecs buffer messages).1.map Except.isOk = messages.map codecs.fits := by
  induction messages generalizing buffer with
  | nil => rfl
  | cons message rest ih =>
      rw [writeMessages, List.map_cons, List.map_cons, ih]
      rcases writeMessage_fits codecs buffer message with
        ⟨hfits, payload, _, _, hwrite⟩ | ⟨hfits, e, hwrite⟩
      · rw [hwrite, hfits]
        rfl
      · rw [hwrite, hfits]
        rfl

/-- **A sequence of writes is taken apart again** by the reads of what was
accepted. -/
theorem readMessages_writeMessages {messages : List DaemonMessage}
    (hround : ∀ message ∈ messages, codecs.RoundTrips message) (before : Bytes) :
    ∃ written, (writeMessages codecs before messages).2 = before ++ written ∧
      ∀ rest, readMessages codecs (written ++ rest) ((messages.filter codecs.fits).map (·.1)) =
        ((messages.filter codecs.fits).map fun message => ⟨message.1, .ok message.2⟩, rest) := by
  induction messages generalizing before with
  | nil => exact ⟨[], (List.append_nil _).symm, fun rest => rfl⟩
  | cons message others ih =>
      have hothers := fun m hm => hround m (List.mem_cons_of_mem _ hm)
      rcases writeMessage_fits codecs before message with
        ⟨hfits, payload, hjson, hsize, hwrite⟩ | ⟨hfits, e, hwrite⟩
      · obtain ⟨written, hbytes, hread⟩ := ih hothers (before ++ frameOf payload)
        refine ⟨frameOf payload ++ written, ?_, fun rest => ?_⟩
        · rw [writeMessages, hwrite, hbytes, List.append_assoc]
        · have hback := hround message List.mem_cons_self payload hjson
          have hfirst : readMessage (codecs message.1) (frameOf payload ++ (written ++ rest)) =
              (.ok message.2, written ++ rest) := by
            rw [readMessage_frameOf hsize, hback]
          rw [List.filter_cons_of_pos hfits, List.map_cons, List.map_cons, List.append_assoc,
            readMessages, hfirst]
          dsimp only
          rw [hread]
      · obtain ⟨written, hbytes, hread⟩ := ih hothers before
        refine ⟨written, ?_, fun rest => ?_⟩
        · rw [writeMessages, hwrite, hbytes]
        · rw [List.filter_cons_of_neg (by simp [hfits]), hread]

/-- **The framing is self-delimiting.**  Of any sequence of messages, exactly those
with a JSON text of 1 to 16384 bytes are accepted, a refused one leaves no byte, and
reading gives the accepted ones in order.  A read takes no more of any byte string
than the length allows. -/
theorem message_framing (codecs : MessageCodecs) (messages : List DaemonMessage)
    (hround : ∀ message ∈ messages, codecs.RoundTrips message) :
    ((writeMessages codecs ([] : Bytes) messages).1.map Except.isOk =
        messages.map codecs.fits ∧
      readMessages codecs (writeMessages codecs ([] : Bytes) messages).2
          ((messages.filter codecs.fits).map (·.1)) =
        ((messages.filter codecs.fits).map fun message => ⟨message.1, .ok message.2⟩, [])) ∧
    (∀ (buffer buffer' : Bytes) (message : DaemonMessage) (e : VaultError),
      writeMessage (codecs message.1) buffer message.2 = (.error e, buffer') →
        buffer' = buffer) ∧
    ∀ (kind : MessageKind) (S rest : Bytes) (result : Except VaultError kind.Message),
      readMessage (codecs kind) S = (result, rest) →
      ∃ consumed, S = consumed ++ rest ∧ consumed.length ≤ 4 + 16384 ∧
        (4 ≤ consumed.length → consumed.length ≤ 4 + value (consumed.take 4)) ∧
        ((∃ message, result = .ok message) →
          consumed.length = 4 + value (consumed.take 4) ∧ 4 + 1 ≤ consumed.length) := by
  refine ⟨⟨writeMessages_results [] messages, ?_⟩, ?_, ?_⟩
  · obtain ⟨written, hbytes, hread⟩ := readMessages_writeMessages hround []
    rw [hbytes, List.nil_append]
    have hall := hread []
    rwa [List.append_nil] at hall
  · intro buffer buffer' message e herror
    rcases writeMessage_fits codecs buffer message with
      ⟨_, _, _, _, hwrite⟩ | ⟨_, _, hwrite⟩
    · rw [hwrite] at herror
      cases herror
    · rw [hwrite] at herror
      cases herror
      rfl
  · intro kind S rest result hread
    obtain ⟨consumed, hS, hbound, hwithin, hok⟩ := readMessage_consumes hread
    refine ⟨consumed, hS, hbound, hwithin, ?_⟩
    rintro ⟨message, hmessage⟩
    obtain ⟨payload, rfl, hfits, _⟩ := hok message hmessage
    have hfour := length_bigEndian 4 payload.length
    rw [frameOf, List.take_left' hfour, value_frameLength hfits, List.length_append, hfour]
    exact ⟨rfl, Nat.add_le_add_left hfits.1 4⟩

end

/-! ## A request and a response -/

/-- A codec that knows the messages of a list by their texts. -/
def listedCodec {α : Type} [DecidableEq α] (entries : List (α × Bytes)) : JsonCodec α where
  toVec message :=
    match entries.find? fun entry => entry.1 = message with
    | some entry => .ok entry.2
    | none => .error "not listed"
  fromSlice payload :=
    match entries.find? fun entry => entry.2 = payload with
    | some entry => .ok entry.1
    | none => .error "not listed"

theorem mem_of_listedCodec {α : Type} [DecidableEq α] {entries : List (α × Bytes)}
    {payload : Bytes} {message : α} (h : (listedCodec entries).fromSlice payload = .ok message) :
    (message, payload) ∈ entries := by
  unfold listedCodec at h
  dsimp only at h
  split at h
  · next entry hfind =>
      cases h
      have hpayload := List.find?_some hfind
      rw [← of_decide_eq_true hpayload]
      exact List.mem_of_find?_eq_some hfind
  · cases h

/-- A status request as JSON. -/
def statusText : Bytes := textBytes "\x7b\"type\":\"status\",\"protocol_version\":1\x7d"

/-- A refusal as JSON, with a message of so many letters `a`. -/
def refusalText (letters : Nat) : Bytes :=
  textBytes "\x7b\"type\":\"error\",\"protocol_version\":1," ++
    (textBytes "\"code\":\"invalid_request\",\"message\":\"" ++
      (List.replicate letters 97 ++ textBytes "\"\x7d"))

def refusal (letters : Nat) : DaemonResponse :=
  .error 1 .invalidRequest (String.ofList (List.replicate letters 'a'))

/-- A codec for a status request, a refusal without a message and one with a message. -/
def listedCodecs (letters : Nat) : MessageCodecs
  | .request => listedCodec [(.status 1, statusText)]
  | .response => listedCodec [(refusal 0, refusalText 0), (refusal letters, refusalText letters)]

theorem length_refusalText (letters : Nat) : (refusalText letters).length = 75 + letters := by
  have hhead : (textBytes "\x7b\"type\":\"error\",\"protocol_version\":1,").length = 37 := by decide
  have hcode : (textBytes "\"code\":\"invalid_request\",\"message\":\"").length = 36 := by decide
  have hend : (textBytes "\"\x7d").length = 2 := by decide
  simp only [refusalText, List.length_append, List.length_replicate, hhead, hcode, hend]
  omega

theorem refusal_injective {a b : Nat} (h : refusal a = refusal b) : a = b := by
  have htexts := String.ofList_injective (DaemonResponse.error.inj h).2.2
  simpa using congrArg List.length htexts

theorem refusalText_injective {a b : Nat} (h : refusalText a = refusalText b) : a = b := by
  have hlengths := congrArg List.length h
  rw [length_refusalText, length_refusalText] at hlengths
  omega

section

variable {letters n : Nat}

/-- The sample codec knows its refusals. -/
theorem refusal_listed (h : n = 0 ∨ n = letters) :
    (listedCodecs letters .response).toVec (refusal n) = .ok (refusalText n) ∧
      (listedCodecs letters .response).fromSlice (refusalText n) = .ok (refusal n) := by
  unfold listedCodecs listedCodec
  by_cases hzero : n = 0
  · subst hzero
    simp
  · obtain rfl := h.resolve_left hzero
    have hmessages : refusal 0 ≠ refusal n := fun heq => hzero (refusal_injective heq).symm
    have htexts : refusalText 0 ≠ refusalText n := fun heq =>
      hzero (refusalText_injective heq).symm
    simp [hmessages, htexts]

theorem roundTrips_refusal (h : n = 0 ∨ n = letters) :
    (listedCodecs letters).RoundTrips ⟨.response, refusal n⟩ := by
  obtain ⟨hto, hfrom⟩ := refusal_listed h
  intro payload hjson
  dsimp only at hjson
  rw [hto] at hjson
  cases hjson
  exact hfrom

theorem fits_refusal (h : n = 0 ∨ n = letters) :
    (listedCodecs letters).fits ⟨.response, refusal n⟩ = decide (75 + n ≤ maxFrameBytes) := by
  unfold MessageCodecs.fits
  rw [(refusal_listed h).1]
  dsimp only
  rw [decide_eq_decide, FitsFrame, length_refusalText]
  omega

/-- A request, a refusal with a message and one without. -/
def sampleMessages (letters : Nat) : List DaemonMessage :=
  [⟨.request, .status 1⟩, ⟨.response, refusal letters⟩, ⟨.response, refusal 0⟩]

theorem roundTrips_sampleMessages :
    ∀ message ∈ sampleMessages letters, (listedCodecs letters).RoundTrips message := by
  intro message hmem
  rcases List.mem_cons.mp hmem with rfl | hmem
  · intro payload hjson
    cases hjson
    rfl
  · rcases List.mem_pair.mp hmem with rfl | rfl
    · exact roundTrips_refusal (.inr rfl)
    · exact roundTrips_refusal (.inl rfl)

theorem fits_sampleMessages (hlong : maxFrameBytes < 75 + letters) :
    (sampleMessages letters).map (listedCodecs letters).fits = [true, false, true] ∧
      (sampleMessages letters).filter (listedCodecs letters).fits =
        [⟨.request, .status 1⟩, ⟨.response, refusal 0⟩] := by
  have hstatus : (listedCodecs letters).fits ⟨.request, .status 1⟩ = true :=
    decide_eq_true (show FitsFrame statusText by decide)
  have hrefused : (listedCodecs letters).fits ⟨.response, refusal letters⟩ = false :=
    (fits_refusal (.inr rfl)).trans (decide_eq_false (by omega))
  have haccepted : (listedCodecs letters).fits ⟨.response, refusal 0⟩ = true :=
    (fits_refusal (.inl rfl)).trans (decide_eq_true (by decide))
  unfold sampleMessages
  simp only [List.map_cons, List.map_nil, List.filter_cons, List.filter_nil, hstatus, hrefused,
    haccepted, if_true, Bool.false_eq_true, if_false]
  exact ⟨trivial, trivial⟩

end

/-- The theorem at a request, a refusal that is too long, and a refusal. -/
theorem message_framing_sample :
    (writeMessages (listedCodecs 16384) ([] : Bytes) (sampleMessages 16384)).1.map Except.isOk =
        [true, false, true] ∧
      readMessages (listedCodecs 16384)
          (writeMessages (listedCodecs 16384) ([] : Bytes) (sampleMessages 16384)).2
          [.request, .response] =
        ([⟨.request, .ok (.status 1)⟩, ⟨.response, .ok (refusal 0)⟩], []) := by
  have hlong : maxFrameBytes < 75 + 16384 := by decide
  obtain ⟨hfits, hfiltered⟩ := fits_sampleMessages hlong
  obtain ⟨⟨hresults, hread⟩, _⟩ :=
    message_framing (listedCodecs 16384) (sampleMessages 16384) roundTrips_sampleMessages
  rw [hfits] at hresults
  rw [hfiltered] at hread
  exact ⟨hresults, hread⟩

end CodexVault
