import Mathlib.Data.Nat.Digits.Defs
import CodexVault.DaemonProtocol

/-!
# Daemon connections

`handleConnection` is `handle_connection`: it compares the peer's UID, reads one
request and writes one response.  A request that does not decode leaves through `?`,
before any response is written.

`every_request_answered_iff` says for which clients the answer is the one that the
protocol promises.
-/

namespace CodexVault

open ByteStrings

/-- `UnixStream`, as the daemon holds it: what the client has sent and is not read,
and what the daemon has written. -/
structure UnixStream where
  incoming : Bytes
  outgoing : Bytes

instance : Source UnixStream where
  read stream n :=
    ((Source.read stream.incoming n).1,
      { stream with incoming := (Source.read stream.incoming n).2 })
  readExact stream n :=
    ((Source.readExact stream.incoming n).1,
      { stream with incoming := (Source.readExact stream.incoming n).2 })

instance : ReliableSink UnixStream where
  accepted stream := stream.outgoing
  writeAll stream b := (.ok (), { stream with outgoing := stream.outgoing ++ b })
  flush stream := (.ok (), stream)
  accepted_of_ok := by
    intro w b w' h
    cases h
    rfl
  accepted_of_error := by
    intro w b e w' h
    cases h
  accepted_flush := fun _ => rfl
  writeAll_ok := fun _ _ => rfl
  flush_ok := fun _ => rfl

/-- What the kernel answers about a connection. -/
structure Connection where
  setReadTimeout : Except IoError Unit
  setWriteTimeout : Except IoError Unit
  peerCredentials : Except String PeerIdentity

/-- A connection with this peer, on which no call fails. -/
def Connection.of (peer : PeerIdentity) : Connection := ⟨.ok (), .ok (), .ok peer⟩

/-- The response to a peer that is not allowed. -/
def peerRejectedResponse : DaemonResponse :=
  .error protocolVersion .peerRejected "kernel-authenticated peer UID is not allowed"

/-- The response to a status request of this version. -/
def statusResponse (daemonUid : UInt32) (peer : PeerIdentity) : DaemonResponse :=
  .status {
    protocolVersion := protocolVersion
    daemonVersion := "0.2.0-alpha.1"
    daemonUid := daemonUid
    peer := peer
    capabilities := .alphaStatusOnly }

/-- The response to a status request of another version. -/
def unsupportedResponse (version : UInt16) : DaemonResponse :=
  .error protocolVersion .unsupportedProtocol ("client protocol version " ++ toString version ++
    " is unsupported; expected " ++ toString protocolVersion)

/-- `handle_connection` once the peer is known. -/
def answerPeer (codecs : MessageCodecs) (daemonUid allowedUid : UInt32) (peer : PeerIdentity)
    (stream : UnixStream) : Except VaultError Unit × UnixStream :=
  if peer.uid ≠ allowedUid then
    match writeMessage (codecs .response) stream peerRejectedResponse with
    | (.error e, stream) => (.error e, stream)
    | (.ok (), stream) => (.error (.peerRejected peer.uid), stream)
  else match readMessage (codecs .request) stream with
    | (.error e, stream) => (.error e, stream)
    | (.ok (.status version), stream) =>
        if version = protocolVersion then
          writeMessage (codecs .response) stream (statusResponse daemonUid peer)
        else writeMessage (codecs .response) stream (unsupportedResponse version)

/-- `handle_connection`. -/
def handleConnection (codecs : MessageCodecs) (daemonUid : UInt32) (connection : Connection)
    (allowedUid : UInt32) (stream : UnixStream) : Except VaultError Unit × UnixStream :=
  match connection.setReadTimeout with
  | .error e => (.error (.io e), stream)
  | .ok () =>
      match connection.setWriteTimeout with
      | .error e => (.error (.io e), stream)
      | .ok () =>
          match connection.peerCredentials with
          | .error text =>
              (.error (.protocol ("failed to read kernel peer credentials: " ++ text)), stream)
          | .ok peer => answerPeer codecs daemonUid allowedUid peer stream

/-! ## The JSON of the responses -/

/-- The characters of the strings in a response. -/
def DaemonResponse.textLength : DaemonResponse → Nat
  | .status report => report.daemonVersion.length
  | .error _ _ message => message.length

/-- The responses that the daemon has for a peer. -/
inductive DaemonResponse.SentTo (codec : JsonCodec DaemonRequest) (daemonUid : UInt32)
    (peer : PeerIdentity) : DaemonResponse → Prop
  | rejected : SentTo codec daemonUid peer peerRejectedResponse
  | status : SentTo codec daemonUid peer (statusResponse daemonUid peer)
  | unsupported {payload : Bytes} {version : UInt16} :
      codec.fromSlice payload = .ok (.status version) → version ≠ protocolVersion →
      SentTo codec daemonUid peer (unsupportedResponse version)

/-- What the JSON library does with a response: it writes a text whose length the
fixed keys, the numbers and the strings bound, where a character takes at most six
bytes, and reads that text back. -/
def JsonCodec.Carries (codec : JsonCodec DaemonResponse) (response : DaemonResponse) : Prop :=
  ∃ payload, codec.toVec response = .ok payload ∧ 1 ≤ payload.length ∧
    payload.length ≤ 1024 + 6 * response.textLength ∧ codec.fromSlice payload = .ok response

/-- One frame was written, and it decodes to the response. -/
def UnixStream.Responds (codec : JsonCodec DaemonResponse) (response : DaemonResponse)
    (stream stream' : UnixStream) : Prop :=
  ∃ payload, FitsFrame payload ∧ stream'.outgoing = stream.outgoing ++ frameOf payload ∧
    codec.toVec response = .ok payload ∧
    ∀ rest : Bytes, readMessage codec (frameOf payload ++ rest) = (.ok response, rest)

section

variable {codecs : MessageCodecs} {daemonUid allowedUid : UInt32} {peer : PeerIdentity}

theorem frameOf_ne_nil (payload : Bytes) : frameOf payload ≠ [] := by
  rw [frameOf, ← List.length_pos_iff, List.length_append, length_bigEndian]
  omega

/-- The texts of the responses are short. -/
theorem textLength_le {codec : JsonCodec DaemonRequest} {response : DaemonResponse}
    (h : response.SentTo codec daemonUid peer) : response.textLength ≤ 128 := by
  cases h with
  | rejected => decide
  | status => exact (by decide : "0.2.0-alpha.1".length ≤ 128)
  | @unsupported _ version =>
      have hdigits : (toString version).length ≤ 5 := by
        have hlt : version.toNat < 10 ^ 5 := version.toNat_lt.trans (by decide)
        exact Nat.repr_length version.toNat 5 (by decide) hlt
      have hfirst : "client protocol version ".length = 24 := rfl
      have hlast : " is unsupported; expected ".length = 26 := rfl
      have hexpected : (toString protocolVersion).length = 1 := by decide
      change (_ : String).length ≤ 128
      rw [String.length_append, String.length_append, String.length_append, hfirst, hlast,
        hexpected]
      omega

/-- A response that the library carries is written as one frame. -/
theorem writeMessage_responds {codec : JsonCodec DaemonResponse} {response : DaemonResponse}
    (hcarries : codec.Carries response) (hshort : response.textLength ≤ 128)
    (stream : UnixStream) :
    ∃ stream', writeMessage codec stream response = (.ok (), stream') ∧
      stream'.incoming = stream.incoming ∧ UnixStream.Responds codec response stream stream' := by
  obtain ⟨payload, hjson, hpos, hlong, hback⟩ := hcarries
  have hmax : maxFrameBytes = 16384 := rfl
  have hfits : FitsFrame payload := ⟨hpos, by omega⟩
  have hsize : ¬ (payload = [] ∨ maxFrameBytes < payload.length) := by
    rw [not_or]
    exact ⟨List.length_pos_iff.mp hpos, Nat.not_lt.mpr hfits.2⟩
  refine ⟨{ stream with outgoing := stream.outgoing ++ frameOf payload }, ?_, rfl,
    payload, hfits, rfl, hjson, fun rest => ?_⟩
  · unfold writeMessage
    rw [hjson]
    dsimp only
    rw [if_neg hsize, if_neg (by omega), frameOf, ← List.append_assoc]
    rfl
  · rw [readMessage_frameOf hfits, hback]

/-- Reading from the connection takes from what the client sent. -/
theorem readMessage_stream {α : Type} (codec : JsonCodec α) (stream : UnixStream) :
    readMessage codec stream =
      ((readMessage codec stream.incoming).1,
        { stream with incoming := (readMessage codec stream.incoming).2 }) := by
  have hexact : ∀ (s : UnixStream) (n : Nat), Source.readExact s n =
      ((Source.readExact s.incoming n).1,
        { s with incoming := (Source.readExact s.incoming n).2 }) := fun _ _ => rfl
  unfold readMessage
  rw [hexact]
  cases Source.readExact stream.incoming 4 with
  | mk header rest =>
      cases header with
      | error e => rfl
      | ok header =>
          dsimp only
          unfold readPayload
          split
          · rfl
          · rw [hexact]
            cases Source.readExact rest (value header.toBytes) with
            | mk body rest =>
                cases body with
                | error e => rfl
                | ok payload =>
                    dsimp only
                    cases codec.fromSlice payload.toBytes with
                    | error text => rfl
                    | ok message => rfl

/-- The run of `handle_connection` on a new connection. -/
def served (codecs : MessageCodecs) (daemonUid allowedUid : UInt32) (peer : PeerIdentity)
    (client : Bytes) : UnixStream :=
  (handleConnection codecs daemonUid (.of peer) allowedUid ⟨client, []⟩).2

/-- A peer that is not allowed gets its refusal, and nothing of it is read. -/
theorem served_rejected (daemonUid : UInt32) (hpeer : peer.uid ≠ allowedUid)
    (hcarries : (codecs .response).Carries peerRejectedResponse) (client : Bytes) :
    (served codecs daemonUid allowedUid peer client).incoming = client ∧
      UnixStream.Responds (codecs .response) peerRejectedResponse ⟨client, []⟩
        (served codecs daemonUid allowedUid peer client) := by
  obtain ⟨stream', hwrite, hincoming, hresponds⟩ :=
    writeMessage_responds hcarries (by decide) ⟨client, []⟩
  have hserved : served codecs daemonUid allowedUid peer client = stream' := by
    unfold served handleConnection Connection.of answerPeer
    dsimp only
    rw [if_pos hpeer, hwrite]
  rw [hserved]
  exact ⟨hincoming, hresponds⟩

/-- A request that decodes gets the response to its version. -/
theorem served_request {payload : Bytes} {version : UInt16} (hpeer : peer.uid = allowedUid)
    (rest : Bytes) (hfits : FitsFrame payload)
    (hdecodes : (codecs .request).fromSlice payload = .ok (.status version))
    (hcarries : ∀ response, DaemonResponse.SentTo (codecs .request) daemonUid peer response →
      (codecs .response).Carries response) :
    ∃ response, response = (if version = protocolVersion then statusResponse daemonUid peer
        else unsupportedResponse version) ∧
      UnixStream.Responds (codecs .response) response ⟨frameOf payload ++ rest, []⟩
        (served codecs daemonUid allowedUid peer (frameOf payload ++ rest)) := by
  have hread : readMessage (codecs .request) (⟨frameOf payload ++ rest, []⟩ : UnixStream) =
      (.ok (.status version), ⟨rest, []⟩) := by
    rw [readMessage_stream]
    dsimp only
    rw [readMessage_frameOf hfits, hdecodes]
  have hsent : DaemonResponse.SentTo (codecs .request) daemonUid peer
      (if version = protocolVersion then statusResponse daemonUid peer
        else unsupportedResponse version) := by
    split
    · exact .status
    · next hversion => exact .unsupported hdecodes hversion
  obtain ⟨stream', hwrite, _, hresponds⟩ :=
    writeMessage_responds (hcarries _ hsent) (textLength_le hsent) ⟨rest, []⟩
  have hserved : served codecs daemonUid allowedUid peer (frameOf payload ++ rest) = stream' := by
    unfold served handleConnection Connection.of answerPeer
    dsimp only
    rw [if_neg (not_not.mpr hpeer), hread]
    dsimp only
    split at hwrite
    · next hversion => rw [if_pos hversion, hwrite]
    · next hversion => rw [if_neg hversion, hwrite]
  rw [hserved]
  exact ⟨_, rfl, hresponds⟩

/-- A request that does not decode gets nothing. -/
theorem served_undecodable {payload rest : Bytes} {text : String} (hpeer : peer.uid = allowedUid)
    (hfits : FitsFrame payload) (hdecodes : (codecs .request).fromSlice payload = .error text) :
    (served codecs daemonUid allowedUid peer (frameOf payload ++ rest)).outgoing = [] := by
  have hread : readMessage (codecs .request) (⟨frameOf payload ++ rest, []⟩ : UnixStream) =
      (.error (.protocol ("invalid JSON message: " ++ text)), ⟨rest, []⟩) := by
    rw [readMessage_stream]
    dsimp only
    rw [readMessage_frameOf hfits, hdecodes]
  unfold served handleConnection Connection.of answerPeer
  dsimp only
  rw [if_neg (not_not.mpr hpeer), hread]

/-! ## What the protocol promises -/

/-- The response that a payload calls for. -/
def DaemonResponse.Answers (codec : JsonCodec DaemonRequest) (daemonUid : UInt32)
    (peer : PeerIdentity) (payload : Bytes) (response : DaemonResponse) : Prop :=
  match codec.fromSlice payload with
  | .ok (.status version) =>
      if version = protocolVersion then response = statusResponse daemonUid peer
      else ∃ message, response = .error protocolVersion .unsupportedProtocol message
  | .error _ => ∃ message, response = .error protocolVersion .invalidRequest message

/-- The client sends a status request of this version, and perhaps more. -/
def SendsStatus (codec : JsonCodec DaemonRequest) (client : Bytes) : Prop :=
  ∃ payload rest, FitsFrame payload ∧ client = frameOf payload ++ rest ∧
    codec.fromSlice payload = .ok (.status protocolVersion)

/-- The client sends a frame that is no request. -/
def SendsUndecodable (codec : JsonCodec DaemonRequest) (client : Bytes) : Prop :=
  ∃ payload rest text, FitsFrame payload ∧ client = frameOf payload ++ rest ∧
    codec.fromSlice payload = .error text

/-- What a peer that sends these bytes may expect. -/
structure AnswersClient (codecs : MessageCodecs) (daemonUid allowedUid : UInt32)
    (peer : PeerIdentity) (client : Bytes) : Prop where
  rejected : peer.uid ≠ allowedUid →
    (served codecs daemonUid allowedUid peer client).incoming = client ∧
      ∃ message, UnixStream.Responds (codecs .response)
        (.error protocolVersion .peerRejected message) ⟨client, []⟩
        (served codecs daemonUid allowedUid peer client)
  answered : peer.uid = allowedUid → ∀ payload rest, FitsFrame payload →
    client = frameOf payload ++ rest →
      ∃ response, response.Answers (codecs .request) daemonUid peer payload ∧
        UnixStream.Responds (codecs .response) response ⟨client, []⟩
          (served codecs daemonUid allowedUid peer client)
  independent : peer.uid = allowedUid → SendsStatus (codecs .request) client →
    ∀ client', SendsStatus (codecs .request) client' →
      (served codecs daemonUid allowedUid peer client').outgoing =
        (served codecs daemonUid allowedUid peer client).outgoing

/-- The answer to a status request is the same bytes whatever else is sent. -/
theorem served_status {client : Bytes} (hpeer : peer.uid = allowedUid)
    (hsends : SendsStatus (codecs .request) client)
    (hcarries : ∀ response, DaemonResponse.SentTo (codecs .request) daemonUid peer response →
      (codecs .response).Carries response) :
    ∃ payload, (codecs .response).toVec (statusResponse daemonUid peer) = .ok payload ∧
      (served codecs daemonUid allowedUid peer client).outgoing = frameOf payload := by
  obtain ⟨request, rest, hfits, rfl, hdecodes⟩ := hsends
  obtain ⟨response, rfl, payload, _, hbytes, hjson, _⟩ :=
    served_request hpeer rest hfits hdecodes hcarries
  rw [if_pos rfl] at hjson
  exact ⟨payload, hjson, hbytes⟩

/-- **Every framed request is answered**, except one that does not decode. -/
theorem every_request_answered_iff
    (hcarries : ∀ response, DaemonResponse.SentTo (codecs .request) daemonUid peer response →
      (codecs .response).Carries response) (client : Bytes) :
    AnswersClient codecs daemonUid allowedUid peer client ↔
      ¬ (peer.uid = allowedUid ∧ SendsUndecodable (codecs .request) client) := by
  constructor
  · rintro hanswers ⟨hpeer, payload, rest, text, hfits, rfl, hdecodes⟩
    -- the response that is due was never written
    obtain ⟨response, _, written, _, hbytes, _⟩ := hanswers.answered hpeer payload rest hfits rfl
    rw [served_undecodable hpeer hfits hdecodes] at hbytes
    exact frameOf_ne_nil written hbytes.symm
  · intro hdecodable
    refine ⟨fun hpeer => ?_, fun hpeer payload rest hfits hclient => ?_,
      fun hpeer hsends client' hsends' => ?_⟩
    · obtain ⟨hunread, hresponds⟩ := served_rejected daemonUid hpeer (hcarries _ .rejected)
        client
      exact ⟨hunread, _, hresponds⟩
    · unfold DaemonResponse.Answers
      cases hdecodes : (codecs .request).fromSlice payload with
      | error text => exact absurd ⟨hpeer, payload, rest, text, hfits, hclient, hdecodes⟩ hdecodable
      | ok request =>
          obtain ⟨version⟩ := request
          obtain ⟨response, heq, hresponds⟩ :=
            served_request hpeer rest hfits hdecodes hcarries
          rw [hclient]
          refine ⟨response, ?_, hresponds⟩
          dsimp only
          split at heq
          · next hversion => rw [if_pos hversion, heq]
          · next hversion =>
              rw [if_neg hversion, heq]
              exact ⟨_, rfl⟩
    · obtain ⟨payload, hjson, hbytes⟩ := served_status hpeer hsends hcarries
      obtain ⟨payload', hjson', hbytes'⟩ := served_status hpeer hsends' hcarries
      rw [hjson] at hjson'
      cases hjson'
      rw [hbytes, hbytes']

end

/-! ## One client -/

def samplePeer : PeerIdentity := ⟨42, 1000, 1000⟩

def rejectedText : Bytes := textBytes ("\x7b\"type\":\"error\",\"protocol_version\":1," ++
  "\"code\":\"peer_rejected\"," ++
  "\"message\":\"kernel-authenticated peer UID is not allowed\"\x7d")

def statusResponseText : Bytes := textBytes ("\x7b\"type\":\"status\",\"protocolVersion\":1," ++
  "\"daemonVersion\":\"0.2.0-alpha.1\",\"daemonUid\":1000," ++
  "\"peer\":\x7b\"pid\":42,\"uid\":1000,\"gid\":1000\x7d," ++
  "\"capabilities\":\x7b\"kernelPeerCredentials\":\"enabled\"," ++
  "\"pamAuthentication\":\"disabled\",\"dedicatedUid\":\"disabled\"," ++
  "\"encryptedMount\":\"disabled\"\x7d\x7d")

/-- The JSON of what is sent on this connection. -/
def connectionCodecs : MessageCodecs
  | .request => listedCodec [(.status 1, statusText)]
  | .response => listedCodec
      [(peerRejectedResponse, rejectedText), (statusResponse 1000 samplePeer, statusResponseText)]

set_option maxRecDepth 4000 in
theorem carries_sample (response : DaemonResponse)
    (h : response.SentTo (connectionCodecs .request) 1000 samplePeer) :
    (connectionCodecs .response).Carries response := by
  cases h with
  | rejected => exact ⟨rejectedText, rfl, by decide +kernel, by decide +kernel, rfl⟩
  | status => exact ⟨statusResponseText, rfl, by decide +kernel, by decide +kernel, rfl⟩
  | unsupported hdecodes hversion =>
      cases List.mem_singleton.mp (mem_of_listedCodec hdecodes)
      exact absurd rfl hversion

/-- The theorem at a status request. -/
theorem every_request_answered_iff_sample :
    AnswersClient connectionCodecs 1000 1000 samplePeer (frameOf statusText) := by
  refine (every_request_answered_iff carries_sample (frameOf statusText)).mpr ?_
  rintro ⟨_, payload, rest, text, hfits, hclient, hdecodes⟩
  -- the frame that the client sends is the one that decodes
  have hread : readMessage (connectionCodecs .request) (frameOf payload ++ rest) =
      (.error (.protocol ("invalid JSON message: " ++ text)), rest) := by
    rw [readMessage_frameOf hfits, hdecodes]
  have hok : (readMessage (connectionCodecs .request) (frameOf statusText)).1 =
      .ok (.status 1) := rfl
  rw [← hclient] at hread
  rw [hread] at hok
  cases hok

/-- An empty JSON object is no request, and gets no response. -/
theorem invalid_request_unanswered :
    ¬ AnswersClient connectionCodecs 1000 1000 samplePeer (frameOf (textBytes "\x7b\x7d")) := by
  intro hanswers
  obtain ⟨response, _, written, _, hbytes, _⟩ :=
    hanswers.answered rfl (textBytes "\x7b\x7d") [] (by decide +kernel) (List.append_nil _).symm
  have hnothing : (served connectionCodecs 1000 1000 samplePeer
      (frameOf (textBytes "\x7b\x7d"))).outgoing = [] := by decide +kernel
  rw [hnothing] at hbytes
  exact frameOf_ne_nil written hbytes.symm

end CodexVault
