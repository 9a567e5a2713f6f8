import Exfer.Impl.Network.Protocol
import Exfer.Impl.Validation.Transaction

/-!
# Frames of a session

`network/peer.rs`, from the end of the handshake on: how messages are framed and authenticated, and
how the reader takes frames off its stream. Where the reader waits for the stream, what comes of it is
given by a list of `Wait`s; what `try_reserve` of the frame budget answers is an argument. The counts
of bytes read are left out.
-/

namespace Exfer.Impl

open Lib (ascii failIf leBytes leNat)

/-- The primitives of other crates that sessions use, beside those of `Crypto`. -/
class PeerCrypto where
  /-- `SigningKey::verifying_key`. -/
  verifyingKey : Vector UInt8 32 → Vector UInt8 32
  /-- `SigningKey::sign`. -/
  ed25519Sign : Vector UInt8 32 → List UInt8 → Vector UInt8 64
  /-- The X25519 shared secret of a public key and a signing key. -/
  x25519 : Vector UInt8 32 → Vector UInt8 32 → Vector UInt8 32
  /-- HMAC-SHA256 of a message under a key. -/
  hmacSha256 : Vector UInt8 32 → List UInt8 → Vector UInt8 32

def hmacTagSize : Nat := 16

/-- `std::io::ErrorKind`, as far as it is told apart. -/
inductive IoErrorKind where
  | invalidData
  | timedOut
  | unexpectedEof
  | connectionReset
  | connectionAborted
  | brokenPipe
  | interrupted
  | writeZero
  | notConnected
  | other
  deriving DecidableEq, Repr

/-- `std::io::Error`, with its `Display` form. -/
structure IoError where
  kind : IoErrorKind
  text : String
  deriving DecidableEq, Repr

/-- The error of a read that meets the end of the stream. -/
def IoError.eof : IoError := ⟨.unexpectedEof, "early eof"⟩

/-- `PeerError`, without the variants that the modelled functions do not construct. -/
inductive PeerError where
  | io (text : String)
  | handshakeTimeout
  | genesisMismatch
  | versionMismatch
  | unexpectedMessage
  | serializationError (text : String)
  | nonceMismatch
  | authFailed
  | selfConnection
  | slowPeer (text : String)
  | hmacFailure
  | slowPeerTimeout (text : String)
  | transportIo (text : String)
  | frameBudgetExceeded (text : String)
  | malformedFrame (text : String)
  | duplicateIdentity (identity : Vector UInt8 32)
  deriving DecidableEq, Repr

/-! ## Keys and tags -/

/-- The prefix `DS_MAC_IR`. -/
def dsMacIr : List UInt8 := ascii "EXFER-MAC-IR"

/-- The prefix `DS_MAC_RI`. -/
def dsMacRi : List UInt8 := ascii "EXFER-MAC-RI"

/-- `derive_directional_keys`: from the initiator to the responder, and back. -/
def deriveDirectionalKeys [Crypto] (sessionKey : Hash256) : Hash256 × Hash256 :=
  (Crypto.sha256 (dsMacIr ++ sessionKey.toList), Crypto.sha256 (dsMacRi ++ sessionKey.toList))

section

variable [PeerCrypto]

def computeFrameHmac (sessionKey : Hash256) (counter : UInt64) (frame : List UInt8) : List UInt8 :=
  (PeerCrypto.hmacSha256 sessionKey (leBytes 8 counter.toNat ++ frame)).toList.take hmacTagSize

/-- `verify_frame_hmac`: the bytes are compared without a branch. -/
def verifyFrameHmac (sessionKey : Hash256) (counter : UInt64) (frame receivedTag : List UInt8) : Bool :=
  let expected := computeFrameHmac sessionKey counter frame
  (expected.zip receivedTag).foldl (fun diff ab => diff ||| (ab.1 ^^^ ab.2)) 0 == 0

/-! ## Writing -/

structure WriterState where
  sendKey : Hash256
  sendCounter : UInt64

/-- What comes of writing a buffer to the stream. -/
inductive WriteOutcome where
  | written
  | timedOut
  | failed (e : IoError)

/-- `checked_add` of one. -/
def checkedSucc (n : UInt64) : Option UInt64 :=
  if n.toNat + 1 < 2 ^ 64 then some (n + 1) else none

/-- `write_framed_message`: the state after it, the buffer it writes if it comes so far, and its
result. -/
def writeFramedMessage (w : WriterState) (m : Message) (outcome : WriteOutcome) :
    WriterState × Option (List UInt8) × Except PeerError Unit :=
  match m.serialize with
  | .error e => (w, none, .error (.serializationError e.display))
  | .ok frame =>
    match checkedSucc w.sendCounter with
    | none => (w, none, .error (.io "send counter overflow"))
    | some next =>
      let tag := computeFrameHmac w.sendKey w.sendCounter frame
      let buf := leBytes 8 w.sendCounter.toNat ++ frame ++ tag
      let result := match outcome with
        | .written => .ok ()
        | .timedOut => .error (.io "write timeout: peer not reading")
        | .failed e => .error (.io e.text)
      ({ w with sendCounter := next }, some buf, result)

/-! ## Reading -/

/-- What comes of a wait for the stream. -/
inductive Wait where
  /-- At the given time bytes have come: for a read of what there is, at most `1 + more` of them. -/
  | ready (more now : Nat)
  /-- The timer of the read fires. -/
  | timedOut
  /-- The timer of the whole frame fires. -/
  | deadline
  | failed (e : IoError)

/-- The stream of a reader, and what will come of its waits. -/
structure Link where
  stream : List UInt8
  waits : List Wait

/-- Why a read ends without a result. -/
inductive ReadStop where
  | io (e : IoError)
  | elapsed
  /-- It is still waiting. -/
  | pending

/-- Reads from the stream. -/
abbrev ReadM := EStateM ReadStop Link

/-- What comes of the next wait. -/
def nextWait : ReadM Wait := do
  let l ← get
  match l.waits with
  | [] => throw .pending
  | w :: ws =>
    set { l with waits := ws }
    return w

/-- The next bytes of the stream, once they have come. -/
def takeBytes (n : Nat) : ReadM (List UInt8) := do
  let l ← get
  if n ≤ l.stream.length then
    set { l with stream := l.stream.drop n }
    return l.stream.take n
  else
    set { l with stream := [] }
    throw (.io .eof)

/-- `read_exact` under the timer of the frame. -/
def readExact (n : Nat) : ReadM (List UInt8) := do
  match ← nextWait with
  | .ready _ _ => takeBytes n
  | .failed e => throw (.io e)
  | .timedOut | .deadline => throw .elapsed

def eagerAllocLimit : Nat := 32768

def readChunkSize : Nat := 32768

/-- `read_exact` of a chunk, which has a timer of its own. -/
def readChunk (n received total : Nat) : ReadM (List UInt8) := do
  match ← nextWait with
  | .ready _ _ => takeBytes n
  | .failed e => throw (.io e)
  | .timedOut => throw (.io ⟨.timedOut, "slow peer: chunk read timed out (" ++ toString received ++
      " of " ++ toString total ++ " bytes received)"⟩)
  | .deadline => throw .elapsed

/-- The loop of `read_payload_chunked`. -/
def readPayloadChunked (total remaining : Nat) : ReadM (List UInt8) := do
  if remaining = 0 then return []
  else
    let chunkSize := min remaining readChunkSize
    let chunk ← readChunk chunkSize (total - remaining) total
    return chunk ++ (← readPayloadChunked total (remaining - chunkSize))
termination_by remaining
decreasing_by
  simp only [readChunkSize]
  omega

/-- The most payload that the reader takes for a type of message. -/
def maxPayload (allowHeavy : Bool) (msgType : UInt8) : Nat :=
  if msgType = 0x01 then helloV4PayloadSize
  else if msgType = 0x02 ∨ msgType = 0x03 ∨ msgType = 0x13 then 0
  else if msgType = 0x10 then maxBlockSize
  else if msgType = 0x12 then maxBlockSize
  else if msgType = 0x16 then 0
  else if msgType = 0x17 then 4 + maxAddrItems * 26
  else if msgType = 0x18 then 64
  else if msgType = 0x20 then maxTxSize
  else if msgType = 0x11 ∨ msgType = 0x15 then 4 + maxGetblocksItems * 32
  else if msgType = 0x14 then 72
  else if msgType = 0x21 then 12
  else if msgType = 0x22 then
    if allowHeavy then 4 + maxGetblocksItems * headerSize else 0
  else 0

def frameHeaderSize : Nat := 5

def peakPreverBytes (payloadLen : Nat) : Nat :=
  payloadLen * 2 + frameHeaderSize

/-- A read that fails for what has been read. -/
def failReadIf (p : Prop) [Decidable p] (text : String) : ReadM Unit :=
  if p then throw (.io ⟨.invalidData, text⟩) else pure ()

/-- The payload: in one piece if it is small. -/
def readPayload (payloadLen : Nat) : ReadM (List UInt8) :=
  if payloadLen ≤ eagerAllocLimit then
    if payloadLen = 0 then pure [] else readExact payloadLen
  else readPayloadChunked payloadLen payloadLen

def readMessageAfterType (msgType : UInt8) (allowHeavy : Bool) (sessionKey : Hash256)
    (counter : UInt64) (reserve : Nat → Except String Unit) : ReadM Message := do
  let payloadLen := leNat (← readExact 4)
  failReadIf (payloadLen > maxMessageSize) "message too large"
  failReadIf (payloadLen > maxPayload allowHeavy msgType) "message payload too large"
  match reserve (peakPreverBytes payloadLen) with
  | .error e => throw (.io ⟨.other, "frame budget exhausted — shedding peer: " ++ e⟩)
  | .ok () =>
    let payload ← readPayload payloadLen
    let receivedTag ← readExact hmacTagSize
    let full := msgType :: (leBytes 4 payloadLen ++ payload)
    failReadIf (! verifyFrameHmac sessionKey counter full receivedTag) "HMAC verification failed"
    match Message.deserialize full with
    | .ok (msg, _) => return msg
    | .error e => throw (.io ⟨.invalidData, "deserialization error: " ++ e.display⟩)

def readMessage (allowHeavy : Bool) (sessionKey : Hash256) (counter : UInt64)
    (reserve : Nat → Except String Unit) : ReadM Message := do
  let msgType := (← readExact 1).headD 0
  readMessageAfterType msgType allowHeavy sessionKey counter reserve

/-- `ReaderState`, with the bytes of the counter that have been read. -/
structure ReaderState where
  recvKey : Hash256
  recvCounter : UInt64
  counterBuf : List UInt8
  counterStarted : Option Nat

/-- A call of `reader_recv` at its end: the state and the stream it leaves, and its result, or none
where it is still waiting. -/
structure RecvEnd where
  state : ReaderState
  link : Link
  result : Option (Except PeerError (Option Message))

/-- The mapping of the errors of `read_message` in `reader_recv`. -/
def classifyReadError (e : IoError) : PeerError :=
  if "HMAC verification failed".toList <:+: e.text.toList then .hmacFailure
  else if "frame budget exhausted".toList <+: e.text.toList then .frameBudgetExceeded e.text
  else
    match e.kind with
    | .timedOut => .slowPeerTimeout e.text
    | .invalidData => .malformedFrame e.text
    | _ => .transportIo e.text

/-- The second phase of `reader_recv`, once the counter has been read. -/
def recvFrame (reserve : Nat → Except String Unit) (state : ReaderState) (link : Link) : RecvEnd :=
  let counter := UInt64.ofNat (leNat state.counterBuf)
  let state := { state with counterBuf := [], counterStarted := none }
  match readMessage true state.recvKey counter reserve link with
  | .error .pending link => ⟨state, link, none⟩
  | .error (.io e) link => ⟨state, link, some (.error (classifyReadError e))⟩
  | .error .elapsed link =>
    ⟨state, link, some (.error (.slowPeerTimeout "frame read timeout: peer too slow mid-message"))⟩
  | .ok msg link =>
    if counter < state.recvCounter then
      ⟨state, link, some (.error (.slowPeer "frame counter replay"))⟩
    else
      match checkedSucc counter with
      | none => ⟨state, link, some (.error (.io "recv counter overflow"))⟩
      | some next => ⟨{ state with recvCounter := next }, link, some (.ok (some msg))⟩

/-- The first phase of `reader_recv`, which reads what is missing of the counter. -/
def recvCounter (reserve : Nat → Except String Unit) (hadPartial : Bool) :
    ReaderState → List UInt8 → List Wait → RecvEnd
  | state, stream, waits =>
    if 8 ≤ state.counterBuf.length then recvFrame reserve state ⟨stream, waits⟩
    else
      match waits with
      | [] => ⟨state, ⟨stream, []⟩, none⟩
      | .ready more now :: waits =>
        let n := min (1 + more) (8 - state.counterBuf.length)
        if stream = [] then ⟨state, ⟨stream, waits⟩, some (.error (.io "connection closed"))⟩
        else recvCounter reserve hadPartial { state with
            counterBuf := state.counterBuf ++ stream.take n
            counterStarted := some (state.counterStarted.getD now) } (stream.drop n) waits
      | .failed e :: waits => ⟨state, ⟨stream, waits⟩, some (.error (.io e.text))⟩
      | .timedOut :: waits | .deadline :: waits =>
        if ! hadPartial ∧ state.counterBuf = [] then ⟨state, ⟨stream, waits⟩, some (.ok none)⟩
        else ⟨state, ⟨stream, waits⟩,
          some (.error (.slowPeerTimeout "timeout during partial frame counter read"))⟩

def counterDeadlineSecs : Nat := 5

/-- `reader_recv`, called at the given time. -/
def readerRecv (now : Nat) (reserve : Nat → Except String Unit) (state : ReaderState) (link : Link) :
    RecvEnd :=
  let hadPartial := ! state.counterBuf.isEmpty
  if hadPartial ∧ ∃ started ∈ state.counterStarted, now - started ≥ counterDeadlineSecs then
    ⟨{ state with counterBuf := [], counterStarted := none }, link,
      some (.error (.slowPeerTimeout "frame counter trickle timeout (5s)"))⟩
  else recvCounter reserve hadPartial state link.stream link.waits

end

end Exfer.Impl
