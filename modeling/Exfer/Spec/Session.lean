import Exfer.Impl.Network.Peer

/-!
# Sessions

Two ends that write and read frames after a handshake, over a network that delivers any bytes at any
time (`SessionStep`). Of the tags it is assumed that none is accepted but for a frame that one of the
two ends has tagged (`Unforged`).
-/

namespace Exfer.Spec

open Lib Impl

/-! ## Messages on the wire -/

/-- An address as it is read back: an IPv4 address in its form for IPv6 is the IPv4 address, and flow
and scope are not written. -/
def addrOnWire : SocketAddr → SocketAddr
  | .v4 ip port => .v4 ip port
  | .v6 ip port _ _ =>
    if ip.toList.take 12 = ipv4Mapped then .v4 (arrayOfBytes 4 (ip.toList.drop 12)) port
    else .v6 ip port 0 0

/-- A message as it is read back. -/
def onWire : Message → Message
  | .addr entries => .addr ((entries.take maxAddrItems).map fun e => ⟨addrOnWire e.addr, e.lastSeen⟩)
  | m => m

/-- The transactions of a message in a block have a witness for each input. -/
def Witnessed : Message → Prop
  | .newBlock b | .blockResponse b => ∀ tx ∈ b.transactions, tx.witnesses.length = tx.inputs.length
  | _ => True

/-- The frame of the one message is read as the other. -/
def ReadBackAs (m r : Message) : Prop :=
  ∃ frame, m.serialize = .ok frame ∧ Message.deserialize frame = .ok (r, frame.length)

/-! ## Ends -/

/-- The ends of a session. -/
inductive Side where
  | initiator
  | responder
  deriving DecidableEq

/-- The other end. -/
def Side.other : Side → Side
  | .initiator => .responder
  | .responder => .initiator

/-- An end of a session, with what it has written and returned so far. -/
structure Endpoint where
  writer : WriterState
  reader : ReaderState
  /-- What has been delivered to the reader. -/
  delivered : List UInt8
  /-- What the reader has not read of it. -/
  unread : List UInt8
  /-- The messages that were written. -/
  written : List Message
  /-- The messages that the reader returned. -/
  returned : List Message

/-- An end after the handshake. -/
def Endpoint.new (sendKey recvKey : Hash256) : Endpoint where
  writer := ⟨sendKey, 0⟩
  reader := ⟨recvKey, 0, [], none⟩
  delivered := []
  unread := []
  written := []
  returned := []

/-- The two ends after a handshake with the given session key. -/
def established [Crypto] (sessionKey : Hash256) : Side → Endpoint
  | .initiator => .new (deriveDirectionalKeys sessionKey).1 (deriveDirectionalKeys sessionKey).2
  | .responder => .new (deriveDirectionalKeys sessionKey).2 (deriveDirectionalKeys sessionKey).1

/-- Bytes are delivered to the reader. -/
def Endpoint.deliver (e : Endpoint) (bytes : List UInt8) : Endpoint :=
  { e with delivered := e.delivered ++ bytes, unread := e.unread ++ bytes }

/-- The message that a call of the reader has returned. -/
def returnedBy : Except PeerError (Option Message) → List Message
  | .ok (some m) => [m]
  | _ => []

section

variable [PeerCrypto]

/-- A call of `write_framed_message`. A message counts as written once its frame has a tag, whatever
comes of the write. -/
def Endpoint.write (e : Endpoint) (m : Message) (outcome : WriteOutcome) : Endpoint :=
  match writeFramedMessage e.writer m outcome with
  | (writer, some _, _) => { e with writer, written := e.written ++ [m] }
  | (writer, none, _) => { e with writer }

/-! ## Runs -/

/-- The end has tagged a frame with a key and a counter. -/
def Tagged (e : Endpoint) (key : Hash256) (counter : UInt64) (frame : List UInt8) : Prop :=
  key = e.writer.sendKey ∧ ∃ m, e.written[counter.toNat]? = some m ∧ m.serialize = .ok frame

/-- Wherever the bytes that were delivered to a reader hold a counter, a frame and a tag that the
reader would accept, one of the ends has tagged that frame. -/
def Unforged (s : Side → Endpoint) (side : Side) : Prop :=
  ∀ counter frame tag, (leBytes 8 counter.toNat ++ frame ++ tag) <:+: (s side).delivered →
    tag.length = hmacTagSize → verifyFrameHmac (s side).reader.recvKey counter frame tag = true →
    ∃ writer, Tagged (s writer) (s side).reader.recvKey counter frame

/-- An end writes a message, or bytes are delivered to a reader and a call of `reader_recv` comes to
its end. -/
inductive SessionStep (s : Side → Endpoint) : (Side → Endpoint) → Prop where
  | write (side : Side) (m : Message) (outcome : WriteOutcome) :
    SessionStep s (Function.update s side ((s side).write m outcome))
  | recv (side : Side) (bytes : List UInt8) (waits : List Wait) (now : Nat)
    (reserve : Nat → Except String Unit) (result : Except PeerError (Option Message)) :
    Unforged (Function.update s side ((s side).deliver bytes)) side →
    (readerRecv now reserve (s side).reader ⟨(s side).unread ++ bytes, waits⟩).result = some result →
    SessionStep s (Function.update s side { (s side).deliver bytes with
      reader := (readerRecv now reserve (s side).reader ⟨(s side).unread ++ bytes, waits⟩).state
      unread := (readerRecv now reserve (s side).reader ⟨(s side).unread ++ bytes, waits⟩).link.stream
      returned := (s side).returned ++ returnedBy result })

/-- Runs of a session. -/
def SessionRun : (Side → Endpoint) → (Side → Endpoint) → Prop :=
  Relation.ReflTransGen SessionStep

end

end Exfer.Spec
