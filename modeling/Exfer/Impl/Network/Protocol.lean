import Exfer.Impl.Block

/-!
# The wire protocol

`network/protocol.rs`: messages and their wire format, and what the handshake signs and derives its
session key from.
-/

namespace Exfer.Impl

open Lib (ascii failIf leBytes leNat)

def protocolVersion : UInt32 := 5

def maxMessageSize : Nat := 8388608

def maxGetblocksItems : Nat := 64

def maxAddrItems : Nat := 64

def helloV4PayloadSize : Nat := 268

def addrEntryWireSize : Nat := 26

/-- The first bytes of a string as an array. -/
def arrayOfBytes (n : Nat) (data : List UInt8) : Vector UInt8 n :=
  Vector.ofFn fun i : Fin n => data.getD i 0

/-! ## Messages -/

structure HelloMsg where
  version : UInt32
  genesisBlockId : Hash256
  bestHeight : UInt64
  bestBlockId : Hash256
  cumulativeWork : Vector UInt8 32
  nonce : Vector UInt8 32
  echo : Vector UInt8 32
  pubkey : Vector UInt8 32
  sig : Vector UInt8 64
  deriving DecidableEq

structure TipResponseMsg where
  height : UInt64
  blockId : Hash256
  cumulativeWork : Vector UInt8 32
  deriving DecidableEq

structure GetHeadersMsg where
  startHeight : UInt64
  maxCount : UInt32
  deriving DecidableEq

inductive SocketAddr where
  | v4 (ip : Vector UInt8 4) (port : UInt16)
  | v6 (ip : Vector UInt8 16) (port : UInt16) (flowinfo scopeId : UInt32)
  deriving DecidableEq

structure AddrEntry where
  addr : SocketAddr
  lastSeen : UInt64
  deriving DecidableEq

inductive Message where
  | hello (h : HelloMsg)
  | authAck (sig : Vector UInt8 64)
  | ping
  | pong
  | newBlock (b : Block)
  | getBlocks (hashes : List Hash256)
  | blockResponse (b : Block)
  | getTip
  | tipResponse (t : TipResponseMsg)
  | inv (hashes : List Hash256)
  | newTx (tx : Transaction)
  | getHeaders (g : GetHeadersMsg)
  | headers (hdrs : List BlockHeader)
  | getAddr
  | addr (entries : List AddrEntry)
  deriving DecidableEq

/-! ## Payloads -/

def serializeHello (h : HelloMsg) : List UInt8 :=
  leBytes 4 h.version.toNat ++ h.genesisBlockId.toList ++ leBytes 8 h.bestHeight.toNat ++
    h.bestBlockId.toList ++ h.cumulativeWork.toList ++ h.nonce.toList ++ h.echo.toList ++
    h.pubkey.toList ++ h.sig.toList

/-- `deserialize_hello`: a payload of an earlier version lacks the later fields, which are zero. -/
def deserializeHello (data : List UInt8) : Except SerError HelloMsg := do
  failIf (data.length < 108) .unexpectedEof
  failIf (data.length ≠ 108 ∧ data.length ≠ 172 ∧ data.length ≠ helloV4PayloadSize)
    (.invalidData "Hello payload must be 108, 172, or 268 bytes")
  return {
    version := UInt32.ofNat (leNat (data.take 4))
    genesisBlockId := hashOfBytes (data.drop 4)
    bestHeight := UInt64.ofNat (leNat ((data.drop 36).take 8))
    bestBlockId := hashOfBytes (data.drop 44)
    cumulativeWork := arrayOfBytes 32 (data.drop 76)
    nonce := if data.length ≥ 172 then arrayOfBytes 32 (data.drop 108) else Vector.replicate 32 0
    echo := if data.length ≥ 172 then arrayOfBytes 32 (data.drop 140) else Vector.replicate 32 0
    pubkey := if data.length ≥ helloV4PayloadSize then arrayOfBytes 32 (data.drop 172)
      else Vector.replicate 32 0
    sig := if data.length ≥ helloV4PayloadSize then arrayOfBytes 64 (data.drop 204)
      else Vector.replicate 64 0 }

def serializeTipResponse (t : TipResponseMsg) : List UInt8 :=
  leBytes 8 t.height.toNat ++ t.blockId.toList ++ t.cumulativeWork.toList

def deserializeTipResponse (data : List UInt8) : Except SerError TipResponseMsg := do
  failIf (data.length < 72) .unexpectedEof
  failIf (data.length ≠ 72) (.invalidData "trailing bytes in tip response")
  return {
    height := UInt64.ofNat (leNat (data.take 8))
    blockId := hashOfBytes (data.drop 8)
    cumulativeWork := arrayOfBytes 32 (data.drop 40) }

def serializeGetHeaders (g : GetHeadersMsg) : List UInt8 :=
  leBytes 8 g.startHeight.toNat ++ leBytes 4 g.maxCount.toNat

def deserializeGetHeaders (data : List UInt8) : Except SerError GetHeadersMsg := do
  failIf (data.length < 12) .unexpectedEof
  failIf (data.length ≠ 12) (.invalidData "trailing bytes in get_headers")
  return {
    startHeight := UInt64.ofNat (leNat (data.take 8))
    maxCount := UInt32.ofNat (leNat ((data.drop 8).take 4)) }

/-- The first 12 octets of an IPv4 address in its form for IPv6. -/
def ipv4Mapped : List UInt8 :=
  List.replicate 10 0 ++ [255, 255]

/-- `serialize_socket_addr`: an IPv4 address in its form for IPv6, and the port. -/
def serializeSocketAddr : SocketAddr → List UInt8
  | .v4 ip port => ipv4Mapped ++ ip.toList ++ leBytes 2 port.toNat
  | .v6 ip port _ _ => ip.toList ++ leBytes 2 port.toNat

def deserializeSocketAddr (data : List UInt8) : SocketAddr :=
  let port := UInt16.ofNat (leNat ((data.drop 16).take 2))
  if data.take 12 = ipv4Mapped then .v4 (arrayOfBytes 4 (data.drop 12)) port
  else .v6 (arrayOfBytes 16 data) port 0 0

def serializeAddrEntry (e : AddrEntry) : List UInt8 :=
  serializeSocketAddr e.addr ++ leBytes 8 e.lastSeen.toNat

def deserializeAddrEntry (data : List UInt8) : AddrEntry where
  addr := deserializeSocketAddr (data.take 18)
  lastSeen := UInt64.ofNat (leNat ((data.drop 18).take 8))

/-- A count and items of a fixed size. -/
def serializeItems {α : Type} (write : α → List UInt8) (items : List α) : List UInt8 :=
  leBytes 4 items.length ++ items.flatMap write

/-- A count of at most `max` and as many items of the given size. -/
def deserializeItems {α : Type} (max size : Nat) (read : List UInt8 → α) (what : String)
    (data : List UInt8) : Except SerError (List α) := do
  failIf (data.length < 4) .unexpectedEof
  let count := leNat (data.take 4)
  failIf (count > max) .invalidLength
  failIf (data.length < 4 + count * size) .unexpectedEof
  failIf (data.length ≠ 4 + count * size) (.invalidData ("trailing bytes in " ++ what ++ " list"))
  return (List.range count).map fun i => read ((data.drop (4 + i * size)).take size)

def serializeHashList (hashes : List Hash256) : List UInt8 :=
  serializeItems Vector.toList hashes

def deserializeHashList (data : List UInt8) : Except SerError (List Hash256) :=
  deserializeItems maxGetblocksItems 32 hashOfBytes "hash" data

def serializeHeaders (headers : List BlockHeader) : List UInt8 :=
  serializeItems BlockHeader.serialize headers

def deserializeHeaders (data : List UInt8) : Except SerError (List BlockHeader) :=
  deserializeItems maxGetblocksItems headerSize BlockHeader.deserialize "headers" data

/-- `serialize_addr_list`: entries past the limit are left out. -/
def serializeAddrList (entries : List AddrEntry) : List UInt8 :=
  serializeItems serializeAddrEntry (entries.take maxAddrItems)

def deserializeAddrList (data : List UInt8) : Except SerError (List AddrEntry) :=
  deserializeItems maxAddrItems addrEntryWireSize deserializeAddrEntry "addr" data

/-! ## Frames -/

namespace Message

/-- The message types. -/
def msgType : Message → UInt8
  | .hello _ => 0x01
  | .ping => 0x02
  | .pong => 0x03
  | .newBlock _ => 0x10
  | .getBlocks _ => 0x11
  | .blockResponse _ => 0x12
  | .getTip => 0x13
  | .tipResponse _ => 0x14
  | .inv _ => 0x15
  | .getAddr => 0x16
  | .addr _ => 0x17
  | .authAck _ => 0x18
  | .newTx _ => 0x20
  | .getHeaders _ => 0x21
  | .headers _ => 0x22

/-- The payload of a message. -/
def payload : Message → Except SerError (List UInt8)
  | .hello h => .ok (serializeHello h)
  | .authAck sig => .ok sig.toList
  | .ping | .pong | .getTip | .getAddr => .ok []
  | .newBlock b | .blockResponse b => b.serialize
  | .getBlocks hashes | .inv hashes => .ok (serializeHashList hashes)
  | .tipResponse t => .ok (serializeTipResponse t)
  | .newTx tx => tx.serialize
  | .getHeaders g => .ok (serializeGetHeaders g)
  | .headers hdrs => .ok (serializeHeaders hdrs)
  | .addr entries => .ok (serializeAddrList entries)

/-- `serialize`: the type, the length of the payload as a `u32`, and the payload. -/
def serialize (m : Message) : Except SerError (List UInt8) := do
  let payload ← m.payload
  return m.msgType :: (leBytes 4 payload.length ++ payload)

/-- A message without a payload. -/
def ofEmpty (name : String) (m : Message) (payload : List UInt8) : Except SerError Message := do
  failIf (payload ≠ []) (.invalidData (name ++ " must have empty payload"))
  return m

/-- A message whose payload is one value. -/
def ofWhole {α : Type} (name : String) (read : List UInt8 → Except SerError (α × Nat))
    (make : α → Message) (payload : List UInt8) : Except SerError Message := do
  let (a, consumed) ← read payload
  failIf (consumed ≠ payload.length) (.invalidData ("trailing bytes in " ++ name ++ " payload"))
  return make a

/-- The `{:#x}` form of a byte. -/
def hexByte (b : UInt8) : String :=
  "0x" ++ String.ofList (Nat.toDigits 16 b.toNat)

/-- The message of a type with a payload. -/
def ofPayload (type : UInt8) (payload : List UInt8) : Except SerError Message := do
  if type = 0x01 then return .hello (← deserializeHello payload)
  else if type = 0x02 then ofEmpty "Ping" .ping payload
  else if type = 0x03 then ofEmpty "Pong" .pong payload
  else if type = 0x10 then ofWhole "NewBlock" Block.deserialize .newBlock payload
  else if type = 0x11 then return .getBlocks (← deserializeHashList payload)
  else if type = 0x12 then ofWhole "BlockResponse" Block.deserialize .blockResponse payload
  else if type = 0x13 then ofEmpty "GetTip" .getTip payload
  else if type = 0x14 then return .tipResponse (← deserializeTipResponse payload)
  else if type = 0x15 then return .inv (← deserializeHashList payload)
  else if type = 0x20 then ofWhole "NewTx" Transaction.deserialize .newTx payload
  else if type = 0x21 then return .getHeaders (← deserializeGetHeaders payload)
  else if type = 0x22 then return .headers (← deserializeHeaders payload)
  else if type = 0x16 then ofEmpty "GetAddr" .getAddr payload
  else if type = 0x17 then return .addr (← deserializeAddrList payload)
  else if type = 0x18 then do
    failIf (payload.length ≠ 64) (.invalidData "AuthAck payload must be 64 bytes")
    return .authAck (arrayOfBytes 64 payload)
  else .error (.invalidData ("unknown message type: " ++ hexByte type))

def deserialize (data : List UInt8) : Except SerError (Message × Nat) := do
  failIf (data.length < 5) .unexpectedEof
  let payloadLen := leNat ((data.drop 1).take 4)
  failIf (payloadLen > maxMessageSize) (.invalidData "message too large")
  failIf (data.length < 5 + payloadLen) .unexpectedEof
  let m ← ofPayload (data.headD 0) ((data.drop 5).take payloadLen)
  return (m, 5 + payloadLen)

end Message

/-! ## The handshake -/

/-- The prefix `DS_AUTH`. -/
def dsAuth : List UInt8 := ascii "EXFER-AUTH"

/-- The prefix `DS_SESSION`. -/
def dsSession : List UInt8 := ascii "EXFER-SESSION"

/-- `tip_commitment`: 72 bytes. -/
def tipCommitment (bestHeight : UInt64) (bestBlockId : Hash256) (cumulativeWork : Vector UInt8 32) :
    List UInt8 :=
  leBytes 8 bestHeight.toNat ++ bestBlockId.toList ++ cumulativeWork.toList

section

variable [Crypto]

def computeAuthTranscript (genesisId : Hash256) (version : UInt32) (nonceA nonceB : Vector UInt8 32)
    (role : UInt8) (tipA tipB : List UInt8) : Hash256 :=
  Crypto.sha256 (dsAuth ++ genesisId.toList ++ leBytes 4 version.toNat ++ nonceA.toList ++
    nonceB.toList ++ [role] ++ tipA ++ tipB)

def computeSessionKey (genesisId : Hash256) (version : UInt32) (nonceA nonceB : Vector UInt8 32)
    (dhSharedSecret : Vector UInt8 32) : Hash256 :=
  let transcript := Crypto.sha256 (dsAuth ++ genesisId.toList ++ leBytes 4 version.toNat ++
    nonceA.toList ++ nonceB.toList)
  Crypto.sha256 (dsSession ++ transcript.toList ++ dhSharedSecret.toList)

end

end Exfer.Impl
