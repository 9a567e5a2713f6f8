import Exfer.Impl.Network.Peer

/-!
# The handshake

`Peer::handshake` of `network/peer.rs`. It is cut where it waits for the other side: a `HandshakeStage`
says what it reads next, `handshakeStart` is what it does before the first read and `handshakeResume`
what it does once a read has come to its end. What a handshake has signed, accepted and sent is kept
in a `HandshakeTrace`.
-/

namespace Exfer.Impl

open Lib (failIf leBytes leNat)

/-! ## Reads -/

/-- The `{:02x}` form of a byte, after `0x`. -/
def hexByte02 (b : UInt8) : String :=
  "0x" ++ String.ofList (Nat.toDigits 16 (b.toNat / 16) ++ Nat.toDigits 16 (b.toNat % 16))

def readHello : ReadM Message := do
  let msgType := (← readExact 1).headD 0
  failReadIf (msgType ≠ 0x01) ("handshake: expected Hello (0x01), got " ++ hexByte02 msgType)
  let payloadLen := leNat (← readExact 4)
  failReadIf (payloadLen > helloV4PayloadSize) "handshake: Hello payload too large"
  let payload ← readExact payloadLen
  let full := msgType :: (leBytes 4 payloadLen ++ payload)
  match Message.deserialize full with
  | .ok (msg, _) => return msg
  | .error e => throw (.io ⟨.invalidData, "deserialization error: " ++ e.display⟩)

def msgAuthAck : UInt8 := 0x18

def readAuthAck : ReadM (Vector UInt8 64) := do
  let msgType := (← readExact 1).headD 0
  failReadIf (msgType ≠ msgAuthAck) ("handshake: expected AuthAck (" ++ hexByte02 msgAuthAck ++
    "), got " ++ hexByte02 msgType)
  let payloadLen := leNat (← readExact 4)
  failReadIf (payloadLen ≠ 64) "handshake: AuthAck payload must be 64 bytes"
  return arrayOfBytes 64 (← readExact payloadLen)

/-- A read under the timer of the handshake: its result and what is left of the stream, or none where
it is still waiting. -/
def readInTime {α : Type} (read : ReadM α) (link : Link) : Option (Except PeerError α × List UInt8) :=
  match read link with
  | .ok a link => some (.ok a, link.stream)
  | .error (.io e) link => some (.error (.io e.text), link.stream)
  | .error .elapsed link => some (.error .handshakeTimeout, link.stream)
  | .error .pending _ => none

/-! ## States -/

/-- The arguments of `handshake`, with the nonce that it draws. -/
structure HandshakeConfig where
  ourHello : HelloMsg
  isInbound : Bool
  signingKey : Vector UInt8 32
  ourNonce : Vector UInt8 32

/-- `Peer`, without the address and the stream. -/
structure Peer where
  version : UInt32
  genesisBlockId : Hash256
  bestHeight : UInt64
  bestBlockId : Hash256
  cumulativeWork : Vector UInt8 32
  isInbound : Bool
  identity : Vector UInt8 32
  sendKey : Hash256
  recvKey : Hash256
  sendCounter : UInt64
  recvCounter : UInt64

/-- What a handshake reads next, or how it ended. -/
inductive HandshakeStage where
  | readHello
  | readAuthAck (their : HelloMsg)
  | ended (result : Except PeerError Peer)

/-- What a handshake has done. -/
structure HandshakeTrace where
  /-- The Hello that it read. -/
  heard : Option HelloMsg
  /-- The transcripts that it signed. -/
  signed : List Hash256
  /-- The keys and transcripts of the signatures that it accepted. -/
  verified : List (Vector UInt8 32 × Hash256)
  /-- The buffers that it wrote. -/
  sent : List (List UInt8)
  /-- `peer_identity_out`. -/
  peerIdentityOut : Option (Vector UInt8 32)

/-- A handshake between two reads. -/
structure Handshake where
  stage : HandshakeStage
  trace : HandshakeTrace

/-- What a handshake does between two reads. -/
abbrev HandshakeM := EStateM PeerError HandshakeTrace

/-- The handshake after it has gone on to its next read or to its end. -/
def Handshake.after (m : HandshakeM HandshakeStage) (trace : HandshakeTrace) : Handshake :=
  match m trace with
  | .ok stage trace => ⟨stage, trace⟩
  | .error e trace => ⟨.ended (.error e), trace⟩

/-- A result that is passed on with `?`. -/
def HandshakeM.ofExcept {α : Type} : Except PeerError α → HandshakeM α
  | .ok a => pure a
  | .error e => throw e

/-- A message is written with `write_all`, which may fail. -/
def sendMessage (m : Message) (failure : Option IoError) : HandshakeM Unit := do
  match m.serialize with
  | .error e => throw (.serializationError e.display)
  | .ok bytes =>
    modify fun t => { t with sent := t.sent ++ [bytes] }
    match failure with
    | some e => throw (.io e.text)
    | none => return ()

/-- The tip that a Hello claims, as it is signed. -/
def HelloMsg.tip (h : HelloMsg) : List UInt8 :=
  tipCommitment h.bestHeight h.bestBlockId h.cumulativeWork

section

variable [PeerCrypto]

/-- A transcript is signed. -/
def signTranscript (signingKey : Vector UInt8 32) (transcript : Hash256) :
    HandshakeM (Vector UInt8 64) := do
  modify fun t => { t with signed := t.signed ++ [transcript] }
  return PeerCrypto.ed25519Sign signingKey transcript.toList

variable [Crypto]

def verifyPeerSig (pubkey : Vector UInt8 32) (transcript : Hash256) (sig : Vector UInt8 64) :
    Except PeerError Unit := do
  failIf (isWeakEd25519Key pubkey) .authFailed
  failIf (! Crypto.ed25519Key pubkey) .authFailed
  failIf (! Crypto.ed25519Verify pubkey transcript.toList sig) .authFailed

/-- The signature of the other side is verified, and its identity known from then on. -/
def authenticate (their : HelloMsg) (transcript : Hash256) (sig : Vector UInt8 64) :
    HandshakeM Unit := do
  HandshakeM.ofExcept (verifyPeerSig their.pubkey transcript sig)
  modify fun t => { t with
    verified := t.verified ++ [(their.pubkey, transcript)]
    peerIdentityOut := some their.pubkey }

/-- The key of the session, from the identity keys and the nonces. -/
def sessionKeyWith (their : HelloMsg) (signingKey nonceA nonceB : Vector UInt8 32) : Hash256 :=
  computeSessionKey their.genesisBlockId protocolVersion nonceA nonceB
    (PeerCrypto.x25519 their.pubkey signingKey)

/-- The peer at the end of a handshake. -/
def Peer.ofHello (their : HelloMsg) (isInbound : Bool) (sendKey recvKey : Hash256) : Peer where
  version := their.version
  genesisBlockId := their.genesisBlockId
  bestHeight := their.bestHeight
  bestBlockId := their.bestBlockId
  cumulativeWork := their.cumulativeWork
  isInbound := isInbound
  identity := their.pubkey
  sendKey := sendKey
  recvKey := recvKey
  sendCounter := 0
  recvCounter := 0

/-! ## The responder -/

/-- What the responder asks of the Hello of the initiator. -/
def checkInitiatorHello (cfg : HandshakeConfig) (their : HelloMsg) : Except PeerError Unit := do
  failIf (their.version ≠ protocolVersion) .versionMismatch
  failIf (their.genesisBlockId ≠ cfg.ourHello.genesisBlockId) .genesisMismatch
  failIf (their.pubkey = PeerCrypto.verifyingKey cfg.signingKey) .selfConnection

/-- Step 2 of the responder: its own Hello, signed. -/
def sendResponderHello (cfg : HandshakeConfig) (their : HelloMsg) (failure : Option IoError) :
    HandshakeM Unit := do
  HandshakeM.ofExcept (checkInitiatorHello cfg their)
  let sigB ← signTranscript cfg.signingKey (computeAuthTranscript cfg.ourHello.genesisBlockId
    protocolVersion their.nonce cfg.ourNonce 0x00 their.tip cfg.ourHello.tip)
  sendMessage (.hello { cfg.ourHello with
    nonce := cfg.ourNonce
    echo := their.nonce
    pubkey := PeerCrypto.verifyingKey cfg.signingKey
    sig := sigB }) failure

/-- Step 3 of the responder: the signature of the initiator is verified. -/
def finishResponder (cfg : HandshakeConfig) (their : HelloMsg) (sigA : Vector UInt8 64) :
    HandshakeM Peer := do
  authenticate their (computeAuthTranscript their.genesisBlockId protocolVersion their.nonce
    cfg.ourNonce 0x01 their.tip cfg.ourHello.tip) sigA
  let (i2rKey, r2iKey) := deriveDirectionalKeys
    (sessionKeyWith their cfg.signingKey their.nonce cfg.ourNonce)
  return .ofHello their cfg.isInbound r2iKey i2rKey

/-! ## The initiator -/

/-- Step 1 of the initiator: its Hello, which has no signature yet. -/
def sendInitiatorHello (cfg : HandshakeConfig) (failure : Option IoError) : HandshakeM Unit :=
  sendMessage (.hello { cfg.ourHello with
    nonce := cfg.ourNonce
    echo := Vector.replicate 32 0
    pubkey := PeerCrypto.verifyingKey cfg.signingKey
    sig := Vector.replicate 64 0 }) failure

/-- What the initiator asks of the Hello of the responder. -/
def checkResponderHello (cfg : HandshakeConfig) (their : HelloMsg) : Except PeerError Unit := do
  failIf (their.version ≠ protocolVersion) .versionMismatch
  failIf (their.genesisBlockId ≠ cfg.ourHello.genesisBlockId) .genesisMismatch
  failIf (their.echo ≠ cfg.ourNonce) .nonceMismatch
  failIf (their.pubkey = PeerCrypto.verifyingKey cfg.signingKey) .selfConnection

/-- Steps 2 and 3 of the initiator: the signature of the responder is verified and answered. -/
def finishInitiator (cfg : HandshakeConfig) (their : HelloMsg) (failure : Option IoError) :
    HandshakeM Peer := do
  HandshakeM.ofExcept (checkResponderHello cfg their)
  authenticate their (computeAuthTranscript cfg.ourHello.genesisBlockId protocolVersion cfg.ourNonce
    their.nonce 0x00 cfg.ourHello.tip their.tip) their.sig
  let sigA ← signTranscript cfg.signingKey (computeAuthTranscript cfg.ourHello.genesisBlockId
    protocolVersion cfg.ourNonce their.nonce 0x01 cfg.ourHello.tip their.tip)
  sendMessage (.authAck sigA) failure
  let (i2rKey, r2iKey) := deriveDirectionalKeys
    (sessionKeyWith their cfg.signingKey cfg.ourNonce their.nonce)
  return .ofHello their cfg.isInbound i2rKey r2iKey

/-! ## Stages -/

/-- The handshake up to its first read. -/
def handshakeStart (cfg : HandshakeConfig) (failure : Option IoError) : Handshake :=
  let first : HandshakeM Unit := if cfg.isInbound then pure () else sendInitiatorHello cfg failure
  .after (do first; return .readHello) ⟨none, [], [], [], none⟩

/-- What follows the read of a Hello. -/
def afterHello (cfg : HandshakeConfig) (failure : Option IoError) (their : HelloMsg) :
    HandshakeM HandshakeStage := do
  modify fun t => { t with heard := some their }
  if cfg.isInbound then
    sendResponderHello cfg their failure
    return .readAuthAck their
  else
    return .ended (.ok (← finishInitiator cfg their failure))

/-- What follows the read of a message. -/
def afterMessage (cfg : HandshakeConfig) (failure : Option IoError) :
    Except PeerError Message → HandshakeM HandshakeStage
  | .error e => throw e
  | .ok (.hello their) => afterHello cfg failure their
  | .ok _ => throw .unexpectedMessage

/-- What follows the read of an AuthAck. -/
def afterAuthAck (cfg : HandshakeConfig) (their : HelloMsg) :
    Except PeerError (Vector UInt8 64) → HandshakeM HandshakeStage
  | .error e => throw e
  | .ok sigA => return .ended (.ok (← finishResponder cfg their sigA))

/-- The handshake from the end of a read to the next one, with what is left of the stream. There is
none where the read still waits or the handshake has ended. -/
def handshakeResume (cfg : HandshakeConfig) (h : Handshake) (link : Link) (failure : Option IoError) :
    Option (Handshake × List UInt8) :=
  match h.stage with
  | .readHello => (readInTime readHello link).map fun (msg, rest) =>
      (.after (afterMessage cfg failure msg) h.trace, rest)
  | .readAuthAck their => (readInTime readAuthAck link).map fun (sig, rest) =>
      (.after (afterAuthAck cfg their sig) h.trace, rest)
  | .ended _ => none

end

end Exfer.Impl
