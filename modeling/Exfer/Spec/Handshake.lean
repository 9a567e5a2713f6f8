import Exfer.Impl.Network.Handshake

/-!
# Handshakes under attack

Any number of handshakes of honest nodes over a network that delivers any bytes at any time
(`HandshakeStep`). Signatures by honest keys are only accepted where an honest handshake has signed,
and a nonce is drawn that no handshake has drawn or heard before. `SignedFor` is what the two ends of a
handshake agree on, besides the keys.
-/

namespace Exfer.Spec

open Lib Impl

/-! ## What the two ends see -/

/-- What the two ends of a handshake sign: the chain, the nonces and the tips, with those of the
initiator first. -/
structure View where
  genesisId : Hash256
  nonceA : Vector UInt8 32
  nonceB : Vector UInt8 32
  tipA : UInt64 × Hash256 × Vector UInt8 32
  tipB : UInt64 × Hash256 × Vector UInt8 32
  deriving DecidableEq

/-- The height, the block and the work that a Hello claims. -/
def tipClaim (h : HelloMsg) : UInt64 × Hash256 × Vector UInt8 32 :=
  (h.bestHeight, h.bestBlockId, h.cumulativeWork)

/-- The view of a node that has heard a Hello. -/
def viewOf (cfg : HandshakeConfig) (their : HelloMsg) : View :=
  if cfg.isInbound then
    ⟨cfg.ourHello.genesisBlockId, their.nonce, cfg.ourNonce, tipClaim their, tipClaim cfg.ourHello⟩
  else
    ⟨cfg.ourHello.genesisBlockId, cfg.ourNonce, their.nonce, tipClaim cfg.ourHello, tipClaim their⟩

/-- The role byte of the end that signs: the responder's is zero. -/
def roleByte (isInbound : Bool) : UInt8 :=
  if isInbound then 0x00 else 0x01

/-- What is hashed to the transcript that an end with the given view signs. -/
def View.bytes (v : View) (role : UInt8) : List UInt8 :=
  dsAuth ++ v.genesisId.toList ++ leBytes 4 protocolVersion.toNat ++ v.nonceA.toList ++
    v.nonceB.toList ++ [role] ++ tipCommitment v.tipA.1 v.tipA.2.1 v.tipA.2.2 ++
    tipCommitment v.tipB.1 v.tipB.2.1 v.tipB.2.2

/-! ## Runs -/

/-- A handshake of an honest node. -/
structure Session where
  config : HandshakeConfig
  handshake : Handshake
  /-- What it has not read of the bytes that were delivered to it. -/
  unread : List UInt8

/-- The session as it sees itself once it has heard a Hello. -/
def Session.Sees (s : Session) (v : View) : Prop :=
  ∃ their, s.handshake.trace.heard = some their ∧ v = viewOf s.config their

/-- The strings whose hashes are signed or verified in these sessions. -/
def transcripts (net : List Session) : Set (List UInt8) :=
  {x | ∃ s ∈ net, ∃ v role, s.Sees v ∧ x = v.bytes role}

/-- No session has drawn or heard the nonce. -/
def Fresh (net : List Session) (nonce : Vector UInt8 32) : Prop :=
  ∀ s ∈ net, s.config.ourNonce ≠ nonce ∧
    ∀ their, s.handshake.trace.heard = some their → their.nonce ≠ nonce

/-- Of the Hello that a session hears: if its nonce is that of a session of the other role, then it
carries the key of that session. -/
def KeyKept [PeerCrypto] (net : List Session) (s : Session) (h : Handshake) : Prop :=
  ∀ their, h.trace.heard = some their → ∀ other ∈ net,
    other.config.isInbound ≠ s.config.isInbound → other.config.ourNonce = their.nonce →
    their.pubkey = PeerCrypto.verifyingKey other.config.signingKey

section

variable [Crypto] [PeerCrypto]

/-- The transcript that an end with the given view signs. -/
def View.transcript (v : View) (role : UInt8) : Hash256 :=
  Crypto.sha256 (v.bytes role)

/-- The public key of the node. -/
def Session.pubkey (s : Session) : Vector UInt8 32 :=
  PeerCrypto.verifyingKey s.config.signingKey

/-- Where a signature by an honest key is accepted, a session has signed with that key. -/
def Unforgeable (honest : Set (Vector UInt8 32)) (net : List Session) (h : Handshake) : Prop :=
  ∀ key transcript, (key, transcript) ∈ h.trace.verified → key ∈ honest →
    ∃ s ∈ net, s.pubkey = key ∧ transcript ∈ s.handshake.trace.signed

/-- An honest node starts a handshake, or bytes are delivered to one until its read has come to an
end. `P` restricts the latter: it is given the sessions, the one that goes on, and its handshake
after the step. -/
inductive HandshakeStep (honest : Set (Vector UInt8 32))
    (P : List Session → Session → Handshake → Prop) (net : List Session) : List Session → Prop where
  | start (cfg : HandshakeConfig) (failure : Option IoError) :
    PeerCrypto.verifyingKey cfg.signingKey ∈ honest → Fresh net cfg.ourNonce →
    HandshakeStep honest P net (net ++ [⟨cfg, handshakeStart cfg failure, []⟩])
  | resume (i : Nat) (s : Session) (bytes : List UInt8) (waits : List Wait)
    (failure : Option IoError) (h : Handshake) (rest : List UInt8) :
    net[i]? = some s →
    handshakeResume s.config s.handshake ⟨s.unread ++ bytes, waits⟩ failure = some (h, rest) →
    Unforgeable honest net h → P net s h →
    HandshakeStep honest P net (net.set i ⟨s.config, h, rest⟩)

/-- Runs from no session at all. -/
def HandshakeRun (honest : Set (Vector UInt8 32)) (P : List Session → Session → Handshake → Prop) :
    List Session → Prop :=
  Relation.ReflTransGen (HandshakeStep honest P) []

/-- `b` is of the other role than `a`, has the same view, and has signed it. -/
def SignedFor (a b : Session) : Prop :=
  b.config.isInbound ≠ a.config.isInbound ∧
  ∃ v, a.Sees v ∧ b.Sees v ∧ v.transcript (roleByte b.config.isInbound) ∈ b.handshake.trace.signed

/-- The key that a session has heard, which it takes for that of its peer. -/
def Session.HeardKey (s : Session) (key : Vector UInt8 32) : Prop :=
  ∃ their, s.handshake.trace.heard = some their ∧ their.pubkey = key

end

end Exfer.Spec
