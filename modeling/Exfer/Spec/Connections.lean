import Exfer.Impl.Network.Registry
import Exfer.Lib.Interleave

/-!
# Connections over the registry of peers

Inbound and outbound connections, each with a task of its own, interleaved at the locks of the
registry (`connTasks`). In between other code may change anything in the registry but the sessions.
-/

namespace Exfer.Spec

open Lib Impl

/-- A handshake that is complete, with what its task finds under the lock. -/
structure Admission where
  identity : PeerId
  session : PeerSession
  handshakeTip : PeerTip
  listing : List PeerId
  now : Instant
  activeIbd : Option (PeerId × UInt64)
  catchingUp : Bool

/-- What a task is about to do. -/
inductive ConnTask where
  /-- `listen` has accepted a connection. -/
  | accepted (addr : SocketAddr)
  /-- An inbound handshake is going on. -/
  | handshaking (addr : SocketAddr)
  /-- `handle_inbound` waits for the lock. -/
  | admitting (a : Admission)
  /-- An address is to be dialed. -/
  | dialing (addr : SocketAddr)
  /-- An outbound handshake is going on. -/
  | connecting (addr : SocketAddr)
  /-- `connect` waits for the lock. -/
  | attaching (a : Admission)
  /-- A session is to be detached. -/
  | closing (identity : PeerId) (sessionId : UInt64)

/-- The same sessions are attached. -/
def SameSessions (reg reg' : PeerRegistry) : Prop :=
  ∀ identity, reg'.sessionOf identity = reg.sessionOf identity

/-- Connections come in and are made at any time, and sessions are closed at any time. -/
inductive ConnStarts (reg reg' : PeerRegistry) : ConnTask → Prop where
  | accepted (addr : SocketAddr) : SameSessions reg reg' → ConnStarts reg reg' (.accepted addr)
  | dialing (addr : SocketAddr) : SameSessions reg reg' → ConnStarts reg reg' (.dialing addr)
  | closing (identity : PeerId) (sessionId : UInt64) :
    SameSessions reg reg' → ConnStarts reg reg' (.closing identity sessionId)

/-- `handle_inbound` under the lock. -/
def Admission.handleInbound (ourPubkey : PeerId) (reg : PeerRegistry) (a : Admission) :
    PeerRegistry × Except PeerError (List UInt64) :=
  reg.admitInbound a.listing a.now ourPubkey a.activeIbd a.catchingUp a.identity a.session
    a.handshakeTip

/-- `connect` under the lock. -/
def Admission.connect (ourPubkey : PeerId) (reg : PeerRegistry) (a : Admission) :
    PeerRegistry × Except PeerError (List UInt64) :=
  reg.attachOutbound a.now ourPubkey a.activeIbd a.catchingUp a.identity a.session a.handshakeTip

/-- A session that has been attached is closed at some time. -/
def Admission.follow (a : Admission) : Except PeerError (List UInt64) → Multiset ConnTask
  | .ok _ => {.closing a.identity a.session.sessionId}
  | .error _ => 0

/-- What a task does next. -/
inductive ConnStep (ourPubkey : PeerId) (reg : PeerRegistry) :
    ConnTask → PeerRegistry → Multiset ConnTask → Prop where
  | drop (addr : SocketAddr) :
    reg.acceptInbound addr = none → ConnStep ourPubkey reg (.accepted addr) reg 0
  | accept (addr : SocketAddr) (reg' : PeerRegistry) : reg.acceptInbound addr = some reg' →
    ConnStep ourPubkey reg (.accepted addr) reg' {.handshaking addr}
  | inboundFails (addr : SocketAddr) :
    ConnStep ourPubkey reg (.handshaking addr) (reg.releaseInboundSocket addr) 0
  | inboundCompletes (addr : SocketAddr) (a : Admission) :
    a.session.socketAddr = addr → a.session.isOutbound = false →
    ConnStep ourPubkey reg (.handshaking addr) reg {.admitting a}
  | handleInbound (a : Admission) : ConnStep ourPubkey reg (.admitting a) (a.handleInbound ourPubkey reg).1
      (a.follow (a.handleInbound ourPubkey reg).2)
  | busy (addr : SocketAddr) :
    reg.reserveOutboundAddr addr = none → ConnStep ourPubkey reg (.dialing addr) reg 0
  | dial (addr : SocketAddr) (reg' : PeerRegistry) : reg.reserveOutboundAddr addr = some reg' →
    ConnStep ourPubkey reg (.dialing addr) reg' {.connecting addr}
  | outboundFails (addr : SocketAddr) :
    ConnStep ourPubkey reg (.connecting addr) (reg.releaseOutboundAddr addr) 0
  | outboundCompletes (addr : SocketAddr) (a : Admission) :
    a.session.socketAddr = addr → a.session.isOutbound = true →
    ConnStep ourPubkey reg (.connecting addr) reg {.attaching a}
  | connect (a : Admission) : ConnStep ourPubkey reg (.attaching a) (a.connect ourPubkey reg).1
      (a.follow (a.connect ourPubkey reg).2)
  | close (identity : PeerId) (sessionId : UInt64) :
    ConnStep ourPubkey reg (.closing identity sessionId)
      (reg.detachSessionIfCurrent identity sessionId).1 0

/-- The interleavings of connections. -/
def connTasks (ourPubkey : PeerId) : Tasks PeerRegistry ConnTask where
  starts := ConnStarts
  steps := ConnStep ourPubkey

/-! ## Calls -/

/-- The id of a session that `attach_session` has attached. -/
def attachedIds (session : PeerSession) : SessionAttachResult → List UInt64
  | .rejectedDuplicate => []
  | _ => [session.sessionId]

/-- The id of the session that it has replaced. -/
def replacedIds : SessionAttachResult → List UInt64
  | .replacedExistingSession old => [old.sessionId]
  | _ => []

/-- The registry after some calls, with the ids of the sessions that have been attached and of those
that have been replaced. A session that is attached has an id of its own, and no session of another
identity has its address. -/
inductive RegistryRun : PeerRegistry → List UInt64 → List UInt64 → Prop where
  | new : RegistryRun .new [] []
  | reserveInbound {reg reg' ids replaced addr} : RegistryRun reg ids replaced →
    reg.reserveInboundSocket addr = some reg' → RegistryRun reg' ids replaced
  | releaseInbound {reg ids replaced} (addr : SocketAddr) : RegistryRun reg ids replaced →
    RegistryRun (reg.releaseInboundSocket addr) ids replaced
  | reserveOutbound {reg reg' ids replaced addr} : RegistryRun reg ids replaced →
    reg.reserveOutboundAddr addr = some reg' → RegistryRun reg' ids replaced
  | releaseOutbound {reg ids replaced} (addr : SocketAddr) : RegistryRun reg ids replaced →
    RegistryRun (reg.releaseOutboundAddr addr) ids replaced
  | attach {reg ids replaced reg' result now identity session handshakeTip dialAddrHint
      desiredOutbound ourPubkey activeIbd catchingUp} : RegistryRun reg ids replaced →
    session.sessionId ∉ ids →
    (∀ id s, reg.sessionOf id = some s → s.socketAddr = session.socketAddr → id = identity) →
    reg.attachSession now identity session handshakeTip dialAddrHint desiredOutbound ourPubkey
      activeIbd catchingUp = (reg', result) →
    RegistryRun reg' (attachedIds session result ++ ids) (replacedIds result ++ replaced)
  | detach {reg ids replaced} (identity : PeerId) (sessionId : UInt64) : RegistryRun reg ids replaced →
    RegistryRun (reg.detachSessionIfCurrent identity sessionId).1 ids replaced

/-! ## Conditions on schedules -/

/-- The inbound connections from an address that are not attached yet. -/
def ConnTask.pendingFrom (ip : IpAddr) : ConnTask → Bool
  | .handshaking addr => addr.ip = ip
  | .admitting a => a.session.socketAddr.ip = ip
  | _ => false

/-- A connection is accepted only where the sessions and the pending connections from its address
leave room for it. -/
def RoomForIp (reg : PeerRegistry) (others : Multiset ConnTask) : ConnTask → Prop
  | .accepted addr =>
    reg.inboundCountForIp addr.ip + others.countP (·.pendingFrom addr.ip) < maxInboundPerIp
  | _ => True

/-- The session would take the place of an outbound one of the same identity, with all inbound slots
taken. -/
def DisplacesOutbound (ourPubkey : PeerId) (reg : PeerRegistry) (a : Admission) : Prop :=
  maxInboundPeers ≤ reg.inboundCount ∧ ∃ existing, reg.sessionOf a.identity = some existing ∧
    existing.isOutbound = true ∧ a.activeIbd ≠ some (a.identity, existing.sessionId) ∧
    a.catchingUp = false ∧ fromSecs 120 ≤ a.now - existing.establishedAt ∧
    comparePeerId ourPubkey a.identity ≠ .gt

/-- No inbound session takes the place of an outbound one with all inbound slots taken. -/
def KeepsOutbound (ourPubkey : PeerId) (reg : PeerRegistry) (_ : Multiset ConnTask) :
    ConnTask → Prop
  | .admitting a => ¬ DisplacesOutbound ourPubkey reg a
  | _ => True

end Exfer.Spec
