import Exfer.Impl.Network.Abuse
import Exfer.Impl.Network.Peer

/-!
# The registry of peers

`PeerRegistry` of `network/sync.rs` with the decision which inbound session is evicted, and what
`listen`, `handle_inbound` and `connect` do under the lock of the registry. The readings of the clock
and the order in which the peers are iterated over are arguments. Sessions carry no channel; those
that are told to shut down are returned.
-/

namespace Exfer.Impl

open Lib (Map)

def maxInboundPeers : Nat := 256

def maxInboundPerIp : Nat := 1

def evictionPendingHeadroom : Nat := 32

abbrev PeerId := Vector UInt8 32

/-- The order of keys. -/
def comparePeerId (a b : PeerId) : Ordering := compare a.toList b.toList

def SocketAddr.ip : SocketAddr → IpAddr
  | .v4 ip _ => .v4 ip
  | .v6 ip _ _ _ => .v6 ip

structure PeerSession where
  sessionId : UInt64
  socketAddr : SocketAddr
  isOutbound : Bool
  establishedAt : Instant

structure PeerTip where
  height : UInt64
  cumulativeWork : Vector UInt8 32
  blockId : Hash256
  confirmed : Bool

structure RetryState where
  backoffSecs : UInt64
  nextAttemptAt : Instant

structure LogicalPeer where
  session : Option PeerSession
  knownAddrs : List SocketAddr
  preferredDialAddr : Option SocketAddr
  desiredOutbound : Bool
  retry : RetryState
  tip : Option PeerTip
  lastUsefulMessageAt : Option Instant

/-- The peer that `attach_session` registers. -/
def LogicalPeer.new (now : Instant) : LogicalPeer where
  session := none
  knownAddrs := []
  preferredDialAddr := none
  desiredOutbound := false
  retry := ⟨5, now⟩
  tip := none
  lastUsefulMessageAt := none

structure PeerRegistry where
  byIdentity : Map PeerId LogicalPeer
  connectedSocketToIdentity : Map SocketAddr PeerId
  knownDialAddrToIdentity : Map SocketAddr PeerId
  pendingInboundSockets : Finset SocketAddr
  pendingOutboundAddrs : Finset SocketAddr

/-- `SessionAttachResult`, with the session that is replaced. -/
inductive SessionAttachResult where
  | newLogicalConnect
  | replacedExistingSession (old : PeerSession)
  | rejectedDuplicate

/-! ## Network groups -/

inductive NetworkGroup where
  | ipv4Slash16 (octets : Vector UInt8 2)
  | ipv6Slash32 (octets : Vector UInt8 4)
  | loopback
  deriving DecidableEq

def NetworkGroup.fromIp : IpAddr → NetworkGroup
  | .v4 ip => if ip[0] = 127 then .loopback else .ipv4Slash16 #v[ip[0], ip[1]]
  | .v6 ip =>
    if ip = #v[0, 0, 0, 0, 0, 0, 0, 0, 0, 0, 0, 0, 0, 0, 0, 1] then .loopback
    else .ipv6Slash32 #v[ip[0], ip[1], ip[2], ip[3]]

/-- The derived order of groups. -/
def NetworkGroup.compare : NetworkGroup → NetworkGroup → Ordering
  | .ipv4Slash16 a, .ipv4Slash16 b => Ord.compare a.toList b.toList
  | .ipv4Slash16 _, _ => .lt
  | .ipv6Slash32 _, .ipv4Slash16 _ => .gt
  | .ipv6Slash32 a, .ipv6Slash32 b => Ord.compare a.toList b.toList
  | .ipv6Slash32 _, .loopback => .lt
  | .loopback, .loopback => .eq
  | .loopback, _ => .gt

/-! ## Eviction -/

structure EvictionCandidate where
  identity : PeerId
  sessionId : UInt64
  socketAddr : SocketAddr
  establishedAt : Instant
  group : NetworkGroup
  lastUsefulMessageAt : Option Instant

inductive EvictionDecision where
  | notNeeded
  | duplicateIdentity
  | ipCapReached
  | noEligibleCandidates
  | evict (victim : EvictionCandidate)

structure EvictionConfig where
  postHandshakeGraceSecs : Nat
  protectUsefulN : Nat
  protectOldestN : Nat
  protectGroupsN : Nat
  usefulProtectionSecs : Nat

def EvictionConfig.default : EvictionConfig where
  postHandshakeGraceSecs := 15
  protectUsefulN := 8
  protectOldestN := 8
  protectGroupsN := 16
  usefulProtectionSecs := 600

def sortBy {α : Type} (cmp : α → α → Ordering) (xs : List α) : List α :=
  xs.insertionSort fun a b => (cmp a b).isLE = true

/-- `max_by`: the last of the greatest elements. -/
def maxBy {α : Type} (cmp : α → α → Ordering) : List α → Option α
  | [] => none
  | x :: xs => some (xs.foldl (fun best y => if cmp best y = .gt then best else y) x)

/-- The identity and the session of a candidate, under which it is protected. -/
def EvictionCandidate.key (c : EvictionCandidate) : PeerId × UInt64 := (c.identity, c.sessionId)

/-- The order of candidates by age, the oldest first. -/
def compareAge (a b : EvictionCandidate) : Ordering :=
  (compare a.establishedAt b.establishedAt).then
    ((compare a.sessionId b.sessionId).then (comparePeerId a.identity b.identity))

/-- The order of candidates by their last useful message, the most recent first. -/
def compareUseful (a b : EvictionCandidate) : Ordering :=
  (compare b.lastUsefulMessageAt a.lastUsefulMessageAt).then
    ((compare a.sessionId b.sessionId).then (comparePeerId a.identity b.identity))

/-- The order in which the greatest candidate is the victim: the newest one. -/
def compareVictim (a b : EvictionCandidate) : Ordering :=
  (compare a.establishedAt b.establishedAt).then
    ((compare b.sessionId a.sessionId).then (comparePeerId b.identity a.identity))

/-- The oldest candidate of each group, the first in the list among those of one age. -/
def groupOldest (candidates : List EvictionCandidate) : List (NetworkGroup × EvictionCandidate) :=
  candidates.foldl (fun oldest c =>
    if oldest.any (·.1 = c.group) then
      oldest.map fun g =>
        if g.1 = c.group ∧ c.establishedAt < g.2.establishedAt then (g.1, c) else g
    else oldest ++ [(c.group, c)]) []

/-- The protection pass: what is not evicted. -/
def protectedKeys (now : Instant) (activeIbdPeer : Option (PeerId × UInt64)) (config : EvictionConfig)
    (allInbound : List EvictionCandidate) : List (PeerId × UInt64) :=
  let grace := fromSecs config.postHandshakeGraceSecs
  let usefulWindow := fromSecs config.usefulProtectionSecs
  let young := allInbound.filter fun c => now - c.establishedAt < grace
  let useful := allInbound.filter fun c => c.lastUsefulMessageAt.any fun t => now - t < usefulWindow
  let groupReps := sortBy (fun a b => (compare a.2.establishedAt b.2.establishedAt).then
    (a.1.compare b.1)) (groupOldest allInbound)
  activeIbdPeer.toList ++ young.map (·.key) ++
    ((sortBy compareUseful useful).take config.protectUsefulN).map (·.key) ++
    ((sortBy compareAge allInbound).take config.protectOldestN).map (·.key) ++
    (groupReps.take config.protectGroupsN).map (·.2.key)

/-- The candidates of a group. -/
def membersOf (group : NetworkGroup) (candidates : List EvictionCandidate) : List EvictionCandidate :=
  candidates.filter (·.group = group)

/-- The group pass: the largest group, by age and then by key where there are several; all candidates
where no two are of one group. -/
def targetCandidates (now : Instant) (unprotected : List EvictionCandidate) : List EvictionCandidate :=
  let groups := (unprotected.map (·.group)).dedup
  let largestSize := (groups.map fun g => (membersOf g unprotected).length).foldl max 0
  if largestSize ≤ 1 then unprotected
  else
    let totalAge := fun g => ((membersOf g unprotected).map fun c => now - c.establishedAt).sum
    let entries := sortBy (fun a b => (compare (totalAge b) (totalAge a)).then (a.compare b))
      (groups.filter fun g => (membersOf g unprotected).length = largestSize)
    match entries with
    | [] => []
    | g :: _ => membersOf g unprotected

namespace PeerRegistry

def new : PeerRegistry := ⟨∅, ∅, ∅, ∅, ∅⟩

variable (reg : PeerRegistry)

/-- The session attached for an identity. -/
def sessionOf (identity : PeerId) : Option PeerSession :=
  (reg.byIdentity.lookup identity).bind (·.session)

/-- How many of the attached sessions are of a kind. -/
def countSessions (kind : PeerSession → Bool) : Nat :=
  (reg.byIdentity.keys.filter fun identity => (reg.sessionOf identity).any kind).card

def inboundCount : Nat := reg.countSessions fun s => ! s.isOutbound

def inboundCountForIp (ip : IpAddr) : Nat :=
  reg.countSessions fun s => ! s.isOutbound && s.socketAddr.ip = ip

def reserveInboundSocket (addr : SocketAddr) : Option PeerRegistry :=
  if addr ∈ reg.connectedSocketToIdentity ∨ addr ∈ reg.pendingInboundSockets ∨
      addr ∈ reg.pendingOutboundAddrs then none
  else some { reg with pendingInboundSockets := insert addr reg.pendingInboundSockets }

def releaseInboundSocket (addr : SocketAddr) : PeerRegistry :=
  { reg with pendingInboundSockets := reg.pendingInboundSockets.erase addr }

def reserveOutboundAddr (addr : SocketAddr) : Option PeerRegistry :=
  if addr ∈ reg.connectedSocketToIdentity ∨ addr ∈ reg.pendingOutboundAddrs ∨
      addr ∈ reg.pendingInboundSockets then none
  else some { reg with pendingOutboundAddrs := insert addr reg.pendingOutboundAddrs }

def releaseOutboundAddr (addr : SocketAddr) : PeerRegistry :=
  { reg with pendingOutboundAddrs := reg.pendingOutboundAddrs.erase addr }

/-- The inbound sessions as candidates. -/
def evictionCandidates (listing : List PeerId) : List EvictionCandidate :=
  listing.filterMap fun identity => (reg.byIdentity.lookup identity).bind fun lp =>
    lp.session.bind fun s =>
      if s.isOutbound then none
      else some ⟨identity, s.sessionId, s.socketAddr, s.establishedAt, .fromIp s.socketAddr.ip,
        lp.lastUsefulMessageAt⟩

def decideInboundEvictionUtility (listing : List PeerId) (now : Instant) (newPeerIdentity : PeerId)
    (newPeerIp : IpAddr) (activeIbdPeer : Option (PeerId × UInt64)) (maxInbound : Nat)
    (config : EvictionConfig) : EvictionDecision :=
  if reg.inboundCount < maxInbound then .notNeeded
  else if (reg.sessionOf newPeerIdentity).isSome then .duplicateIdentity
  else if maxInboundPerIp ≤ reg.inboundCountForIp newPeerIp then .ipCapReached
  else
    let allInbound := reg.evictionCandidates listing
    let guarded := protectedKeys now activeIbdPeer config allInbound
    let unprotected := allInbound.filter fun c => c.key ∉ guarded
    match maxBy compareVictim (targetCandidates now unprotected) with
    | none => .noEligibleCandidates
    | some victim => .evict victim

/-- Another session for an identity, or none. -/
def setSession (identity : PeerId) (lp : LogicalPeer) (session : Option PeerSession)
    (connected : Map SocketAddr PeerId) : PeerRegistry :=
  { reg with
    byIdentity := reg.byIdentity.insert identity { lp with session }
    connectedSocketToIdentity := connected }

/-- Whether `attach_session` replaces a session by another one of the same identity. -/
def replaces (now : Instant) (identity ourPubkey : PeerId) (activeIbdPeer : Option (PeerId × UInt64))
    (catchingUp : Bool) (existing session : PeerSession) : Bool :=
  activeIbdPeer ≠ some (identity, existing.sessionId) && ! catchingUp &&
    fromSecs 120 ≤ now - existing.establishedAt &&
    session.isOutbound = (comparePeerId ourPubkey identity = .gt : Bool)

/-- `attach_session`, up to the decision on the session: the registry with the address of the session
no longer pending, and the peer with its address and tip. -/
def registerPeer (now : Instant) (identity : PeerId) (session : PeerSession) (handshakeTip : PeerTip)
    (dialAddrHint : Option SocketAddr) (desiredOutbound : Bool) : PeerRegistry × LogicalPeer :=
  let reg := (reg.releaseInboundSocket session.socketAddr).releaseOutboundAddr session.socketAddr
  let lp := (reg.byIdentity.lookup identity).getD (.new now)
  let lp := { lp with
    desiredOutbound := lp.desiredOutbound || desiredOutbound
    tip := some { handshakeTip with confirmed := false } }
  match dialAddrHint with
  | none => (reg, lp)
  | some addr =>
    ({ reg with knownDialAddrToIdentity := reg.knownDialAddrToIdentity.insert addr identity },
      { lp with
        knownAddrs := if addr ∈ lp.knownAddrs then lp.knownAddrs else addr :: lp.knownAddrs
        preferredDialAddr := some addr })

def attachSession (now : Instant) (identity : PeerId) (session : PeerSession) (handshakeTip : PeerTip)
    (dialAddrHint : Option SocketAddr) (desiredOutbound : Bool) (ourPubkey : PeerId)
    (activeIbdPeer : Option (PeerId × UInt64)) (catchingUp : Bool) :
    PeerRegistry × SessionAttachResult :=
  let (reg, lp) := reg.registerPeer now identity session handshakeTip dialAddrHint desiredOutbound
  match lp.session with
  | none =>
    (reg.setSession identity { lp with lastUsefulMessageAt := none } (some session)
      (reg.connectedSocketToIdentity.insert session.socketAddr identity), .newLogicalConnect)
  | some existing =>
    if replaces now identity ourPubkey activeIbdPeer catchingUp existing session then
      (reg.setSession identity { lp with lastUsefulMessageAt := none } (some session)
        ((reg.connectedSocketToIdentity.erase existing.socketAddr).insert session.socketAddr
          identity), .replacedExistingSession existing)
    else
      (reg.setSession identity lp (some existing) reg.connectedSocketToIdentity, .rejectedDuplicate)

def detachSessionIfCurrent (identity : PeerId) (sessionId : UInt64) : PeerRegistry × Bool :=
  match reg.byIdentity.lookup identity with
  | none => (reg, false)
  | some lp =>
    match lp.session with
    | none => (reg, false)
    | some s =>
      if s.sessionId = sessionId then
        (reg.setSession identity lp none (reg.connectedSocketToIdentity.erase s.socketAddr), true)
      else (reg, false)

/-- `reset_retry` of a peer. -/
def resetRetry (now : Instant) (identity : PeerId) : PeerRegistry :=
  match reg.byIdentity.lookup identity with
  | none => reg
  | some lp => { reg with byIdentity := reg.byIdentity.insert identity { lp with retry := ⟨5, now⟩ } }

/-! ## Connections -/

/-- What `listen` does with a connection under the lock: the registry with the socket reserved, or
none where the connection is dropped. -/
def acceptInbound (addr : SocketAddr) : Option PeerRegistry :=
  if maxInboundPeers + evictionPendingHeadroom ≤ reg.inboundCount + reg.pendingInboundSockets.card then
    none
  else if maxInboundPerIp ≤ reg.inboundCountForIp addr.ip then none
  else reg.reserveInboundSocket addr

/-- What `handle_inbound` and `connect` do with the result of `attach_session`, and the sessions that
are told to shut down. -/
def attached (now : Instant) (identity : PeerId) (release : PeerRegistry → PeerRegistry) :
    PeerRegistry × SessionAttachResult → PeerRegistry × Except PeerError (List UInt64)
  | (reg, .newLogicalConnect) => (reg.resetRetry now identity, .ok [])
  | (reg, .replacedExistingSession old) => (reg.resetRetry now identity, .ok [old.sessionId])
  | (reg, .rejectedDuplicate) => (release reg, .error (.duplicateIdentity identity))

/-- What `handle_inbound` does under the lock once the handshake is complete. -/
def admitInbound (listing : List PeerId) (now : Instant) (ourPubkey : PeerId)
    (activeIbd : Option (PeerId × UInt64)) (catchingUp : Bool) (identity : PeerId)
    (session : PeerSession) (handshakeTip : PeerTip) :
    PeerRegistry × Except PeerError (List UInt64) :=
  let addr := session.socketAddr
  let attach := fun reg : PeerRegistry =>
    attached now identity (·.releaseInboundSocket addr)
      (reg.attachSession now identity session handshakeTip none false ourPubkey activeIbd catchingUp)
  match reg.decideInboundEvictionUtility listing now identity addr.ip activeIbd maxInboundPeers
      .default with
  | .notNeeded | .duplicateIdentity => attach reg
  | .ipCapReached => (reg.releaseInboundSocket addr, .error (.io "max inbound per ip"))
  | .noEligibleCandidates =>
    (reg.releaseInboundSocket addr, .error (.io "max inbound peers, no eviction candidates"))
  | .evict victim =>
    let (reg, result) := attach (reg.detachSessionIfCurrent victim.identity victim.sessionId).1
    (reg, result.map (victim.sessionId :: ·))

/-- What `connect` does under the lock once the handshake is complete. -/
def attachOutbound (now : Instant) (ourPubkey : PeerId) (activeIbd : Option (PeerId × UInt64))
    (catchingUp : Bool) (identity : PeerId) (session : PeerSession) (handshakeTip : PeerTip) :
    PeerRegistry × Except PeerError (List UInt64) :=
  let addr := session.socketAddr
  attached now identity (·.releaseOutboundAddr addr)
    (reg.attachSession now identity session handshakeTip (some addr) false ourPubkey activeIbd
      catchingUp)

end PeerRegistry

end Exfer.Impl
