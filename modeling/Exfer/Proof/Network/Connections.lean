import Exfer.Proof.Network.Registry
import Exfer.Spec.Connections

/-!
# The caps on inbound sessions

`inboundCountForIp_le` and `inboundCount_le`: under which schedules the caps on the inbound sessions of
one address and of all addresses hold. Both follow from how much a task can add to a count of sessions
(`handleInbound_count_le`, `connect_count_le`, `detach_count_le`).
-/

namespace Exfer.Proof

open Lib Impl Spec

variable {ourPubkey : PeerId} {reg reg' : PeerRegistry} {ts : Multiset ConnTask} {addr : SocketAddr}
  {t : ConnTask} {a : Admission} {i j n : Nat}

/-! ## What a task adds to a count -/

theorem acceptInbound_sessions (h : reg.acceptInbound addr = some reg') : SameSessions reg reg' := by
  unfold PeerRegistry.acceptInbound PeerRegistry.reserveInboundSocket at h
  split at h
  · cases h
  split at h
  · cases h
  split at h
  · cases h
  cases h
  exact fun _ => rfl

theorem reserveOutboundAddr_sessions (h : reg.reserveOutboundAddr addr = some reg') : SameSessions reg reg' := by
  unfold PeerRegistry.reserveOutboundAddr at h
  split at h
  · cases h
  cases h
  exact fun _ => rfl

theorem handleInbound_count_le (a : Admission) (kind : PeerSession → Bool) :
    (a.handleInbound ourPubkey reg).1.countSessions kind ≤
      reg.countSessions kind + (kind a.session).toNat := by
  rcases admitInbound_cases a.listing a.handshakeTip with ⟨-, hsame⟩ | ⟨-, h⟩ | ⟨-, -, victim, s, -, -, h⟩
  · exact Nat.le_add_right_of_le (countSessions_congr kind hsame).le
  · exact h.count_le kind
  · exact (h.count_le kind).trans (Nat.add_le_add_right (detach_count_le s.sessionId kind) _)

theorem connect_attaches (a : Admission) :
    Attaches a.now a.identity ourPubkey a.activeIbd a.catchingUp a.session reg
      (a.connect ourPubkey reg).1 := by
  intro id
  refine Eq.trans (sessionOf_attached ?_ _) sessionOf_attach
  exact fun _ _ => rfl

theorem connect_count_le (a : Admission) (kind : PeerSession → Bool) :
    (a.connect ourPubkey reg).1.countSessions kind ≤
      reg.countSessions kind + (kind a.session).toNat :=
  (connect_attaches a).count_le kind

/-- Handshakes have been completed in the direction they were started in. -/
def Directed (ts : Multiset ConnTask) : Prop :=
  ∀ t ∈ ts, match t with
    | .admitting a => a.session.isOutbound = false
    | .attaching a => a.session.isOutbound = true
    | _ => True

theorem Directed.of_cons (h : Directed (t ::ₘ ts)) : Directed ts :=
  fun t' ht' => h t' (Multiset.mem_cons_of_mem ht')

theorem Directed.add (hnext : Directed next) (h : Directed ts) : Directed (next + ts) :=
  fun t ht => (Multiset.mem_add.mp ht).elim (hnext t) (h t)

theorem directed_zero : Directed 0 :=
  fun t ht => absurd ht (Multiset.notMem_zero t)

theorem directed_follow (a : Admission) (result : Except PeerError (List UInt64)) : Directed (a.follow result) := by
  cases result with
  | error e => exact directed_zero
  | ok ids =>
    intro t ht
    rw [Multiset.mem_singleton.mp ht]
    exact trivial

theorem Directed.start (h : Directed ts) (hstart : ConnStarts reg reg' t) : Directed (t ::ₘ ts) := by
  intro t' ht'
  rcases Multiset.mem_cons.mp ht' with rfl | ht'
  · cases hstart <;> exact trivial
  · exact h t' ht'

section

variable (h : Directed (t ::ₘ ts)) (hstep : ConnStep ourPubkey reg t reg' next)
include h hstep

theorem Directed.step : Directed (next + ts) := by
  refine Directed.add ?_ h.of_cons
  cases hstep with
  | drop | inboundFails | busy | outboundFails | close => exact directed_zero
  | handleInbound a | connect a => exact directed_follow a _
  | accept | dial | inboundCompletes | outboundCompletes =>
    intro t ht
    rw [Multiset.mem_singleton.mp ht]
    first | exact trivial | assumption

/-- The share in a count of the session that a task is about to attach, if it is an inbound one. -/
def admits (kind : PeerSession → Bool) : ConnTask → Nat
  | .admitting a => (kind a.session).toNat
  | _ => 0

/-- What a step adds to a count of sessions: at most the session that an inbound handshake is about
to attach, where none but inbound sessions are counted. -/
theorem step_count_le (hkind : ∀ s, s.isOutbound = true → kind s = false) :
    reg'.countSessions kind ≤ reg.countSessions kind + admits kind t := by
  cases hstep with
  | drop | inboundCompletes | busy | outboundCompletes => exact Nat.le_refl _
  | accept addr _ hreg => exact (countSessions_congr kind (acceptInbound_sessions hreg)).le
  | dial addr _ hreg => exact (countSessions_congr kind (reserveOutboundAddr_sessions hreg)).le
  | inboundFails addr | outboundFails addr => exact Nat.le_refl _
  | handleInbound a => exact handleInbound_count_le a kind
  | connect a =>
    have hout : a.session.isOutbound = true := h _ (Multiset.mem_cons_self _ _)
    have hle : (a.connect ourPubkey reg).1.countSessions kind ≤ _ := connect_count_le a kind
    rw [hkind _ hout] at hle
    exact hle
  | close identity sessionId => exact detach_count_le sessionId kind

end

theorem start_sessions (hstart : ConnStarts reg reg' t) : SameSessions reg reg' := by
  cases hstart <;> assumption

/-! ## One address -/

/-- What holds while connections are accepted with room for their address. -/
def IpInv (reg : PeerRegistry) (ts : Multiset ConnTask) : Prop :=
  Directed ts ∧ ∀ ip, reg.inboundCountForIp ip + ts.countP (·.pendingFrom ip) ≤ maxInboundPerIp

theorem IpInv.start (h : IpInv reg ts) (hstart : ConnStarts reg reg' t) : IpInv reg' (t ::ₘ ts) := by
  refine ⟨h.1.start hstart, fun ip => ?_⟩
  have hcount : reg'.inboundCountForIp ip = reg.inboundCountForIp ip :=
    countSessions_congr _ (start_sessions hstart)
  have hnew : ¬ t.pendingFrom ip = true := by
    cases hstart <;> exact Bool.false_ne_true
  rw [hcount, Multiset.countP_cons_of_neg ts hnew]
  exact h.2 ip

/-- Whether a task may go on as a pending inbound connection from an address. -/
def arrivesFrom (ip : IpAddr) : ConnTask → Bool
  | .accepted addr => addr.ip = ip
  | .handshaking addr => addr.ip = ip
  | _ => false

theorem countP_pending_cons (ip : IpAddr) (t : ConnTask) (ts : Multiset ConnTask) :
    (t ::ₘ ts).countP (fun t => t.pendingFrom ip = true) =
      ts.countP (fun t => t.pendingFrom ip = true) + (t.pendingFrom ip).toNat := by
  rw [Multiset.countP_cons]
  cases t.pendingFrom ip <;> rfl

/-- How many of the tasks that a step leaves are pending inbound connections. -/
theorem step_pending (hstep : ConnStep ourPubkey reg t reg' next) (ip : IpAddr) :
    next.countP (fun t => t.pendingFrom ip = true) ≤ (arrivesFrom ip t).toNat := by
  have hsingle : ∀ t : ConnTask, Multiset.countP (fun t => t.pendingFrom ip = true) {t} =
      (t.pendingFrom ip).toNat := by
    intro t
    rw [← Multiset.cons_zero, countP_pending_cons, Multiset.countP_zero, Nat.zero_add]
  have hfollow : ∀ (a : Admission) (result : Except PeerError (List UInt64)),
      (a.follow result).countP (fun t => t.pendingFrom ip = true) = 0 := by
    intro a result
    cases result with
    | error e => rfl
    | ok ids => exact hsingle _
  cases hstep with
  | drop | inboundFails | busy | outboundFails | close => exact Nat.zero_le _
  | accept addr | dial addr => exact (hsingle _).le
  | inboundCompletes addr a haddr =>
    subst haddr
    exact (hsingle _).le
  | outboundCompletes addr a => exact (hsingle _).le
  | handleInbound a | connect a => exact (hfollow a _).le

/-- The inbound sessions of an address. -/
def inboundFrom (ip : IpAddr) (s : PeerSession) : Bool :=
  ! s.isOutbound && s.socketAddr.ip = ip

/-- But for `listen`, no task goes on as more than it was. -/
theorem share_le (hlisten : ∀ addr, t ≠ .accepted addr) (ip : IpAddr) :
    admits (inboundFrom ip) t + (arrivesFrom ip t).toNat ≤ (t.pendingFrom ip).toNat := by
  cases t with
  | accepted addr => exact absurd rfl (hlisten addr)
  | handshaking addr => exact (Nat.zero_add _).le
  | admitting a =>
    show (! a.session.isOutbound && decide (a.session.socketAddr.ip = ip)).toNat + 0 ≤
      (decide (a.session.socketAddr.ip = ip)).toNat
    cases a.session.isOutbound <;> simp
  | dialing | connecting | attaching | closing => exact Nat.zero_le _

theorem IpInv.step (h : IpInv reg (t ::ₘ ts)) (hstep : ConnStep ourPubkey reg t reg' next)
    (hroom : RoomForIp reg ts t) : IpInv reg' (next + ts) := by
  refine ⟨h.1.step hstep, fun ip => ?_⟩
  have hbefore := h.2 ip
  have hpending := step_pending hstep ip
  have hcount : reg'.inboundCountForIp ip ≤ reg.inboundCountForIp ip + admits (inboundFrom ip) t := by
    refine step_count_le h.1 hstep fun s hs => ?_
    simp only [hs, Bool.not_true, Bool.false_and]
  rw [countP_pending_cons] at hbefore
  rw [Multiset.countP_add]
  by_cases hlisten : ∃ addr, t = .accepted addr
  · -- the only step after which more is pending than before
    obtain ⟨addr, rfl⟩ := hlisten
    have hroom : reg.inboundCountForIp addr.ip + ts.countP (fun t => t.pendingFrom addr.ip = true) <
        maxInboundPerIp := hroom
    have hcount : reg'.inboundCountForIp ip ≤ reg.inboundCountForIp ip := hcount
    by_cases hip : addr.ip = ip
    · subst hip
      have hone := Bool.toNat_le (arrivesFrom addr.ip (.accepted addr))
      omega
    · have hnone : (arrivesFrom ip (.accepted addr)).toNat = 0 := by simp [arrivesFrom, hip]
      omega
  · have hshare := share_le (fun addr hcontra => hlisten ⟨addr, hcontra⟩) ip
    omega

theorem ipInv_of_reaches
    (hrun : (connTasks ourPubkey).ReachesWhere (fun _ _ => True) RoomForIp .new reg ts) : IpInv reg ts := by
  refine hrun.invariant ⟨directed_zero, fun ip => Nat.zero_le _⟩ ?_ ?_
  · exact fun _ _ _ _ h hstart _ => h.start hstart
  · exact fun _ _ _ _ _ h hstep hroom => h.step hstep hroom

/-! ## All addresses -/

/-- The inbound sessions. -/
def isInbound (s : PeerSession) : Bool := ! s.isOutbound

section

variable (hin : a.session.isOutbound = false)
include hin

/-- The session that is attached for an identity is an inbound one that was not there before. -/
theorem attaches_inbound (h : Attaches a.now a.identity ourPubkey a.activeIbd a.catchingUp a.session reg reg')
    (hof : reg.sessionOf a.identity = some existing) :
    reg'.inboundCount = reg.inboundCount + (existing.isOutbound && PeerRegistry.replaces a.now
      a.identity ourPubkey a.activeIbd a.catchingUp existing a.session).toNat := by
  have hcount : reg'.inboundCount + _ = reg.inboundCount + _ := h.count isInbound
  simp only [hof, sessionAfter, Option.any_some] at hcount
  cases hrep : PeerRegistry.replaces a.now a.identity ourPubkey a.activeIbd a.catchingUp existing
      a.session <;> cases hout : existing.isOutbound <;>
    simp [hrep, hout, isInbound, hin] at hcount ⊢ <;> omega

/-- Whether an inbound session takes the place of an outbound one. -/
theorem displaces_iff (hof : reg.sessionOf a.identity = some existing) (hfull : maxInboundPeers ≤ reg.inboundCount) :
    DisplacesOutbound ourPubkey reg a ↔ (existing.isOutbound && PeerRegistry.replaces a.now a.identity
      ourPubkey a.activeIbd a.catchingUp existing a.session) = true := by
  simp only [DisplacesOutbound, hof, Option.some.injEq, exists_eq_left', PeerRegistry.replaces, hin,
    hfull, true_and, Bool.and_eq_true, decide_eq_true_eq, Bool.not_eq_true']
  rw [eq_comm (a := false), decide_eq_false_iff_not]
  tauto

/-- An inbound session is attached within the cap if and only if it does not take the place of an
outbound one with all slots taken. -/
theorem handleInbound_inboundCount_le (hcap : reg.inboundCount ≤ maxInboundPeers) :
    (a.handleInbound ourPubkey reg).1.inboundCount ≤ maxInboundPeers ↔ ¬ DisplacesOutbound ourPubkey reg a := by
  have hnone : reg.sessionOf a.identity = none → ¬ DisplacesOutbound ourPubkey reg a := by
    rintro hnone ⟨-, existing, hof, -⟩
    rw [hnone] at hof
    cases hof
  rcases admitInbound_cases a.listing a.handshakeTip with
    ⟨hof, hsame⟩ | ⟨hslot, h⟩ | ⟨-, hof, victim, s, hs, hvictim, h⟩
  · have hcount : (a.handleInbound ourPubkey reg).1.inboundCount = reg.inboundCount :=
      countSessions_congr _ hsame
    exact iff_of_true (hcount ▸ hcap) (hnone hof)
  · cases hof : reg.sessionOf a.identity with
    | none =>
      have hfree : reg.inboundCount < maxInboundPeers := by simpa [hof] using hslot
      have hle : (a.handleInbound ourPubkey reg).1.inboundCount ≤ reg.inboundCount + _ :=
        h.count_le isInbound
      have hone := Bool.toNat_le (isInbound a.session)
      exact iff_of_true (by omega) (hnone hof)
    | some existing =>
      have hcount : (a.handleInbound ourPubkey reg).1.inboundCount = _ := attaches_inbound hin h hof
      rw [hcount]
      rcases Nat.lt_or_ge reg.inboundCount maxInboundPeers with hfree | hfull
      · refine iff_of_true ?_ fun hdisplaces => absurd hdisplaces.1 (Nat.not_le.mpr hfree)
        have hone := Bool.toNat_le (existing.isOutbound && PeerRegistry.replaces a.now a.identity
          ourPubkey a.activeIbd a.catchingUp existing a.session)
        omega
      · rw [displaces_iff hin hof hfull]
        cases existing.isOutbound && PeerRegistry.replaces a.now a.identity ourPubkey a.activeIbd
            a.catchingUp existing a.session with
        | false => exact iff_of_true hcap Bool.false_ne_true
        | true =>
          refine iff_of_false ?_ (not_not_intro rfl)
          show ¬ reg.inboundCount + 1 ≤ maxInboundPeers
          omega
  · -- the slot of the victim is free
    have hdetached : (reg.detachSessionIfCurrent victim s.sessionId).1.inboundCount + _ =
        reg.inboundCount := detach_count isInbound hs
    have hle : (a.handleInbound ourPubkey reg).1.inboundCount ≤ _ + _ := h.count_le isInbound
    have hone := Bool.toNat_le (isInbound a.session)
    have hvictim : (isInbound s).toNat = 1 := by simp [isInbound, hvictim]
    refine iff_of_true ?_ (hnone hof)
    change _ ≤ (reg.detachSessionIfCurrent victim s.sessionId).1.inboundCount + _ at hle
    omega

end

/-- What holds while no inbound session takes the place of an outbound one with all slots taken. -/
def CapInv (reg : PeerRegistry) (ts : Multiset ConnTask) : Prop :=
  Directed ts ∧ reg.inboundCount ≤ maxInboundPeers

theorem CapInv.start (h : CapInv reg ts) (hstart : ConnStarts reg reg' t) : CapInv reg' (t ::ₘ ts) := by
  have hcount : reg'.inboundCount = reg.inboundCount := countSessions_congr _ (start_sessions hstart)
  exact ⟨h.1.start hstart, hcount ▸ h.2⟩

/-- A step keeps the cap if and only if it meets the condition. -/
theorem CapInv.step_iff (h : CapInv reg (t ::ₘ ts)) (hstep : ConnStep ourPubkey reg t reg' next) :
    reg'.inboundCount ≤ maxInboundPeers ↔ KeepsOutbound ourPubkey reg ts t := by
  have hle : reg'.inboundCount ≤ reg.inboundCount + admits isInbound t := by
    refine step_count_le h.1 hstep fun s hs => ?_
    simp only [hs, Bool.not_true]
  cases t with
  | admitting a =>
    cases hstep
    exact handleInbound_inboundCount_le (h.1 _ (Multiset.mem_cons_self _ _)) h.2
  | accepted | handshaking | dialing | connecting | attaching | closing =>
    exact iff_of_true (hle.trans h.2) trivial

theorem capInv_of_reaches
    (hrun : (connTasks ourPubkey).ReachesWhere (fun _ _ => True) (KeepsOutbound ourPubkey) .new reg ts) :
    CapInv reg ts := by
  refine hrun.invariant ⟨directed_zero, Nat.zero_le _⟩ ?_ ?_
  · exact fun _ _ _ _ h hstart _ => h.start hstart
  · exact fun _ _ _ _ _ h hstep hkeeps => ⟨h.1.step hstep, (h.step_iff hstep).mpr hkeeps⟩

/-! ## Runs that reach the caps -/

section

/-- An inbound connection is accepted, completes its handshake and is admitted. -/
theorem reaches_inbound
    (hrun : (connTasks ourPubkey).ReachesWhere (fun _ _ => True) mayStep .new reg ts) (a : Admission)
    (hin : a.session.isOutbound = false) (haccept : reg.acceptInbound a.session.socketAddr = some reg')
    (hmay : mayStep reg ts (.accepted a.session.socketAddr))
    (hmay' : mayStep reg' ts (.handshaking a.session.socketAddr)) (hmay'' : mayStep reg' ts (.admitting a)) :
    (connTasks ourPubkey).ReachesWhere (fun _ _ => True) mayStep .new (a.handleInbound ourPubkey reg').1
      (a.follow (a.handleInbound ourPubkey reg').2 + ts) := by
  have hlisten := hrun.spawn (ConnStarts.accepted a.session.socketAddr fun _ => rfl) trivial
  have haccepted := hlisten.step (ConnStep.accept _ _ haccept) hmay
  have hcomplete := haccepted.step (ConnStep.inboundCompletes _ a rfl hin) hmay'
  exact hcomplete.step (ConnStep.handleInbound a) hmay''

end

theorem addrsOf_resetRetry (now : Instant) (identity : PeerId) :
    addrsOf (reg.resetRetry now identity) = addrsOf reg := by
  unfold PeerRegistry.resetRetry
  split <;> rfl

/-- What becomes of the addresses when a session is attached for an identity that has none. -/
theorem addrsOf_attached (hnone : reg.sessionOf identity = none) :
    addrsOf (PeerRegistry.attached now identity release (reg.attachSession now identity session tip
      dialAddrHint desiredOutbound ourPubkey activeIbd catchingUp)).1 =
      (reg.connectedSocketToIdentity.insert session.socketAddr identity,
        reg.pendingInboundSockets.erase session.socketAddr,
        reg.pendingOutboundAddrs.erase session.socketAddr) := by
  obtain ⟨r, h, heq⟩ := attachSession_eq reg now identity session tip dialAddrHint desiredOutbound
    ourPubkey activeIbd catchingUp
  rw [heq, hnone]
  exact (addrsOf_resetRetry now identity).trans (congrArg (Prod.mk _) (Prod.mk.inj h.addrs).2)

/-- The key of the node. -/
def ownKey : PeerId := Vector.replicate 32 0

/-- A peer that connects. -/
def peerKey (i : Nat) : PeerId := Vector.replicate 32 (UInt8.ofNat i)

/-- The address it connects from. -/
def peerAddr (i : Nat) : SocketAddr := .v4 #v[10, 0, UInt8.ofNat (i / 256), UInt8.ofNat i] 9000

/-- A handshake with a peer that is complete at the given time. -/
def admission (identity : PeerId) (addr : SocketAddr) (sessionId : UInt64) (isOutbound : Bool)
    (now : Instant) : Admission where
  identity := identity
  session := ⟨sessionId, addr, isOutbound, now⟩
  handshakeTip := ⟨0, Vector.replicate 32 0, Hash256.zero, false⟩
  listing := []
  now := now
  activeIbd := none
  catchingUp := false

/-- The handshake of the peer with the given number. -/
def peerAdmission (i : Nat) : Admission :=
  admission (peerKey i) (peerAddr i) (UInt64.ofNat i) false 0

/-- The peer that the node connects to. -/
def dialedKey : PeerId := (Vector.replicate 32 0).set 0 1

/-- Its address. -/
def dialedAddr : SocketAddr := .v4 #v[11, 0, 0, 0] 9000

/-- The handshake with it. -/
def dialedAdmission : Admission := admission dialedKey dialedAddr 1000 true 0

theorem ofNat_inj (hi : i < 256) (hj : j < 256) (h : UInt8.ofNat i = UInt8.ofNat j) : i = j := by
  have h := congrArg UInt8.toNat h
  rwa [UInt8.toNat_ofNat_of_lt' hi, UInt8.toNat_ofNat_of_lt' hj] at h

theorem peerKey_inj (hi : i < 256) (hj : j < 256) (h : peerKey i = peerKey j) : i = j :=
  ofNat_inj hi hj ((Vector.replicate_inj.mp h).resolve_left (by decide))

theorem peerKey_ne_dialed (i : Nat) : peerKey i ≠ dialedKey := by
  intro h
  have h0 : (peerKey i)[0] = (1 : UInt8) := by rw [h]; rfl
  have h1 : (peerKey i)[1] = (0 : UInt8) := by rw [h]; rfl
  have hsame : (peerKey i)[0] = (peerKey i)[1] := by simp [peerKey]
  rw [h0, h1] at hsame
  exact absurd hsame (by decide)

theorem peerAddr_ip_inj (hi : i ≤ 256) (hj : j ≤ 256) (h : (peerAddr i).ip = (peerAddr j).ip) : i = j := by
  simp only [peerAddr, SocketAddr.ip, IpAddr.v4.injEq] at h
  have hhigh : UInt8.ofNat (i / 256) = UInt8.ofNat (j / 256) := by
    have := congrArg (fun v : Vector UInt8 4 => v[2]) h
    exact this
  have hlow : UInt8.ofNat i = UInt8.ofNat j := by
    have := congrArg (fun v : Vector UInt8 4 => v[3]) h
    exact this
  have hhigh := ofNat_inj (by omega) (by omega) hhigh
  have hlow := congrArg UInt8.toNat hlow
  simp only [UInt8.toNat_ofNat'] at hlow
  omega

/-- The node is connected to its peer, and the first peers are connected to it. -/
structure Filled (n : Nat) (reg : PeerRegistry) : Prop where
  inbound : reg.inboundCount = n
  noSession : ∀ i, n ≤ i → i < 256 → reg.sessionOf (peerKey i) = none
  noIp : ∀ i, n ≤ i → i ≤ 256 → reg.inboundCountForIp (peerAddr i).ip = 0
  noAddr : ∀ i, n ≤ i → i ≤ 256 → peerAddr i ∉ reg.connectedSocketToIdentity
  pendingInbound : reg.pendingInboundSockets = ∅
  pendingOutbound : reg.pendingOutboundAddrs = ∅
  outbound : reg.sessionOf dialedKey = some dialedAdmission.session

/-- A connection from one of the next peers is accepted. -/
theorem Filled.accepts (h : Filled n reg) (hn : n ≤ i) (hi : i ≤ 256) :
    reg.acceptInbound (peerAddr i) = some { reg with pendingInboundSockets := {peerAddr i} } := by
  have hroom : ¬ maxInboundPeers + evictionPendingHeadroom ≤
      reg.inboundCount + reg.pendingInboundSockets.card := by
    rw [h.inbound, h.pendingInbound, maxInboundPeers, evictionPendingHeadroom, Finset.card_empty]
    omega
  have hip : ¬ maxInboundPerIp ≤ reg.inboundCountForIp (peerAddr i).ip := by
    rw [h.noIp i hn hi]
    decide
  have hunknown : ¬ (peerAddr i ∈ reg.connectedSocketToIdentity ∨
      peerAddr i ∈ reg.pendingInboundSockets ∨ peerAddr i ∈ reg.pendingOutboundAddrs) := by
    rw [h.pendingInbound, h.pendingOutbound]
    simp [h.noAddr i hn hi]
  rw [PeerRegistry.acceptInbound, if_neg hroom, if_neg hip, PeerRegistry.reserveInboundSocket,
    if_neg hunknown, h.pendingInbound]
  rfl

/-- Where a slot is free, a session is attached without more ado. -/
theorem handleInbound_of_free (hfree : reg.inboundCount < maxInboundPeers) :
    a.handleInbound ourPubkey reg = PeerRegistry.attached a.now a.identity
      (·.releaseInboundSocket a.session.socketAddr) (reg.attachSession a.now a.identity a.session
        a.handshakeTip none false ourPubkey a.activeIbd a.catchingUp) := by
  simp only [Admission.handleInbound, PeerRegistry.admitInbound, PeerRegistry.decideInboundEvictionUtility,
    if_pos hfree]

theorem handleInbound_attaches (hfree : reg.inboundCount < maxInboundPeers) :
    Attaches a.now a.identity ourPubkey a.activeIbd a.catchingUp a.session reg
      (a.handleInbound ourPubkey reg).1 := by
  intro id
  rw [handleInbound_of_free hfree]
  refine Eq.trans (sessionOf_attached ?_ _) sessionOf_attach
  exact fun _ _ => rfl

theorem Filled.next (h : Filled n reg) (hn : n < 256) : Filled (n + 1) ((peerAdmission n).handleInbound ownKey
      { reg with pendingInboundSockets := {peerAddr n} }).1 := by
  let reg₁ : PeerRegistry := { reg with pendingInboundSockets := {peerAddr n} }
  have hfree : reg₁.inboundCount < maxInboundPeers := by
    show reg.inboundCount < 256
    rw [h.inbound]
    exact hn
  have hnone : reg₁.sessionOf (peerKey n) = none := h.noSession n (Nat.le_refl n) hn
  have hattach : Attaches _ _ ownKey _ _ _ reg₁ ((peerAdmission n).handleInbound ownKey reg₁).1 :=
    handleInbound_attaches hfree
  have haddrs : addrsOf ((peerAdmission n).handleInbound ownKey reg₁).1 =
      (reg.connectedSocketToIdentity.insert (peerAddr n) (peerKey n),
        ({peerAddr n} : Finset SocketAddr).erase (peerAddr n),
        reg.pendingOutboundAddrs.erase (peerAddr n)) := by
    rw [handleInbound_of_free hfree]
    exact addrsOf_attached hnone
  obtain ⟨hconnected, hpending⟩ := Prod.mk.inj haddrs
  obtain ⟨hinbound, houtbound⟩ := Prod.mk.inj hpending
  refine ⟨?_, fun i hi hi' => ?_, fun i hi hi' => ?_, fun i hi hi' => ?_, ?_, ?_, ?_⟩
  · have hcount : _ + _ = reg₁.inboundCount + _ := hattach.count isInbound
    rw [show (peerAdmission n).identity = peerKey n from rfl, hnone] at hcount
    exact hcount.trans (congrArg (· + 1) h.inbound)
  · rw [hattach, if_neg fun heq => ?_]
    · exact h.noSession i (by omega) hi'
    · have := peerKey_inj hi' hn heq
      omega
  · have hle := hattach.count_le (inboundFrom (peerAddr i).ip)
    have hother : inboundFrom (peerAddr i).ip (peerAdmission n).session = false := by
      refine decide_eq_false fun heq => ?_
      have := peerAddr_ip_inj (by omega) hi' heq
      omega
    rw [hother] at hle
    have hbefore := h.noIp i (by omega) hi'
    exact Nat.le_zero.mp (hle.trans hbefore.le)
  · rw [hconnected, Finmap.mem_insert, not_or]
    refine ⟨fun heq => ?_, h.noAddr i (by omega) hi'⟩
    have := peerAddr_ip_inj hi' (by omega) (congrArg SocketAddr.ip heq)
    omega
  · rw [hinbound]
    simp
  · rw [houtbound, h.pendingOutbound]
    rfl
  · rw [hattach, if_neg fun heq => ?_]
    · exact h.outbound
    · exact peerKey_ne_dialed n heq.symm

/-- The registry while the node is connecting to its peer. -/
def dialing : PeerRegistry := ⟨∅, ∅, ∅, ∅, {dialedAddr}⟩

theorem filled_zero : Filled 0 (dialedAdmission.connect ownKey dialing).1 := by
  have hattach : Attaches _ dialedKey ownKey _ _ _ dialing (dialedAdmission.connect ownKey dialing).1 :=
    connect_attaches dialedAdmission
  have haddrs : addrsOf (dialedAdmission.connect ownKey dialing).1 =
      ((∅ : Map SocketAddr PeerId).insert dialedAddr dialedKey, (∅ : Finset SocketAddr).erase dialedAddr,
        ({dialedAddr} : Finset SocketAddr).erase dialedAddr) := addrsOf_attached rfl
  obtain ⟨hconnected, hpending⟩ := Prod.mk.inj haddrs
  obtain ⟨hinbound, houtbound⟩ := Prod.mk.inj hpending
  have hcount : ∀ kind : PeerSession → Bool, kind dialedAdmission.session = false →
      (dialedAdmission.connect ownKey dialing).1.countSessions kind = 0 := by
    intro kind hkind
    have hle := hattach.count_le kind
    rw [hkind] at hle
    exact Nat.le_zero.mp hle
  refine ⟨hcount _ rfl, fun i _ _ => ?_, fun i _ _ => hcount _ rfl, fun i _ _ => ?_, ?_, ?_, ?_⟩
  · rw [hattach, if_neg (peerKey_ne_dialed i)]
    rfl
  · rw [hconnected, Finmap.mem_insert, not_or]
    refine ⟨fun heq => ?_, Finmap.notMem_empty⟩
    have hip := congrArg SocketAddr.ip heq
    simp only [peerAddr, SocketAddr.ip, dialedAddr, IpAddr.v4.injEq] at hip
    exact absurd (congrArg (fun v : Vector UInt8 4 => v[0]) hip) (by simp)
  · rw [hinbound]
    rfl
  · rw [houtbound]
    decide
  · rw [hattach, if_pos rfl]
    rfl

/-- All slots can be taken while the node is connected to its peer. -/
theorem exists_filled (hn : n ≤ 256) :
    ∃ reg ts, (connTasks ownKey).ReachesWhere (fun _ _ => True) (KeepsOutbound ownKey) .new reg ts ∧
      Filled n reg := by
  induction n with
  | zero =>
    have hstart : (connTasks ownKey).ReachesWhere (fun _ _ => True) (KeepsOutbound ownKey) .new .new 0 :=
      .start
    have hdial := hstart.spawn (ConnStarts.dialing dialedAddr fun _ => rfl) trivial
    have hreserved := hdial.step (ConnStep.dial dialedAddr dialing rfl) trivial
    rw [Multiset.singleton_add] at hreserved
    have hconnected := hreserved.step
      (ConnStep.outboundCompletes dialedAddr dialedAdmission rfl rfl) trivial
    rw [Multiset.singleton_add] at hconnected
    exact ⟨_, _, hconnected.step (ConnStep.connect dialedAdmission) trivial, filled_zero⟩
  | succ n ih =>
    obtain ⟨reg, ts, hrun, hfilled⟩ := ih (by omega)
    refine ⟨_, _, reaches_inbound hrun (peerAdmission n) rfl (hfilled.accepts (Nat.le_refl n) (by omega))
      trivial trivial ?_, hfilled.next hn⟩
    -- the slots are not all taken yet
    rintro ⟨hfull, -⟩
    have hcount : reg.inboundCount = n := hfilled.inbound
    have hfull : 256 ≤ reg.inboundCount := hfull
    omega

/-! ## The results -/

/-- In every run in which connections are accepted only with room for their address, counting those
that are pending, no address has more inbound sessions than it may have. -/
theorem inboundCountForIp_le {ourPubkey : PeerId} {reg : PeerRegistry} {ts : Multiset ConnTask}
    (hrun : (connTasks ourPubkey).ReachesWhere (fun _ _ => True) RoomForIp .new reg ts) (ip : IpAddr) :
    reg.inboundCountForIp ip ≤ maxInboundPerIp :=
  Nat.le_of_add_right_le ((ipInv_of_reaches hrun).2 ip)

/-- One connection. -/
theorem inboundCountForIp_le_one : let reg := ((peerAdmission 0).handleInbound ownKey ⟨∅, ∅, ∅, {peerAddr 0}, ∅⟩).1
    reg.inboundCountForIp (peerAddr 0).ip = 1 ∧
      reg.inboundCountForIp (peerAddr 0).ip ≤ maxInboundPerIp := by
  refine ⟨by decide, inboundCountForIp_le (reaches_inbound .start (peerAdmission 0) rfl
    (by rfl) ?_ trivial trivial) _⟩
  show PeerRegistry.new.inboundCountForIp (peerAddr 0).ip + 0 < maxInboundPerIp
  decide

/-- A second peer from the address of the first one. -/
def secondAdmission : Admission := admission (peerKey 1) (.v4 #v[10, 0, 0, 0] 9001) 1 false 0

/-- Two peers connect from one address before the handshake of either is complete, and both are
attached. -/
theorem inboundCountForIp_le_counterexample : ∃ reg ts, (connTasks ownKey).Reaches .new reg ts ∧
      maxInboundPerIp < reg.inboundCountForIp (peerAddr 0).ip := by
  have hstart : (connTasks ownKey).Reaches .new .new 0 := .start
  have hlisten := hstart.spawn (ConnStarts.accepted (peerAddr 0) fun _ => rfl)
  have hfirst := hlisten.step (ConnStep.accept _ ⟨∅, ∅, ∅, {peerAddr 0}, ∅⟩ rfl)
  have hsecond := reaches_inbound hfirst secondAdmission rfl
    (show _ = some (⟨∅, ∅, ∅, {secondAdmission.session.socketAddr, peerAddr 0}, ∅⟩ : PeerRegistry) from rfl)
    trivial trivial trivial
  rw [Multiset.singleton_add, Multiset.add_cons] at hsecond
  have hcompletes := Tasks.Reaches.step hsecond (ConnStep.inboundCompletes _ (peerAdmission 0) rfl rfl)
  rw [Multiset.singleton_add] at hcompletes
  exact ⟨_, _, hcompletes.step (ConnStep.handleInbound (peerAdmission 0)), by decide⟩

/-- In every run in which no inbound session takes the place of an outbound one with all slots taken,
there are at most `MAX_INBOUND_PEERS` inbound sessions; and after any further step there are, if and
only if that step does not do so. -/
theorem inboundCount_le_iff {ourPubkey : PeerId} {reg : PeerRegistry} {ts : Multiset ConnTask}
    (hrun : (connTasks ourPubkey).ReachesWhere (fun _ _ => True) (KeepsOutbound ourPubkey) .new reg ts) :
    reg.inboundCount ≤ maxInboundPeers ∧
      ∀ t others reg' next, ts = t ::ₘ others → ConnStep ourPubkey reg t reg' next →
        (reg'.inboundCount ≤ maxInboundPeers ↔ KeepsOutbound ourPubkey reg others t) := by
  have hinv := capInv_of_reaches hrun
  refine ⟨hinv.2, ?_⟩
  rintro t others reg' next rfl hstep
  exact hinv.step_iff hstep

/-- All slots are taken. -/
theorem inboundCount_le_iff_filled :
    ∃ reg ts, (connTasks ownKey).ReachesWhere (fun _ _ => True) (KeepsOutbound ownKey) .new reg ts ∧
      reg.inboundCount = maxInboundPeers ∧ reg.inboundCount ≤ maxInboundPeers := by
  obtain ⟨reg, ts, hrun, hfilled⟩ := exists_filled (Nat.le_refl 256)
  exact ⟨reg, ts, hrun, hfilled.inbound, (inboundCount_le_iff hrun).1⟩

/-- With all slots taken, the peer that the node has been connected to for two minutes connects to the
node. -/
theorem inboundCount_le_iff_counterexample :
    ∃ reg ts, (connTasks ownKey).Reaches .new reg ts ∧ maxInboundPeers < reg.inboundCount := by
  obtain ⟨reg, ts, hrun, hfilled⟩ := exists_filled (Nat.le_refl 256)
  let a := admission dialedKey (peerAddr 256) 2000 false (fromSecs 120)
  let reg₁ : PeerRegistry := { reg with pendingInboundSockets := {peerAddr 256} }
  have haccept : reg.acceptInbound (peerAddr 256) = some reg₁ :=
    hfilled.accepts (Nat.le_refl 256) (Nat.le_refl 256)
  have hcount : reg₁.inboundCount = maxInboundPeers := hfilled.inbound
  have hdisplaces : DisplacesOutbound ownKey reg₁ a := by
    exact ⟨hcount.ge, dialedAdmission.session, hfilled.outbound, rfl, nofun, rfl, by decide,
      by decide⟩
  refine ⟨_, _, reaches_inbound hrun.reaches a rfl haccept trivial trivial trivial, ?_⟩
  refine Nat.not_le.mp fun hle => ?_
  exact (handleInbound_inboundCount_le rfl hcount.le).mp hle hdisplaces

end Exfer.Proof
