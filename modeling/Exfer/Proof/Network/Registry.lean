import Exfer.Impl.Network.Registry

/-!
# Sessions of the registry

What each operation of the registry does to the attached sessions (`sessionOf`), and to how many of a
kind there are (`countSessions_update`).
-/

namespace Exfer.Proof

open Lib Impl

variable {reg reg' : PeerRegistry} {identity id : PeerId} {now : Instant} {session : PeerSession}
  {handshakeTip : PeerTip} {dialAddrHint : Option SocketAddr} {desiredOutbound : Bool}
  {activeIbdPeer : Option (PeerId × UInt64)}

/-! ## Counting -/

theorem mem_kind : id ∈ reg.byIdentity.keys.filter (fun id => (reg.sessionOf id).any kind) ↔
      (reg.sessionOf id).any kind = true := by
  rw [Finset.mem_filter, and_iff_right_iff_imp]
  intro h
  rw [Map.mem_keys_iff]
  intro hnone
  simp [PeerRegistry.sessionOf, hnone] at h

/-- Where only the session of one identity changes, so does its share of a count. -/
theorem countSessions_update (identity : PeerId) (kind : PeerSession → Bool)
    (h : ∀ id, id ≠ identity → reg'.sessionOf id = reg.sessionOf id) :
    reg'.countSessions kind + ((reg.sessionOf identity).any kind).toNat =
      reg.countSessions kind + ((reg'.sessionOf identity).any kind).toNat := by
  have herase : ∀ r : PeerRegistry, r.countSessions kind =
      ((r.byIdentity.keys.filter fun id => (r.sessionOf id).any kind).erase identity).card +
        ((r.sessionOf identity).any kind).toNat := by
    intro r
    rw [PeerRegistry.countSessions, Finset.card_erase_eq_ite]
    cases hkind : (r.sessionOf identity).any kind with
    | false => rw [if_neg (by rw [mem_kind, hkind]; exact Bool.false_ne_true)]; rfl
    | true =>
      have hmem := mem_kind.mpr hkind
      have hpos := Finset.card_pos.mpr ⟨_, hmem⟩
      rw [if_pos hmem]
      show _ = _ - 1 + 1
      omega
  have hsame : (reg'.byIdentity.keys.filter fun id => (reg'.sessionOf id).any kind).erase identity =
      (reg.byIdentity.keys.filter fun id => (reg.sessionOf id).any kind).erase identity := by
    ext id
    rw [Finset.mem_erase, Finset.mem_erase, mem_kind, mem_kind]
    refine and_congr_right fun hne => ?_
    rw [h id hne]
  rw [herase reg, herase reg', hsame]
  omega

theorem countSessions_congr (kind : PeerSession → Bool) (h : ∀ id, reg'.sessionOf id = reg.sessionOf id) :
    reg'.countSessions kind = reg.countSessions kind := by
  have hupdate := countSessions_update (Vector.replicate 32 0) kind fun id _ => h id
  rw [h] at hupdate
  omega

/-! ## Operations -/

theorem sessionOf_setSession {lp : LogicalPeer} {session : Option PeerSession}
    {connected : Map SocketAddr PeerId} : (reg.setSession identity lp session connected).sessionOf id =
      if id = identity then session else reg.sessionOf id := by
  unfold PeerRegistry.sessionOf PeerRegistry.setSession
  rw [Map.lookup_insert_eq]
  split <;> rfl

theorem sessionOf_resetRetry : (reg.resetRetry now identity).sessionOf id = reg.sessionOf id := by
  unfold PeerRegistry.resetRetry
  split
  · rfl
  rename_i lp hlookup
  unfold PeerRegistry.sessionOf
  rw [Map.lookup_insert_eq]
  split
  · rename_i hid
    rw [hid, hlookup]
    rfl
  · rfl

/-- A detachment does nothing, or it takes the session of the identity with its address. -/
theorem detach_cases (reg : PeerRegistry) (identity : PeerId) (sessionId : UInt64) :
    (reg.detachSessionIfCurrent identity sessionId = (reg, false) ∧
      ∀ s, reg.sessionOf identity = some s → s.sessionId ≠ sessionId) ∨
    ∃ lp s, reg.sessionOf identity = some s ∧ s.sessionId = sessionId ∧
      reg.detachSessionIfCurrent identity sessionId = (reg.setSession identity lp none
        (reg.connectedSocketToIdentity.erase s.socketAddr), true) := by
  unfold PeerRegistry.detachSessionIfCurrent PeerRegistry.sessionOf
  cases reg.byIdentity.lookup identity with
  | none => exact .inl ⟨rfl, nofun⟩
  | some lp =>
    cases hsession : lp.session with
    | none => exact .inl ⟨by simp only [hsession], by simp [hsession]⟩
    | some s =>
      simp only [hsession, Option.bind_some, Option.some.injEq]
      split
      · exact .inr ⟨lp, s, rfl, ‹_›, rfl⟩
      · refine .inl ⟨rfl, ?_⟩
        rintro _ rfl
        assumption

theorem sessionOf_detach : (reg.detachSessionIfCurrent identity sessionId).1.sessionOf id =
      if id = identity ∧ (reg.sessionOf identity).any (·.sessionId = sessionId) then none
      else reg.sessionOf id := by
  rcases detach_cases reg identity sessionId with ⟨h, hne⟩ | ⟨lp, s, hof, hid, h⟩
  · rw [h, if_neg]
    rintro ⟨-, hany⟩
    obtain ⟨s, hs, hid⟩ := (Option.any_eq_true _ _).mp hany
    exact hne s hs (of_decide_eq_true hid)
  · rw [h, sessionOf_setSession]
    simp only [hof, Option.any_some, hid, decide_true, and_true]

/-- The session that is attached for an identity after `attach_session`. -/
def sessionAfter (now : Instant) (identity ourPubkey : PeerId)
    (activeIbdPeer : Option (PeerId × UInt64)) (catchingUp : Bool) (session : PeerSession) :
    Option PeerSession → PeerSession
  | none => session
  | some existing =>
    if PeerRegistry.replaces now identity ourPubkey activeIbdPeer catchingUp existing session then
      session
    else existing

/-- The addresses of a registry. -/
def addrsOf (reg : PeerRegistry) : Map SocketAddr PeerId × Finset SocketAddr × Finset SocketAddr :=
  (reg.connectedSocketToIdentity, reg.pendingInboundSockets, reg.pendingOutboundAddrs)

/-- What `attach_session` has done when it comes to decide on the session: the peer has the tip of the
handshake, also where the session is then rejected. -/
structure Registers (reg : PeerRegistry) (identity : PeerId) (session : PeerSession)
    (handshakeTip : PeerTip) (r : PeerRegistry × LogicalPeer) : Prop where
  peers : r.1.byIdentity = reg.byIdentity
  addrs : addrsOf r.1 = (reg.connectedSocketToIdentity,
    reg.pendingInboundSockets.erase session.socketAddr, reg.pendingOutboundAddrs.erase session.socketAddr)
  session : r.2.session = reg.sessionOf identity
  tip : r.2.tip = some { handshakeTip with confirmed := false }
  credit : r.2.lastUsefulMessageAt = (reg.byIdentity.lookup identity).bind (·.lastUsefulMessageAt)

theorem registerPeer_spec : Registers reg identity session handshakeTip
    (reg.registerPeer now identity session handshakeTip dialAddrHint desiredOutbound) := by
  have hlp : ((reg.byIdentity.lookup identity).getD (.new now)).session = reg.sessionOf identity := by
    unfold PeerRegistry.sessionOf
    cases reg.byIdentity.lookup identity <;> rfl
  have hcredit : ((reg.byIdentity.lookup identity).getD (.new now)).lastUsefulMessageAt =
      (reg.byIdentity.lookup identity).bind (·.lastUsefulMessageAt) := by
    cases reg.byIdentity.lookup identity <;> rfl
  cases dialAddrHint with
  | none => exact ⟨rfl, rfl, hlp, rfl, hcredit⟩
  | some addr => exact ⟨rfl, rfl, hlp, rfl, hcredit⟩

/-- `attach_session` by the session that the identity has. -/
theorem attachSession_eq (reg : PeerRegistry) (now : Instant) (identity : PeerId)
    (session : PeerSession) (handshakeTip : PeerTip) (dialAddrHint : Option SocketAddr)
    (desiredOutbound : Bool) (ourPubkey : PeerId) (activeIbdPeer : Option (PeerId × UInt64))
    (catchingUp : Bool) : ∃ r, Registers reg identity session handshakeTip r ∧
      reg.attachSession now identity session handshakeTip dialAddrHint desiredOutbound ourPubkey
        activeIbdPeer catchingUp =
      match reg.sessionOf identity with
      | none => (r.1.setSession identity { r.2 with lastUsefulMessageAt := none } (some session)
          (reg.connectedSocketToIdentity.insert session.socketAddr identity), .newLogicalConnect)
      | some existing =>
        if PeerRegistry.replaces now identity ourPubkey activeIbdPeer catchingUp existing session then
          (r.1.setSession identity { r.2 with lastUsefulMessageAt := none } (some session)
            ((reg.connectedSocketToIdentity.erase existing.socketAddr).insert session.socketAddr
              identity), .replacedExistingSession existing)
        else
          (r.1.setSession identity r.2 (some existing) reg.connectedSocketToIdentity,
            .rejectedDuplicate) := by
  have h : Registers reg identity session handshakeTip
    (reg.registerPeer now identity session handshakeTip dialAddrHint desiredOutbound) := registerPeer_spec
  refine ⟨_, h, ?_⟩
  have hconnected : _ = reg.connectedSocketToIdentity := congrArg Prod.fst h.addrs
  rw [← h.session, ← hconnected]
  rfl

theorem sessionOf_attach {ourPubkey : PeerId} {catchingUp : Bool} :
    (reg.attachSession now identity session handshakeTip dialAddrHint desiredOutbound ourPubkey
      activeIbdPeer catchingUp).1.sessionOf id =
      if id = identity then some (sessionAfter now identity ourPubkey activeIbdPeer catchingUp session
        (reg.sessionOf identity)) else reg.sessionOf id := by
  obtain ⟨r, h, heq⟩ := attachSession_eq reg now identity session handshakeTip dialAddrHint
    desiredOutbound ourPubkey activeIbdPeer catchingUp
  rw [heq, show reg.sessionOf id = r.1.sessionOf id by rw [PeerRegistry.sessionOf, ← h.peers]; rfl]
  cases reg.sessionOf identity with
  | none => exact sessionOf_setSession
  | some existing =>
    simp only [sessionAfter]
    split <;> rw [sessionOf_setSession]

/-! ## Victims -/

theorem maxBy_mem {α : Type} {cmp : α → α → Ordering} {xs : List α} {x : α}
    (h : maxBy cmp xs = some x) : x ∈ xs := by
  have hfold : ∀ (ys : List α) (y : α),
      ys.foldl (fun best y => if cmp best y = .gt then best else y) y ∈ y :: ys := by
    intro ys
    induction ys with
    | nil => exact fun y => List.mem_singleton_self y
    | cons z ys ih =>
      intro y
      rw [List.foldl_cons]
      rcases List.mem_cons.mp (ih (if cmp y z = .gt then y else z)) with heq | hmem
      · rw [heq]
        split <;> simp
      · exact List.mem_cons_of_mem _ (List.mem_cons_of_mem _ hmem)
  cases xs with
  | nil => cases h
  | cons y ys =>
    cases h
    exact hfold ys y

theorem targetCandidates_subset (now : Instant) (unprotected : List EvictionCandidate) :
    targetCandidates now unprotected ⊆ unprotected := by
  unfold targetCandidates
  dsimp only
  split
  · exact List.Subset.refl _
  · split
    · exact List.nil_subset _
    · exact List.filter_subset_self _

/-- What a decision says of the slots: where no session is evicted and none refused, a slot is free or
the identity has a session; otherwise it has none. -/
def DecidedBy (reg : PeerRegistry) (identity : PeerId) (maxInbound : Nat) : EvictionDecision → Prop
  | .notNeeded => reg.inboundCount < maxInbound
  | .duplicateIdentity => (reg.sessionOf identity).isSome
  | _ => reg.sessionOf identity = none

theorem decide_slots (listing : List PeerId) (now : Instant) (ip : IpAddr)
    (activeIbdPeer : Option (PeerId × UInt64)) (maxInbound : Nat) (config : EvictionConfig) :
    DecidedBy reg identity maxInbound (reg.decideInboundEvictionUtility listing now identity ip
      activeIbdPeer maxInbound config) := by
  unfold PeerRegistry.decideInboundEvictionUtility
  by_cases hcount : reg.inboundCount < maxInbound
  · rw [if_pos hcount]
    exact hcount
  rw [if_neg hcount]
  by_cases hidentity : (reg.sessionOf identity).isSome
  · rw [if_pos hidentity]
    exact hidentity
  rw [if_neg hidentity]
  have hnone := Option.not_isSome_iff_eq_none.mp hidentity
  by_cases hip : maxInboundPerIp ≤ reg.inboundCountForIp ip
  · rw [if_pos hip]
    exact hnone
  rw [if_neg hip]
  dsimp only
  cases maxBy compareVictim (targetCandidates now (List.filter _ (reg.evictionCandidates listing))) with
  | none => exact hnone
  | some victim => exact hnone

/-- A victim is an inbound session that is attached. -/
theorem decide_evict (h : reg.decideInboundEvictionUtility listing now identity ip activeIbdPeer maxInbound config =
      .evict victim) : maxInbound ≤ reg.inboundCount ∧ reg.sessionOf identity = none ∧
      reg.inboundCountForIp ip < maxInboundPerIp ∧
      ∃ s, reg.sessionOf victim.identity = some s ∧ s.sessionId = victim.sessionId ∧
        s.isOutbound = false := by
  unfold PeerRegistry.decideInboundEvictionUtility at h
  split at h
  · cases h
  rename_i hcount
  split at h
  · cases h
  rename_i hidentity
  split at h
  · cases h
  rename_i hip
  dsimp only at h
  split at h
  · cases h
  rename_i v hmax
  cases h
  refine ⟨Nat.not_lt.mp hcount, Option.not_isSome_iff_eq_none.mp hidentity, Nat.not_le.mp hip, ?_⟩
  have hmem := List.mem_of_mem_filter (targetCandidates_subset _ _ (maxBy_mem hmax))
  obtain ⟨id, -, hid⟩ := List.mem_filterMap.mp hmem
  obtain ⟨lp, hlp, hid⟩ := Option.bind_eq_some_iff.mp hid
  obtain ⟨s, hs, hid⟩ := Option.bind_eq_some_iff.mp hid
  split at hid
  · cases hid
  rename_i hout
  cases hid
  refine ⟨s, ?_, rfl, Bool.eq_false_iff.mpr hout⟩
  rw [PeerRegistry.sessionOf, hlp, Option.bind_some, hs]

/-! ## Attaching -/

theorem sessionOf_attached (hrelease : ∀ reg id, (release reg).sessionOf id = reg.sessionOf id)
    (r : PeerRegistry × SessionAttachResult) :
    (PeerRegistry.attached now identity release r).1.sessionOf id = r.1.sessionOf id := by
  obtain ⟨reg, result⟩ := r
  cases result with
  | newLogicalConnect => exact sessionOf_resetRetry
  | replacedExistingSession old => exact sessionOf_resetRetry
  | rejectedDuplicate => exact hrelease reg id

section

variable {now : Instant} {ourPubkey : PeerId} {activeIbd : Option (PeerId × UInt64)}
  {catchingUp : Bool} {session : PeerSession}

/-- The one registry comes from the other by `attach_session` of a session. -/
def Attaches (now : Instant) (identity ourPubkey : PeerId) (activeIbd : Option (PeerId × UInt64))
    (catchingUp : Bool) (session : PeerSession) (reg reg' : PeerRegistry) : Prop :=
  ∀ id, reg'.sessionOf id =
    if id = identity then
      some (sessionAfter now identity ourPubkey activeIbd catchingUp session (reg.sessionOf identity))
    else reg.sessionOf id

section

variable (h : Attaches now identity ourPubkey activeIbd catchingUp session reg reg')
include h

/-- The share of the session in a count. -/
theorem Attaches.count (kind : PeerSession → Bool) : reg'.countSessions kind + ((reg.sessionOf identity).any kind).toNat =
      reg.countSessions kind + (kind (sessionAfter now identity ourPubkey activeIbd catchingUp session
        (reg.sessionOf identity))).toNat := by
  have hother : ∀ id, id ≠ identity → reg'.sessionOf id = reg.sessionOf id := by
    intro id hne
    rw [h id, if_neg hne]
  have hupdate := countSessions_update identity kind hother
  rwa [h identity, if_pos rfl] at hupdate

theorem Attaches.count_le (kind : PeerSession → Bool) :
    reg'.countSessions kind ≤ reg.countSessions kind + (kind session).toNat := by
  have hcount := h.count kind
  cases hof : reg.sessionOf identity with
  | none =>
    simp only [hof, sessionAfter, Option.any_none, Bool.toNat_false] at hcount
    omega
  | some existing =>
    simp only [hof, sessionAfter, Option.any_some] at hcount
    split at hcount <;> omega

end

theorem detach_count (kind : PeerSession → Bool) (hs : reg.sessionOf identity = some s) :
    (reg.detachSessionIfCurrent identity s.sessionId).1.countSessions kind + (kind s).toNat =
      reg.countSessions kind := by
  have hother : ∀ id, id ≠ identity →
      (reg.detachSessionIfCurrent identity s.sessionId).1.sessionOf id = reg.sessionOf id := by
    intro id hne
    rw [sessionOf_detach, if_neg fun h => hne h.1]
  have hupdate := countSessions_update identity kind hother
  rw [sessionOf_detach, if_pos ⟨rfl, by simp [hs]⟩, hs] at hupdate
  exact hupdate

theorem detach_count_le (sessionId : UInt64) (kind : PeerSession → Bool) :
    (reg.detachSessionIfCurrent identity sessionId).1.countSessions kind ≤ reg.countSessions kind := by
  have hother : ∀ id, id ≠ identity →
      (reg.detachSessionIfCurrent identity sessionId).1.sessionOf id = reg.sessionOf id := by
    intro id hne
    rw [sessionOf_detach, if_neg fun h => hne h.1]
  have hupdate := countSessions_update identity kind hother
  rw [sessionOf_detach] at hupdate
  split at hupdate
  · simp only [Option.any_none, Bool.toNat_false] at hupdate
    omega
  · omega

/-- What `handle_inbound` does to the sessions: nothing, or the session is attached where a slot is
free or its identity has a session, or the session is attached after the one of another identity has
been detached. -/
theorem admitInbound_cases (listing : List PeerId) (handshakeTip : PeerTip) :
    let result := (reg.admitInbound listing now ourPubkey activeIbd catchingUp identity session
      handshakeTip).1
    (reg.sessionOf identity = none ∧ ∀ id, result.sessionOf id = reg.sessionOf id) ∨
    ((reg.inboundCount < maxInboundPeers ∨ (reg.sessionOf identity).isSome) ∧
      Attaches now identity ourPubkey activeIbd catchingUp session reg result) ∨
    (maxInboundPeers ≤ reg.inboundCount ∧ reg.sessionOf identity = none ∧
      ∃ victim s, reg.sessionOf victim = some s ∧ s.isOutbound = false ∧
        Attaches now identity ourPubkey activeIbd catchingUp session
          (reg.detachSessionIfCurrent victim s.sessionId).1 result) := by
  intro result
  have hslots : DecidedBy reg identity maxInboundPeers _ :=
    decide_slots listing now session.socketAddr.ip activeIbd maxInboundPeers .default
  have hattach : ∀ reg : PeerRegistry, Attaches now identity ourPubkey activeIbd catchingUp session reg
      (PeerRegistry.attached now identity (·.releaseInboundSocket session.socketAddr)
        (reg.attachSession now identity session handshakeTip none false ourPubkey activeIbd
          catchingUp)).1 := by
    intro reg id
    refine Eq.trans (sessionOf_attached ?_ _) sessionOf_attach
    exact fun _ _ => rfl
  cases hdecide : reg.decideInboundEvictionUtility listing now identity session.socketAddr.ip activeIbd
      maxInboundPeers .default with
  | notNeeded =>
    rw [hdecide] at hslots
    refine .inr (.inl ⟨.inl ?_, ?_⟩)
    · exact hslots
    · simp only [result, PeerRegistry.admitInbound, hdecide]
      exact hattach reg
  | duplicateIdentity =>
    rw [hdecide] at hslots
    refine .inr (.inl ⟨.inr ?_, ?_⟩)
    · exact hslots
    · simp only [result, PeerRegistry.admitInbound, hdecide]
      exact hattach reg
  | ipCapReached | noEligibleCandidates =>
    rw [hdecide] at hslots
    refine .inl ⟨hslots, fun id => ?_⟩
    simp only [result, PeerRegistry.admitInbound, hdecide]
    rfl
  | evict victim =>
    obtain ⟨hcount, hnone, -, s, hs, hid, hin⟩ := decide_evict hdecide
    refine .inr (.inr ⟨hcount, hnone, victim.identity, s, hs, hin, ?_⟩)
    simp only [result, PeerRegistry.admitInbound, hdecide]
    rw [hid]
    exact hattach _

end

end Exfer.Proof
