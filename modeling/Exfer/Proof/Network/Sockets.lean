import Exfer.Proof.Network.Connections

/-!
# Addresses of the attached sessions

`socket_map_exact`: over every sequence of calls the map from the connected addresses to the identities
holds the address of each attached session and nothing else, and a session that has been replaced is
not detached. `rejected_duplicate_iff`: when a rejected session leaves the peer alone.
-/

namespace Exfer.Proof

open Lib Impl Spec

/-- What holds of the sessions `f` and the connected addresses `connected` after any calls, with the ids
of the sessions that have been attached and of those that have been replaced. -/
structure SocketsExact (f : PeerId → Option PeerSession) (connected : Map SocketAddr PeerId)
    (attached replaced : List UInt64) : Prop where
  exact : ∀ addr id, connected.lookup addr = some id ↔ ∃ s, f id = some s ∧ s.socketAddr = addr
  ids : ∀ id s, f id = some s → s.sessionId ∈ attached
  distinct : ∀ id id' s s', f id = some s → f id' = some s' → s.sessionId = s'.sessionId → id = id'
  replaced : ∀ sid ∈ replaced, sid ∈ attached ∧ ∀ id s, f id = some s → s.sessionId ≠ sid

namespace SocketsExact

variable {ids replaced : List UInt64}

/-- The session of an identity is gone, and its address; it may be one that has been replaced. -/
theorem erase (h : SocketsExact f connected ids replaced) (hof : f identity = some session) :
    SocketsExact (Function.update f identity none) (connected.erase session.socketAddr) ids
      (session.sessionId :: replaced) := by
  obtain ⟨hexact, hids, hdistinct, hreplaced⟩ := h
  refine ⟨?_, ?_, ?_, ?_⟩
  · intro addr id
    -- no other session has the address
    have hlookup := (hexact session.socketAddr identity).mpr ⟨session, hof, rfl⟩
    have hiff := hexact addr id
    rw [Map.lookup_erase_eq]
    grind [Function.update_apply]
  · grind [Function.update_apply]
  · grind [Function.update_apply]
  · grind [Function.update_apply]

/-- A session is attached for an identity that has none. -/
theorem insert (h : SocketsExact f connected ids replaced) (hof : f identity = none)
    (hfresh : session.sessionId ∉ ids) (haddr : ∀ id s, f id = some s → s.socketAddr ≠ session.socketAddr) :
    SocketsExact (Function.update f identity (some session))
      (connected.insert session.socketAddr identity) (session.sessionId :: ids) replaced := by
  obtain ⟨hexact, hids, hdistinct, hreplaced⟩ := h
  refine ⟨?_, ?_, ?_, ?_⟩
  · intro addr id
    rw [Map.lookup_insert_eq]
    grind [Function.update_apply]
  · grind [Function.update_apply]
  · grind [Function.update_apply]
  · grind [Function.update_apply]

end SocketsExact

variable {reg reg' : PeerRegistry} {attached replaced : List UInt64} {identity : PeerId}
  {session : PeerSession}

theorem sessionOf_update {lp : LogicalPeer} {new : Option PeerSession}
    {connected : Map SocketAddr PeerId} (h : ∀ id, reg'.sessionOf id = reg.sessionOf id) :
    (reg'.setSession identity lp new connected).sessionOf =
      Function.update reg.sessionOf identity new := by
  funext id
  rw [sessionOf_setSession, Function.update_apply, h]

theorem sockets_of_run (h : RegistryRun reg attached replaced) :
    SocketsExact reg.sessionOf reg.connectedSocketToIdentity attached replaced := by
  induction h with
  | new => exact ⟨fun _ _ => ⟨nofun, nofun⟩, nofun, nofun, nofun⟩
  | reserveInbound _ hreg ih =>
    unfold PeerRegistry.reserveInboundSocket at hreg
    split at hreg <;> cases hreg
    exact ih
  | reserveOutbound _ hreg ih =>
    unfold PeerRegistry.reserveOutboundAddr at hreg
    split at hreg <;> cases hreg
    exact ih
  | releaseInbound _ _ ih | releaseOutbound _ _ ih => exact ih
  | @attach reg attached replaced reg' result now identity session tip hint desired ourPubkey
      activeIbd catchingUp _ hfresh haddr hattach ih =>
    obtain ⟨r, hr, heq⟩ := attachSession_eq reg now identity session tip hint desired ourPubkey
      activeIbd catchingUp
    have hsessions : ∀ id, r.1.sessionOf id = reg.sessionOf id := by
      intro id
      rw [PeerRegistry.sessionOf, hr.peers]
      rfl
    rw [heq] at hattach
    cases hof : reg.sessionOf identity with
    | none =>
      rw [hof] at hattach
      cases hattach
      rw [sessionOf_update hsessions]
      refine ih.insert hof hfresh fun id s hs hsame => ?_
      rw [haddr id s hs hsame, hof] at hs
      cases hs
    | some existing =>
      simp only [hof] at hattach
      split at hattach
      · cases hattach
        rw [sessionOf_update hsessions, ← Function.update_idem]
        refine (ih.erase hof).insert (Function.update_self ..) hfresh fun id s hs hsame => ?_
        rw [Function.update_apply] at hs
        split at hs
        · cases hs
        · exact absurd (haddr id s hs hsame) ‹_›
      · cases hattach
        rw [sessionOf_update hsessions, Function.update_eq_self_iff.mpr hof.symm]
        exact ih
  | @detach reg attached replaced identity sessionId _ ih =>
    rcases detach_cases reg identity sessionId with ⟨h, -⟩ | ⟨lp, s, hof, -, h⟩
    · rw [h]
      exact ih
    · rw [h, sessionOf_update fun _ => rfl]
      obtain ⟨hexact, hids, hdistinct, hreplaced⟩ := ih.erase hof
      exact ⟨hexact, hids, hdistinct, fun sid hsid => hreplaced sid (List.mem_cons_of_mem _ hsid)⟩

/-- The connected addresses are those of the attached sessions, no two of them of one identity, and a
session that has been replaced is not detached. -/
theorem socket_map_exact (h : RegistryRun reg attached replaced) :
    (∀ addr id, reg.connectedSocketToIdentity.lookup addr = some id ↔
      ∃ s, reg.sessionOf id = some s ∧ s.socketAddr = addr) ∧
    (∀ addr addr' id, reg.connectedSocketToIdentity.lookup addr = some id →
      reg.connectedSocketToIdentity.lookup addr' = some id → addr = addr') ∧
    ∀ sid ∈ replaced, ∀ id, reg.detachSessionIfCurrent id sid = (reg, false) := by
  have hinv := sockets_of_run h
  refine ⟨hinv.exact, fun addr addr' id haddr haddr' => ?_, fun sid hsid id => ?_⟩
  · obtain ⟨s, hs, rfl⟩ := (hinv.exact addr id).mp haddr
    obtain ⟨s', hs', rfl⟩ := (hinv.exact addr' id).mp haddr'
    rw [hs] at hs'
    cases hs'
    rfl
  · rcases detach_cases reg id sid with ⟨h, -⟩ | ⟨lp, s, hof, hid, -⟩
    · exact h
    · exact absurd hid ((hinv.replaced sid hsid).2 id s hof)

/-- A tip that is not confirmed. -/
def plainTip : PeerTip := ⟨0, Vector.replicate 32 0, Hash256.zero, false⟩

/-- A peer connects, and connects again from another address two minutes later. -/
theorem socket_map_exact_replaced : ∃ reg, RegistryRun reg [2, 1] [1] ∧
    reg.connectedSocketToIdentity.lookup (peerAddr 2) = some (peerKey 1) ∧
    reg.detachSessionIfCurrent (peerKey 1) 1 = (reg, false) := by
  let first := PeerRegistry.new.attachSession 0 (peerKey 1) ⟨1, peerAddr 1, false, 0⟩ plainTip none
    false ownKey none false
  let second := first.1.attachSession (fromSecs 120) (peerKey 1) ⟨2, peerAddr 2, false, fromSecs 120⟩
    plainTip none false ownKey none false
  have hattach : first = (first.1, .newLogicalConnect) := rfl
  have hfirst := RegistryRun.new.attach (List.not_mem_nil) (fun _ _ h => nomatch h) hattach
  have hreplace : second = (second.1, .replacedExistingSession ⟨1, peerAddr 1, false, 0⟩) := rfl
  have hsecond : RegistryRun second.1 [2, 1] [1] := by
    refine (hfirst.attach ?_ (fun id s hs _ => ?_) hreplace :)
    · show (2 : UInt64) ∉ [1]
      decide
    · by_contra hne
      rw [sessionOf_attach, if_neg hne] at hs
      cases hs
  exact ⟨_, hsecond, rfl, (socket_map_exact hsecond).2.2 1 (List.mem_singleton_self 1) (peerKey 1)⟩

/-! ## Rejected sessions -/

/-- A rejected session leaves the session of the peer and its credit, and the tip if and only if that is
the tip of the handshake and not confirmed. -/
theorem rejected_duplicate_iff {now : Instant} {handshakeTip : PeerTip}
    {dialAddrHint : Option SocketAddr} {desiredOutbound : Bool} {ourPubkey : PeerId}
    {activeIbdPeer : Option (PeerId × UInt64)} {catchingUp : Bool}
    (h : reg.attachSession now identity session handshakeTip dialAddrHint desiredOutbound ourPubkey
      activeIbdPeer catchingUp = (reg', .rejectedDuplicate)) :
    ∃ lp lp', reg.byIdentity.lookup identity = some lp ∧ reg'.byIdentity.lookup identity = some lp' ∧
      lp'.session = lp.session ∧ lp'.lastUsefulMessageAt = lp.lastUsefulMessageAt ∧
      (lp'.tip = lp.tip ↔ lp.tip = some { handshakeTip with confirmed := false }) := by
  obtain ⟨r, hr, heq⟩ := attachSession_eq reg now identity session handshakeTip dialAddrHint
    desiredOutbound ourPubkey activeIbdPeer catchingUp
  rw [heq] at h
  cases hof : reg.sessionOf identity with
  | none =>
    rw [hof] at h
    cases h
  | some existing =>
    simp only [hof] at h
    split at h
    · cases h
    cases h
    obtain ⟨lp, hlp, hsession⟩ := Option.bind_eq_some_iff.mp hof
    refine ⟨lp, { r.2 with session := some existing }, hlp, ?_, hsession.symm, ?_, ?_⟩
    · rw [PeerRegistry.setSession, Map.lookup_insert_eq, if_pos rfl]
    · rw [hr.credit, hlp]
      rfl
    · rw [hr.tip, eq_comm]

/-- A peer that connects twice at once keeps its tip. -/
theorem rejected_duplicate_iff_same :
    let first := PeerRegistry.new.attachSession 0 (peerKey 1) ⟨1, peerAddr 1, false, 0⟩ plainTip none
      false ownKey none false
    ∃ lp lp', first.1.byIdentity.lookup (peerKey 1) = some lp ∧
      (first.1.attachSession 0 (peerKey 1) ⟨2, peerAddr 2, false, 0⟩ plainTip none false ownKey none
        false).1.byIdentity.lookup (peerKey 1) = some lp' ∧ lp'.tip = lp.tip := by
  intro first
  have hreject : first.1.attachSession 0 (peerKey 1) ⟨2, peerAddr 2, false, 0⟩ plainTip none false
    ownKey none false = (_, .rejectedDuplicate) := rfl
  obtain ⟨lp, lp', hlp, hlp', _, _, htip⟩ := rejected_duplicate_iff hreject
  refine ⟨lp, lp', hlp, hlp', htip.mpr ?_⟩
  cases hlp
  rfl

/-- The confirmed tip of a peer is lost to that of a connection that is rejected. -/
theorem rejected_duplicate_iff_counterexample :
    let lp := { LogicalPeer.new 0 with session := some ⟨1, peerAddr 1, false, 0⟩
                                       tip := some { plainTip with height := 7, confirmed := true } }
    let reg := { PeerRegistry.new with byIdentity := (∅ : Map PeerId LogicalPeer).insert (peerKey 1) lp }
    ∃ reg', reg.attachSession 0 (peerKey 1) ⟨2, peerAddr 2, false, 0⟩ plainTip none false ownKey none
        false = (reg', .rejectedDuplicate) ∧
      (reg'.byIdentity.lookup (peerKey 1)).map (·.tip) = some (some plainTip) :=
  ⟨_, rfl, rfl⟩

end Exfer.Proof
