import Exfer.Lib.Safe
import Exfer.Proof.Wire.Message
import Exfer.Spec.Handshake
import Mathlib

/-!
# Agreement of handshakes

`handshake_agreement`: where an honest node completes a handshake with an honest peer, that peer has
signed for it. The parts are

* `viewBytes_inj`: what is signed determines the view and the role;
* `HandshakeInv`: what one handshake has signed and accepted, whatever was delivered to it;
* `NetInv`: the same for all sessions, with where accepted signatures come from.
-/

namespace Exfer.Proof

open Lib Impl Spec

variable {v : View} {key : Vector UInt8 32} {cfg : HandshakeConfig} {h : Handshake}

/-! ## Transcripts -/

theorem tipCommitment_length (height : UInt64) (id : Hash256) (work : Vector UInt8 32) :
    (tipCommitment height id work).length = 72 := by
  simp [tipCommitment]

theorem tipCommitment_inj {height height' : UInt64} {id id' : Hash256} {work work' : Vector UInt8 32}
    (h : tipCommitment height id work = tipCommitment height' id' work') :
    (height, id, work) = (height', id', work') := by
  obtain ⟨h, hwork⟩ := List.append_inj h (by simp)
  obtain ⟨hheight, hid⟩ := List.append_inj h (by simp)
  have hheight : height = height' :=
    UInt64.toNat.inj (leBytes_inj height.toNat_lt height'.toNat_lt hheight)
  rw [hheight, Vector.toList_inj.mp hid, Vector.toList_inj.mp hwork]

theorem viewBytes_inj (h : v.bytes role = v'.bytes role') : v = v' ∧ role = role' := by
  obtain ⟨h, htipB⟩ := List.append_inj h (by simp [tipCommitment_length])
  obtain ⟨h, htipA⟩ := List.append_inj h (by simp)
  obtain ⟨h, hrole⟩ := List.append_inj h (by simp)
  obtain ⟨h, hnonceB⟩ := List.append_inj h (by simp)
  obtain ⟨h, hnonceA⟩ := List.append_inj h (by simp)
  obtain ⟨h, -⟩ := List.append_inj h (by simp)
  obtain ⟨-, hgenesis⟩ := List.append_inj h rfl
  refine ⟨?_, List.singleton_inj.mp hrole⟩
  have htipA : v.tipA = v'.tipA := tipCommitment_inj htipA
  have htipB : v.tipB = v'.tipB := tipCommitment_inj htipB
  cases v
  cases v'
  simp only [View.mk.injEq]
  exact ⟨Vector.toList_inj.mp hgenesis, Vector.toList_inj.mp hnonceA, Vector.toList_inj.mp hnonceB, htipA, htipB⟩

theorem roleByte_inj (h : roleByte x = roleByte y) : x = y := by
  revert x y
  decide

section

variable [Crypto] [PeerCrypto] {t : HandshakeTrace} {failure : Option IoError} {their : HelloMsg}
  {net : List Session} {s : Session}

/-! ## One handshake -/

/-- What the handshake has signed is its view of the Hello it has heard, in its own role. -/
def SignsView (cfg : HandshakeConfig) (their : HelloMsg) (t : HandshakeTrace) : Prop :=
  t.heard = some their ∧
  ∀ transcript ∈ t.signed, transcript = (viewOf cfg their).transcript (roleByte cfg.isInbound)

/-- It has accepted a signature of that view in the other role. -/
def AcceptedView (cfg : HandshakeConfig) (their : HelloMsg) (t : HandshakeTrace) : Prop :=
  (their.pubkey, (viewOf cfg their).transcript (roleByte (! cfg.isInbound))) ∈ t.verified

/-- What holds of a handshake between two reads. -/
structure HandshakeInv (cfg : HandshakeConfig) (h : Handshake) : Prop where
  reading : h.stage = .readHello → h.trace.heard = none
  waiting : ∀ their, h.stage = .readAuthAck their → h.trace.heard = some their ∧
    cfg.isInbound = true ∧ their.genesisBlockId = cfg.ourHello.genesisBlockId
  signed : ∀ transcript ∈ h.trace.signed, ∃ their, h.trace.heard = some their ∧
    transcript = (viewOf cfg their).transcript (roleByte cfg.isInbound)
  ended : ∀ peer, h.stage = .ended (.ok peer) → ∃ their, h.trace.heard = some their ∧
    peer.identity = their.pubkey ∧ AcceptedView cfg their h.trace

/-- A step of a handshake forgets nothing. -/
def Extends (t t' : HandshakeTrace) : Prop :=
  t.signed ⊆ t'.signed ∧ ∀ their, t.heard = some their → t'.heard = some their

omit [Crypto] [PeerCrypto] in
theorem Handshake.after_of_meets {P : HandshakeTrace → Prop} {R : Handshake → Prop} {m : HandshakeM HandshakeStage}
    (hm : Meets P m (fun stage t => R ⟨stage, t⟩) (fun e t => R ⟨.ended (.error e), t⟩))
    (hp : P t) : R (Handshake.after m t) := by
  have h := hm t hp
  unfold Handshake.after
  split at h <;> rename_i heq <;> rw [heq] <;> exact h

section

variable {P Q : HandshakeTrace → Prop} {E : PeerError → HandshakeTrace → Prop}

omit [Crypto] [PeerCrypto] in
theorem ofExcept_meets (hQ : ∀ t, r = .ok () → P t → Q t) (hE : ∀ e t, P t → E e t) :
    Meets P (HandshakeM.ofExcept r) (fun _ => Q) E := by
  cases r with
  | error e => exact .throw (hE e)
  | ok _ => exact .pure fun t ht => hQ t rfl ht

omit [Crypto] [PeerCrypto] in
/-- Writing a message keeps what does not depend on the buffers written. -/
theorem sendMessage_meets (hP : ∀ t sent, P t → P { t with sent }) (hE : ∀ e t, P t → E e t) :
    Meets P (sendMessage m failure) (fun _ => P) E := by
  unfold sendMessage
  cases m.serialize with
  | error e => exact .throw (hE _)
  | ok bytes =>
    refine .bind (Q := fun _ => P) (.modify fun t ht => hP t _ ht) fun _ => ?_
    cases failure with
    | some e => exact .throw (hE _)
    | none => exact .pure fun t ht => ht

omit [PeerCrypto] in
theorem authenticate_meets {sig : Vector UInt8 64} (hQ : ∀ t, P t → Q { t with
      verified := t.verified ++ [(their.pubkey, transcript)]
      peerIdentityOut := some their.pubkey }) (hE : ∀ e t, P t → E e t) :
    Meets P (authenticate their transcript sig) (fun _ => Q) E :=
  .bind (ofExcept_meets (fun _ _ ht => ht) hE) fun _ => .modify hQ

omit [Crypto] in
theorem signTranscript_meets (hQ : ∀ t, P t → Q { t with signed := t.signed ++ [transcript] }) :
    Meets P (signTranscript key transcript) (fun _ => Q) E :=
  .bind (Q := fun _ => Q) (.modify hQ) fun _ => .pure fun _ ht => ht

end

section

omit [PeerCrypto]

/-- What the responder signs. -/
theorem responder_transcript (hin : cfg.isInbound = true) (their : HelloMsg) (role : UInt8) :
    computeAuthTranscript cfg.ourHello.genesisBlockId protocolVersion their.nonce
      cfg.ourNonce role their.tip cfg.ourHello.tip = (viewOf cfg their).transcript role := by
  rw [viewOf, if_pos hin]
  rfl

/-- What the initiator signs. -/
theorem initiator_transcript (hout : cfg.isInbound = false) (their : HelloMsg) (role : UInt8) :
    computeAuthTranscript cfg.ourHello.genesisBlockId
      protocolVersion cfg.ourNonce their.nonce role cfg.ourHello.tip their.tip =
      (viewOf cfg their).transcript role := by
  rw [viewOf, if_neg (by simp [hout])]
  rfl

theorem SignsView.sign (h : SignsView cfg their t) : SignsView cfg their { t with
      signed := t.signed ++ [(viewOf cfg their).transcript (roleByte cfg.isInbound)] } := by
  refine ⟨h.1, fun transcript hmem => ?_⟩
  exact (List.mem_append.mp hmem).elim (h.2 transcript) List.mem_singleton.mp

end

omit [Crypto] in
theorem genesis_of_check (h : checkInitiatorHello cfg their = .ok ()) :
    their.genesisBlockId = cfg.ourHello.genesisBlockId := by
  obtain ⟨-, -, h⟩ := bind_eq_ok.mp h
  obtain ⟨_, hgenesis, -⟩ := bind_eq_ok.mp h
  exact not_not.mp (failIf_eq_ok.mp hgenesis)

theorem sendResponderHello_meets (hin : cfg.isInbound = true) (their : HelloMsg)
    (failure : Option IoError) : Meets (SignsView cfg their) (sendResponderHello cfg their failure)
      (fun _ t => SignsView cfg their t ∧
        their.genesisBlockId = cfg.ourHello.genesisBlockId) fun _ => SignsView cfg their := by
  refine .bind (ofExcept_meets (Q := fun t => SignsView cfg their t ∧
    their.genesisBlockId = cfg.ourHello.genesisBlockId) ?_ fun _ _ ht => ht) fun _ => ?_
  · intro t hcheck ht
    exact ⟨ht, genesis_of_check hcheck⟩
  refine .bind (signTranscript_meets fun t ht => ?_) fun sig =>
    sendMessage_meets (fun t sent ht => ht) fun _ t ht => ht.1
  rw [responder_transcript hin]
  have hsign := ht.1.sign
  rw [hin] at hsign
  exact ⟨hsign, ht.2⟩

theorem finishInitiator_meets (hout : cfg.isInbound = false) (their : HelloMsg) (failure : Option IoError) :
    Meets (SignsView cfg their) (finishInitiator cfg their failure)
      (fun peer t => (SignsView cfg their t ∧ AcceptedView cfg their t) ∧
        peer.identity = their.pubkey) fun _ => SignsView cfg their := by
  refine .bind (ofExcept_meets (fun _ _ ht => ht) fun _ _ ht => ht) fun _ => ?_
  refine .bind (authenticate_meets (Q := fun t => SignsView cfg their t ∧ AcceptedView cfg their t)
    ?_ fun _ _ ht => ht) fun _ => ?_
  · intro t ht
    refine ⟨ht, ?_⟩
    rw [initiator_transcript hout, AcceptedView, hout]
    exact List.mem_append_right _ (List.mem_singleton_self _)
  refine .bind (signTranscript_meets (Q := fun t => SignsView cfg their t ∧ AcceptedView cfg their t)
    fun t ht => ?_) fun sig => ?_
  · rw [initiator_transcript hout]
    have hsign := ht.1.sign
    rw [hout] at hsign
    exact ⟨hsign, ht.2⟩
  · exact .bind (sendMessage_meets (fun t sent ht => ht) fun _ t ht => ht.1) fun _ =>
      .pure fun t ht => ⟨ht, rfl⟩

theorem finishResponder_meets (hin : cfg.isInbound = true)
    (hgenesis : their.genesisBlockId = cfg.ourHello.genesisBlockId) (sigA : Vector UInt8 64)
    (signed : List Hash256) :
    Meets (fun t => t.heard = some their ∧ t.signed = signed) (finishResponder cfg their sigA)
      (fun peer t => (t.heard = some their ∧ t.signed = signed ∧ AcceptedView cfg their t) ∧
        peer.identity = their.pubkey) fun _ t => t.heard = some their ∧ t.signed = signed := by
  refine .bind (authenticate_meets (Q := fun t => t.heard = some their ∧ t.signed = signed ∧
    AcceptedView cfg their t) ?_ fun _ _ ht => ht) fun _ => .pure fun t ht => ⟨ht, rfl⟩
  intro t ht
  refine ⟨ht.1, ht.2, ?_⟩
  rw [hgenesis, responder_transcript hin, AcceptedView, hin]
  exact List.mem_append_right _ (List.mem_singleton_self _)

/-! ## A handshake from read to read -/

omit [PeerCrypto] in
theorem handshakeInv_error (e : PeerError)
    (hsigned : ∀ transcript ∈ t.signed, ∃ their, t.heard = some their ∧ transcript = (viewOf cfg
      their).transcript (roleByte cfg.isInbound)) : HandshakeInv cfg ⟨.ended (.error e), t⟩ where
  reading := nofun
  waiting := nofun
  signed := hsigned
  ended := nofun

omit [PeerCrypto] in
theorem SignsView.error (h : SignsView cfg their t) (e : PeerError) : HandshakeInv cfg ⟨.ended (.error e), t⟩ :=
  handshakeInv_error e fun transcript hmem => ⟨their, h.1, h.2 transcript hmem⟩

theorem handshakeStart_inv (cfg : HandshakeConfig) (failure : Option IoError) :
    HandshakeInv cfg (handshakeStart cfg failure) ∧
      (handshakeStart cfg failure).trace.heard = none ∧
      (handshakeStart cfg failure).trace.verified = [] := by
  refine Handshake.after_of_meets (P := fun t => t.heard = none ∧ t.verified = [] ∧ t.signed = [])
    (R := fun h => HandshakeInv cfg h ∧ h.trace.heard = none ∧ h.trace.verified = [])
    (.bind (Q := fun _ t => t.heard = none ∧ t.verified = [] ∧ t.signed = []) ?_ fun _ =>
      .pure fun t ht => ?_) ⟨rfl, rfl, rfl⟩
  · split
    · exact .pure fun t ht => ht
    · refine sendMessage_meets (fun t sent ht => ht) fun e t ht => ⟨handshakeInv_error e ?_, ht.1, ht.2.1⟩
      exact fun _ hmem => absurd (ht.2.2 ▸ hmem) List.not_mem_nil
  · refine ⟨?_, ht.1, ht.2.1⟩
    exact
      { reading _ := ht.1
        waiting := nofun
        signed _ hmem := absurd (ht.2.2 ▸ hmem) List.not_mem_nil
        ended := nofun }

theorem afterHello_inv (hsigned : t.signed = []) (failure : Option IoError) (their : HelloMsg) :
    HandshakeInv cfg (.after (afterHello cfg failure their) t) := by
  refine Handshake.after_of_meets (P := fun t => t.signed = []) (.bind
    (Q := fun _ => SignsView cfg their) (.modify fun t ht => ⟨rfl, ?_⟩) fun _ => ?_) hsigned
  · rw [ht]
    exact fun _ hmem => absurd hmem List.not_mem_nil
  · split
    · rename_i hin
      refine .bind ((sendResponderHello_meets hin their failure).mono (fun _ _ ht => ht)
        fun e t ht => ht.error e) fun _ => .pure fun t ht => ?_
      exact
        { reading := nofun
          waiting their' h := by cases h; exact ⟨ht.1.1, hin, ht.2⟩
          signed transcript hmem := ⟨their, ht.1.1, ht.1.2 transcript hmem⟩
          ended := nofun }
    · rename_i hin
      refine .bind ((finishInitiator_meets (Bool.eq_false_iff.mpr hin) their failure).mono
        (fun _ _ ht => ht) fun e t ht => ht.error e) fun peer => .pure fun t ht => ?_
      exact
        { reading := nofun
          waiting := nofun
          signed transcript hmem := ⟨their, ht.1.1.1, ht.1.1.2 transcript hmem⟩
          ended _ h := by cases h; exact ⟨their, ht.1.1.1, ht.2, ht.1.2⟩ }

omit [PeerCrypto] in
theorem HandshakeInv.unheard (hinv : HandshakeInv cfg h) (hheard : h.trace.heard = none) : h.trace.signed = [] := by
  refine List.eq_nil_iff_forall_not_mem.mpr fun transcript hmem => ?_
  obtain ⟨their, hsome, -⟩ := hinv.signed transcript hmem
  rw [hheard] at hsome
  cases hsome

omit [Crypto] [PeerCrypto] in
theorem Extends.of_unheard (hsigned : t.signed = []) (hheard : t.heard = none) : Extends t t' := by
  refine ⟨hsigned ▸ List.nil_subset _, fun their hsome => ?_⟩
  rw [hheard] at hsome
  cases hsome

theorem HandshakeInv.afterMessage (hinv : HandshakeInv cfg h) (hstage : h.stage = .readHello)
    (failure : Option IoError) (msg : Except PeerError Message) :
    HandshakeInv cfg (.after (afterMessage cfg failure msg) h.trace) := by
  have hsigned := hinv.unheard (hinv.reading hstage)
  unfold Impl.afterMessage
  split
  · exact handshakeInv_error _ hinv.signed
  · exact afterHello_inv hsigned failure _
  · exact handshakeInv_error _ hinv.signed

theorem HandshakeInv.afterAuthAck (hinv : HandshakeInv cfg h)
    (hstage : h.stage = .readAuthAck their) (sig : Except PeerError (Vector UInt8 64)) :
    HandshakeInv cfg (.after (afterAuthAck cfg their sig) h.trace) ∧
      Extends h.trace (Handshake.after (Impl.afterAuthAck cfg their sig) h.trace).trace := by
  obtain ⟨hheard, hin, hgenesis⟩ := hinv.waiting their hstage
  unfold Impl.afterAuthAck
  split
  · exact ⟨handshakeInv_error _ hinv.signed, List.Subset.refl _, fun _ h => h⟩
  · rename_i sigA
    have hsame : ∀ t : HandshakeTrace, t.heard = some their → t.signed = h.trace.signed →
        (∀ transcript ∈ t.signed, ∃ their, t.heard = some their ∧
          transcript = (viewOf cfg their).transcript (roleByte cfg.isInbound)) ∧
        Extends h.trace t := by
      intro t ht hts
      refine ⟨?_, hts ▸ List.Subset.refl _, fun _ hsome => ?_⟩
      · rw [hts, ht, ← hheard]
        exact hinv.signed
      · rw [ht, ← hheard, hsome]
    refine Handshake.after_of_meets (P := fun t => t.heard = some their ∧ t.signed = h.trace.signed)
      (R := fun h' => HandshakeInv cfg h' ∧ Extends h.trace h'.trace)
      (.bind ((finishResponder_meets hin hgenesis sigA h.trace.signed).mono (fun _ _ ht => ht)
        fun e t ht => ?_) fun peer => .pure fun t ht => ?_) ⟨hheard, rfl⟩
    · obtain ⟨hsigned, hext⟩ := hsame t ht.1 ht.2
      exact ⟨handshakeInv_error e hsigned, hext⟩
    · obtain ⟨hsigned, hext⟩ := hsame t ht.1.1 ht.1.2.1
      refine ⟨?_, hext⟩
      exact
        { reading := nofun
          waiting := nofun
          signed := hsigned
          ended _ h := by cases h; exact ⟨their, ht.1.1, ht.2, ht.1.2.2⟩ }

theorem HandshakeInv.resume (hinv : HandshakeInv cfg h)
    (hrun : handshakeResume cfg h link failure = some (h', rest)) :
    HandshakeInv cfg h' ∧ Extends h.trace h'.trace := by
  unfold handshakeResume at hrun
  split at hrun
  · rename_i hstage
    obtain ⟨⟨msg, rest'⟩, -, heq⟩ := Option.map_eq_some_iff.mp hrun
    cases heq
    have hheard := hinv.reading hstage
    exact ⟨hinv.afterMessage hstage failure msg, .of_unheard (hinv.unheard hheard) hheard⟩
  · rename_i their hstage
    obtain ⟨⟨sig, rest'⟩, -, heq⟩ := Option.map_eq_some_iff.mp hrun
    cases heq
    exact hinv.afterAuthAck hstage sig
  · cases hrun

/-! ## All sessions -/

/-- What holds of the sessions in every run. -/
structure NetInv (honest : Set (Vector UInt8 32)) (net : List Session) : Prop where
  sessions : ∀ s ∈ net, HandshakeInv s.config s.handshake
  accepted : ∀ s ∈ net, Unforgeable honest net s.handshake

/-- The sessions go on, and new ones may start. -/
def Grows (net net' : List Session) : Prop :=
  ∀ s ∈ net, ∃ s' ∈ net', s'.config = s.config ∧ Extends s.handshake.trace s'.handshake.trace

omit [Crypto] in
theorem unforgeable_mono (hh : Unforgeable honest net h) (hgrows : Grows net net') : Unforgeable honest net' h := by
  intro key transcript hmem hkey
  obtain ⟨s, hs, hpub, hsigned⟩ := hh key transcript hmem hkey
  obtain ⟨s', hs', hcfg, hext⟩ := hgrows s hs
  refine ⟨s', hs', ?_, hext.1 hsigned⟩
  rw [← hpub, Session.pubkey, Session.pubkey, hcfg]

omit [Crypto] [PeerCrypto] in
theorem grows_append (net : List Session) (s : Session) : Grows net (net ++ [s]) :=
  fun s' hs' => ⟨s', List.mem_append_left _ hs', rfl, List.Subset.refl _, fun _ h => h⟩

omit [Crypto] [PeerCrypto] in
theorem grows_set (hi : net[i]? = some s) (hcfg : s'.config = s.config)
    (hext : Extends s.handshake.trace s'.handshake.trace) : Grows net (net.set i s') := by
  intro r hr
  obtain ⟨j, hj⟩ := List.getElem?_of_mem hr
  by_cases hij : i = j
  · subst hij
    rw [hi] at hj
    cases hj
    exact ⟨s', List.mem_set (List.getElem?_eq_some_iff.mp hi).1 s', hcfg, hext⟩
  · refine ⟨r, List.mem_of_getElem? (i := j) ?_, rfl, List.Subset.refl _, fun _ h => h⟩
    rw [List.getElem?_set_ne hij, hj]

theorem netInv_nil (honest : Set (Vector UInt8 32)) : NetInv honest [] :=
  ⟨fun _ hs => absurd hs List.not_mem_nil, fun _ hs => absurd hs List.not_mem_nil⟩

section

variable {honest : Set (Vector UInt8 32)} {net : List Session} {a : Session}

theorem NetInv.start (hinv : NetInv honest net) (cfg : HandshakeConfig) (failure : Option IoError) :
    NetInv honest (net ++ [⟨cfg, handshakeStart cfg failure, []⟩]) := by
  obtain ⟨hstart, -, hverified⟩ := handshakeStart_inv cfg failure
  refine ⟨List.forall_mem_append.mpr ⟨hinv.sessions, List.forall_mem_singleton.mpr hstart⟩,
    List.forall_mem_append.mpr ⟨fun s hs => unforgeable_mono (hinv.accepted s hs)
      (grows_append net _), List.forall_mem_singleton.mpr fun key transcript hmem => ?_⟩⟩
  rw [hverified] at hmem
  exact absurd hmem List.not_mem_nil

theorem NetInv.resume (hinv : NetInv honest net) (hi : net[i]? = some s)
    (hrun : handshakeResume s.config s.handshake link failure = some (h, rest))
    (hunforged : Unforgeable honest net h) :
    NetInv honest (net.set i ⟨s.config, h, rest⟩) ∧ Extends s.handshake.trace h.trace := by
  obtain ⟨hh, hext⟩ := (hinv.sessions s (List.mem_of_getElem? hi)).resume hrun
  have hgrows : Grows net (net.set i ⟨s.config, h, rest⟩) := grows_set hi rfl hext
  refine ⟨⟨fun r hr => ?_, fun r hr => ?_⟩, hext⟩
  · rcases List.mem_or_eq_of_mem_set hr with hr | rfl
    · exact hinv.sessions r hr
    · exact hh
  · rcases List.mem_or_eq_of_mem_set hr with hr | rfl
    · exact unforgeable_mono (hinv.accepted r hr) hgrows
    · exact unforgeable_mono hunforged hgrows

theorem NetInv.step (hinv : NetInv honest net) (hstep : HandshakeStep honest P net net') : NetInv honest net' := by
  cases hstep with
  | start cfg failure _ _ => exact hinv.start cfg failure
  | resume i s bytes waits failure h rest hi hrun hunforged _ =>
    exact (hinv.resume hi hrun hunforged).1

theorem netInv_of_run (hrun : HandshakeRun honest P net) : NetInv honest net := by
  induction hrun with
  | refl => exact netInv_nil honest
  | tail _ hstep ih => exact ih.step hstep

/-! ## Agreement -/

/-- In every run: where a handshake with an honest peer completes, a session of that peer has the same
view and has signed it. -/
theorem NetInv.signedFor (hinv : NetInv honest net)
    (hinj : Set.InjOn Crypto.sha256 (transcripts net)) (ha : a ∈ net)
    (hended : a.handshake.stage = .ended (.ok peer)) (hpeer : peer.identity ∈ honest) :
    ∃ b ∈ net, b.pubkey = peer.identity ∧ SignedFor a b := by
  obtain ⟨heardA, hheardA, hidentity, haccepted⟩ := (hinv.sessions a ha).ended peer hended
  rw [AcceptedView, ← hidentity] at haccepted
  obtain ⟨b, hb, hpub, hsigned⟩ := hinv.accepted a ha _ _ haccepted hpeer
  obtain ⟨heardB, hheardB, hsame⟩ := (hinv.sessions b hb).signed _ hsigned
  have hseesA : a.Sees (viewOf a.config heardA) := ⟨heardA, hheardA, rfl⟩
  have hseesB : b.Sees (viewOf b.config heardB) := ⟨heardB, hheardB, rfl⟩
  have hbytes := hinj ⟨a, ha, _, _, hseesA, rfl⟩ ⟨b, hb, _, _, hseesB, rfl⟩ hsame
  obtain ⟨hview, hrole⟩ := viewBytes_inj hbytes
  have hinbound : b.config.isInbound = ! a.config.isInbound := (roleByte_inj hrole).symm
  refine ⟨b, hb, hpub, ?_, viewOf b.config heardB, hview ▸ hseesA, hseesB, ?_⟩
  · rw [hinbound]
    exact Bool.not_ne_self _
  · rw [hsame] at hsigned
    exact hsigned

omit [Crypto] [PeerCrypto] in
/-- The nonce that a session hears is that of the session with the same view. -/
theorem nonce_of_view {b : Session} (ha : a.Sees v) (hb : v = viewOf b.config their)
    (hroles : b.config.isInbound ≠ a.config.isInbound) : a.config.ourNonce = their.nonce := by
  obtain ⟨heardA, -, hv⟩ := ha
  rw [hv, viewOf, viewOf] at hb
  have hother : b.config.isInbound = !a.config.isInbound := Bool.eq_not_iff.mpr hroles
  cases hin : a.config.isInbound <;> simp [hin, hother] at hb
  · exact hb.2.1
  · exact hb.2.2.1

/-- Where no Hello with the nonce of an honest session carries another key than that session's, this
is so of all that was heard. -/
theorem keyKept_of_run (hrun : HandshakeRun honest KeyKept net) : ∀ s ∈ net, KeyKept net s s.handshake := by
  induction hrun with
  | refl => exact fun _ hs => absurd hs List.not_mem_nil
  | @tail net net' hrun hstep ih =>
    cases hstep with
    | start cfg failure hhonest hfresh =>
      intro s hs their hheard other hother hroles hnonce
      rcases List.mem_append.mp hs with hs | hs
      · rcases List.mem_append.mp hother with hother | hother
        · exact ih s hs their hheard other hother hroles hnonce
        · -- the nonce of the new session has not been heard
          rw [List.mem_singleton.mp hother] at hnonce
          exact absurd hnonce.symm ((hfresh s hs).2 their hheard)
      · rw [List.mem_singleton.mp hs] at hheard
        have hnone := (handshakeStart_inv cfg failure).2.1
        rw [show (handshakeStart cfg failure).trace.heard = some their from hheard] at hnone
        cases hnone
    | resume i s bytes waits failure h rest hi hresume hunforged hkept =>
      intro r hr their hheard other hother hroles hnonce
      -- the sessions are as before, but for what this one has heard
      have hconfig : ∃ other' ∈ net, other'.config = other.config := by
        rcases List.mem_or_eq_of_mem_set hother with hother | rfl
        · exact ⟨other, hother, rfl⟩
        · exact ⟨s, List.mem_of_getElem? hi, rfl⟩
      obtain ⟨other', hother', hcfg⟩ := hconfig
      rw [← hcfg] at hroles hnonce ⊢
      rcases List.mem_or_eq_of_mem_set hr with hr | rfl
      · exact ih r hr their hheard other' hother' hroles hnonce
      · exact hkept their hheard other' hother' hroles hnonce

end

end

/-! ## Two sessions -/

/-- Reads that are answered at once. -/
def answered : List Wait := List.replicate 3 (.ready 0 0)

theorem readExact_ready {n : Nat} {bytes : List UInt8} (hlen : bytes.length = n) (rest : List UInt8)
    (waits : List Wait) : readExact n ⟨bytes ++ rest, .ready 0 0 :: waits⟩ = .ok bytes ⟨rest, waits⟩ := by
  subst hlen
  show takeBytes bytes.length ⟨bytes ++ rest, waits⟩ = _
  simp only [takeBytes, Bind.bind, EStateM.bind, get, getThe, MonadStateOf.get, EStateM.get,
    List.length_append, Nat.le_add_right, if_true, List.take_left', List.drop_left']
  rfl

/-- The frame of a Hello. -/
def helloFrame (h : HelloMsg) : List UInt8 :=
  [0x01] ++ (leBytes 4 268 ++ (serializeHello h ++ []))

theorem helloFrame_deserialize (h : HelloMsg) : Message.deserialize (helloFrame h) = .ok (.hello h, 273) := by
  have hlen : (helloFrame h).length = 273 := by simp [helloFrame]
  have hpayload : ((helloFrame h).drop 5).take 268 = serializeHello h := by
    simp [helloFrame, length_hello]
  have hsize : leNat (((helloFrame h).drop 1).take 4) = 268 := by
    simp [helloFrame, leNat_leBytes]
  unfold Message.deserialize
  rw [hlen, hsize]
  refine bind_eq_ok.mpr ⟨(), rfl, bind_eq_ok.mpr ⟨(), rfl, bind_eq_ok.mpr ⟨(), rfl, ?_⟩⟩⟩
  rw [hpayload]
  refine bind_eq_ok.mpr ⟨.hello h, ?_, rfl⟩
  exact bind_eq_ok.mpr ⟨h, hello_reads h, rfl⟩

theorem helloFrame_read (h : HelloMsg) :
    readInTime readHello ⟨helloFrame h, answered⟩ = some (.ok (.hello h), []) := by
  have hread : readHello ⟨helloFrame h, answered⟩ = .ok (.hello h) ⟨[], []⟩ := by
    refine (bind_of_ok (readExact_ready (n := 1) rfl _ _)).trans ?_
    refine (bind_of_ok (a := ()) rfl).trans ?_
    refine (bind_of_ok (readExact_ready (n := 4) (by simp) _ _)).trans ?_
    rw [leNat_leBytes (by decide)]
    refine (bind_of_ok (a := ()) rfl).trans ?_
    refine (bind_of_ok (readExact_ready (n := 268) (length_hello h) _ _)).trans ?_
    have hdes := helloFrame_deserialize h
    rw [helloFrame, List.append_nil] at hdes
    rw [show ([0x01] : List UInt8).headD 0 :: (leBytes 4 268 ++ serializeHello h) =
      [0x01] ++ (leBytes 4 268 ++ serializeHello h) from rfl, hdes]
    rfl
  rw [readInTime, hread]

/-- A session that is delivered the frame of a Hello. -/
theorem resume_hello [Crypto] [PeerCrypto] (hstage : h.stage = .readHello)
    (failure : Option IoError) (their : HelloMsg) :
    handshakeResume cfg h ⟨[] ++ helloFrame their, answered⟩ failure =
      some (.after (afterHello cfg failure their) h.trace, []) := by
  rw [handshakeResume, hstage]
  simp only [List.nil_append, helloFrame_read, Option.map_some]
  rfl

/-- The key that an honest node has in the runs below. -/
def initiatorKey : Vector UInt8 32 := Vector.replicate 32 1

/-- That of the other one. -/
def responderKey : Vector UInt8 32 := Vector.replicate 32 2

/-- And that of the attacker. -/
def attackerKey : Vector UInt8 32 := Vector.replicate 32 3

/-- A Hello with a nonce, an echo and a key. -/
def sampleHello (nonce echo key : Vector UInt8 32) : HelloMsg where
  version := protocolVersion
  genesisBlockId := Hash256.zero
  bestHeight := 0
  bestBlockId := Hash256.zero
  cumulativeWork := Vector.replicate 32 0
  nonce := nonce
  echo := echo
  pubkey := key
  sig := Vector.replicate 64 0

/-- A node that connects. -/
def initiatorConfig : HandshakeConfig where
  ourHello := sampleHello Hash256.zero Hash256.zero Hash256.zero
  isInbound := false
  signingKey := initiatorKey
  ourNonce := Vector.replicate 32 10

/-- A node that is connected to. -/
def responderConfig : HandshakeConfig where
  ourHello := sampleHello Hash256.zero Hash256.zero Hash256.zero
  isInbound := true
  signingKey := responderKey
  ourNonce := Vector.replicate 32 20

/-- The Hello of the initiator, with a key. -/
def initiatorHello (key : Vector UInt8 32) : HelloMsg :=
  sampleHello initiatorConfig.ourNonce Hash256.zero key

/-- The Hello with which the responder answers. -/
def responderHello : HelloMsg :=
  sampleHello responderConfig.ourNonce initiatorConfig.ourNonce responderKey

/-- A hash that tells the roles apart. -/
@[reducible] def roleCrypto : Crypto :=
  .ofHash fun x => Vector.replicate 32 (x.getD 110 0)

/-- Keys that are their own public keys. -/
@[reducible] def plainKeys : PeerCrypto where
  verifyingKey key := key
  ed25519Sign _ _ := Vector.replicate 64 0
  x25519 _ _ := Vector.replicate 32 0
  hmacSha256 _ _ := Vector.replicate 32 0

section

variable [Crypto] [PeerCrypto]

/-- The session of the initiator once it has started. -/
def initiatorStarted : Session :=
  ⟨initiatorConfig, handshakeStart initiatorConfig none, []⟩

/-- The session of the responder once it has started. -/
def responderStarted : Session :=
  ⟨responderConfig, handshakeStart responderConfig none, []⟩

/-- The session of the responder once it has heard the initiator's Hello, with a key. -/
def responderHeard (key : Vector UInt8 32) : Session :=
  ⟨responderConfig, .after (afterHello responderConfig none (initiatorHello key))
    (handshakeStart responderConfig none).trace, []⟩

/-- The session of the initiator once it has heard the responder's Hello. -/
def initiatorEnded : Session :=
  ⟨initiatorConfig, .after (afterHello initiatorConfig none responderHello)
    (handshakeStart initiatorConfig none).trace, []⟩

end

/-- The honest keys. -/
def honestKeys : Set (Vector UInt8 32) := {initiatorKey, responderKey}

theorem responderHeard_signed (hkey : key = initiatorKey ∨ key = attackerKey) : let _ := roleCrypto
    let _ := plainKeys
    (responderHeard key).handshake.trace.signed = [Vector.replicate 32 0] := by
  rcases hkey with rfl | rfl <;> decide

/-- The run in which the Hello of the initiator reaches the responder with a key, and the responder's
answer reaches the initiator. -/
theorem relayedRun {P : List Session → Session → Handshake → Prop}
    (hkey : key = initiatorKey ∨ key = attackerKey) : let _ := roleCrypto
    let _ := plainKeys
    P [initiatorStarted, responderStarted] responderStarted (responderHeard key).handshake →
    P [initiatorStarted, responderHeard key] initiatorStarted initiatorEnded.handshake →
    HandshakeRun honestKeys P [initiatorEnded, responderHeard key] := by
  intro _ _ hresponder hinitiator
  have hstart : HandshakeStep honestKeys P [] [initiatorStarted] :=
    .start initiatorConfig none (Or.inl rfl) fun _ hs => absurd hs List.not_mem_nil
  have hstart' : HandshakeStep honestKeys P [initiatorStarted] [initiatorStarted, responderStarted] := by
    refine .start responderConfig none (Or.inr rfl) fun s hs => ?_
    rw [List.mem_singleton.mp hs]
    exact ⟨by decide, fun their h => by cases h⟩
  have hheard : HandshakeStep honestKeys P [initiatorStarted, responderStarted]
      [initiatorStarted, responderHeard key] := by
    refine .resume 1 responderStarted (helloFrame (initiatorHello key)) answered none
      (responderHeard key).handshake [] rfl (resume_hello rfl none _) ?_ hresponder
    intro k transcript hmem
    rcases hkey with rfl | rfl <;> cases hmem
  have hended : HandshakeStep honestKeys P [initiatorStarted, responderHeard key]
      [initiatorEnded, responderHeard key] := by
    refine .resume 0 initiatorStarted (helloFrame responderHello) answered none
      initiatorEnded.handshake [] rfl (resume_hello rfl none _) ?_ hinitiator
    intro k transcript hmem _
    cases List.mem_singleton.mp hmem
    refine ⟨responderHeard key, by simp, rfl, ?_⟩
    rw [responderHeard_signed hkey]
    exact List.mem_singleton_self _
  exact ((((Relation.ReflTransGen.single hstart).tail hstart').tail hheard).tail hended)

theorem initiatorEnded_heard : let _ := roleCrypto
    let _ := plainKeys
    initiatorEnded.handshake.trace.heard = some responderHello := by
  decide

theorem responderHeard_heard (hkey : key = initiatorKey ∨ key = attackerKey) : let _ := roleCrypto
    let _ := plainKeys
    (responderHeard key).handshake.trace.heard = some (initiatorHello key) := by
  rcases hkey with rfl | rfl <;> decide

/-- The two sessions see the same, so that the hash of the roles has no collision. -/
theorem relayed_injOn (hkey : key = initiatorKey ∨ key = attackerKey) : let _ := roleCrypto
    let _ := plainKeys
    Set.InjOn Crypto.sha256 (transcripts [initiatorEnded, responderHeard key]) := by
  intro _ _
  have hsees : ∀ s ∈ [initiatorEnded, responderHeard key], ∀ v, s.Sees v →
      v = viewOf initiatorConfig responderHello := by
    rintro s hs v ⟨their, hheard, rfl⟩
    rcases List.mem_pair.mp hs with rfl | rfl
    · cases initiatorEnded_heard.symm.trans hheard
      rfl
    · cases (responderHeard_heard hkey).symm.trans hheard
      rfl
  rintro x ⟨s, hs, v, role, hv, rfl⟩ y ⟨s', hs', v', role', hv', rfl⟩ heq
  rw [hsees s hs v hv, hsees s' hs' v' hv'] at heq ⊢
  have hroles : (Vector.replicate 32 role : Vector UInt8 32) = Vector.replicate 32 role' := by
    exact heq
  rw [(Vector.replicate_inj.mp hroles).resolve_left (by decide)]

/-- Agreement. Where no Hello with the nonce of an honest session carries another key than that
session's, an honest node that completes a handshake with an honest peer agrees with it: a session of
the peer in the other role has the same view, has signed it, and has heard the node's key. -/
theorem handshake_agreement [Crypto] [PeerCrypto] {honest : Set (Vector UInt8 32)}
    {net : List Session} (hrun : HandshakeRun honest KeyKept net)
    (hinj : Set.InjOn Crypto.sha256 (transcripts net)) {a : Session} (ha : a ∈ net) {peer : Peer}
    (hended : a.handshake.stage = .ended (.ok peer)) (hpeer : peer.identity ∈ honest) :
    ∃ b ∈ net, b.pubkey = peer.identity ∧ SignedFor a b ∧ b.HeardKey a.pubkey := by
  obtain ⟨b, hb, hpub, hsigned⟩ := (netInv_of_run hrun).signedFor hinj ha hended hpeer
  obtain ⟨hroles, v, hseesA, ⟨heardB, hheardB, hview⟩, htranscript⟩ := hsigned
  have hnonce := nonce_of_view hseesA hview hroles
  have hkey := keyKept_of_run hrun b hb heardB hheardB a ha hroles.symm hnonce
  exact ⟨b, hb, hpub, ⟨hroles, v, hseesA, ⟨heardB, hheardB, hview⟩, htranscript⟩, heardB, hheardB, hkey⟩

/-- Two honest nodes whose messages are delivered as they are. -/
theorem handshake_agreement_honest : let _ := roleCrypto
    let _ := plainKeys
    HandshakeRun honestKeys KeyKept [initiatorEnded, responderHeard initiatorKey] ∧
    ∃ b ∈ [initiatorEnded, responderHeard initiatorKey], b.pubkey = responderKey ∧
      SignedFor initiatorEnded b ∧ b.HeardKey initiatorKey := by
  intro _ _
  have hrun : HandshakeRun honestKeys KeyKept [initiatorEnded, responderHeard initiatorKey] := by
    refine relayedRun (Or.inl rfl) ?_ ?_
    · intro their hheard other hother hroles hnonce
      cases hheard
      rcases List.mem_pair.mp hother with rfl | rfl
      · rfl
      · exact absurd rfl hroles
    · intro their hheard other hother hroles hnonce
      cases hheard
      rcases List.mem_pair.mp hother with rfl | rfl
      · exact absurd rfl hroles
      · rfl
  exact ⟨hrun, handshake_agreement hrun (relayed_injOn (Or.inl rfl)) List.mem_cons_self rfl (Or.inr rfl)⟩

/-- The attacker puts its own key into the Hello of the initiator, and hands on the answer: the
initiator completes with the responder, which takes the attacker for its peer. -/
theorem handshake_agreement_counterexample : let _ := roleCrypto
    let _ := plainKeys
    ∃ net, HandshakeRun honestKeys (fun _ _ _ => True) net ∧
      Set.InjOn Crypto.sha256 (transcripts net) ∧
      ∃ a ∈ net, ∃ peer, a.handshake.stage = .ended (.ok peer) ∧ peer.identity ∈ honestKeys ∧
        ¬ ∃ b ∈ net, b.pubkey = peer.identity ∧ SignedFor a b ∧ b.HeardKey a.pubkey := by
  intro _ _
  refine ⟨[initiatorEnded, responderHeard attackerKey], relayedRun (Or.inr rfl) trivial trivial,
    relayed_injOn (Or.inr rfl), initiatorEnded, by simp, _, rfl, Or.inr rfl, ?_⟩
  rintro ⟨b, hb, -, hsigned, their, hheard, hpub⟩
  rcases List.mem_pair.mp hb with rfl | rfl
  · exact hsigned.1 rfl
  · rw [responderHeard_heard (Or.inr rfl)] at hheard
    cases hheard
    exact absurd hpub (by decide)

end Exfer.Proof
