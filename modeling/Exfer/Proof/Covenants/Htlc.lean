import Exfer.Proof.Covenants.Templates

/-!
# Hash time-locked contracts

The template accepts a claim or a refund and nothing else (`htlc_accepts`), and it is recognised exactly
(`tryParseHtlc_exact`): the constants of the script come in a fixed order, the sender's key before the
receiver's, and whatever is collected is compared with the bytes of the template.
-/

namespace Exfer.Proof.Covenants

open Lib Impl Impl.Script Impl.Covenants Spec Spec.Script Proof.Script

variable {c : HtlcParams} {scriptBytes : List UInt8}

/-! ## Spending -/

/-- The policy of a hash time-locked contract. -/
def htlcPolicy (c : HtlcParams) : Choice :=
  .either (.one (.both (.reveals c.hashLock) (.signedBy c.receiver)))
    (.one (.both (.heightOver c.timeoutHeight) (.signedBy c.sender)))

theorem htlc_compiles (c : HtlcParams) : Compiles c.script (htlcPolicy c) := by
  obtain ⟨sender, receiver, hashLock, timeoutHeight⟩ := c
  exact
    { examined := by cbv
      affordable := by cbv
      scalars := ofCalls_scalars <|
        .bind (hashEq_scalars hashLock) fun _ => .bind (sigCheck_scalars receiver) fun _ =>
        .bind (and_scalars _ _) fun _ => .bind (heightGt_scalars timeoutHeight) fun _ =>
        .bind (sigCheck_scalars sender) fun _ => .bind (and_scalars _ _) fun _ => select_scalars _ _
      count := by cbv
      levels := by cbv }

theorem pick_two {c d e : Condition} {v : Value} :
    (Choice.either (.one c) (.one d)).pick v = some e ↔ SelectsLeft v ∧ e = c ∨ SelectsRight v ∧ e = d := by
  rw [pick_eq_some]
  constructor
  · intro h
    cases h with
    | left h =>
      cases h
      exact .inl ⟨.inl rfl, rfl⟩
    | right h =>
      cases h
      exact .inr ⟨.inl rfl, rfl⟩
    | bool b =>
      cases b with
      | false => exact .inl ⟨.inr rfl, rfl⟩
      | true => exact .inr ⟨.inr rfl, rfl⟩
  · rintro (⟨rfl | rfl, rfl⟩ | ⟨rfl | rfl, rfl⟩)
    · exact .left .one
    · exact .bool false
    · exact .right .one
    · exact .bool true

section

variable [Crypto]

/-- A signature that verifies has its length. -/
theorem length_of_verify (h : Jets.ed25519VerifyZip215 message pubkey sig = true) : sig.length < 2 ^ 32 := by
  unfold Jets.ed25519VerifyZip215 at h
  split at h
  · cases h
  rename_i hlen
  have hsig : sig.length = 64 := by
    by_contra hne
    exact hlen (.inr hne)
  rw [hsig]
  decide

theorem presents_sig : Presents (fun sig => Jets.ed25519VerifyZip215 message pubkey sig = true) witness ↔
      ∃ sig, witness = (Value.bytes sig).serialize ∧
        Jets.ed25519VerifyZip215 message pubkey sig = true := by
  constructor
  · rintro ⟨sig, -, hwitness, hverify⟩
    exact ⟨sig, hwitness, hverify⟩
  · rintro ⟨sig, hwitness, hverify⟩
    exact ⟨sig, length_of_verify hverify, hwitness, hverify⟩

/-- The policy is met by a claim or a refund. -/
theorem htlcPolicy_met :
    (htlcPolicy c).Met context witness ↔ HtlcClaim c context witness ∨ HtlcRefund c context witness := by
  constructor
  · rintro ⟨selector, condition, rest, rfl, hpick, hmet⟩
    rcases pick_two.mp hpick with ⟨hleft, rfl⟩ | ⟨hright, rfl⟩
    · obtain ⟨first, second, rfl, ⟨preimage, hlen, rfl, hhash⟩, hsig⟩ := hmet
      obtain ⟨sig, rfl, hverify⟩ := presents_sig.mp hsig
      exact .inl ⟨selector, preimage, sig, hleft, hlen, (List.append_assoc ..).symm, hhash, hverify⟩
    · obtain ⟨first, second, rfl, ⟨rfl, hheight⟩, hsig⟩ := hmet
      obtain ⟨sig, rfl, hverify⟩ := presents_sig.mp hsig
      exact .inr ⟨selector, sig, hright, rfl, hheight, hverify⟩
  · rintro (⟨selector, preimage, sig, hleft, hlen, rfl, hhash, hverify⟩ |
      ⟨selector, sig, hright, rfl, hheight, hverify⟩)
    · refine ⟨selector, _, _, List.append_assoc .., pick_two.mpr (.inl ⟨hleft, rfl⟩), ?_⟩
      exact ⟨_, _, rfl, ⟨preimage, hlen, rfl, hhash⟩, presents_sig.mpr ⟨sig, rfl, hverify⟩⟩
    · refine ⟨selector, _, _, rfl, pick_two.mpr (.inr ⟨hright, rfl⟩), ?_⟩
      exact ⟨[], _, rfl, ⟨rfl, hheight⟩, presents_sig.mpr ⟨sig, rfl, hverify⟩⟩

end

/-- The script of a hash time-locked contract can lock an output, and it accepts exactly the claims of the
receiver and the refunds of the sender. -/
theorem htlc_accepts [Crypto] (sender receiver : Vector UInt8 32) (hashLock : Hash256) (timeoutHeight : UInt64) :
    AcceptsExactly (htlc sender receiver hashLock timeoutHeight) fun context witness =>
      HtlcClaim ⟨sender, receiver, hashLock, timeoutHeight⟩ context witness ∨
        HtlcRefund ⟨sender, receiver, hashLock, timeoutHeight⟩ context witness := by
  have h := (htlc_compiles ⟨sender, receiver, hashLock, timeoutHeight⟩).accepts
  refine ⟨h.1, fun context witness input => ?_⟩
  obtain ⟨need, hneed⟩ := h.2 context witness input
  exact ⟨need, fun budget hbudget => (hneed budget hbudget).trans htlcPolicy_met⟩

/-! ## Recognition -/

/-- The constant of a node. -/
def constOf : Combinator → Option Value
  | .const v => some v
  | _ => none

theorem collect_constants (nodes : List Combinator) (c : HtlcCandidates) : nodes.foldlM collectCandidate c =
      (nodes.filterMap constOf).foldlM (fun c v => collectCandidate c (.const v)) c := by
  induction nodes generalizing c with
  | nil => rfl
  | cons node nodes ih =>
    cases node with
    | const v =>
      exact bind_congr ih
    | _ => exact ih c

theorem htlc_constants (c : HtlcParams) : c.script.nodes.filterMap constOf =
    [.bool false, .bytes c.sender.toList, .u64 c.timeoutHeight, .bool false, .bytes c.receiver.toList,
      .hash c.hashLock] := by
  cbv

/-- What is collected from the template are its parameters. -/
theorem htlc_candidates (c : HtlcParams) : c.script.nodes.foldlM collectCandidate ⟨[], none, none⟩ =
    some ⟨[c.sender, c.receiver], some c.hashLock, some c.timeoutHeight⟩ := by
  have hkey : ∀ key : Vector UInt8 32, hashOfBytes key.toList = key := fun key => by
    simpa using hashOfBytes_append key []
  rw [collect_constants, htlc_constants]
  simp [collectCandidate, hkey]

theorem tryCandidate_iff : tryCandidate scriptBytes c = true ↔ c.script.serializeProgram = scriptBytes :=
  beq_iff_eq

/-- The parameters of a script that is recognised. -/
theorem serialize_of_tryParse (h : tryParseHtlc scriptBytes = some c) :
    c.script.serializeProgram = scriptBytes := by
  obtain ⟨program, _, h⟩ := Option.bind_eq_some_iff.mp h
  obtain ⟨candidates, _, h⟩ := Option.bind_eq_some_iff.mp h
  split at h
  · obtain ⟨hashLock, _, h⟩ := Option.bind_eq_some_iff.mp h
    obtain ⟨timeoutHeight, _, h⟩ := Option.bind_eq_some_iff.mp h
    dsimp only at h
    split at h
    · rename_i hfirst
      cases h
      exact tryCandidate_iff.mp hfirst
    · split at h
      · rename_i hsecond
        cases h
        exact tryCandidate_iff.mp hsecond
      · cases h
  · cases h

theorem tryParse_of_candidates (hread : Program.deserializeProgram scriptBytes = .ok program)
    (hcandidates : program.nodes.foldlM collectCandidate ⟨[], none, none⟩ = some ⟨[c.sender,
      c.receiver], some c.hashLock, some c.timeoutHeight⟩)
    (hsame : tryCandidate scriptBytes c = true) : tryParseHtlc scriptBytes = some c := by
  unfold tryParseHtlc
  rw [hread, Except.toOption, Option.bind_eq_bind, Option.bind_some, hcandidates]
  exact if_pos hsame

theorem tryParse_serialize (c : HtlcParams) : tryParseHtlc c.script.serializeProgram = some c :=
  tryParse_of_candidates (htlc_compiles c).deserialize (htlc_candidates c) (tryCandidate_iff.mpr rfl)

/-- A script is recognised, with its parameters, exactly if it is an instance of the template. -/
theorem tryParseHtlc_exact (scriptBytes : List UInt8) : (∀ c : HtlcParams, tryParseHtlc scriptBytes = some c ↔
      scriptBytes = (htlc c.sender c.receiver c.hashLock c.timeoutHeight).serializeProgram) ∧
    (tryParseHtlc scriptBytes = none ↔ ∀ c : HtlcParams,
      scriptBytes ≠ (htlc c.sender c.receiver c.hashLock c.timeoutHeight).serializeProgram) := by
  have hiff : ∀ c : HtlcParams,
      tryParseHtlc scriptBytes = some c ↔ scriptBytes = c.script.serializeProgram := by
    refine fun c => ⟨fun h => (serialize_of_tryParse h).symm, ?_⟩
    rintro rfl
    exact tryParse_serialize c
  refine ⟨hiff, ?_⟩
  rw [Option.eq_none_iff_forall_ne_some]
  exact forall_congr' fun c => not_congr (hiff c)

end Exfer.Proof.Covenants
