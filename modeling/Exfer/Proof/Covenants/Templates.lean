import Exfer.Proof.Covenants.Policy
import Mathlib

/-!
# The templates accept their policies

A script is that of a policy if it passes the checks on output scripts, types to the tree of the policy and
has small constants only (`Compiles`); it then accepts exactly what meets the policy (`Compiles.accepts`). The
checks and the tree are computed, with the keys and heights left open (`examine`, `affordable`). That constants
are small is kept by every call of a template (`PushesScalars`).
-/

namespace Exfer.Proof.Covenants

open Lib Impl Impl.Script Impl.Covenants Spec Spec.Script Proof.Script

/-! ## Admission -/

/-- The typed tree of a program that passes the checks on types and depth. -/
def examine (p : Program) : Option TypedTree :=
  match typecheck p with
  | .error _ => none
  | .ok typed =>
    if outTy typed p.root = .boolType ∧ strictTypeEdges p typed = true ∧ p.nodes.all evaluable = true ∧
        scriptInputAccepts (inTy typed p.root) scriptInputType = true ∧ p.maxDepth ≤ maxEvalDepth then
      some (typedTree p typed)
    else none

theorem exists_admitted (h : examine p = some tree) :
    ∃ typed, Admitted p typed ∧ typedTree p typed = tree := by
  unfold examine at h
  split at h
  · cases h
  rename_i typed htyped
  split at h
  · rename_i hchecks
    obtain ⟨hroot, hedges, heval, hinput, hdepth⟩ := hchecks
    injection h with h
    exact ⟨typed, ⟨htyped, hroot, hedges, heval, hinput, hdepth⟩, h⟩
  · cases h

/-- A value without components whose encoding is short. -/
structure Scalar (v : Value) : Prop where
  depth : depth v = 0
  lists : ListsFit v
  length : v.serialize.length ≤ 64

/-- The node with the least constant for its own. -/
def blank : Combinator → Combinator
  | .const _ => .const .unit
  | node => node

/-- The steps of the program are within the limit, with constants left out. -/
def affordable (p : Program) : Bool :=
  match bottomUp (Program.nodeCost 1) 0 (p.nodes.map blank) with
  | .error _ => false
  | .ok costs =>
    match costs[p.root]? with
    | some cost => cost.steps ≤ maxScriptSteps
    | none => false

theorem nodeCost_blank (h : ∀ v, node = .const v → Scalar v) (size i : Nat)
    (later : List Program.ScriptCost) :
    Program.nodeCost size i (blank node) later = Program.nodeCost size i node later := by
  cases node with
  | const v =>
    have hlen := (h v rfl).length
    have hcost : max ((v.serialize.length + 63) / 64) 1 = 1 := by omega
    simp only [blank, Program.nodeCost, hcost]
    rfl
  | _ => rfl

theorem bottomUp_blank {nodes : List Combinator} (h : ∀ v, .const v ∈ nodes → Scalar v) (size i : Nat) :
    bottomUp (Program.nodeCost size) i (nodes.map blank) = bottomUp (Program.nodeCost size) i nodes := by
  induction nodes generalizing i with
  | nil => rfl
  | cons node nodes ih =>
    have hnode : ∀ v, node = .const v → Scalar v := by
      rintro v rfl
      exact h v List.mem_cons_self
    rw [List.map_cons, bottomUp, bottomUp, ih (fun v hv => h v (List.mem_cons_of_mem _ hv))]
    simp only [nodeCost_blank hnode]

theorem computeCost_of_affordable (hvalid : p.validateStructure = .ok ())
    (hscalars : ∀ v, .const v ∈ p.nodes → Scalar v) (h : affordable p = true) :
    ∃ cost, p.computeCost ⟨1, 1⟩ = .ok cost ∧ cost.steps ≤ maxScriptSteps := by
  unfold affordable at h
  rw [bottomUp_blank hscalars] at h
  unfold Program.computeCost
  rw [hvalid]
  show ∃ cost, (bottomUp (Program.nodeCost 1) 0 p.nodes >>= _) = .ok cost ∧ _
  cases hcosts : bottomUp (Program.nodeCost 1) 0 p.nodes with
  | error e =>
    rw [hcosts] at h
    cases h
  | ok costs =>
    rw [hcosts] at h
    cases hroot : costs[p.root]? with
    | none => simp [hroot] at h
    | some cost =>
      refine ⟨cost, ?_, by simpa [hroot] using h⟩
      show (match costs[p.root]? with | some c => _ | none => _) = _
      rw [hroot]
      rfl

/-- A program whose typed tree is that of a policy, with small constants. -/
structure Compiles (p : Program) (policy : Choice) : Prop where
  examined : examine p = some (policyTree policy)
  affordable : affordable p = true
  scalars : ∀ v, .const v ∈ p.nodes → Scalar v
  count : p.nodes.length ≤ maxScriptNodes
  levels : choiceLevels policy ≤ maxValueDepth

namespace Compiles

variable {p : Program} {policy : Choice}

theorem deserialize (h : Compiles p policy) :
    Program.deserializeProgram p.serializeProgram = .ok p := by
  obtain ⟨typed, hadmitted, -⟩ := exists_admitted h.examined
  have hlimits : WithinLimits p :=
    { valid := hadmitted.valid
      count := h.count
      depth := fun v hv => (h.scalars v hv).depth.trans_le (Nat.zero_le _)
      lists := fun v hv => (h.scalars v hv).lists }
  exact deserialize_serializeProgram hlimits fun v hv =>
    (h.scalars v hv).length.trans_lt (by decide)

theorem validateOutputScript (h : Compiles p policy) (idx : Nat)
    (hscript : output.script = p.serializeProgram) :
    Impl.validateOutputScript idx output = .ok () := by
  obtain ⟨typed, hadmitted, -⟩ := exists_admitted h.examined
  rw [hadmitted.validateOutputScript_eq (hscript ▸ h.deserialize)]
  obtain ⟨cost, hcost, hsteps⟩ := computeCost_of_affordable hadmitted.valid h.scalars h.affordable
  rw [hcost]
  exact if_neg (Nat.not_lt.mpr hsteps)

/-- The script of a policy accepts what meets the policy. -/
theorem accepts [Crypto] (h : Compiles p policy) : AcceptsExactly p fun context => policy.Met context := by
  refine ⟨fun idx output hscript => h.validateOutputScript idx hscript, fun context witness input => ?_⟩
  obtain ⟨typed, hadmitted, htree⟩ := exists_admitted h.examined
  obtain ⟨need, hneed⟩ := evaluate_meaning hadmitted context witness input
  rw [htree] at hneed
  have haccepts : Accepts (meaning context (policyTree policy) input) (policy.Met context) :=
    policyTree_accepts h.levels input
  refine ⟨need, fun budget hbudget => ?_⟩
  constructor
  · rintro ⟨v, s, hrun, hv⟩
    have hmeans := (hneed budget hbudget v).mp ⟨s, hrun⟩
    obtain ⟨b, rfl⟩ := haccepts.bool hmeans
    obtain rfl : b = true := Option.some.inj hv
    obtain ⟨w, hw, hmet⟩ := haccepts.accepts.mp hmeans
    rwa [hw, List.append_nil]
  · intro hmet
    have hmeans := haccepts.accepts.mpr ⟨witness, (List.append_nil _).symm, hmet⟩
    obtain ⟨s, hrun⟩ := (hneed budget hbudget _).mpr hmeans
    exact ⟨_, s, hrun, rfl⟩

end Compiles

/-! ## Constants -/

/-- Calls that push no other constants than scalars. -/
def PushesScalars {α : Type} (m : BuilderM α) : Prop :=
  ∀ b, (∀ v, .const v ∈ b.nodes → Scalar v) → ∀ v, .const v ∈ (m.run b).2.nodes → Scalar v

theorem PushesScalars.bind (hm : PushesScalars m) (hf : ∀ a, PushesScalars (f a)) :
    PushesScalars (m >>= f) :=
  fun b hb => hf _ _ (hm b hb)

theorem push_scalars (h : ∀ v, node = .const v → Scalar v) :
    PushesScalars (ScriptBuilder.push node) := by
  intro b hb v hv
  rcases List.mem_append.mp hv with hv | hv
  · exact hb v hv
  · exact h v (List.mem_singleton.mp hv).symm

theorem constant_scalars (h : Scalar v) : PushesScalars (ScriptBuilder.constant v) := by
  refine push_scalars fun w hw => ?_
  injection hw with hw
  rwa [← hw]

theorem scalar_key (pubkey : Vector UInt8 32) : Scalar (.bytes pubkey.toList) :=
  ⟨rfl, trivial, by simp [Value.serialize]⟩

theorem scalar_hash (h : Hash256) : Scalar (.hash h) :=
  ⟨rfl, trivial, by simp [Value.serialize]⟩

theorem scalar_u64 (n : UInt64) : Scalar (.u64 n) :=
  ⟨rfl, trivial, by simp [Value.serialize]⟩

theorem scalar_bool (b : Bool) : Scalar (.bool b) :=
  ⟨rfl, trivial, by simp [Value.serialize]⟩

theorem sigCheck_scalars (pubkey : Vector UInt8 32) : PushesScalars (ScriptBuilder.sigCheck pubkey) := by
  refine .bind (push_scalars nofun) fun _ => .bind (push_scalars nofun) fun _ => ?_
  refine .bind (push_scalars nofun) fun _ => .bind (constant_scalars (scalar_key pubkey)) fun _ => ?_
  refine .bind (push_scalars nofun) fun _ => .bind (push_scalars nofun) fun _ => ?_
  exact .bind (push_scalars nofun) fun _ => .bind (push_scalars nofun) fun _ => push_scalars nofun

theorem hashEq_scalars (expected : Hash256) : PushesScalars (ScriptBuilder.hashEq expected) := by
  refine .bind (push_scalars nofun) fun _ => .bind (push_scalars nofun) fun _ => ?_
  refine .bind (push_scalars nofun) fun _ => .bind (constant_scalars (scalar_hash expected)) fun _ => ?_
  exact .bind (push_scalars nofun) fun _ => .bind (push_scalars nofun) fun _ => push_scalars nofun

theorem heightJet_scalars (compare : JetId) (height : UInt64) :
    PushesScalars (ScriptBuilder.heightJet compare height) := by
  refine .bind (push_scalars nofun) fun _ => .bind (push_scalars nofun) fun _ => ?_
  refine .bind (push_scalars nofun) fun _ => .bind (constant_scalars (scalar_u64 height)) fun _ => ?_
  exact .bind (push_scalars nofun) fun _ => .bind (push_scalars nofun) fun _ => push_scalars nofun

theorem and_scalars (a b : NodeId) : PushesScalars (ScriptBuilder.and a b) :=
  .bind (constant_scalars (scalar_bool false)) fun _ => .bind (push_scalars nofun) fun _ => push_scalars nofun

theorem heightGt_scalars (height : UInt64) : PushesScalars (ScriptBuilder.heightGt height) :=
  heightJet_scalars .gt64 height

theorem heightLt_scalars (height : UInt64) : PushesScalars (ScriptBuilder.heightLt height) :=
  heightJet_scalars .lt64 height

/-- The last calls of a template with a choice of two. -/
theorem select_scalars (f g : NodeId) : PushesScalars (do
    let selector ← ScriptBuilder.witness
    let caseNode ← ScriptBuilder.case f g
    ScriptBuilder.comp selector caseNode) :=
  .bind (push_scalars nofun) fun _ => .bind (push_scalars nofun) fun _ => push_scalars nofun

/-- The last calls of a template with a choice of three. -/
theorem selectNested_scalars (f g h : NodeId) : PushesScalars (do
    let innerCase ← ScriptBuilder.case f g
    let outerCase ← ScriptBuilder.case innerCase h
    let selector ← ScriptBuilder.witness
    ScriptBuilder.comp selector outerCase) :=
  .bind (push_scalars nofun) fun _ => .bind (push_scalars nofun) fun _ =>
    .bind (push_scalars nofun) fun _ => push_scalars nofun

theorem ofCalls_scalars (h : PushesScalars calls) :
    ∀ v, .const v ∈ (ofCalls calls).nodes → Scalar v := by
  intro v hv
  obtain ⟨node, hnode, hremap⟩ := List.mem_map.mp hv
  obtain rfl : node = .const v := by
    cases node with
    | const w => exact hremap
    | _ => cases hremap
  exact h .new nofun v (List.mem_reverse.mp hnode)

/-! ## The templates -/

-- The end of a channel's window is not computed: the checks hold at every height.

theorem examine_script (c : Covenant) : examine c.script = some (policyTree c.policy) := by
  cases c with
  | close channel closeHeight publisher =>
    simp only [Covenant.script, PaymentChannel.closeScript, Covenant.policy]
    generalize channel.windowEnd closeHeight = height
    cbv
  | dispute channel closeHeight =>
    simp only [Covenant.script, PaymentChannel.disputeScript, Covenant.policy]
    generalize channel.windowEnd closeHeight = height
    cbv
  | _ => cbv

theorem affordable_script (c : Covenant) : affordable c.script = true := by
  cases c with
  | close channel closeHeight publisher =>
    simp only [Covenant.script, PaymentChannel.closeScript]
    generalize channel.windowEnd closeHeight = height
    cbv
  | dispute channel closeHeight =>
    simp only [Covenant.script, PaymentChannel.disputeScript]
    generalize channel.windowEnd closeHeight = height
    cbv
  | _ => cbv

theorem script_scalars (c : Covenant) : ∀ v, .const v ∈ c.script.nodes → Scalar v := by
  cases c with
  | multisig2of2 pkA pkB =>
    exact ofCalls_scalars <|
      .bind (sigCheck_scalars pkA) fun _ => .bind (sigCheck_scalars pkB) fun _ => and_scalars _ _
  | multisig1of2 pkA pkB =>
    exact ofCalls_scalars <|
      .bind (sigCheck_scalars pkA) fun _ => .bind (sigCheck_scalars pkB) fun _ => select_scalars _ _
  | multisig2of3 pkA pkB pkC =>
    exact ofCalls_scalars <|
      .bind (sigCheck_scalars pkA) fun _ => .bind (sigCheck_scalars pkB) fun _ =>
      .bind (and_scalars _ _) fun _ =>
      .bind (sigCheck_scalars pkA) fun _ => .bind (sigCheck_scalars pkC) fun _ =>
      .bind (and_scalars _ _) fun _ =>
      .bind (sigCheck_scalars pkB) fun _ => .bind (sigCheck_scalars pkC) fun _ =>
      .bind (and_scalars _ _) fun _ => selectNested_scalars _ _ _
  | escrow partyA partyB arbiter timeoutHeight =>
    exact ofCalls_scalars <|
      .bind (sigCheck_scalars partyA) fun _ => .bind (sigCheck_scalars partyB) fun _ =>
      .bind (and_scalars _ _) fun _ => .bind (sigCheck_scalars arbiter) fun _ =>
      .bind (heightGt_scalars timeoutHeight) fun _ => .bind (sigCheck_scalars partyA) fun _ =>
      .bind (and_scalars _ _) fun _ => selectNested_scalars _ _ _
  | vault primaryKey recoveryKey locktime =>
    exact ofCalls_scalars <|
      .bind (heightGt_scalars locktime) fun _ => .bind (sigCheck_scalars primaryKey) fun _ =>
      .bind (and_scalars _ _) fun _ => .bind (sigCheck_scalars recoveryKey) fun _ => select_scalars _ _
  | delegation ownerKey delegateKey expiryHeight =>
    exact ofCalls_scalars <|
      .bind (sigCheck_scalars ownerKey) fun _ => .bind (sigCheck_scalars delegateKey) fun _ =>
      .bind (heightLt_scalars expiryHeight) fun _ => .bind (and_scalars _ _) fun _ => select_scalars _ _
  | close channel closeHeight publisher =>
    exact ofCalls_scalars <|
      .bind (sigCheck_scalars channel.partyA) fun _ => .bind (sigCheck_scalars channel.partyB) fun _ =>
      .bind (and_scalars _ _) fun _ => .bind (heightGt_scalars _) fun _ =>
      .bind (sigCheck_scalars publisher) fun _ => .bind (and_scalars _ _) fun _ => select_scalars _ _
  | dispute channel closeHeight =>
    exact ofCalls_scalars <|
      .bind (sigCheck_scalars channel.partyA) fun _ => .bind (sigCheck_scalars channel.partyB) fun _ =>
      .bind (and_scalars _ _) fun _ => .bind (heightLt_scalars _) fun _ =>
      .bind (and_scalars _ _) fun _ =>
      .bind (sigCheck_scalars channel.partyA) fun _ => .bind (sigCheck_scalars channel.partyB) fun _ =>
      .bind (and_scalars _ _) fun _ => select_scalars _ _

theorem script_count (c : Covenant) : c.script.nodes.length ≤ maxScriptNodes := by
  cases c with
  | close channel closeHeight publisher =>
    simp only [Covenant.script, PaymentChannel.closeScript]
    generalize channel.windowEnd closeHeight = height
    cbv
  | dispute channel closeHeight =>
    simp only [Covenant.script, PaymentChannel.disputeScript]
    generalize channel.windowEnd closeHeight = height
    cbv
  | _ => cbv

theorem compiles (c : Covenant) : Compiles c.script c.policy where
  examined := examine_script c
  affordable := affordable_script c
  scalars := script_scalars c
  count := script_count c
  levels := by cases c <;> simp [Covenant.policy, choiceLevels, maxValueDepth]

/-- Every template makes scripts that lock an output and accept exactly what meets their policy. -/
theorem templates_accept [Crypto] (c : Covenant) :
    AcceptsExactly c.script fun context => c.policy.Met context :=
  (compiles c).accepts

end Exfer.Proof.Covenants
