import Exfer.Proof.Script.Admission
import Exfer.Impl.Validation.Transaction

/-!
# The static cost and the list sizes

The static cost grows with the list sizes, and an overflow stays one (`computeCost_under`,
`computeCost_overflow`). A transaction that spends an output has an input, so the list sizes at which
its script was admitted are the least it can be spent with: a script that is not admitted for its cost
could not be spent (`cost_rejected_unspendable`).
-/

namespace Exfer.Proof.Script

open Lib Impl Impl.Script Impl.Script.Program

variable {a b n i : Nat} {later : List ScriptCost} {sizes sizes' : ListSizes}

/-! ## Growth -/

/-- At most the cells and at most the steps. -/
def CostLe (c c' : ScriptCost) : Prop :=
  c.cells ≤ c'.cells ∧ c.steps ≤ c'.steps

theorem checkedAdd_under (ha : a ≤ a') (hb : b ≤ b') : Under (· ≤ ·) (checkedAdd a b) (checkedAdd a' b') := by
  unfold checkedAdd
  by_cases h : a' + b' < 2 ^ 64
  · rw [if_pos h, if_pos (by omega)]
    exact .ok (by omega)
  · rw [if_neg h]
    exact .error _ _

theorem checkedMul_under (ha : a ≤ a') (hb : b ≤ b') : Under (· ≤ ·) (checkedMul a b) (checkedMul a' b') := by
  have hle : a * b ≤ a' * b' := Nat.mul_le_mul ha hb
  unfold checkedMul
  by_cases h : a' * b' < 2 ^ 64
  · rw [if_pos h, if_pos (hle.trans_lt h)]
    exact .ok hle
  · rw [if_neg h]
    exact .error _ _

theorem loopCost_under (hf : CostLe f f') (hz : CostLe z z') (hn : n ≤ n') :
    Under CostLe (loopCost f z n) (loopCost f' z' n') := by
  refine (checkedMul_under hf.1 hn).bind fun _ _ hfCells => ?_
  refine (checkedAdd_under hz.1 hfCells).bind fun _ _ hcells => ?_
  refine (checkedAdd_under hf.2 le_rfl).bind fun _ _ hround => ?_
  refine (checkedMul_under hround hn).bind fun _ _ hfSteps => ?_
  refine (checkedAdd_under hz.2 hfSteps).bind fun _ _ hsum => ?_
  refine (checkedAdd_under hsum le_rfl).bind fun _ _ hsteps => ?_
  exact .ok ⟨hcells, hsteps⟩

/-- The cost of a node grows with those of its children and the list sizes. -/
theorem nodeCost_under (hn : n ≤ n') (node : Combinator)
    (h : ∀ c, Under CostLe (childCost i later c) (childCost i later' c)) :
    Under CostLe (nodeCost n i node later) (nodeCost n' i node later') := by
  have hsame (c : ScriptCost) : Under CostLe (.ok c : Except CostError ScriptCost)
      (.ok c : Except CostError ScriptCost) :=
    .ok ⟨le_rfl, le_rfl⟩
  cases node with
  | iden | unit | witness => exact hsame _
  | merkleHidden hash => exact hsame _
  | jet id => exact hsame _
  | comp f g =>
    refine (h f).bind fun _ _ hf => (h g).bind fun _ _ hg => ?_
    refine (checkedAdd_under hf.1 hg.1).bind fun _ _ hcells => ?_
    refine (checkedAdd_under hf.2 hg.2).bind fun _ _ hsum => ?_
    refine (checkedAdd_under hsum le_rfl).bind fun _ _ hsteps => ?_
    exact .ok ⟨hcells, hsteps⟩
  | pair f g =>
    refine (h f).bind fun _ _ hf => (h g).bind fun _ _ hg => ?_
    refine (checkedAdd_under hf.1 hg.1).bind fun _ _ hsumCells => ?_
    refine (checkedAdd_under hsumCells le_rfl).bind fun _ _ hcells => ?_
    refine (checkedAdd_under hf.2 hg.2).bind fun _ _ hsum => ?_
    refine (checkedAdd_under hsum le_rfl).bind fun _ _ hsteps => ?_
    exact .ok ⟨hcells, hsteps⟩
  | take f | drop f =>
    refine (h f).bind fun _ _ hf => ?_
    exact (checkedAdd_under hf.2 le_rfl).bind fun _ _ hsteps => .ok ⟨hf.1, hsteps⟩
  | injL f | injR f =>
    refine (h f).bind fun _ _ hf => ?_
    refine (checkedAdd_under hf.1 le_rfl).bind fun _ _ hcells => ?_
    exact (checkedAdd_under hf.2 le_rfl).bind fun _ _ hsteps => .ok ⟨hcells, hsteps⟩
  | case f g =>
    refine (h f).bind fun _ _ hf => (h g).bind fun _ _ hg => ?_
    refine (checkedAdd_under (max_le_max hf.1 hg.1) le_rfl).bind fun _ _ hcells => ?_
    refine (checkedAdd_under (max_le_max hf.2 hg.2) le_rfl).bind fun _ _ hsteps => ?_
    exact .ok ⟨hcells, hsteps⟩
  | fold f z k => exact (h f).bind fun _ _ hf => (h z).bind fun _ _ hz => loopCost_under hf hz le_rfl
  | listFold f z => exact (h f).bind fun _ _ hf => (h z).bind fun _ _ hz => loopCost_under hf hz hn
  | const v =>
    refine (checkedAdd_under le_rfl le_rfl).bind fun _ _ hcells => ?_
    exact (checkedAdd_under le_rfl le_rfl).bind fun _ _ hsteps => .ok ⟨hcells, hsteps⟩

theorem childCost_under (h : List.Forall₂ CostLe later later') (i : Nat) (c : NodeId) :
    Under CostLe (childCost i later c) (childCost i later' c) := by
  intro cost' hcost'
  unfold childCost at hcost' ⊢
  split at hcost' <;> cases hcost'
  rename_i found hfound
  unfold laterResult at hfound ⊢
  split at hfound
  · cases hfound
  · obtain ⟨cost, hcost, hle⟩ := forall₂_getElem? h hfound
    rw [if_neg ‹_›, hcost]
    exact ⟨cost, rfl, hle⟩

/-- The cost of a program grows with the list sizes. -/
theorem computeCost_under (p : Program)
    (h : max sizes.inputCount sizes.outputCount ≤ max sizes'.inputCount sizes'.outputCount) :
    Under CostLe (p.computeCost sizes) (p.computeCost sizes') := by
  unfold computeCost
  split
  · exact .error _ _
  · have hstep (i : Nat) (node : Combinator) (later later' : List ScriptCost)
        (hlater : List.Forall₂ CostLe later later') := nodeCost_under h node (childCost_under hlater i)
    refine (bottomUp_under hstep 0 p.nodes).bind fun costs costs' hcosts cost' hcost' => ?_
    split at hcost' <;> cases hcost'
    rename_i root hroot
    obtain ⟨cost, hcost, hle⟩ := forall₂_getElem? hcosts hroot
    rw [hcost]
    exact ⟨cost, rfl, hle⟩

/-! ## Overflow -/

theorem childCost_ok (hlt : i < c) (hlater : c < i + 1 + later.length) :
    ∃ cost, childCost i later c = .ok cost := by
  have hfound : later[c - i - 1]? = some (later.getD (c - i - 1) ⟨0, 0⟩) := by
    have hbound : c - i - 1 < later.length := by omega
    simp [hbound]
  unfold childCost laterResult
  rw [if_neg (Nat.not_le.mpr hlt), hfound]
  exact ⟨_, rfl⟩

theorem checkedAdd_raises (a b : Nat) : Raises (· = .overflow) (checkedAdd a b) := by
  unfold checkedAdd
  split
  · exact .ok _
  · exact .error rfl

theorem checkedMul_raises (a b : Nat) : Raises (· = .overflow) (checkedMul a b) := by
  unfold checkedMul
  split
  · exact .ok _
  · exact .error rfl

theorem loopCost_raises (f z : ScriptCost) (n : Nat) : Raises (· = .overflow) (loopCost f z n) :=
  (checkedMul_raises _ _).bind fun _ => (checkedAdd_raises _ _).bind fun _ =>
    (checkedAdd_raises _ _).bind fun _ => (checkedMul_raises _ _).bind fun _ =>
      (checkedAdd_raises _ _).bind fun _ => (checkedAdd_raises _ _).bind fun _ => .ok _

/-- Past the structural checks, the cost of a node can only overflow. -/
theorem nodeCost_raises (h : ∀ c ∈ node.children, ∃ cost, childCost i later c = .ok cost) :
    Raises (· = .overflow) (nodeCost n i node later) := by
  have hchild {c : NodeId} (hc : c ∈ node.children) : Raises (· = .overflow) (childCost i later c) := by
    obtain ⟨cost, hcost⟩ := h c hc
    rw [hcost]
    exact .ok _
  have hsum (a b : Nat) := checkedAdd_raises a b
  cases node with
  | iden | unit | witness => exact .ok _
  | merkleHidden hash => exact .ok _
  | jet id => exact .ok _
  | comp f g =>
    refine (hchild (.head _)).bind fun _ => ?_
    refine (hchild (.tail _ (.head _))).bind fun _ => ?_
    exact (hsum _ _).bind fun _ => (hsum _ _).bind fun _ => (hsum _ _).bind fun _ => .ok _
  | pair f g =>
    refine (hchild (.head _)).bind fun _ => ?_
    refine (hchild (.tail _ (.head _))).bind fun _ => ?_
    refine (hsum _ _).bind fun _ => (hsum _ _).bind fun _ => ?_
    exact (hsum _ _).bind fun _ => (hsum _ _).bind fun _ => .ok _
  | take f | drop f =>
    exact (hchild (.head _)).bind fun _ => (hsum _ _).bind fun _ => .ok _
  | injL f | injR f =>
    refine (hchild (.head _)).bind fun _ => ?_
    exact (hsum _ _).bind fun _ => (hsum _ _).bind fun _ => .ok _
  | case f g =>
    refine (hchild (.head _)).bind fun _ => ?_
    refine (hchild (.tail _ (.head _))).bind fun _ => ?_
    exact (hsum _ _).bind fun _ => (hsum _ _).bind fun _ => .ok _
  | fold f z k | listFold f z =>
    refine (hchild (.head _)).bind fun _ => ?_
    exact (hchild (.tail _ (.head _))).bind fun _ => loopCost_raises _ _ _
  | const v => exact (hsum _ _).bind fun _ => (hsum _ _).bind fun _ => .ok _

theorem bottomUp_raises {nodes : List Combinator}
    (h : ∀ (j : Nat) (node : Combinator), nodes[j]? = some node → ∀ c : Nat, c ∈ node.children → i +
      j < c ∧ c < i + nodes.length) : Raises (· = .overflow) (bottomUp (nodeCost n) i nodes) := by
  induction nodes generalizing i with
  | nil => exact .ok _
  | cons node nodes ih =>
    intro e he
    unfold bottomUp at he
    cases hlater : bottomUp (nodeCost n) (i + 1) nodes with
    | error e' =>
      rw [hlater] at he
      cases he
      refine ih (fun j node hj c hc => ?_) e hlater
      have hlt := h (j + 1) node hj c hc
      rw [List.length_cons] at hlt
      omega
    | ok later =>
      rw [hlater] at he
      have hlength := bottomUp_length hlater
      refine Raises.bind (nodeCost_raises fun c hc => ?_) (fun _ => .ok _) e he
      have hlt := h 0 node rfl c hc
      rw [List.length_cons] at hlt
      exact childCost_ok (by omega) (by omega)

/-- A cost that overflows does so at larger list sizes. -/
theorem computeCost_overflow {p : Program}
    (h : max sizes.inputCount sizes.outputCount ≤ max sizes'.inputCount sizes'.outputCount)
    (hover : p.computeCost sizes = .error .overflow) : p.computeCost sizes' = .error .overflow := by
  cases hcost : p.computeCost sizes' with
  | ok cost' =>
    obtain ⟨cost, hok, -⟩ := computeCost_under p h cost' hcost
    rw [hover] at hok
    cases hok
  | error e =>
    unfold computeCost at hover hcost
    split at hcost
    · rename_i msg hvalid
      rw [hvalid] at hover
      cases hover
    · rename_i hvalid
      have hwf := wellFormed_of_ok hvalid
      have hraises : Raises (· = CostError.overflow)
          (bottomUp (nodeCost (max sizes'.inputCount sizes'.outputCount)) 0 p.nodes) :=
        bottomUp_raises fun j node hj c hc => by simpa using hwf.children j node hj c hc
      cases hrun : bottomUp (nodeCost (max sizes'.inputCount sizes'.outputCount)) 0 p.nodes with
      | error e' =>
        rw [hrun] at hcost
        cases hcost
        rw [hraises e hrun]
      | ok costs =>
        have hlength := bottomUp_length hrun
        have hroot : p.root < costs.length := hlength ▸ hwf.root
        rw [hrun] at hcost
        simp only [bind, Except.bind, List.getElem?_eq_getElem hroot] at hcost
        cases hcost

/-! ## Admission and spending -/

/-- `validate_output_script` rejects a script for its cost: it passes every other check. -/
def RejectedForCost (output : TxOutput) : Prop :=
  ∃ p typed, deserializeProgram output.script = .ok p ∧ Admitted p typed ∧
    ∀ idx, validateOutputScript idx output = .error (.illTypedScript idx)

theorem RejectedForCost.cost (h : RejectedForCost output) : ∃ p, deserializeProgram output.script = .ok p ∧
      ∀ cost, p.computeCost ⟨1, 1⟩ = .ok cost → maxScriptSteps < cost.steps := by
  obtain ⟨p, typed, hprog, hchecks, hreject⟩ := h
  refine ⟨p, hprog, fun cost hcost => ?_⟩
  by_contra hsteps
  have hok := hchecks.validateOutputScript_eq hprog 0
  rw [hreject 0, hcost] at hok
  simp [hsteps] at hok

section

variable [Crypto] {idx : Nat} {context : ScriptContext}

omit [Crypto] in
theorem orScriptEvalFailed_eq_ok {α ε : Type} {reason : ε → String} {x : Except ε α} {a : α} :
    orScriptEvalFailed idx reason x = .ok a ↔ x = .ok a := by
  cases x <;> simp [orScriptEvalFailed]

/-- A script that unlocks an input has a cost within the limit. -/
theorem cost_of_validateScriptInput (h : validateScriptInput idx witness utxo context = .ok steps) :
    ∃ p cost, deserializeProgram utxo.script = .ok p ∧
      p.computeCost ⟨context.txInputs.length, context.txOutputs.length⟩ = .ok cost ∧
      cost.steps ≤ maxScriptSteps := by
  obtain ⟨p, hprog, h⟩ := bind_eq_ok.mp h
  obtain ⟨_, -, h⟩ := bind_eq_ok.mp h
  obtain ⟨_, -, h⟩ := bind_eq_ok.mp h
  obtain ⟨_, -, h⟩ := bind_eq_ok.mp h
  obtain ⟨cost, hcost, h⟩ := bind_eq_ok.mp h
  obtain ⟨_, hsteps, -⟩ := bind_eq_ok.mp h
  exact ⟨p, cost, orScriptEvalFailed_eq_ok.mp hprog, orScriptEvalFailed_eq_ok.mp hcost,
    Nat.not_lt.mp (failIf_eq_ok.mp hsteps)⟩

theorem length_txInputs [Network] (h : buildScriptContext tx s height = .ok context) :
    context.txInputs.length = tx.inputs.length := by
  obtain ⟨txInputs, hinputs, h⟩ := bind_eq_ok.mp h
  obtain ⟨sigHash, -, h⟩ := bind_eq_ok.mp h
  cases h
  have hlength := (mapM_eq_ok.mp hinputs).length_eq
  rw [List.length_zipIdx] at hlength
  exact hlength.symm

/-- The static cost grows with the list sizes, and an overflow stays one; so a script that is rejected as
an output's for its cost is rejected for every input of every transaction. -/
theorem cost_rejected_unspendable [Network] : (∀ (p : Program) (sizes sizes' : ListSizes),
      max sizes.inputCount sizes.outputCount ≤ max sizes'.inputCount sizes'.outputCount →
      (∀ cost', p.computeCost sizes' = .ok cost' → ∃ cost, p.computeCost sizes = .ok cost ∧
        cost.cells ≤ cost'.cells ∧ cost.steps ≤ cost'.steps) ∧
      (p.computeCost sizes = .error .overflow → p.computeCost sizes' = .error .overflow)) ∧
    ∀ output, RejectedForCost output →
      ∀ (tx : Transaction) (s : UtxoSet) (height : UInt64) (context : ScriptContext),
      buildScriptContext tx s height = .ok context → ∀ idx < tx.inputs.length,
      ∀ (witness : TxWitness) (utxo : TxOutput), utxo.script = output.script →
        ∃ e, validateScriptInput idx witness utxo context = .error e := by
  refine ⟨fun p sizes sizes' h => ⟨computeCost_under p h, computeCost_overflow h⟩, ?_⟩
  intro output hreject tx s height context hcontext idx hidx witness utxo hscript
  obtain ⟨p, hprog, hcostly⟩ := hreject.cost
  cases hspend : validateScriptInput idx witness utxo context with
  | error e => exact ⟨e, rfl⟩
  | ok steps =>
    obtain ⟨p', cost', hprog', hcost', hsteps⟩ := cost_of_validateScriptInput hspend
    rw [hscript, hprog] at hprog'
    cases hprog'
    -- the transaction has the input that spends the output
    have hsizes : max 1 1 ≤ max context.txInputs.length context.txOutputs.length := by
      rw [length_txInputs hcontext]
      omega
    have hunder : Under CostLe (p.computeCost ⟨1, 1⟩)
        (p.computeCost ⟨context.txInputs.length, context.txOutputs.length⟩) := computeCost_under p hsizes
    obtain ⟨cost, hcost, hle⟩ := hunder cost' hcost'
    have hlt := hcostly cost hcost
    have hle' : cost.steps ≤ cost'.steps := hle.2
    omega

end

/-- A fold of too many rounds. -/
def costlyFold : Program where
  nodes := [.comp 1 4, .pair 2 3, .witness, .const (.bool true), .fold 5 8 4000000, .injL 6, .drop 7, .iden,
    .const (.bool false)]
  root := 0

/-- No transaction can spend an output with this script, which is not admitted for its cost. -/
theorem costlyFold_unspendable : let _ := Crypto.ofHash fun _ => Hash256.zero
    let _ : Network := ⟨false, 1, Hash256.zero, .inr rfl⟩
    let output := ⟨500, costlyFold.serializeProgram, none, none⟩
    RejectedForCost output ∧
    ∀ (tx : Transaction) (s : UtxoSet) (height : UInt64) (context : ScriptContext),
      buildScriptContext tx s height = .ok context → ∀ idx < tx.inputs.length,
      ∀ witness, ∃ e, validateScriptInput idx witness output context = .error e := by
  intro _ _ output
  have hprog : deserializeProgram output.script = .ok costlyFold := by rfl
  have hchecks : Admitted costlyFold _ := ⟨rfl, rfl, rfl, rfl, rfl, by decide⟩
  have hcost : costlyFold.computeCost ⟨1, 1⟩ = .ok ⟨4000005, 16000008⟩ := by rfl
  have hreject : RejectedForCost output := by
    refine ⟨costlyFold, _, hprog, hchecks, fun idx => ?_⟩
    rw [hchecks.validateOutputScript_eq hprog, hcost]
    exact if_pos (by decide)
  refine ⟨hreject, fun tx s height context hcontext idx hidx witness => ?_⟩
  exact cost_rejected_unspendable.2 output hreject tx s height context hcontext idx hidx witness output rfl

end Exfer.Proof.Script
