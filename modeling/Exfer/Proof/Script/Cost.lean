import Exfer.Lib.Spending
import Exfer.Proof.Script.Admission
import Exfer.Proof.Script.Frames
import Exfer.Spec.Script.Cost
import Mathlib.Algebra.Order.Monoid.Prod

/-!
# The static cost of scripts

The static cost is the sum of what each visit of a node may spend (`exists_costOf`). So it bounds what an
evaluation spends, along every run, as long as lists and jets stay within its estimates
(`computeCost_bounds`).
-/

namespace Exfer.Proof.Script

open Lib Lib.StackMachine Impl Impl.Script Impl.Script.Program
open Spec.Script

variable {n k : Nat} {f c : ScriptCost} {node : Combinator} {s : EvalState}

/-! ## The cost of a node -/

/-- Cells and steps. -/
abbrev Price := Nat × Nat

/-- The cells and steps of a cost. -/
def priceOf (c : ScriptCost) : Price :=
  (c.cells, c.steps)

/-- What a visit of a node may spend, with the price of its children and the length of lists. -/
def estimate (n : Nat) (price : NodeId → Price) : Combinator → Price
  | .iden | .unit | .witness => (0, 1)
  | .comp f g => price f + price g + (0, 1)
  | .pair f g => price f + price g + (1, 1)
  | .take f | .drop f => price f + (0, 1)
  | .injL f | .injR f => price f + (1, 1)
  | .case f g => (price f ⊔ price g) + (1, 1)
  | .fold f z k => price z + k.toNat • (price f + (0, 1)) + (0, 1)
  | .listFold f z => price z + n • (price f + (0, 1)) + (0, 1)
  | .jet id => (id.jetCost.2, id.jetCost.1)
  | .merkleHidden _ => 0
  | .const v => (1 + max ((v.serialize.length + 63) / 64) 1, 1 + max ((v.serialize.length + 63) / 64) 1)

theorem eq_of_checkedAdd (h : checkedAdd a b = .ok r) : r = a + b := by
  unfold checkedAdd at h
  split at h
  · exact (Except.ok.inj h).symm
  · cases h

theorem eq_of_checkedMul (h : checkedMul a b = .ok r) : r = a * b := by
  unfold checkedMul at h
  split at h
  · exact (Except.ok.inj h).symm
  · cases h

theorem priceOf_loopCost (h : loopCost f z n = .ok c) :
    priceOf c = priceOf z + n • (priceOf f + (0, 1)) + (0, 1) := by
  obtain ⟨fCells, hfCells, h⟩ := bind_eq_ok.mp h
  obtain ⟨cells, hcells, h⟩ := bind_eq_ok.mp h
  obtain ⟨round, hround, h⟩ := bind_eq_ok.mp h
  obtain ⟨fSteps, hfSteps, h⟩ := bind_eq_ok.mp h
  obtain ⟨sum, hsum, h⟩ := bind_eq_ok.mp h
  obtain ⟨steps, hsteps, h⟩ := bind_eq_ok.mp h
  cases h
  rw [eq_of_checkedAdd hcells, eq_of_checkedMul hfCells, eq_of_checkedAdd hsteps, eq_of_checkedAdd hsum,
    eq_of_checkedMul hfSteps, eq_of_checkedAdd hround]
  refine Prod.ext ?_ ?_
  · show z.cells + f.cells * n = z.cells + n * f.cells
    rw [Nat.mul_comm]
  · show z.steps + (f.steps + 1) * n + 1 = z.steps + n * (f.steps + 1) + 1
    rw [Nat.mul_comm]

theorem priceOf_addStep
    (h : (do let steps ← checkedAdd f.steps 1; return { cells := f.cells, steps } : Except CostError
      ScriptCost) = .ok c) :
    priceOf c = priceOf f + (0, 1) := by
  obtain ⟨steps, hsteps, h⟩ := bind_eq_ok.mp h
  cases h
  rw [eq_of_checkedAdd hsteps]
  rfl

theorem priceOf_addBoth
    (h : (do let cells ← checkedAdd cells 1; let steps ← checkedAdd steps 1; return { cells, steps }
      : Except CostError ScriptCost) = .ok c) : priceOf c = (cells, steps) + (1, 1) := by
  obtain ⟨cells', hcells, h⟩ := bind_eq_ok.mp h
  obtain ⟨steps', hsteps, h⟩ := bind_eq_ok.mp h
  cases h
  rw [eq_of_checkedAdd hcells, eq_of_checkedAdd hsteps]
  rfl

/-- The cost of a node is the estimate from the costs of its children. -/
theorem priceOf_nodeCost (hchild : ∀ child cost, childCost i later child = .ok cost → price child = priceOf cost)
    (h : nodeCost n i node later = .ok c) : priceOf c = estimate n price node := by
  cases node with
  | iden | unit | witness => cases h; rfl
  | merkleHidden hash => cases h; rfl
  | jet id => cases h; rfl
  | comp f g =>
    obtain ⟨fc, hf, h⟩ := bind_eq_ok.mp h
    obtain ⟨gc, hg, h⟩ := bind_eq_ok.mp h
    obtain ⟨cells, hcells, h⟩ := bind_eq_ok.mp h
    obtain ⟨sum, hsum, h⟩ := bind_eq_ok.mp h
    obtain ⟨steps, hsteps, h⟩ := bind_eq_ok.mp h
    cases h
    rw [estimate, hchild f fc hf, hchild g gc hg, eq_of_checkedAdd hcells, eq_of_checkedAdd hsteps,
      eq_of_checkedAdd hsum]
    rfl
  | pair f g =>
    obtain ⟨fc, hf, h⟩ := bind_eq_ok.mp h
    obtain ⟨gc, hg, h⟩ := bind_eq_ok.mp h
    obtain ⟨sumCells, hsumCells, h⟩ := bind_eq_ok.mp h
    obtain ⟨cells, hcells, h⟩ := bind_eq_ok.mp h
    obtain ⟨sum, hsum, h⟩ := bind_eq_ok.mp h
    obtain ⟨steps, hsteps, h⟩ := bind_eq_ok.mp h
    cases h
    rw [estimate, hchild f fc hf, hchild g gc hg, eq_of_checkedAdd hcells, eq_of_checkedAdd hsumCells,
      eq_of_checkedAdd hsteps, eq_of_checkedAdd hsum]
    rfl
  | take f | drop f =>
    obtain ⟨fc, hf, h⟩ := bind_eq_ok.mp h
    rw [estimate, hchild f fc hf]
    exact priceOf_addStep h
  | injL f | injR f =>
    obtain ⟨fc, hf, h⟩ := bind_eq_ok.mp h
    rw [estimate, hchild f fc hf]
    exact priceOf_addBoth h
  | case f g =>
    obtain ⟨fc, hf, h⟩ := bind_eq_ok.mp h
    obtain ⟨gc, hg, h⟩ := bind_eq_ok.mp h
    rw [estimate, hchild f fc hf, hchild g gc hg]
    exact priceOf_addBoth h
  | fold f z k | listFold f z =>
    obtain ⟨fc, hf, h⟩ := bind_eq_ok.mp h
    obtain ⟨zc, hz, h⟩ := bind_eq_ok.mp h
    rw [estimate, hchild f fc hf, hchild z zc hz]
    exact priceOf_loopCost h
  | const v =>
    obtain ⟨cells, hcells, h⟩ := bind_eq_ok.mp h
    obtain ⟨steps, hsteps, h⟩ := bind_eq_ok.mp h
    cases h
    rw [eq_of_checkedAdd hcells, eq_of_checkedAdd hsteps]
    rfl

/-- The prices that `compute_cost` computes: that of a node is the estimate from those of its
children. -/
theorem exists_prices {p : Program} {sizes : ListSizes} (h : p.computeCost sizes = .ok c) :
    ∃ price : NodeId → Price, price p.root = priceOf c ∧
      ∀ i node, p.get i = some node →
        price i = estimate (max sizes.inputCount sizes.outputCount) price node := by
  unfold computeCost at h
  split at h
  · cases h
  · rename_i hvalid
    obtain ⟨costs, hcosts, h⟩ := bind_eq_ok.mp h
    split at h <;> cases h
    rename_i root hroot
    refine ⟨fun i => (costs[i]?.map priceOf).getD 0, by simp [hroot], fun i node hi => ?_⟩
    obtain ⟨cost, hcost, hstep⟩ := bottomUp_step hcosts hi
    rw [Nat.zero_add] at hstep
    simp only [hcost, Option.map_some, Option.getD_some]
    refine priceOf_nodeCost (fun child cost hchild => ?_) hstep
    unfold childCost at hchild
    split at hchild
    · rename_i found hfound
      cases hchild
      by_cases hlt : i < child
      · rw [laterResult_drop hlt] at hfound
        simp [hfound]
      · rw [laterResult, if_pos (Nat.not_lt.mp hlt)] at hfound
        cases hfound
    · cases hchild

/-! ## What an evaluation spends -/

/-- What is left of the budget. -/
def budgetLeft (s : EvalState) : Price :=
  (s.budget.cellsRemaining, s.budget.stepsRemaining)

section primitives

variable {n : Price}

theorem consumeSteps_spends (k : Nat) : Spends budgetLeft (n + (0, k)) (consumeSteps k) fun _ => n := by
  refine .of_meets fun _ => .get ?_
  rintro s rfl
  split
  · exact .throw fun _ h => h ▸ le_self_add
  · refine .set ⟨?_, ?_⟩
    · show s.budget.cellsRemaining + n.1 ≤ s.budget.cellsRemaining + (n.1 + 0)
      omega
    · show s.budget.stepsRemaining + n.2 ≤ s.budget.stepsRemaining - k + (n.2 + k)
      omega

theorem consumeSteps_fails (h : s.budget.stepsRemaining < k) : consumeSteps k s = .error .budgetExceeded s := by
  show (if s.budget.stepsRemaining < k then throw .budgetExceeded
    else set { s with budget := { s.budget with stepsRemaining := s.budget.stepsRemaining - k } } :
    EvalM Unit) s = _
  rw [if_pos h]
  rfl

theorem consumeStep_spends : Spends budgetLeft (n + (0, 1)) consumeStep fun _ => n :=
  consumeSteps_spends 1

theorem consumeCell_spends : Spends budgetLeft (n + (1, 0)) consumeCell fun _ => n := by
  refine .of_meets fun _ => .get ?_
  rintro s rfl
  split
  · exact .throw fun _ h => h ▸ le_self_add
  · refine .set ⟨?_, ?_⟩
    · show s.budget.cellsRemaining + n.1 ≤ s.budget.cellsRemaining - 1 + (n.1 + 1)
      omega
    · show s.budget.stepsRemaining + n.2 ≤ s.budget.stepsRemaining + (n.2 + 0)
      omega

/-- A step and a cell. -/
theorem consumeBoth_spends {α : Type} {f : EvalM α} {after : α → Price} (hf : Spends budgetLeft n f after) :
    Spends budgetLeft (n + (1, 1)) (do consumeStep; consumeCell; f) after := by
  have hsum : n + (1, 1) = n + (1, 0) + (0, 1) := by rw [add_assoc]; rfl
  exact consumeStep_spends.bind fun _ => consumeCell_spends.bind fun _ => hf

theorem trackMemory_spends (size : Nat) : Spends budgetLeft n (trackMemory size) fun _ => n := by
  refine .of_same fun x => .get fun s hs => ?_
  refine .bind (Q := fun _ t => budgetLeft t = x) (.set hs) fun _ => ?_
  split
  · exact .throw fun _ h => h
  · exact .pure fun _ h => h

theorem releaseMemory_spends (size : Nat) : Spends budgetLeft n (releaseMemory size) fun _ => n :=
  .of_same fun _ => .modify fun _ h => h

theorem produce_spends (v : Value) : Spends budgetLeft n (produce v) fun _ => n :=
  .of_same fun _ _ h => h

theorem readValue_spends (witness : List UInt8) : Spends budgetLeft n (readValue witness) fun _ => n := by
  refine .of_same fun x => .get fun s hs => ?_
  split
  · exact .throw fun _ h => h ▸ hs
  split
  · exact .throw fun _ h => h ▸ hs
  · exact .bind (Q := fun _ t => budgetLeft t = x) (.set hs) fun _ => .pure fun _ h => h

theorem readTypedValue_spends (witness : List UInt8) (expected : Ty) :
    Spends budgetLeft n (readTypedValue witness expected) fun _ => n := by
  refine (readValue_spends witness).bind fun v => ?_
  split
  · exact .throw _
  · exact .pure le_rfl

end primitives

section

variable [Crypto] {p : Program} {context : ScriptContext} {typed : List TypedNode}
  {witness : List UInt8} (price : NodeId → Price)

/-- What a call may spend. -/
def priceOfCall : EvalCall → Price
  | .node _ id _ => price id
  | .foldCopied _ f z k _ _ => price z + k • (price f + (0, 1))

/-- What a waiting call may still spend once it has its result. -/
def priceOfFrame : EvalFrame → Price
  | .compFirst _ g | .pairLeft _ g _ => price g
  | .foldInit _ f k _ | .foldStep _ f k _ _ => k • (price f + (0, 1))
  | .listInit _ f list _ => list.length • (price f + (0, 1))
  | .listStep _ f _ rest _ _ => rest.length • (price f + (0, 1))
  | .compSecond _ | .pairRight _ | .pass | .injL | .injR => 0

/-- What may still be spent after an outcome. -/
abbrev priceAfter : EvalOutcome → Price :=
  keptAfter (priceOfCall price) (priceOfFrame price)

variable {price} {n : Price} {levels : Nat}

section

omit [Crypto]

theorem returnValue_spends (v : Value) : Spends budgetLeft n (returnValue v) (priceAfter price) :=
  (produce_spends v).bind fun _ => .pure zero_le

/-- The last steps of a call, which spend nothing. -/
theorem trackMemory_return_spends (size : Nat) (v : Value) :
    Spends budgetLeft n (do trackMemory size; returnValue v) (priceAfter price) :=
  (trackMemory_spends size).bind fun _ => returnValue_spends v

theorem endFold_spends (prevStepHeap : Nat) (acc : Value) :
    Spends budgetLeft n (endFold prevStepHeap acc) (priceAfter price) :=
  (releaseMemory_spends prevStepHeap).bind fun _ => returnValue_spends acc

theorem beginRound_spends (elem : Value) (prevStepHeap : Nat) (acc : Value) :
    Spends budgetLeft (n + (0, 1)) (beginRound elem prevStepHeap acc) fun _ => n :=
  consumeStep_spends.bind fun _ => (releaseMemory_spends prevStepHeap).bind fun _ =>
    (trackMemory_spends _).bind fun _ => produce_spends _

/-- A round of a loop, and what is kept for the rounds after it. -/
theorem round_spends {f : NodeId} {prevStepHeap : Nat} {elem acc : Value} {frame : Value → EvalFrame}
    (hframe : ∀ v, priceOfFrame price (frame v) = k • (price f + (0, 1))) :
    Spends budgetLeft ((k + 1) • (price f + (0, 1)))
      (do let stepInput ← beginRound elem prevStepHeap acc
          return .wait (frame stepInput) (.node levels f stepInput)) (priceAfter price) := by
  rw [succ_nsmul, ← add_assoc]
  refine (beginRound_spends elem prevStepHeap acc).bind fun v => .pure ?_
  show priceOfFrame price (frame v) + price f ≤ _
  rw [hframe]

theorem resumeFrame_spends (frame : EvalFrame) (v : Value) :
    Spends budgetLeft (priceOfFrame price frame) (resumeFrame frame v) (priceAfter price) := by
  have hfold (levels : Nat) (f : NodeId) (init : Value) (prevStepHeap k : Nat) :
      Spends budgetLeft (k • (price f + (0, 1))) (nextFold levels f init prevStepHeap v k)
        (priceAfter price) := by
    cases k with
    | zero => exact endFold_spends prevStepHeap v
    | succ k => exact round_spends fun _ => rfl
  have hlist (levels : Nat) (f : NodeId) (list : List Value) (init : Value) (prevStepHeap : Nat)
      (rest : List Value) : Spends budgetLeft (rest.length • (price f + (0, 1)))
        (nextListFold levels f list init prevStepHeap v rest) (priceAfter price) := by
    cases rest with
    | nil => exact endFold_spends prevStepHeap v
    | cons elem rest => exact round_spends fun _ => rfl
  cases frame with
  | compFirst levels g => exact .pure (zero_add (price g)).le
  | compSecond mid => exact endFold_spends mid.heapSize v
  | pairLeft levels g input => exact .pure (zero_add (price g)).le
  | pairRight left => exact trackMemory_return_spends _ _
  | pass => exact returnValue_spends v
  | injL | injR => exact trackMemory_return_spends _ _
  | foldInit levels f k init => exact hfold levels f init 0 k
  | foldStep levels f k init stepInput => exact hfold levels f init stepInput.heapSize k
  | listInit levels f list init => exact hlist levels f list init 0 list
  | listStep levels f list rest init stepInput => exact hlist levels f list init stepInput.heapSize rest

theorem callBranch_spends (h : price branch ≤ n) :
    Spends budgetLeft n (callBranch typed levels side branch payload) (priceAfter price) := by
  have hwait : Spends budgetLeft n (pure (.wait .pass (.node levels branch payload)) : EvalM EvalOutcome)
      (priceAfter price) := .pure ((zero_add (price branch)).trans_le h)
  unfold callBranch
  split
  · split
    · exact .throw _
    · exact hwait
  · exact hwait

end

/-- A call spends within the estimate of its node. -/
theorem callCombinator_spends {size : Nat} {id : NodeId} {input : Value}
    (hlist : ∀ f z, node = .listFold f z → s.budget.stepsRemaining ≠ 0 → ∀ elems init, input = .pair
      (.list elems) init → elems.length ≤ size)
    (hjet : ∀ jet, node = .jet jet → jet.runtimeCost input context ≤ s.budget.stepsRemaining →
      jet.runtimeCost input context ≤ jet.jetCost.1) : SpendsFrom budgetLeft s (estimate size price node)
      (callCombinator context typed witness levels id node input) (priceAfter price) := by
  cases node with
  | iden => exact (zero_add (0, 1) ▸ consumeStep_spends s).bind fun _ => trackMemory_return_spends _ _
  | unit => exact (zero_add (0, 1) ▸ consumeStep_spends s).bind fun _ => returnValue_spends _
  | comp f g =>
    refine (consumeStep_spends s).bind fun _ => .pure ?_
    exact (add_comm (price g) (price f)).le
  | pair f g =>
    refine consumeBoth_spends (.pure ?_) s
    exact (add_comm (price g) (price f)).le
  | take f | drop f =>
    refine (consumeStep_spends s).bind fun _ => ?_
    split
    · exact .pure (zero_add (price f)).le
    · exact .throw _
  | injL f | injR f =>
    refine consumeBoth_spends (.pure ?_) s
    exact (zero_add (price f)).le
  | case f g =>
    have hle : (price f ⊔ price g) + (0, 1) ≤ (price f ⊔ price g) + (1, 1) :=
      add_le_add_right (by decide) _
    refine (consumeStep_spends.mono hle s).bind fun _ => ?_
    split
    · exact callBranch_spends le_sup_left
    · exact callBranch_spends le_sup_right
    · rename_i b
      split
      · refine .pure ((zero_add _).trans_le ?_)
        split
        · exact le_sup_right
        · exact le_sup_left
      · exact .throw _
    · exact .throw _
  | fold f z k =>
    refine (consumeStep_spends s).bind fun _ => ?_
    split
    · exact .pure le_rfl
    · exact .throw _
  | listFold f z =>
    by_cases hsteps : s.budget.stepsRemaining = 0
    · exact .fails (consumeSteps_fails (by omega))
    · refine (consumeStep_spends s).bind fun _ => ?_
      split
      · rename_i elems init
        refine .pure ?_
        have hle := hlist f z rfl hsteps elems init rfl
        show elems.length • (price f + (0, 1)) + price z ≤ price z + size • (price f + (0, 1))
        rw [add_comm]
        exact add_le_add_right (nsmul_le_nsmul_left zero_le hle) _
      · exact .throw _
      · exact .throw _
  | jet jet =>
    by_cases hpay : jet.runtimeCost input context ≤ s.budget.stepsRemaining
    · have hle := hjet jet rfl hpay
      have hprice : (jet.jetCost.2, jet.jetCost.1 - jet.runtimeCost input context) +
          (0, jet.runtimeCost input context) = estimate size price (.jet jet) :=
        Prod.ext rfl (Nat.sub_add_cancel hle)
      rw [← hprice]
      refine (consumeSteps_spends _ s).bind fun _ => ?_
      split
      · exact .throw _
      · exact trackMemory_return_spends _ _
    · exact .fails (consumeSteps_fails (Nat.not_le.mp hpay))
  | witness =>
    refine (zero_add (0, 1) ▸ consumeStep_spends s).bind fun _ => ?_
    exact (readTypedValue_spends witness _).bind fun _ => trackMemory_return_spends _ _
  | merkleHidden hash => exact Spends.throw _ s
  | const v =>
    have hle : 0 + (0, 1) ≤ estimate size price (.const v) := ⟨Nat.zero_le _, Nat.le_add_right 1 _⟩
    exact (consumeStep_spends.mono hle s).bind fun _ => trackMemory_return_spends _ _

variable {sizes : ListSizes}

theorem callNode_spends (hprice : ∀ i node, p.get i = some node → price i = estimate (max sizes.inputCount
      sizes.outputCount) price node) {c : EvalCall} {stack : List EvalFrame}
    (hwithin : WithinEstimates p context sizes (.calling c stack s)) :
    SpendsFrom budgetLeft s (priceOfCall price c) (callNode p context typed witness c)
      (priceAfter price) := by
  match c with
  | .node 0 id input => exact Spends.throw _ s
  | .foldCopied levels f z k first init =>
    refine Spends.pure ?_ s
    exact (add_comm _ (price z)).le
  | .node (levels + 1) id input =>
    show SpendsFrom budgetLeft s (price id) _ _
    unfold callNode
    dsimp only
    split
    · exact Spends.throw _ s
    rename_i node hnode
    rw [hprice id node hnode]
    simp only [WithinEstimates, hnode] at hwithin
    refine callCombinator_spends ?_ ?_
    · rintro f z rfl
      exact hwithin
    · rintro jet rfl
      exact hwithin

/-- An evaluation within the estimates of the static cost spends no more cells and steps than that, up
to every point, whether it returns or fails. -/
theorem computeCost_bounds {c : ScriptCost} (hcost : p.computeCost sizes = .ok c) (input : Value)
    (s : EvalState) (hwithin : ∀ typed, typecheck p = .ok typed → ∀ c,
      (evalMachine p context typed witness).Reaches
        (.calling (.node (maxEvalDepth + 1) p.root input) [] s) c → WithinEstimates p context sizes c) :
    (∀ typed, typecheck p = .ok typed → ∀ c', (evalMachine p context typed witness).Reaches
        (.calling (.node (maxEvalDepth + 1) p.root input) [] s) c' → ConsumesAtMost c s c'.state) ∧
    ConsumesAtMost c s (endState (evaluateWithContext p context witness input s)) := by
  obtain ⟨price, hroot, hprice⟩ := exists_prices hcost
  have hspent (typed : List TypedNode) (htyped : typecheck p = .ok typed) (c' : EvalPoint)
      (hreach : (evalMachine p context typed witness).Reaches
        (.calling (.node (maxEvalDepth + 1) p.root input) [] s) c') : ConsumesAtMost c s c'.state := by
    have hspends : budgetLeft s + keptAt (priceOfCall price) (priceOfFrame price) c' ≤
        budgetLeft c'.state + price p.root :=
      spends_of_reaches (fun _ _ _ h => callNode_spends hprice (hwithin typed htyped _ h))
        resumeFrame_spends hreach
    rw [hroot] at hspends
    exact le_self_add.trans hspends
  refine ⟨hspent, ?_⟩
  cases htyped : typecheck p with
  | error e =>
    unfold evaluateWithContext
    rw [htyped]
    exact ⟨Nat.le_add_right _ _, Nat.le_add_right _ _⟩
  | ok typed =>
    have hdoes : (evalMachine p context typed witness).Does
        (.calling (.node (maxEvalDepth + 1) p.root input))
        (evalNode p context typed witness (maxEvalDepth + 1) p.root input) := evalMachine_does _ _ _
    have hends := hdoes [] s
    rw [evaluateWithContext_eq htyped]
    cases hrun : evalNode p context typed witness (maxEvalDepth + 1) p.root input s with
    | error e s' =>
      rw [hrun] at hends
      obtain ⟨stack, hfails⟩ := hends
      exact hspent typed htyped _ hfails
    | ok v s' =>
      rw [hrun] at hends
      have hstate : endState (if s'.pos < witness.length then
          .error (.witnessError ("unconsumed witness bytes: " ++ toString s'.pos ++ " of " ++
            toString witness.length ++ " consumed")) s'
        else .ok v s') = s' := by split <;> rfl
      rw [hstate]
      exact hspent typed htyped _ hends

end

/-- The index of the input that is being spent. -/
def ownIndex : Program where
  nodes := [.comp 1 2, .unit, .jet .selfIndex]
  root := 0

/-- The bound for a program with a jet of fixed cost. -/
theorem computeCost_bounds_ownIndex : let _ := Crypto.ofHash fun _ => Hash256.zero
    let s := EvalState.new (Budget.new 100 100)
    ownIndex.computeCost ⟨1, 1⟩ = .ok ⟨0, 7⟩ ∧
    ConsumesAtMost ⟨0, 7⟩ s (endState (evaluateWithContext ownIndex ⟨[], [], 0, 0, []⟩ [] .unit s)) := by
  intro _ s
  have hcost : ownIndex.computeCost ⟨1, 1⟩ = .ok ⟨0, 7⟩ := by rfl
  refine ⟨hcost, (computeCost_bounds hcost .unit s fun _ _ c _ => ?_).2⟩
  match c with
  | .returning _ _ _ => trivial
  | .failed _ _ _ => trivial
  | .calling (.foldCopied _ _ _ _ _ _) _ _ => trivial
  | .calling (.node 0 _ _) _ _ => trivial
  | .calling (.node (_ + 1) 0 _) _ _ => trivial
  | .calling (.node (_ + 1) 1 _) _ _ => trivial
  | .calling (.node (_ + 1) 2 _) _ _ => exact fun _ => le_rfl
  | .calling (.node (_ + 1) (_ + 3) _) _ _ => trivial

end Exfer.Proof.Script
