import Exfer.Spec.Script.Memory

/-!
# The estimates of the static cost

What the static cost of a script assumes of an evaluation: the length of the lists that `ListFold` goes
through, and the cost of jets.
-/

namespace Exfer.Spec.Script

open Lib Impl Impl.Script

/-- A call of `ListFold`, if it has a step left, is on a list within the list sizes, and a jet that is
run, since its cost can be paid, costs at most its static cost. -/
def WithinEstimates (p : Program) (context : ScriptContext) (sizes : Program.ListSizes) : EvalPoint → Prop
  | .calling (.node (_ + 1) id input) _ s =>
    match p.get id with
    | some (.listFold _ _) => s.budget.stepsRemaining ≠ 0 →
      ∀ elems init, input = .pair (.list elems) init →
        elems.length ≤ max sizes.inputCount sizes.outputCount
    | some (.jet jet) => jet.runtimeCost input context ≤ s.budget.stepsRemaining →
      jet.runtimeCost input context ≤ jet.jetCost.1
    | _ => True
  | _ => True

/-- Between the states, at most the given cells and steps are consumed. -/
def ConsumesAtMost (cost : Program.ScriptCost) (s s' : EvalState) : Prop :=
  s.budget.cellsRemaining ≤ s'.budget.cellsRemaining + cost.cells ∧
    s.budget.stepsRemaining ≤ s'.budget.stepsRemaining + cost.steps

/-- The state that an evaluation ends in. -/
def endState : EStateM.Result EvalError EvalState Value → EvalState
  | .ok _ s | .error _ s => s

end Exfer.Spec.Script
