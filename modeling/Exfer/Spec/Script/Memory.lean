import Exfer.Impl.Script.Frames

/-!
# What the evaluator owns

The values that the active calls of `eval_node` own at a point of an evaluation (`owns`), and the
heap they take. The input of an evaluation is borrowed, and so is that of every call.
-/

namespace Exfer.Spec.Script

open Lib Impl Impl.Script

/-- The heap of values. -/
def heapOf (vs : List Value) : Nat :=
  (vs.map Value.heapSize).sum

/-- The values that a waiting call owns. -/
def frameOwns : EvalFrame → List Value
  | .compSecond mid => [mid]
  | .pairRight left => [left]
  | .foldInit _ _ _ init => [init]
  | .foldStep _ _ _ init stepInput => [init, stepInput]
  | .listInit _ _ list init => [.list list, init]
  | .listStep _ _ list _ init stepInput => [.list list, init, stepInput]
  | .compFirst _ _ | .pairLeft _ _ _ | .pass | .injL | .injR => []

/-- The values that a call owns when it is made. -/
def callOwns : EvalCall → List Value
  | .node _ _ _ => []
  | .foldCopied _ _ _ _ first init => [first, init]

/-- A point of an evaluation. -/
abbrev EvalPoint := Config EvalError EvalState Value EvalCall EvalFrame

/-- The values that the active calls own. -/
def owns : EvalPoint → List Value
  | .calling c stack _ => callOwns c ++ stack.flatMap frameOwns
  | .returning v stack _ => v :: stack.flatMap frameOwns
  | .failed _ stack _ => stack.flatMap frameOwns

/-- What a waiting call passes to `release_memory` once it has its result. -/
def releasedBy : EvalFrame → Nat
  | .compSecond mid => mid.heapSize
  | .foldStep _ _ _ _ stepInput | .listStep _ _ _ _ _ stepInput => stepInput.heapSize
  | .compFirst _ _ | .pairLeft _ _ _ | .pairRight _ | .pass | .injL | .injR | .foldInit _ _ _ _
  | .listInit _ _ _ _ => 0

/-- The next call of `release_memory` saturates. -/
def Saturates : EvalPoint → Prop
  | .returning _ (frame :: _) s => s.budget.memoryUsed < releasedBy frame
  | _ => False

end Exfer.Spec.Script
