import Exfer.Impl.Script.Eval
import Exfer.Lib.StackMachine

/-!
# The frames of the evaluator

`eval_node` of `script/eval.rs` call by call: what a call does until it calls `eval_node` again or
returns, and what it does with the result (`evalMachine`). A frame has the values that a waiting call
owns and goes on with, and the input where it needs that again, which is borrowed. A value goes out of
scope with the release that the source makes for it.
-/

namespace Exfer.Impl.Script

open Lib (Outcome StackMachine)

/-- A call of `eval_node`, or a point within one that it reaches before the first call of its own. -/
inductive EvalCall where
  /-- The call, with the levels that remain and the borrowed input. -/
  | node (levels : Nat) (id : NodeId) (input : Value)
  /-- `Fold` has copied both parts of its input, of which it keeps the second. -/
  | foldCopied (levels : Nat) (f z : NodeId) (k : Nat) (first init : Value)

/-- A call of `eval_node` that waits for another. -/
inductive EvalFrame where
  /-- `Comp` waits for its first function. -/
  | compFirst (levels : Nat) (g : NodeId)
  /-- `Comp` waits for its second function, with the value between. -/
  | compSecond (mid : Value)
  /-- `Pair` waits for its left function. -/
  | pairLeft (levels : Nat) (g : NodeId) (input : Value)
  /-- `Pair` waits for its right function. -/
  | pairRight (left : Value)
  /-- `Take`, `Drop` and `Case` pass the result on. -/
  | pass
  | injL
  | injR
  /-- `Fold` waits for its first accumulator. -/
  | foldInit (levels : Nat) (f : NodeId) (k : Nat) (init : Value)
  /-- `Fold` waits for the next one, with `k` rounds to go after. -/
  | foldStep (levels : Nat) (f : NodeId) (k : Nat) (init stepInput : Value)
  /-- `ListFold` waits for its first accumulator. -/
  | listInit (levels : Nat) (f : NodeId) (list : List Value) (init : Value)
  /-- `ListFold` waits for the next one, with the elements `rest` of its list to go after. -/
  | listStep (levels : Nat) (f : NodeId) (list rest : List Value) (init stepInput : Value)

/-- What a call comes to. -/
abbrev EvalOutcome := Outcome Value EvalCall EvalFrame

/-- A call returns a value. -/
def returnValue (v : Value) : EvalM EvalOutcome := do
  let v ← produce v
  return .ret v

/-- The end of the loops of `Fold` and `ListFold`. -/
def endFold (prevStepHeap : Nat) (acc : Value) : EvalM EvalOutcome := do
  releaseMemory prevStepHeap
  returnValue acc

/-- A round of these loops until the step function is called, on the pair of an element and the
accumulator. -/
def beginRound (elem : Value) (prevStepHeap : Nat) (acc : Value) : EvalM Value := do
  consumeStep
  releaseMemory prevStepHeap
  trackMemory (elem.heapSize + 2 * Value.valueSize)
  produce (.pair elem acc)

/-- The loop of `Fold`, from the next round on. -/
def nextFold (levels : Nat) (f : NodeId) (init : Value) (prevStepHeap : Nat) (acc : Value) :
    (k : Nat) → EvalM EvalOutcome
  | 0 => endFold prevStepHeap acc
  | k + 1 => do
    let stepInput ← beginRound init prevStepHeap acc
    return .wait (.foldStep levels f k init stepInput) (.node levels f stepInput)

/-- The loop of `ListFold`, from the next round on. -/
def nextListFold (levels : Nat) (f : NodeId) (list : List Value) (init : Value) (prevStepHeap : Nat)
    (acc : Value) : (rest : List Value) → EvalM EvalOutcome
  | [] => endFold prevStepHeap acc
  | elem :: rest => do
    let stepInput ← beginRound elem prevStepHeap acc
    return .wait (.listStep levels f list rest init stepInput) (.node levels f stepInput)

/-- What a waiting call does with the result. -/
def resumeFrame : EvalFrame → Value → EvalM EvalOutcome
  | .compFirst levels g, mid => return .wait (.compSecond mid) (.node levels g mid)
  | .compSecond mid, result => do
    releaseMemory mid.heapSize
    returnValue result
  | .pairLeft levels g input, left => return .wait (.pairRight left) (.node levels g input)
  | .pairRight left, right => do
    trackMemory (2 * Value.valueSize)
    returnValue (.pair left right)
  | .pass, result => returnValue result
  | .injL, result => do
    trackMemory Value.valueSize
    returnValue (.left result)
  | .injR, result => do
    trackMemory Value.valueSize
    returnValue (.right result)
  | .foldInit levels f k init, acc => nextFold levels f init 0 acc k
  | .foldStep levels f k init stepInput, acc => nextFold levels f init stepInput.heapSize acc k
  | .listInit levels f list init, acc => nextListFold levels f list init 0 acc list
  | .listStep levels f list rest init stepInput, acc =>
    nextListFold levels f list init stepInput.heapSize acc rest

section

variable [Crypto] (p : Program) (context : ScriptContext) (typed : List TypedNode)
  (witness : List UInt8)

/-- A branch of `Case` on a tagged payload. -/
def callBranch (levels : Nat) (side : String) (branch : NodeId) (payload : Value) :
    EvalM EvalOutcome := do
  match inputTypeOf typed branch with
  | some ty =>
    if ! payload.matchesType ty then
      throw (.typeMismatch ("Case " ++ side ++ " payload type mismatch: expected " ++ ty.debug))
    else return .wait .pass (.node levels branch payload)
  | none => return .wait .pass (.node levels branch payload)

/-- What `eval_node` does with a node of the program until it calls itself or returns. -/
def callCombinator (levels : Nat) (id : NodeId) (node : Combinator) (input : Value) :
    EvalM EvalOutcome := do
  match node with
  | .iden =>
    consumeStep
    trackMemory input.heapSize
    returnValue input
  | .unit =>
    consumeStep
    returnValue .unit
  | .comp f g =>
    consumeStep
    return .wait (.compFirst levels g) (.node levels f input)
  | .pair f g =>
    consumeStep
    consumeCell
    return .wait (.pairLeft levels g input) (.node levels f input)
  | .take f =>
    consumeStep
    match input with
    | .pair a _ => return .wait .pass (.node levels f a)
    | _ => throw (.typeMismatch "Take expects Pair input")
  | .drop f =>
    consumeStep
    match input with
    | .pair _ b => return .wait .pass (.node levels f b)
    | _ => throw (.typeMismatch "Drop expects Pair input")
  | .injL f =>
    consumeStep
    consumeCell
    return .wait .injL (.node levels f input)
  | .injR f =>
    consumeStep
    consumeCell
    return .wait .injR (.node levels f input)
  | .case f g =>
    consumeStep
    match input with
    | .left a => callBranch typed levels "Left" f a
    | .right b => callBranch typed levels "Right" g b
    | .bool b =>
      if inputTypeOf typed id = some .boolType then
        return .wait .pass (.node levels (if b then g else f) .unit)
      else throw (.typeMismatch "Case expects Sum (Left/Right) or Bool input")
    | _ => throw (.typeMismatch "Case expects Sum (Left/Right) or Bool input")
  | .fold f z k =>
    consumeStep
    match input with
    | .pair a init => return .goOn (.foldCopied levels f z k.toNat a init)
    | _ => throw (.typeMismatch "Fold expects Pair input")
  | .listFold f z =>
    consumeStep
    match input with
    | .pair (.list elems) init => return .wait (.listInit levels f elems init) (.node levels z init)
    | .pair _ _ => throw (.typeMismatch "ListFold expects List as first element of Pair")
    | _ => throw (.typeMismatch "ListFold expects Pair input")
  | .jet jetId =>
    consumeSteps (jetId.runtimeCost input context)
    match jetId.eval input context with
    | .error e => throw (.jetError e)
    | .ok result =>
      trackMemory result.heapSize
      returnValue result
  | .witness =>
    consumeStep
    let value ← readTypedValue witness ((typed[id]?.map TypedNode.outputType).getD .unit)
    trackMemory value.heapSize
    returnValue value
  | .merkleHidden _ => throw .hiddenNode
  | .const v =>
    consumeStep
    trackMemory v.heapSize
    returnValue v

/-- What a call does. -/
def callNode : EvalCall → EvalM EvalOutcome
  | .node 0 _ _ => throw .recursionDepthExceeded
  | .node (levels + 1) id input =>
    match p.get id with
    | none => throw (.nodeOutOfBounds id)
    | some node => callCombinator context typed witness levels id node input
  | .foldCopied levels f z k _ init => return .wait (.foldInit levels f k init) (.node levels z init)

/-- The calls and frames of `eval_node`. -/
def evalMachine : StackMachine EvalError EvalState Value EvalCall EvalFrame where
  call := callNode p context typed witness
  resume := resumeFrame

end

end Exfer.Impl.Script
