import Exfer.Impl.Script.Typecheck

/-!
# The evaluator

`script/eval.rs`: the interpreter of Exfer Script with its budget and witness reader. It runs
in `EStateM`, whose state outlives an error. Beside the budget and the position of the
witness reader the state holds a log of the values the evaluation has produced, which the
source does not keep and nothing reads.
-/

namespace Exfer.Impl.Script

def maxScriptMemory : Nat := 16777216

def maxEvalDepth : Nat := 128

structure Budget where
  stepsRemaining : Nat
  cellsRemaining : Nat
  memoryUsed : Nat
  memoryLimit : Nat

def Budget.new (steps cells : Nat) : Budget where
  stepsRemaining := steps
  cellsRemaining := cells
  memoryUsed := 0
  memoryLimit := maxScriptMemory

/-- `EvalError`. The source stores the `Debug` form of a jet's error. -/
inductive EvalError where
  | budgetExceeded
  | memoryExceeded
  | typeMismatch (msg : String)
  | hiddenNode
  | witnessError (msg : String)
  | nodeOutOfBounds (id : NodeId)
  | jetError (e : JetError)
  | recursionDepthExceeded
  deriving DecidableEq, Repr

/-- The `Debug` form of a string: quotation marks and backslashes are escaped. -/
def debugString (s : String) : String :=
  "\"" ++ String.ofList (s.toList.flatMap fun c => if c = '"' ∨ c = '\\' then ['\\', c] else [c]) ++ "\""

/-- The `Display` form of an evaluation error, which is its `Debug` form. -/
def EvalError.display : EvalError → String
  | .budgetExceeded => "BudgetExceeded"
  | .memoryExceeded => "MemoryExceeded"
  | .typeMismatch msg => "TypeMismatch(" ++ debugString msg ++ ")"
  | .hiddenNode => "HiddenNode"
  | .witnessError msg => "WitnessError(" ++ debugString msg ++ ")"
  | .nodeOutOfBounds id => "NodeOutOfBounds(" ++ toString id ++ ")"
  | .jetError e => "JetError(" ++ debugString e.debug ++ ")"
  | .recursionDepthExceeded => "RecursionDepthExceeded"

/-- The state of an evaluation. -/
structure EvalState where
  budget : Budget
  /-- The position of the witness reader. -/
  pos : Nat
  /-- The values produced so far, the latest first. -/
  produced : List Value

/-- Computations of the evaluator. -/
abbrev EvalM := EStateM EvalError EvalState

def consumeSteps (n : Nat) : EvalM Unit := do
  let s ← get
  if s.budget.stepsRemaining < n then throw .budgetExceeded
  else set { s with budget := { s.budget with stepsRemaining := s.budget.stepsRemaining - n } }

def consumeStep : EvalM Unit := consumeSteps 1

def consumeCell : EvalM Unit := do
  let s ← get
  if s.budget.cellsRemaining = 0 then throw .budgetExceeded
  else set { s with budget := { s.budget with cellsRemaining := s.budget.cellsRemaining - 1 } }

/-- `track_memory`. A sum that overflows a `usize` exceeds the limit as well. -/
def trackMemory (size : Nat) : EvalM Unit := do
  let s ← get
  let used := s.budget.memoryUsed + size
  set { s with budget := { s.budget with memoryUsed := used } }
  if used > s.budget.memoryLimit then throw .memoryExceeded

def releaseMemory (size : Nat) : EvalM Unit :=
  modify fun s => { s with budget := { s.budget with memoryUsed := s.budget.memoryUsed - size } }

/-- Log a value the evaluation has produced. -/
def produce (v : Value) : EvalM Value := do
  modify fun s => { s with produced := v :: s.produced }
  return v

def readValue (witness : List UInt8) : EvalM Value := do
  let s ← get
  if s.pos ≥ witness.length then throw (.witnessError "unexpected end of witness data")
  else
    match Value.deserialize (witness.drop s.pos) with
    | .error e => throw (.witnessError e)
    | .ok (value, consumed) =>
      set { s with pos := s.pos + consumed }
      return value

/-- `WitnessReader::read_typed_value`: the wildcard accepts every value. -/
def readTypedValue (witness : List UInt8) (expected : Ty) : EvalM Value := do
  let value ← readValue witness
  if expected ≠ .unit ∧ ! value.matchesType expected then
    throw (.witnessError ("witness type mismatch: expected " ++ expected.debug ++ ", got " ++
      value.inferType.debug))
  else return value

/-- One round of a fold: the step function on the pair of an element and the accumulator.
Returns the new accumulator and the heap of the pair. -/
def foldRound (step : Value → EvalM Value) (elem : Value) (prevStepHeap : Nat) (acc : Value) :
    EvalM (Value × Nat) := do
  consumeStep
  releaseMemory prevStepHeap
  trackMemory (elem.heapSize + 2 * Value.valueSize)
  let stepInput ← produce (.pair elem acc)
  let acc ← step stepInput
  return (acc, stepInput.heapSize)

/-- The loop of `Fold`. -/
def foldLoop (step : Value → EvalM Value) (init : Value) : Nat → Nat → Value → EvalM Value
  | 0, prevStepHeap, acc => do
    releaseMemory prevStepHeap
    return acc
  | k + 1, prevStepHeap, acc => do
    let (acc, heap) ← foldRound step init prevStepHeap acc
    foldLoop step init k heap acc

/-- The loop of `ListFold`. -/
def listFoldLoop (step : Value → EvalM Value) : List Value → Nat → Value → EvalM Value
  | [], prevStepHeap, acc => do
    releaseMemory prevStepHeap
    return acc
  | elem :: elems, prevStepHeap, acc => do
    let (acc, heap) ← foldRound step elem prevStepHeap acc
    listFoldLoop step elems heap acc

section

variable [Crypto] (p : Program) (context : ScriptContext) (typed : List TypedNode)
  (witness : List UInt8)

/-- The input type of a node as the type checker left it. -/
def inputTypeOf (id : NodeId) : Option Ty :=
  typed[id]?.map TypedNode.inputType

/-- A branch of `Case` on a tagged payload, which must match the input type of the branch. -/
def evalBranch (eval : NodeId → Value → EvalM Value) (side : String) (branch : NodeId)
    (payload : Value) : EvalM Value := do
  match inputTypeOf typed branch with
  | some ty =>
    if ! payload.matchesType ty then
      throw (.typeMismatch ("Case " ++ side ++ " payload type mismatch: expected " ++ ty.debug))
    else eval branch payload
  | none => eval branch payload

/-- The body of `eval_node` for a node of the program, with `eval` for the recursive calls. -/
def evalCombinator (eval : NodeId → Value → EvalM Value) (id : NodeId) (node : Combinator)
    (input : Value) : EvalM Value := do
  match node with
  | .iden =>
    consumeStep
    trackMemory input.heapSize
    return input
  | .unit =>
    consumeStep
    return .unit
  | .comp f g =>
    consumeStep
    let mid ← eval f input
    let result ← eval g mid
    releaseMemory mid.heapSize
    return result
  | .pair f g =>
    consumeStep
    consumeCell
    let left ← eval f input
    let right ← eval g input
    trackMemory (2 * Value.valueSize)
    return .pair left right
  | .take f =>
    consumeStep
    match input with
    | .pair a _ => eval f a
    | _ => throw (.typeMismatch "Take expects Pair input")
  | .drop f =>
    consumeStep
    match input with
    | .pair _ b => eval f b
    | _ => throw (.typeMismatch "Drop expects Pair input")
  | .injL f =>
    consumeStep
    consumeCell
    let result ← eval f input
    trackMemory Value.valueSize
    return .left result
  | .injR f =>
    consumeStep
    consumeCell
    let result ← eval f input
    trackMemory Value.valueSize
    return .right result
  | .case f g =>
    consumeStep
    match input with
    | .left a => evalBranch typed eval "Left" f a
    | .right b => evalBranch typed eval "Right" g b
    | .bool b =>
      if inputTypeOf typed id = some .boolType then eval (if b then g else f) .unit
      else throw (.typeMismatch "Case expects Sum (Left/Right) or Bool input")
    | _ => throw (.typeMismatch "Case expects Sum (Left/Right) or Bool input")
  | .fold f z k =>
    consumeStep
    match input with
    | .pair _ init =>
      let acc ← eval z init
      foldLoop (eval f) init k.toNat 0 acc
    | _ => throw (.typeMismatch "Fold expects Pair input")
  | .listFold f z =>
    consumeStep
    match input with
    | .pair (.list elems) init =>
      let acc ← eval z init
      listFoldLoop (eval f) elems 0 acc
    | .pair _ _ => throw (.typeMismatch "ListFold expects List as first element of Pair")
    | _ => throw (.typeMismatch "ListFold expects Pair input")
  | .jet jetId =>
    consumeSteps (jetId.runtimeCost input context)
    match jetId.eval input context with
    | .error e => throw (.jetError e)
    | .ok result =>
      trackMemory result.heapSize
      return result
  | .witness =>
    consumeStep
    let value ← readTypedValue witness ((typed[id]?.map TypedNode.outputType).getD .unit)
    trackMemory value.heapSize
    return value
  | .merkleHidden _ => throw .hiddenNode
  | .const v =>
    consumeStep
    trackMemory v.heapSize
    return v

/-- `eval_node`; `levels` counts down from `MAX_EVAL_DEPTH + 1` where the source counts
`depth` up. -/
def evalNode : (levels : Nat) → NodeId → Value → EvalM Value
  | 0, _, _ => throw .recursionDepthExceeded
  | levels + 1, id, input =>
    match p.get id with
    | none => throw (.nodeOutOfBounds id)
    | some node => do
      let result ← evalCombinator context typed witness (evalNode levels) id node input
      produce result

/-- `evaluate_with_context`, from the moment the budget is set up. -/
def evaluateWithContext (input : Value) : EvalM Value := do
  match typecheck p with
  | .error e => throw (.typeMismatch ("typecheck failed: " ++ e.debug))
  | .ok typed =>
    let result ← evalNode p context typed witness (maxEvalDepth + 1) p.root input
    let s ← get
    if s.pos < witness.length then
      throw (.witnessError ("unconsumed witness bytes: " ++ toString s.pos ++ " of " ++
        toString witness.length ++ " consumed"))
    else return result

end

/-- The state an evaluation starts in. -/
def EvalState.new (budget : Budget) : EvalState where
  budget := budget
  pos := 0
  produced := []

end Exfer.Impl.Script
