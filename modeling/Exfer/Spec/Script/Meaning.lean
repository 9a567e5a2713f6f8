import Exfer.Impl.Script.Eval

/-!
# What scripts mean

The meaning of a typed program is a function from its input to a reader of the witness: no arena, no
budget, no levels (`meaning`). It fails where an evaluation fails.
-/

namespace Exfer.Spec.Script

open Impl Impl.Script

/-- A combinator with its arguments in place, and with the types that its evaluation checks values
against. -/
inductive TypedTree where
  | iden
  | comp (f g : TypedTree)
  | unit
  | pair (f g : TypedTree)
  | take (f : TypedTree)
  | drop (f : TypedTree)
  | injL (f : TypedTree)
  | injR (f : TypedTree)
  /-- With the input types of the node and of its branches. -/
  | case (input left right : Option Ty) (f g : TypedTree)
  | fold (f z : TypedTree) (k : UInt64)
  | listFold (f z : TypedTree)
  | jet (id : JetId)
  /-- With the type that is expected of the value. -/
  | witness (expected : Ty)
  | merkleHidden (hash : Hash256)
  | const (v : Value)

/-- The typed tree of a node, given those of its children. -/
def typedNode (typed : List TypedNode) (sub : NodeId → TypedTree) (id : NodeId) : Combinator → TypedTree
  | .iden => .iden
  | .comp f g => .comp (sub f) (sub g)
  | .unit => .unit
  | .pair f g => .pair (sub f) (sub g)
  | .take f => .take (sub f)
  | .drop f => .drop (sub f)
  | .injL f => .injL (sub f)
  | .injR f => .injR (sub f)
  | .case f g =>
    .case (inputTypeOf typed id) (inputTypeOf typed f) (inputTypeOf typed g) (sub f) (sub g)
  | .fold f z k => .fold (sub f) (sub z) k
  | .listFold f z => .listFold (sub f) (sub z)
  | .jet id => .jet id
  | .witness => .witness ((typed[id]?.map TypedNode.outputType).getD .unit)
  | .merkleHidden hash => .merkleHidden hash
  | .const v => .const v

/-- The typed tree of a node after those of the later nodes. -/
def typedStep (typed : List TypedNode) (i : Nat) (node : Combinator) (later : List TypedTree) :
    Except Empty TypedTree :=
  .ok (typedNode typed (fun c => (Program.laterResult i later c).getD .unit) i node)

/-- The typed tree of a program. -/
def typedTree (p : Program) (typed : List TypedNode) : TypedTree :=
  match bottomUp (typedStep typed) 0 p.nodes with
  | .ok trees => trees.getD p.root .unit
  | .error e => nomatch e

/-- Readers of what is left of the witness. -/
abbrev Reading := StateT (List UInt8) Option

/-- Read a value. -/
def readNext : Reading Value := fun rest =>
  match Value.deserialize rest with
  | .error _ => none
  | .ok (value, consumed) => some (value, rest.drop consumed)

/-- Read a value of the expected type, where `Unit` stands for any. -/
def readTyped (expected : Ty) : Reading Value := do
  let value ← readNext
  if expected ≠ .unit ∧ ! value.matchesType expected then failure else return value

/-- A branch on a payload of its type. -/
def onPayload (ty : Option Ty) (branch : Value → Reading Value) (payload : Value) : Reading Value :=
  match ty with
  | some ty => if ! payload.matchesType ty then failure else branch payload
  | none => branch payload

/-- `k` rounds of a fold. -/
def rounds (step : Value → Reading Value) : (k : Nat) → Value → Reading Value
  | 0, acc => pure acc
  | k + 1, acc => do rounds step k (← step acc)

/-- What a typed tree means. -/
def meaning [Crypto] (context : ScriptContext) : TypedTree → Value → Reading Value
  | .iden, input => pure input
  | .comp f g, input => do meaning context g (← meaning context f input)
  | .unit, _ => pure .unit
  | .pair f g, input => do return .pair (← meaning context f input) (← meaning context g input)
  | .take f, input =>
    match input with
    | .pair a _ => meaning context f a
    | _ => failure
  | .drop f, input =>
    match input with
    | .pair _ b => meaning context f b
    | _ => failure
  | .injL f, input => do return .left (← meaning context f input)
  | .injR f, input => do return .right (← meaning context f input)
  | .case ty left right f g, input =>
    match input with
    | .left a => onPayload left (meaning context f) a
    | .right b => onPayload right (meaning context g) b
    | .bool b =>
      if ty = some .boolType then if b then meaning context g .unit else meaning context f .unit
      else failure
    | _ => failure
  | .fold f z k, input =>
    match input with
    | .pair _ init => do
      rounds (fun acc => meaning context f (.pair init acc)) k.toNat (← meaning context z init)
    | _ => failure
  | .listFold f z, input =>
    match input with
    | .pair (.list elems) init => do
      elems.foldlM (fun acc elem => meaning context f (.pair elem acc)) (← meaning context z init)
    | _ => failure
  | .jet id, input =>
    match id.eval input context with
    | .ok v => pure v
    | .error _ => failure
  | .witness expected, _ => readTyped expected
  | .merkleHidden _, _ => failure
  | .const v, _ => pure v

/-- The budget allows for so many steps and cells and so much memory. -/
def Sufficient (need : Nat) (b : Budget) : Prop :=
  need ≤ b.stepsRemaining ∧ need ≤ b.cellsRemaining ∧ b.memoryUsed + need ≤ b.memoryLimit

end Exfer.Spec.Script
