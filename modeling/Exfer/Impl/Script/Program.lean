import Exfer.Impl.Script.Jets

/-!
# Programs

`script/ast.rs`, `script/serialize.rs` and `script/cost.rs`: the arena of combinator nodes, its
structural checks, its wire format and its static cost. The bottom-up passes of the source
run from the last node to the first; here `bottomUp` runs such a pass and hands the results
of all later nodes to each step.
-/

namespace Exfer.Impl.Script

open Lib (leBytes leNat)

def maxScriptNodes : Nat := 65535

/-- `NodeId`: an index into the arena. -/
abbrev NodeId := Nat

inductive Combinator where
  | iden
  | comp (f g : NodeId)
  | unit
  | pair (f g : NodeId)
  | take (f : NodeId)
  | drop (f : NodeId)
  | injL (f : NodeId)
  | injR (f : NodeId)
  | case (f g : NodeId)
  | fold (f z : NodeId) (k : UInt64)
  | listFold (f z : NodeId)
  | jet (id : JetId)
  | witness
  | merkleHidden (hash : Hash256)
  | const (v : Value)

/-- `children_of`. -/
def Combinator.children : Combinator → List NodeId
  | .iden | .unit | .witness | .merkleHidden _ | .const _ | .jet _ => []
  | .take f | .drop f | .injL f | .injR f => [f]
  | .comp f g | .pair f g | .case f g | .listFold f g => [f, g]
  | .fold f z _ => [f, z]

structure Program where
  nodes : List Combinator
  root : NodeId

namespace Program

def get (p : Program) (id : NodeId) : Option Combinator :=
  p.nodes[id]?

/-! ## Structure -/

/-- The checks of `validate_structure` on a child of node `i`. -/
def validateChild (n i : Nat) (child : NodeId) : Except String Unit :=
  if child ≥ n then .error "child index out of bounds"
  else if child ≤ i then .error "child index must be greater than parent (DAG invariant)"
  else .ok ()

/-- The first pass of `validate_structure`: children are in bounds and after their parent. -/
def validateChildren (n : Nat) : (i : Nat) → List Combinator → Except String Unit
  | _, [] => .ok ()
  | i, node :: nodes => do
    node.children.forM (validateChild n i)
    validateChildren n (i + 1) nodes

/-- The second pass of `validate_structure`: mark the children of every marked node. -/
def markReachable : (i : Nat) → List Combinator → List Bool → List Bool
  | _, [], reachable => reachable
  | i, node :: nodes, reachable =>
    if reachable.getD i false then
      markReachable (i + 1) nodes (node.children.foldl (fun r child => r.set child true) reachable)
    else markReachable (i + 1) nodes reachable

def validateStructure (p : Program) : Except String Unit :=
  if p.nodes.length = 0 then .error "empty program"
  else if p.root ≥ p.nodes.length then .error "root index out of bounds"
  else do
    validateChildren p.nodes.length 0 p.nodes
    let reachable := markReachable 0 p.nodes ((List.replicate p.nodes.length false).set p.root true)
    if reachable.any (! ·) then throw "program contains unreachable nodes" else return ()

end Program

/-- A pass from the last node to the first. The step sees the index of a node, the node and
the results of the nodes after it, in order. -/
def bottomUp {α ε : Type} (step : Nat → Combinator → List α → Except ε α) :
    (i : Nat) → List Combinator → Except ε (List α)
  | _, [] => .ok []
  | i, node :: nodes => do
    let later ← bottomUp step (i + 1) nodes
    let r ← step i node later
    return r :: later

namespace Program

/-- The result of a later node, by its index, seen from node `i`. -/
def laterResult {α : Type} (i : Nat) (later : List α) (child : NodeId) : Option α :=
  if child ≤ i then none else later[child - i - 1]?

/-- A step of `max_depth`. -/
def depthStep (i : Nat) (node : Combinator) (later : List Nat) : Except Empty Nat :=
  .ok (((node.children.map fun c => (laterResult i later c).getD 0).foldr max 0) + 1)

def maxDepth (p : Program) : Nat :=
  match bottomUp depthStep 0 p.nodes with
  | .ok depth => depth.getD p.root 0
  | .error e => nomatch e

/-! ## Wire format -/

inductive SerializeError where
  | unexpectedEnd
  | unknownTag (tag : UInt8)
  | invalidJetId (id : Nat)
  | valueError (msg : String)
  | invalidStructure (msg : String)
  deriving DecidableEq, Repr

/-- The `Display` form of a program's decoding error, which is its `Debug` form. -/
def SerializeError.display : SerializeError → String
  | .unexpectedEnd => "UnexpectedEnd"
  | .unknownTag tag => "UnknownTag(" ++ toString tag.toNat ++ ")"
  | .invalidJetId id => "InvalidJetId(" ++ toString id ++ ")"
  | .valueError msg => "ValueError(\"" ++ msg ++ "\")"
  | .invalidStructure msg => "InvalidStructure(\"" ++ msg ++ "\")"

def serializeNode : Combinator → List UInt8
  | .iden => [0x00]
  | .comp f g => 0x01 :: (leBytes 4 f ++ leBytes 4 g)
  | .unit => [0x02]
  | .pair f g => 0x03 :: (leBytes 4 f ++ leBytes 4 g)
  | .take f => 0x04 :: leBytes 4 f
  | .drop f => 0x05 :: leBytes 4 f
  | .injL f => 0x06 :: leBytes 4 f
  | .injR f => 0x07 :: leBytes 4 f
  | .case f g => 0x08 :: (leBytes 4 f ++ leBytes 4 g)
  | .fold f z k => 0x09 :: (leBytes 4 f ++ leBytes 4 z ++ leBytes 8 k.toNat)
  | .listFold f z => 0x0A :: (leBytes 4 f ++ leBytes 4 z)
  | .jet id => 0x0B :: leBytes 4 id.toU32
  | .witness => [0x0C]
  | .merkleHidden hash => 0x0D :: hash.toList
  | .const v => 0x0E :: (leBytes 4 v.serialize.length ++ v.serialize)

def serializeProgram (p : Program) : List UInt8 :=
  leBytes 4 p.nodes.length ++ leBytes 4 p.root ++ p.nodes.flatMap serializeNode

/-- A node with one child. -/
def readOne (mk : NodeId → Combinator) (rest : List UInt8) :
    Except SerializeError (Combinator × Nat) :=
  if rest.length < 4 then .error .unexpectedEnd
  else .ok (mk (leNat (rest.take 4)), 5)

/-- A node with two children. -/
def readTwo (mk : NodeId → NodeId → Combinator) (rest : List UInt8) :
    Except SerializeError (Combinator × Nat) :=
  if rest.length < 8 then .error .unexpectedEnd
  else .ok (mk (leNat (rest.take 4)) (leNat ((rest.drop 4).take 4)), 9)

/-- The constant of a node. -/
def readConst (rest : List UInt8) : Except SerializeError (Combinator × Nat) :=
  if rest.length < 4 then .error .unexpectedEnd
  else
    let valueLen := leNat (rest.take 4)
    if rest.length < 4 + valueLen then .error .unexpectedEnd
    else
      match Value.deserialize ((rest.drop 4).take valueLen) with
      | .error e => .error (.valueError e)
      | .ok (value, consumed) =>
        if consumed ≠ valueLen then
          .error (.valueError ("TAG_CONST payload_size=" ++ toString valueLen ++
            " but value consumed " ++ toString consumed ++ " bytes"))
        else .ok (.const value, 5 + valueLen)

/-- `deserialize_node`: the node and the number of bytes consumed. -/
def deserializeNode : List UInt8 → Except SerializeError (Combinator × Nat)
  | [] => .error .unexpectedEnd
  | tag :: rest =>
    match tag with
    | 0x00 => .ok (.iden, 1)
    | 0x01 => readTwo .comp rest
    | 0x02 => .ok (.unit, 1)
    | 0x03 => readTwo .pair rest
    | 0x04 => readOne .take rest
    | 0x05 => readOne .drop rest
    | 0x06 => readOne .injL rest
    | 0x07 => readOne .injR rest
    | 0x08 => readTwo .case rest
    | 0x09 =>
      if rest.length < 16 then .error .unexpectedEnd
      else .ok (.fold (leNat (rest.take 4)) (leNat ((rest.drop 4).take 4))
        (UInt64.ofNat (leNat ((rest.drop 8).take 8))), 17)
    | 0x0A => readTwo .listFold rest
    | 0x0B =>
      if rest.length < 4 then .error .unexpectedEnd
      else
        let id := leNat (rest.take 4)
        match JetId.fromU32 id with
        | some jet => .ok (.jet jet, 5)
        | none => .error (.invalidJetId id)
    | 0x0C => .ok (.witness, 1)
    | 0x0D =>
      if rest.length < 32 then .error .unexpectedEnd
      else .ok (.merkleHidden (hashOfBytes rest), 33)
    | 0x0E => readConst rest
    | _ => .error (.unknownTag tag)

/-- The loop of `deserialize_program`: the nodes and the bytes consumed. -/
def deserializeNodes : (count : Nat) → List UInt8 → Except SerializeError (List Combinator × Nat)
  | 0, _ => .ok ([], 0)
  | count + 1, data => do
    let (node, consumed) ← deserializeNode data
    let (nodes, pos) ← deserializeNodes count (data.drop consumed)
    return (node :: nodes, consumed + pos)

/-- The checks of `deserialize_program` after the nodes have been read. -/
def checkProgram (data : List UInt8) (nodes : List Combinator) (consumed root : Nat) :
    Except SerializeError Program :=
  if 8 + consumed ≠ data.length then
    .error (.invalidStructure ("trailing bytes: consumed " ++ toString (8 + consumed) ++ " of " ++
      toString data.length ++ " bytes"))
  else
    match validateStructure ⟨nodes, root⟩ with
    | .error e => .error (.invalidStructure e)
    | .ok () => .ok ⟨nodes, root⟩

def deserializeProgram (data : List UInt8) : Except SerializeError Program :=
  if data.length < 8 then .error .unexpectedEnd
  else
    let nodeCount := leNat (data.take 4)
    if nodeCount > maxScriptNodes then
      .error (.invalidStructure ("node_count " ++ toString nodeCount ++ " exceeds maximum " ++
        toString maxScriptNodes))
    else if nodeCount > data.length - 8 then
      .error (.invalidStructure ("node_count " ++ toString nodeCount ++ " exceeds available data (" ++
        toString (data.length - 8) ++ " bytes)"))
    else do
      let (nodes, consumed) ← deserializeNodes nodeCount (data.drop 8)
      checkProgram data nodes consumed (leNat ((data.drop 4).take 4))

/-! ## Static cost -/

structure ScriptCost where
  cells : Nat
  steps : Nat
  deriving DecidableEq, Repr

structure ListSizes where
  inputCount : Nat
  outputCount : Nat

inductive CostError where
  | nodeOutOfBounds (id : NodeId)
  | overflow
  | invalidStructure (msg : String)
  deriving DecidableEq, Repr

/-- The `Display` form of a cost error, which is its `Debug` form. -/
def CostError.display : CostError → String
  | .nodeOutOfBounds id => "NodeOutOfBounds(" ++ toString id ++ ")"
  | .overflow => "Overflow"
  | .invalidStructure msg => "InvalidStructure(\"" ++ msg ++ "\")"

/-- `checked_add` on `u64`. -/
def checkedAdd (a b : Nat) : Except CostError Nat :=
  if a + b < 2 ^ 64 then .ok (a + b) else .error .overflow

/-- `checked_mul` on `u64`. -/
def checkedMul (a b : Nat) : Except CostError Nat :=
  if a * b < 2 ^ 64 then .ok (a * b) else .error .overflow

def childCost (i : Nat) (later : List ScriptCost) (child : NodeId) : Except CostError ScriptCost :=
  match laterResult i later child with
  | some c => .ok c
  | none => .error (.nodeOutOfBounds child)

/-- The cost of a loop: the initializer and `n` runs of the step, one more step each, and one
step for the node. -/
def loopCost (f z : ScriptCost) (n : Nat) : Except CostError ScriptCost := do
  let fCells ← checkedMul f.cells n
  let cells ← checkedAdd z.cells fCells
  let fSteps ← checkedMul (← checkedAdd f.steps 1) n
  let steps ← checkedAdd (← checkedAdd z.steps fSteps) 1
  return { cells, steps }

def nodeCost (defaultListSize : Nat) (i : Nat) (node : Combinator) (later : List ScriptCost) :
    Except CostError ScriptCost := do
  match node with
  | .iden | .unit | .witness => return { cells := 0, steps := 1 }
  | .comp f g =>
    let fc ← childCost i later f
    let gc ← childCost i later g
    let cells ← checkedAdd fc.cells gc.cells
    let steps ← checkedAdd (← checkedAdd fc.steps gc.steps) 1
    return { cells, steps }
  | .pair f g =>
    let fc ← childCost i later f
    let gc ← childCost i later g
    let cells ← checkedAdd (← checkedAdd fc.cells gc.cells) 1
    let steps ← checkedAdd (← checkedAdd fc.steps gc.steps) 1
    return { cells, steps }
  | .take f | .drop f =>
    let fc ← childCost i later f
    let steps ← checkedAdd fc.steps 1
    return { cells := fc.cells, steps }
  | .injL f | .injR f =>
    let fc ← childCost i later f
    let cells ← checkedAdd fc.cells 1
    let steps ← checkedAdd fc.steps 1
    return { cells, steps }
  | .case f g =>
    let fc ← childCost i later f
    let gc ← childCost i later g
    let cells ← checkedAdd (max fc.cells gc.cells) 1
    let steps ← checkedAdd (max fc.steps gc.steps) 1
    return { cells, steps }
  | .fold f z k =>
    let fc ← childCost i later f
    let zc ← childCost i later z
    loopCost fc zc k.toNat
  | .listFold f z =>
    let fc ← childCost i later f
    let zc ← childCost i later z
    loopCost fc zc defaultListSize
  | .jet id => return { cells := id.jetCost.2, steps := id.jetCost.1 }
  | .merkleHidden _ => return { cells := 0, steps := 0 }
  | .const v =>
    let sizeCost := max ((v.serialize.length + 63) / 64) 1
    let cells ← checkedAdd 1 sizeCost
    let steps ← checkedAdd 1 sizeCost
    return { cells, steps }

def computeCost (p : Program) (listSizes : ListSizes) : Except CostError ScriptCost := do
  match p.validateStructure with
  | .error e => throw (.invalidStructure e)
  | .ok () =>
    let costs ← bottomUp (nodeCost (max listSizes.inputCount listSizes.outputCount)) 0 p.nodes
    match costs[p.root]? with
    | some c => return c
    | none => throw (.nodeOutOfBounds p.root)

end Program

end Exfer.Impl.Script
