import Exfer.Impl.Script.Program

/-!
# The type checker

`script/typecheck.rs`: the bottom-up inference over the arena and the top-down refinement,
both with `Unit` as a wildcard.
-/

namespace Exfer.Impl.Script

structure TypedNode where
  combinator : Combinator
  inputType : Ty
  outputType : Ty

/-- `TypeError`, without the variants no code constructs. -/
inductive TypeError where
  | nodeOutOfBounds (id : NodeId)
  | compTypeMismatch (node : NodeId) (fOut gIn : Ty)
  | caseBranchMismatch (id : NodeId)
  | foldStepMismatch (id : NodeId)
  | foldInitMismatch (id : NodeId)
  | listFoldStepMismatch (id : NodeId)
  | listFoldInitMismatch (id : NodeId)
  | invalidStructure (msg : String)
  deriving DecidableEq, Repr

/-- The `Debug` form of a type error. -/
def TypeError.debug : TypeError → String
  | .nodeOutOfBounds id => "NodeOutOfBounds(" ++ toString id ++ ")"
  | .compTypeMismatch node fOut gIn =>
    "CompTypeMismatch \x7b node: " ++ toString node ++ ", f_out: " ++ fOut.debug ++ ", g_in: " ++
      gIn.debug ++ " \x7d"
  | .caseBranchMismatch id => "CaseBranchMismatch(" ++ toString id ++ ")"
  | .foldStepMismatch id => "FoldStepMismatch(" ++ toString id ++ ")"
  | .foldInitMismatch id => "FoldInitMismatch(" ++ toString id ++ ")"
  | .listFoldStepMismatch id => "ListFoldStepMismatch(" ++ toString id ++ ")"
  | .listFoldInitMismatch id => "ListFoldInitMismatch(" ++ toString id ++ ")"
  | .invalidStructure msg => "InvalidStructure(\"" ++ msg ++ "\")"

def typesCompatible (a b : Ty) : Bool :=
  if a = b then true
  else if a = .unit ∨ b = .unit then true
  else
    match a, b with
    | .sum a1 a2, .sum b1 b2 => typesCompatible a1 b1 && typesCompatible a2 b2
    | .product a1 a2, .product b1 b2 => typesCompatible a1 b1 && typesCompatible a2 b2
    | .list a1, .list b1 => typesCompatible a1 b1
    | _, _ => false

def childTypes (i : Nat) (later : List (Ty × Ty)) (child : NodeId) : Except TypeError (Ty × Ty) :=
  match Program.laterResult i later child with
  | some t => .ok t
  | none => .error (.nodeOutOfBounds child)

/-- `t`, or `u` when `t` is the wildcard. -/
def Ty.orElse (t u : Ty) : Ty :=
  if t = .unit then u else t

/-- `exfer_node_type`: the input and output type of a node from those of the nodes after it. -/
def exferNodeType (id : Nat) (node : Combinator) (later : List (Ty × Ty)) :
    Except TypeError (Ty × Ty) := do
  match node with
  | .iden | .unit | .witness | .merkleHidden _ => return (.unit, .unit)
  | .comp f g =>
    let (fIn, fOut) ← childTypes id later f
    let (gIn, gOut) ← childTypes id later g
    if typesCompatible fOut gIn then return (fIn, gOut)
    else throw (.compTypeMismatch id fOut gIn)
  | .pair f g =>
    let (fIn, fOut) ← childTypes id later f
    let (gIn, gOut) ← childTypes id later g
    return (fIn.orElse gIn, .product fOut gOut)
  | .take f =>
    let (fIn, fOut) ← childTypes id later f
    return (.product fIn .unit, fOut)
  | .drop f =>
    let (fIn, fOut) ← childTypes id later f
    return (.product .unit fIn, fOut)
  | .injL f =>
    let (fIn, fOut) ← childTypes id later f
    return (fIn, .sum fOut .unit)
  | .injR f =>
    let (fIn, fOut) ← childTypes id later f
    return (fIn, .sum .unit fOut)
  | .case f g =>
    let (fIn, fOut) ← childTypes id later f
    let (gIn, gOut) ← childTypes id later g
    if typesCompatible fOut gOut then return (.sum fIn gIn, fOut.orElse gOut)
    else throw (.caseBranchMismatch id)
  | .fold f z k =>
    let (fIn, fOut) ← childTypes id later f
    let (zIn, zOut) ← childTypes id later z
    if typesCompatible fOut zOut then
      match fIn with
      | .product a b =>
        if typesCompatible a zIn && typesCompatible b zOut then
          return (.product (.bound k) zIn, zOut.orElse fOut)
        else throw (.foldStepMismatch id)
      | .unit => return (.product (.bound k) zIn, zOut.orElse fOut)
      | _ => throw (.foldStepMismatch id)
    else throw (.foldInitMismatch id)
  | .listFold f z =>
    let (fIn, fOut) ← childTypes id later f
    let (zIn, zOut) ← childTypes id later z
    if typesCompatible fOut zOut then
      match fIn with
      | .product a _ => return (.product (.list a) zIn, zOut.orElse fOut)
      | .unit => return (.product (.list .unit) zIn, zOut.orElse fOut)
      | _ => throw (.listFoldStepMismatch id)
    else throw (.listFoldInitMismatch id)
  | .jet jetId => return jetId.jetType
  | .const v => return (.unit, v.inferType)

/-- `refine_deep`: fill the wildcards of `slot` from `resolved`. -/
def refineDeep (slot resolved : Ty) : Ty :=
  if slot = .unit ∧ resolved ≠ .unit then resolved
  else
    match slot, resolved with
    | .product a1 a2, .product b1 b2 => .product (refineDeep a1 b1) (refineDeep a2 b2)
    | .sum a1 a2, .sum b1 b2 => .sum (refineDeep a1 b1) (refineDeep a2 b2)
    | .list a, .list b => .list (refineDeep a b)
    | slot, _ => slot

def Combinator.hasRefinableOutput : Combinator → Bool
  | .unit | .const _ | .jet _ => false
  | _ => true

/-- The types of a node in the second pass. -/
def typesAt (typed : List (Ty × Ty)) (i : NodeId) : Ty × Ty :=
  typed.getD i (.unit, .unit)

/-- Refine the input type of a node. -/
def refineInput (i : NodeId) (resolved : Ty) (typed : List (Ty × Ty)) : List (Ty × Ty) :=
  typed.modify i fun t => (refineDeep t.1 resolved, t.2)

/-- Refine the output type of a node whose output can vary. -/
def refineOutput (nodes : List Combinator) (i : NodeId) (resolved : Ty)
    (typed : List (Ty × Ty)) : List (Ty × Ty) :=
  if (nodes.getD i .unit).hasRefinableOutput then
    typed.modify i fun t => (t.1, refineDeep t.2 resolved)
  else typed

/-- Refine the output types of two nodes from each other. -/
def refineOutputs (nodes : List Combinator) (f g : NodeId) (typed : List (Ty × Ty)) :
    List (Ty × Ty) :=
  let fOut := (typesAt typed f).2
  let gOut := (typesAt typed g).2
  refineOutput nodes g fOut (refineOutput nodes f gOut typed)

/-- `refine_children`: push the types known at a node into its children. -/
def refineChildren (nodes : List Combinator) (idx : Nat) (node : Combinator)
    (typed : List (Ty × Ty)) : List (Ty × Ty) :=
  match node with
  | .comp f g =>
    let gIn := (typesAt typed g).1
    let fOut := (typesAt typed f).2
    refineInput g fOut (refineOutput nodes f gIn typed)
  | .pair f g =>
    let fIn := (typesAt typed f).1
    let gIn := (typesAt typed g).1
    let typed := refineInput g fIn (refineInput f gIn typed)
    let pairIn := (typesAt typed idx).1
    let typed := if pairIn ≠ .unit then refineInput g pairIn (refineInput f pairIn typed) else typed
    match (typesAt typed idx).2 with
    | .product a b => refineOutput nodes g b (refineOutput nodes f a typed)
    | _ => typed
  | .case f g => refineOutputs nodes f g typed
  | .fold f z _ => refineOutputs nodes f z typed
  | .listFold f z => refineOutputs nodes f z typed
  | _ => typed

/-- The second pass of `typecheck`, first node to last. -/
def refineAll (nodes : List Combinator) :
    (i : Nat) → List Combinator → List (Ty × Ty) → List (Ty × Ty)
  | _, [], typed => typed
  | i, node :: rest, typed => refineAll nodes (i + 1) rest (refineChildren nodes i node typed)

def typecheck (p : Program) : Except TypeError (List TypedNode) :=
  match p.validateStructure with
  | .error e => .error (.invalidStructure e)
  | .ok () => do
    let typed ← bottomUp exferNodeType 0 p.nodes
    let typed := refineAll p.nodes 0 p.nodes typed
    return List.zipWith (fun node t => ⟨node, t.1, t.2⟩) p.nodes typed

end Exfer.Impl.Script
