import Exfer.Impl.Script.Program

/-!
# The trees of programs

A program is an arena whose nodes may be shared. What it stands for is a tree of combinators, its
unfolding from the root (`unfolding`).
-/

namespace Exfer.Spec.Script

open Impl Impl.Script

/-- A combinator with its arguments in place. -/
inductive ScriptTree where
  | iden
  | comp (f g : ScriptTree)
  | unit
  | pair (f g : ScriptTree)
  | take (f : ScriptTree)
  | drop (f : ScriptTree)
  | injL (f : ScriptTree)
  | injR (f : ScriptTree)
  | case (f g : ScriptTree)
  | fold (f z : ScriptTree) (k : UInt64)
  | listFold (f z : ScriptTree)
  | jet (id : JetId)
  | witness
  | merkleHidden (hash : Hash256)
  | const (v : Value)

/-- The tree of a node, given those of its children. -/
def graft (sub : NodeId → Option ScriptTree) : Combinator → Option ScriptTree
  | .iden => some .iden
  | .comp f g => do return .comp (← sub f) (← sub g)
  | .unit => some .unit
  | .pair f g => do return .pair (← sub f) (← sub g)
  | .take f => do return .take (← sub f)
  | .drop f => do return .drop (← sub f)
  | .injL f => do return .injL (← sub f)
  | .injR f => do return .injR (← sub f)
  | .case f g => do return .case (← sub f) (← sub g)
  | .fold f z k => do return .fold (← sub f) (← sub z) k
  | .listFold f z => do return .listFold (← sub f) (← sub z)
  | .jet id => some (.jet id)
  | .witness => some .witness
  | .merkleHidden hash => some (.merkleHidden hash)
  | .const v => some (.const v)

/-- The unfolding of a node, after those of the later nodes; an error if a child is not among them. -/
def unfoldStep (i : Nat) (node : Combinator) (later : List ScriptTree) : Except Unit ScriptTree :=
  match graft (Program.laterResult i later) node with
  | some t => .ok t
  | none => .error ()

/-- The unfoldings of all nodes. -/
def unfoldings (nodes : List Combinator) : Except Unit (List ScriptTree) :=
  bottomUp unfoldStep 0 nodes

/-- The unfolding of a program from its root. -/
def unfolding (p : Program) : Option ScriptTree :=
  match unfoldings p.nodes with
  | .ok trees => trees[p.root]?
  | .error _ => none

/-- A node and a child of it. -/
def ChildOf (nodes : List Combinator) (i c : NodeId) : Prop :=
  ∃ node, nodes[i]? = some node ∧ c ∈ node.children

/-- A node and one below it. -/
def Reaches (nodes : List Combinator) : NodeId → NodeId → Prop :=
  Relation.ReflTransGen (ChildOf nodes)

end Exfer.Spec.Script
