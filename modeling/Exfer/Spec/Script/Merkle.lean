import Exfer.Impl.Script.Merkle
import Exfer.Spec.Script.Tree

/-!
# What program hashes identify

The tree of a program, or its tree up to the scalars of its constants (`ScriptTree.eraseScalars`), where
what is hashed does not collide.
-/

namespace Exfer.Spec.Script

open Impl Impl.Script

mutual

/-- A value with its scalars replaced. -/
def eraseScalars : Value → Value
  | .unit => .unit
  | .left v => .left (eraseScalars v)
  | .right v => .right (eraseScalars v)
  | .pair a b => .pair (eraseScalars a) (eraseScalars b)
  | .list vs => .list (eraseScalarsList vs)
  | .bytes _ => .bytes []
  | .u64 _ => .u64 0
  | .u256 _ => .u256 Hash256.zero
  | .bool _ => .bool false
  | .hash _ => .hash Hash256.zero

/-- The elements of a list with their scalars replaced. -/
def eraseScalarsList : List Value → List Value
  | [] => []
  | v :: vs => eraseScalars v :: eraseScalarsList vs

end

/-- A tree with its constants replaced. -/
def ScriptTree.mapConst (f : Value → Value) : ScriptTree → ScriptTree
  | .comp a b => .comp (a.mapConst f) (b.mapConst f)
  | .pair a b => .pair (a.mapConst f) (b.mapConst f)
  | .take a => .take (a.mapConst f)
  | .drop a => .drop (a.mapConst f)
  | .injL a => .injL (a.mapConst f)
  | .injR a => .injR (a.mapConst f)
  | .case a b => .case (a.mapConst f) (b.mapConst f)
  | .fold a z k => .fold (a.mapConst f) (z.mapConst f) k
  | .listFold a z => .listFold (a.mapConst f) (z.mapConst f)
  | .const v => .const (f v)
  | t => t

mutual

/-- The lists and byte strings of a value have lengths below `2 ^ 32`. -/
def Short : Value → Prop
  | .left v | .right v => Short v
  | .pair a b => Short a ∧ Short b
  | .list vs => vs.length < 2 ^ 32 ∧ ShortList vs
  | .bytes bs => bs.length < 2 ^ 32
  | _ => True

/-- The elements of a list are short. -/
def ShortList : List Value → Prop
  | [] => True
  | v :: vs => Short v ∧ ShortList vs

end

/-- The constants of a program are short. -/
def ShortConstants (p : Program) : Prop :=
  ∀ v, .const v ∈ p.nodes → Short v

/-- A program has no hidden nodes. -/
def NothingHidden (p : Program) : Prop :=
  ∀ hash, .merkleHidden hash ∉ p.nodes

/-- What is hashed for the nodes of a program. -/
def hashedBufs [Crypto] (buf : (NodeId → Hash256) → Combinator → List UInt8) (p : Program) :
    Set (List UInt8) :=
  {bytes | ∃ node ∈ p.nodes,
    bytes = buf (fun c => (p.hashNodes (Program.hashBuf buf)).getD c Hash256.zero) node}

/-- No two different buffers of the programs have one hash. -/
def CollisionFree [Crypto] (buf : (NodeId → Hash256) → Combinator → List UInt8) (p q : Program) : Prop :=
  Set.InjOn (Hash256.domainHash Program.scriptDomain) (hashedBufs buf p ∪ hashedBufs buf q)

end Exfer.Spec.Script
