import Exfer.Lib.HashTree
import Exfer.Lib.Map
import Exfer.Impl.Smt
import Mathlib.Data.Nat.Bitwise

/-!
# What the sparse Merkle tree is for

A commitment to a finite map from 256-bit keys to digests: the root of the complete
binary tree of depth 256 whose leaf at a key is the key's value, or the zero digest
where the map has no entry. The tree is stated with all its `2 ^ 256` leaves.
-/

namespace Exfer.Spec

open Lib Impl

/-- A map from keys to leaf digests. -/
abbrev LeafMap := Map Hash256 Hash256

/-- The key with the given bits, the first bit being the most significant one of byte 0. -/
def keyOfBits (p : Nat → Bool) : Hash256 :=
  Vector.ofFn fun j : Fin 32 => UInt8.ofNat (Nat.ofBits fun i : Fin 8 => p (8 * j + (7 - i)))

/-- An insertion into the tree or a removal from it. -/
inductive SmtOp where
  | insert (key value : Hash256)
  | remove (key : Hash256)

/-- What an operation does to the map. -/
def SmtOp.onMap (m : LeafMap) : SmtOp → LeafMap
  | .insert key value => m.insert key value
  | .remove key => m.erase key

/-- The map after a sequence of operations on the empty one. -/
def mapAfter (ops : List SmtOp) : LeafMap :=
  ops.foldl SmtOp.onMap ∅

/-- An operation on the compressed tree; `none` is a panic. -/
def SmtOp.onTree [Crypto] (t : SparseMerkleTree) : SmtOp → Option SparseMerkleTree
  | .insert key value => t.insert key value
  | .remove key => t.remove key

/-- The compressed tree after a sequence of operations on a new one. -/
def treeAfter [Crypto] (ops : List SmtOp) : Option SparseMerkleTree :=
  ops.foldlM SmtOp.onTree SparseMerkleTree.new

section Naive

variable [Crypto]

/-- The digest of an inner node. -/
def nodeHash (left right : Hash256) : Hash256 :=
  Crypto.sha256 (left.toList ++ right.toList)

/-- The leaf of the uncompressed tree at a position. -/
def naiveLeaf (f : Hash256 → Option Hash256) (p : Nat → Bool) : Hash256 :=
  (f (keyOfBits p)).getD Hash256.zero

/-- The digest of the subtree of the uncompressed tree at depth `d` and position `p`. -/
def naiveHash (f : Hash256 → Option Hash256) (d : Nat) (p : Nat → Bool) : Hash256 :=
  treeHash nodeHash (naiveLeaf f) (smtDepth - d) d p

/-- The root of the uncompressed depth-256 tree that holds exactly the map `m`. -/
def naiveRoot (m : LeafMap) : Hash256 :=
  naiveHash m.lookup 0 fun _ => false

end Naive

end Exfer.Spec
