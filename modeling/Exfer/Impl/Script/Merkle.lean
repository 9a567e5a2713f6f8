import Exfer.Impl.Script.Program

/-!
# The Merkle hashes of programs

`script/serialize.rs`: a node is hashed with the hashes of its children in place of their indices. The
structural hash leaves the scalars of constants out. A constant is its tag and its bytes, without a
length.
-/

namespace Exfer.Impl.Script

open Lib (ascii leBytes)

namespace Value

mutual

/-- `structural_skeleton_into`: the tags and the lengths of lists. -/
def structuralSkeleton : Value → List UInt8
  | .unit => [0x00]
  | .left v => 0x01 :: v.structuralSkeleton
  | .right v => 0x02 :: v.structuralSkeleton
  | .pair a b => 0x03 :: (a.structuralSkeleton ++ b.structuralSkeleton)
  | .list vs => 0x04 :: (leBytes 4 vs.length ++ skeletonList vs)
  | .bytes _ => [0x05]
  | .u64 _ => [0x06]
  | .u256 _ => [0x07]
  | .bool _ => [0x08]
  | .hash _ => [0x09]

/-- The skeletons of the elements of a list, one after another. -/
def skeletonList : List Value → List UInt8
  | [] => []
  | v :: vs => v.structuralSkeleton ++ skeletonList vs

end

end Value

namespace Program

def scriptDomain : List UInt8 := ascii "EXFER-SCRIPT"

/-- The buffer of `node_merkle_hash`, which a hidden node leaves empty. -/
def nodeMerkleBuf (hashes : NodeId → Hash256) : Combinator → List UInt8
  | .iden => [0x00]
  | .comp f g => 0x01 :: ((hashes f).toList ++ (hashes g).toList)
  | .unit => [0x02]
  | .pair f g => 0x03 :: ((hashes f).toList ++ (hashes g).toList)
  | .take f => 0x04 :: (hashes f).toList
  | .drop f => 0x05 :: (hashes f).toList
  | .injL f => 0x06 :: (hashes f).toList
  | .injR f => 0x07 :: (hashes f).toList
  | .case f g => 0x08 :: ((hashes f).toList ++ (hashes g).toList)
  | .fold f z k => 0x09 :: ((hashes f).toList ++ (hashes z).toList ++ leBytes 8 k.toNat)
  | .listFold f z => 0x0A :: ((hashes f).toList ++ (hashes z).toList)
  | .jet id => 0x0B :: leBytes 4 id.toU32
  | .witness => [0x0C]
  | .merkleHidden _ => []
  | .const v => 0x0E :: v.serialize

/-- The buffer of `node_structural_merkle_hash`. -/
def nodeStructuralBuf (hashes : NodeId → Hash256) : Combinator → List UInt8
  | .const v => 0x0E :: v.structuralSkeleton
  | node => nodeMerkleBuf hashes node

section

variable [Crypto]

/-- The hash of a node's buffer; a hidden node is its hash. -/
def hashBuf (buf : (NodeId → Hash256) → Combinator → List UInt8) (hashes : NodeId → Hash256)
    (node : Combinator) : Hash256 :=
  match node with
  | .merkleHidden hash => hash
  | node => Hash256.domainHash scriptDomain (buf hashes node)

def nodeMerkleHash : (NodeId → Hash256) → Combinator → Hash256 := hashBuf nodeMerkleBuf

def nodeStructuralMerkleHash : (NodeId → Hash256) → Combinator → Hash256 := hashBuf nodeStructuralBuf

/-- The hash of a node after those of the later ones; the others are still zero. -/
def hashStep (nodeHash : (NodeId → Hash256) → Combinator → Hash256) (i : Nat) (node : Combinator)
    (later : List Hash256) : Except Empty Hash256 :=
  .ok (nodeHash (fun c => (laterResult i later c).getD Hash256.zero) node)

/-- The hashes of all nodes. -/
def hashNodes (nodeHash : (NodeId → Hash256) → Combinator → Hash256) (p : Program) : List Hash256 :=
  match bottomUp (hashStep nodeHash) 0 p.nodes with
  | .ok hashes => hashes
  | .error e => nomatch e

def merkleHash (p : Program) : Hash256 :=
  (hashNodes nodeMerkleHash p).getD p.root Hash256.zero

def structuralMerkleHash (p : Program) : Hash256 :=
  (hashNodes nodeStructuralMerkleHash p).getD p.root Hash256.zero

end

end Program

end Exfer.Impl.Script
