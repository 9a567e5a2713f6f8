import Exfer.Impl.Hash

/-!
# The path-compressed sparse Merkle tree

`chain/smt.rs`: the nodes live in an arena and refer to each other by index, index 0
being the null node. Every operation that can panic in the source (an index out of
the arena, a bit or an empty-subtree digest out of range, the leaf count dropping
below zero) returns an `Option` here, and `none` is the panic. A recursion of the
source that descends the tree takes fuel, and running out of it is `none` too.
-/

namespace Exfer.Impl

open Crypto (sha256)

/-- `SMT_DEPTH`: the depth of the tree, one level per key bit. -/
def smtDepth : Nat := 256

/-- `NodeIdx`: an index into the arena. -/
abbrev NodeIdx := Nat

/-- `NULL`: the index that stands for an empty subtree. -/
def nullIdx : NodeIdx := 0

/-- `get_bit`: the bit at `bitIndex`, most significant bit of a byte first. -/
def getBit (key : Hash256) (bitIndex : Nat) : Option UInt8 :=
  (key[bitIndex / 8]?).map fun b => (b >>> UInt8.ofNat (7 - bitIndex % 8)) &&& 1

/-- `first_different_bit`, with the number of bits still to compare as the recursion. -/
def firstDifferentBitFrom (a b : Hash256) : (remaining d : Nat) → Option Nat
  | 0, _ => some smtDepth
  | n + 1, d => do
    let x ← getBit a d
    let y ← getBit b d
    if x ≠ y then return d
    firstDifferentBitFrom a b n (d + 1)

/-- `first_different_bit`: the first position at or after `start` where the keys differ. -/
def firstDifferentBit (a b : Hash256) (start : Nat) : Option Nat :=
  firstDifferentBitFrom a b (smtDepth - start) start

/-- A node of the path-compressed tree. Depths are at most 256 and fit their `u16` fields. -/
inductive SmtNode where
  /-- A leaf, at full depth. -/
  | leaf (key value : Hash256)
  /-- A branch at `bitDepth` with the cached digest of its subtree. -/
  | branch (bitDepth : Nat) (left right : NodeIdx) (hash : Hash256)
  /-- An extension that skips the bits `[bitDepth, childDepth)` of `prefixKey`. -/
  | extension (bitDepth childDepth : Nat) (prefixKey : Hash256) (child : NodeIdx) (hash : Hash256)
  deriving DecidableEq

/-- `SparseMerkleTree`. The free list is a stack whose top is the head of the list. -/
structure SparseMerkleTree where
  arena : List SmtNode
  free : List NodeIdx
  root : NodeIdx
  rootHash : Hash256
  leafCount : Nat

section Hashes

variable [Crypto]

/-- The entry `d` of the `EmptyHashes` table. -/
def emptyHashes : Nat → Hash256
  | 0 => Hash256.zero
  | d + 1 => sha256 ((emptyHashes d).toList ++ (emptyHashes d).toList)

/-- `EmptyHashes::get`: the table has the entries `0..=256`. -/
def emptyHashesGet (depth : Nat) : Option Hash256 :=
  if depth ≤ smtDepth then some (emptyHashes depth) else none

def emptyRoot : Hash256 := emptyHashes smtDepth

/-- The loop of `fold_hash` over the `n` depths from `fromDepth + n - 1` down to `fromDepth`. -/
def foldHashLoop (key : Hash256) (fromDepth : Nat) : Nat → Hash256 → Option Hash256
  | 0, h => some h
  | n + 1, h => do
    let d := fromDepth + n
    let bit ← getBit key d
    let emptySibling ← if d + 1 ≤ smtDepth then emptyHashesGet (smtDepth - d - 1) else none
    let (left, right) := if bit = 0 then (h, emptySibling) else (emptySibling, h)
    foldHashLoop key fromDepth n (sha256 (left.toList ++ right.toList))

/-- `fold_hash`: carry a digest up from `toDepth` to `fromDepth` past empty siblings. -/
def foldHash (childHash key : Hash256) (fromDepth toDepth : Nat) : Option Hash256 :=
  foldHashLoop key fromDepth (toDepth - fromDepth) childHash

end Hashes

namespace SparseMerkleTree

variable (t : SparseMerkleTree)

/-- `self.arena[idx] = node`. -/
def write (idx : NodeIdx) (node : SmtNode) : Option SparseMerkleTree :=
  if idx < t.arena.length then some { t with arena := t.arena.set idx node } else none

/-- `alloc`: reuse the node freed last, or grow the arena. -/
def alloc (node : SmtNode) : Option (NodeIdx × SparseMerkleTree) :=
  match t.free with
  | idx :: free => do
    let t ← { t with free }.write idx node
    return (idx, t)
  | [] => some (t.arena.length, { t with arena := t.arena ++ [node] })

def freeNode (idx : NodeIdx) : SparseMerkleTree :=
  if idx ≠ nullIdx then { t with free := idx :: t.free } else t

/-- `logical_depth`: the depth at which a node sits. -/
def logicalDepth (idx : NodeIdx) : Option Nat :=
  if idx = nullIdx then some 0 else do
    match ← t.arena[idx]? with
    | .leaf _ _ => return 256
    | .branch bitDepth _ _ _ => return bitDepth
    | .extension bitDepth _ _ _ _ => return bitDepth

/-- `any_key`: the key of some leaf below a node. -/
def anyKey : Nat → NodeIdx → Option Hash256
  | 0, _ => none
  | fuel + 1, idx =>
    if idx = nullIdx then some Hash256.zero else do
      match ← t.arena[idx]? with
      | .leaf key _ => return key
      | .branch _ left right _ => if left ≠ nullIdx then anyKey fuel left else anyKey fuel right
      | .extension _ _ _ child _ => anyKey fuel child

/-- The fuel that descends from the root past every depth. -/
def maxFuel : Nat := smtDepth + 1

/-- The key of an extension matches the prefix on the `n` bits from `d`. -/
def matchesPrefix (key prefixKey : Hash256) : (n d : Nat) → Option Bool
  | 0, _ => some true
  | n + 1, d => do
    let x ← getBit key d
    let y ← getBit prefixKey d
    if x ≠ y then return false
    matchesPrefix key prefixKey n (d + 1)

/-- The loop of `find_leaf`. The outer `Option` is the panic, the inner one the answer. -/
def findLeafFrom (key : Hash256) : Nat → NodeIdx → Option (Option Hash256)
  | 0, _ => none
  | fuel + 1, idx =>
    if idx = nullIdx then some none else do
      match ← t.arena[idx]? with
      | .leaf k value => return if k = key then some value else none
      | .branch bitDepth left right _ =>
        let bit ← getBit key bitDepth
        findLeafFrom key fuel (if bit = 0 then left else right)
      | .extension bitDepth childDepth prefixKey child _ =>
        if ← matchesPrefix key prefixKey (childDepth - bitDepth) bitDepth then
          findLeafFrom key fuel child
        else
          return none

def findLeaf (key : Hash256) : Option (Option Hash256) :=
  t.findLeafFrom key maxFuel t.root

variable [Crypto]

/-- `SparseMerkleTree::new`: index 0 of the arena is a sentinel. -/
def new : SparseMerkleTree where
  arena := [.leaf Hash256.zero Hash256.zero]
  free := []
  root := nullIdx
  rootHash := emptyRoot
  leafCount := 0

/-- `subtree_hash`: the digest of a subtree, that of the empty one for the null node. -/
def subtreeHash (idx : NodeIdx) (atDepth : Nat) : Option Hash256 :=
  if idx = nullIdx then
    if atDepth ≤ smtDepth then emptyHashesGet (smtDepth - atDepth) else none
  else do
    match ← t.arena[idx]? with
    | .leaf _ value => return value
    | .branch _ _ _ hash => return hash
    | .extension _ _ _ _ hash => return hash

def computeBranchHash (left right : NodeIdx) (bitDepth : Nat) : Option Hash256 := do
  let leftHash ← t.subtreeHash left (bitDepth + 1)
  let rightHash ← t.subtreeHash right (bitDepth + 1)
  return sha256 (leftHash.toList ++ rightHash.toList)

/-- `wrap_in_extension`: an extension from `targetDepth` to the node's own depth, if any. -/
def wrapInExtension (nodeIdx : NodeIdx) (targetDepth : Nat) :
    Option (NodeIdx × SparseMerkleTree) := do
  let nodeDepth ← t.logicalDepth nodeIdx
  if targetDepth ≥ nodeDepth then return (nodeIdx, t)
  let key ← t.anyKey maxFuel nodeIdx
  let childHash ← t.subtreeHash nodeIdx nodeDepth
  let h ← foldHash childHash key targetDepth nodeDepth
  t.alloc (.extension targetDepth nodeDepth key nodeIdx h)

/-- The branch of `insert_at` at a leaf with another key: split where the keys differ. -/
def insertSplitLeaf (idx : NodeIdx) (depth : Nat) (existingKey key value : Hash256) :
    Option (NodeIdx × SparseMerkleTree) := do
  let leafDepth ← t.logicalDepth idx
  let diverge ← firstDifferentBit existingKey key leafDepth
  let (newLeaf, t) ← t.alloc (.leaf key value)
  let bitNew ← getBit key diverge
  let (left, right, t) ← if bitNew = 0 then do
      let (left, t) ← t.wrapInExtension newLeaf (diverge + 1)
      let (right, t) ← t.wrapInExtension idx (diverge + 1)
      pure (left, right, t)
    else do
      let (left, t) ← t.wrapInExtension idx (diverge + 1)
      let (right, t) ← t.wrapInExtension newLeaf (diverge + 1)
      pure (left, right, t)
  let branchHash ← t.computeBranchHash left right diverge
  let (branch, t) ← t.alloc (.branch diverge left right branchHash)
  if diverge > depth then
    t.alloc (.extension depth diverge key branch Hash256.zero)
  else
    return (branch, t)

/-- The step of `insert_at` that shortens an extension to the bits after `diverge`, or drops
it when none is left. -/
def remainingChild (cd : Nat) (prefixKey : Hash256) (child : NodeIdx) (diverge : Nat) :
    Option (NodeIdx × SparseMerkleTree) := do
  if diverge + 1 < cd then
    let childHash ← t.subtreeHash child cd
    let h ← foldHash childHash prefixKey (diverge + 1) cd
    t.alloc (.extension (diverge + 1) cd prefixKey child h)
  else
    return (child, t)

/-- The branch of `insert_at` at an extension whose prefix the key leaves at `diverge`. -/
def insertSplitExtension (idx : NodeIdx) (bd cd : Nat) (prefixKey : Hash256) (child : NodeIdx)
    (diverge : Nat) (key value : Hash256) : Option (NodeIdx × SparseMerkleTree) := do
  let (newLeaf, t) ← t.alloc (.leaf key value)
  let (remaining, t) ← t.remainingChild cd prefixKey child diverge
  let bitNew ← getBit key diverge
  let (wrapped, t) ← t.wrapInExtension newLeaf (diverge + 1)
  let (left, right) := if bitNew = 0 then (wrapped, remaining) else (remaining, wrapped)
  let branchHash ← t.computeBranchHash left right diverge
  let (branch, t) ← t.alloc (.branch diverge left right branchHash)
  if diverge > bd then
    let h ← foldHash branchHash key bd diverge
    let t ← t.write idx (.extension bd diverge key branch h)
    return (idx, t)
  else
    return (branch, t.freeNode idx)

/-- The scan of `insert_at` over an extension's prefix: the first of the `n` bits from `d`
where the keys differ, or the end of the range. -/
def divergeFrom (key prefixKey : Hash256) : (n d : Nat) → Option Nat
  | 0, d => some d
  | n + 1, d => do
    let x ← getBit key d
    let y ← getBit prefixKey d
    if x ≠ y then return d
    divergeFrom key prefixKey n (d + 1)

/-- `insert_at`: insert a leaf below `idx` at depth `depth`; the new index of the subtree. -/
def insertAt : Nat → SparseMerkleTree → NodeIdx → Nat → Hash256 → Hash256 →
    Option (NodeIdx × SparseMerkleTree)
  | 0, _, _, _, _, _ => none
  | fuel + 1, t, idx, depth, key, value =>
    if idx = nullIdx then do
      let (leaf, t) ← t.alloc (.leaf key value)
      t.wrapInExtension leaf depth
    else do
      match ← t.arena[idx]? with
      | .leaf existingKey _ =>
        if existingKey = key then
          let t ← t.write idx (.leaf key value)
          return (idx, t)
        else
          t.insertSplitLeaf idx depth existingKey key value
      | .branch bd left right _ =>
        let bit ← getBit key bd
        let (newLeft, newRight, t) ← if bit = 0 then do
            let (newLeft, t) ← insertAt fuel t left (bd + 1) key value
            pure (newLeft, right, t)
          else do
            let (newRight, t) ← insertAt fuel t right (bd + 1) key value
            pure (left, newRight, t)
        let h ← t.computeBranchHash newLeft newRight bd
        let t ← t.write idx (.branch bd newLeft newRight h)
        return (idx, t)
      | .extension bd cd prefixKey child _ =>
        let diverge ← divergeFrom key prefixKey (cd - bd) bd
        if diverge = cd then
          let (newChild, t) ← insertAt fuel t child cd key value
          let childHash ← t.subtreeHash newChild cd
          let h ← foldHash childHash prefixKey bd cd
          let t ← t.write idx (.extension bd cd prefixKey newChild h)
          return (idx, t)
        else
          t.insertSplitExtension idx bd cd prefixKey child diverge key value

/-- `prepend_extension`: extend the survivor of a collapsed branch up to `fromDepth`. -/
def prependExtension (child : NodeIdx) (fromDepth : Nat) :
    Option (NodeIdx × SparseMerkleTree) := do
  let childKey ← t.anyKey maxFuel child
  let childLogicalDepth ← t.logicalDepth child
  match ← t.arena[child]? with
  | .extension _ childDepth prefixKey innerChild _ =>
    let innerHash ← t.subtreeHash innerChild childDepth
    let h ← foldHash innerHash prefixKey fromDepth childDepth
    let t ← t.write child (.extension fromDepth childDepth prefixKey innerChild h)
    return (child, t)
  | _ =>
    if fromDepth < childLogicalDepth then
      let childHash ← t.subtreeHash child childLogicalDepth
      let h ← foldHash childHash childKey fromDepth childLogicalDepth
      t.alloc (.extension fromDepth childLogicalDepth childKey child h)
    else
      return (child, t)

/-- `try_merge_extension`: rebuild an extension over its child after a removal below it. -/
def tryMergeExtension (extIdx : NodeIdx) (extBd extCd : Nat) (extPrefix : Hash256)
    (newChild : NodeIdx) : Option (NodeIdx × SparseMerkleTree) := do
  match ← t.arena[newChild]? with
  | .extension _ innerCd innerPrefix inner _ =>
    let innerHash ← t.subtreeHash inner innerCd
    let h ← foldHash innerHash innerPrefix extBd innerCd
    let t := t.freeNode newChild
    let t ← t.write extIdx (.extension extBd innerCd innerPrefix inner h)
    return (extIdx, t)
  | .leaf leafKey _ =>
    let childHash ← t.subtreeHash newChild 256
    let h ← foldHash childHash leafKey extBd 256
    let t ← t.write extIdx (.extension extBd 256 leafKey newChild h)
    return (extIdx, t)
  | .branch _ _ _ _ =>
    let childHash ← t.subtreeHash newChild extCd
    let h ← foldHash childHash extPrefix extBd extCd
    let t ← t.write extIdx (.extension extBd extCd extPrefix newChild h)
    return (extIdx, t)

/-- `remove_at`: remove a leaf below `idx` at depth `depth`; the new index of the subtree. -/
def removeAt : Nat → SparseMerkleTree → NodeIdx → Nat → Hash256 →
    Option (NodeIdx × SparseMerkleTree)
  | 0, _, _, _, _ => none
  | fuel + 1, t, idx, depth, key =>
    if idx = nullIdx then some (nullIdx, t) else do
      match ← t.arena[idx]? with
      | .leaf k _ =>
        if k = key then return (nullIdx, t.freeNode idx) else return (idx, t)
      | .branch bd left right _ =>
        let bit ← getBit key bd
        let (newLeft, newRight, t) ← if bit = 0 then do
            let (newLeft, t) ← removeAt fuel t left (bd + 1) key
            pure (newLeft, right, t)
          else do
            let (newRight, t) ← removeAt fuel t right (bd + 1) key
            pure (left, newRight, t)
        if newLeft = nullIdx ∧ newRight = nullIdx then return (nullIdx, t.freeNode idx)
        if newLeft = nullIdx then (t.freeNode idx).prependExtension newRight depth
        else if newRight = nullIdx then (t.freeNode idx).prependExtension newLeft depth
        else
          let h ← t.computeBranchHash newLeft newRight bd
          let t ← t.write idx (.branch bd newLeft newRight h)
          return (idx, t)
      | .extension bd cd prefixKey child _ =>
        let (newChild, t) ← removeAt fuel t child cd key
        if newChild = nullIdx then return (nullIdx, t.freeNode idx)
        t.tryMergeExtension idx bd cd prefixKey newChild

def insert (key value : Hash256) : Option SparseMerkleTree := do
  let wasPresent := (← t.findLeaf key).isSome
  let (root, t) ← insertAt maxFuel t t.root 0 key value
  let rootHash ← t.subtreeHash root 0
  let leafCount := if wasPresent then t.leafCount else t.leafCount + 1
  return { t with root, rootHash, leafCount }

def remove (key : Hash256) : Option SparseMerkleTree := do
  if (← t.findLeaf key).isNone then return t
  let (root, t) ← removeAt maxFuel t t.root 0 key
  let rootHash ← t.subtreeHash root 0
  if t.leafCount = 0 then none
  else return { t with root, rootHash, leafCount := t.leafCount - 1 }

end SparseMerkleTree

end Exfer.Impl
