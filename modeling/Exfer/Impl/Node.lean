import Exfer.Impl.Storage
import Exfer.Impl.Validation.Block

/-!
# Block processing

`network/sync.rs`: what a node does with a block. A block is checked against its parent
(`checkNewBlock`); if it does not make a better chain it goes to the bounded pool of fork blocks
(`tryStoreForkBlock`), and otherwise it extends the tip (`extendTip`) or the node switches to its
branch (`reorg`). The calls of the storage that fail, and their messages, are an argument
(`Faults`); every call of one run of `process_block` has its own name.
-/

namespace Exfer.Impl

open Lib (Map)

def mtpWindow : Nat := 11

def maxForkBlocks : Nat := 128

def maxForkBlockSize : Nat := maxBlockSize

def maxDifficultyCacheEntries : Nat := 256

def maxTriggersPerAncestor : Nat := 16

def maxGlobalTriggers : Nat := 64

def assumeValidHeight : UInt64 := 500000

def assumeValidHash : Hash256 :=
  #v[0xdb, 0x1f, 0x9c, 0xa3, 0x6c, 0x3e, 0x12, 0xbf, 0x03, 0x01, 0xfb, 0x65, 0xea, 0x9c, 0xf2, 0x18,
    0xa7, 0x53, 0xf3, 0xd8, 0x0f, 0x1a, 0x07, 0xb5, 0x9d, 0x6e, 0xa1, 0x32, 0x37, 0x32, 0x19, 0x40]

def assumeValidCumulativeWork : Work :=
  #v[0x00, 0x00, 0x00, 0x00, 0x00, 0x00, 0x00, 0x00, 0x00, 0x00, 0x00, 0x00, 0x00, 0x00, 0x00, 0x00,
    0x00, 0x00, 0x00, 0x00, 0x00, 0x00, 0x00, 0x00, 0x00, 0x00, 0x01, 0xdc, 0x5d, 0x56, 0x4b, 0xd4]

inductive ProcessBlockError where
  | recoverable (msg : String)
  | fatal (msg : String)
  | missingReorgAncestor (id : Hash256)
  deriving DecidableEq

/-- The `Display` form of an error of `process_block`. -/
def ProcessBlockError.display : ProcessBlockError → String
  | .recoverable msg => msg
  | .fatal msg => "FATAL: " ++ msg
  | .missingReorgAncestor id => "missing reorg ancestor: " ++ id.hex

def ProcessBlockError.isFatal : ProcessBlockError → Bool
  | .fatal _ => true
  | _ => false

inductive ProcessBlockOutcome where
  | accepted
  | stored
  | bufferedFuture
  deriving DecidableEq

/-- What `process_block` returns. -/
abbrev ProcessResult := Except ProcessBlockError ProcessBlockOutcome

/-- The calls of the storage in one run of `process_block`. Calls in loops carry their round. -/
inductive StorageCall where
  | hasBlock
  | parentHeader
  | timestamp (i : Nat)
  | difficulty (i : Nat)
  | checkpointWork
  | parentWork
  | forkHasBlock
  | forkEvict (i : Nat)
  | forkStore
  | forkIsForkBlock
  | forkTrim (n i : Nat)
  | commitBlock
  | oldBlock (n : Nat)
  | newBlock (n : Nat)
  | spentUtxos (n : Nat)
  | reorgHeader (n : Nat)
  | reorgTimestamp (n i : Nat)
  | reorgDifficulty (n i : Nat)
  | forkPointWork
  | commitReorg
  | demotedWork (n : Nat)
  | demotedStore (n : Nat)
  | demotedTrim (n i : Nat)
  deriving DecidableEq

/-- Which calls of the storage fail, and with which message. -/
abbrev Faults := StorageCall → Option String

/-- Every call of the storage succeeds. -/
def noFaults : Faults := fun _ => none

/-! ## Reorg triggers -/

structure ReorgTriggerState where
  triggers : Map Hash256 (List Block)
  order : List Hash256

namespace ReorgTriggerState

def new : ReorgTriggerState := ⟨∅, []⟩

/-- One round of the loop that makes room: the oldest trigger goes. -/
def evictOldest (t : ReorgTriggerState) : ReorgTriggerState :=
  match t.order with
  | [] => t
  | ancestor :: order =>
    match (t.triggers.lookup ancestor).map List.tail with
    | none => ⟨t.triggers, order⟩
    | some [] => ⟨t.triggers.erase ancestor, order⟩
    | some blocks => ⟨t.triggers.insert ancestor blocks, order⟩

/-- The loop that makes room; each round shortens the queue. -/
def makeRoom (t : ReorgTriggerState) : ReorgTriggerState :=
  Nat.repeat evictOldest (t.order.length + 1 - maxGlobalTriggers) t

def insert (t : ReorgTriggerState) (ancestorId : Hash256) (triggerBlock : Block) :
    ReorgTriggerState × Bool :=
  if ((t.triggers.lookup ancestorId).getD []).length ≥ maxTriggersPerAncestor then (t, false)
  else
    let t := t.makeRoom
    let blocks := (t.triggers.lookup ancestorId).getD []
    if blocks.length < maxTriggersPerAncestor then
      (⟨t.triggers.insert ancestorId (blocks ++ [triggerBlock]), t.order ++ [ancestorId]⟩, true)
    else (t, false)

def take (t : ReorgTriggerState) (ancestorId : Hash256) : ReorgTriggerState × Option (List Block) :=
  (⟨t.triggers.erase ancestorId, t.order.filter (· ≠ ancestorId)⟩, t.triggers.lookup ancestorId)

end ReorgTriggerState

variable [Crypto]

/-- The parts of `Node` that block processing works on. -/
structure Node where
  storage : Storage
  utxoSet : UtxoSet
  tip : ChainTip
  /-- The pool of fork blocks with their cumulative work. -/
  forkBlocks : List (Hash256 × Work)
  reorgTriggers : ReorgTriggerState
  /-- The oldest entry first. -/
  difficultyCache : List ((Hash256 × UInt64) × Hash256)
  assumeValid : Bool
  assumeValidVerified : Bool
  assumeValidCumulativeWorkTrusted : Bool

/-! ## The pool of fork blocks -/

/-- `min_by` on the work of the entries: the first of the weakest ones. -/
def weakest : List (Hash256 × Work) → Option (Hash256 × Work)
  | [] => none
  | entry :: rest =>
    match weakest rest with
    | none => some entry
    | some other => if other.2.toList < entry.2.toList then some other else some entry

/-- `swap_remove` of an entry: the last one takes its place. -/
def swapRemove (pool : List (Hash256 × Work)) (entry : Hash256 × Work) : List (Hash256 × Work) :=
  (pool.set (pool.idxOf entry) (pool.getLastD entry)).dropLast

/-- The entry the pool gives up when it is over its bound: the weakest one that no reorg waits for,
if there is one. -/
def trimVictim (needed : Hash256 → Bool) (pool : List (Hash256 × Work)) :
    Option (Hash256 × Work) :=
  match weakest (pool.filter fun entry => ! needed entry.1) with
  | some entry => some entry
  | none => weakest pool

/-- The loop that enforces the bound of the pool; the ids of the removed entries beside it. -/
def trimPool (victim : List (Hash256 × Work) → Option (Hash256 × Work)) :
    (rounds : Nat) → List (Hash256 × Work) → List (Hash256 × Work) × List Hash256
  | 0, pool => (pool, [])
  | rounds + 1, pool =>
    match victim pool with
    | none => (pool, [])
    | some entry =>
      let (rest, removed) := trimPool victim rounds (swapRemove pool entry)
      (rest, entry.1 :: removed)

/-- Evict the given blocks, call `n` on; the first failure ends it. -/
def evictAll (faults : Nat → Nat → Option String) :
    (n : Nat) → Storage → List Hash256 → Storage × Except StorageError Unit
  | _, s, [] => (s, .ok ())
  | n, s, id :: ids =>
    match s.evictForkBlock (faults n) id with
    | (s, .error e) => (s, .error e)
    | (s, .ok ()) => evictAll faults (n + 1) s ids

namespace Node

variable (node : Node)

/-- Whether a pending reorg waits for a block. -/
def reorgNeeded (id : Hash256) : Bool :=
  (node.reorgTriggers.triggers.lookup id).isSome

/-- The decision phase of `try_store_fork_block`: the block to evict, if any, or `none` if the new
one is dropped. -/
def forkVictim (blockId : Hash256) (cumulativeWork : Work) : Option (Option Hash256) :=
  if node.forkBlocks.length < maxForkBlocks then some none
  else
    match weakest node.forkBlocks with
    | none => some none
    | some entry =>
      if entry.2.toList < cumulativeWork.toList then some (some entry.1)
      else if node.reorgNeeded blockId then
        match weakest (node.forkBlocks.filter fun entry => ! node.reorgNeeded entry.1) with
        | none => none
        | some victim => some (some victim.1)
      else none

/-- The commit phase of `try_store_fork_block`: the pool with the new entry, and what had to go. -/
def commitForkBlock (evicted : Option Hash256) (blockId : Hash256) (cumulativeWork : Work) :
    List (Hash256 × Work) × List Hash256 :=
  let pool := node.forkBlocks.filter fun entry => some entry.1 ≠ evicted
  let pool := if pool.any fun entry => entry.1 = blockId then pool
    else pool ++ [(blockId, cumulativeWork)]
  trimPool (trimVictim node.reorgNeeded) (pool.length - maxForkBlocks) pool

/-- The eviction before a fork block is stored. -/
def makeForkRoom (faults : Faults) (evicted : Option Hash256) :
    Storage × Except StorageError Unit :=
  match evicted with
  | none => (node.storage, .ok ())
  | some id => node.storage.evictForkBlock (fun i => faults (.forkEvict i)) id

/-- The storage and commit phases of `try_store_fork_block`. -/
def admitForkBlock (faults : Faults) (block : Block) (cumulativeWork : Work)
    (evicted : Option Hash256) : Node × Except ProcessBlockError Bool :=
  let blockId := block.header.blockId
  match node.makeForkRoom faults evicted with
  | (storage, .error e) => ({ node with storage }, .error (.recoverable e.display))
  | (storage, .ok ()) =>
    let node := { node with storage }
    match storage.storeForkBlockAtomic (faults .forkStore) block cumulativeWork with
    | .error e => (node, .error (.recoverable e.display))
    | .ok storage =>
      let node := { node with storage }
      match storage.isForkBlock (faults .forkIsForkBlock) blockId with
      | .error msg => (node, .error (.recoverable msg))
      | .ok false => (node, .ok false)
      | .ok true =>
        let (forkBlocks, trimmed) := node.commitForkBlock evicted blockId cumulativeWork
        match evictAll (fun n i => faults (.forkTrim n i)) 0 storage trimmed with
        | (storage, .error e) => ({ node with storage, forkBlocks }, .error (.recoverable e.display))
        | (storage, .ok ()) => ({ node with storage, forkBlocks }, .ok true)

def tryStoreForkBlock (faults : Faults) (block : Block) (cumulativeWork : Work) :
    Node × Except ProcessBlockError Bool :=
  let blockId := block.header.blockId
  match node.storage.hasBlock (faults .forkHasBlock) blockId with
  | .error msg => (node, .error (.recoverable msg))
  | .ok true => (node, .ok false)
  | .ok false =>
    match block.serialize with
    | .error _ => (node, .ok false)
    | .ok bytes =>
      if bytes.length > maxForkBlockSize then (node, .ok false)
      else if node.forkBlocks.any fun entry => entry.1 = blockId then (node, .ok false)
      else
        match node.forkVictim blockId cumulativeWork with
        | none => (node, .ok false)
        | some evicted => node.admitForkBlock faults block cumulativeWork evicted

/-- What `process_block` does with a block that does not make a better chain. -/
def storeFork (faults : Faults) (block : Block) (newTip : ChainTip) : Node × ProcessResult :=
  match computeTxRoot block.transactions with
  | .error e => (node, .error (.recoverable ("fork block tx_root computation failed: " ++ e.display)))
  | .ok root =>
    if block.header.txRoot ≠ root then (node, .error (.recoverable "fork block tx_root mismatch"))
    else
      match validateBlockStructure block with
      | .error e => (node, .error (.recoverable ("fork block structure invalid: " ++ e.display)))
      | .ok () =>
        match node.tryStoreForkBlock faults block newTip.cumulativeWork with
        | (node, .error e) => (node, .error e)
        | (node, .ok _) => (node, .ok .stored)

end Node

end Exfer.Impl
