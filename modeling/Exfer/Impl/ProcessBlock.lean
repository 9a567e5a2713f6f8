import Exfer.Impl.Node

/-!
# `process_block`

The checks on a new block, the extension of the tip and the reorg of `network/sync.rs`. The node is
returned as the call leaves it, also when it fails; `none` is a panic or a walk to the common
ancestor that does not end.
-/

namespace Exfer.Impl

open Lib (failIf)

variable [Crypto] [Network]

/-- A failed call of the storage ends `process_block` with its message. -/
def orRecoverable {α : Type} : Except String α → Except ProcessResult α
  | .ok a => .ok a
  | .error msg => .error (.error (.recoverable msg))

/-- A row that has to be there. -/
def orMissing {α : Type} (msg : String) : Option α → Except ProcessResult α
  | some a => .ok a
  | none => .error (.error (.recoverable msg))

namespace Node

variable (node : Node)

/-! ## Checks on a new block -/

/-- The parent of a new block and the timestamps before it. -/
def readParent (faults : Faults) (block : Block) :
    Except ProcessResult (BlockHeader × List UInt64) := do
  let known ← orRecoverable (node.storage.hasBlock (faults .hasBlock) block.header.blockId)
  failIf known (.ok .stored)
  failIf (block.header.height = 0)
    (.error (.recoverable "height-0 blocks are not accepted via process_block"))
  let parent ← orRecoverable (node.storage.getHeader (faults .parentHeader) block.header.prevBlockId)
  let parent ← orMissing "parent block not found" parent
  let timestamps ← orRecoverable (node.storage.getAncestorTimestamps
    (fun i => faults (.timestamp i)) 0 mtpWindow block.header.prevBlockId)
  return (parent, timestamps)

/-- The cache with a new entry; a full one gives up the entry of the lowest height. -/
def cacheDifficulty (key : Hash256 × UInt64) (target : Hash256) :
    List ((Hash256 × UInt64) × Hash256) :=
  let cache := node.difficultyCache
  let cache := if cache.length ≥ maxDifficultyCacheEntries then
      match cache.minOn? (fun entry => entry.1.2) with
      | some entry => cache.erase entry
      | none => cache
    else cache
  cache ++ [(key, target)]

def cachedExpectedDifficulty (faults : Faults) (prevBlockId : Hash256) (height : UInt64) :
    Node × Except DifficultyError Hash256 :=
  match node.difficultyCache.lookup (prevBlockId, height) with
  | some target => (node, .ok target)
  | none =>
    match expectedDifficulty (fun i id => node.storage.getHeader (faults (.difficulty i)) id)
        prevBlockId height with
    | .error e => (node, .error e)
    | .ok target =>
      ({ node with difficultyCache := node.cacheDifficulty (prevBlockId, height) target }, .ok target)

/-- The rules on the header of a new block. A block too far in the future is buffered. -/
def checkHeader (block : Block) (parent : BlockHeader) (timestamps : List UInt64)
    (target : Except DifficultyError Hash256) (wallClock : Option UInt64) (skipPow : Bool) :
    Except ProcessResult Unit :=
  match target with
  | .error (.ancestorNotFound id) => .error (.error (.missingReorgAncestor id))
  | .error e => .error (.error (.recoverable e.display))
  | .ok target =>
    match (if skipPow then validateBlockHeaderSkipPow block (some parent) timestamps target wallClock
        else validateBlockHeader block (some parent) timestamps target wallClock) with
    | .error (.timestampTooFarAhead _ _) => .error (.ok .bufferedFuture)
    | .error e => .error (.error (.recoverable ("block header validation failed: " ++ e.display)))
    | .ok () => .ok ()

/-- The assume-valid checkpoint. -/
def verifyCheckpoint (faults : Faults) (block : Block) : Except ProcessResult Node :=
  if node.assumeValid ∧ block.header.height = assumeValidHeight then
    if block.header.blockId = assumeValidHash then
      let trusted := match node.storage.getCumulativeWork (faults .checkpointWork)
          block.header.prevBlockId with
        | .ok (some parentWork) =>
          addWork parentWork (workFromTarget block.header.difficultyTarget) =
            assumeValidCumulativeWork ∧ node.assumeValidCumulativeWorkTrusted
        | _ => node.assumeValidCumulativeWorkTrusted
      .ok { node with assumeValidVerified := true, assumeValidCumulativeWorkTrusted := trusted }
    else .error (.error (.recoverable ("assume-valid checkpoint FAILED at height " ++
      toString assumeValidHeight.toNat ++ ": expected " ++ assumeValidHash.hex ++ ", got " ++
      block.header.blockId.hex)))
  else .ok node

/-- The tip a new block would make. -/
def candidateTip (faults : Faults) (block : Block) : Except ProcessResult ChainTip := do
  let parentWork ← orRecoverable
    (node.storage.getCumulativeWork (faults .parentWork) block.header.prevBlockId)
  let parentWork ← orMissing "parent cumulative work not found" parentWork
  return ChainTip.new block.header.blockId block.header.height block.header.difficultyTarget parentWork

/-- The part of `process_block_inner` before fork choice; an error is an early return. -/
def checkNewBlock (faults : Faults) (block : Block) (wallClock : Option UInt64) (skipPow : Bool) :
    Node × Except ProcessResult ChainTip :=
  match node.readParent faults block with
  | .error r => (node, .error r)
  | .ok (parent, timestamps) =>
    let (node, target) :=
      node.cachedExpectedDifficulty faults block.header.prevBlockId block.header.height
    match checkHeader block parent timestamps target wallClock skipPow with
    | .error r => (node, .error r)
    | .ok () =>
      match node.verifyCheckpoint faults block with
      | .error r => (node, .error r)
      | .ok node => (node, node.candidateTip faults block)

/-! ## Extending the tip -/

/-- Undo an applied block and fail with `msg`. -/
def revertTip (s : UtxoSet) (block : Block) (spent : List (OutPoint × UtxoEntry))
    (context msg : String) : Node × ProcessResult :=
  match undoBlockTransactions block s spent with
  | (s, .error undoErr) => ({ node with utxoSet := s }, .error (.fatal (context ++ undoErr)))
  | (s, .ok ()) => ({ node with utxoSet := s }, .error (.recoverable msg))

/-- A block that extends the tip. -/
def extendTip (faults : Faults) (block : Block) (newTip : ChainTip) :
    Option (Node × ProcessResult) :=
  match validateAndApplyBlockTransactionsAtomic block node.utxoSet with
  | none => none
  | some (s, .error (.stateCorrupted msg)) =>
    some ({ node with utxoSet := s }, .error (.fatal ("block tx apply corrupted state: " ++ msg)))
  | some (s, .error e) =>
    some ({ node with utxoSet := s },
      .error (.recoverable ("block tx validation failed: " ++ e.display)))
  | some (s, .ok (_, mutations)) =>
    let spent := UtxoMutation.collectSpentUtxos mutations
    if block.header.stateRoot ≠ s.stateRoot then
      some (node.revertTip s block spent "state root mismatch rollback failed: "
        "state root mismatch")
    else
      match node.storage.commitBlockAtomic (faults .commitBlock) block newTip.cumulativeWork spent
          mutations with
      | .error e =>
        some (node.revertTip s block spent
          ("storage failed: " ++ e.display ++ ": rollback also failed: ") e.display)
      | .ok storage => some ({ node with storage, utxoSet := s, tip := newTip }, .ok .accepted)

/-! ## The common ancestor -/

/-- A block of the old chain. -/
def oldBlock (faults : Faults) (context : String) (n : Nat) (id : Hash256) :
    Except ProcessBlockError Block :=
  match node.storage.getBlock (faults (.oldBlock n)) id with
  | .error e => .error (.recoverable e.display)
  | .ok none => .error (.fatal ("canonical block " ++ id.hex ++ " missing during reorg (" ++
      context ++ ")"))
  | .ok (some block) => .ok block

/-- A block of the new chain. -/
def newBlock (faults : Faults) (n : Nat) (id : Hash256) : Except ProcessBlockError Block :=
  match node.storage.getBlock (faults (.newBlock n)) id with
  | .error e => .error (.recoverable e.display)
  | .ok none => .error (.missingReorgAncestor id)
  | .ok (some block) => .ok block

/-- `count` blocks back from `id`, the first of them read number `n`, and the id before them. -/
def walk (read : Nat → Hash256 → Except ProcessBlockError Block) :
    (count n : Nat) → Hash256 → Except ProcessBlockError (List Block × Hash256)
  | 0, _, id => .ok ([], id)
  | count + 1, n, id => do
    let block ← read n id
    let (blocks, id) ← walk read count (n + 1) block.header.prevBlockId
    return (block :: blocks, id)

/-- Both chains back to the block they share, from `n` and `m` blocks on. -/
def walkBoth (faults : Faults) : (fuel n m : Nat) → Hash256 → Hash256 →
    Option (Except ProcessBlockError (List Block × List Block × Hash256))
  | 0, _, _, _, _ => none
  | fuel + 1, n, m, oldId, newId =>
    if oldId = newId then some (.ok ([], [], oldId))
    else
      match node.oldBlock faults "old walk" n oldId with
      | .error e => some (.error e)
      | .ok old =>
        match node.newBlock faults m newId with
        | .error e => some (.error e)
        | .ok new =>
          match walkBoth faults fuel (n + 1) (m + 1) old.header.prevBlockId
              new.header.prevBlockId with
          | none => none
          | some (.error e) => some (.error e)
          | some (.ok (olds, news, id)) => some (.ok (old :: olds, new :: news, id))

/-- The blocks to undo and those to apply, the latest first, and the block they both extend. A
walk from one height down takes one round more than the height, to the parent of the first
block. -/
def commonAncestor (faults : Faults) (block : Block) :
    Option (Except ProcessBlockError (List Block × List Block × Hash256)) :=
  let oldHeight := node.tip.height.toNat
  let newHeight := block.header.height.toNat - 1
  match walk (node.oldBlock faults "old chain") (oldHeight - newHeight) 0 node.tip.blockId with
  | .error e => some (.error e)
  | .ok (olds, oldId) =>
    match walk (node.newBlock faults) (newHeight - oldHeight) 0 block.header.prevBlockId with
    | .error e => some (.error e)
    | .ok (news, newId) =>
      match node.walkBoth faults (min oldHeight newHeight + 2) olds.length news.length oldId newId with
      | none => none
      | some (.error e) => some (.error e)
      | some (.ok (olds', news', id)) => some (.ok (olds ++ olds', block :: news ++ news', id))

end Node

/-! ## Undo and redo -/

/-- The loop over the transactions of a block in reverse, with the entries the block spent. -/
def undoTransactions (spent : List (OutPoint × UtxoEntry)) (s : UtxoSet) :
    List Transaction → UtxoSet × Except StateError Unit
  | [] => (s, .ok ())
  | tx :: txs =>
    match s.undoTransaction tx (spentBy tx spent) with
    | (s, .error e) => (s, .error e)
    | (s, .ok ()) => undoTransactions spent s txs

/-- The loop of `redo_old_chain_blocks` over the transactions of a block. -/
def redoTransactions (height : UInt64) (s : UtxoSet) :
    List Transaction → UtxoSet × Except String Unit
  | [] => (s, .ok ())
  | tx :: txs =>
    match s.applyTransaction tx height with
    | (s, .error e) => (s, .error ("redo_old_chain apply_transaction failed at height " ++
        toString height.toNat ++ ": " ++ e.display))
    | (s, .ok _) => redoTransactions height s txs

/-- The loop of `redo_old_chain_blocks`, over the blocks from the oldest on. -/
def redoBlocks (s : UtxoSet) : List Block → UtxoSet × Except String Unit
  | [] => (s, .ok ())
  | blk :: rest =>
    match redoTransactions blk.header.height s blk.transactions with
    | (s, .error e) => (s, .error e)
    | (s, .ok ()) => redoBlocks s rest

def redoOldChainBlocks (s : UtxoSet) (blocksNewestFirst : List Block) : UtxoSet × Except String Unit :=
  redoBlocks s blocksNewestFirst.reverse

/-- The loop of `undo_applied_new_chain`, over the blocks from the newest on. -/
def undoBlocks (allSpent : List (Hash256 × List (OutPoint × UtxoEntry))) (s : UtxoSet) :
    List Block → UtxoSet × Except String Unit
  | [] => (s, .ok ())
  | blk :: rest =>
    match allSpent.lookup blk.header.blockId with
    | none => (s, .error ("missing spent-UTXO metadata for block " ++ blk.header.blockId.hex ++
        " at height " ++ toString blk.header.height.toNat ++ " — cannot undo"))
    | some spent =>
      match undoTransactions spent s blk.transactions.reverse with
      | (s, .error e) => (s, .error ("undo_applied_new_chain failed at height " ++
          toString blk.header.height.toNat ++ ": " ++ e.display))
      | (s, .ok ()) => undoBlocks allSpent s rest

def undoAppliedNewChain (s : UtxoSet) (blocksOldestFirst : List Block)
    (allSpent : List (Hash256 × List (OutPoint × UtxoEntry))) : UtxoSet × Except String Unit :=
  undoBlocks allSpent s blocksOldestFirst.reverse

/-- Undo the new chain and apply the old one again. -/
def restoreOldChain (s : UtxoSet) (context : String) (applied : List Block)
    (allSpent : List (Hash256 × List (OutPoint × UtxoEntry))) (oldChain : List Block) :
    UtxoSet × Except ProcessBlockError Unit :=
  match undoAppliedNewChain s applied allSpent with
  | (s, .error e) => (s, .error (.fatal (context ++ ": new-chain undo failed: " ++ e)))
  | (s, .ok ()) =>
    match redoOldChainBlocks s oldChain with
    | (s, .error e) => (s, .error (.fatal (context ++ ": old-chain redo failed: " ++ e)))
    | (s, .ok ()) => (s, .ok ())

namespace Node

variable (node : Node)

/-! ## Undoing the old chain -/

/-- A reorg whose undo metadata cannot be read: apply what has been undone again and give up. -/
def giveUpUndo (s : UtxoSet) (undone : List Block) (e : String) :
    UtxoSet × Except ProcessBlockError Unit :=
  match redoOldChainBlocks s undone with
  | (s, .error redoErr) => (s, .error (.fatal (e ++ ": redo also failed: " ++ redoErr)))
  | (s, .ok ()) => (s, .error (.fatal e))

/-- The loop that undoes the old chain, the latest block first; `undone` are those before. -/
def undoOldChain (faults : Faults) (s : UtxoSet) (undone : List Block) :
    List Block → UtxoSet × Except ProcessBlockError Unit
  | [] => (s, .ok ())
  | blk :: rest =>
    match node.storage.getSpentUtxos (faults (.spentUtxos undone.length)) blk.header.blockId with
    | .error e => giveUpUndo s undone e
    | .ok none => giveUpUndo s undone ("missing spent-UTXO metadata for block " ++
        blk.header.blockId.hex ++ " at height " ++ toString blk.header.height.toNat ++
        " during reorg undo")
    | .ok (some spent) =>
      match undoTransactions spent s blk.transactions.reverse with
      | (s, .error e) => ((redoOldChainBlocks s undone).1,
          .error (.fatal ("reorg undo_transaction failed: " ++ e.display)))
      | (s, .ok ()) => undoOldChain faults s (undone ++ [blk]) rest

/-! ## Applying the new chain -/

/-- The check of the header of a stored block, number `n` of the new chain. -/
def checkStoredHeader (faults : Faults) (n : Nat) (blk : Block) : Except ProcessBlockError Unit :=
  let prevBlockId := blk.header.prevBlockId
  match node.storage.getHeader (faults (.reorgHeader n)) prevBlockId with
  | .error e => .error (.fatal ("reorg: storage error reading parent header: " ++ e))
  | .ok none => .error (.fatal ("reorg: parent header missing for block at height " ++
      toString blk.header.height.toNat))
  | .ok (some parent) =>
    match node.storage.getAncestorTimestamps (fun i => faults (.reorgTimestamp n i)) 0 mtpWindow
        prevBlockId with
    | .error e => .error (.fatal ("reorg: ancestor timestamps error: " ++ e))
    | .ok timestamps =>
      match expectedDifficulty (fun i id => node.storage.getHeader (faults (.reorgDifficulty n i)) id)
          prevBlockId blk.header.height with
      | .error (.ancestorNotFound id) => .error (.missingReorgAncestor id)
      | .error e => .error (.fatal ("reorg: difficulty computation error: " ++ e.display))
      | .ok target =>
        match validateBlockHeaderSkipPow blk (some parent) timestamps target none with
        | .error e => .error (.recoverable ("reorg: header re-validation failed at height " ++
            toString blk.header.height.toNat ++ ": " ++ e.display))
        | .ok () => .ok ()

/-- One block of the new chain. -/
def applyNewBlock (faults : Faults) (n : Nat) (s : UtxoSet) (blk : Block) :
    Option (UtxoSet × Except ProcessBlockError (List UtxoMutation)) :=
  match node.checkStoredHeader faults n blk with
  | .error e => some (s, .error e)
  | .ok () =>
    match validateAndApplyBlockTransactionsAtomic blk s with
    | none => none
    | some (s, .error (.stateCorrupted msg)) =>
      some (s, .error (.fatal ("reorg block apply corrupted state: " ++ msg)))
    | some (s, .error e) =>
      some (s, .error (.recoverable ("reorg block tx validation failed: " ++ e.display)))
    | some (s, .ok (_, mutations)) =>
      if blk.header.stateRoot ≠ s.stateRoot then
        match undoBlockTransactions blk s (UtxoMutation.collectSpentUtxos mutations) with
        | (s, .error undoErr) => some (s, .error (.fatal ("state root mismatch at height " ++
            toString blk.header.height.toNat ++ ": rollback failed: " ++ undoErr)))
        | (s, .ok ()) => some (s, .error (.recoverable ("state root mismatch during reorg at height " ++
            toString blk.header.height.toNat)))
      else some (s, .ok mutations)

/-- The loop over the new chain, the oldest block first; `applied` are those before, with their
mutations. -/
def applyNewChain (faults : Faults) (s : UtxoSet) (applied : List (Block × List UtxoMutation)) :
    List Block →
      Option (UtxoSet × List (Block × List UtxoMutation) × Except ProcessBlockError Unit)
  | [] => some (s, applied, .ok ())
  | blk :: rest =>
    match node.applyNewBlock faults applied.length s blk with
    | none => none
    | some (s, .error e) => some (s, applied, .error e)
    | some (s, .ok mutations) => applyNewChain faults s (applied ++ [(blk, mutations)]) rest

/-- The spent entries of the applied blocks. -/
def spentOf (applied : List (Block × List UtxoMutation)) :
    List (Hash256 × List (OutPoint × UtxoEntry)) :=
  applied.map fun x => (x.1.header.blockId, UtxoMutation.collectSpentUtxos x.2)

/-- The cumulative work of the blocks of the new chain, on top of that of the common ancestor. -/
def cumulativeWorks : Work → List Block → List (Hash256 × Work)
  | _, [] => []
  | prevWork, blk :: rest =>
    let work := addWork prevWork (workFromTarget blk.header.difficultyTarget)
    (blk.header.blockId, work) :: cumulativeWorks work rest

/-! ## After the switch -/

/-- The storage phase of the demotion of the old chain, block `n` on: the blocks stored as fork
blocks. Failures are skipped. -/
def demoteBlocks (faults : Faults) :
    (n : Nat) → Storage → List Block → Storage × List (Hash256 × Work)
  | _, s, [] => (s, [])
  | n, s, blk :: rest =>
    match s.getCumulativeWork (faults (.demotedWork n)) blk.header.blockId with
    | .ok (some work) =>
      match s.storeForkBlockAtomic (faults (.demotedStore n)) blk work with
      | .error _ => demoteBlocks faults (n + 1) s rest
      | .ok s =>
        let (s, stored) := demoteBlocks faults (n + 1) s rest
        (s, (blk.header.blockId, work) :: stored)
    | _ => demoteBlocks faults (n + 1) s rest

/-- Evict trimmed blocks; failures are ignored. -/
def evictTrimmed (faults : Faults) : (n : Nat) → Storage → List Hash256 → Storage
  | _, s, [] => s
  | n, s, id :: ids =>
    evictTrimmed faults (n + 1) (s.evictForkBlock (fun i => faults (.demotedTrim n i)) id).1 ids

/-- The pool with the demoted blocks. -/
def addDemoted (pool stored : List (Hash256 × Work)) : List (Hash256 × Work) :=
  stored.foldl (fun pool entry =>
    if pool.any fun other => other.1 = entry.1 then pool else pool ++ [entry]) pool

/-- The demotion of the old chain to fork blocks, and the promoted blocks out of the pool. -/
def demote (faults : Faults) (oldChain newChain : List Block) : Node :=
  let (storage, stored) := demoteBlocks faults 0 node.storage oldChain
  let pool := addDemoted node.forkBlocks stored
  let (pool, trimmed) := trimPool weakest (pool.length - maxForkBlocks) pool
  let promoted := newChain.map fun blk => blk.header.blockId
  { node with
    storage := evictTrimmed faults 0 storage trimmed
    forkBlocks := pool.filter fun entry => entry.1 ∉ promoted }

/-! ## The reorg -/

/-- The end of a reorg, with the new chain applied: the commit and the demotion of the old chain. -/
def finishReorg (faults : Faults) (block : Block) (newTip : ChainTip) (s : UtxoSet)
    (oldChain : List Block) (applied : List (Block × List UtxoMutation)) (forkPoint : Hash256) :
    Node × ProcessResult :=
  let newChain := applied.map Prod.fst
  match node.storage.getCumulativeWork (faults .forkPointWork) forkPoint with
  | .error msg => ({ node with utxoSet := s }, .error (.recoverable msg))
  | .ok none => ({ node with utxoSet := s }, .error (.fatal ("fork point " ++ forkPoint.hex ++
      " cumulative work missing during reorg")))
  | .ok (some forkPointWork) =>
    match node.storage.commitReorgAtomic (faults .commitReorg) block newTip.cumulativeWork oldChain
        (spentOf applied) (applied.map fun x => (x.1.header.blockId, x.2))
        (newChain.map fun blk => (blk.header.height, blk.header.blockId)) newChain
        (cumulativeWorks forkPointWork newChain)
        (if node.tip.height > block.header.height then some (block.header.height + 1, node.tip.height)
          else none)
        block.header.blockId with
    | .error e =>
      match restoreOldChain s ("storage failed: " ++ e.display) newChain (spentOf applied) oldChain with
      | (s, .error fatal) => ({ node with utxoSet := s }, .error fatal)
      | (s, .ok ()) => ({ node with utxoSet := s }, .error (.recoverable e.display))
    | .ok storage =>
      ({ ({ node with storage, utxoSet := s }.demote faults oldChain newChain) with tip := newTip },
        .ok .accepted)

/-- A block that wins without extending the tip. -/
def reorg (faults : Faults) (block : Block) (newTip : ChainTip) : Option (Node × ProcessResult) :=
  match node.commonAncestor faults block with
  | none => none
  | some (.error e) => some (node, .error e)
  | some (.ok (oldChain, newChain, forkPoint)) =>
    match node.undoOldChain faults node.utxoSet [] oldChain with
    | (s, .error e) => some ({ node with utxoSet := s }, .error e)
    | (s, .ok ()) =>
      match node.applyNewChain faults s [] newChain.reverse with
      | none => none
      | some (s, applied, .error e) =>
        match restoreOldChain s e.display (applied.map Prod.fst) (spentOf applied) oldChain with
        | (s, .error fatal) => some ({ node with utxoSet := s }, .error fatal)
        | (s, .ok ()) => some ({ node with utxoSet := s }, .error e)
      | some (s, applied, .ok ()) =>
        some (node.finishReorg faults block newTip s oldChain applied forkPoint)

/-! ## `process_block` -/

def processBlockInner (faults : Faults) (block : Block) (wallClock : Option UInt64)
    (skipPow : Bool) : Option (Node × ProcessResult) :=
  match node.checkNewBlock faults block wallClock skipPow with
  | (node, .error r) => some (node, r)
  | (node, .ok newTip) =>
    if ! isBetterChain newTip node.tip then some (node.storeFork faults block newTip)
    else if block.header.prevBlockId = node.tip.blockId then node.extendTip faults block newTip
    else node.reorg faults block newTip

def processBlock (faults : Faults) (block : Block) (wallClock : Option UInt64) :
    Option (Node × ProcessResult) :=
  node.processBlockInner faults block wallClock false

def processBlockPreValidated (faults : Faults) (block : Block) (wallClock : Option UInt64) :
    Option (Node × ProcessResult) :=
  node.processBlockInner faults block wallClock true

end Node

end Exfer.Impl
