import Exfer.Impl.Mempool
import Exfer.Impl.ProcessBlock

/-!
# The mempool between blocks and peers

The parts of `network/sync.rs` that use the mempool: `reader_task` at a `NewTx`, and the end of
`process_block_inner`, where the mempool is cleaned up after a block. Each works under the lock of the
UTXO set, of the tip or of the mempool for a moment at a time, on what it has copied before:
`PoolTask.step` is what a task does under the next lock it takes, with what it computes until the lock
after. The tip is written under the write lock of the UTXO set, so a task that holds the read lock
sees both as one block left them.
-/

namespace Exfer.Impl

variable [Crypto]

/-- `tip.height.saturating_add(1)`. -/
def ChainTip.nextHeight (tip : ChainTip) : UInt64 :=
  if tip.height.toNat + 1 < 2 ^ 64 then tip.height + 1 else tip.height

variable [Network]

/-! ## Transactions -/

/-- A transaction that `validate_transaction` has accepted against a snapshot at a height, with the
fee and the costs it returned. -/
structure ValidatedTx where
  tx : Transaction
  snapshot : UtxoSet
  height : UInt64
  fee : Nat
  scriptCost : Nat
  scriptValidationCost : Nat
  valid : validateTransaction tx snapshot height = .ok (fee, scriptCost, scriptValidationCost)

/-- `validate_transaction` against a snapshot of the outputs a transaction spends. -/
def validateAt (tx : Transaction) (s : UtxoSet) (height : UInt64) : Option ValidatedTx :=
  let snapshot := s.snapshotForOutpoints tx.outpoints
  match h : validateTransaction tx snapshot height with
  | .ok (fee, scriptCost, scriptValidationCost) =>
    some ⟨tx, snapshot, height, fee, scriptCost, scriptValidationCost, h⟩
  | .error _ => none

/-- `add_validated` with a validated transaction. -/
def Mempool.addTx (m : Mempool) (v : ValidatedTx) :
    Option (Mempool × Except MempoolError Hash256) :=
  m.addValidated v.tx v.fee v.scriptCost v.scriptValidationCost v.snapshot

/-- `add_validated` with one transaction after another; errors are ignored. -/
def Mempool.addTxs (m : Mempool) : List ValidatedTx → Option Mempool
  | [] => some m
  | v :: vs =>
    match m.addTx v with
    | none => none
    | some (m, _) => addTxs m vs

/-! ## Tasks -/

/-- A task that is about to take a lock. -/
inductive PoolTask where
  /-- A new transaction: the mempool, for `pre_check`. -/
  | preCheck (tx : Transaction)
  /-- A new transaction: the UTXO set and the tip, for the snapshots. -/
  | snapshotTx (tx : Transaction)
  /-- A new transaction that is valid: the tip again. -/
  | readTip (v : ValidatedTx) (tipSnapshot : ChainTip)
  /-- A new transaction that is valid: the mempool, for `add_validated`. -/
  | addTx (v : ValidatedTx) (tipSnapshot : ChainTip) (currentTip : Hash256)
  /-- A block: the UTXO set, for writing. -/
  | processBlock
  /-- After a block: the mempool, for `remove_confirmed` and `referenced_outpoints`. -/
  | removeConfirmed (confirmed orphaned : List Transaction)
  /-- After a block: the tip, for the new height. -/
  | readHeight (outpoints : List OutPoint) (orphaned : List Transaction)
  /-- After a block: the UTXO set, for the snapshot. -/
  | snapshotPool (newHeight : UInt64) (outpoints : List OutPoint) (orphaned : List Transaction)
  /-- After a block: the mempool, for `revalidate`. -/
  | revalidate (newHeight : UInt64) (snapshot : UtxoSet) (orphaned : List Transaction)
  /-- After a reorg: the UTXO set, for the snapshots of orphaned transactions. -/
  | snapshotOrphans (newHeight : UInt64) (orphaned : List Transaction)
  /-- After a reorg: the mempool, for the orphaned transactions that are still valid. -/
  | reintroduce (orphans : List ValidatedTx)

/-- What a task does under the next lock, given what the locks protect: the mempool it leaves and what
it goes on as. `process_block` is left to the chain; else `none` is an admission that does not
end. -/
def PoolTask.step (s : UtxoSet) (tip : ChainTip) (m : Mempool) :
    PoolTask → Option (Mempool × Option PoolTask)
  | .preCheck tx =>
    match m.preCheck tx with
    | .error _ => some (m, none)
    | .ok () => some (m, some (.snapshotTx tx))
  | .snapshotTx tx => some (m, (validateAt tx s tip.nextHeight).map fun v => .readTip v tip)
  | .readTip v tipSnapshot => some (m, some (.addTx v tipSnapshot tip.blockId))
  | .addTx v tipSnapshot currentTip =>
    if currentTip ≠ tipSnapshot.blockId then some (m, none)
    else (m.addTx v).map fun r => (r.1, none)
  | .processBlock => none
  | .removeConfirmed confirmed orphaned =>
    let m := m.removeConfirmed confirmed
    some (m, some (.readHeight m.referencedOutpoints orphaned))
  | .readHeight outpoints orphaned => some (m, some (.snapshotPool tip.nextHeight outpoints orphaned))
  | .snapshotPool newHeight outpoints orphaned =>
    some (m, some (.revalidate newHeight (s.snapshotForOutpoints outpoints) orphaned))
  | .revalidate newHeight snapshot orphaned =>
    some (m.revalidate snapshot newHeight,
      if orphaned = [] then none else some (.snapshotOrphans newHeight orphaned))
  | .snapshotOrphans newHeight orphaned =>
    let orphans := orphaned.filterMap fun tx => validateAt tx s newHeight
    some (m, if orphans.isEmpty then none else some (.reintroduce orphans))
  | .reintroduce orphans => (m.addTxs orphans).map fun m => (m, none)

/-! ## Blocks -/

namespace Node

variable (node : Node)

/-- The part of `process_block_inner` under the write lock of the UTXO set. -/
def commitBlock (faults : Faults) (block : Block) (newTip : ChainTip) :
    Option (Node × ProcessResult) :=
  if ! isBetterChain newTip node.tip then some (node.storeFork faults block newTip)
  else if block.header.prevBlockId = node.tip.blockId then node.extendTip faults block newTip
  else node.reorg faults block newTip

/-- The blocks that an accepted block disconnects and those it connects, the oldest first. -/
def connected (faults : Faults) (block : Block) : Option (List Block × List Block) :=
  if block.header.prevBlockId = node.tip.blockId then some ([], [block])
  else
    match node.commonAncestor faults block with
    | some (.ok (oldChain, newChain, _)) => some (oldChain, newChain.reverse)
    | _ => none

end Node

/-- `all_confirmed_txs`. -/
def confirmedTxs (newChain : List Block) : List Transaction :=
  newChain.flatMap Block.transactions

/-- `orphaned_txs`: the transactions of the disconnected blocks, coinbases apart, that the new chain
does not have. -/
def orphanedTxs (oldChain newChain : List Block) : List Transaction :=
  let newTxIds := (confirmedTxs newChain).filterMap fun tx => tx.txId.toOption
  (oldChain.flatMap Block.transactions).filter fun tx =>
    ! tx.isCoinbase &&
      match tx.txId with
      | .ok txId => decide (txId ∉ newTxIds)
      | .error _ => false

end Exfer.Impl
