import Exfer.Impl.Network.Relay
import Exfer.Lib.Interleave

/-!
# Interleavings of blocks and transactions over the mempool

Any number of tasks relay transactions and process blocks, interleaved at the locks they take
(`poolTasks`). What a block does to the chain is a parameter (`ChainModel`), of which `nodeChain` is the
node of the model: a block that is accepted may change the UTXO set and the tip, and what is not
accepted leaves both.
-/

namespace Exfer.Spec

open Lib Impl

variable [Crypto] [Network]

/-- A chain with its UTXO set and tip, and what an accepted block may do to it, with the transactions
it confirms and those it orphans. -/
structure ChainModel where
  State : Type
  utxoSet : State → UtxoSet
  tip : State → ChainTip
  commits : State → State → (confirmed orphaned : List Transaction) → Prop

/-- The node, where a block may be accepted that has passed the checks before the write lock in
whatever state the node was then. -/
def nodeChain : ChainModel where
  State := Node
  utxoSet node := node.utxoSet
  tip node := node.tip
  commits node node' confirmed orphaned :=
    ∃ (faults : Faults) (block : Block) (wallClock : Option UInt64) (skipPow : Bool)
      (before checked : Node) (newTip : ChainTip) (oldChain newChain : List Block),
      before.checkNewBlock faults block wallClock skipPow = (checked, .ok newTip) ∧
        node.commitBlock faults block newTip = some (node', .ok .accepted) ∧
        node.connected faults block = some (oldChain, newChain) ∧
        confirmed = confirmedTxs newChain ∧ orphaned = orphanedTxs oldChain newChain

/-- What the locks protect. -/
structure PoolState (L : ChainModel) where
  chain : L.State
  mempool : Mempool

namespace PoolState

variable {L : ChainModel} (s : PoolState L)

/-- The UTXO set. -/
def utxoSet : UtxoSet :=
  L.utxoSet s.chain

/-- The tip. -/
def tip : ChainTip :=
  L.tip s.chain

/-- A transaction passes `validate_transaction` against the UTXO set at the next height. -/
def Valid (tx : Transaction) : Prop :=
  ∃ r, validateTransaction tx s.utxoSet s.tip.nextHeight = .ok r

end PoolState

/-- A transaction comes in, or a block. -/
inductive PoolStarts {L : ChainModel} : PoolState L → PoolState L → PoolTask → Prop where
  | newTx (s : PoolState L) (tx : Transaction) : PoolStarts s s (.preCheck tx)
  | newBlock (s : PoolState L) : PoolStarts s s .processBlock

/-- What a task may do under the next lock it takes. -/
inductive PoolSteps {L : ChainModel} :
    PoolState L → PoolTask → PoolState L → Multiset PoolTask → Prop where
  /-- A block is accepted. -/
  | commit {s : PoolState L} {chain : L.State} {confirmed orphaned : List Transaction}
      (h : L.commits s.chain chain confirmed orphaned) :
      PoolSteps s .processBlock ⟨chain, s.mempool⟩ {.removeConfirmed confirmed orphaned}
  /-- A block is not accepted; it may be stored. -/
  | leave {s : PoolState L} {chain : L.State} (hutxos : (L.utxoSet chain).utxos = s.utxoSet.utxos)
      (htip : L.tip chain = s.tip) : PoolSteps s .processBlock ⟨chain, s.mempool⟩ 0
  | pool {s : PoolState L} {task : PoolTask} {m : Mempool} {next : Option PoolTask}
      (h : task.step s.utxoSet s.tip s.mempool = some (m, next)) :
      PoolSteps s task ⟨s.chain, m⟩ (next.elim 0 fun t => {t})

/-- The interleavings over a chain. -/
def poolTasks (L : ChainModel) : Tasks (PoolState L) PoolTask where
  starts := PoolStarts
  steps := PoolSteps

/-- A transaction with the given id is confirmed, or spends what a confirmed one spends. -/
def Conflicts (confirmed : List Transaction) (txId : Hash256) (tx : Transaction) : Prop :=
  ∃ tx' ∈ confirmed, tx'.txId = .ok txId ∨
    tx'.isCoinbase = false ∧ ∃ op ∈ tx.outpoints, op ∈ tx'.outpoints

/-! ## Conditions on schedules -/

/-- What a transaction was validated against is what the locks protect now: the outputs it spends,
and the height. -/
def Current {L : ChainModel} (s : PoolState L) (v : ValidatedTx) : Prop :=
  v.height = s.tip.nextHeight ∧ ∀ op ∈ v.tx.outpoints, v.snapshot.get op = s.utxoSet.get op

/-- A task adds transactions only while what they were validated against is current. -/
def AddsCurrent {L : ChainModel} (s : PoolState L) : PoolTask → Prop
  | .addTx v tipSnapshot currentTip => currentTip = tipSnapshot.blockId → Current s v
  | .reintroduce orphans => ∀ v ∈ orphans, Current s v
  | _ => True

/-- The task processes a block. -/
def blockTask : PoolTask → Bool
  | .preCheck _ | .snapshotTx _ | .readTip _ _ | .addTx _ _ _ => false
  | _ => true

/-- The task has listed the outpoints of the mempool and not revalidated it yet. -/
def cleaning : PoolTask → Bool
  | .readHeight _ _ | .snapshotPool _ _ _ | .revalidate _ _ _ => true
  | _ => false

/-- One block is processed at a time. -/
def OneBlock (tasks : Multiset PoolTask) (task : PoolTask) : Prop :=
  blockTask task → ∀ t ∈ tasks, blockTask t = false

/-- No transaction is added between the two moments at which a clean-up locks the mempool. -/
def AddsApart (tasks : Multiset PoolTask) : PoolTask → Prop
  | .addTx _ _ _ => ∀ t ∈ tasks, cleaning t = false
  | _ => True

end Exfer.Spec
