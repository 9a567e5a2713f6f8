import Exfer.Impl.Open
import Exfer.Impl.ProcessBlock
import Exfer.Spec.Chain
import Exfer.Spec.Database

/-!
# Runs of a node

A node starts with the commit of the first block to an empty database (`Started`) and then processes
one block after another (`NodeRun`). The commits of a run may be asked to meet a condition
(`RunWhere`).
-/

namespace Exfer.Spec

open Impl

variable [Crypto] [Network]

/-- A call of `process_block` or `process_block_pre_validated`: the block, the clock, the calls of the
storage that fail, and the reorg triggers that are pending then. -/
structure BlockCall where
  block : Block
  wallClock : Option UInt64
  skipPow : Bool
  faults : Faults
  triggers : ReorgTriggerState

/-- The node and the result of a call. -/
def BlockCall.run (c : BlockCall) (node : Node) : Option (Node × ProcessResult) :=
  { node with reorgTriggers := c.triggers }.processBlockInner c.faults c.block c.wallClock c.skipPow

/-- The node goes on after a call. A fatal error stops it; and after an error, the call must not be
one that lost the read of the work of the fork point, since that leaves the UTXO set on the wrong
branch. A call that commits returns `Ok`. -/
def Survives (c : BlockCall) : ProcessResult → Prop
  | .ok _ => True
  | .error e => e.isFatal = false ∧ c.faults .forkPointWork = none

/-- The node after the first block has been committed to an empty database. -/
structure Started (genesis : Block) (node : Node) : Prop where
  block : genesisBlock = some genesis ∨ devnetGenesisBlock = some genesis
  commit : ∃ mutations, applyGenesis UtxoSet.new genesis.transactions = .ok (node.utxoSet, mutations) ∧
    Storage.empty.commitGenesisAtomic none genesis (workFromTarget genesis.header.difficultyTarget)
      mutations = .ok node.storage
  tip : node.tip = ChainTip.genesis genesis.header.blockId genesis.header.difficultyTarget

/-- The node after calls, the latest first, whatever they return. -/
inductive CallRun (start : Node) : List BlockCall → Node → Prop where
  | start : CallRun start [] start
  | call {calls : List BlockCall} {c : BlockCall} {node node' : Node} {r : ProcessResult}
      (h : CallRun start calls node) (hcall : c.run node = some (node', r)) :
      CallRun start (c :: calls) node'

/-- The blocks a node has seen. -/
def offered (genesis : Block) (calls : List BlockCall) : List Block :=
  genesis :: calls.map BlockCall.block

/-- What is assumed of SHA-256 on headers: they do not collide, and none has the null id. -/
structure BlockIdsDistinct (blocks : List Block) : Prop where
  ids : ∀ block ∈ blocks, ∀ block' ∈ blocks,
    block.header.blockId = block'.header.blockId → block.header = block'.header
  nonzero : ∀ block ∈ blocks, block.header.blockId ≠ Hash256.zero

end Exfer.Spec
