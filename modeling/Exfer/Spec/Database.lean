import Exfer.Impl.Storage

/-!
# The database of a chain

What the canonical tables (`CanonicalTables`) and the indexes (`CanonicalIndexes`) hold for a chain
of blocks, whose blocks are listed latest first. The cumulative work of a chain is that of its
blocks, added up from the first one on.
-/

namespace Exfer.Spec

open Impl

variable [Crypto]

/-- The id of the last block, or the null id before the first one. -/
def lastId : List Block → Hash256
  | [] => Hash256.zero
  | block :: _ => block.header.blockId

/-- The blocks stand at the heights from zero on, each on the one before. -/
inductive Chained : List Block → Prop where
  | nil : Chained []
  | cons {block : Block} {chain : List Block} (h : Chained chain)
      (hheight : block.header.height.toNat = chain.length)
      (hprev : block.header.prevBlockId = lastId chain) : Chained (block :: chain)

/-- The cumulative work of a chain. -/
def chainWork : List Block → Work
  | [] => Vector.replicate 32 0
  | block :: chain => addWork (chainWork chain) (workFromTarget block.header.difficultyTarget)

/-- The canonical tables describe a chain: its blocks are stored under their ids, with their headers
and cumulative works, and listed by height. -/
structure CanonicalTables (s : Storage) (chain : List Block) : Prop where
  chained : Chained chain
  tip : s.tip = chain.head?.map fun block => block.header.blockId
  index : ∀ height id, s.heightIndex.lookup height = some id ↔
    ∃ block ∈ chain, block.header.height = height ∧ block.header.blockId = id
  body : ∀ block ∈ chain, s.blocks.lookup block.header.blockId = some block
  header : ∀ block ∈ chain, s.headers.lookup block.header.blockId = some block.header
  work : ∀ block below, block :: below <:+ chain →
    s.work.lookup block.header.blockId = some (chainWork (block :: below))

/-- A transaction of the chain and its height. -/
def TxAt (chain : List Block) (txId : Hash256) (height : UInt64) : Prop :=
  ∃ block ∈ chain, block.header.height = height ∧ ∃ tx ∈ block.transactions, tx.txId = .ok txId

/-- An outpoint that the chain spends, with the id of the spender, the input and the height. -/
def SpentAt (chain : List Block) (op : OutPoint) (spender : Hash256) (input : Nat)
    (height : UInt64) : Prop :=
  ∃ block ∈ chain, block.header.height = height ∧ ∃ tx ∈ block.transactions,
    tx.isCoinbase = false ∧ tx.txId = .ok spender ∧ tx.inputs[input]?.map TxInput.outPoint = some op

/-- The indexes list the transactions of a chain and the outpoints it spends. -/
structure CanonicalIndexes (s : Storage) (chain : List Block) : Prop where
  txIndex : ∀ txId height, s.txIndex.lookup txId = some height ↔ TxAt chain txId height
  spentBy : ∀ key value, s.spentBy.lookup key = some value ↔
    ∃ op spender input height, SpentAt chain op spender input height ∧
      key = serializeOutpointKey op ∧ value = serializeSpentByValue spender input height

end Exfer.Spec
