import Exfer.Impl.Difficulty

/-!
# Storage

`chain/storage.rs`: the tables of the chain database and its transactions. A row of `BLOCKS_TABLE`
or `HEADERS_TABLE` is the block or header its bytes encode; the rows of `UTXOS_TABLE`,
`SPENT_UTXOS_TABLE` and `SPENT_BY_TABLE` are bytes.

A call of the database fails or not as the caller's environment says: it takes the message of the
failure, if there is one. A write transaction that fails leaves the tables as they were.
-/

namespace Exfer.Impl

open Lib (Map leBytes leNat)

inductive StorageError where
  | db (msg : String)
  | serialization (e : SerError)
  | corruption (msg : String)
  deriving DecidableEq

/-- The `Display` form of a storage error. -/
def StorageError.display : StorageError → String
  | .db msg => "storage error: " ++ msg
  | .serialization e => "serialization error: " ++ e.display
  | .corruption msg => "database corruption: " ++ msg

/-- What the database answers: an error if it fails. -/
def answer {ε α : Type} (error : String → ε) (fault : Option String) (value : α) : Except ε α :=
  match fault with
  | some msg => .error (error msg)
  | none => .ok value

/-- A serialization inside a storage call. -/
def orSerialization {α : Type} : Except SerError α → Except StorageError α
  | .ok a => .ok a
  | .error e => .error (.serialization e)

/-! ## Row formats -/

def serializeOutpointKey (op : OutPoint) : List UInt8 :=
  op.txId.toList ++ leBytes 4 op.outputIndex.toNat

def deserializeOutpointKey (data : List UInt8) : Option OutPoint :=
  if data.length ≠ 36 then none
  else some ⟨hashOfBytes (data.take 32), UInt32.ofNat (leNat (data.drop 32))⟩

def serializeUtxoEntry (entry : UtxoEntry) : Except SerError (List UInt8) := do
  let output ← entry.output.serialize
  return leBytes 4 output.length ++ output ++ leBytes 8 entry.height.toNat ++
    [if entry.isCoinbase then 1 else 0]

/-- The output, the height and the coinbase flag at the front of the data, and what follows. -/
def readUtxoEntry (data : List UInt8) : Option (UtxoEntry × List UInt8) :=
  if data.length < 4 then none
  else
    let outputLen := leNat (data.take 4)
    let data := data.drop 4
    if data.length < outputLen then none
    else
      match TxOutput.deserialize (data.take outputLen) with
      | .error _ => none
      | .ok (output, consumed) =>
        let data := data.drop outputLen
        if consumed ≠ outputLen then none
        else if data.length < 9 then none
        else some ({ output, height := UInt64.ofNat (leNat (data.take 8))
                     isCoinbase := (data.drop 8).headD 0 ≠ 0 }, data.drop 9)

def deserializeUtxoEntry (data : List UInt8) : Option UtxoEntry :=
  match readUtxoEntry data with
  | some (entry, []) => some entry
  | _ => none

/-- The rows of `serialize_spent_utxos`. -/
def serializeSpentRows : List (OutPoint × UtxoEntry) → Except SerError (List UInt8)
  | [] => .ok []
  | (op, entry) :: rest => do
    let row ← serializeUtxoEntry entry
    return serializeOutpointKey op ++ row ++ (← serializeSpentRows rest)

def serializeSpentUtxos (spent : List (OutPoint × UtxoEntry)) : Except SerError (List UInt8) := do
  return leBytes 4 spent.length ++ (← serializeSpentRows spent)

/-- The loop of `deserialize_spent_utxos`. -/
def deserializeSpentRows : (count : Nat) → List UInt8 → Option (List (OutPoint × UtxoEntry))
  | 0, data => if data = [] then some [] else none
  | count + 1, data => do
    let op ← deserializeOutpointKey (data.take 36)
    let (entry, data) ← readUtxoEntry (data.drop 36)
    return (op, entry) :: (← deserializeSpentRows count data)

def deserializeSpentUtxos (data : List UInt8) : Option (List (OutPoint × UtxoEntry)) :=
  if data.length < 4 then none else deserializeSpentRows (leNat (data.take 4)) (data.drop 4)

def serializeSpentByValue (spendingTxId : Hash256) (inputIndex : Nat) (blockHeight : UInt64) :
    List UInt8 :=
  spendingTxId.toList ++ leBytes 4 inputIndex ++ leBytes 8 blockHeight.toNat

/-! ## Tables -/

/-- `ChainStorage`: the tables of the chain database. -/
structure Storage where
  /-- `BLOCKS_TABLE`. -/
  blocks : Map Hash256 Block
  /-- `HEADERS_TABLE`. -/
  headers : Map Hash256 BlockHeader
  /-- `HEIGHT_INDEX`. -/
  heightIndex : Map UInt64 Hash256
  /-- `TIP_KEY` of `META_TABLE`. -/
  tip : Option Hash256
  /-- `UTXO_SNAPSHOT_COMPLETE_KEY` of `META_TABLE`. -/
  snapshotComplete : Bool
  /-- `UTXO_SNAPSHOT_TIP_KEY` of `META_TABLE`. -/
  snapshotTip : Option Hash256
  /-- `WALK_VERIFIED_TIP_KEY` of `META_TABLE`. -/
  walkVerifiedTip : Option Hash256
  /-- `WORK_TABLE`. -/
  work : Map Hash256 Work
  /-- `SPENT_UTXOS_TABLE`. -/
  spentUtxos : Map Hash256 (List UInt8)
  /-- `FORK_BLOCKS_TABLE`. -/
  forkBlocks : Map Hash256 Work
  /-- `RETAINED_FORK_HEADERS_TABLE`, in the order of its keys. -/
  retainedForkHeaders : List (Hash256 × UInt64)
  /-- `TX_INDEX_TABLE`. -/
  txIndex : Map Hash256 UInt64
  /-- `UTXOS_TABLE`. -/
  utxos : Map (List UInt8) (List UInt8)
  /-- `SPENT_BY_TABLE`. -/
  spentBy : Map (List UInt8) (List UInt8)

/-- The tables of a new database (`ChainStorage::open`). -/
def Storage.empty : Storage where
  blocks := ∅
  headers := ∅
  heightIndex := ∅
  tip := none
  snapshotComplete := false
  snapshotTip := none
  walkVerifiedTip := none
  work := ∅
  spentUtxos := ∅
  forkBlocks := ∅
  retainedForkHeaders := []
  txIndex := ∅
  utxos := ∅
  spentBy := ∅

def maxRetainedForkHeaders : Nat := 10000

def applyUtxoMutations (utxos : Map (List UInt8) (List UInt8)) :
    List UtxoMutation → Except StorageError (Map (List UInt8) (List UInt8))
  | [] => .ok utxos
  | .insert op entry :: rest => do
    let value ← orSerialization (serializeUtxoEntry entry)
    applyUtxoMutations (utxos.insert (serializeOutpointKey op) value) rest
  | .remove op _ :: rest => applyUtxoMutations (utxos.erase (serializeOutpointKey op)) rest

variable [Crypto]

/-- The rows of `apply_spent_by_for_block` for a transaction, from input `i` on. -/
def insertSpentBy (txId : Hash256) (height : UInt64) :
    Map (List UInt8) (List UInt8) → (i : Nat) → List TxInput → Map (List UInt8) (List UInt8)
  | rows, _, [] => rows
  | rows, i, input :: rest =>
    insertSpentBy txId height
      (rows.insert (serializeOutpointKey input.outPoint) (serializeSpentByValue txId i height))
      (i + 1) rest

def applySpentByForBlock (rows : Map (List UInt8) (List UInt8)) (block : Block) :
    Except StorageError (Map (List UInt8) (List UInt8)) :=
  block.transactions.foldlM (fun rows tx =>
    if tx.isCoinbase then .ok rows
    else do
      let txId ← orSerialization tx.txId
      return insertSpentBy txId block.header.height rows 0 tx.inputs) rows

def revertSpentByForBlock (rows : Map (List UInt8) (List UInt8)) (block : Block) :
    Map (List UInt8) (List UInt8) :=
  block.transactions.foldl (fun rows tx =>
    if tx.isCoinbase then rows
    else tx.inputs.foldl (fun rows input => rows.erase (serializeOutpointKey input.outPoint)) rows) rows

/-- The ids of a block's transactions in `TX_INDEX_TABLE`. -/
def indexTxs (txIndex : Map Hash256 UInt64) (block : Block) : Map Hash256 UInt64 :=
  block.transactions.foldl (fun idx tx =>
    match tx.txId with
    | .ok txId => idx.insert txId block.header.height
    | .error _ => idx) txIndex

/-- Take the ids of a block's transactions out of `TX_INDEX_TABLE`. -/
def unindexTxs (txIndex : Map Hash256 UInt64) (block : Block) : Map Hash256 UInt64 :=
  block.transactions.foldl (fun idx tx =>
    match tx.txId with
    | .ok txId => idx.erase txId
    | .error _ => idx) txIndex

namespace Storage

variable (s : Storage)

/-! ## Reads -/

def hasBlock (fault : Option String) (id : Hash256) : Except String Bool :=
  answer (fun msg => msg) fault (s.blocks.lookup id).isSome

def getHeader (fault : Option String) (id : Hash256) : Except String (Option BlockHeader) :=
  answer (fun msg => msg) fault (s.headers.lookup id)

def getCumulativeWork (fault : Option String) (id : Hash256) : Except String (Option Work) :=
  answer (fun msg => msg) fault (s.work.lookup id)

def isForkBlock (fault : Option String) (id : Hash256) : Except String Bool :=
  answer (fun msg => msg) fault (s.forkBlocks.lookup id).isSome

def getSpentUtxos (fault : Option String) (id : Hash256) :
    Except String (Option (List (OutPoint × UtxoEntry))) :=
  answer (fun msg => msg) fault ((s.spentUtxos.lookup id).bind deserializeSpentUtxos)

def getBlock (fault : Option String) (id : Hash256) : Except StorageError (Option Block) := do
  match ← answer .db fault (s.blocks.lookup id) with
  | none => return none
  | some block =>
    if block.header.blockId ≠ id then
      .error (.corruption ("stored block does not match its key: expected " ++ id.hex ++ ", got " ++
        block.header.blockId.hex))
    else return some block

/-- `get_ancestor_timestamps`: of `count` headers at most, the first read being read `i`. -/
def getAncestorTimestamps (faults : Nat → Option String) :
    (i count : Nat) → Hash256 → Except String (List UInt64)
  | _, 0, _ => .ok []
  | i, count + 1, id => do
    match ← s.getHeader (faults i) id with
    | none => return []
    | some header =>
      if header.prevBlockId = Hash256.zero then return [header.timestamp]
      else
        return header.timestamp :: (← getAncestorTimestamps faults (i + 1) count header.prevBlockId)

/-- `iter_utxos`, as the relation between a row and what it decodes to. -/
def HasRow (op : OutPoint) (entry : UtxoEntry) : Prop :=
  ∃ key value, s.utxos.lookup key = some value ∧ deserializeOutpointKey key = some op ∧
    deserializeUtxoEntry value = some entry

/-! ## Fork blocks -/

def storeForkBlockAtomic (fault : Option String) (block : Block) (cumulativeWork : Work) :
    Except StorageError Storage := do
  let id := block.header.blockId
  let _ ← orSerialization block.serialize
  answer .db fault { s with
    blocks := s.blocks.insert id block
    headers := s.headers.insert id block.header
    work := s.work.insert id cumulativeWork
    forkBlocks := s.forkBlocks.insert id cumulativeWork }

/-- Whether a header of the given height is the canonical one. -/
def isCanonical (id : Hash256) (height : UInt64) : Bool :=
  s.heightIndex.lookup height = some id

/-- Insertion into the rows of a table, in the order of the keys. -/
def insertRow (rows : List (Hash256 × UInt64)) (id : Hash256) (height : UInt64) :
    List (Hash256 × UInt64) :=
  match rows with
  | [] => [(id, height)]
  | row :: rest =>
    if row.1 = id then (id, height) :: rest
    else if id.toList < row.1.toList then (id, height) :: row :: rest
    else row :: insertRow rest id height

/-- The first transaction of `evict_fork_block`. -/
def dropForkBlock (id : Hash256) : Storage :=
  let height := (s.headers.lookup id).map BlockHeader.height
  if height.any (s.isCanonical id) then { s with forkBlocks := s.forkBlocks.erase id }
  else { s with
    blocks := s.blocks.erase id
    spentUtxos := s.spentUtxos.erase id
    retainedForkHeaders :=
      match height with
      | some h => insertRow s.retainedForkHeaders id h
      | none => s.retainedForkHeaders
    forkBlocks := s.forkBlocks.erase id }

/-- The rows beyond the cap, the lowest heights first. -/
def excessForkHeaders (maxRetained : Nat) : List (Hash256 × UInt64) :=
  (s.retainedForkHeaders.insertionSort fun a b => a.2 ≤ b.2).take
    (s.retainedForkHeaders.length - maxRetained)

/-- Forget a retained header, unless it has become canonical. -/
def forgetForkHeader (s : Storage) (row : Hash256 × UInt64) : Storage :=
  let s := { s with retainedForkHeaders := s.retainedForkHeaders.filter fun r => r.1 ≠ row.1 }
  if s.isCanonical row.1 row.2 then s
  else { s with
    headers := s.headers.erase row.1
    work := s.work.erase row.1
    spentUtxos := s.spentUtxos.erase row.1 }

/-- `enforce_retained_fork_header_cap`: its read and its write are calls 1 and 2. -/
def enforceRetainedForkHeaderCap (faults : Nat → Option String) (maxRetained : Nat) :
    Storage × Except StorageError Unit :=
  match faults 1 with
  | some msg => (s, .error (.db msg))
  | none =>
    if s.retainedForkHeaders.length ≤ maxRetained then (s, .ok ())
    else
      match faults 2 with
      | some msg => (s, .error (.db msg))
      | none => ((s.excessForkHeaders maxRetained).foldl forgetForkHeader s, .ok ())

/-- `evict_fork_block`: the eviction is call 0, those of the cap follow. -/
def evictForkBlock (faults : Nat → Option String) (id : Hash256) :
    Storage × Except StorageError Unit :=
  match faults 0 with
  | some msg => (s, .error (.db msg))
  | none => (s.dropForkBlock id).enforceRetainedForkHeaderCap faults maxRetainedForkHeaders

/-! ## Commits -/

/-- `advance_snapshot_marker_in_txn` and `advance_walk_marker_in_txn`. -/
def advanceMarkers (tipId : Hash256) : Storage :=
  { s with
    snapshotTip := if s.snapshotComplete then some tipId else s.snapshotTip
    walkVerifiedTip := some tipId }

def commitGenesisAtomic (fault : Option String) (block : Block) (cumulativeWork : Work)
    (utxoMutations : List UtxoMutation) : Except StorageError Storage := do
  let id := block.header.blockId
  let _ ← orSerialization block.serialize
  let utxos ← applyUtxoMutations s.utxos utxoMutations
  let spentBy ← applySpentByForBlock s.spentBy block
  answer .db fault { s with
    blocks := s.blocks.insert id block
    headers := s.headers.insert id block.header
    heightIndex := s.heightIndex.insert block.header.height id
    work := s.work.insert id cumulativeWork
    tip := some id
    snapshotComplete := true
    snapshotTip := some id
    walkVerifiedTip := some id
    txIndex := indexTxs s.txIndex block
    utxos, spentBy }

def commitBlockAtomic (fault : Option String) (block : Block) (cumulativeWork : Work)
    (spentUtxos : List (OutPoint × UtxoEntry)) (utxoMutations : List UtxoMutation) :
    Except StorageError Storage := do
  let id := block.header.blockId
  let _ ← orSerialization block.serialize
  let spentData ← orSerialization (serializeSpentUtxos spentUtxos)
  let utxos ← applyUtxoMutations s.utxos utxoMutations
  let spentBy ← applySpentByForBlock s.spentBy block
  answer .db fault (advanceMarkers { s with
    blocks := s.blocks.insert id block
    headers := s.headers.insert id block.header
    work := s.work.insert id cumulativeWork
    spentUtxos := s.spentUtxos.insert id spentData
    heightIndex := s.heightIndex.insert block.header.height id
    tip := some id
    forkBlocks := s.forkBlocks.erase id
    txIndex := indexTxs s.txIndex block
    utxos, spentBy } id)

/-- The heights from one to another. -/
def heightRange (range : Option (UInt64 × UInt64)) : List UInt64 :=
  match range with
  | none => []
  | some (start, last) =>
    (List.range' start.toNat (last.toNat + 1 - start.toNat)).map UInt64.ofNat

/-- Take the transactions of the blocks at the given heights out of `TX_INDEX_TABLE`. -/
def unindexHeights (heights : List UInt64) : Map Hash256 UInt64 :=
  heights.foldl (fun txIndex height =>
    match (s.heightIndex.lookup height).bind fun id => s.blocks.lookup id with
    | some block => unindexTxs txIndex block
    | none => txIndex) s.txIndex

/-- The rows of the outputs of a transaction, `n` of them from index `idx` on. -/
def eraseOutputs (txId : Hash256) :
    Map (List UInt8) (List UInt8) → (idx n : Nat) → Map (List UInt8) (List UInt8)
  | utxos, _, 0 => utxos
  | utxos, idx, n + 1 =>
    eraseOutputs txId (utxos.erase (serializeOutpointKey ⟨txId, UInt32.ofNat idx⟩)) (idx + 1) n

/-- The first loop over an orphaned block in `commit_reorg_atomic`: remove the outputs of all its
transactions. -/
def eraseBlockOutputs (utxos : Map (List UInt8) (List UInt8)) (block : Block) :
    Map (List UInt8) (List UInt8) :=
  block.transactions.foldl (fun utxos tx =>
    match tx.txId with
    | .error _ => utxos
    | .ok txId => eraseOutputs txId utxos 0 tx.outputs.length) utxos

/-- The second one: put back all the entries it had spent. -/
def restoreSpent (utxos : Map (List UInt8) (List UInt8)) :
    List (OutPoint × UtxoEntry) → Except StorageError (Map (List UInt8) (List UInt8))
  | [] => .ok utxos
  | (op, entry) :: rest => do
    let value ← orSerialization (serializeUtxoEntry entry)
    restoreSpent (utxos.insert (serializeOutpointKey op) value) rest

/-- Undo an orphaned block in `UTXOS_TABLE`. -/
def undoOrphan (spentUtxos : Map Hash256 (List UInt8)) (utxos : Map (List UInt8) (List UInt8))
    (orphan : Block) : Except StorageError (Map (List UInt8) (List UInt8)) :=
  let utxos := eraseBlockOutputs utxos orphan
  match spentUtxos.lookup orphan.header.blockId with
  | none => .ok utxos
  | some bytes =>
    match deserializeSpentUtxos bytes with
    | none => .error (.corruption ("SPENT_UTXOS_TABLE entry for orphan " ++
        orphan.header.blockId.hex ++ " failed to deserialize"))
    | some spent => restoreSpent utxos spent

/-- The rows of `SPENT_UTXOS_TABLE` for the blocks of a new chain. -/
def insertSpentRows (rows : Map Hash256 (List UInt8)) :
    List (Hash256 × List (OutPoint × UtxoEntry)) → Except StorageError (Map Hash256 (List UInt8))
  | [] => .ok rows
  | (id, spent) :: rest => do
    let data ← orSerialization (serializeSpentUtxos spent)
    insertSpentRows (rows.insert id data) rest

def commitReorgAtomic (fault : Option String) (triggerBlock : Block) (cumulativeWork : Work)
    (oldChainBlocks : List Block) (newChainSpent : List (Hash256 × List (OutPoint × UtxoEntry)))
    (newChainMutations : List (Hash256 × List UtxoMutation))
    (newChainHeights : List (UInt64 × Hash256)) (newChainBlocks : List Block)
    (newChainWork : List (Hash256 × Work)) (staleHeights : Option (UInt64 × UInt64))
    (newTipId : Hash256) : Except StorageError Storage := do
  let triggerId := triggerBlock.header.blockId
  let stored := triggerBlock :: newChainBlocks
  let _ ← stored.mapM fun block => orSerialization block.serialize
  let blocks := stored.foldl (fun m block => m.insert block.header.blockId block) s.blocks
  let spentUtxos ← insertSpentRows s.spentUtxos newChainSpent
  let txIndex := { s with blocks }.unindexHeights
    (heightRange staleHeights ++ newChainHeights.map Prod.fst)
  let utxos ← oldChainBlocks.foldlM (undoOrphan spentUtxos) s.utxos
  let spentBy := oldChainBlocks.foldl revertSpentByForBlock s.spentBy
  let utxos ← newChainMutations.foldlM (fun utxos m => applyUtxoMutations utxos m.2) utxos
  let spentBy ← stored.foldlM applySpentByForBlock spentBy
  answer .db fault (advanceMarkers { s with
    blocks
    headers := stored.foldl (fun m block => m.insert block.header.blockId block.header) s.headers
    work := ((triggerId, cumulativeWork) :: newChainWork).foldl (fun m x => m.insert x.1 x.2) s.work
    spentUtxos
    heightIndex := (heightRange staleHeights).foldl (fun m height => m.erase height)
      (newChainHeights.foldl (fun m x => m.insert x.1 x.2) s.heightIndex)
    tip := some newTipId
    forkBlocks := (newChainHeights.map Prod.snd ++ [triggerId]).foldl (fun m id => m.erase id)
      s.forkBlocks
    txIndex := stored.foldl indexTxs txIndex
    utxos, spentBy } newTipId)

end Storage

end Exfer.Impl
