import Exfer.Impl.Genesis
import Exfer.Impl.Validation.Transaction

/-!
# Validation of blocks

`consensus/reward.rs`, and of `consensus/validation.rs` the rules for blocks: those on the header
and the transactions as a list (`validateBlockHeader`), those on each transaction alone
(`validateBlockStructure`), and the application to the UTXO set, which rolls back when a
transaction fails (`validateAndApplyBlockTransactionsAtomic`).
-/

namespace Exfer.Impl

open Lib (failIf failOnDuplicate)

def maxSpentUtxosSize : Nat := 16777216

def maxTimestampDrift : Nat := 120

def maxTimestampGap : Nat := 604800

/-! ## Reward -/

def baseReward : Nat := 100000000

def decayComponent : Nat := 9900000000

def halfLife : Nat := 6307200

/-- An entry of the table `LUT`: `2 ^ (-i / 4096)` in Q64.64. -/
def lut : Nat → Nat
  | 0 => 2 ^ 64
  | i + 1 => lut i * 18443622869203936790 / 2 ^ 64

def blockReward (height : UInt64) : Nat :=
  let q := height.toNat / halfLife
  let r := height.toNat % halfLife
  if q ≥ 128 then baseReward
  else
    let bucketSize := divCeil halfLife 4096
    let bucket := r / bucketSize
    let frac := r % bucketSize
    let interp := lut bucket - (lut bucket - lut (bucket + 1)) * frac / bucketSize
    let shift := 64 + q
    baseReward + if shift ≥ 128 then 0 else decayComponent * interp / 2 ^ shift

/-! ## Headers -/

/-- `median_time_past`, of a non-empty list. -/
def medianTimePast (timestamps : List UInt64) : UInt64 :=
  (timestamps.insertionSort (· ≤ ·)).getD (timestamps.length / 2) 0

/-- `checked_add` of two `u64`s. -/
def checkedAddU64 (a b : Nat) : Except ValidationError Nat :=
  if a + b > u64Max then .error .arithmeticOverflow else .ok (a + b)

variable [Crypto]

/-- The height and the parent a header names. -/
def checkParent (header : BlockHeader) (parent : Option BlockHeader) :
    Except ValidationError Unit :=
  match parent with
  | some p => do
    let expected ← checkedAddU64 p.height.toNat 1
    failIf (header.height.toNat ≠ expected) (.invalidHeight (UInt64.ofNat expected) header.height)
    failIf (header.prevBlockId ≠ p.blockId) .invalidPrevBlockId
  | none => do
    failIf (header.height ≠ 0) (.invalidHeight 0 header.height)
    failIf (header.prevBlockId ≠ Hash256.zero) .invalidPrevBlockId

/-- The timestamp of a header is above the median of its ancestors', not too far ahead of the
clock, if there is one, and not too far behind its parent's. -/
def checkTimestamp (header : BlockHeader) (parent : Option BlockHeader)
    (ancestorTimestamps : List UInt64) (wallClock : Option UInt64) :
    Except ValidationError Unit := do
  failIf (ancestorTimestamps ≠ [] ∧ header.timestamp ≤ medianTimePast ancestorTimestamps)
    (.timestampBelowMtp (medianTimePast ancestorTimestamps) header.timestamp)
  wallClock.toList.forM fun clock => do
    let maxFuture ← checkedAddU64 clock.toNat maxTimestampDrift
    failIf (header.timestamp.toNat > maxFuture)
      (.timestampTooFarAhead (UInt64.ofNat maxFuture) header.timestamp)
  parent.toList.forM fun p => do
    let maxGap ← checkedAddU64 p.timestamp.toNat maxTimestampGap
    failIf (header.timestamp.toNat > maxGap) (.timestampGapTooLarge p.timestamp header.timestamp)

/-- The size limit on a block. -/
def checkBlockSize (block : Block) : Except ValidationError Unit :=
  match block.serialize with
  | .error _ => .error (.txTooLarge 0)
  | .ok bytes => failIf (bytes.length > maxBlockSize) (.blockTooLarge bytes.length)

/-- The first transaction is a coinbase, and no other. -/
def checkCoinbases (transactions : List Transaction) : Except ValidationError Unit :=
  match transactions with
  | [] => .error .noCoinbase
  | coinbase :: rest => do
    failIf (! coinbase.isCoinbase) .noCoinbase
    rest.zipIdx.forM fun (tx, i) => failIf tx.isCoinbase (.nonCoinbaseSentinel (i + 1))

/-- `tx_id`, with its failure as a validation error. -/
def txIdOf (tx : Transaction) : Except ValidationError Hash256 :=
  match tx.txId with
  | .error _ => .error (.txTooLarge 0)
  | .ok txId => .ok txId

/-- `compute_tx_root`, with its failure as a validation error. -/
def txRootOf (transactions : List Transaction) : Except ValidationError Hash256 :=
  match computeTxRoot transactions with
  | .error _ => .error (.txTooLarge 0)
  | .ok root => .ok root

/-- The outpoints the transactions after the first spend. -/
def blockSpends (transactions : List Transaction) : List OutPoint :=
  transactions.tail.flatMap fun tx => tx.inputs.map TxInput.outPoint

/-- `validate_block_header_inner`. The source looks for duplicates while it computes the ids of the
transactions; as they have been serialized with the block before, no id fails. -/
def validateBlockHeaderInner (block : Block) (parent : Option BlockHeader)
    (ancestorTimestamps : List UInt64) (expectedTarget : Hash256) (wallClock : Option UInt64)
    (skipPow : Bool) : Except ValidationError Unit := do
  let header := block.header
  failIf (header.version ≠ version) (.invalidVersion header.version)
  checkParent header parent
  failIf (header.difficultyTarget ≠ expectedTarget) .invalidDifficulty
  failIf (! skipPow ∧ verifyPow header ≠ some true) .powFailed
  checkTimestamp header parent ancestorTimestamps wallClock
  checkBlockSize block
  checkCoinbases block.transactions
  let txIds ← block.transactions.mapM txIdOf
  failOnDuplicate .duplicateTransaction [] txIds
  failOnDuplicate .doubleSpend [] (blockSpends block.transactions)
  let txRoot ← txRootOf block.transactions
  failIf (header.txRoot ≠ txRoot) .invalidTxRoot

def validateBlockHeader (block : Block) (parent : Option BlockHeader)
    (ancestorTimestamps : List UInt64) (expectedTarget : Hash256) (wallClock : Option UInt64) :
    Except ValidationError Unit :=
  validateBlockHeaderInner block parent ancestorTimestamps expectedTarget wallClock false

def validateBlockHeaderSkipPow (block : Block) (parent : Option BlockHeader)
    (ancestorTimestamps : List UInt64) (expectedTarget : Hash256) (wallClock : Option UInt64) :
    Except ValidationError Unit :=
  validateBlockHeaderInner block parent ancestorTimestamps expectedTarget wallClock true

/-! ## Structure -/

/-- The checks of `validate_block_structure` on a coinbase. -/
def checkCoinbaseStructure (tx : Transaction) (height : UInt64) : Except ValidationError Unit := do
  checkSentinel tx
  checkCoinbaseIndex tx height
  checkCoinbaseWitness tx height
  forEach tx.outputs fun idx o => do
    checkDust idx o
    checkDatumSize idx o
    checkDatumHash idx o
    checkScriptAdmissible idx o

/-- The checks of `validate_block_structure` on another transaction. -/
def checkTxStructure (tx : Transaction) : Except ValidationError Unit := do
  failIf (tx.inputs = []) .noInputs
  failIf (tx.outputs = []) .noOutputs
  failIf (tx.witnesses.length ≠ tx.inputs.length)
    (.witnessCountMismatch tx.inputs.length tx.witnesses.length)
  forEach tx.witnesses checkWitnessSize
  forEach tx.outputs fun idx o => do
    checkDatumSize idx o
    checkDatumHash idx o
    checkScriptAdmissible idx o
  checkTxSize tx
  failOnDuplicate .duplicateInput [] (tx.inputs.map TxInput.outPoint)
  forEach tx.outputs checkDust

def validateBlockStructure (block : Block) : Except ValidationError Unit :=
  match block.transactions with
  | [] => .error .noTransactions
  | coinbase :: rest => do
    checkCoinbaseStructure coinbase block.header.height
    rest.forM checkTxStructure

/-! ## Application -/

/-- The spent entries that belong to the inputs of a transaction. -/
def spentBy (tx : Transaction) (spent : List (OutPoint × UtxoEntry)) : List (OutPoint × UtxoEntry) :=
  spent.filter fun x => tx.inputs.any fun i => i.outPoint = x.1

/-- `undo_applied_transactions`: undo the transactions of the list, which is the applied part of a
block in reverse. -/
def undoAppliedTransactions (spent : List (OutPoint × UtxoEntry)) (s : UtxoSet) :
    List Transaction → UtxoSet × Except String Unit
  | [] => (s, .ok ())
  | tx :: txs =>
    match s.undoTransaction tx (spentBy tx spent) with
    | (s, .error e) => (s, .error ("undo_applied_transactions failed: " ++ e.display))
    | (s, .ok ()) => undoAppliedTransactions spent s txs

def undoBlockTransactions (block : Block) (s : UtxoSet) (spent : List (OutPoint × UtxoEntry)) :
    UtxoSet × Except String Unit :=
  undoAppliedTransactions spent s block.transactions.reverse

/-- The bytes of undo metadata counted for a spent entry. -/
def undoBytes (entry : UtxoEntry) : Nat :=
  53 + match entry.output.serialize with
    | .ok bytes => bytes.length
    | .error _ => 0

/-- The snapshot of the entries a transaction spends: the entries so far and their size, and
whether that is within the limit. The entry that exceeds it is counted but not kept. -/
def snapshotInputs (s : UtxoSet) :
    (spent : List (OutPoint × UtxoEntry)) → (bytes : Nat) → List TxInput →
      List (OutPoint × UtxoEntry) × Nat × Bool
  | spent, bytes, [] => (spent, bytes, true)
  | spent, bytes, input :: rest =>
    match s.get input.outPoint with
    | none => snapshotInputs s spent bytes rest
    | some entry =>
      if bytes + undoBytes entry > maxSpentUtxosSize then (spent, bytes + undoBytes entry, false)
      else snapshotInputs s (spent ++ [(input.outPoint, entry)]) (bytes + undoBytes entry) rest

/-- What the application of a block has gathered: the mutations, the spent entries and their size,
the applied transactions, the latest first, and the fees. -/
structure ApplyLog where
  mutations : List UtxoMutation
  spent : List (OutPoint × UtxoEntry)
  spentBytes : Nat
  applied : List Transaction
  fees : Nat

/-- Undo what has been applied and fail with `e`, or with `StateCorrupted` when that fails. -/
def rollback {α : Type} (s : UtxoSet) (applied : List Transaction)
    (spent : List (OutPoint × UtxoEntry)) (context : String) (e : ValidationError) :
    UtxoSet × Except ValidationError α :=
  match undoAppliedTransactions spent s applied with
  | (s, .error undoErr) => (s, .error (.stateCorrupted (context ++ ": rollback failed: " ++ undoErr)))
  | (s, .ok ()) => (s, .error e)

/-- The coinbase of a block is applied first. -/
def applyCoinbase (s : UtxoSet) (coinbase : Transaction) (height : UInt64) :
    UtxoSet × Except ValidationError ApplyLog :=
  match s.applyTransaction coinbase height with
  | (s, .ok mutations) =>
    (s, .ok { mutations, spent := [], spentBytes := 0, applied := [coinbase], fees := 0 })
  | (s, .error e) =>
    match s.undoTransaction coinbase [] with
    | (s, .error undoErr) =>
      (s, .error (.stateCorrupted ("coinbase apply: " ++ e.display ++ "; rollback also failed: " ++
        undoErr.display)))
    | (s, .ok ()) => (s, .error (.stateCorrupted ("coinbase apply: " ++ e.display)))

variable [Network]

/-- One round of the loop over the transactions after the coinbase. -/
def applyNext (s : UtxoSet) (log : ApplyLog) (tx : Transaction) (height : UInt64) :
    UtxoSet × Except ValidationError ApplyLog :=
  match validateTransaction tx s height with
  | .error e => rollback s log.applied log.spent e.display e
  | .ok (fee, _, _) =>
    match snapshotInputs s log.spent log.spentBytes tx.inputs with
    | (spent, bytes, false) =>
      rollback s log.applied spent "undo metadata overflow" (.blockTooLarge bytes)
    | (spent, bytes, true) =>
      match s.applyTransaction tx height with
      | (s, .ok mutations) =>
        (s, .ok { mutations := log.mutations ++ mutations, spent, spentBytes := bytes,
                  applied := tx :: log.applied, fees := log.fees + fee })
      | (s, .error e) =>
        match s.undoPartialTransaction tx (spentBy tx spent) with
        | (s, .error partialErr) =>
          (s, .error (.stateCorrupted ("tx apply: " ++ e.display ++ ": partial undo failed: " ++
            partialErr.display)))
        | (s, .ok ()) =>
          rollback s log.applied spent ("tx apply: " ++ e.display)
            (.stateCorrupted ("tx apply: " ++ e.display))

/-- The loop over the transactions after the coinbase. -/
def applyRest (height : UInt64) : UtxoSet → ApplyLog → List Transaction →
    UtxoSet × Except ValidationError ApplyLog
  | s, log, [] => (s, .ok log)
  | s, log, tx :: txs =>
    match applyNext s log tx height with
    | (s, .error e) => (s, .error e)
    | (s, .ok log) => applyRest height s log txs

/-- The checks after the last transaction: the fees and the coinbase's reward. -/
def checkReward (coinbase : Transaction) (height : UInt64) (fees : Nat) :
    Except (String × ValidationError) Unit :=
  if fees > u64Max then .error ("ValueOverflow", .valueOverflow)
  else if blockReward height + fees > u64Max then .error ("RewardOverflow", .rewardOverflow)
  else
    match validateCoinbase coinbase height (blockReward height + fees) with
    | .error e => .error (e.display, e)
    | .ok () => .ok ()

/-- `validate_and_apply_block_transactions_atomic`, of a block with a first transaction. -/
def applyBlock (header : BlockHeader) (coinbase : Transaction) (rest : List Transaction)
    (s : UtxoSet) : UtxoSet × Except ValidationError (Nat × List UtxoMutation) :=
  match applyCoinbase s coinbase header.height with
  | (s, .error e) => (s, .error e)
  | (s, .ok log) =>
    match applyRest header.height s log rest with
    | (s, .error e) => (s, .error e)
    | (s, .ok log) =>
      match checkReward coinbase header.height log.fees with
      | .error (context, e) => rollback s log.applied log.spent context e
      | .ok () => (s, .ok (log.fees, log.mutations))

/-- `validate_and_apply_block_transactions_atomic`; `none` is the panic on a block without
transactions. -/
def validateAndApplyBlockTransactionsAtomic (block : Block) (s : UtxoSet) :
    Option (UtxoSet × Except ValidationError (Nat × List UtxoMutation)) :=
  match block.transactions with
  | [] => none
  | coinbase :: rest => some (applyBlock block.header coinbase rest s)

/-! ## Application without validation -/

/-- The snapshot of `apply_block_transactions_assume_valid`: the spent entries so far, and their size
and the sum of the inputs unless an input is missing or the size exceeds the limit. -/
def snapshotAssumed (s : UtxoSet) :
    (spent : List (OutPoint × UtxoEntry)) → (bytes inputSum : Nat) → List TxInput →
      List (OutPoint × UtxoEntry) × Except (String × ValidationError) (Nat × Nat)
  | spent, bytes, inputSum, [] => (spent, .ok (bytes, inputSum))
  | spent, bytes, inputSum, input :: rest =>
    match s.get input.outPoint with
    | none =>
      (spent, .error ("missing input utxo " ++ input.outPoint.debug,
        .stateCorrupted ("missing input utxo " ++ input.outPoint.debug)))
    | some entry =>
      if bytes + undoBytes entry > maxSpentUtxosSize then
        (spent, .error ("undo metadata overflow", .blockTooLarge (bytes + undoBytes entry)))
      else
        snapshotAssumed s (spent ++ [(input.outPoint, entry)]) (bytes + undoBytes entry)
          (inputSum + entry.output.value.toNat) rest

/-- One round of the loop of `apply_block_transactions_assume_valid`. -/
def applyNextAssumed (s : UtxoSet) (log : ApplyLog) (tx : Transaction) (height : UInt64) :
    UtxoSet × Except ValidationError ApplyLog :=
  match snapshotAssumed s log.spent log.spentBytes 0 tx.inputs with
  | (spent, .error (context, e)) => rollback s log.applied spent context e
  | (spent, .ok (bytes, inputSum)) =>
    if inputSum < totalOutput tx then
      rollback s log.applied spent "outputs exceed inputs" .valueOverflow
    else
      match s.applyTransaction tx height with
      | (s, .ok mutations) =>
        (s, .ok { mutations := log.mutations ++ mutations, spent, spentBytes := bytes,
                  applied := tx :: log.applied, fees := log.fees + (inputSum - totalOutput tx) })
      | (s, .error e) =>
        match s.undoPartialTransaction tx (spent.drop log.spent.length) with
        | (s, .error partialErr) =>
          (s, .error (.stateCorrupted ("tx apply: " ++ e.display ++ ": partial undo failed: " ++
            partialErr.display)))
        | (s, .ok ()) =>
          rollback s log.applied spent ("tx apply: " ++ e.display)
            (.stateCorrupted ("tx apply: " ++ e.display))

/-- The loop of `apply_block_transactions_assume_valid`. -/
def applyRestAssumed (height : UInt64) : UtxoSet → ApplyLog → List Transaction →
    UtxoSet × Except ValidationError ApplyLog
  | s, log, [] => (s, .ok log)
  | s, log, tx :: txs =>
    match applyNextAssumed s log tx height with
    | (s, .error e) => (s, .error e)
    | (s, .ok log) => applyRestAssumed height s log txs

/-- `apply_block_transactions_assume_valid`; `none` is the panic on a block without transactions. -/
def applyBlockTransactionsAssumeValid (block : Block) (s : UtxoSet) :
    Option (UtxoSet × Except ValidationError (Nat × List UtxoMutation)) :=
  match block.transactions with
  | [] => none
  | coinbase :: rest => some <|
    match applyCoinbase s coinbase block.header.height with
    | (s, .error e) => (s, .error e)
    | (s, .ok log) =>
      match applyRestAssumed block.header.height s log rest with
      | (s, .error e) => (s, .error e)
      | (s, .ok log) =>
        if log.fees > u64Max then rollback s log.applied log.spent "ValueOverflow" .valueOverflow
        else (s, .ok (log.fees, log.mutations))

end Exfer.Impl
