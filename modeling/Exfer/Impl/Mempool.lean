import Exfer.Impl.Validation.Transaction
import Exfer.Lib.Index
import Mathlib.Data.Finset.Sort

/-!
# The mempool

`mempool/mempool.rs`: unconfirmed transactions with four structures kept beside them. The hash map of
the entries is iterated in the order of the ids here. The loop that evicts entries ends because each
round takes the worst one out of the index and the entries; `none` would be a loop that does not end.
-/

namespace Exfer.Impl

open Lib (Map Index failIf)

def mempoolCapacity : Nat := 8192

/-- `MAX_MEMPOOL_BYTES`: 256 MiB. -/
def maxMempoolBytes : Nat := 268435456

structure SpentInput where
  outpoint : OutPoint
  script : List UInt8
  value : UInt64
  deriving DecidableEq

structure MempoolEntry where
  tx : Transaction
  txId : Hash256
  fee : Nat
  txCost : Nat
  feeDensity : Nat
  spentInputs : List SpentInput
  deriving DecidableEq

/-- The scripts an entry touches: those its outputs pay and those of the outputs it spends. -/
def MempoolEntry.scripts (e : MempoolEntry) : List (List UInt8) :=
  (e.tx.outputs.map fun o => o.script) ++ e.spentInputs.map fun i => i.script

inductive MempoolError where
  | alreadyInMempool
  | coinbaseNotAllowed
  | doubleSpend (op : OutPoint)
  | validationFailed (e : ValidationError)
  | feeTooLow
  | costOverflow
  deriving DecidableEq

structure Mempool where
  entries : Map Hash256 MempoolEntry
  byFeeDensity : Map (Nat × Hash256) Hash256
  spentOutpoints : Finset OutPoint
  byScript : Index (List UInt8) Hash256
  totalBytes : Nat

/-- The outpoints that the inputs of a transaction spend. -/
def Transaction.outpoints (tx : Transaction) : List OutPoint :=
  tx.inputs.map TxInput.outPoint

/-- `serialized_size().unwrap_or(0)`. -/
def Transaction.sizeOrZero (tx : Transaction) : Nat :=
  match tx.serialize with
  | .ok bytes => bytes.length
  | .error _ => 0

/-- The order of the keys of `by_fee_density`. -/
def densityLe (a b : Nat × Hash256) : Prop :=
  a.1 < b.1 ∨ a.1 = b.1 ∧ a.2 ≤ b.2

instance : DecidableRel densityLe := fun a b =>
  inferInstanceAs (Decidable (a.1 < b.1 ∨ a.1 = b.1 ∧ a.2 ≤ b.2))

instance : IsTrans (Nat × Hash256) densityLe where
  trans a b c hab hbc := by
    rcases hab with hab | ⟨hab, hab'⟩ <;> rcases hbc with hbc | ⟨hbc, hbc'⟩
    · exact .inl (Nat.lt_trans hab hbc)
    · exact .inl (hbc ▸ hab)
    · exact .inl (hab ▸ hbc)
    · exact .inr ⟨hab.trans hbc, Trans.trans hab' hbc'⟩

instance : Std.Antisymm densityLe where
  antisymm a b hab hba := by
    rcases hab with hab | ⟨hab, hab'⟩ <;> rcases hba with hba | ⟨hba, hba'⟩
    · omega
    · omega
    · omega
    · exact Prod.ext hab (Std.le_antisymm hab' hba')

instance : Std.Total densityLe where
  total a b := by
    rcases Nat.lt_trichotomy a.1 b.1 with h | h | h
    · exact .inl (.inl h)
    · rcases Std.le_total (a := a.2) (b := b.2) with h' | h'
      · exact .inl (.inr ⟨h, h'⟩)
      · exact .inr (.inr ⟨h.symm, h'⟩)
    · exact .inr (.inl h)

namespace Mempool

def new : Mempool := ⟨∅, ∅, ∅, ∅, 0⟩

variable [Crypto]

def resolveSpentInputs (tx : Transaction) (resolved : UtxoSet) : List SpentInput :=
  tx.inputs.filterMap fun input => (resolved.get input.outPoint).map fun utxo =>
    ⟨input.outPoint, utxo.output.script, utxo.output.value⟩

variable (m : Mempool)

def indexEntry (e : MempoolEntry) : Mempool :=
  { m with byScript := m.byScript.addAll e.scripts e.txId }

def deindexEntry (e : MempoolEntry) : Mempool :=
  { m with byScript := m.byScript.removeAll e.scripts e.txId }

/-- The ids of the entries, in the order of an iteration. -/
def txIds : List Hash256 :=
  m.entries.keys.sort (· ≤ ·)

/-- The first key of `by_fee_density`, with its value. -/
def firstKeyValue : Option ((Nat × Hash256) × Hash256) := do
  let key ← (m.byFeeDensity.keys.sort densityLe).head?
  let txId ← m.byFeeDensity.lookup key
  return (key, txId)

/-! ## Removal -/

/-- What `remove` and `evict_lowest` do with an entry that is out of `by_fee_density`. -/
def dropEntry (txId : Hash256) (e : MempoolEntry) : Mempool :=
  let m := { m with entries := m.entries.erase txId }.deindexEntry e
  { m with
    spentOutpoints := e.tx.outpoints.foldl Finset.erase m.spentOutpoints
    totalBytes := m.totalBytes - e.tx.sizeOrZero }

def remove (txId : Hash256) : Mempool × Option Transaction :=
  match m.entries.lookup txId with
  | none => (m, none)
  | some e =>
    ({ m with byFeeDensity := m.byFeeDensity.erase (e.feeDensity, e.txId) }.dropEntry txId e, some e.tx)

def evictLowest : Mempool :=
  match m.firstKeyValue with
  | none => m
  | some (key, txId) =>
    let m := { m with byFeeDensity := m.byFeeDensity.erase key }
    match m.entries.lookup txId with
    | none => m
    | some e => m.dropEntry txId e

/-! ## Admission -/

/-- `tx_id`, with its failure as an error of the mempool. -/
def idOf (tx : Transaction) : Except MempoolError Hash256 :=
  match tx.txId with
  | .error _ => .error (.validationFailed (.txTooLarge 0))
  | .ok txId => .ok txId

/-- The checks against the entries, which `pre_check`, `add` and `add_validated` all make; the id of
the transaction. -/
def checkLocal (tx : Transaction) : Except MempoolError Hash256 := do
  let txId ← idOf tx
  failIf (m.entries.lookup txId).isSome .alreadyInMempool
  failIf tx.isCoinbase .coinbaseNotAllowed
  tx.outpoints.forM fun op => failIf (op ∈ m.spentOutpoints) (.doubleSpend op)
  return txId

def preCheck (tx : Transaction) : Except MempoolError Unit := do
  let _ ← m.checkLocal tx

/-- A new transaction of the given size does not fit. -/
def isFull (txBytes : Nat) : Bool :=
  m.entries.keys.card ≥ mempoolCapacity ∨ m.totalBytes + txBytes > maxMempoolBytes

/-- The loop that evicts entries until a new one fits. -/
def evictWhile (txBytes : Nat) : (fuel : Nat) → Mempool → Option Mempool
  | 0, _ => none
  | fuel + 1, m =>
    if m.isFull txBytes then
      if m.entries.keys = ∅ then some m else evictWhile txBytes fuel m.evictLowest
    else some m

/-- Room for a new transaction, if it pays better than the worst entry. -/
def makeRoom (feeDensity txBytes : Nat) : Option (Except MempoolError Mempool) :=
  if m.isFull txBytes then
    match m.firstKeyValue with
    | none => some (.ok m)
    | some ((worstDensity, _), _) =>
      if feeDensity ≤ worstDensity then some (.error .feeTooLow)
      else (evictWhile txBytes (m.entries.keys.card + 1) m).map .ok
  else some (.ok m)

/-- A new entry in all the structures. -/
def insertEntry (e : MempoolEntry) (txBytes : Nat) : Mempool :=
  let m := { m with
    spentOutpoints := e.tx.outpoints.foldl (fun set op => insert op set) m.spentOutpoints
    byFeeDensity := m.byFeeDensity.insert (e.feeDensity, e.txId) e.txId
    totalBytes := m.totalBytes + txBytes }
  let m := m.indexEntry e
  { m with entries := m.entries.insert e.txId e }

/-- The part of `add` and `add_validated` after the checks. -/
def addChecked (tx : Transaction) (txId : Hash256) (fee scriptCost scriptValidationCost : Nat)
    (resolved : UtxoSet) : Option (Mempool × Except MempoolError Hash256) :=
  match txCostWithScriptCost tx scriptCost scriptValidationCost with
  | none => some (m, .error .costOverflow)
  | some txCost =>
    let feeDensity := if txCost > 0 then min (fee * 1000000) u64Max / txCost else 0
    let e : MempoolEntry :=
      { tx, txId, fee, txCost, feeDensity, spentInputs := resolveSpentInputs tx resolved }
    match m.makeRoom feeDensity tx.sizeOrZero with
    | none => none
    | some (.error e) => some (m, .error e)
    | some (.ok m) => some (m.insertEntry e tx.sizeOrZero, .ok txId)

def add [Network] (tx : Transaction) (s : UtxoSet) (currentHeight : UInt64) :
    Option (Mempool × Except MempoolError Hash256) :=
  match m.checkLocal tx with
  | .error e => some (m, .error e)
  | .ok txId =>
    match validateTransaction tx s currentHeight with
    | .error e => some (m, .error (.validationFailed e))
    | .ok (fee, scriptCost, scriptValidationCost) =>
      m.addChecked tx txId fee scriptCost scriptValidationCost s

def addValidated (tx : Transaction) (fee scriptCost scriptValidationCost : Nat)
    (resolvedInputs : UtxoSet) : Option (Mempool × Except MempoolError Hash256) :=
  match m.checkLocal tx with
  | .error e => some (m, .error e)
  | .ok txId => m.addChecked tx txId fee scriptCost scriptValidationCost resolvedInputs

/-! ## Blocks -/

/-- Remove the entries with the given ids. -/
def removeAll (m : Mempool) (txIds : List Hash256) : Mempool :=
  txIds.foldl (fun m txId => (m.remove txId).1) m

/-- The outpoints that the transactions of a block spend, its coinbase left out. -/
def confirmedOutpoints (transactions : List Transaction) : List OutPoint :=
  (transactions.filter fun tx => ! tx.isCoinbase).flatMap Transaction.outpoints

def removeConfirmed (transactions : List Transaction) : Mempool :=
  let m := m.removeAll (transactions.filterMap fun tx => tx.txId.toOption)
  let confirmed := confirmedOutpoints transactions
  m.removeAll (m.txIds.filter fun txId =>
    match m.entries.lookup txId with
    | some e => e.tx.outpoints.any (· ∈ confirmed)
    | none => false)

def referencedOutpoints : List OutPoint :=
  m.txIds.flatMap fun txId =>
    match m.entries.lookup txId with
    | some e => e.tx.outpoints
    | none => []

variable [Network]

/-- The first phase of `revalidate` at an input: it is gone, or an immature coinbase output. -/
def utxoInvalid (s : UtxoSet) (currentHeight : UInt64) (op : OutPoint) : Bool :=
  match s.get op with
  | none => true
  | some utxo => utxo.isCoinbase ∧
      currentHeight.toNat - utxo.height.toNat < Network.coinbaseMaturity.toNat

/-- An entry is no longer valid: `should_remove` of `revalidate`. -/
def shouldRemove (s : UtxoSet) (currentHeight : UInt64) (e : MempoolEntry) : Bool :=
  if e.tx.outpoints.any (utxoInvalid s currentHeight) then true
  else (validateTransaction e.tx s currentHeight).toOption.isNone

def revalidate (s : UtxoSet) (currentHeight : UInt64) : Mempool :=
  m.txIds.foldl (fun m txId =>
    match m.entries.lookup txId with
    | some e => if shouldRemove s currentHeight e then (m.remove txId).1 else m
    | none => m) m

end Mempool

end Exfer.Impl
