import Exfer.Impl.Mempool
import Exfer.Lib.Table
import Exfer.Lib.Total

/-!
# Calls on the mempool

The operations that change the mempool, in any order (`runCalls`), and what the structures beside the
entries stand for (`Exact`).
-/

namespace Exfer.Spec

open Lib Impl

variable [Crypto] [Network]

/-- A call that may change the mempool. -/
inductive MempoolCall where
  | add (tx : Transaction) (s : UtxoSet) (currentHeight : UInt64)
  | addValidated (tx : Transaction) (fee scriptCost scriptValidationCost : Nat)
      (resolvedInputs : UtxoSet)
  | remove (txId : Hash256)
  | removeConfirmed (transactions : List Transaction)
  | revalidate (s : UtxoSet) (currentHeight : UInt64)

/-- The error of a result. -/
def errorOf {ε α : Type} : Except ε α → Option ε
  | .error e => some e
  | .ok _ => none

/-- The mempool after a call, and the error it returns. -/
def MempoolCall.run (m : Mempool) : MempoolCall → Option (Mempool × Option MempoolError)
  | .add tx s currentHeight => (m.add tx s currentHeight).map fun r => (r.1, errorOf r.2)
  | .addValidated tx fee scriptCost scriptValidationCost resolvedInputs =>
    (m.addValidated tx fee scriptCost scriptValidationCost resolvedInputs).map fun r =>
      (r.1, errorOf r.2)
  | .remove txId => some ((m.remove txId).1, none)
  | .removeConfirmed transactions => some (m.removeConfirmed transactions, none)
  | .revalidate s currentHeight => some (m.revalidate s currentHeight, none)

/-- The mempool after one call after another. -/
def runCalls (m : Mempool) : List MempoolCall → Option Mempool
  | [] => some m
  | c :: rest =>
    match c.run m with
    | none => none
    | some (m, _) => runCalls m rest

/-- The snapshot has an entry for every input. -/
def Covers (s : UtxoSet) (tx : Transaction) : Prop :=
  ∀ op ∈ tx.outpoints, (s.get op).isSome

/-- What the callers of `add_validated` have checked: the transaction passed `validate_transaction`
against the snapshot they pass on, so the snapshot covers its inputs and its size is within
`MAX_TX_SIZE`. -/
def MempoolCall.Promised : MempoolCall → Prop
  | .addValidated tx _ _ _ resolvedInputs => Covers resolvedInputs tx ∧ tx.sizeOrZero ≤ maxTxSize
  | _ => True

/-- The structures beside the entries are the ones of the entries, no two entries share an input, and
the caps hold. -/
structure Exact (m : Mempool) : Prop where
  /-- Entries are under their ids. -/
  txIds : ∀ txId e, m.entries.lookup txId = some e → e.txId = txId ∧ e.tx.txId = .ok txId
  /-- An entry has the script and the value of every output it spends. -/
  resolved : ∀ txId e, m.entries.lookup txId = some e →
    e.spentInputs.map SpentInput.outpoint = e.tx.outpoints
  byFeeDensity : m.byFeeDensity.IsTable fun key txId =>
    ∃ e, m.entries.lookup txId = some e ∧ key = (e.feeDensity, txId)
  spentOutpoints : ∀ op, op ∈ m.spentOutpoints ↔
    ∃ txId e, m.entries.lookup txId = some e ∧ op ∈ e.tx.outpoints
  byScript : m.byScript.Holds fun script txId =>
    ∃ e, m.entries.lookup txId = some e ∧ script ∈ e.scripts
  totalBytes : m.totalBytes = total (fun e => e.tx.sizeOrZero) m.entries
  noConflict : ∀ txId e txId' e', m.entries.lookup txId = some e → m.entries.lookup txId' = some e' →
    ∀ op ∈ e.tx.outpoints, op ∈ e'.tx.outpoints → txId = txId'
  capacity : m.entries.keys.card ≤ mempoolCapacity
  maxBytes : m.totalBytes ≤ maxMempoolBytes

end Exfer.Spec
