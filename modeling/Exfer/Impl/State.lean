import Exfer.Impl.Transaction
import Exfer.Proof.Smt.Refine

/-!
# The UTXO set

`chain/state.rs`: the unspent outputs with their commitment and an index by script. An
operation that can stop half way returns the set as it left it beside its result. The
Merkle tree is a `StateTree`: `Exfer.Proof.Smt.Refine` shows that its operations do not
panic.
-/

namespace Exfer.Impl

open Lib (Map ascii leBytes)
open Proof (StateTree)

/-- The domain separator `DS_STATE`. -/
def dsState : List UInt8 := ascii "EXFER-STATE"

inductive StateError where
  | inputNotFound (op : OutPoint)
  | outputNotFound (op : OutPoint)
  | duplicateRestore (op : OutPoint)
  | duplicateOutpoint (op : OutPoint)
  | serialization (msg : String)
  | incompleteUndo (expected got : Nat)
  deriving DecidableEq

/-- The conversion of a serialization error. -/
def StateError.ofSer (e : SerError) : StateError :=
  .serialization e.debug

/-- The `Display` form of a state error. -/
def StateError.display : StateError → String
  | .inputNotFound op => "input UTXO not found: " ++ op.debug
  | .outputNotFound op => "output to undo not found: " ++ op.debug
  | .duplicateRestore op => "duplicate UTXO restore: " ++ op.debug
  | .duplicateOutpoint op => "duplicate outpoint insertion: " ++ op.debug
  | .serialization msg => "serialization error: " ++ msg
  | .incompleteUndo expected got =>
    "incomplete undo: expected " ++ toString expected ++ " spent UTXOs, got " ++ toString got

structure UtxoEntry where
  output : TxOutput
  height : UInt64
  isCoinbase : Bool
  deriving DecidableEq

inductive UtxoMutation where
  | insert (op : OutPoint) (entry : UtxoEntry)
  | remove (op : OutPoint) (entry : UtxoEntry)
  deriving DecidableEq

/-- `UtxoMutation::collect_spent_utxos`: the removed entries, in order. -/
def UtxoMutation.collectSpentUtxos (mutations : List UtxoMutation) : List (OutPoint × UtxoEntry) :=
  mutations.filterMap fun
    | .remove op e => some (op, e)
    | .insert _ _ => none

variable [Crypto]

def leafKey (op : OutPoint) : Hash256 :=
  Hash256.domainHash dsState (op.txId.toList ++ leBytes 4 op.outputIndex.toNat)

def leafValue (canonicalOutputBytes : List UInt8) (height : UInt64) (isCoinbase : Bool) : Hash256 :=
  Crypto.sha256 (canonicalOutputBytes ++ leBytes 8 height.toNat ++ [if isCoinbase then 1 else 0])

structure UtxoSet where
  utxos : Map OutPoint UtxoEntry
  smt : StateTree
  byScript : Map (List UInt8) (Finset OutPoint)

namespace UtxoSet

def new : UtxoSet where
  utxos := ∅
  smt := StateTree.new
  byScript := ∅

variable (s : UtxoSet)

def get (op : OutPoint) : Option UtxoEntry :=
  s.utxos.lookup op

def snapshotForOutpoints (outpoints : List OutPoint) : UtxoSet where
  utxos := outpoints.foldl (fun utxos op =>
    match s.utxos.lookup op with
    | some entry => utxos.insert op entry
    | none => utxos) ∅
  smt := StateTree.new
  byScript := ∅

def contains (op : OutPoint) : Bool :=
  (s.utxos.lookup op).isSome

def stateRoot : Hash256 :=
  s.smt.root

def insert (op : OutPoint) (entry : UtxoEntry) : UtxoSet × Except StateError Unit :=
  if s.contains op then (s, .error (.duplicateOutpoint op))
  else
    match entry.output.serialize with
    | .error e => (s, .error (.ofSer e))
    | .ok bytes =>
      let value := leafValue bytes entry.height entry.isCoinbase
      let script := entry.output.script
      ({ utxos := s.utxos.insert op entry
         smt := s.smt.insert (leafKey op) value
         byScript := s.byScript.insert script
          (Insert.insert op ((s.byScript.lookup script).getD ∅)) }, .ok ())

def remove (op : OutPoint) : UtxoSet × Option UtxoEntry :=
  match s.utxos.lookup op with
  | none => (s, none)
  | some entry =>
    let byScript := match s.byScript.lookup entry.output.script with
      | none => s.byScript
      | some set =>
        let set := set.erase op
        if set = ∅ then s.byScript.erase entry.output.script
        else s.byScript.insert entry.output.script set
    ({ utxos := s.utxos.erase op, smt := s.smt.remove (leafKey op), byScript }, some entry)

/-- The loop of `apply_transaction` over the inputs. -/
def spendInputs (s : UtxoSet) : List TxInput → UtxoSet × Except StateError (List UtxoMutation)
  | [] => (s, .ok [])
  | input :: rest =>
    let op := input.outPoint
    match s.remove op with
    | (s, none) => (s, .error (.inputNotFound op))
    | (s, some entry) =>
      match spendInputs s rest with
      | (s, .error e) => (s, .error e)
      | (s, .ok mutations) => (s, .ok (.remove op entry :: mutations))

/-- The loop of `apply_transaction` over the outputs, from index `idx` on. -/
def createOutputs (txId : Hash256) (height : UInt64) (isCoinbase : Bool) :
    UtxoSet → (idx : Nat) → List TxOutput → UtxoSet × Except StateError (List UtxoMutation)
  | s, _, [] => (s, .ok [])
  | s, idx, output :: rest =>
    let op : OutPoint := ⟨txId, UInt32.ofNat idx⟩
    let entry : UtxoEntry := { output, height, isCoinbase }
    match s.insert op entry with
    | (s, .error e) => (s, .error e)
    | (s, .ok ()) =>
      match createOutputs txId height isCoinbase s (idx + 1) rest with
      | (s, .error e) => (s, .error e)
      | (s, .ok mutations) => (s, .ok (.insert op entry :: mutations))

def applyTransaction (tx : Transaction) (height : UInt64) :
    UtxoSet × Except StateError (List UtxoMutation) :=
  match tx.txId with
  | .error e => (s, .error (.ofSer e))
  | .ok txId =>
    match (if tx.isCoinbase then (s, .ok []) else s.spendInputs tx.inputs) with
    | (s, .error e) => (s, .error e)
    | (s, .ok removed) =>
      match createOutputs txId height tx.isCoinbase s 0 tx.outputs with
      | (s, .error e) => (s, .error e)
      | (s, .ok inserted) => (s, .ok (removed ++ inserted))

/-- The loop of `undo_transaction` over the outputs: `n` of them from index `idx` on. -/
def removeOutputs (txId : Hash256) : UtxoSet → (idx n : Nat) → UtxoSet × Except StateError Unit
  | s, _, 0 => (s, .ok ())
  | s, idx, n + 1 =>
    let op : OutPoint := ⟨txId, UInt32.ofNat idx⟩
    match s.remove op with
    | (s, none) => (s, .error (.outputNotFound op))
    | (s, some _) => removeOutputs txId s (idx + 1) n

/-- The loop of `undo_transaction` over the spent entries. -/
def restoreInputs (s : UtxoSet) : List (OutPoint × UtxoEntry) → UtxoSet × Except StateError Unit
  | [] => (s, .ok ())
  | (op, entry) :: rest =>
    if s.contains op then (s, .error (.duplicateRestore op))
    else
      match s.insert op entry with
      | (s, .error e) => (s, .error e)
      | (s, .ok ()) => restoreInputs s rest

def undoTransaction (tx : Transaction) (prevUtxos : List (OutPoint × UtxoEntry)) :
    UtxoSet × Except StateError Unit :=
  if !tx.isCoinbase && prevUtxos.length ≠ tx.inputs.length then
    (s, .error (.incompleteUndo tx.inputs.length prevUtxos.length))
  else
    match tx.txId with
    | .error e => (s, .error (.ofSer e))
    | .ok txId =>
      match removeOutputs txId s 0 tx.outputs.length with
      | (s, .error e) => (s, .error e)
      | (s, .ok ()) => s.restoreInputs prevUtxos

/-- The loop of `undo_partial_transaction` over the outputs; missing ones are skipped. -/
def removeOutputsPartial (txId : Hash256) : UtxoSet → (idx n : Nat) → UtxoSet
  | s, _, 0 => s
  | s, idx, n + 1 => removeOutputsPartial txId (s.remove ⟨txId, UInt32.ofNat idx⟩).1 (idx + 1) n

/-- The loop of `undo_partial_transaction` over the spent entries; live ones are skipped. -/
def restoreInputsPartial (s : UtxoSet) :
    List (OutPoint × UtxoEntry) → UtxoSet × Except StateError Unit
  | [] => (s, .ok ())
  | (op, entry) :: rest =>
    if s.contains op then restoreInputsPartial s rest
    else
      match s.insert op entry with
      | (s, .error e) => (s, .error e)
      | (s, .ok ()) => restoreInputsPartial s rest

def undoPartialTransaction (tx : Transaction) (prevUtxos : List (OutPoint × UtxoEntry)) :
    UtxoSet × Except StateError Unit :=
  match tx.txId with
  | .error e => (s, .error (.ofSer e))
  | .ok txId =>
    let s := removeOutputsPartial txId s 0 tx.outputs.length
    if tx.isCoinbase then (s, .ok ()) else s.restoreInputsPartial prevUtxos

end UtxoSet

end Exfer.Impl
