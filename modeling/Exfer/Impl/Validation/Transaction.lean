import Exfer.Impl.Validation.Script

/-!
# Validation of transactions

`consensus/cost.rs`, and of `consensus/validation.rs` the rules for one transaction: a spend of
outputs in the UTXO set (`validateTransaction`) and a coinbase (`validateCoinbase`). Sums the
source takes in `u128` are natural numbers here.
-/

namespace Exfer.Impl

open Impl.Script (ScriptContext)
open Lib (failIf failOnDuplicate)

/-- `u64::MAX`. -/
def u64Max : Nat := 2 ^ 64 - 1

def maxTxSize : Nat := 1048576

def maxWitnessSize : Nat := 65535

def dustThreshold : UInt64 := 200

def maxTxScriptBudget : Nat := 20000000

/-! ## Cost -/

def utxoLookupCost : Nat := 100

def utxoCreateCost : Nat := 100

def smtDeleteCost : Nat := 500

def smtInsertCost : Nat := 500

def minFeeDivisor : Nat := 100

def phase1ScriptEvalCost : Nat := 5000

def outputTypecheckCost : Nat := 1000

def divCeil (a b : Nat) : Nat :=
  (a + b - 1) / b

def ceilDivU128 (a b : Nat) : Option Nat :=
  if divCeil a b > u64Max then none else some (divCeil a b)

/-- The cost of decoding a field of `bytes` bytes. -/
def deserCost (bytes : Nat) : Option Nat :=
  if bytes > 0 then ceilDivU128 bytes 64 else some 0

/-- The cost of decoding an optional field. -/
def optDeserCost : Option (List UInt8) → Option Nat
  | some bytes => deserCost bytes.length
  | none => some 0

def txCostWithScriptCost (tx : Transaction) (scriptEvalCost scriptValidationCost : Nat) :
    Option Nat := do
  let outputTypecheck :=
    (tx.outputs.filter fun o => ! isPhase1Script o.script).length * outputTypecheckCost
  let witnessDeser ← tx.witnesses.mapM fun w => do
    return (← deserCost w.witness.length) + (← optDeserCost w.redeemer)
  let datumDeser ← tx.outputs.mapM fun o => optDeserCost o.datum
  let txDeser ← ceilDivU128 (← tx.serialize.toOption).length 64
  let utxoIo := tx.inputs.length * utxoLookupCost + tx.outputs.length * utxoCreateCost
  let smt := tx.inputs.length * smtDeleteCost + tx.outputs.length * smtInsertCost
  let total := scriptEvalCost + outputTypecheck + witnessDeser.sum + datumDeser.sum + txDeser +
    utxoIo + smt + scriptValidationCost
  if total > u64Max then none else some total

def minFeeWithScriptCost (tx : Transaction) (scriptEvalCost scriptValidationCost : Nat) :
    Option Nat := do
  ceilDivU128 (← txCostWithScriptCost tx scriptEvalCost scriptValidationCost) minFeeDivisor

/-! ## Fields -/

variable [Crypto]

/-- The size limits on a witness. -/
def checkWitnessSize (idx : Nat) (w : TxWitness) : Except ValidationError Unit := do
  failIf (w.witness.length > maxWitnessSize) (.witnessOversized idx w.witness.length)
  match w.redeemer with
  | some r => failIf (r.length > maxRedeemerSize) (.redeemerOversized idx r.length)
  | none => .ok ()

/-- The size limit on an output's datum. -/
def checkDatumSize (idx : Nat) (o : TxOutput) : Except ValidationError Unit :=
  match o.datum with
  | some d => failIf (d.length > maxDatumSize) (.datumOversized idx d.length)
  | none => .ok ()

/-- An output's datum has the hash the output gives beside it. -/
def checkDatumHash (idx : Nat) (o : TxOutput) : Except ValidationError Unit :=
  match o.datum, o.datumHash with
  | some d, some h => failIf (Crypto.sha256 d ≠ h) (.datumHashMismatch idx)
  | _, _ => .ok ()

/-- The least value of an output. -/
def checkDust (idx : Nat) (o : TxOutput) : Except ValidationError Unit :=
  failIf (o.value < dustThreshold) (.outputBelowDust idx o.value)

/-- A check of every item of a list, which is told the item's index. -/
def forEach {α : Type} (xs : List α) (check : Nat → α → Except ValidationError Unit) :
    Except ValidationError Unit :=
  xs.zipIdx.forM fun x => check x.2 x.1

/-- The size limit on a transaction. -/
def checkTxSize (tx : Transaction) : Except ValidationError Unit :=
  match tx.serialize with
  | .error _ => .error (.txTooLarge 0)
  | .ok bytes => failIf (bytes.length > maxTxSize) (.txTooLarge bytes.length)

/-- The sum of the outputs. -/
def totalOutput (tx : Transaction) : Nat :=
  (tx.outputs.map fun o => o.value.toNat).sum

/-! ## Spends -/

/-- `sig_message`, with its failure as a validation error. -/
def sigMessageOf [Network] (tx : Transaction) : Except ValidationError (List UInt8) :=
  match tx.sigMessage with
  | .error _ => .error (.txTooLarge 0)
  | .ok bytes => .ok bytes

def buildScriptContext [Network] (tx : Transaction) (s : UtxoSet) (blockHeight : UInt64) :
    Except ValidationError ScriptContext := do
  let txInputs ← tx.inputs.zipIdx.mapM fun (input, i) =>
    match s.get input.outPoint with
    | none => .error (.inputMissing i)
    | some utxo => .ok ⟨input.prevTxId, input.outputIndex, utxo.output.value,
        Crypto.sha256 utxo.output.script⟩
  let txOutputs := tx.outputs.map fun o => ⟨o.value, Crypto.sha256 o.script, o.datumHash⟩
  let sigHash ← sigMessageOf tx
  return { txInputs, txOutputs, selfIndex := 0, blockHeight, sigHash }

/-- The entry an input spends, in the first pass over the inputs: it must be there, and a coinbase
output must be mature. -/
def lookupInput [Network] (s : UtxoSet) (height : UInt64) (input : TxInput) :
    Except ValidationError UtxoEntry :=
  let op := input.outPoint
  match s.get op with
  | none => .error (.utxoNotFound op)
  | some entry =>
    let age := height.toNat - entry.height.toNat
    if entry.isCoinbase ∧ age < Network.coinbaseMaturity.toNat then .error (.coinbaseImmature op age)
    else .ok entry

/-- The second pass at one input: the costs of its script and of validating it. -/
def checkInput (sigMessage : List UInt8) (context : ScriptContext) (idx : Nat) (entry : UtxoEntry)
    (witness : TxWitness) : Except ValidationError (Nat × Nat) :=
  if isPhase1Script entry.output.script then do
    validatePhase1Input idx witness entry.output sigMessage
    return (phase1ScriptEvalCost + divCeil sigMessage.length 64 * 8, 0)
  else do
    let cost ← validateScriptInput idx witness entry.output context
    return (cost, divCeil entry.output.script.length 64 * 10)

/-- The rules of `validate_transaction` that need no UTXO set. -/
def checkTransaction (tx : Transaction) : Except ValidationError Unit := do
  failIf (tx.inputs = []) .noInputs
  failIf (tx.outputs = []) .noOutputs
  failIf (tx.witnesses.length ≠ tx.inputs.length)
    (.witnessCountMismatch tx.inputs.length tx.witnesses.length)
  forEach tx.witnesses checkWitnessSize
  forEach tx.outputs checkDatumSize
  checkTxSize tx
  failOnDuplicate .duplicateInput [] (tx.inputs.map TxInput.outPoint)
  forEach tx.outputs fun idx o => do
    checkDust idx o
    checkDatumHash idx o

/-- The values of `validate_transaction`: the total of the inputs covers that of the outputs. -/
def checkValues (tx : Transaction) (entries : List UtxoEntry) : Except ValidationError Nat := do
  let totalInput := (entries.map fun e => e.output.value.toNat).sum
  failIf (totalInput > u64Max ∨ totalOutput tx > u64Max) .valueOverflow
  failIf (totalInput < totalOutput tx) .insufficientInputValue
  return totalInput - totalOutput tx

/-- The last rules of `validate_transaction`: the budget for scripts and the least fee. -/
def checkFee (tx : Transaction) (fee scriptCost scriptValidationCost : Nat) :
    Except ValidationError Unit := do
  failIf (scriptCost > maxTxScriptBudget) (.scriptEvalFailed (tx.inputs.length - 1)
    ("total script cost " ++ toString scriptCost ++ " exceeds per-transaction budget " ++
      toString maxTxScriptBudget))
  match minFeeWithScriptCost tx scriptCost scriptValidationCost with
  | none => .error .costOverflow
  | some minFee => failIf (fee < minFee) (.feeBelowMinimum fee minFee)

/-- `validate_transaction`: the fee, the cost of the scripts and that of their validation. -/
def validateTransaction [Network] (tx : Transaction) (s : UtxoSet) (height : UInt64) :
    Except ValidationError (Nat × Nat × Nat) := do
  checkTransaction tx
  let entries ← tx.inputs.mapM (lookupInput s height)
  let fee ← checkValues tx entries
  forEach tx.outputs checkOutputScript
  let sigMessage ← sigMessageOf tx
  let context ← buildScriptContext tx s height
  let costs ← (entries.zip tx.witnesses).zipIdx.mapM fun ((entry, witness), idx) =>
    checkInput sigMessage context idx entry witness
  let scriptCost := (costs.map Prod.fst).sum
  let scriptValidationCost := (costs.map Prod.snd).sum
  checkFee tx fee scriptCost scriptValidationCost
  return (fee, scriptCost, scriptValidationCost)

/-! ## Coinbases -/

/-- The input of a coinbase is the sentinel. -/
def checkSentinel (tx : Transaction) : Except ValidationError Unit :=
  match tx.inputs with
  | [input] => failIf (input.prevTxId ≠ Hash256.zero) (.coinbaseBadInputCount 0)
  | inputs => .error (.coinbaseBadInputCount inputs.length)

/-- The index of a coinbase's input encodes the height. -/
def checkCoinbaseIndex (tx : Transaction) (height : UInt64) : Except ValidationError Unit := do
  failIf (¬ height.toNat < 2 ^ 32) (.coinbaseHeightOverflow height)
  tx.inputs.forM fun input => failIf (input.outputIndex ≠ height.toUInt32)
    (.coinbaseBadOutputIndex height.toUInt32 input.outputIndex)

/-- A coinbase has one witness, which is empty except in the first block, and no redeemer. -/
def checkCoinbaseWitness (tx : Transaction) (height : UInt64) : Except ValidationError Unit :=
  match tx.witnesses with
  | [w] => do
    failIf (height ≠ 0 ∧ w.witness ≠ []) .coinbaseWitnessNotEmpty
    failIf w.redeemer.isSome .coinbaseHasRedeemer
  | ws => .error (.coinbaseWitnessCountMismatch 1 ws.length)

def validateCoinbase (tx : Transaction) (height : UInt64) (expectedReward : Nat) :
    Except ValidationError Unit := do
  checkSentinel tx
  checkTxSize tx
  checkCoinbaseIndex tx height
  checkCoinbaseWitness tx height
  forEach tx.outputs fun idx o => do
    checkDust idx o
    checkDatumSize idx o
    checkDatumHash idx o
  forEach tx.outputs checkOutputScript
  failIf (totalOutput tx > u64Max) (.coinbaseWrongReward expectedReward u64Max)
  failIf (totalOutput tx ≠ expectedReward) (.coinbaseWrongReward expectedReward (totalOutput tx))

end Exfer.Impl
