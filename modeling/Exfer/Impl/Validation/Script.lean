import Exfer.Impl.State
import Exfer.Impl.Script.Eval

/-!
# Validation of scripts

`consensus/validation.rs`, as far as it concerns scripts: the admission of output scripts and
the evaluation of the scripts that inputs unlock.
-/

namespace Exfer.Impl

open Lib (failIf)
open Impl.Script (Ty Value Combinator Program TypedNode ScriptContext TxInputInfo
  TxOutputInfo typecheck maxEvalDepth)

def maxScriptSteps : Nat := 4000000

/-- `ValidationError`, without the variants no code constructs. -/
inductive ValidationError where
  | invalidVersion (version : UInt32)
  | invalidHeight (expected got : UInt64)
  | invalidPrevBlockId
  | powFailed
  | invalidDifficulty
  | timestampBelowMtp (mtp timestamp : UInt64)
  | timestampTooFarAhead (max timestamp : UInt64)
  | timestampGapTooLarge (parent timestamp : UInt64)
  | invalidTxRoot
  | noCoinbase
  | noTransactions
  | blockTooLarge (size : Nat)
  | duplicateTransaction (txId : Hash256)
  | doubleSpend (op : OutPoint)
  | nonCoinbaseSentinel (txIndex : Nat)
  | noInputs
  | noOutputs
  | utxoNotFound (op : OutPoint)
  | duplicateInput (op : OutPoint)
  | pubkeyHashMismatch (inputIndex : Nat)
  | signatureInvalid (inputIndex : Nat)
  | witnessInvalid (inputIndex : Nat) (reason : String)
  | outputBelowDust (outputIndex : Nat) (value : UInt64)
  | valueOverflow
  | insufficientInputValue
  | feeBelowMinimum (fee minFee : Nat)
  | coinbaseImmature (op : OutPoint) (age : Nat)
  | txTooLarge (size : Nat)
  | costOverflow
  | witnessCountMismatch (inputs witnesses : Nat)
  | illTypedScript (outputIndex : Nat)
  | ambiguousScript (outputIndex : Nat)
  | scriptEvalFailed (inputIndex : Nat) (reason : String)
  | datumHashMismatch (outputIndex : Nat)
  | witnessOversized (inputIndex size : Nat)
  | datumOversized (outputIndex size : Nat)
  | redeemerOversized (inputIndex size : Nat)
  | phase1HasRedeemer (inputIndex : Nat)
  | rewardOverflow
  | arithmeticOverflow
  | stateCorrupted (msg : String)
  | coinbaseBadInputCount (count : Nat)
  | coinbaseBadOutputIndex (expected got : UInt32)
  | coinbaseHeightOverflow (height : UInt64)
  | coinbaseWrongReward (expected got : Nat)
  | coinbaseWitnessNotEmpty
  | coinbaseHasRedeemer
  | coinbaseWitnessCountMismatch (expected got : Nat)
  | inputMissing (index : Nat)
  deriving DecidableEq

/-- The `Debug` form of a variant with named fields. -/
def debugFields (name : String) (fields : List (String × String)) : String :=
  name ++ " \x7b " ++ String.intercalate ", " (fields.map fun f => f.1 ++ ": " ++ f.2) ++ " \x7d"

/-- The `Display` form of a validation error, which is its `Debug` form. -/
def ValidationError.display : ValidationError → String
  | .invalidVersion v => "InvalidVersion(" ++ toString v.toNat ++ ")"
  | .invalidHeight e g =>
    debugFields "InvalidHeight" [("expected", toString e.toNat), ("got", toString g.toNat)]
  | .invalidPrevBlockId => "InvalidPrevBlockId"
  | .powFailed => "PowFailed"
  | .invalidDifficulty => "InvalidDifficulty"
  | .timestampBelowMtp m t =>
    debugFields "TimestampBelowMtp" [("mtp", toString m.toNat), ("timestamp", toString t.toNat)]
  | .timestampTooFarAhead m t =>
    debugFields "TimestampTooFarAhead" [("max", toString m.toNat), ("timestamp", toString t.toNat)]
  | .timestampGapTooLarge p t =>
    debugFields "TimestampGapTooLarge" [("parent", toString p.toNat), ("timestamp", toString t.toNat)]
  | .invalidTxRoot => "InvalidTxRoot"
  | .noCoinbase => "NoCoinbase"
  | .noTransactions => "NoTransactions"
  | .blockTooLarge s => debugFields "BlockTooLarge" [("size", toString s)]
  | .duplicateTransaction h => "DuplicateTransaction(" ++ h.debug ++ ")"
  | .doubleSpend op => "DoubleSpend(" ++ op.debug ++ ")"
  | .nonCoinbaseSentinel i => debugFields "NonCoinbaseSentinel" [("tx_index", toString i)]
  | .noInputs => "NoInputs"
  | .noOutputs => "NoOutputs"
  | .utxoNotFound op => "UtxoNotFound(" ++ op.debug ++ ")"
  | .duplicateInput op => "DuplicateInput(" ++ op.debug ++ ")"
  | .pubkeyHashMismatch i => debugFields "PubkeyHashMismatch" [("input_index", toString i)]
  | .signatureInvalid i => debugFields "SignatureInvalid" [("input_index", toString i)]
  | .witnessInvalid i r =>
    debugFields "WitnessInvalid" [("input_index", toString i), ("reason", Script.debugString r)]
  | .outputBelowDust i v =>
    debugFields "OutputBelowDust" [("output_index", toString i), ("value", toString v.toNat)]
  | .valueOverflow => "ValueOverflow"
  | .insufficientInputValue => "InsufficientInputValue"
  | .feeBelowMinimum f m =>
    debugFields "FeeBelowMinimum" [("fee", toString f), ("min_fee", toString m)]
  | .coinbaseImmature op a =>
    debugFields "CoinbaseImmature" [("outpoint", op.debug), ("age", toString a)]
  | .txTooLarge s => debugFields "TxTooLarge" [("size", toString s)]
  | .costOverflow => "CostOverflow"
  | .witnessCountMismatch i w =>
    debugFields "WitnessCountMismatch" [("inputs", toString i), ("witnesses", toString w)]
  | .illTypedScript i => "IllTypedScript(" ++ toString i ++ ")"
  | .ambiguousScript i => "AmbiguousScript(" ++ toString i ++ ")"
  | .scriptEvalFailed i r =>
    debugFields "ScriptEvalFailed" [("input_index", toString i), ("reason", Script.debugString r)]
  | .datumHashMismatch i => "DatumHashMismatch(" ++ toString i ++ ")"
  | .witnessOversized i s =>
    debugFields "WitnessOversized" [("input_index", toString i), ("size", toString s)]
  | .datumOversized i s =>
    debugFields "DatumOversized" [("output_index", toString i), ("size", toString s)]
  | .redeemerOversized i s =>
    debugFields "RedeemerOversized" [("input_index", toString i), ("size", toString s)]
  | .phase1HasRedeemer i => debugFields "Phase1HasRedeemer" [("input_index", toString i)]
  | .rewardOverflow => "RewardOverflow"
  | .arithmeticOverflow => "ArithmeticOverflow"
  | .stateCorrupted msg => "StateCorrupted(" ++ Script.debugString msg ++ ")"
  | .coinbaseBadInputCount c => "CoinbaseBadInputCount(" ++ toString c ++ ")"
  | .coinbaseBadOutputIndex e g =>
    debugFields "CoinbaseBadOutputIndex" [("expected", toString e.toNat), ("got", toString g.toNat)]
  | .coinbaseHeightOverflow h => "CoinbaseHeightOverflow(" ++ toString h.toNat ++ ")"
  | .coinbaseWrongReward e g =>
    debugFields "CoinbaseWrongReward" [("expected", toString e), ("got", toString g)]
  | .coinbaseWitnessNotEmpty => "CoinbaseWitnessNotEmpty"
  | .coinbaseHasRedeemer => "CoinbaseHasRedeemer"
  | .coinbaseWitnessCountMismatch e g =>
    debugFields "CoinbaseWitnessCountMismatch" [("expected", toString e), ("got", toString g)]
  | .inputMissing i => debugFields "InputMissing" [("index", toString i)]

/-! ## Admission -/

/-- `script_input_type`: witness, optional redeemer, optional datum, unit. -/
def scriptInputType : Ty :=
  .product .bytes (.product (.option .bytes) (.product (.option .bytes) .unit))

/-- `script_input_accepts`: only the wildcard of the script accepts every type. -/
def scriptInputAccepts (scriptType runtimeType : Ty) : Bool :=
  if scriptType = runtimeType then true
  else if scriptType = .unit then true
  else
    match scriptType, runtimeType with
    | .product a1 a2, .product b1 b2 => scriptInputAccepts a1 b1 && scriptInputAccepts a2 b2
    | .sum a1 a2, .sum b1 b2 => scriptInputAccepts a1 b1 && scriptInputAccepts a2 b2
    | .list a1, .list b1 => scriptInputAccepts a1 b1
    | _, _ => false

/-- The input type of a node. -/
def inTy (typed : List TypedNode) (i : Nat) : Ty :=
  (typed[i]?.map TypedNode.inputType).getD .unit

/-- The output type of a node. -/
def outTy (typed : List TypedNode) (i : Nat) : Ty :=
  (typed[i]?.map TypedNode.outputType).getD .unit

/-- The first pass of `strict_type_edges`, at one node: the edges to its children. -/
def strictEdges (typed : List TypedNode) : Combinator → Bool
  | .comp f g => outTy typed f == inTy typed g
  | .case f g => outTy typed f == outTy typed g
  | .pair f g =>
    ! (inTy typed f != .unit && inTy typed g != .unit && inTy typed f != inTy typed g) &&
      ! (outTy typed f == .unit || outTy typed g == .unit)
  | .fold f z _ =>
    ! (outTy typed f != outTy typed z || outTy typed f == .unit || outTy typed z == .unit)
  | .listFold f z =>
    ! (outTy typed f != outTy typed z || outTy typed f == .unit || outTy typed z == .unit)
  | _ => true

/-- The final pass of `strict_type_edges`, at one node: its output type is that of the
children it comes from. -/
def strictOutput (typed : List TypedNode) (i : Nat) (node : Combinator) : Bool :=
  if outTy typed i = .unit then true
  else
    match node with
    | .comp _ g => outTy typed i == outTy typed g
    | .case f g =>
      ! (outTy typed f == .unit || outTy typed g == .unit) &&
        ! (outTy typed i != outTy typed f || outTy typed i != outTy typed g)
    | _ => true

def strictTypeEdges (p : Program) (typed : List TypedNode) : Bool :=
  p.nodes.all (strictEdges typed) && p.nodes.zipIdx.all fun n => strictOutput typed n.2 n.1

/-- The scan of `validate_output_script` for nodes that cannot be evaluated. -/
def evaluable : Combinator → Bool
  | .jet id => id.isImplemented
  | .merkleHidden _ => false
  | .const v => v.listsAreHomogeneous
  | _ => true

def validateOutputScript (idx : Nat) (output : TxOutput) : Except ValidationError Unit :=
  match Program.deserializeProgram output.script with
  | .error _ => .error (.illTypedScript idx)
  | .ok program =>
    match typecheck program with
    | .error _ => .error (.illTypedScript idx)
    | .ok typed =>
      if outTy typed program.root ≠ .boolType then .error (.illTypedScript idx)
      else if ! strictTypeEdges program typed then .error (.illTypedScript idx)
      else if ! program.nodes.all evaluable then .error (.illTypedScript idx)
      else if ! scriptInputAccepts (inTy typed program.root) scriptInputType then
        .error (.illTypedScript idx)
      else if program.maxDepth > maxEvalDepth then .error (.illTypedScript idx)
      else
        match program.computeCost ⟨1, 1⟩ with
        | .ok cost => if cost.steps > maxScriptSteps then .error (.illTypedScript idx) else .ok ()
        | .error _ => .error (.illTypedScript idx)

/-- `is_phase1_script`: a 32-byte script is a public-key hash. -/
def isPhase1Script (script : List UInt8) : Bool :=
  script.length == 32

/-- The check of an output's script in `validate_transaction` and `validate_coinbase`: a
public-key hash must not decode as a program, any other script must be admitted. -/
def checkOutputScript (idx : Nat) (output : TxOutput) : Except ValidationError Unit :=
  if isPhase1Script output.script then
    match Program.deserializeProgram output.script with
    | .ok _ => .error (.ambiguousScript idx)
    | .error _ => .ok ()
  else validateOutputScript idx output

def checkScriptAdmissible (idx : Nat) (output : TxOutput) : Except ValidationError Unit :=
  if output.script = [] then .error (.illTypedScript idx)
  else checkOutputScript idx output

/-! ## Spending -/

/-- An optional byte string as a value. -/
def optionBytes : Option (List UInt8) → Value
  | some bs => .right (.bytes bs)
  | none => .left .unit

def buildScriptInput (witness : List UInt8) (redeemer datum : Option (List UInt8)) : Value :=
  .pair (.bytes witness) (.pair (optionBytes redeemer) (.pair (optionBytes datum) .unit))

variable [Crypto]

/-- `resolve_datum`: the datum of an output, inline or supplied for its hash. -/
def resolveDatum (utxo : TxOutput) (witness : TxWitness) : Except String (Option (List UInt8)) :=
  match utxo.datum, utxo.datumHash with
  | some datum, some hash =>
    if Crypto.sha256 datum ≠ hash then .error "datum_hash does not match inline datum"
    else .ok (some datum)
  | some datum, none => .ok (some datum)
  | none, some hash =>
    match witness.redeemer with
    | some provided =>
      if provided.length > maxDatumSize then
        .error ("hash-committed datum exceeds MAX_DATUM_SIZE (" ++ toString provided.length ++
          " > " ++ toString maxDatumSize ++ ")")
      else if Crypto.sha256 provided = hash then .ok (some provided)
      else .error "datum hash mismatch"
    | none => .error "datum required: output has datum_hash but no datum provided"
  | none, none => .ok none

/-- A failure while an input's script is validated, with its reason. -/
def orScriptEvalFailed {α ε : Type} (idx : Nat) (reason : ε → String) :
    Except ε α → Except ValidationError α
  | .error e => .error (.scriptEvalFailed idx (reason e))
  | .ok a => .ok a

/-- `validate_script_input`: the steps the script took. -/
def validateScriptInput (idx : Nat) (witness : TxWitness) (utxo : TxOutput)
    (context : ScriptContext) : Except ValidationError Nat := do
  let program ← orScriptEvalFailed idx (fun e => "script deserialization failed: " ++ e.display)
    (Program.deserializeProgram utxo.script)
  failIf (program.serializeProgram ≠ utxo.script)
    (.scriptEvalFailed idx "script serialization is non-canonical")
  let _ ← orScriptEvalFailed idx (fun _ => "script type-check failed") (typecheck program)
  let datum ← orScriptEvalFailed idx (fun e => "datum resolution failed: " ++ e)
    (resolveDatum utxo witness)
  let cost ← orScriptEvalFailed idx (fun e => "cost computation failed: " ++ e.display)
    (program.computeCost ⟨context.txInputs.length, context.txOutputs.length⟩)
  failIf (cost.steps > maxScriptSteps) (.scriptEvalFailed idx ("script cost " ++
    toString cost.steps ++ " steps exceeds consensus cap " ++ toString maxScriptSteps))
  match Script.evaluateWithContext program (context.withSelfIndex (UInt32.ofNat idx))
      witness.witness (buildScriptInput witness.witness witness.redeemer datum)
      (.new (Script.Budget.new maxScriptSteps cost.cells)) with
  | .ok v s =>
    if v.asBool = some true then .ok (maxScriptSteps - s.budget.stepsRemaining)
    else .error (.scriptEvalFailed idx ("script returned " ++ v.debug ++
      " (expected Bool(true) or Right(Unit))"))
  | .error e _ => .error (.scriptEvalFailed idx ("script evaluation failed: " ++ e.display))

/-- Read 64 bytes as a signature and the 32 before it as a key. -/
def splitWitness (witness : List UInt8) : Vector UInt8 32 × Vector UInt8 64 :=
  (hashOfBytes witness, Script.Jets.sigOfBytes (witness.drop 32))

/-- `validate_phase1_input`: a public key with the right hash and its signature. -/
def validatePhase1Input (idx : Nat) (witness : TxWitness) (utxo : TxOutput)
    (sigMessage : List UInt8) : Except ValidationError Unit := do
  failIf (witness.witness.length ≠ 96)
    (.witnessInvalid idx ("witness length " ++ toString witness.witness.length ++ " != 96"))
  failIf witness.redeemer.isSome (.phase1HasRedeemer idx)
  let (pubkey, sig) := splitWitness witness.witness
  failIf ((TxOutput.pubkeyHashFromKey pubkey).toList ≠ utxo.script) (.pubkeyHashMismatch idx)
  failIf (isWeakEd25519Key pubkey) (.signatureInvalid idx)
  failIf (! Crypto.ed25519Key pubkey) (.signatureInvalid idx)
  failIf (! Crypto.ed25519Verify pubkey sigMessage sig) (.signatureInvalid idx)

end Exfer.Impl
