import Exfer.Impl.Covenants.Htlc
import Exfer.Impl.Validation.Script
import Exfer.Spec.Script.Meaning

/-!
# Spending policies

What a covenant asks of the spender: a condition, or a choice between conditions that the spender makes in
the witness (`Choice`). The witness then has what the condition asks for, in order, and nothing else.
`AcceptsExactly` says of a script that it can lock an output and that it accepts the witnesses of a policy.
-/

namespace Exfer.Spec

open Impl Impl.Script Impl.Covenants

/-- A condition on a transaction and the witness that spends with it. -/
inductive Condition where
  | signedBy (pubkey : Vector UInt8 32)
  | reveals (hash : Hash256)
  | heightOver (height : UInt64)
  | heightUnder (height : UInt64)
  | both (a b : Condition)

/-- The witness has a byte string, written as a value of a script, of the given property. -/
def Presents (P : List UInt8 → Prop) (witness : List UInt8) : Prop :=
  ∃ bytes, bytes.length < 2 ^ 32 ∧ witness = (Value.bytes bytes).serialize ∧ P bytes

/-- The condition is met by a witness. -/
def Condition.Met [Crypto] (context : ScriptContext) : Condition → List UInt8 → Prop
  | .signedBy pubkey =>
    Presents fun sig => Jets.ed25519VerifyZip215 context.sigHash pubkey.toList sig = true
  | .reveals hash => Presents fun preimage => Crypto.sha256 preimage = hash
  | .heightOver height => fun witness => witness = [] ∧ context.blockHeight > height
  | .heightUnder height => fun witness => witness = [] ∧ context.blockHeight < height
  | .both a b => fun witness => ∃ first second, witness = first ++ second ∧ a.Met context first ∧
    b.Met context second

/-- A choice between conditions. -/
inductive Choice where
  | one (c : Condition)
  | either (a b : Choice)

/-- What a value selects: `Left` and `Right`, down to `Unit`, or a boolean for the last of them. -/
def Choice.pick : Choice → Value → Option Condition
  | .one c, .unit => some c
  | .either a _, .left v => a.pick v
  | .either _ b, .right v => b.pick v
  | .either (.one c) (.one d), .bool b => some (if b then d else c)
  | _, _ => none

/-- The policy is met by a witness: if there is a choice, the witness starts with what is selected. -/
def Choice.Met [Crypto] (context : ScriptContext) : Choice → List UInt8 → Prop
  | .one c, witness => c.Met context witness
  | .either a b, witness => ∃ selector condition rest, witness = selector.serialize ++ rest ∧
    (Choice.either a b).pick selector = some condition ∧ condition.Met context rest

/-- An output may be locked by the program, and with a budget that suffices the program evaluates to true
exactly with the witnesses in `P`. -/
def AcceptsExactly [Crypto] (p : Program) (P : ScriptContext → List UInt8 → Prop) : Prop :=
  (∀ idx (output : TxOutput), output.script = p.serializeProgram → validateOutputScript idx output = .ok ()) ∧
  ∀ context witness input, ∃ need, ∀ budget, Script.Sufficient need budget →
    ((∃ v s, evaluateWithContext p context witness input (.new budget) = .ok v s ∧ v.asBool = some true) ↔
      P context witness)

/-! ## The templates -/

open Condition Choice

/-- A script of a template. -/
inductive Covenant where
  | multisig2of2 (pkA pkB : Vector UInt8 32)
  | multisig1of2 (pkA pkB : Vector UInt8 32)
  | multisig2of3 (pkA pkB pkC : Vector UInt8 32)
  | escrow (partyA partyB arbiter : Vector UInt8 32) (timeoutHeight : UInt64)
  | vault (primaryKey recoveryKey : Vector UInt8 32) (locktime : UInt64)
  | delegation (ownerKey delegateKey : Vector UInt8 32) (expiryHeight : UInt64)
  | close (channel : PaymentChannel) (closeHeight : UInt64) (publisher : Vector UInt8 32)
  | dispute (channel : PaymentChannel) (closeHeight : UInt64)

/-- The program of a covenant. -/
def Covenant.script : Covenant → Program
  | .multisig2of2 pkA pkB => Covenants.multisig2of2 pkA pkB
  | .multisig1of2 pkA pkB => Covenants.multisig1of2 pkA pkB
  | .multisig2of3 pkA pkB pkC => Covenants.multisig2of3 pkA pkB pkC
  | .escrow partyA partyB arbiter timeoutHeight => Covenants.escrow partyA partyB arbiter timeoutHeight
  | .vault primaryKey recoveryKey locktime => Covenants.vault primaryKey recoveryKey locktime
  | .delegation ownerKey delegateKey expiryHeight => Covenants.delegation ownerKey delegateKey expiryHeight
  | .close channel closeHeight publisher => channel.closeScript closeHeight publisher
  | .dispute channel closeHeight => channel.disputeScript closeHeight

/-- The policy of a covenant, as the template documents it. -/
def Covenant.policy : Covenant → Choice
  | .multisig2of2 pkA pkB => one (both (signedBy pkA) (signedBy pkB))
  | .multisig1of2 pkA pkB => either (one (signedBy pkA)) (one (signedBy pkB))
  | .multisig2of3 pkA pkB pkC =>
    either
      (either (one (both (signedBy pkA) (signedBy pkB))) (one (both (signedBy pkA) (signedBy pkC))))
      (one (both (signedBy pkB) (signedBy pkC)))
  | .escrow partyA partyB arbiter timeoutHeight =>
    either (either (one (both (signedBy partyA) (signedBy partyB))) (one (signedBy arbiter)))
      (one (both (heightOver timeoutHeight) (signedBy partyA)))
  | .vault primaryKey recoveryKey locktime =>
    either (one (both (heightOver locktime) (signedBy primaryKey))) (one (signedBy recoveryKey))
  | .delegation ownerKey delegateKey expiryHeight =>
    either (one (signedBy ownerKey)) (one (both (signedBy delegateKey) (heightUnder expiryHeight)))
  | .close channel closeHeight publisher =>
    either (one (both (signedBy channel.partyA) (signedBy channel.partyB)))
      (one (both (heightOver (channel.windowEnd closeHeight)) (signedBy publisher)))
  | .dispute channel closeHeight =>
    either
      (one (both (both (signedBy channel.partyA) (signedBy channel.partyB))
        (heightUnder (channel.windowEnd closeHeight))))
      (one (both (signedBy channel.partyA) (signedBy channel.partyB)))

/-- `Left(Unit)`, or the boolean that stands for it. -/
def SelectsLeft (selector : Value) : Prop :=
  selector = .left .unit ∨ selector = .bool false

/-- `Right(Unit)`, or the boolean that stands for it. -/
def SelectsRight (selector : Value) : Prop :=
  selector = .right .unit ∨ selector = .bool true

/-- The receiver claims: the witness selects the hash path and has a preimage of the lock and the
receiver's signature. -/
def HtlcClaim [Crypto] (c : HtlcParams) (context : ScriptContext) (witness : List UInt8) : Prop :=
  ∃ selector preimage sig, SelectsLeft selector ∧ preimage.length < 2 ^ 32 ∧
    witness = selector.serialize ++ (Value.bytes preimage).serialize ++ (Value.bytes sig).serialize ∧
    Crypto.sha256 preimage = c.hashLock ∧
    Jets.ed25519VerifyZip215 context.sigHash c.receiver.toList sig = true

/-- The sender reclaims: the witness selects the timeout path and has the sender's signature, past the
timeout. -/
def HtlcRefund [Crypto] (c : HtlcParams) (context : ScriptContext) (witness : List UInt8) : Prop :=
  ∃ selector sig, SelectsRight selector ∧
    witness = selector.serialize ++ (Value.bytes sig).serialize ∧
    context.blockHeight > c.timeoutHeight ∧
    Jets.ed25519VerifyZip215 context.sigHash c.sender.toList sig = true

end Exfer.Spec
