import Exfer.Lib.Codec
import Exfer.Impl.Hash

/-!
# Transactions

`types/transaction.rs`: inputs, outputs, witnesses, their wire format and the digests
over it. A serializer fails where a length does not fit its prefix; a deserializer
returns the value and the number of bytes it consumed.
-/

namespace Exfer.Impl

open Lib (ascii failIf leBytes leNat readMany)

def maxDatumSize : Nat := 4096

def maxRedeemerSize : Nat := 16384

/-- The domain separator `DS_TX`. -/
def dsTx : List UInt8 := ascii "EXFER-TX"

/-- The domain separator `DS_WTXID`. -/
def dsWtxid : List UInt8 := ascii "EXFER-WTXID"

/-- The domain separator `DS_ADDR`. -/
def dsAddr : List UInt8 := ascii "EXFER-ADDR"

/-- The prefix `DS_SIG` of signed messages. -/
def dsSig : List UInt8 := ascii "EXFER-SIG"

inductive SerError where
  | unexpectedEof
  | invalidData (msg : String)
  | invalidLength
  deriving DecidableEq, Repr

/-- The `Debug` form of a serialization error. -/
def SerError.debug : SerError → String
  | .unexpectedEof => "UnexpectedEof"
  | .invalidData msg => "InvalidData(\"" ++ msg ++ "\")"
  | .invalidLength => "InvalidLength"

/-- The `Display` form of a serialization error. -/
def SerError.display : SerError → String
  | .unexpectedEof => "unexpected end of data"
  | .invalidData msg => "invalid data: " ++ msg
  | .invalidLength => "list count exceeds protocol limit"

/-- `serialize_varbytes`: a `u16` length and the bytes. -/
def serializeVarbytes (data : List UInt8) : Except SerError (List UInt8) :=
  if data.length ≤ 65535 then .ok (leBytes 2 data.length ++ data)
  else .error (.invalidData ("varbytes length " ++ toString data.length ++ " exceeds u16::MAX"))

def deserializeVarbytes (data : List UInt8) : Except SerError (List UInt8 × Nat) :=
  if data.length < 2 then .error .unexpectedEof
  else
    let len := leNat (data.take 2)
    if data.length < 2 + len then .error .unexpectedEof
    else .ok ((data.drop 2).take len, 2 + len)

structure TxInput where
  prevTxId : Hash256
  outputIndex : UInt32
  deriving DecidableEq

def TxInput.serialize (i : TxInput) : List UInt8 :=
  i.prevTxId.toList ++ leBytes 4 i.outputIndex.toNat

def TxInput.deserialize (data : List UInt8) : Except SerError (TxInput × Nat) := do
  failIf (data.length < 36) .unexpectedEof
  let outputIndex := UInt32.ofNat (leNat ((data.drop 32).take 4))
  return ({ prevTxId := hashOfBytes data, outputIndex }, 36)

structure TxOutput where
  value : UInt64
  script : List UInt8
  datum : Option (List UInt8)
  datumHash : Option Hash256
  deriving DecidableEq

/-- A presence flag and a variable-length field. -/
def serializeOptVarbytes : Option (List UInt8) → Except SerError (List UInt8)
  | some d => do return 1 :: (← serializeVarbytes d)
  | none => .ok [0]

/-- A presence flag and a digest. -/
def serializeOptHash : Option Hash256 → List UInt8
  | some h => 1 :: h.toList
  | none => [0]

def TxOutput.serialize (o : TxOutput) : Except SerError (List UInt8) := do
  let script ← serializeVarbytes o.script
  let datum ← serializeOptVarbytes o.datum
  return leBytes 8 o.value.toNat ++ script ++ datum ++ serializeOptHash o.datumHash

/-- A presence flag; `name` is the field's. -/
def deserializeFlag (name : String) (data : List UInt8) : Except SerError Bool :=
  match data with
  | [] => .error .unexpectedEof
  | flag :: _ => do
    failIf (flag > 1) (.invalidData ("non-canonical " ++ name ++ " flag: " ++ toString flag.toNat ++
      " (expected 0 or 1)"))
    return flag = 1

/-- A presence flag and a variable-length field of limited size. -/
def deserializeOptVarbytes (flag field : String) (maxSize : Nat) (data : List UInt8) :
    Except SerError (Option (List UInt8) × Nat) := do
  if ← deserializeFlag flag data then
    let (bytes, consumed) ← deserializeVarbytes (data.drop 1)
    failIf (bytes.length > maxSize) (.invalidData (field ++ " size " ++ toString bytes.length ++
      " exceeds maximum " ++ toString maxSize))
    return (some bytes, 1 + consumed)
  else return (none, 1)

/-- A presence flag and a digest. -/
def deserializeOptHash (flag : String) (data : List UInt8) :
    Except SerError (Option Hash256 × Nat) := do
  if ← deserializeFlag flag data then
    failIf (data.length < 1 + 32) .unexpectedEof
    return (some (hashOfBytes (data.drop 1)), 1 + 32)
  else return (none, 1)

def TxOutput.deserialize (data : List UInt8) : Except SerError (TxOutput × Nat) := do
  failIf (data.length < 8) .unexpectedEof
  let value := UInt64.ofNat (leNat (data.take 8))
  let (script, consumed) ← deserializeVarbytes (data.drop 8)
  let pos := 8 + consumed
  let (datum, consumed) ← deserializeOptVarbytes "has_datum" "datum" maxDatumSize (data.drop pos)
  let pos := pos + consumed
  let (datumHash, consumed) ← deserializeOptHash "has_datum_hash" (data.drop pos)
  return ({ value, script, datum, datumHash }, pos + consumed)

structure TxWitness where
  witness : List UInt8
  redeemer : Option (List UInt8)
  deriving DecidableEq

def TxWitness.serialize (w : TxWitness) : Except SerError (List UInt8) := do
  let witness ← serializeVarbytes w.witness
  let redeemer ← serializeOptVarbytes w.redeemer
  return witness ++ redeemer

def TxWitness.deserialize (data : List UInt8) : Except SerError (TxWitness × Nat) := do
  let (witness, pos) ← deserializeVarbytes data
  let (redeemer, consumed) ←
    deserializeOptVarbytes "has_redeemer" "redeemer" maxRedeemerSize (data.drop pos)
  return ({ witness, redeemer }, pos + consumed)

structure Transaction where
  inputs : List TxInput
  outputs : List TxOutput
  witnesses : List TxWitness
  deriving DecidableEq

/-- `OutPoint`: the name of an unspent output. -/
structure OutPoint where
  txId : Hash256
  outputIndex : UInt32
  deriving DecidableEq

/-- The `Debug` form of an outpoint. -/
def OutPoint.debug (op : OutPoint) : String :=
  "OutPoint \x7b tx_id: " ++ op.txId.debug ++ ", output_index: " ++ toString op.outputIndex.toNat ++
    " \x7d"

/-- The consensus switches of a build and those a process sets when it boots, as the main network
or as a development network. -/
class Network where
  /-- The build feature `testnet`. -/
  testnet : Bool
  /-- `coinbase_maturity()`. -/
  coinbaseMaturity : UInt64
  /-- `genesis::signature_domain()`. -/
  signatureDomain : Hash256
  maturity : coinbaseMaturity = 360 ∨ coinbaseMaturity = 1

/-- The outpoint an input spends. -/
def TxInput.outPoint (i : TxInput) : OutPoint :=
  ⟨i.prevTxId, i.outputIndex⟩

namespace Transaction

variable (tx : Transaction)

/-- A list of items serialized one after another. -/
def concatSerialized {α : Type} (f : α → Except SerError (List UInt8)) :
    List α → Except SerError (List UInt8)
  | [] => .ok []
  | x :: xs => do return (← f x) ++ (← concatSerialized f xs)

def serializeHeader : Except SerError (List UInt8) :=
  if tx.inputs.length ≤ 65535 then
    if tx.outputs.length ≤ 65535 then
      .ok (leBytes 2 tx.inputs.length ++ leBytes 2 tx.outputs.length)
    else .error (.invalidData ("output count " ++ toString tx.outputs.length ++ " exceeds u16::MAX"))
  else .error (.invalidData ("input count " ++ toString tx.inputs.length ++ " exceeds u16::MAX"))

def serializeBody : Except SerError (List UInt8) := do
  return tx.inputs.flatMap TxInput.serialize ++ (← concatSerialized TxOutput.serialize tx.outputs)

def signingBytes : Except SerError (List UInt8) := do
  return (← tx.serializeHeader) ++ (← tx.serializeBody)

/-- `sig_message`: what a signature of the transaction signs. -/
def sigMessage [Network] : Except SerError (List UInt8) := do
  return dsSig ++ Network.signatureDomain.toList ++ (← tx.signingBytes)

def serialize : Except SerError (List UInt8) := do
  return (← tx.serializeHeader) ++ (← tx.serializeBody) ++
    (← concatSerialized TxWitness.serialize tx.witnesses)

/-- `deserialize`: there are as many witnesses as inputs. -/
def deserialize (data : List UInt8) : Except SerError (Transaction × Nat) := do
  failIf (data.length < 4) .unexpectedEof
  let inputCount := leNat (data.take 2)
  let outputCount := leNat ((data.drop 2).take 2)
  -- the least sizes of an input, an output and a witness
  let minNeeded := inputCount * 36 + outputCount * 12 + inputCount * 3
  failIf (data.length - 4 < minNeeded) .unexpectedEof
  let (inputs, consumed) ← readMany TxInput.deserialize inputCount (data.drop 4)
  let pos := 4 + consumed
  let (outputs, consumed) ← readMany TxOutput.deserialize outputCount (data.drop pos)
  let pos := pos + consumed
  let (witnesses, consumed) ← readMany TxWitness.deserialize inputCount (data.drop pos)
  return ({ inputs, outputs, witnesses }, pos + consumed)

def serializedSize : Except SerError Nat := do
  return (← tx.serialize).length

def isCoinbase : Bool :=
  match tx.inputs with
  | [i] => i.prevTxId == Hash256.zero
  | _ => false

/-- `tx_id`: the witnesses are not part of it. -/
def txId [Crypto] : Except SerError Hash256 := do
  return Hash256.domainHash dsTx (← tx.signingBytes)

def wtxId [Crypto] : Except SerError Hash256 := do
  return Hash256.domainHash dsWtxid (← tx.serialize)

end Transaction

namespace TxOutput

def pubkeyHashFromKey [Crypto] (pubkey : Vector UInt8 32) : Hash256 :=
  Hash256.domainHash dsAddr pubkey.toList

def newP2pkh [Crypto] (value : UInt64) (pubkey : Vector UInt8 32) : TxOutput where
  value := value
  script := (pubkeyHashFromKey pubkey).toList
  datum := none
  datumHash := none

end TxOutput

end Exfer.Impl
