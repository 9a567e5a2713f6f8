import Exfer.Impl.Arithmetic
import Exfer.Impl.Script.Value

/-!
# Jets

`script/jets`: the native operations of Exfer Script, their types, costs and
implementations. A 256-bit integer is its big-endian byte string; its halves, limbs and
remainders are natural numbers below the powers of two their machine types hold.
-/

namespace Exfer.Impl.Script

open Lib (ascii beNat leBytes)

inductive JetError where
  | typeMismatch (msg : String)
  | overflow (msg : String)
  | divisionByZero
  | outOfBounds (msg : String)
  | notImplemented (msg : String)
  deriving DecidableEq, Repr

/-- The `Debug` form of a jet's error. -/
def JetError.debug : JetError → String
  | .typeMismatch msg => "TypeMismatch(\"" ++ msg ++ "\")"
  | .overflow msg => "Overflow(\"" ++ msg ++ "\")"
  | .divisionByZero => "DivisionByZero"
  | .outOfBounds msg => "OutOfBounds(\"" ++ msg ++ "\")"
  | .notImplemented msg => "NotImplemented(\"" ++ msg ++ "\")"

structure TxInputInfo where
  prevTxId : Hash256
  outputIndex : UInt32
  value : UInt64
  scriptHash : Hash256

structure TxOutputInfo where
  value : UInt64
  scriptHash : Hash256
  datumHash : Option Hash256

structure ScriptContext where
  txInputs : List TxInputInfo
  txOutputs : List TxOutputInfo
  selfIndex : UInt32
  blockHeight : UInt64
  sigHash : List UInt8

def ScriptContext.withSelfIndex (c : ScriptContext) (idx : UInt32) : ScriptContext :=
  { c with selfIndex := idx }

inductive JetId where
  | sha256 | ed25519Verify | schnorrVerify | merkleVerify
  | add64 | sub64 | mul64 | div64 | mod64 | eq64 | lt64 | gt64
  | add256 | sub256 | mul256 | div256 | mod256 | eq256 | lt256 | gt256
  | cat | slice | len | eqBytes | eqHash
  | txInputs | txOutputs | txValue | txScriptHash | txInputCount | txOutputCount
  | selfIndex | blockHeight | txSigHash
  | listLen | listAt | listSum | listAll | listAny | listFind
  deriving DecidableEq, Repr

namespace JetId

/-- The number of a jet. -/
def toU32 : JetId → Nat
  | sha256 => 0x0001 | ed25519Verify => 0x0002 | schnorrVerify => 0x0003
  | merkleVerify => 0x0004
  | add64 => 0x0100 | sub64 => 0x0101 | mul64 => 0x0102 | div64 => 0x0103 | mod64 => 0x0104
  | eq64 => 0x0105 | lt64 => 0x0106 | gt64 => 0x0107
  | add256 => 0x0200 | sub256 => 0x0201 | mul256 => 0x0202 | div256 => 0x0203
  | mod256 => 0x0204 | eq256 => 0x0205 | lt256 => 0x0206 | gt256 => 0x0207
  | cat => 0x0300 | slice => 0x0301 | len => 0x0302 | eqBytes => 0x0303 | eqHash => 0x0304
  | txInputs => 0x0400 | txOutputs => 0x0401 | txValue => 0x0402 | txScriptHash => 0x0403
  | txInputCount => 0x0404 | txOutputCount => 0x0405 | selfIndex => 0x0406
  | blockHeight => 0x0407 | txSigHash => 0x0408
  | listLen => 0x0500 | listAt => 0x0501 | listSum => 0x0502 | listAll => 0x0503
  | listAny => 0x0504 | listFind => 0x0505

def fromU32 : Nat → Option JetId
  | 0x0001 => some sha256 | 0x0002 => some ed25519Verify | 0x0003 => some schnorrVerify
  | 0x0004 => some merkleVerify
  | 0x0100 => some add64 | 0x0101 => some sub64 | 0x0102 => some mul64
  | 0x0103 => some div64 | 0x0104 => some mod64 | 0x0105 => some eq64
  | 0x0106 => some lt64 | 0x0107 => some gt64
  | 0x0200 => some add256 | 0x0201 => some sub256 | 0x0202 => some mul256
  | 0x0203 => some div256 | 0x0204 => some mod256 | 0x0205 => some eq256
  | 0x0206 => some lt256 | 0x0207 => some gt256
  | 0x0300 => some cat | 0x0301 => some slice | 0x0302 => some len
  | 0x0303 => some eqBytes | 0x0304 => some eqHash
  | 0x0400 => some txInputs | 0x0401 => some txOutputs | 0x0402 => some txValue
  | 0x0403 => some txScriptHash | 0x0404 => some txInputCount
  | 0x0405 => some txOutputCount | 0x0406 => some selfIndex
  | 0x0407 => some blockHeight | 0x0408 => some txSigHash
  | 0x0500 => some listLen | 0x0501 => some listAt | 0x0502 => some listSum
  | 0x0503 => some listAll | 0x0504 => some listAny | 0x0505 => some listFind
  | _ => none

/-- The element type of `TxInputs`: transaction id, output index, value, script hash. -/
def txInputType : Ty :=
  .product .hash256 (.product .u64Type (.product .u64Type .hash256))

/-- The element type of `TxOutputs`: value, script hash, optional datum hash. -/
def txOutputType : Ty :=
  .product .u64Type (.product .hash256 (.option .hash256))

/-- `jet_type`: the input and the output type. -/
def jetType : JetId → Ty × Ty
  | sha256 => (.bytes, .hash256)
  | ed25519Verify | schnorrVerify => (.product .bytes (.product .bytes .bytes), .boolType)
  | merkleVerify => (.product .hash256 (.product .hash256 .bytes), .boolType)
  | add64 | sub64 | mul64 | div64 | mod64 => (.product .u64Type .u64Type, .u64Type)
  | eq64 | lt64 | gt64 => (.product .u64Type .u64Type, .boolType)
  | add256 | sub256 | mul256 | div256 | mod256 => (.product .u256 .u256, .u256)
  | eq256 | lt256 | gt256 => (.product .u256 .u256, .boolType)
  | cat => (.product .bytes .bytes, .bytes)
  | slice => (.product .bytes (.product .u64Type .u64Type), .bytes)
  | len => (.bytes, .u64Type)
  | eqBytes => (.product .bytes .bytes, .boolType)
  | eqHash => (.product .hash256 .hash256, .boolType)
  | txInputs => (.unit, .list txInputType)
  | txOutputs => (.unit, .list txOutputType)
  | txValue => (.u64Type, .u64Type)
  | txScriptHash => (.u64Type, .hash256)
  | txInputCount | txOutputCount => (.unit, .u64Type)
  | selfIndex => (.unit, .u64Type)
  | blockHeight => (.unit, .u64Type)
  | txSigHash => (.unit, .bytes)
  | listLen => (.list .unit, .u64Type)
  | listAt => (.product (.list .unit) .u64Type, .option .unit)
  | listSum => (.list .u64Type, .u64Type)
  | listAll | listAny => (.list .boolType, .boolType)
  | listFind => (.list .boolType, .option .u64Type)

/-- `jet_cost`: the static steps and cells. -/
def jetCost : JetId → Nat × Nat
  | sha256 => (1000, 1)
  | ed25519Verify | schnorrVerify => (5000, 1)
  | merkleVerify => (32000, 1)
  | add64 | sub64 | mul64 | div64 | mod64 | eq64 | lt64 | gt64 => (10, 1)
  | add256 | sub256 | mul256 | div256 | mod256 | eq256 | lt256 | gt256 => (50, 1)
  | cat | slice => (100, 1)
  | len => (10, 0)
  | eqBytes | eqHash => (500, 0)
  | txInputs | txOutputs => (1000, 0)
  | txValue | txScriptHash => (10, 0)
  | txInputCount | txOutputCount | selfIndex | blockHeight | txSigHash => (5, 0)
  | listLen => (10, 0)
  | listAt => (10, 1)
  | listSum | listAll | listAny | listFind => (1000, 0)

/-- The length of a byte string, and zero for any other value. -/
def bytesLen : Value → Nat
  | .bytes data => data.length
  | _ => 0

/-- The length of a byte string or digest, and zero for any other value. -/
def bytesOrHashLen : Value → Nat
  | .bytes data => data.length
  | .hash _ => 32
  | _ => 0

def runtimeCost (jet : JetId) (input : Value) (context : ScriptContext) : Nat :=
  match jet with
  | sha256 => 500 + bytesLen input / 64 * 8
  | merkleVerify =>
    let proofLen := match input with
      | .pair _ (.pair _ proof) => bytesLen proof
      | _ => 0
    500 + proofLen / 33 * 500
  | listSum | listAll | listAny | listFind =>
    let len := match input with
      | .list items => items.length
      | _ => 0
    10 + len
  | eqHash => 14
  | eqBytes =>
    let maxLen := match input with
      | .pair a b => max (bytesOrHashLen a) (bytesOrHashLen b)
      | _ => 0
    10 + maxLen / 8
  | cat =>
    let totalLen := match input with
      | .pair a b => bytesLen a + bytesLen b
      | _ => 0
    10 + totalLen / 8
  | slice =>
    let srcLen := match input with
      | .pair a _ => bytesLen a
      | _ => 0
    10 + srcLen / 8
  | txInputs => 10 + context.txInputs.length * 10
  | txOutputs => 10 + context.txOutputs.length * 10
  | txSigHash => 5 + context.sigHash.length / 64
  | ed25519Verify =>
    let msgLen := match input with
      | .pair msg _ => bytesLen msg
      | _ => 0
    5000 + (msgLen + 63) / 64 * 8
  | _ => jet.jetCost.1

def isImplemented (jet : JetId) : Bool :=
  jet != schnorrVerify

end JetId

namespace Jets

/-! ## Cryptography -/

/-- Read 64 bytes as a signature, zero-padded if fewer remain. -/
def sigOfBytes (data : List UInt8) : Vector UInt8 64 :=
  Vector.ofFn fun i : Fin 64 => data.getD i 0

def jetSha256 [Crypto] : Value → Except JetError Value
  | .bytes data => .ok (.hash (Crypto.sha256 data))
  | _ => .error (.typeMismatch "sha256 expects Bytes")

def ed25519VerifyZip215 [Crypto] (message pubkeyBytes sigBytes : List UInt8) : Bool :=
  if pubkeyBytes.length ≠ 32 ∨ sigBytes.length ≠ 64 then false
  else
    let pubkey := hashOfBytes pubkeyBytes
    if isWeakEd25519Key pubkey then false
    else if Crypto.ed25519Key pubkey then
      Crypto.ed25519Verify pubkey message (sigOfBytes sigBytes)
    else false

def jetEd25519Verify [Crypto] : Value → Except JetError Value
  | .pair (.bytes message) (.pair (.bytes pubkey) (.bytes sig)) =>
    .ok (.bool (ed25519VerifyZip215 message pubkey sig))
  | .pair _ _ => .error (.typeMismatch "ed25519_verify expects (Bytes, (Bytes, Bytes))")
  | _ => .error (.typeMismatch "ed25519_verify expects Pair")

def jetSchnorrVerify (_ : Value) : Except JetError Value :=
  .error (.notImplemented "schnorr_verify is reserved but not yet implemented")

/-- The domain separator of Merkle proofs. -/
def dsMerkle : List UInt8 := ascii "EXFER-MERKLE"

/-- The loop of `verify_merkle_proof` over `steps` chunks of 33 bytes: the recomputed root,
unless a side byte is invalid. -/
def merkleProofRoot [Crypto] : (steps : Nat) → Hash256 → List UInt8 → Option Hash256
  | 0, current, _ => some current
  | steps + 1, current, proof =>
    let side := proof.getD 0 0
    if side > 1 then none
    else
      let sibling := hashOfBytes (proof.drop 1)
      let combined :=
        if side = 0 then current.toList ++ sibling.toList else sibling.toList ++ current.toList
      merkleProofRoot steps (Hash256.domainHash dsMerkle combined) (proof.drop 33)

def verifyMerkleProof [Crypto] (root leaf : Hash256) (proof : List UInt8) : Bool :=
  if proof.length % 33 ≠ 0 then false
  else merkleProofRoot (proof.length / 33) leaf proof == some root

def jetMerkleVerify [Crypto] : Value → Except JetError Value
  | .pair (.hash root) (.pair (.hash leaf) (.bytes proof)) =>
    .ok (.bool (verifyMerkleProof root leaf proof))
  | .pair _ _ => .error (.typeMismatch "merkle_verify expects (Hash, (Hash, Bytes))")
  | _ => .error (.typeMismatch "merkle_verify expects Pair")

/-! ## 64-bit arithmetic -/

def extractU64Pair : Value → Except JetError (UInt64 × UInt64)
  | .pair (.u64 x) (.u64 y) => .ok (x, y)
  | .pair _ _ => .error (.typeMismatch "expected Pair(U64, U64)")
  | _ => .error (.typeMismatch "expected Pair")

/-- A result that must fit 64 bits. -/
def checkedU64 (n : Nat) (msg : String) : Except JetError Value :=
  if n < 2 ^ 64 then .ok (.u64 (UInt64.ofNat n)) else .error (.overflow msg)

def jetAdd64 (input : Value) : Except JetError Value := do
  let (a, b) ← extractU64Pair input
  checkedU64 (a.toNat + b.toNat) "add64 overflow"

def jetSub64 (input : Value) : Except JetError Value := do
  let (a, b) ← extractU64Pair input
  if b ≤ a then return .u64 (a - b) else throw (.overflow "sub64 underflow")

def jetMul64 (input : Value) : Except JetError Value := do
  let (a, b) ← extractU64Pair input
  checkedU64 (a.toNat * b.toNat) "mul64 overflow"

def jetDiv64 (input : Value) : Except JetError Value := do
  let (a, b) ← extractU64Pair input
  if b = 0 then throw .divisionByZero else return .u64 (a / b)

def jetMod64 (input : Value) : Except JetError Value := do
  let (a, b) ← extractU64Pair input
  if b = 0 then throw .divisionByZero else return .u64 (a % b)

/-- The comparisons of two 64-bit integers. -/
def compare64 (rel : UInt64 → UInt64 → Bool) (input : Value) : Except JetError Value := do
  let (a, b) ← extractU64Pair input
  return .bool (rel a b)

def jetEq64 : Value → Except JetError Value := compare64 fun a b => a == b

def jetLt64 : Value → Except JetError Value := compare64 fun a b => a < b

def jetGt64 : Value → Except JetError Value := compare64 fun a b => a > b

/-! ## 256-bit arithmetic -/

/-- A number below `2 ^ 256` in 32 big-endian bytes. -/
def beBytes32 (n : Nat) : Hash256 := hashOfBytes (leBytes 32 n).reverse

def extractU256 (v : Value) : Except JetError Hash256 :=
  match v.asU256 with
  | some data => .ok data
  | none => .error (.typeMismatch "expected U256 or Pair(U64, U64)")

def extractU256Pair : Value → Except JetError (Hash256 × Hash256)
  | .pair a b => do
    let x ← extractU256 a
    let y ← extractU256 b
    return (x, y)
  | _ => .error (.typeMismatch "expected Pair")

/-- `u256_to_parts`: the high and the low 128 bits. -/
def u256ToParts (data : Hash256) : Nat × Nat :=
  (beNat (data.toList.take 16), beNat (data.toList.drop 16))

def partsToU256 (hi lo : Nat) : Hash256 := beBytes32 (hi * 2 ^ 128 + lo)

def jetAdd256 (input : Value) : Except JetError Value := do
  let (a, b) ← extractU256Pair input
  let (ah, al) := u256ToParts a
  let (bh, bl) := u256ToParts b
  let lo := (al + bl) % 2 ^ 128
  let carry := (al + bl) / 2 ^ 128
  if ah + bh + carry < 2 ^ 128 then return .u256 (partsToU256 (ah + bh + carry) lo)
  else throw (.overflow "add256 overflow")

def jetSub256 (input : Value) : Except JetError Value := do
  let (a, b) ← extractU256Pair input
  let (ah, al) := u256ToParts a
  let (bh, bl) := u256ToParts b
  let lo := (2 ^ 128 + al - bl) % 2 ^ 128
  let borrow := if al < bl then 1 else 0
  if bh + borrow ≤ ah then return .u256 (partsToU256 (ah - bh - borrow) lo)
  else throw (.overflow "sub256 underflow")

/-- The limbs of a 256-bit integer, 64 bits each, least significant first. -/
def limbs (data : Hash256) : List Nat :=
  [beNat (data.toList.drop 24), beNat ((data.toList.drop 16).take 8),
    beNat ((data.toList.drop 8).take 8), beNat (data.toList.take 8)]

/-- The carry loop of `mul_u256_full`: add `carry` to the limbs from position `k` on. -/
def addCarry : (room : Nat) → List Nat → (k carry : Nat) → List Nat
  | 0, result, _, _ => result
  | room + 1, result, k, carry =>
    if carry ≠ 0 ∧ k < 8 then
      let sum := result.getD k 0 + carry % 2 ^ 64
      addCarry room (result.set k (sum % 2 ^ 64)) (k + 1) (carry / 2 ^ 64 + sum / 2 ^ 64)
    else result

/-- `mul_u256_full`: schoolbook multiplication of four limbs by four. -/
def mulU256Full (a b : Hash256) : Except JetError Hash256 :=
  let aLimbs := limbs a
  let bLimbs := limbs b
  let result := (List.range 4).foldl (fun acc i =>
    (List.range 4).foldl (fun acc j =>
      addCarry 8 acc (i + j) (aLimbs.getD i 0 * bLimbs.getD j 0)) acc) (List.replicate 8 0)
  if result.getD 4 0 ≠ 0 ∨ result.getD 5 0 ≠ 0 ∨ result.getD 6 0 ≠ 0 ∨ result.getD 7 0 ≠ 0 then
    .error (.overflow "mul256 overflow")
  else
    .ok (beBytes32 (((result.getD 3 0 * 2 ^ 64 + result.getD 2 0) * 2 ^ 64 + result.getD 1 0) *
      2 ^ 64 + result.getD 0 0))

/-- The checks of `jet_mul256` on the halves: a cross product that overflows. -/
def crossOverflow (ah al bh bl : Nat) : Bool :=
  (ah > 0 && (bh > 0 || bl > 0) && (bh > 0 || 2 ^ 128 ≤ ah * bl)) ||
    (bh > 0 && al > 0 && 2 ^ 128 ≤ bh * al)

def jetMul256 (input : Value) : Except JetError Value := do
  let (a, b) ← extractU256Pair input
  let (ah, al) := u256ToParts a
  let (bh, bl) := u256ToParts b
  if crossOverflow ah al bh bl then throw (.overflow "mul256 overflow")
  else return .u256 (← mulU256Full a b)

def divU256 (a b : Hash256) : Hash256 :=
  if ge256 a.toList b.toList then hashOfBytes (longDivision a.toList b.toList).2
  else Vector.replicate 32 0

def modU256 (a b : Hash256) : Hash256 :=
  if ge256 a.toList b.toList then hashOfBytes (longDivision a.toList b.toList).1 else a

def jetDiv256 (input : Value) : Except JetError Value := do
  let (a, b) ← extractU256Pair input
  if b = Vector.replicate 32 0 then throw .divisionByZero else return .u256 (divU256 a b)

def jetMod256 (input : Value) : Except JetError Value := do
  let (a, b) ← extractU256Pair input
  if b = Vector.replicate 32 0 then throw .divisionByZero else return .u256 (modU256 a b)

/-- The comparisons of two 256-bit integers, by their big-endian bytes. -/
def compare256 (rel : List UInt8 → List UInt8 → Bool) (input : Value) : Except JetError Value := do
  let (a, b) ← extractU256Pair input
  return .bool (rel a.toList b.toList)

def jetEq256 : Value → Except JetError Value := compare256 fun a b => a == b

def jetLt256 : Value → Except JetError Value := compare256 fun a b => a < b

def jetGt256 : Value → Except JetError Value := compare256 fun a b => a > b

/-! ## Byte strings -/

def jetCat : Value → Except JetError Value
  | .pair (.bytes x) (.bytes y) => .ok (.bytes (x ++ y))
  | .pair _ _ => .error (.typeMismatch "cat expects (Bytes, Bytes)")
  | _ => .error (.typeMismatch "cat expects Pair")

def jetSlice : Value → Except JetError Value
  | .pair (.bytes bytes) (.pair (.u64 start) (.u64 len)) =>
    if start.toNat > bytes.length then .ok (.bytes [])
    else .ok (.bytes ((bytes.drop start.toNat).take len.toNat))
  | .pair (.bytes _) (.pair _ _) => .error (.typeMismatch "slice expects (Bytes, (U64, U64))")
  | .pair _ _ => .error (.typeMismatch "slice expects (Bytes, Pair)")
  | _ => .error (.typeMismatch "slice expects Pair")

def jetLen : Value → Except JetError Value
  | .bytes data => .ok (.u64 (UInt64.ofNat data.length))
  | _ => .error (.typeMismatch "len expects Bytes")

def toByteSlice : Value → Except JetError (List UInt8)
  | .bytes b => .ok b
  | .hash h => .ok h.toList
  | _ => .error (.typeMismatch "eq_bytes expects Bytes or Hash")

def jetEqBytes : Value → Except JetError Value
  | .pair a b => do
    let lhs ← toByteSlice a
    let rhs ← toByteSlice b
    return .bool (lhs == rhs)
  | _ => .error (.typeMismatch "eq_bytes expects Pair")

/-! ## Introspection -/

def jetTxInputs (context : ScriptContext) : Except JetError Value :=
  .ok (.list (context.txInputs.map fun info =>
    .pair (.hash info.prevTxId) (.pair (.u64 info.outputIndex.toUInt64)
      (.pair (.u64 info.value) (.hash info.scriptHash)))))

def jetTxOutputs (context : ScriptContext) : Except JetError Value :=
  .ok (.list (context.txOutputs.map fun info =>
    .pair (.u64 info.value) (.pair (.hash info.scriptHash)
      (match info.datumHash with
        | some h => Value.some (.hash h)
        | none => Value.none))))

def jetTxValue (input : Value) (context : ScriptContext) : Except JetError Value :=
  match input with
  | .u64 idx =>
    match context.txInputs[idx.toNat]? with
    | some info => .ok (.u64 info.value)
    | none => .error (.outOfBounds "tx_value index out of bounds")
  | _ => .error (.typeMismatch "tx_value expects U64")

def jetTxScriptHash (input : Value) (context : ScriptContext) : Except JetError Value :=
  match input with
  | .u64 idx =>
    match context.txInputs[idx.toNat]? with
    | some info => .ok (.hash info.scriptHash)
    | none => .error (.outOfBounds "tx_script_hash index out of bounds")
  | _ => .error (.typeMismatch "tx_script_hash expects U64")

def jetTxInputCount (context : ScriptContext) : Except JetError Value :=
  .ok (.u64 (UInt64.ofNat context.txInputs.length))

def jetTxOutputCount (context : ScriptContext) : Except JetError Value :=
  .ok (.u64 (UInt64.ofNat context.txOutputs.length))

def jetSelfIndex (context : ScriptContext) : Except JetError Value :=
  .ok (.u64 context.selfIndex.toUInt64)

def jetBlockHeight (context : ScriptContext) : Except JetError Value :=
  .ok (.u64 context.blockHeight)

def jetTxSigHash (context : ScriptContext) : Except JetError Value :=
  .ok (.bytes context.sigHash)

/-! ## Lists -/

def jetListLen : Value → Except JetError Value
  | .list items => .ok (.u64 (UInt64.ofNat items.length))
  | _ => .error (.typeMismatch "list_len expects List")

def jetListAt : Value → Except JetError Value
  | .pair (.list items) (.u64 i) =>
    match items[i.toNat]? with
    | some v => .ok (Value.some v)
    | none => .ok Value.none
  | .pair _ _ => .error (.typeMismatch "list_at expects (List, U64)")
  | _ => .error (.typeMismatch "list_at expects Pair")

/-- The loop of `jet_list_sum`. -/
def listSumLoop : UInt64 → List Value → Except JetError Value
  | sum, [] => .ok (.u64 sum)
  | sum, .u64 n :: items =>
    if sum.toNat + n.toNat < 2 ^ 64 then listSumLoop (sum + n) items
    else .error (.overflow "list_sum overflow")
  | _, _ :: _ => .error (.typeMismatch "list_sum expects List(U64)")

def jetListSum : Value → Except JetError Value
  | .list items => listSumLoop 0 items
  | _ => .error (.typeMismatch "list_sum expects List")

/-- The loop of `jet_list_all`. -/
def listAllLoop : List Value → Except JetError Value
  | [] => .ok (.bool true)
  | item :: items =>
    match item.asBool with
    | some b => if b then listAllLoop items else .ok (.bool false)
    | none => .error (.typeMismatch "list_all expects List(Bool)")

def jetListAll : Value → Except JetError Value
  | .list items => listAllLoop items
  | _ => .error (.typeMismatch "list_all expects List")

/-- The loop of `jet_list_any`. -/
def listAnyLoop : List Value → Except JetError Value
  | [] => .ok (.bool false)
  | item :: items =>
    match item.asBool with
    | some b => if b then .ok (.bool true) else listAnyLoop items
    | none => .error (.typeMismatch "list_any expects List(Bool)")

def jetListAny : Value → Except JetError Value
  | .list items => listAnyLoop items
  | _ => .error (.typeMismatch "list_any expects List")

/-- The loop of `jet_list_find`, from index `i` on. -/
def listFindLoop : Nat → List Value → Except JetError Value
  | _, [] => .ok Value.none
  | i, item :: items =>
    match item.asBool with
    | some b => if b then .ok (Value.some (.u64 (UInt64.ofNat i))) else listFindLoop (i + 1) items
    | none => .error (.typeMismatch "list_find expects List(Bool)")

def jetListFind : Value → Except JetError Value
  | .list items => listFindLoop 0 items
  | _ => .error (.typeMismatch "list_find expects List")

end Jets

open Jets

def JetId.eval [Crypto] (jet : JetId) (input : Value) (context : ScriptContext) :
    Except JetError Value :=
  match jet with
  | sha256 => jetSha256 input
  | ed25519Verify => jetEd25519Verify input
  | schnorrVerify => jetSchnorrVerify input
  | merkleVerify => jetMerkleVerify input
  | add64 => jetAdd64 input
  | sub64 => jetSub64 input
  | mul64 => jetMul64 input
  | div64 => jetDiv64 input
  | mod64 => jetMod64 input
  | eq64 => jetEq64 input
  | lt64 => jetLt64 input
  | gt64 => jetGt64 input
  | add256 => jetAdd256 input
  | sub256 => jetSub256 input
  | mul256 => jetMul256 input
  | div256 => jetDiv256 input
  | mod256 => jetMod256 input
  | eq256 => jetEq256 input
  | lt256 => jetLt256 input
  | gt256 => jetGt256 input
  | cat => jetCat input
  | slice => jetSlice input
  | len => jetLen input
  | eqBytes | eqHash => jetEqBytes input
  | txInputs => jetTxInputs context
  | txOutputs => jetTxOutputs context
  | txValue => jetTxValue input context
  | txScriptHash => jetTxScriptHash input context
  | txInputCount => jetTxInputCount context
  | txOutputCount => jetTxOutputCount context
  | selfIndex => jetSelfIndex context
  | blockHeight => jetBlockHeight context
  | txSigHash => jetTxSigHash context
  | listLen => jetListLen input
  | listAt => jetListAt input
  | listSum => jetListSum input
  | listAll => jetListAll input
  | listAny => jetListAny input
  | listFind => jetListFind input

end Exfer.Impl.Script
