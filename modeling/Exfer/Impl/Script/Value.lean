import Exfer.Lib.Bytes
import Exfer.Impl.Hash

/-!
# Types and values of Exfer Script

`script/types.rs` and `script/value.rs`. Recursive functions over values come in pairs, one
for a value and one for the elements of a list. A `usize` is a natural number, and the
capacity of a vector is its length.
-/

namespace Exfer.Impl.Script

open Lib (leBytes leNat)

def maxValueDepth : Nat := 128

def maxListLength : Nat := 65536

/-- `Type`. -/
inductive Ty where
  | unit
  | sum (a b : Ty)
  | product (a b : Ty)
  | list (a : Ty)
  | bound (k : UInt64)
  | u256
  deriving DecidableEq, Repr

namespace Ty

def option (inner : Ty) : Ty := .sum .unit inner

def boolType : Ty := .sum .unit .unit

def bytes : Ty := .list (.bound 256)

/-- `Type::hash256`: the bound zero stands for a digest. -/
def hash256 : Ty := .bound 0

def u64Type : Ty := .bound 18446744073709551615

/-- The `Debug` form of a type. -/
def debug : Ty → String
  | unit => "Unit"
  | sum a b => "Sum(" ++ a.debug ++ ", " ++ b.debug ++ ")"
  | product a b => "Product(" ++ a.debug ++ ", " ++ b.debug ++ ")"
  | list a => "List(" ++ a.debug ++ ")"
  | bound k => "Bound(" ++ toString k.toNat ++ ")"
  | u256 => "U256"

end Ty

inductive Value where
  | unit
  | left (v : Value)
  | right (v : Value)
  | pair (a b : Value)
  | list (vs : List Value)
  | bytes (bs : List UInt8)
  | u64 (n : UInt64)
  | u256 (data : Hash256)
  | bool (b : Bool)
  | hash (h : Hash256)

namespace Value

def none : Value := .left .unit

def some (v : Value) : Value := .right v

/-- `size_of::<Value>()` on a 64-bit target. -/
def valueSize : Nat := 40

mutual

def heapSize : Value → Nat
  | .left v => valueSize + v.heapSize
  | .right v => valueSize + v.heapSize
  | .pair a b => 2 * valueSize + a.heapSize + b.heapSize
  | .list vs => vs.length * valueSize + heapSizeList vs
  | .bytes bs => bs.length
  | .unit | .u64 _ | .u256 _ | .bool _ | .hash _ => 0

/-- The heap of the elements of a list. -/
def heapSizeList : List Value → Nat
  | [] => 0
  | v :: vs => v.heapSize + heapSizeList vs

end

/-- `infer_type`: the untaken side of a sum and the elements of an empty list are `Unit`. -/
def inferType : Value → Ty
  | .unit => .unit
  | .left v => .sum v.inferType .unit
  | .right v => .sum .unit v.inferType
  | .pair a b => .product a.inferType b.inferType
  | .list [] => .list .unit
  | .list (v :: _) => .list v.inferType
  | .bytes _ => .bytes
  | .u64 _ => .u64Type
  | .u256 _ => .u256
  | .bool _ => .boolType
  | .hash _ => .hash256

mutual

/-- `matches_type`: the aliases for booleans, bytes, digests and 256-bit integers come first. -/
def matchesType (v : Value) (ty : Ty) : Bool :=
  if ty = .boolType then
    match v with
    | .bool _ => true
    | .left .unit => true
    | .right .unit => true
    | _ => false
  else if ty = .bytes then
    match v with
    | .bytes _ => true
    | _ => false
  else if ty = .hash256 then
    match v with
    | .hash _ => true
    | _ => false
  else if ty = .u256 then
    match v with
    | .u256 _ => true
    | _ => false
  else
    match v, ty with
    | .unit, .unit => true
    | .u64 n, .bound k => k == 18446744073709551615 || n < k
    | .left a, .sum ta _ => a.matchesType ta
    | .right b, .sum _ tb => b.matchesType tb
    | .pair a b, .product ta tb => a.matchesType ta && b.matchesType tb
    | .list elems, .list elemTy => matchesTypeList elems elemTy
    | _, _ => false

/-- Every element matches the type. -/
def matchesTypeList : List Value → Ty → Bool
  | [], _ => true
  | v :: vs, ty => v.matchesType ty && matchesTypeList vs ty

end

def asBool : Value → Option Bool
  | .bool b => Option.some b
  | .left .unit => Option.some false
  | .right .unit => Option.some true
  | _ => Option.none

def asU256 : Value → Option Hash256
  | .u256 data => Option.some data
  | _ => Option.none

mutual

def listsAreHomogeneous : Value → Bool
  | .list vs =>
    (match vs with
      | [] => true
      | v :: rest => rest.all fun w => w.inferType == v.inferType) &&
      allHomogeneous vs
  | .left v => v.listsAreHomogeneous
  | .right v => v.listsAreHomogeneous
  | .pair a b => a.listsAreHomogeneous && b.listsAreHomogeneous
  | _ => true

/-- Every element is homogeneous. -/
def allHomogeneous : List Value → Bool
  | [] => true
  | v :: vs => v.listsAreHomogeneous && allHomogeneous vs

end

mutual

def serialize : Value → List UInt8
  | .unit => [0x00]
  | .left v => 0x01 :: v.serialize
  | .right v => 0x02 :: v.serialize
  | .pair a b => 0x03 :: (a.serialize ++ b.serialize)
  | .list vs => 0x04 :: (leBytes 4 vs.length ++ serializeList vs)
  | .bytes bs => 0x05 :: (leBytes 4 bs.length ++ bs)
  | .u64 n => 0x06 :: leBytes 8 n.toNat
  | .u256 data => 0x07 :: data.toList
  | .bool b => [0x08, if b then 1 else 0]
  | .hash h => 0x09 :: h.toList

/-- The elements of a list, one after another. -/
def serializeList : List Value → List UInt8
  | [] => []
  | v :: vs => v.serialize ++ serializeList vs

end

mutual

/-- The `Debug` form of a value. -/
def debug : Value → String
  | .unit => "Unit"
  | .left v => "Left(" ++ v.debug ++ ")"
  | .right v => "Right(" ++ v.debug ++ ")"
  | .pair a b => "Pair(" ++ a.debug ++ ", " ++ b.debug ++ ")"
  | .list vs => "List(" ++ Impl.debugList (debugElems vs) ++ ")"
  | .bytes bs => "Bytes(" ++ Impl.debugList (bs.map fun b => toString b.toNat) ++ ")"
  | .u64 n => "U64(" ++ toString n.toNat ++ ")"
  | .u256 data => "U256(" ++ Impl.debugList (data.toList.map fun b => toString b.toNat) ++ ")"
  | .bool b => "Bool(" ++ toString b ++ ")"
  | .hash h => "Hash(" ++ h.debug ++ ")"

/-- The `Debug` forms of the elements of a list. -/
def debugElems : List Value → List String
  | [] => []
  | v :: vs => v.debug :: debugElems vs

end

/-- The loop of `deserialize_depth` over the elements of a list: the values and the bytes
consumed. -/
def deserializeElems (read : List UInt8 → Except String (Value × Nat)) :
    (count : Nat) → List UInt8 → Except String (List Value × Nat)
  | 0, _ => .ok ([], 0)
  | count + 1, data => do
    let (v, consumed) ← read data
    let (vs, pos) ← deserializeElems read count (data.drop consumed)
    return (v :: vs, consumed + pos)

/-- The body of `deserialize_depth` after the tag, with `read` for the recursive calls. -/
def deserializeTagged (read : List UInt8 → Except String (Value × Nat)) (tag : UInt8)
    (rest : List UInt8) : Except String (Value × Nat) :=
  match tag with
  | 0x00 => .ok (.unit, 1)
  | 0x01 => do
    let (v, consumed) ← read rest
    return (.left v, 1 + consumed)
  | 0x02 => do
    let (v, consumed) ← read rest
    return (.right v, 1 + consumed)
  | 0x03 => do
    let (a, ca) ← read rest
    let (b, cb) ← read (rest.drop ca)
    return (.pair a b, 1 + ca + cb)
  | 0x04 =>
    if rest.length < 4 then .error "unexpected end of list length"
    else if leNat (rest.take 4) > maxListLength then .error "list length exceeds maximum"
    else do
      let (vs, pos) ← deserializeElems read (leNat (rest.take 4)) (rest.drop 4)
      return (.list vs, 1 + 4 + pos)
  | 0x05 =>
    if rest.length < 4 then .error "unexpected end of bytes length"
    else if rest.length < 4 + leNat (rest.take 4) then .error "unexpected end of bytes data"
    else .ok (.bytes ((rest.drop 4).take (leNat (rest.take 4))), 1 + 4 + leNat (rest.take 4))
  | 0x06 =>
    if rest.length < 8 then .error "unexpected end of u64 data"
    else .ok (.u64 (UInt64.ofNat (leNat (rest.take 8))), 1 + 8)
  | 0x07 =>
    if rest.length < 32 then .error "unexpected end of u256 data"
    else .ok (.u256 (hashOfBytes rest), 1 + 32)
  | 0x08 =>
    match rest with
    | [] => .error "unexpected end of bool data"
    | 0x00 :: _ => .ok (.bool false, 2)
    | 0x01 :: _ => .ok (.bool true, 2)
    | _ :: _ => .error "non-canonical bool byte"
  | 0x09 =>
    if rest.length < 32 then .error "unexpected end of hash data"
    else .ok (.hash (hashOfBytes rest), 1 + 32)
  | _ => .error "unknown value tag"

/-- `deserialize_depth`; `levels` counts down from `MAX_VALUE_DEPTH + 1` where the source
counts `depth` up. -/
def deserializeDepth : (levels : Nat) → List UInt8 → Except String (Value × Nat)
  | 0, _ => .error "value nesting depth exceeded"
  | _ + 1, [] => .error "unexpected end of value data"
  | levels + 1, tag :: rest => deserializeTagged (deserializeDepth levels) tag rest

/-- `deserialize`: the value and the number of bytes consumed. -/
def deserialize (data : List UInt8) : Except String (Value × Nat) :=
  deserializeDepth (maxValueDepth + 1) data

end Value

end Exfer.Impl.Script
