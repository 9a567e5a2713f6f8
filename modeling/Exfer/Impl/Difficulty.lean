import Exfer.Impl.Arithmetic
import Exfer.Impl.Genesis

/-!
# Difficulty and fork choice

`consensus/difficulty.rs`: the work of a target and the retarget rule, on 32-byte big-endian
numbers, and `chain/fork_choice.rs`.
-/

namespace Exfer.Impl

open Lib (beNat)

/-- A 256-bit big-endian number, `[u8; 32]`: a target or cumulative work. -/
abbrev Work := Vector UInt8 32

/-- `2 ^ 256 - 1`. -/
def maxWork : Work := Vector.replicate 32 255

/-! ## Work -/

/-- `work_from_target`: `2 ^ 256 / target`, which is `(2 ^ 256 - target) / target + 1`. -/
def workFromTarget (target : Hash256) : Work :=
  if target = Hash256.zero then maxWork
  else
    let numerator := (subBytes (List.replicate 32 0) target.toList).2
    let (carry, result) := addBytes 1 (div256 numerator target.toList) (List.replicate 32 0)
    if carry > 0 then maxWork else hashOfBytes result

def addWork (a b : Work) : Work :=
  let (carry, result) := addBytes 0 a.toList b.toList
  if carry > 0 then maxWork else hashOfBytes result

/-! ## Retargeting -/

def retargetWindow : Nat := 4320

def targetBlockTimeSecs : Nat := 10

def maxRetargetFactor : Nat := 4

/-- The big-endian bytes of a 64-bit limb. -/
def limbBytes (limb : Nat) : List UInt8 :=
  (Exfer.Lib.leBytes 8 limb).reverse

/-- The product of limbs and a number: the carry out and the limbs. -/
def mulLimbs (numerator : Nat) : List Nat → Nat × List Nat
  | limb :: limbs =>
    let (carry, rest) := mulLimbs numerator limbs
    let val := limb * numerator + carry
    (val / 2 ^ 64, val % 2 ^ 64 :: rest)
  | [] => (0, [])

/-- The quotient of limbs by a number; `none` when a limb of it does not fit. -/
def divLimbs (denominator : Nat) : (remainder : Nat) → List Nat → Option (List Nat)
  | _, [] => some []
  | remainder, limb :: limbs => do
    let cur := remainder * 2 ^ 64 + limb
    let rest ← divLimbs denominator (cur % denominator) limbs
    if cur / denominator > 2 ^ 64 - 1 then none else some (cur / denominator :: rest)

/-- `mul_div_256`, of a positive denominator. -/
def mulDiv256 (value : Work) (numerator denominator : Nat) : Work :=
  let limbs := (List.range 4).map fun i => beNat ((value.toList.drop (8 * i)).take 8)
  let (carry, product) := mulLimbs numerator limbs
  if carry / denominator > 0 then maxWork
  else
    match divLimbs denominator (carry % denominator) product with
    | none => maxWork
    | some result => hashOfBytes (result.flatMap limbBytes)

def retarget (oldTarget : Hash256) (actualTimeSecs : Nat) : Hash256 :=
  let expectedTime := (retargetWindow - 1) * targetBlockTimeSecs
  let actual := if actualTimeSecs = 0 then 1 else actualTimeSecs
  let minTime := expectedTime / maxRetargetFactor
  let maxTime := expectedTime * maxRetargetFactor
  let clampedTime := max minTime (min actual maxTime)
  let target := mulDiv256 oldTarget clampedTime expectedTime
  if target = Hash256.zero then Vector.ofFn fun i : Fin 32 => if i = 31 then 1 else 0 else target

/-! ## The expected target -/

inductive DifficultyError where
  | ancestorNotFound (id : Hash256)
  | other (msg : String)
  deriving DecidableEq

/-- The `Display` form of a difficulty error. -/
def DifficultyError.display : DifficultyError → String
  | .ancestorNotFound id => "not found: " ++ id.hex
  | .other msg => msg

section

variable (getHeader : Nat → Hash256 → Except String (Option BlockHeader))

/-- A header that has to be there; `i` counts the reads. -/
def ancestorHeader (i : Nat) (id : Hash256) : Except DifficultyError BlockHeader :=
  match getHeader i id with
  | .error msg => .error (.other msg)
  | .ok none => .error (.ancestorNotFound id)
  | .ok (some header) => .ok header

/-- The walk over `n` parent links. -/
def walkBack : (i n : Nat) → Hash256 → Except DifficultyError Hash256
  | _, 0, id => .ok id
  | i, n + 1, id => do
    let header ← ancestorHeader getHeader i id
    walkBack (i + 1) n header.prevBlockId

/-- `expected_difficulty`, with the headers read by `getHeader`. -/
def expectedDifficulty [Network] (prevBlockId : Hash256) (height : UInt64) :
    Except DifficultyError Hash256 :=
  if height = 0 then .ok genesisTarget
  else do
    let parent ← ancestorHeader getHeader 0 prevBlockId
    if height.toNat % retargetWindow ≠ 0 then .ok parent.difficultyTarget
    else do
      let startId ← walkBack getHeader 1 (retargetWindow - 1) prevBlockId
      let windowStart ← ancestorHeader getHeader retargetWindow startId
      .ok (retarget parent.difficultyTarget (parent.timestamp.toNat - windowStart.timestamp.toNat))

end

/-! ## Fork choice -/

structure ChainTip where
  blockId : Hash256
  height : UInt64
  cumulativeWork : Work
  deriving DecidableEq

def ChainTip.new (blockId : Hash256) (height : UInt64) (difficultyTarget : Hash256)
    (parentWork : Work) : ChainTip :=
  { blockId, height, cumulativeWork := addWork parentWork (workFromTarget difficultyTarget) }

def ChainTip.genesis (blockId : Hash256) (difficultyTarget : Hash256) : ChainTip :=
  { blockId, height := 0, cumulativeWork := workFromTarget difficultyTarget }

def isBetterChain (candidate current : ChainTip) : Bool :=
  if current.cumulativeWork.toList < candidate.cumulativeWork.toList then true
  else if candidate.cumulativeWork.toList < current.cumulativeWork.toList then false
  else current.height < candidate.height

end Exfer.Impl
