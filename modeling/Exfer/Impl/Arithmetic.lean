import Exfer.Lib.BigEndian

/-!
# Arithmetic on bytes

The loops over 32-byte big-endian numbers that `consensus/difficulty.rs` and
`script/jets/arithmetic.rs` both have. Those of the source run from the last byte to the first; here
they are recursions over the list of bytes that return the carry out of the first one.
-/

namespace Exfer.Impl

/-- The sum of two numbers and a carry: the carry out and the bytes. -/
def addBytes (carry : Nat) : List UInt8 → List UInt8 → Nat × List UInt8
  | a :: as, b :: bs =>
    let (carry, rest) := addBytes carry as bs
    let sum := a.toNat + b.toNat + carry
    (sum / 256, UInt8.ofNat sum :: rest)
  | _, _ => (carry, [])

/-- The difference of two numbers: the borrow out and the bytes (`sub_256_inplace`,
`sub_u256_unchecked`). -/
def subBytes : List UInt8 → List UInt8 → Nat × List UInt8
  | a :: as, b :: bs =>
    let (borrow, rest) := subBytes as bs
    if a.toNat < b.toNat + borrow then
      (1, UInt8.ofNat (a.toNat + 256 - b.toNat - borrow) :: rest)
    else (0, UInt8.ofNat (a.toNat - b.toNat - borrow) :: rest)
  | _, _ => (0, [])

/-- The double of a number: the bit shifted out and the bytes, with `bit` shifted in
(`shift_left_1`). -/
def shiftBytes (bit : UInt8) : List UInt8 → UInt8 × List UInt8
  | a :: as =>
    let (carry, rest) := shiftBytes bit as
    (a >>> 7, (a <<< 1 ||| carry) :: rest)
  | [] => (bit, [])

/-- `ge_256`, and `cmp_u256` with a result that is not negative. -/
def ge256 : List UInt8 → List UInt8 → Bool
  | a :: as, b :: bs => if a > b then true else if a < b then false else ge256 as bs
  | _, _ => true

/-- One round of the division on the remainder and the quotient, for the next bit of the dividend. -/
def divStep (b : List UInt8) (state : List UInt8 × List UInt8) (bit : UInt8) :
    List UInt8 × List UInt8 :=
  let remainder := (shiftBytes bit state.1).2
  if ge256 remainder b then ((subBytes remainder b).2, (shiftBytes 1 state.2).2)
  else (remainder, (shiftBytes 0 state.2).2)

/-- The bits of a byte, the most significant first. -/
def bitsOfByte (a : UInt8) : List UInt8 :=
  [a >>> 7 &&& 1, a >>> 6 &&& 1, a >>> 5 &&& 1, a >>> 4 &&& 1, a >>> 3 &&& 1, a >>> 2 &&& 1,
    a >>> 1 &&& 1, a &&& 1]

/-- The loop of `div_256`, `div_u256` and `mod_u256`: the remainder and the quotient. The source
sets the bits of the quotient in place, from the most significant one; here the quotient so far is
shifted. -/
def longDivision (a b : List UInt8) : List UInt8 × List UInt8 :=
  (a.flatMap bitsOfByte).foldl (divStep b) (List.replicate 32 0, List.replicate 32 0)

def div256 (a b : List UInt8) : List UInt8 :=
  (longDivision a b).2

end Exfer.Impl
