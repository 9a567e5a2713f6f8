import Mathlib.Algebra.Order.Ring.Nat
import Mathlib.Data.List.Basic

/-!
# Byte strings

`leBytes w n` is the number `n` in `w` bytes, least significant first, and `leNat` reads
such a string back. `ascii` is the byte string of an ASCII literal.
-/

namespace Exfer.Lib

/-- The bytes of an ASCII string. -/
def ascii (s : String) : List UInt8 :=
  s.toList.map fun c => UInt8.ofNat c.toNat

/-- The low `w` bytes of a number, least significant first. -/
def leBytes : (w n : Nat) → List UInt8
  | 0, _ => []
  | w + 1, n => UInt8.ofNat n :: leBytes w (n / 256)

/-- The number a little-endian byte string stands for. -/
def leNat : List UInt8 → Nat
  | [] => 0
  | b :: bs => b.toNat + 256 * leNat bs

@[simp] theorem length_leBytes (w n : Nat) : (leBytes w n).length = w := by
  induction w generalizing n with
  | zero => rfl
  | succ w ih => simp [leBytes, ih]

/-- Reading back the bytes of a number that fits. -/
theorem leNat_leBytes {w n : Nat} (h : n < 256 ^ w) : leNat (leBytes w n) = n := by
  induction w generalizing n with
  | zero =>
    have : n = 0 := by simpa using h
    simp [leBytes, leNat, this]
  | succ w ih =>
    have hdiv : n / 256 < 256 ^ w := by
      rw [Nat.div_lt_iff_lt_mul (by decide), ← pow_succ]
      exact h
    rw [leBytes, leNat, ih hdiv, UInt8.toNat_ofNat']
    omega

theorem leBytes_inj {w m n : Nat} (hm : m < 256 ^ w) (hn : n < 256 ^ w)
    (h : leBytes w m = leBytes w n) : m = n := by
  rw [← leNat_leBytes hm, ← leNat_leBytes hn, h]

theorem leNat_lt (bs : List UInt8) : leNat bs < 256 ^ bs.length := by
  induction bs with
  | nil => simp [leNat]
  | cons b bs ih =>
    have hb := b.toNat_lt
    rw [leNat, List.length_cons, pow_succ]
    omega

end Exfer.Lib
