import Exfer.Lib.Bytes
import Mathlib.Data.Nat.Digits.Lemmas

/-!
# Positional numbers

`positional B digits` is the number of a list of digits in base `B`, most significant first, and
`beNat` that of a big-endian byte string. Strings of one length are ordered as their numbers are
(`lt_iff_beNat`).
-/

namespace Exfer.Lib

/-- The number of a list of digits, most significant first. -/
def positional (B : Nat) (digits : List Nat) : Nat := Nat.ofDigits B digits.reverse

theorem positional_append (B : Nat) (xs ys : List Nat) :
    positional B (xs ++ ys) = positional B xs * B ^ ys.length + positional B ys := by
  rw [positional, List.reverse_append, Nat.ofDigits_append, List.length_reverse]
  exact (Nat.add_comm _ _).trans (by rw [Nat.mul_comm]; rfl)

theorem positional_cons (B d : Nat) (ds : List Nat) :
    positional B (d :: ds) = d * B ^ ds.length + positional B ds := by
  rw [← List.singleton_append, positional_append]
  simp [positional]

/-- A number from big-endian bytes. -/
def beNat (bytes : List UInt8) : Nat :=
  bytes.foldl (fun n b => 256 * n + b.toNat) 0

theorem beNat_eq_positional (bytes : List UInt8) : beNat bytes = positional 256 (bytes.map UInt8.toNat) := by
  rw [positional, Nat.ofDigits_eq_foldr, List.foldr_reverse, List.foldl_map]
  simp [beNat, Nat.add_comm]

theorem beNat_append (xs ys : List UInt8) : beNat (xs ++ ys) = beNat xs * 256 ^ ys.length + beNat ys := by
  simp [beNat_eq_positional, positional_append]

theorem beNat_cons (b : UInt8) (bytes : List UInt8) :
    beNat (b :: bytes) = b.toNat * 256 ^ bytes.length + beNat bytes := by
  simp [beNat_eq_positional, positional_cons]

theorem beNat_lt (bytes : List UInt8) : beNat bytes < 256 ^ bytes.length := by
  induction bytes with
  | nil => decide
  | cons b bytes ih =>
    have hb := b.toNat_lt
    rw [beNat_cons, List.length_cons, pow_succ]
    nlinarith

/-- The most significant byte decides, and the others where it is the same. -/
theorem lt_iff_beNat {as bs : List UInt8} (h : as.length = bs.length) : as < bs ↔ beNat as < beNat bs := by
  induction as generalizing bs with
  | nil =>
    obtain rfl := List.length_eq_zero_iff.mp h.symm
    simp
  | cons a as ih =>
    cases bs with
    | nil => cases h
    | cons b bs =>
      have hlength : as.length = bs.length := Nat.succ.inj h
      have has := beNat_lt as
      have hbs := beNat_lt bs
      rw [List.cons_lt_cons_iff, ih hlength, beNat_cons, beNat_cons, hlength, UInt8.lt_iff_toNat_lt,
        ← UInt8.toNat_inj]
      rw [hlength] at has
      generalize 256 ^ bs.length = weight at has hbs ⊢
      rcases Nat.lt_trichotomy a.toNat b.toNat with hab | hab | hab
      · have := Nat.mul_le_mul_right weight hab
        rw [Nat.succ_mul] at this
        omega
      · rw [hab]
        omega
      · have := Nat.mul_le_mul_right weight hab
        rw [Nat.succ_mul] at this
        omega

theorem beNat_inj {as bs : List UInt8} (h : as.length = bs.length) (heq : beNat as = beNat bs) : as = bs := by
  have hlt : ¬as < bs := by rw [lt_iff_beNat h]; omega
  have hgt : ¬bs < as := by rw [lt_iff_beNat h.symm]; omega
  exact List.le_antisymm hgt hlt

theorem beNat_reverse (bytes : List UInt8) : beNat bytes.reverse = leNat bytes := by
  induction bytes with
  | nil => rfl
  | cons b bytes ih =>
    rw [List.reverse_cons, beNat_append, ih, leNat]
    simp [beNat]
    ring

end Exfer.Lib
