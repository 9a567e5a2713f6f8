import Exfer.Impl.Arithmetic
import Exfer.Impl.Hash

/-!
# The byte loops

What the loops over big-endian bytes compute, as equations between numbers: a sum and its carry
(`addBytes_spec`), a difference and its borrow (`subBytes_spec`), a double (`shiftBytes_spec`), the
order (`ge256_iff`). The division keeps `Divides`, whose bound on the bits read so far is what makes
its shifts lose nothing, and so leaves the quotient and the remainder (`longDivision_spec`).
-/

namespace Exfer.Proof

open Lib Impl

variable {as bs : List UInt8}

theorem toList_hashOfBytes (h : as.length = 32) : (hashOfBytes as).toList = as := by
  refine List.ext_getElem (by simp [h]) fun i hi hi' => ?_
  simp [hashOfBytes, List.getD_eq_getElem?_getD, hi']

theorem beNat_hash_lt (h : Hash256) : beNat h.toList < 2 ^ 256 := by
  have hlt := beNat_lt h.toList
  rw [Vector.length_toList] at hlt
  exact hlt

theorem toList_zero : Hash256.zero.toList = List.replicate 32 0 := by simp [Hash256.zero]

theorem beNat_zeros : beNat (List.replicate 32 0) = 0 := by decide

theorem pos_of_ne_zero (h : target ≠ Hash256.zero) : 0 < beNat target.toList := by
  refine Nat.pos_of_ne_zero fun hzero => h ?_
  rw [← Vector.toList_inj, toList_zero]
  exact beNat_inj (by simp) (by rw [hzero, beNat_zeros])

/-- A number from its limbs of eight bytes. -/
theorem beNat_limbs (h : as.length = 8 * n) : beNat as =
    positional (2 ^ 64) ((List.range n).map fun i => beNat ((as.drop (8 * i)).take 8)) := by
  induction n generalizing as with
  | zero => simp [List.length_eq_zero_iff.mp h, beNat, positional]
  | succ n ih =>
    have htail : (as.drop 8).length = 8 * n := by simp; omega
    rw [List.range_succ_eq_map, List.map_cons, positional_cons, List.map_map]
    have hrest := ih htail
    simp only [List.drop_drop] at hrest
    nth_rewrite 1 [← List.take_append_drop 8 as]
    rw [beNat_append, htail, hrest, List.length_map, List.length_range, pow_mul,
      Nat.mul_zero, List.drop_zero, show (256 : Nat) ^ 8 = 2 ^ 64 by norm_num]
    simp only [Function.comp_def, Nat.succ_eq_add_one, Nat.mul_add, Nat.mul_one, Nat.add_comm]

/-! ## Sums, differences, doubles -/

/-- The bytes of the sum and the carry out of them. -/
theorem addBytes_spec (carry : Nat) (h : as.length = bs.length) : (addBytes carry as bs).2.length = as.length ∧
      (addBytes carry as bs).1 * 256 ^ as.length + beNat (addBytes carry as bs).2 =
        beNat as + beNat bs + carry := by
  induction as generalizing bs with
  | nil =>
    obtain rfl := List.length_eq_zero_iff.mp h.symm
    simp [addBytes, beNat]
  | cons a as ih =>
    cases bs with
    | nil => cases h
    | cons b bs =>
      have hlength : as.length = bs.length := Nat.succ.inj h
      obtain ⟨hlen, hsum⟩ := ih hlength
      generalize hrest : addBytes carry as bs = rest at hlen hsum
      have hadd : addBytes carry (a :: as) (b :: bs) =
          ((a.toNat + b.toNat + rest.1) / 256,
            UInt8.ofNat (a.toNat + b.toNat + rest.1) :: rest.2) := by
        rw [addBytes, hrest]
      rw [hadd]
      refine ⟨congrArg (· + 1) hlen, ?_⟩
      rw [beNat_cons, beNat_cons, beNat_cons, hlen, ← hlength, UInt8.toNat_ofNat', List.length_cons]
      generalize htotal : a.toNat + b.toNat + rest.1 = total
      calc total / 256 * 256 ^ (as.length + 1) + (total % 256 * 256 ^ as.length + beNat rest.2)
        _ = (256 * (total / 256) + total % 256) * 256 ^ as.length + beNat rest.2 := by ring
        _ = total * 256 ^ as.length + beNat rest.2 := by rw [Nat.div_add_mod]
        _ = (a.toNat + b.toNat) * 256 ^ as.length + (rest.1 * 256 ^ as.length + beNat rest.2) := by
          rw [← htotal]
          ring
        _ = a.toNat * 256 ^ as.length + beNat as + (b.toNat * 256 ^ as.length + beNat bs) +
            carry := by
          rw [hsum]
          ring

/-- The bytes of the difference and the borrow out of them. -/
theorem subBytes_spec (h : as.length = bs.length) : (subBytes as bs).2.length = as.length ∧ (subBytes as bs).1 ≤ 1 ∧
      beNat (subBytes as bs).2 + beNat bs =
        beNat as + (subBytes as bs).1 * 256 ^ as.length := by
  induction as generalizing bs with
  | nil =>
    obtain rfl := List.length_eq_zero_iff.mp h.symm
    simp [subBytes, beNat]
  | cons a as ih =>
    cases bs with
    | nil => cases h
    | cons b bs =>
      have hlength : as.length = bs.length := Nat.succ.inj h
      obtain ⟨hlen, hborrow, hsub⟩ := ih hlength
      generalize hrest : subBytes as bs = rest at hlen hborrow hsub
      have ha := a.toNat_lt
      have hb := b.toNat_lt
      rw [subBytes, hrest]
      dsimp only
      split <;> refine ⟨congrArg (· + 1) hlen, by omega, ?_⟩ <;>
        rw [beNat_cons, beNat_cons, beNat_cons, hlen, ← hlength, UInt8.toNat_ofNat',
          Nat.mod_eq_of_lt (by omega), List.length_cons, pow_succ]
      · obtain ⟨d, hd⟩ : ∃ d, a.toNat + 256 = b.toNat + rest.1 + d :=
          ⟨a.toNat + 256 - b.toNat - rest.1, by omega⟩
        rw [show a.toNat + 256 - b.toNat - rest.1 = d by omega]
        generalize 256 ^ as.length = weight at hsub ⊢
        have := congrArg (· * weight) hd
        simp only [Nat.add_mul] at this
        omega
      · obtain ⟨d, hd⟩ : ∃ d, a.toNat = b.toNat + rest.1 + d :=
          ⟨a.toNat - b.toNat - rest.1, by omega⟩
        rw [show a.toNat - b.toNat - rest.1 = d by omega]
        generalize 256 ^ as.length = weight at hsub ⊢
        have := congrArg (· * weight) hd
        simp only [Nat.add_mul] at this
        omega

/-- One byte shifted: the bit out and the bit in. -/
theorem shift_byte (a carry : UInt8) (h : carry.toNat ≤ 1) : (a >>> 7).toNat ≤ 1 ∧
      (a >>> 7).toNat * 256 + (a <<< 1 ||| carry).toNat = 2 * a.toNat + carry.toNat := by
  have hbit : carry = 0 ∨ carry = 1 := by
    rw [← UInt8.toNat_inj, ← UInt8.toNat_inj]
    change carry.toNat = 0 ∨ carry.toNat = 1
    omega
  obtain ⟨a⟩ := a
  rcases hbit with rfl | rfl <;> (revert a; decide +kernel)

theorem shiftBytes_spec (as : List UInt8) (bit : UInt8) (hbit : bit.toNat ≤ 1) :
    (shiftBytes bit as).2.length = as.length ∧ (shiftBytes bit as).1.toNat ≤ 1 ∧
      (shiftBytes bit as).1.toNat * 256 ^ as.length + beNat (shiftBytes bit as).2 =
        2 * beNat as + bit.toNat := by
  induction as with
  | nil => simpa [shiftBytes, beNat] using hbit
  | cons a as ih =>
    obtain ⟨hlen, hcarry, hshift⟩ := ih
    obtain ⟨hout, hbyte⟩ := shift_byte a (shiftBytes bit as).1 hcarry
    refine ⟨congrArg (· + 1) hlen, hout, ?_⟩
    rw [shiftBytes, beNat_cons, beNat_cons, hlen, List.length_cons, pow_succ]
    generalize 256 ^ as.length = weight at hshift ⊢
    have := congrArg (· * weight) hbyte
    linarith

theorem ge256_iff (h : as.length = bs.length) : ge256 as bs = true ↔ beNat bs ≤ beNat as := by
  rw [← not_lt, ← lt_iff_beNat h]
  induction as generalizing bs with
  | nil =>
    obtain rfl := List.length_eq_zero_iff.mp h.symm
    simp [ge256]
  | cons a as ih =>
    cases bs with
    | nil => cases h
    | cons b bs =>
      rw [ge256, List.cons_lt_cons_iff, not_or]
      split
      · rename_i hgt
        have := UInt8.lt_iff_toNat_lt.mp hgt
        simp [UInt8.lt_iff_toNat_lt, ← UInt8.toNat_inj]
        omega
      · split
        · simp [*]
        have heq : a = b := by
          rw [← UInt8.toNat_inj]
          simp only [UInt8.lt_iff_toNat_lt, GT.gt] at *
          omega
        simp [heq, ih (Nat.succ.inj h)]

/-! ## Long division -/

/-- The state of a division after `k` bits of the dividend, of value `p`. -/
structure Divides (b : List UInt8) (state : List UInt8 × List UInt8) (p k : Nat) : Prop where
  remainder_length : state.1.length = b.length
  quotient_length : state.2.length = b.length
  equation : beNat state.1 + beNat b * beNat state.2 = p
  remainder_lt : beNat state.1 < beNat b
  bound : p < 2 ^ k

theorem Divides.step (h : Divides b state p k) (hk : k < 8 * b.length) (hbit : bit.toNat ≤ 1) :
    Divides b (divStep b state bit) (2 * p + bit.toNat) (k + 1) := by
  have hroom : 2 * 2 ^ k ≤ 256 ^ b.length := by
    rw [show 256 = 2 ^ 8 by rfl, ← pow_mul, ← pow_succ']
    exact Nat.pow_le_pow_right (by decide) hk
  have hequation := h.equation
  have hbound := h.bound
  have hsmall := h.remainder_lt
  have hquotient : beNat state.2 ≤ beNat b * beNat state.2 :=
    Nat.le_mul_of_pos_left _ (by omega)
  obtain ⟨hlen, hout, hshift⟩ := shiftBytes_spec state.1 bit hbit
  rw [h.remainder_length] at hlen hshift
  -- the remainder is at most the bits read, so its double fits
  have hr : beNat (shiftBytes bit state.1).2 = 2 * beNat state.1 + bit.toNat := by
    rcases Nat.le_one_iff_eq_zero_or_eq_one.mp hout with hout | hout <;> rw [hout] at hshift <;>
      omega
  have hq : ∀ c : UInt8, c.toNat ≤ 1 → (shiftBytes c state.2).2.length = b.length ∧
      beNat (shiftBytes c state.2).2 = 2 * beNat state.2 + c.toNat := by
    intro c hc
    obtain ⟨hlen, hout, hshift⟩ := shiftBytes_spec state.2 c hc
    rw [h.quotient_length] at hlen hshift
    rcases Nat.le_one_iff_eq_zero_or_eq_one.mp hout with hout | hout <;> rw [hout] at hshift <;>
      exact ⟨hlen, by omega⟩
  have hpow : 2 * p + bit.toNat < 2 ^ (k + 1) := by
    omega
  unfold divStep
  dsimp only
  split
  · rename_i hge
    rw [ge256_iff hlen] at hge
    obtain ⟨hsublen, hborrow, hsub⟩ := subBytes_spec hlen
    obtain ⟨hqlen, hqval⟩ := hq 1 (by decide)
    have hdiff : beNat (subBytes (shiftBytes bit state.1).2 b).2 + beNat b =
        2 * beNat state.1 + bit.toNat := by
      have hfits := beNat_lt (subBytes (shiftBytes bit state.1).2 b).2
      rw [hsublen] at hfits
      rcases Nat.le_one_iff_eq_zero_or_eq_one.mp hborrow with hb | hb <;> rw [hb] at hsub <;> omega
    refine ⟨hsublen.trans hlen, hqlen, ?_, by dsimp only; omega, hpow⟩
    rw [hqval, ← hequation, show (1 : UInt8).toNat = 1 by rfl]
    linarith
  · rename_i hlt
    rw [ge256_iff hlen, hr] at hlt
    obtain ⟨hqlen, hqval⟩ := hq 0 (by decide)
    refine ⟨hlen, hqlen, ?_, by dsimp only; omega, hpow⟩
    rw [hqval, hr, ← hequation, show (0 : UInt8).toNat = 0 by rfl]
    linarith

theorem Divides.run {b : List UInt8} {bits : List UInt8} (hbits : ∀ bit ∈ bits, bit.toNat ≤ 1)
    {state : List UInt8 × List UInt8} {p k : Nat} (h : Divides b state p k) (hk : k + bits.length ≤ 8 * b.length) :
    Divides b (bits.foldl (divStep b) state) (bits.foldl (fun p bit => 2 * p + bit.toNat) p)
      (k + bits.length) := by
  induction bits generalizing state p k with
  | nil => exact h
  | cons bit bits ih =>
    rw [List.length_cons] at hk
    have hstep := h.step (by omega) (hbits bit List.mem_cons_self)
    have hrun := ih (fun c hc => hbits c (List.mem_cons_of_mem bit hc)) hstep (by omega)
    rw [List.length_cons, show k + (bits.length + 1) = k + 1 + bits.length by omega]
    exact hrun

theorem bitsOfByte_spec (a : UInt8) : (∀ bit ∈ bitsOfByte a, bit.toNat ≤ 1) ∧
      ∀ p, (bitsOfByte a).foldl (fun p bit => 2 * p + bit.toNat) p = 256 * p + a.toNat := by
  have hsum : (bitsOfByte a).foldl (fun p bit => 2 * p + bit.toNat) 0 = a.toNat := by
    obtain ⟨a⟩ := a
    revert a
    decide +kernel
  refine ⟨?_, fun p => ?_⟩
  · simp [bitsOfByte, Nat.and_one_is_mod]
    omega
  · rw [← hsum]
    simp only [bitsOfByte, List.foldl_cons, List.foldl_nil]
    omega

theorem bits_spec (as : List UInt8) : (∀ bit ∈ as.flatMap bitsOfByte, bit.toNat ≤ 1) ∧
      (as.flatMap bitsOfByte).length = 8 * as.length ∧
      (as.flatMap bitsOfByte).foldl (fun p bit => 2 * p + bit.toNat) 0 = beNat as := by
  refine ⟨fun bit hbit => ?_, ?_, ?_⟩
  · obtain ⟨a, -, hbit⟩ := List.mem_flatMap.mp hbit
    exact (bitsOfByte_spec a).1 bit hbit
  · simp [List.length_flatMap, bitsOfByte, Nat.mul_comm]
  · rw [List.foldl_flatMap, beNat]
    simp only [(bitsOfByte_spec _).2]

/-- The remainder and the quotient. -/
theorem longDivision_spec (ha : as.length = 32) (hb : bs.length = 32) (hpos : 0 < beNat bs) :
    (longDivision as bs).1.length = 32 ∧ (longDivision as bs).2.length = 32 ∧
      beNat (longDivision as bs).1 = beNat as % beNat bs ∧
      beNat (longDivision as bs).2 = beNat as / beNat bs := by
  obtain ⟨hbits, hlength, hvalue⟩ := bits_spec as
  have hstart : Divides bs (List.replicate 32 0, List.replicate 32 0) 0 0 :=
    ⟨hb.symm, hb.symm, by rw [beNat_zeros, Nat.mul_zero], by rw [beNat_zeros]; exact hpos, by decide⟩
  have h := hstart.run hbits (by omega)
  rw [hvalue] at h
  have hdiv := (Nat.div_mod_unique hpos).mpr ⟨h.equation, h.remainder_lt⟩
  exact ⟨h.remainder_length.trans hb, h.quotient_length.trans hb, hdiv.2.symm, hdiv.1.symm⟩

end Exfer.Proof
