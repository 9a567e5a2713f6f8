import Exfer.Impl.Difficulty
import Exfer.Proof.Numbers.Bytes

/-!
# Work and retargeting as arithmetic

`add_work` and `work_from_target` are a sum and a quotient that saturate (`addWork_value`,
`workFromTarget_value`), and so is `mul_div_256` over its limbs (`mulDiv256_value`), which makes
`retarget` the rule `retargetRule` on numbers.
-/

namespace Exfer.Proof

open Lib Impl

/-! ## Work -/

theorem beNat_maxWork : beNat maxWork.toList = 2 ^ 256 - 1 := by decide +kernel

/-- A sum with its carry, saturated. -/
theorem saturate_value (hlen : bytes.length = 32) (h : carry * 256 ^ 32 + beNat bytes = n) :
    beNat (if carry > 0 then maxWork else hashOfBytes bytes).toList = min n (2 ^ 256 - 1) := by
  have hlt := beNat_lt bytes
  rw [hlen, show (256 : Nat) ^ 32 = 2 ^ 256 by norm_num] at hlt
  split
  · rw [beNat_maxWork]
    omega
  · rw [toList_hashOfBytes hlen]
    omega

/-- `add_work` adds and saturates. -/
theorem addWork_value (a b : Work) : beNat (addWork a b).toList =
    min (beNat a.toList + beNat b.toList) (2 ^ 256 - 1) := by
  obtain ⟨hlen, hsum⟩ := addBytes_spec 0 (show a.toList.length = b.toList.length by simp)
  rw [Vector.length_toList] at hlen hsum
  exact saturate_value hlen hsum

theorem workFromTarget_value (h : target ≠ Hash256.zero) :
    beNat (workFromTarget target).toList = min (2 ^ 256 / beNat target.toList) (2 ^ 256 - 1) := by
  have hpos := pos_of_ne_zero h
  have hlt := beNat_hash_lt target
  obtain ⟨hlen, hborrow, hsub⟩ := subBytes_spec (show (List.replicate 32 0).length =
    target.toList.length by simp)
  -- the numerator is `2 ^ 256 - target`
  have hnumerator : beNat (subBytes (List.replicate 32 0) target.toList).2 =
      2 ^ 256 - beNat target.toList := by
    rw [beNat_zeros, List.length_replicate, show (256 : Nat) ^ 32 = 2 ^ 256 by norm_num] at hsub
    rcases Nat.le_one_iff_eq_zero_or_eq_one.mp hborrow with hb | hb <;> rw [hb] at hsub <;> omega
  obtain ⟨-, hquotient, -, hvalue⟩ := longDivision_spec
    (hlen.trans (by simp)) (show target.toList.length = 32 by simp) hpos
  obtain ⟨haddlen, hadd⟩ := addBytes_spec 1 (hquotient.trans
    (show 32 = (List.replicate 32 (0 : UInt8)).length by simp))
  rw [hquotient] at haddlen hadd
  rw [workFromTarget, if_neg h]
  refine saturate_value haddlen ?_
  rw [div256, hadd, hvalue, hnumerator, beNat_zeros, Nat.add_zero, ← Nat.div_eq_sub_div hpos hlt.le]

theorem isBetterChain_iff_works (candidate current : ChainTip) : isBetterChain candidate current = true ↔
      beNat current.cumulativeWork.toList < beNat candidate.cumulativeWork.toList ∨
        beNat current.cumulativeWork.toList = beNat candidate.cumulativeWork.toList ∧
          current.height < candidate.height := by
  rw [isBetterChain]
  simp only [lt_iff_beNat (show current.cumulativeWork.toList.length =
    candidate.cumulativeWork.toList.length by simp), lt_iff_beNat (show
    candidate.cumulativeWork.toList.length = current.cumulativeWork.toList.length by simp)]
  generalize beNat current.cumulativeWork.toList = x
  generalize beNat candidate.cumulativeWork.toList = y
  rcases Nat.lt_trichotomy x y with h | rfl | h
  · simp [h]
  · simp
  · simp [h, h.ne']

/-- Work is exact and saturates, falls as the target grows, and its bytes are compared as the
numbers are. -/
theorem work_exact : (∀ target, target ≠ Hash256.zero → beNat (workFromTarget target).toList =
      min (2 ^ 256 / beNat target.toList) (2 ^ 256 - 1)) ∧
    (∀ target target', target ≠ Hash256.zero → beNat target.toList ≤ beNat target'.toList →
      beNat (workFromTarget target').toList ≤ beNat (workFromTarget target).toList) ∧
    (∀ a b, beNat (addWork a b).toList =
      min (beNat a.toList + beNat b.toList) (2 ^ 256 - 1)) ∧
    (∀ a b : Work, a.toList < b.toList ↔ beNat a.toList < beNat b.toList) ∧
    ∀ candidate current, isBetterChain candidate current = true ↔
      beNat current.cumulativeWork.toList < beNat candidate.cumulativeWork.toList ∨
        beNat current.cumulativeWork.toList = beNat candidate.cumulativeWork.toList ∧
          current.height < candidate.height := by
  refine ⟨fun _ => workFromTarget_value, fun target target' h hle => ?_, addWork_value,
    fun a b => lt_iff_beNat (by simp), isBetterChain_iff_works⟩
  have hpos := pos_of_ne_zero h
  have h' : target' ≠ Hash256.zero := by
    rintro rfl
    rw [toList_zero, beNat_zeros] at hle
    omega
  rw [workFromTarget_value h, workFromTarget_value h']
  exact min_le_min_right _ (Nat.div_le_div_left hle hpos)

/-! ## Limbs -/

theorem mulLimbs_spec (numerator : Nat) (limbs : List Nat) : (mulLimbs numerator limbs).2.length = limbs.length ∧
      (∀ limb ∈ (mulLimbs numerator limbs).2, limb < 2 ^ 64) ∧
      (mulLimbs numerator limbs).1 * (2 ^ 64) ^ limbs.length +
        positional (2 ^ 64) (mulLimbs numerator limbs).2 =
          positional (2 ^ 64) limbs * numerator := by
  induction limbs with
  | nil => simp [mulLimbs, positional]
  | cons limb limbs ih =>
    obtain ⟨hlen, hlt, hmul⟩ := ih
    have hpos : 0 < 2 ^ 64 := by decide
    rw [mulLimbs]
    generalize 2 ^ 64 = base at *
    refine ⟨congrArg (· + 1) hlen, List.forall_mem_cons.mpr ⟨Nat.mod_lt _ hpos, hlt⟩, ?_⟩
    have hsplit := Nat.div_add_mod (limb * numerator + (mulLimbs numerator limbs).1) base
    rw [positional_cons, positional_cons, hlen, List.length_cons, pow_succ]
    generalize base ^ limbs.length = weight at hmul ⊢
    have := congrArg (· * weight) hsplit
    linarith

theorem divLimbs_spec (hlt : ∀ limb ∈ limbs, limb < 2 ^ 64) (hr : remainder < denominator) :
    ∃ quotient, divLimbs denominator remainder limbs = some quotient ∧
      quotient.length = limbs.length ∧ (∀ limb ∈ quotient, limb < 2 ^ 64) ∧
      positional (2 ^ 64) quotient =
        (remainder * (2 ^ 64) ^ limbs.length + positional (2 ^ 64) limbs) / denominator := by
  induction limbs generalizing remainder with
  | nil => exact ⟨[], rfl, rfl, by simp, by simp [positional, Nat.div_eq_of_lt hr]⟩
  | cons limb limbs ih =>
    have hpos : 0 < denominator := by omega
    obtain ⟨hlimb, hlt⟩ := List.forall_mem_cons.mp hlt
    obtain ⟨rest, hrest, hlen, hsmall, hvalue⟩ :=
      ih hlt (Nat.mod_lt (remainder * 2 ^ 64 + limb) hpos)
    have hfits : (remainder * 2 ^ 64 + limb) / denominator < 2 ^ 64 := by
      rw [Nat.div_lt_iff_lt_mul hpos]
      have := Nat.mul_le_mul_right (2 ^ 64) (Nat.succ_le_of_lt hr)
      rw [Nat.succ_mul] at this
      generalize 2 ^ 64 = base at *
      rw [Nat.mul_comm base]
      omega
    refine ⟨(remainder * 2 ^ 64 + limb) / denominator :: rest, ?_, congrArg (· + 1) hlen,
      List.forall_mem_cons.mpr ⟨hfits, hsmall⟩, ?_⟩
    · have hlimb : ¬(remainder * 2 ^ 64 + limb) / denominator > 2 ^ 64 - 1 := by omega
      simp only [divLimbs, hrest, Option.bind_eq_bind, Option.bind_some, if_neg hlimb]
    · have hsplit := Nat.div_add_mod (remainder * 2 ^ 64 + limb) denominator
      rw [positional_cons, positional_cons, hlen, hvalue, List.length_cons]
      generalize 2 ^ 64 = base at hsplit ⊢
      rw [pow_succ]
      generalize base ^ limbs.length = weight
      rw [← Nat.mul_add_div hpos]
      congr 1
      have := congrArg (· * weight) hsplit
      linarith

theorem beNat_limbBytes (h : ∀ limb ∈ quotient, limb < 2 ^ 64) :
    (quotient.flatMap limbBytes).length = 8 * quotient.length ∧
      beNat (quotient.flatMap limbBytes) = positional (2 ^ 64) quotient := by
  induction quotient with
  | nil => exact ⟨rfl, rfl⟩
  | cons limb quotient ih =>
    obtain ⟨hlen, hvalue⟩ := ih fun l hl => h l (List.mem_cons_of_mem limb hl)
    have hlimb : leNat (leBytes 8 limb) = limb := leNat_leBytes (h limb List.mem_cons_self)
    rw [List.flatMap_cons, positional_cons, beNat_append, hlen, hvalue, List.length_append, hlen,
      limbBytes, beNat_reverse, hlimb, pow_mul]
    simp
    omega

/-- `mul_div_256` multiplies, divides and saturates. -/
theorem mulDiv256_value (value : Work) (numerator : Nat) (hpos : 0 < denominator) :
    beNat (mulDiv256 value numerator denominator).toList =
      min (beNat value.toList * numerator / denominator) (2 ^ 256 - 1) := by
  have hvalue := beNat_limbs (n := 4) (show value.toList.length = 8 * 4 by simp)
  have hfour : (2 ^ 64) ^ 4 = 2 ^ 256 := by norm_num
  rw [mulDiv256]
  generalize hlimbs : (List.range 4).map
    (fun i => beNat ((value.toList.drop (8 * i)).take 8)) = limbs at hvalue ⊢
  obtain ⟨hlen, hlt, hmul⟩ := mulLimbs_spec numerator limbs
  rw [show limbs.length = 4 by simp [← hlimbs]] at hlen hmul
  generalize mulLimbs numerator limbs = result at hlen hlt hmul ⊢
  obtain ⟨carry, product⟩ := result
  rw [hfour, ← hvalue] at hmul
  rw [← hmul]
  dsimp only at hlen hlt ⊢
  split
  · rename_i hover
    have hlarge : 2 ^ 256 ≤ (carry * 2 ^ 256 + positional (2 ^ 64) product) / denominator := by
      rw [Nat.le_div_iff_mul_le hpos, Nat.mul_comm]
      exact (Nat.mul_le_mul_right _ (Nat.div_pos_iff.mp hover).2).trans (Nat.le_add_right _ _)
    rw [beNat_maxWork, Nat.min_eq_right ((Nat.sub_le _ 1).trans hlarge)]
  · rename_i hfits
    have hsmall : carry < denominator :=
      (Nat.div_eq_zero_iff.mp (Nat.eq_zero_of_not_pos hfits)).resolve_left hpos.ne'
    obtain ⟨quotient, hquotient, hqlen, hqlt, hqvalue⟩ := divLimbs_spec hlt
      (Nat.mod_lt carry hpos)
    obtain ⟨hbytes, hbytesValue⟩ := beNat_limbBytes hqlt
    have hlast := beNat_hash_lt (hashOfBytes (quotient.flatMap limbBytes))
    rw [hquotient]
    rw [toList_hashOfBytes (by omega), hbytesValue, hqvalue, Nat.mod_eq_of_lt hsmall, hlen,
      hfour] at hlast ⊢
    rw [Nat.min_eq_left (Nat.le_sub_one_of_lt hlast)]

/-! ## Retargeting -/

/-- The retarget rule on numbers: the old target scaled by the clamped time over the expected
`43190` seconds, between `1` and `2 ^ 256 - 1`. -/
def retargetRule (old time : Nat) : Nat :=
  max 1 (min (old * max (43190 / 4) (min (max time 1) (4 * 43190)) / 43190) (2 ^ 256 - 1))

theorem retargetRule_mono (hold : old ≤ old') (htime : time ≤ time') :
    retargetRule old time ≤ retargetRule old' time' := by
  unfold retargetRule
  gcongr

theorem retarget_value (old : Hash256) (time : Nat) :
    beNat (retarget old time).toList = retargetRule (beNat old.toList) time := by
  have hclock : (if time = 0 then 1 else time) = max time 1 := by
    split <;> omega
  have hvalue := mulDiv256_value old (max (43190 / 4) (min (max time 1) (4 * 43190)))
    (show 0 < 43190 by decide)
  rw [retarget, hclock]
  change beNat (if mulDiv256 old (max (43190 / 4) (min (max time 1) (4 * 43190))) 43190 = _ then _
    else mulDiv256 old (max (43190 / 4) (min (max time 1) (4 * 43190))) 43190).toList = _
  rw [retargetRule]
  split
  · rename_i hzero
    rw [hzero, toList_zero, beNat_zeros] at hvalue
    rw [← hvalue]
    decide
  · rename_i hzero
    have hpos := pos_of_ne_zero hzero
    omega

/-- `retarget` computes the rule, and the rule is monotone in the old target and in the time. -/
theorem retarget_exact : (∀ (old : Hash256) (time : Nat), beNat (retarget old time).toList =
      max 1 (min (beNat old.toList *
        max (43190 / 4) (min (max time 1) (4 * 43190)) / 43190) (2 ^ 256 - 1))) ∧
    ∀ (old old' : Hash256) (time time' : Nat), beNat old.toList ≤ beNat old'.toList →
      time ≤ time' → beNat (retarget old time).toList ≤ beNat (retarget old' time').toList := by
  refine ⟨retarget_value, fun old old' time time' hold htime => ?_⟩
  rw [retarget_value, retarget_value]
  exact retargetRule_mono hold htime

end Exfer.Proof
