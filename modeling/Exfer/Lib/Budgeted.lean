import Mathlib.Algebra.Order.Monoid.Canonical.Defs
import Mathlib.Tactic.Abel

/-!
# Computations with a budget

A computation that spends from an account in its state realizes a computation without one if, with enough
in the account, it returns and fails as the other does (`Realizes`). The rules follow the constructors of
`do` blocks.
-/

namespace Exfer.Lib

variable {ε σ τ α β N : Type} [AddCommMonoid N] [PartialOrder N] (left : σ → N) (view : σ → τ)

/-- For every view of a state there is an amount, such that from every state with this view and this amount
left the computation `m` returns what `r` does, with the view it leaves, or fails if `r` does. What `m` spends
is within the amount. -/
def Realizes (m : EStateM ε σ α) (r : StateT τ Option α) : Prop :=
  ∀ t, ∃ need, ∀ s, view s = t → need ≤ left s →
    match r t with
    | some (a, t') => ∃ s', m s = .ok a s' ∧ view s' = t' ∧ left s ≤ left s' + need
    | none => ∃ e s', m s = .error e s'

namespace Realizes

variable {left} {view} {m : EStateM ε σ α} {r : StateT τ Option α}

theorem pure (a : α) : Realizes left view (pure a : EStateM ε σ α) (pure a) :=
  fun _ => ⟨0, fun s hs _ => ⟨s, rfl, hs, (add_zero _).ge⟩⟩

theorem throw (e : ε) : Realizes left view (throw e : EStateM ε σ α) failure :=
  fun _ => ⟨0, fun s _ _ => ⟨e, s, rfl⟩⟩

/-- A computation that only spends. -/
theorem spend {m : EStateM ε σ PUnit} (need : N)
    (h : ∀ s, need ≤ left s → ∃ s', m s = .ok ⟨⟩ s' ∧ view s' = view s ∧ left s ≤ left s' + need) :
    Realizes left view m (Pure.pure ⟨⟩) := by
  intro t
  refine ⟨need, fun s hs hneed => ?_⟩
  obtain ⟨s', hrun, hview, hleft⟩ := h s hneed
  exact ⟨s', hrun, hview.trans hs, hleft⟩

variable [IsOrderedCancelAddMonoid N] [CanonicallyOrderedAdd N] {f : α → EStateM ε σ β}
  {g : α → StateT τ Option β}

theorem bind (hm : Realizes left view m r) (hf : ∀ a, Realizes left view (f a) (g a)) :
    Realizes left view (m >>= f) (r >>= g) := by
  intro t
  obtain ⟨need, hneed⟩ := hm t
  have hbind : (r >>= g) t = (r t).bind fun at' => g at'.1 at'.2 := rfl
  cases hr : r t with
  | none =>
    refine ⟨need, fun s hs hleft => ?_⟩
    obtain ⟨e, s', hrun⟩ : ∃ e s', m s = .error e s' := by simpa only [hr] using hneed s hs hleft
    rw [hbind, hr]
    exact ⟨e, s', by simp only [Bind.bind, EStateM.bind, hrun]⟩
  | some at' =>
    obtain ⟨a, t'⟩ := at'
    obtain ⟨need', hneed'⟩ := hf a t'
    refine ⟨need + need', fun s hs hleft => ?_⟩
    obtain ⟨s', hrun, hview, hspent⟩ :
        ∃ s', m s = .ok a s' ∧ view s' = t' ∧ left s ≤ left s' + need := by
      simpa only [hr] using hneed s hs (le_self_add.trans hleft)
    -- what is left suffices for the rest
    have hrest : need' ≤ left s' := by
      refine le_of_add_le_add_right (a := need) ?_
      calc need' + need = need + need' := add_comm _ _
        _ ≤ left s := hleft
        _ ≤ left s' + need := hspent
    have hdone : (m >>= f) s = f a s' := by simp only [Bind.bind, EStateM.bind, hrun]
    have hthen := hneed' s' hview hrest
    rw [hbind, hr, hdone]
    show match g a t' with
      | some (b, t'') => ∃ s'', f a s' = .ok b s'' ∧ view s'' = t'' ∧ left s ≤ left s'' + (need + need')
      | none => ∃ e s'', f a s' = .error e s''
    cases hg : g a t' with
    | none => simpa only [hg] using hthen
    | some bt'' =>
      obtain ⟨b, t''⟩ := bt''
      obtain ⟨s'', hrun', hview', hspent'⟩ :
          ∃ s'', f a s' = .ok b s'' ∧ view s'' = t'' ∧ left s' ≤ left s'' + need' := by
        simpa only [hg] using hthen
      refine ⟨s'', hrun', hview', ?_⟩
      calc left s ≤ left s' + need := hspent
        _ ≤ left s'' + need' + need := add_le_add_left hspent' need
        _ = left s'' + (need + need') := by abel

/-- First spending. -/
theorem skip {m : EStateM ε σ PUnit} {f : PUnit → EStateM ε σ β} {r : StateT τ Option β}
    (hm : Realizes left view m (Pure.pure ⟨⟩)) (hf : Realizes left view (f ⟨⟩) r) :
    Realizes left view (m >>= f) r := by
  have h : Realizes left view (m >>= f) ((Pure.pure ⟨⟩ : StateT τ Option PUnit) >>= fun _ => r) :=
    hm.bind fun _ => hf
  rwa [pure_bind] at h

/-- Spending last. -/
theorem after {f : α → EStateM ε σ α} (hm : Realizes left view m r)
    (hf : ∀ a, Realizes left view (f a) (Pure.pure a)) : Realizes left view (m >>= f) r := by
  have h := hm.bind hf
  rwa [bind_pure] at h

end Realizes

end Exfer.Lib
