import Exfer.Lib.StackMachine
import Mathlib.Tactic.Abel

/-!
# What a run spends

A computation that spends from an account in its state, with what its result leaves to be spent
(`Spends`): its rules follow the constructors of `do` blocks. If every call of a stack machine spends
within its price, the price of what it calls included, and every frame within what is kept for it, then
a run of a call spends within the price of the call (`spends_of_reaches`).
-/

namespace Exfer.Lib

variable {ε σ α β N : Type} [AddCommMonoid N] [PartialOrder N] (left : σ → N)

/-- From the state `s`, the computation spends at most `n`; a result leaves `after` of it unspent. -/
def SpendsFrom (s : σ) (n : N) (m : EStateM ε σ α) (after : α → N) : Prop :=
  match m s with
  | .ok a s' => left s + after a ≤ left s' + n
  | .error _ s' => left s ≤ left s' + n

/-- From every state, the computation spends at most `n`; a result leaves `after` of it unspent. -/
def Spends (n : N) (m : EStateM ε σ α) (after : α → N) : Prop :=
  ∀ s, SpendsFrom left s n m after

variable {left} [IsOrderedCancelAddMonoid N]

/-- What is left to spend shrinks with what is spent. -/
theorem spent_trans {a b c x y z : N} (h : a + x ≤ b + y) (h' : b + z ≤ c + x) : a + z ≤ c + y := by
  refine le_of_add_le_add_right (a := x + b) ?_
  calc a + z + (x + b) = a + x + (b + z) := by abel
    _ ≤ b + y + (c + x) := add_le_add h h'
    _ = c + y + (x + b) := by abel

section rules

variable {m : EStateM ε σ α} {f : α → EStateM ε σ β} {n n' : N} {after : α → N} {rest : β → N} {s : σ}

section

omit [IsOrderedCancelAddMonoid N]

/-- The judgement as a pre- and postcondition. -/
theorem Spends.of_meets (h : ∀ s, Meets (· = s) m (fun a s' => left s + after a ≤ left s' + n)
    fun _ s' => left s ≤ left s' + n) : Spends left n m after :=
  fun s => h s s rfl

/-- A computation that leaves the account as it is. -/
theorem Spends.of_same [CanonicallyOrderedAdd N]
    (h : ∀ x, Meets (fun s => left s = x) m (fun _ s => left s = x) fun _ s => left s = x) :
    Spends left n m fun _ => n := by
  intro s
  have hs := h (left s) s rfl
  show match m s with
    | .ok _ s' => left s + n ≤ left s' + n
    | .error _ s' => left s ≤ left s' + n
  cases hrun : m s with
  | ok a s' =>
    rw [hrun] at hs
    exact (congrArg (· + n) hs).ge
  | error e s' =>
    rw [hrun] at hs
    exact hs ▸ le_self_add

end

theorem Spends.pure {a : α} (h : after a ≤ n) : Spends (ε := ε) left n (pure a) after :=
  fun s => add_le_add_right h (left s)

omit [IsOrderedCancelAddMonoid N] in
theorem Spends.throw [CanonicallyOrderedAdd N] (e : ε) : Spends left n (throw e : EStateM ε σ α) after :=
  fun _ => le_self_add

theorem SpendsFrom.bind (hm : SpendsFrom left s n m after)
    (hf : ∀ a, Spends left (after a) (f a) rest) : SpendsFrom left s n (m >>= f) rest := by
  unfold SpendsFrom at hm ⊢
  simp only [Bind.bind, EStateM.bind]
  split at hm
  · rename_i a s' hrun
    rw [hrun]
    have hrest := hf a s'
    unfold SpendsFrom at hrest
    dsimp only
    split at hrest
    · exact spent_trans hm hrest
    · have hlast := spent_trans (z := 0) hm (by rwa [add_zero])
      rwa [add_zero] at hlast
  · rename_i e s' hrun
    rw [hrun]
    exact hm

omit [IsOrderedCancelAddMonoid N] in
/-- A computation that fails at once. -/
theorem SpendsFrom.fails [CanonicallyOrderedAdd N] {e : ε} (h : m s = .error e s) :
    SpendsFrom left s n (m >>= f) rest := by
  unfold SpendsFrom
  simp only [Bind.bind, EStateM.bind, h]
  exact le_self_add

theorem Spends.bind (hm : Spends left n m after) (hf : ∀ a, Spends left (after a) (f a) rest) :
    Spends left n (m >>= f) rest :=
  fun s => (hm s).bind hf

theorem Spends.mono (hm : Spends left n m after) (h : n ≤ n') : Spends left n' m after := by
  intro s
  have hs := hm s
  unfold SpendsFrom at hs ⊢
  split at hs
  · exact hs.trans (add_le_add_right h _)
  · exact hs.trans (add_le_add_right h _)

end rules

/-! ## Runs of a stack machine -/

namespace StackMachine

variable {Call Frame : Type} {M : StackMachine ε σ α Call Frame} (price : Call → N) (kept : Frame → N)

/-- What is still to be spent after an outcome. -/
def keptAfter : Outcome α Call Frame → N
  | .ret _ => 0
  | .wait frame c => kept frame + price c
  | .goOn c => price c

/-- What is kept for frames. -/
def keptFor (stack : List Frame) : N :=
  (stack.map kept).sum

/-- What is still to be spent at a point. -/
def keptAt : Config ε σ α Call Frame → N
  | .calling c stack _ => price c + keptFor kept stack
  | .returning _ stack _ => keptFor kept stack
  | .failed _ _ _ => 0

variable {price kept}

omit [PartialOrder N] [IsOrderedCancelAddMonoid N] in
theorem keptAt_after (stack : List Frame) (o : Outcome α Call Frame) (s : σ) :
    keptAt price kept (.after stack (.ok o s) : Config ε σ α Call Frame) =
      keptAfter price kept o + keptFor kept stack := by
  cases o with
  | ret a => exact (zero_add _).symm
  | wait frame c =>
    show price c + (kept frame + keptFor kept stack) = kept frame + price c + keptFor kept stack
    abel
  | goOn c => rfl

variable [CanonicallyOrderedAdd N]

/-- A step within what was still to be spent. -/
theorem spent_after {m : EStateM ε σ (Outcome α Call Frame)} {s s₀ : σ} {n total : N}
    {stack : List Frame} (hm : SpendsFrom left s n m (keptAfter price kept))
    (hs : left s₀ + (n + keptFor kept stack) ≤ left s + total) :
    left s₀ + keptAt price kept (Config.after stack (m s)) ≤
      left (Config.after stack (m s)).state + total := by
  unfold SpendsFrom at hm
  split at hm
  · rename_i o s' hrun
    rw [hrun, keptAt_after]
    have hstate : (Config.after stack (.ok o s') : Config ε σ α Call Frame).state = s' := by
      cases o <;> rfl
    rw [hstate]
    refine spent_trans hs ?_
    rw [← add_assoc, ← add_assoc]
    exact add_le_add_left hm _
  · rename_i e s' hrun
    rw [hrun]
    refine spent_trans hs ?_
    show left s + 0 ≤ left s' + (n + keptFor kept stack)
    rw [add_zero]
    exact hm.trans (add_le_add_right le_self_add _)

/-- A run of a call spends within the price of the call. -/
theorem spends_of_reaches {c : Call} {s : σ} {c₁ : Config ε σ α Call Frame}
    (hcall : ∀ c' stack s', M.Reaches (.calling c [] s) (.calling c' stack s') →
      SpendsFrom left s' (price c') (M.call c') (keptAfter price kept))
    (hresume : ∀ frame a, Spends left (kept frame) (M.resume frame a) (keptAfter price kept))
    (hreach : M.Reaches (.calling c [] s) c₁) : left s + keptAt price kept c₁ ≤ left c₁.state + price c := by
  induction hreach with
  | refl =>
    show left s + (price c + 0) ≤ left s + price c
    rw [add_zero]
  | @tail c₁ c₂ hreach hnext ih =>
    match c₁, hreach, hnext, ih with
    | .calling c' stack s', hreach, hnext, ih =>
      rw [← Option.some.inj hnext]
      exact spent_after (hcall c' stack s' hreach) ih
    | .returning a (frame :: stack) s', hreach, hnext, ih =>
      rw [← Option.some.inj hnext]
      exact spent_after (hresume frame a s') ih

end StackMachine

end Exfer.Lib
