import Mathlib.Tactic.Common

/-!
# Invariants of stateful computations

`Safe I m Q E`: from a state that satisfies `I`, the computation `m` ends in a state that
satisfies `I`, with a value in `Q` or with an error in `E`. `Meets P m Q E` is the same with
conditions of their own on the states before and after. The rules follow the constructors of `do`
blocks.
-/

namespace Exfer.Lib

variable {ε σ α β : Type}

/-- A computation goes on after a first part that returns. -/
theorem bind_of_ok {m : EStateM ε σ α} {f : α → EStateM ε σ β} {s s' : σ} {a : α}
    (h : m s = .ok a s') : (m >>= f) s = f a s' := by
  simp only [Bind.bind, EStateM.bind, h]

/-- `m` keeps the invariant `I`, returns values in `Q` and fails with errors in `E`. -/
def Safe (I : σ → Prop) (m : EStateM ε σ α) (Q : α → Prop) (E : ε → Prop) : Prop :=
  ∀ s, I s → match m s with
    | .ok a s' => I s' ∧ Q a
    | .error e s' => I s' ∧ E e

namespace Safe

variable {I : σ → Prop} {Q : α → Prop} {R : β → Prop} {E : ε → Prop}

theorem pure {a : α} (h : Q a) : Safe I (pure a) Q E :=
  fun _ hs => ⟨hs, h⟩

theorem throw {e : ε} (h : E e) : Safe I (throw e) Q E :=
  fun _ hs => ⟨hs, h⟩

theorem bind {m : EStateM ε σ α} {f : α → EStateM ε σ β} (hm : Safe I m Q E)
    (hf : ∀ a, Q a → Safe I (f a) R E) : Safe I (m >>= f) R E := by
  intro s hs
  have h := hm s hs
  simp only [Bind.bind, EStateM.bind]
  split at h
  · rename_i a s' heq
    rw [heq]
    exact hf a h.2 s' h.1
  · rename_i e s' heq
    rw [heq]
    exact h

/-- Reading the state gives one that satisfies the invariant. -/
theorem get : Safe I (MonadStateOf.get : EStateM ε σ σ) I E :=
  fun _ hs => ⟨hs, hs⟩

theorem set {s : σ} (h : I s) : Safe I (MonadStateOf.set s : EStateM ε σ PUnit) (fun _ => True) E :=
  fun _ _ => ⟨h, trivial⟩

theorem modify {f : σ → σ} (h : ∀ s, I s → I (f s)) :
    Safe I (MonadState.modifyGet fun s => (PUnit.unit, f s) : EStateM ε σ PUnit) (fun _ => True) E :=
  fun s hs => ⟨h s hs, trivial⟩

theorem mono {Q' : α → Prop} {m : EStateM ε σ α} (hm : Safe I m Q E) (h : ∀ a, Q a → Q' a) : Safe I m Q' E := by
  intro s hs
  have := hm s hs
  split at this
  · exact ⟨this.1, h _ this.2⟩
  · exact this

/-- A run from a state of the invariant that ends well. -/
theorem of_ok {m : EStateM ε σ α} (hm : Safe I m Q E) {s s' : σ} {a : α} (hs : I s)
    (h : m s = .ok a s') : I s' ∧ Q a := by
  simpa [h] using hm s hs

/-- A run from a state of the invariant that fails. -/
theorem of_error {m : EStateM ε σ α} (hm : Safe I m Q E) {s s' : σ} {e : ε} (hs : I s)
    (h : m s = .error e s') : I s' ∧ E e := by
  simpa [h] using hm s hs

end Safe

/-- From a state in `P`, the computation `m` returns with a value and a state in `Q` or fails with an
error and a state in `E`. -/
def Meets (P : σ → Prop) (m : EStateM ε σ α) (Q : α → σ → Prop) (E : ε → σ → Prop) : Prop :=
  ∀ s, P s → match m s with
    | .ok a s' => Q a s'
    | .error e s' => E e s'

namespace Meets

variable {P : σ → Prop} {Q : α → σ → Prop} {R : β → σ → Prop} {E : ε → σ → Prop}

theorem pure {a : α} (h : ∀ s, P s → Q a s) : Meets P (pure a) Q E :=
  h

theorem throw {e : ε} (h : ∀ s, P s → E e s) : Meets P (throw e) Q E :=
  h

theorem bind {m : EStateM ε σ α} {f : α → EStateM ε σ β} (hm : Meets P m Q E)
    (hf : ∀ a, Meets (Q a) (f a) R E) : Meets P (m >>= f) R E := by
  intro s hs
  have h := hm s hs
  simp only [Bind.bind, EStateM.bind]
  split at h
  · rename_i a s' heq
    rw [heq]
    exact hf a s' h
  · rename_i e s' heq
    rw [heq]
    exact h

theorem mono {Q' : α → σ → Prop} {E' : ε → σ → Prop} {m : EStateM ε σ α} (hm : Meets P m Q E)
    (hQ : ∀ a s, Q a s → Q' a s) (hE : ∀ e s, E e s → E' e s) : Meets P m Q' E' := by
  intro s hs
  have h := hm s hs
  split at h
  · exact hQ _ _ h
  · exact hE _ _ h

/-- Reading the state gives the one the computation goes on in. -/
theorem get {f : σ → EStateM ε σ α} (h : ∀ s, P s → Meets (· = s) (f s) Q E) :
    Meets P (MonadStateOf.get >>= f) Q E :=
  fun s hs => h s hs s rfl

theorem set {s : σ} {Q : PUnit → σ → Prop} (h : Q ⟨⟩ s) : Meets P (MonadStateOf.set s) Q E :=
  fun _ _ => h

theorem modify {f : σ → σ} {Q : PUnit → σ → Prop} (h : ∀ s, P s → Q ⟨⟩ (f s)) :
    Meets P (MonadState.modifyGet fun s => (PUnit.unit, f s) : EStateM ε σ PUnit) Q E :=
  h

end Meets

/-- From a state in `I`, where `m` returns, `m'` returns the same, and the state is in `I` again. -/
def Agrees (I : σ → Prop) (m m' : EStateM ε σ α) : Prop :=
  ∀ ⦃s a s'⦄, I s → m s = .ok a s' → m' s = .ok a s' ∧ I s'

namespace Agrees

variable {I : σ → Prop}

theorem throw (e : ε) (m : EStateM ε σ α) : Agrees I (throw e) m :=
  fun _ _ _ _ h => nomatch h

/-- A computation agrees with itself if it keeps `I`. -/
theorem of_safe {m : EStateM ε σ α} (h : Safe I m (fun _ => True) fun _ => True) : Agrees I m m :=
  fun _ _ _ hs hrun => ⟨hrun, (h.of_ok hs hrun).1⟩

theorem bind {m m' : EStateM ε σ α} {f f' : α → EStateM ε σ β} (hm : Agrees I m m')
    (hf : ∀ a, Agrees I (f a) (f' a)) : Agrees I (m >>= f) (m' >>= f') := by
  intro s b s' hs hrun
  simp only [Bind.bind, EStateM.bind] at hrun ⊢
  cases hfirst : m s with
  | error e t =>
    rw [hfirst] at hrun
    cases hrun
  | ok a t =>
    rw [hfirst] at hrun
    obtain ⟨hm', ht⟩ := hm hs hfirst
    rw [hm']
    exact hf a ht hrun

end Agrees

end Exfer.Lib
