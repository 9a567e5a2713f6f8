import Mathlib.Data.List.Forall2

/-!
# Fallible computations

Early exits of a checker (`failIf`, `failOnDuplicate`), and what the success of a sequence of
checks says.
-/

namespace Exfer.Lib

variable {ε α β : Type}

/-- A sequence of two computations succeeds when both do. -/
theorem bind_eq_ok {x : Except ε α} {f : α → Except ε β} {b : β} :
    (x >>= f) = .ok b ↔ ∃ a, x = .ok a ∧ f a = .ok b := by
  cases x with
  | error e =>
    constructor
    · intro h
      cases h
    · rintro ⟨a, h, _⟩
      cases h
  | ok a =>
    constructor
    · exact fun h => ⟨a, rfl, h⟩
    · rintro ⟨_, h, hf⟩
      cases h
      exact hf

/-- A check before a computation leaves its result. -/
theorem seq_eq_ok {x : Except ε PUnit} {y : Except ε β} {b : β} :
    (x >>= fun _ => y) = .ok b ↔ x = .ok () ∧ y = .ok b := by
  rw [bind_eq_ok]
  exact ⟨fun ⟨_, hx, hy⟩ => ⟨hx, hy⟩, fun ⟨hx, hy⟩ => ⟨(), hx, hy⟩⟩

theorem toOption_eq_some {x : Except ε α} {a : α} : x.toOption = some a ↔ x = .ok a := by
  cases x <;> simp [Except.toOption]

/-- A pass over a list succeeds when it does at every element. -/
theorem forM_eq_ok {f : α → Except ε PUnit} {xs : List α} : xs.forM f = .ok () ↔ ∀ x ∈ xs, f x = .ok () := by
  induction xs with
  | nil => simp [pure, Except.pure]
  | cons x xs ih =>
    rw [List.forM, bind_eq_ok, List.forall_mem_cons, ← ih]
    constructor
    · rintro ⟨⟨⟩, hx, hxs⟩
      exact ⟨hx, hxs⟩
    · rintro ⟨hx, hxs⟩
      exact ⟨(), hx, hxs⟩

theorem mapM_eq_ok {f : α → Except ε β} {xs : List α} {ys : List β} :
    xs.mapM f = .ok ys ↔ List.Forall₂ (fun x y => f x = .ok y) xs ys := by
  induction xs generalizing ys with
  | nil =>
    rw [List.mapM_nil, List.forall₂_nil_left_iff]
    constructor
    · intro h
      cases h
      rfl
    · rintro rfl
      rfl
  | cons x xs ih =>
    rw [List.mapM_cons, bind_eq_ok]
    constructor
    · rintro ⟨y, hy, h⟩
      obtain ⟨ys', hys, h⟩ := bind_eq_ok.mp h
      cases h
      exact .cons hy (ih.mp hys)
    · intro h
      cases h with
      | cons hy hys => exact ⟨_, hy, bind_eq_ok.mpr ⟨_, ih.mpr hys, rfl⟩⟩

theorem mapM_congr {f g : α → Except ε β} {xs : List α} (h : ∀ x ∈ xs, f x = g x) : xs.mapM f = xs.mapM g := by
  induction xs with
  | nil => rfl
  | cons x xs ih =>
    rw [List.mapM_cons, List.mapM_cons, h x List.mem_cons_self, ih fun y hy => h y (List.mem_cons_of_mem _ hy)]

theorem exists_mapM {f : α → Except ε β} {xs : List α} (h : ∀ x ∈ xs, ∃ y, f x = .ok y) :
    ∃ ys, xs.mapM f = .ok ys := by
  induction xs with
  | nil => exact ⟨[], rfl⟩
  | cons x xs ih =>
    obtain ⟨⟨y, hy⟩, hxs⟩ := List.forall_mem_cons.mp h
    obtain ⟨ys, hys⟩ := ih hxs
    exact ⟨y :: ys, mapM_eq_ok.mpr (.cons hy (mapM_eq_ok.mp hys))⟩

theorem exists_of_mapM_ok {f : α → Except ε β} {xs : List α} {ys : List β}
    (h : xs.mapM f = .ok ys) : ∀ x ∈ xs, ∃ y ∈ ys, f x = .ok y := by
  have hall := mapM_eq_ok.mp h
  induction hall with
  | nil => exact fun _ h => nomatch h
  | cons hy hys ih =>
    intro x hx
    rcases List.mem_cons.mp hx with rfl | hx
    · exact ⟨_, List.mem_cons_self, hy⟩
    · obtain ⟨y, hmem, hy'⟩ := ih (mapM_eq_ok.mpr hys) x hx
      exact ⟨y, List.mem_cons_of_mem _ hmem, hy'⟩

theorem exists_of_mem_mapM {f : α → Except ε β} {xs : List α} {ys : List β}
    (h : xs.mapM f = .ok ys) : ∀ y ∈ ys, ∃ x ∈ xs, f x = .ok y := by
  have hall := mapM_eq_ok.mp h
  induction hall with
  | nil => exact fun _ h => nomatch h
  | cons hy hys ih =>
    intro y' hy'
    rcases List.mem_cons.mp hy' with rfl | hy'
    · exact ⟨_, List.mem_cons_self, hy⟩
    · obtain ⟨x, hmem, hx⟩ := ih (mapM_eq_ok.mpr hys) y' hy'
      exact ⟨x, List.mem_cons_of_mem _ hmem, hx⟩

/-- A pass without equal results has none at two places of the list. -/
theorem pairwise_of_mapM_nodup {f : α → Except ε β} {xs : List α} {ys : List β}
    (h : xs.mapM f = .ok ys) (hnodup : ys.Nodup) : xs.Pairwise fun x x' => f x ≠ f x' := by
  have hall := mapM_eq_ok.mp h
  induction hall with
  | nil => exact .nil
  | cons hy hys ih =>
    obtain ⟨hnot, hnodup⟩ := List.nodup_cons.mp hnodup
    refine .cons (fun x' hx' heq => ?_) (ih (mapM_eq_ok.mpr hys) hnodup)
    obtain ⟨y', hmem, hy'⟩ := exists_of_mapM_ok (mapM_eq_ok.mpr hys) x' hx'
    rw [← heq, hy] at hy'
    cases hy'
    exact hnot hmem

/-- Fail with `e` when `c` holds. -/
def failIf (c : Prop) [Decidable c] (e : ε) : Except ε Unit :=
  if c then .error e else .ok ()

theorem failIf_eq_ok {c : Prop} [Decidable c] {e : ε} : failIf c e = .ok () ↔ ¬ c := by
  unfold failIf
  split <;> simp_all

theorem failIf_then {c : Prop} [Decidable c] {e : ε} {f : Unit → Except ε β} {b : β} (h : ¬ c)
    (hf : f () = .ok b) : (failIf c e >>= f) = .ok b :=
  bind_eq_ok.mpr ⟨(), failIf_eq_ok.mpr h, hf⟩

/-- Fail at the first element of a list that stands in `seen` or before it in the list. -/
def failOnDuplicate [DecidableEq α] (error : α → ε) : (seen : List α) → List α → Except ε Unit
  | _, [] => .ok ()
  | seen, x :: xs => if x ∈ seen then .error (error x) else failOnDuplicate error (x :: seen) xs

theorem failOnDuplicate_eq_ok [DecidableEq α] {error : α → ε} {seen xs : List α} :
    failOnDuplicate error seen xs = .ok () ↔ xs.Nodup ∧ ∀ x ∈ xs, x ∉ seen := by
  induction xs generalizing seen with
  | nil => simp [failOnDuplicate]
  | cons x xs ih =>
    unfold failOnDuplicate
    split
    · simp_all
    rename_i hx
    rw [ih, List.nodup_cons]
    simp only [List.mem_cons, not_or]
    constructor
    · rintro ⟨hnodup, hseen⟩
      refine ⟨⟨fun hmem => (hseen x hmem).1 rfl, hnodup⟩, ?_⟩
      rintro y (rfl | hy)
      · exact hx
      · exact (hseen y hy).2
    · rintro ⟨⟨hnot, hnodup⟩, hseen⟩
      refine ⟨hnodup, fun y hy => ⟨?_, hseen y (.inr hy)⟩⟩
      rintro rfl
      exact hnot hy

/-! ## Comparison -/

section Under

variable {γ δ ε' : Type} {R : α → β → Prop} {S : γ → δ → Prop}

/-- Where `y` succeeds, `x` succeeds with a related result. -/
def Under (R : α → β → Prop) (x : Except ε α) (y : Except ε' β) : Prop :=
  ∀ b, y = .ok b → ∃ a, x = .ok a ∧ R a b

theorem Under.ok {a : α} {b : β} (h : R a b) : Under R (.ok a : Except ε α) (.ok b : Except ε' β) := by
  intro b' hb
  cases hb
  exact ⟨a, rfl, h⟩

theorem Under.error (x : Except ε α) (e : ε') : Under R x (.error e) :=
  fun _ h => nomatch h

theorem Under.bind {x : Except ε α} {y : Except ε' β} {f : α → Except ε γ} {g : β → Except ε' δ}
    (h : Under R x y) (hfg : ∀ a b, R a b → Under S (f a) (g b)) : Under S (x >>= f) (y >>= g) := by
  intro d hd
  obtain ⟨b, hy, hg⟩ := bind_eq_ok.mp hd
  obtain ⟨a, hx, hab⟩ := h b hy
  obtain ⟨c, hc, hcd⟩ := hfg a b hab d hg
  exact ⟨c, bind_eq_ok.mpr ⟨a, hx, hc⟩, hcd⟩

end Under

/-! ## Errors -/

/-- Every error of a computation satisfies `P`. -/
def Raises (P : ε → Prop) (x : Except ε α) : Prop :=
  ∀ e, x = .error e → P e

namespace Raises

variable {P : ε → Prop}

theorem ok (a : α) : Raises P (.ok a : Except ε α) :=
  fun _ h => nomatch h

theorem error {e : ε} (h : P e) : Raises P (.error e : Except ε α) := by
  intro e' he
  cases he
  exact h

theorem bind {x : Except ε α} {f : α → Except ε β} (hx : Raises P x) (hf : ∀ a, Raises P (f a)) :
    Raises P (x >>= f) := by
  cases x with
  | error e => exact error (hx e rfl)
  | ok a => exact hf a

theorem failIf {c : Prop} [Decidable c] {e : ε} (h : P e) : Raises P (failIf c e) := by
  unfold Exfer.Lib.failIf
  split
  · exact error h
  · exact ok ()

theorem failOnDuplicate [DecidableEq α] {err : α → ε} (h : ∀ x, P (err x)) (seen xs : List α) :
    Raises P (failOnDuplicate err seen xs) := by
  induction xs generalizing seen with
  | nil => exact ok ()
  | cons x xs ih =>
    unfold Exfer.Lib.failOnDuplicate
    split
    · exact error (h x)
    · exact ih _

theorem forM {f : α → Except ε PUnit} (h : ∀ x, Raises P (f x)) (xs : List α) : Raises P (xs.forM f) := by
  induction xs with
  | nil => exact ok ()
  | cons x xs ih => exact bind (h x) fun _ => ih

theorem mapM {f : α → Except ε β} (h : ∀ x, Raises P (f x)) (xs : List α) : Raises P (xs.mapM f) := by
  induction xs with
  | nil => exact ok []
  | cons x xs ih =>
    rw [List.mapM_cons]
    exact bind (h x) fun _ => bind ih fun _ => ok _

end Raises

end Exfer.Lib
