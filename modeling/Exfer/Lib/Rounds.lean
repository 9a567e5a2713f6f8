import Mathlib.Data.List.Infix

/-!
# Computations that wait for their surroundings

A computation that asks its surroundings again and again is run on a list of turns, what they do
each time. Its value is `none` where it still waits as the turns end. `Yields` says that it ends
without an error; `rounds` is a loop that takes a turn each time round, with its invariant rule
(`rounds_invariant`).
-/

namespace Exfer.Lib

variable {ε α β σ τ : Type}

/-- The computation ends with a value. -/
def Yields (x : ExceptT ε Option α) (a : α) : Prop :=
  x.run = some (.ok a)

/-- A computation that does not wait. -/
def atOnce (x : Except ε α) : ExceptT ε Option α :=
  ExceptT.mk (some x)

/-- The next turn, and those after it. -/
def nextTurn : List τ → ExceptT ε Option (τ × List τ)
  | [] => ExceptT.mk none
  | turn :: turns => pure (turn, turns)

@[simp]
theorem yields_atOnce {x : Except ε α} {a : α} : Yields (atOnce x) a ↔ x = .ok a :=
  Option.some_inj

@[simp]
theorem yields_pure {a b : α} : Yields (pure a : ExceptT ε Option α) b ↔ a = b := by
  constructor
  · intro h
    cases h
    rfl
  · rintro rfl
    rfl

theorem yields_bind {x : ExceptT ε Option α} {f : α → ExceptT ε Option β} {b : β} :
    Yields (x >>= f) b ↔ ∃ a, Yields x a ∧ Yields (f a) b := by
  constructor
  · intro h
    match x with
    | none => exact absurd h nofun
    | some (.error e) => exact absurd h nofun
    | some (.ok a) => exact ⟨a, rfl, h⟩
  · rintro ⟨a, hx, hf⟩
    change x = some (.ok a) at hx
    rw [hx]
    exact hf

theorem yields_nextTurn {turns rest : List τ} {turn : τ} :
    Yields (nextTurn turns : ExceptT ε Option (τ × List τ)) (turn, rest) ↔
      turns = turn :: rest := by
  cases turns with
  | nil => exact ⟨nofun, nofun⟩
  | cons t ts =>
    rw [nextTurn, yields_pure, Prod.mk.injEq, List.cons.injEq]

/-- A loop that takes a turn each time round. -/
def rounds (going : σ → Prop) [DecidablePred going] (round : τ → σ → Except ε σ) :
    List τ → σ → ExceptT ε Option (σ × List τ)
  | [], s => if going s then ExceptT.mk none else pure (s, [])
  | turn :: turns, s =>
    if going s then do rounds going round turns (← atOnce (round turn s))
    else pure (s, turn :: turns)

section Rounds

variable {going : σ → Prop} [DecidablePred going] {round : τ → σ → Except ε σ}

/-- What every round keeps holds at the end, where the loop does not go on. -/
theorem rounds_invariant {I : σ → Prop} {turns rest : List τ} {s s' : σ}
    (hround : ∀ turn ∈ turns, ∀ s s', I s → going s → round turn s = .ok s' → I s') (hs : I s)
    (h : Yields (rounds going round turns s) (s', rest)) : I s' ∧ ¬ going s' ∧ rest <:+ turns := by
  induction turns generalizing s with
  | nil =>
    rw [rounds] at h
    split at h
    · exact absurd h nofun
    · rename_i hdone
      obtain ⟨rfl, rfl⟩ := Prod.mk.inj (yields_pure.mp h)
      exact ⟨hs, hdone, List.suffix_rfl⟩
  | cons turn turns ih =>
    rw [rounds] at h
    split at h
    · rename_i hgoing
      obtain ⟨s'', hstep, hrest⟩ := yields_bind.mp h
      have hs'' := hround turn List.mem_cons_self s s'' hs hgoing (yields_atOnce.mp hstep)
      obtain ⟨hI, hdone, hsuffix⟩ :=
        ih (fun t ht => hround t (List.mem_cons_of_mem _ ht)) hs'' hrest
      exact ⟨hI, hdone, hsuffix.trans (List.suffix_cons ..)⟩
    · rename_i hdone
      obtain ⟨rfl, rfl⟩ := Prod.mk.inj (yields_pure.mp h)
      exact ⟨hs, hdone, List.suffix_rfl⟩

end Rounds

end Exfer.Lib
