import Mathlib.Data.List.Chain
import Mathlib.Data.Set.Function

/-!
# Chains of items that name their parent

An item has a name and gives the name of its parent. A list is `HashLinked` when each item gives
the one before it as its parent. `Ancestor S i n y` says that `y` is found by starting at the item
called `i` and going `n` times to the parent, among the items of `S`. Where names are not shared
within `S` there is at most one such item (`Ancestor.unique`), and in a linked list it stands `n`
places before the item called `i` (`HashLinked.ancestor`).
-/

namespace Exfer.Lib

variable {α ι : Type*} {name parent : α → ι}

/-- Each item gives the one before it as its parent. -/
def HashLinked (name parent : α → ι) (xs : List α) : Prop :=
  xs.IsChain fun a b => parent b = name a

/-- The `n`-th ancestor of the item called `i`, among the items of `S`. -/
inductive Ancestor (name parent : α → ι) (S : Set α) (i : ι) : Nat → α → Prop
  | self {x : α} : x ∈ S → name x = i → Ancestor name parent S i 0 x
  | parent {n : Nat} {x y : α} : Ancestor name parent S i n x → y ∈ S → name y = parent x →
      Ancestor name parent S i (n + 1) y

/-- Where no two items share a name there is one ancestor at a distance. -/
theorem Ancestor.unique {S : Set α} (hinj : S.InjOn name) {i : ι} {n : Nat} {x y : α}
    (hx : Ancestor name parent S i n x) (hy : Ancestor name parent S i n y) : x = y := by
  induction hx generalizing y with
  | self hx hname =>
    cases hy with
    | self hy hname' => exact hinj hx hy (hname.trans hname'.symm)
  | parent _ hx hname ih =>
    cases hy with
    | parent hchild hy hname' =>
      rw [← ih hchild] at hname'
      exact hinj hx hy (hname.trans hname'.symm)

/-- A linked list is extended by one whose first item gives its last as parent. -/
theorem HashLinked.append {xs ys : List α} (hxs : HashLinked name parent xs)
    (hys : HashLinked name parent ys) (hseam : ∀ x ∈ xs.getLast?, ∀ y ∈ ys.head?, parent y = name x) :
    HashLinked name parent (xs ++ ys) :=
  List.isChain_append.mpr ⟨hxs, hys, hseam⟩

/-- The ancestors of an item of a linked list stand before it. -/
theorem HashLinked.ancestor {S : Set α} {xs : List α} (h : HashLinked name parent xs)
    (hS : ∀ x ∈ xs, x ∈ S) {k : Nat} {x : α} (hk : xs[k]? = some x) :
    ∀ n ≤ k, ∃ y, xs[k - n]? = some y ∧ Ancestor name parent S (name x) n y := by
  intro n hn
  induction n with
  | zero => exact ⟨x, hk, .self (hS x (List.mem_of_getElem? hk)) rfl⟩
  | succ n ih =>
    obtain ⟨y, hy, hchild⟩ := ih (by omega)
    obtain ⟨_, rfl⟩ := List.getElem?_eq_some_iff.mp hy
    have hparent := List.isChain_iff_getElem.mp h (k - (n + 1)) (by omega)
    simp only [show k - (n + 1) + 1 = k - n by omega] at hparent
    exact ⟨_, List.getElem?_eq_getElem (by omega),
      .parent hchild (hS _ (List.getElem_mem _)) hparent.symm⟩

end Exfer.Lib
