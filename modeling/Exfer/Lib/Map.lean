import Mathlib.Data.Finmap

/-!
# Finite maps

Non-dependent finite maps, with insertion and erasure as one equation each on lookups.
Two maps with the same lookups are equal (`Finmap.ext_lookup`), so facts about a map are
stated through `lookup`.
-/

namespace Exfer.Lib

/-- A finite map from `α` to `β`. -/
abbrev Map (α β : Type*) := Finmap fun _ : α => β

namespace Map

variable {α β : Type*} [DecidableEq α] {m : Map α β} {k k' : α} {v : β}

theorem lookup_insert_eq : (m.insert k v).lookup k' = if k' = k then some v else m.lookup k' := by
  split
  · rename_i h
    subst h
    exact Finmap.lookup_insert m
  · rename_i h
    exact Finmap.lookup_insert_of_ne m h

theorem lookup_erase_eq : (m.erase k).lookup k' = if k' = k then none else m.lookup k' := by
  split
  · rename_i h
    subst h
    exact Finmap.lookup_erase k' m
  · rename_i h
    exact Finmap.lookup_erase_ne h

theorem erase_eq_self (h : m.lookup k = none) : m.erase k = m := by
  refine Finmap.ext_lookup fun k' => ?_
  rw [lookup_erase_eq]
  split
  · rename_i hk
    rw [hk, h]
  · rfl

theorem mem_keys_iff : k ∈ m.keys ↔ m.lookup k ≠ none := by
  rw [Finmap.mem_keys, ne_eq, Finmap.lookup_eq_none, not_not]

theorem keys_insert : (m.insert k v).keys = insert k m.keys := by
  ext k'
  rw [Finmap.mem_keys, Finmap.mem_insert, Finset.mem_insert, Finmap.mem_keys]

theorem card_keys_insert :
    (m.insert k v).keys.card = if (m.lookup k).isSome then m.keys.card else m.keys.card + 1 := by
  rw [keys_insert]
  split
  · rename_i h
    rw [Finset.insert_eq_of_mem (Finmap.mem_keys.mpr (Finmap.lookup_isSome.mp h))]
  · rename_i h
    rw [Finset.card_insert_of_notMem]
    rwa [Finmap.mem_keys, ← Finmap.lookup_isSome]

theorem mem_foldl_insert {ι : Type*} {key : ι → α} {value : ι → β} {xs : List ι} {m : Map α β} :
    k ∈ xs.foldl (fun m x => m.insert (key x) (value x)) m ↔ k ∈ m ∨ k ∈ xs.map key := by
  induction xs generalizing m with
  | nil => simp
  | cons x xs ih => rw [List.foldl_cons, ih, Finmap.mem_insert, List.map_cons, List.mem_cons]; tauto

end Map

end Exfer.Lib
