import Exfer.Lib.Map

/-!
# Changes of a finite map and their undoing

A `Delta` removes some entries of a map and adds others. It `Fits` a map when the removed
entries are there and the added keys are free, and then undoing it gives the map back
(`Delta.undo_apply`).
-/

namespace Exfer.Lib

variable {α β : Type*} [DecidableEq α]

namespace Map

/-- Erase a list of keys. -/
def eraseAll (m : Map α β) (ks : List α) : Map α β :=
  ks.foldl (fun m k => m.erase k) m

/-- Insert a list of entries. -/
def insertAll (m : Map α β) (kvs : List (α × β)) : Map α β :=
  kvs.foldl (fun m kv => m.insert kv.1 kv.2) m

variable {m : Map α β} {k : α} {v : β}

theorem lookup_eraseAll {ks : List α} : (m.eraseAll ks).lookup k = if k ∈ ks then none else m.lookup k := by
  induction ks generalizing m with
  | nil => simp [eraseAll]
  | cons k' ks ih =>
    change (eraseAll (m.erase k') ks).lookup k = _
    rw [ih, lookup_erase_eq]
    by_cases hk : k = k' <;> by_cases hks : k ∈ ks <;> simp [hk, hks]

theorem lookup_insertAll_of_notMem {kvs : List (α × β)} (h : k ∉ kvs.map Prod.fst) :
    (m.insertAll kvs).lookup k = m.lookup k := by
  induction kvs generalizing m with
  | nil => rfl
  | cons kv kvs ih =>
    rw [List.map_cons, List.mem_cons, not_or] at h
    change (insertAll (m.insert kv.1 kv.2) kvs).lookup k = _
    rw [ih h.2, lookup_insert_eq, if_neg h.1]

theorem lookup_insertAll_of_mem {kvs : List (α × β)} (hnodup : (kvs.map Prod.fst).Nodup)
    (h : (k, v) ∈ kvs) : (m.insertAll kvs).lookup k = some v := by
  induction kvs generalizing m with
  | nil => cases h
  | cons kv kvs ih =>
    rw [List.map_cons, List.nodup_cons] at hnodup
    change (insertAll (m.insert kv.1 kv.2) kvs).lookup k = _
    rcases List.mem_cons.mp h with rfl | h
    · rw [lookup_insertAll_of_notMem hnodup.1, lookup_insert_eq, if_pos rfl]
    · exact ih hnodup.2 h

end Map

/-- Entries removed from a map and entries added to it. -/
structure Delta (α β : Type*) where
  removed : List (α × β)
  added : List (α × β)

namespace Delta

/-- Remove the removed entries, then add the added ones. -/
def apply (d : Delta α β) (m : Map α β) : Map α β :=
  (m.eraseAll (d.removed.map Prod.fst)).insertAll d.added

/-- Remove the added entries, then add the removed ones. -/
def undo (d : Delta α β) (m : Map α β) : Map α β :=
  (m.eraseAll (d.added.map Prod.fst)).insertAll d.removed

/-- The removed entries are in the map and the added keys are free once they are gone. -/
structure Fits (d : Delta α β) (m : Map α β) : Prop where
  removed_nodup : (d.removed.map Prod.fst).Nodup
  removed_mem : ∀ k v, (k, v) ∈ d.removed → m.lookup k = some v
  added_nodup : (d.added.map Prod.fst).Nodup
  added_free : ∀ k ∈ d.added.map Prod.fst, (m.eraseAll (d.removed.map Prod.fst)).lookup k = none

variable {d : Delta α β} {m : Map α β} {k : α} {v : β}

theorem lookup_apply_of_notMem (h : k ∉ d.added.map Prod.fst) :
    (d.apply m).lookup k = if k ∈ d.removed.map Prod.fst then none else m.lookup k := by
  rw [apply, Map.lookup_insertAll_of_notMem h, Map.lookup_eraseAll]

theorem Fits.lookup_added (h : d.Fits m) (hk : (k, v) ∈ d.added) : (d.apply m).lookup k = some v :=
  Map.lookup_insertAll_of_mem h.added_nodup hk

theorem undo_apply (h : d.Fits m) : d.undo (d.apply m) = m := by
  refine Finmap.ext_lookup fun k => ?_
  by_cases hr : k ∈ d.removed.map Prod.fst
  · obtain ⟨⟨k', v⟩, hmem, rfl⟩ := List.mem_map.mp hr
    rw [undo, Map.lookup_insertAll_of_mem h.removed_nodup hmem, h.removed_mem _ _ hmem]
  · rw [undo, Map.lookup_insertAll_of_notMem hr, Map.lookup_eraseAll]
    split
    · rename_i ha
      have := h.added_free k ha
      rw [Map.lookup_eraseAll, if_neg hr] at this
      rw [this]
    · rename_i ha
      rw [lookup_apply_of_notMem ha, if_neg hr]

/-- Where an entry comes from after a change. -/
theorem Fits.lookup_apply (h : d.Fits m) (hk : (d.apply m).lookup k = some v) :
    (k, v) ∈ d.added ∨ (k ∉ d.removed.map Prod.fst ∧ m.lookup k = some v) := by
  by_cases ha : k ∈ d.added.map Prod.fst
  · obtain ⟨⟨k', v'⟩, hmem, rfl⟩ := List.mem_map.mp ha
    rw [h.lookup_added hmem] at hk
    cases hk
    exact .inl hmem
  · rw [lookup_apply_of_notMem ha] at hk
    split at hk
    · cases hk
    · exact .inr ⟨‹_›, hk⟩

end Delta

end Exfer.Lib
