import Exfer.Lib.Delta
import Mathlib.Algebra.BigOperators.Group.Finset.Basic
import Mathlib.Algebra.Order.Ring.Nat

/-!
# Sums over finite maps

`total f m` is the sum of `f` over the values of a map. A change that fits a map moves the total by what
it removes and adds (`Delta.Fits.total_apply`).
-/

namespace Exfer.Lib

variable {α β : Type*} [DecidableEq α] {f : β → Nat} {m : Map α β} {k : α} {v : β}

/-- The sum of `f` over the values of a map. -/
def total (f : β → Nat) (m : Map α β) : Nat :=
  ∑ k ∈ m.keys, (m.lookup k).elim 0 f

theorem total_insert (h : m.lookup k = none) : total f (m.insert k v) = total f m + f v := by
  have hk : k ∉ m.keys := fun hmem => Map.mem_keys_iff.mp hmem h
  unfold total
  rw [Map.keys_insert, Finset.sum_insert hk, Finmap.lookup_insert, Nat.add_comm]
  congr 1
  refine Finset.sum_congr rfl fun k' hk' => ?_
  rw [Map.lookup_insert_eq, if_neg]
  rintro rfl
  exact hk hk'

theorem total_erase (h : m.lookup k = some v) : total f (m.erase k) + f v = total f m := by
  have hback : (m.erase k).insert k v = m := by
    refine Finmap.ext_lookup fun k' => ?_
    rw [Map.lookup_insert_eq, Map.lookup_erase_eq]
    split
    · rename_i hk
      rw [hk, h]
    · rfl
  rw [← total_insert (Finmap.lookup_erase k m), hback]

theorem total_eraseAll {kvs : List (α × β)} (hnodup : (kvs.map Prod.fst).Nodup)
    (hmem : ∀ k v, (k, v) ∈ kvs → m.lookup k = some v) :
    total f (m.eraseAll (kvs.map Prod.fst)) + (kvs.map fun x => f x.2).sum = total f m := by
  induction kvs generalizing m with
  | nil => rfl
  | cons x kvs ih =>
    obtain ⟨hx, hnodup⟩ := List.nodup_cons.mp hnodup
    have hrest : ∀ k v, (k, v) ∈ kvs → (m.erase x.1).lookup k = some v := by
      intro k v hkv
      rw [Map.lookup_erase_eq, if_neg]
      · exact hmem k v (List.mem_cons_of_mem _ hkv)
      · rintro rfl
        exact hx (List.mem_map.mpr ⟨_, hkv, rfl⟩)
    have hhead := total_erase (f := f) (hmem x.1 x.2 List.mem_cons_self)
    have htail := ih hnodup hrest
    rw [List.map_cons, List.map_cons, List.sum_cons]
    change total f (Map.eraseAll (m.erase x.1) (kvs.map Prod.fst)) + _ = _
    omega

theorem total_insertAll {kvs : List (α × β)} (hnodup : (kvs.map Prod.fst).Nodup)
    (hfree : ∀ k ∈ kvs.map Prod.fst, m.lookup k = none) :
    total f (m.insertAll kvs) = total f m + (kvs.map fun x => f x.2).sum := by
  induction kvs generalizing m with
  | nil => rfl
  | cons x kvs ih =>
    obtain ⟨hx, hnodup⟩ := List.nodup_cons.mp hnodup
    have hrest : ∀ k ∈ kvs.map Prod.fst, (m.insert x.1 x.2).lookup k = none := by
      intro k hk
      rw [Map.lookup_insert_eq, if_neg]
      · exact hfree k (List.mem_cons_of_mem _ hk)
      · rintro rfl
        exact hx hk
    have hhead := total_insert (f := f) (v := x.2) (hfree x.1 List.mem_cons_self)
    change total f (Map.insertAll (m.insert x.1 x.2) kvs) = _
    rw [ih hnodup hrest, hhead, List.map_cons, List.sum_cons, Nat.add_assoc]

/-- What a change does to the total. -/
theorem Delta.Fits.total_apply {d : Delta α β} (h : d.Fits m) :
    total f (d.apply m) + (d.removed.map fun x => f x.2).sum =
      total f m + (d.added.map fun x => f x.2).sum := by
  have hremoved := total_eraseAll (f := f) h.removed_nodup h.removed_mem
  have hadded := total_insertAll (f := f) h.added_nodup h.added_free
  rw [Delta.apply, hadded]
  omega

end Exfer.Lib
