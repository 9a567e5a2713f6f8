import Exfer.Lib.Delta

/-!
# Tables of a relation

A map is the table of a relation if it holds just the pairs that are related (`IsTable`). As the
relation gains and loses pairs, the rows inserted and erased keep the map its table
(`IsTable.insertAll`, `IsTable.extend`, `IsTable.eraseAll`), in whatever order and however often a
row is inserted.
-/

namespace Exfer.Lib.Map

variable {α β : Type*} [DecidableEq α] {m m' : Map α β} {R R' : α → β → Prop}

/-- The map holds exactly the related pairs. -/
def IsTable (m : Map α β) (R : α → β → Prop) : Prop :=
  ∀ k v, m.lookup k = some v ↔ R k v

/-- No key is related to two values. -/
def IsFunctional (R : α → β → Prop) : Prop :=
  ∀ k v v', R k v → R k v' → v = v'

theorem isTable_empty : IsTable (∅ : Map α β) fun _ _ => False := by
  intro k v
  simp

theorem IsTable.congr (h : IsTable m R) (hR : ∀ k v, R k v ↔ R' k v) : IsTable m R' :=
  fun k v => (h k v).trans (hR k v)

theorem IsTable.unique (h : IsTable m R) (h' : IsTable m' R) : m = m' :=
  Finmap.ext_lookup fun k => Option.ext fun v => (h k v).trans (h' k v).symm

omit [DecidableEq α] in
theorem isFunctional_of_nodup {rows : List (α × β)} (h : (rows.map Prod.fst).Nodup) :
    IsFunctional fun k v => (k, v) ∈ rows := by
  intro k v v' hv hv'
  exact congrArg Prod.snd (List.inj_on_of_nodup_map h hv hv' rfl)

omit [DecidableEq α] in
theorem isFunctional_map {ι : Type*} {xs : List ι} {key : ι → α} {value : ι → β}
    (h : ∀ x ∈ xs, ∀ y ∈ xs, key x = key y → x = y) :
    IsFunctional fun k v => (k, v) ∈ xs.map fun x => (key x, value x) := by
  intro k v v' hv hv'
  obtain ⟨x, hx, hxv⟩ := List.mem_map.mp hv
  obtain ⟨y, hy, hyv⟩ := List.mem_map.mp hv'
  cases hxv
  obtain ⟨hkey, rfl⟩ := Prod.mk.inj hyv
  rw [h x hx y hy hkey.symm]

theorem lookup_insertAll_of_isFunctional {rows : List (α × β)} {k : α} {v : β}
    (hrows : IsFunctional fun k v => (k, v) ∈ rows) (h : (k, v) ∈ rows) : (m.insertAll rows).lookup k = some v := by
  induction rows generalizing m v with
  | nil => cases h
  | cons row rows ih =>
    have hrows' : IsFunctional fun k v => (k, v) ∈ rows := fun k v v' hv hv' =>
      hrows k v v' (List.mem_cons_of_mem _ hv) (List.mem_cons_of_mem _ hv')
    change (insertAll (m.insert row.1 row.2) rows).lookup k = _
    by_cases hk : k ∈ rows.map Prod.fst
    · obtain ⟨⟨k', v'⟩, hmem, rfl⟩ := List.mem_map.mp hk
      rw [ih hrows' hmem, hrows _ _ _ (List.mem_cons_of_mem _ hmem) h]
    · rw [lookup_insertAll_of_notMem hk]
      rcases List.mem_cons.mp h with rfl | h
      · rw [lookup_insert_eq, if_pos rfl]
      · exact absurd (List.mem_map_of_mem h) hk

theorem lookup_insertAll_cases (m : Map α β) (rows : List (α × β)) (k : α) :
    (m.insertAll rows).lookup k = m.lookup k ∨
      ∃ v, (k, v) ∈ rows ∧ (m.insertAll rows).lookup k = some v := by
  induction rows generalizing m with
  | nil => exact .inl rfl
  | cons row rows ih =>
    change (insertAll (m.insert row.1 row.2) rows).lookup k = _ ∨
      ∃ v, _ ∧ (insertAll (m.insert row.1 row.2) rows).lookup k = _
    rcases ih (m.insert row.1 row.2) with heq | ⟨v, hmem, heq⟩
    · rw [heq, lookup_insert_eq]
      split
      · rename_i hk
        exact .inr ⟨row.2, hk ▸ List.mem_cons_self, rfl⟩
      · exact .inl rfl
    · exact .inr ⟨v, List.mem_cons_of_mem _ hmem, heq⟩

/-- The new rows replace those with the same keys. -/
theorem IsTable.insertAll {rows : List (α × β)} (h : IsTable m R) (hrows : IsFunctional fun k v => (k, v) ∈ rows)
    (hR : ∀ k v, R' k v ↔ (k, v) ∈ rows ∨ R k v ∧ k ∉ rows.map Prod.fst) : IsTable (m.insertAll rows) R' := by
  intro k v
  rw [hR]
  by_cases hk : k ∈ rows.map Prod.fst
  · obtain ⟨⟨k', v'⟩, hmem, rfl⟩ := List.mem_map.mp hk
    rw [lookup_insertAll_of_isFunctional hrows hmem, Option.some.injEq]
    constructor
    · rintro rfl
      exact .inl hmem
    · rintro (hv | ⟨-, hnot⟩)
      · exact hrows _ _ _ hmem hv
      · exact absurd hk hnot
  · rw [lookup_insertAll_of_notMem hk, h]
    constructor
    · exact fun hv => .inr ⟨hv, hk⟩
    · rintro (hv | ⟨hv, -⟩)
      · exact absurd (List.mem_map_of_mem hv) hk
      · exact hv

/-- Rows that agree with those there are added. -/
theorem IsTable.extend {rows : List (α × β)} (h : IsTable m R) (hfun : IsFunctional R')
    (hR : ∀ k v, R' k v ↔ R k v ∨ (k, v) ∈ rows) : IsTable (m.insertAll rows) R' := by
  refine h.insertAll (fun k v v' hv hv' => hfun k v v' ((hR _ _).mpr (.inr hv)) ((hR _ _).mpr (.inr hv')))
    fun k v => ⟨fun hv => ?_, fun hv => (hR k v).mpr (hv.symm.imp_left And.left)⟩
  rcases (hR k v).mp hv with hold | hrow
  · by_cases hk : k ∈ rows.map Prod.fst
    · obtain ⟨⟨k', v'⟩, hmem, rfl⟩ := List.mem_map.mp hk
      rw [hfun _ _ _ hv ((hR _ _).mpr (.inr hmem))]
      exact .inl hmem
    · exact .inr ⟨hold, hk⟩
  · exact .inl hrow

theorem IsTable.eraseAll {keys : List α} (h : IsTable m R)
    (hR : ∀ k v, R' k v ↔ R k v ∧ k ∉ keys) : IsTable (m.eraseAll keys) R' := by
  intro k v
  rw [lookup_eraseAll, hR, ← h]
  split <;> simp_all

/-- The rows to erase share no key with those that stay. -/
theorem IsTable.eraseRows {rows rest : List (α × β)} {keys : List α}
    (h : IsTable m fun k v => (k, v) ∈ rows ++ rest) (hnodup : ((rows ++ rest).map Prod.fst).Nodup)
    (hkeys : ∀ k, k ∈ keys ↔ k ∈ rows.map Prod.fst) : IsTable (m.eraseAll keys) fun k v => (k, v) ∈ rest := by
  rw [List.map_append, List.nodup_append] at hnodup
  refine h.eraseAll fun k v => ?_
  rw [hkeys, List.mem_append]
  constructor
  · exact fun hv => ⟨.inr hv, fun hk => hnodup.2.2 k hk k (List.mem_map_of_mem hv) rfl⟩
  · rintro ⟨hv | hv, hk⟩
    · exact absurd (List.mem_map_of_mem hv) hk
    · exact hv

end Exfer.Lib.Map
