import Exfer.Proof.Smt.Tree

/-!
# Trees in the arena

`Rep` says that the arena holds a tree in exactly a set of cells, `Sep` that the free
list avoids a set of live cells, and `Keeps` that a step left a set of cells alone.
Each arena primitive gets one lemma in these terms (`alloc_spec`, `write_spec`,
`freeNode_sep`), and each reading function the value it reads off the tree
(`logicalDepth_eq`, `anyKey_eq`, `subtreeHash_eq`, `findLeafFrom_eq`).
-/

namespace Exfer.Proof

open Lib Impl Spec Impl.SparseMerkleTree

variable {arena : List SmtNode} {t t' : SparseMerkleTree} {i : NodeIdx} {S U R : Finset NodeIdx}
  {T : Tree} {d fuel : Nat} {p : Nat → Bool}

/-- The arena holds the tree at index `i`, in exactly the cells `S`. -/
def Rep (arena : List SmtNode) : Tree → NodeIdx → Finset NodeIdx → Prop
  | .nil, i, S => i = nullIdx ∧ S = ∅
  | .leaf k v, i, S => i ≠ nullIdx ∧ arena[i]? = some (.leaf k v) ∧ S = {i}
  | .branch d l r h, i, S => i ≠ nullIdx ∧ ∃ li ri Sl Sr, arena[i]? = some (.branch d li ri h) ∧
      Rep arena l li Sl ∧ Rep arena r ri Sr ∧ Disjoint Sl Sr ∧ i ∉ Sl ∧ i ∉ Sr ∧
      S = insert i (Sl ∪ Sr)
  | .ext d c pk t h, i, S => i ≠ nullIdx ∧ ∃ ti St, arena[i]? = some (.extension d c pk ti h) ∧
      Rep arena t ti St ∧ i ∉ St ∧ S = insert i St

theorem Rep.congr {arena' : List SmtNode} {t : Tree} (h : Rep arena t i S)
    (hS : ∀ j ∈ S, arena'[j]? = arena[j]?) : Rep arena' t i S := by
  induction t generalizing i S with
  | nil => exact h
  | leaf k v =>
    obtain ⟨hi, hc, rfl⟩ := h
    exact ⟨hi, (hS i (by simp)).trans hc, rfl⟩
  | branch d l r x ihl ihr =>
    obtain ⟨hi, li, ri, Sl, Sr, hc, hl, hr, hd, h1, h2, rfl⟩ := h
    exact ⟨hi, li, ri, Sl, Sr, (hS i (by simp)).trans hc, ihl hl fun j hj => hS j (by simp [hj]),
      ihr hr fun j hj => hS j (by simp [hj]), hd, h1, h2, rfl⟩
  | ext d c pk t x ih =>
    obtain ⟨hi, ti, St, hc, ht, h1, rfl⟩ := h
    exact ⟨hi, ti, St, (hS i (by simp)).trans hc, ih ht fun j hj => hS j (by simp [hj]), h1, rfl⟩

theorem Rep.eq_null_iff {t : Tree} (h : Rep arena t i S) : i = nullIdx ↔ t = .nil := by
  cases t with
  | nil => simp [h.1]
  | leaf k v => simp [h.1]
  | branch d l r x => simp [h.1]
  | ext d c pk t x => simp [h.1]

/-- The free list has no cell twice, lies in the arena, and avoids the live cells `U`. -/
structure Sep (t : SparseMerkleTree) (U : Finset NodeIdx) : Prop where
  pos : 0 < t.arena.length
  nodup : t.free.Nodup
  free_ne : ∀ i ∈ t.free, i ≠ nullIdx
  free_lt : ∀ i ∈ t.free, i < t.arena.length
  free_notMem : ∀ i ∈ t.free, i ∉ U
  lt : ∀ i ∈ U, i < t.arena.length

theorem Sep.mono (h : Sep t U) (hVU : V ⊆ U) : Sep t V :=
  ⟨h.pos, h.nodup, h.free_ne, h.free_lt, fun i hi hv => h.free_notMem i hi (hVU hv),
    fun i hi => h.lt i (hVU hi)⟩

/-- A step from `t` to `t'` left the cells `R` and the leaf count alone. -/
structure Keeps (t t' : SparseMerkleTree) (R : Finset NodeIdx) : Prop where
  cells : ∀ j ∈ R, t'.arena[j]? = t.arena[j]?
  count : t'.leafCount = t.leafCount

theorem Keeps.refl (t : SparseMerkleTree) (R : Finset NodeIdx) : Keeps t t R :=
  ⟨fun _ _ => rfl, rfl⟩

theorem Keeps.trans (h : Keeps t₁ t₂ R) (h' : Keeps t₂ t₃ R) : Keeps t₁ t₃ R :=
  ⟨fun j hj => (h'.cells j hj).trans (h.cells j hj), h'.count.trans h.count⟩

theorem Keeps.mono (h : Keeps t t' R) (hR : R' ⊆ R) : Keeps t t' R' :=
  ⟨fun j hj => h.cells j (hR hj), h.count⟩

theorem Keeps.rep (h : Keeps t t' R) (hS : S ⊆ R) (hrep : Rep t.arena T i S) : Rep t'.arena T i S :=
  hrep.congr fun j hj => h.cells j (hS hj)

/-- A step from `t` to `t'` put `node` into cell `i` and left all others alone. -/
structure Stores (t t' : SparseMerkleTree) (i : NodeIdx) (node : SmtNode) : Prop where
  cell : t'.arena[i]? = some node
  other : ∀ j, j ≠ i → t'.arena[j]? = t.arena[j]?
  count : t'.leafCount = t.leafCount

theorem Stores.keeps (h : Stores t t' i node) (hi : i ∉ R) : Keeps t t' R :=
  ⟨fun j hj => h.other j fun e => hi (e ▸ hj), h.count⟩

/-! ## The arena primitives -/

theorem write_spec (node : SmtNode) (h : Sep t U) (hi : i ∈ U) :
    ∃ t', t.write i node = some t' ∧ Stores t t' i node ∧ Sep t' U := by
  have hlt := h.lt i hi
  refine ⟨_, if_pos hlt, ⟨?_, fun j hj => ?_, rfl⟩, ?_⟩
  · simp [hlt]
  · simp [hj.symm]
  · exact ⟨by simpa using h.pos, h.nodup, h.free_ne, fun j hj => by simpa using h.free_lt j hj,
      h.free_notMem, fun j hj => by simpa using h.lt j hj⟩

theorem alloc_spec (node : SmtNode) (h : Sep t U) :
    ∃ i t', t.alloc node = some (i, t') ∧ i ≠ nullIdx ∧ i ∉ U ∧ Stores t t' i node ∧
      Sep t' (insert i U) := by
  rcases hf : t.free with _ | ⟨i, free⟩
  · refine ⟨t.arena.length, { t with arena := t.arena ++ [node] }, ?_, ?_, ?_, ⟨?_, ?_, rfl⟩, ?_⟩
    · simp [alloc, hf]
    · exact Nat.pos_iff_ne_zero.mp h.pos
    · intro hm
      exact absurd (h.lt _ hm) (lt_irrefl _)
    · simp
    · intro j hj
      simp only [List.getElem?_append, List.getElem?_singleton]
      split <;> grind
    · refine ⟨by simp, by simp [hf], by simp [hf], by simp [hf], by simp [hf], fun j hj => ?_⟩
      rcases Finset.mem_insert.mp hj with rfl | hj
      · simp
      · simpa using Nat.lt_succ_of_lt (h.lt j hj)
  · have hmem : ∀ j ∈ free, j ∈ t.free := fun j hj => by simp [hf, hj]
    have hi : i ∈ t.free := by simp [hf]
    have hlt := h.free_lt i hi
    obtain ⟨hifree, hnodup⟩ := List.nodup_cons.mp (hf ▸ h.nodup)
    refine ⟨i, { t with free, arena := t.arena.set i node }, ?_, h.free_ne i hi,
      h.free_notMem i hi, ⟨?_, fun j hj => ?_, rfl⟩, ?_⟩
    · simp [alloc, hf, write, hlt]
    · simp [hlt]
    · simp [hj.symm]
    · refine ⟨by simpa using h.pos, hnodup, fun j hj => h.free_ne j (hmem j hj),
        fun j hj => by simpa using h.free_lt j (hmem j hj), fun j hj hm => ?_, fun j hj => ?_⟩
      · rcases Finset.mem_insert.mp hm with rfl | hm
        · exact hifree hj
        · exact h.free_notMem j (hmem j hj) hm
      · rcases Finset.mem_insert.mp hj with rfl | hj
        · simpa using hlt
        · simpa using h.lt j hj

theorem freeNode_keeps (t : SparseMerkleTree) (i : NodeIdx) (R : Finset NodeIdx) : Keeps t (t.freeNode i) R := by
  unfold freeNode
  split <;> exact ⟨fun _ _ => rfl, rfl⟩

theorem freeNode_sep (h : Sep t U) (hi : i ∈ U) (hne : i ≠ nullIdx) (hV : V ⊆ U) (hiV : i ∉ V) :
    Sep (t.freeNode i) V := by
  rw [freeNode, if_pos hne]
  refine ⟨h.pos, List.nodup_cons.mpr ⟨fun hf => h.free_notMem i hf hi, h.nodup⟩, ?_, ?_, ?_,
    fun j hj => h.lt j (hV hj)⟩
  · rintro j (_ | ⟨_, hj⟩)
    · exact hne
    · exact h.free_ne j hj
  · rintro j (_ | ⟨_, hj⟩)
    · exact h.lt i hi
    · exact h.free_lt j hj
  · rintro j (_ | ⟨_, hj⟩)
    · exact hiV
    · exact fun hm => h.free_notMem j hj (hV hm)

/-! ## Reading a tree -/

theorem logicalDepth_eq (h : Rep t.arena T i S) : t.logicalDepth i = some T.depth := by
  cases T with
  | nil => simp [logicalDepth, h.1, Tree.depth]
  | leaf k v => simp [logicalDepth, h.1, h.2.1, Tree.depth]
  | branch d l r x =>
    obtain ⟨hi, li, ri, Sl, Sr, hc, -⟩ := h
    simp [logicalDepth, hi, hc, Tree.depth]
  | ext d c pk T x =>
    obtain ⟨hi, ti, St, hc, -⟩ := h
    simp [logicalDepth, hi, hc, Tree.depth]

theorem subtreeHash_eq [Crypto] (h : Rep t.arena T i S) (hd : d ≤ 256) : t.subtreeHash i d = some (T.hash d) := by
  cases T with
  | nil => simp [subtreeHash, h.1, smtDepth, hd, emptyHashesGet, Tree.hash]
  | leaf k v => simp [subtreeHash, h.1, h.2.1, Tree.hash]
  | branch d l r x =>
    obtain ⟨hi, li, ri, Sl, Sr, hc, -⟩ := h
    simp [subtreeHash, hi, hc, Tree.hash]
  | ext d c pk T x =>
    obtain ⟨hi, ti, St, hc, -⟩ := h
    simp [subtreeHash, hi, hc, Tree.hash]

theorem computeBranchHash_eq [Crypto] {L R : Tree} {li ri : NodeIdx} {Sl Sr : Finset NodeIdx}
    (hl : Rep t.arena L li Sl) (hr : Rep t.arena R ri Sr) (hd : d < 256) :
    t.computeBranchHash li ri d = some (nodeHash (L.hash (d + 1)) (R.hash (d + 1))) := by
  simp [computeBranchHash, subtreeHash_eq hl hd, subtreeHash_eq hr hd, nodeHash]

theorem Tree.WF.exists_fuel [Crypto] (h : T.WF d p) (hfuel : 257 ≤ fuel + d) : ∃ f, fuel = f + 1 :=
  ⟨fuel - 1, by have := h.le; omega⟩

theorem anyKey_eq [Crypto] (h : Rep t.arena T i S) (hw : T.WF d p) (hfuel : 257 ≤ fuel + d) :
    t.anyKey fuel i = some T.someKey := by
  induction T generalizing i S d p fuel with
  | nil =>
    obtain ⟨fuel, rfl⟩ := hw.exists_fuel hfuel
    simp [anyKey, h.1, Tree.someKey]
  | leaf k v =>
    obtain ⟨fuel, rfl⟩ := hw.exists_fuel hfuel
    simp [anyKey, h.1, h.2.1, Tree.someKey]
  | branch d' l r x ihl ihr =>
    obtain ⟨fuel, rfl⟩ := hw.exists_fuel hfuel
    obtain ⟨hi, li, ri, Sl, Sr, hc, hl, -⟩ := h
    obtain ⟨rfl, -, hnl, -, hwl, -⟩ := hw
    have hli : li ≠ nullIdx := fun e => hnl (hl.eq_null_iff.mp e)
    have ih' : t.anyKey fuel li = some l.someKey := ihl hl hwl (by omega)
    simp [anyKey, hi, hc, hli, Tree.someKey, ih']
  | ext d' c pk T x ih =>
    obtain ⟨fuel, rfl⟩ := hw.exists_fuel hfuel
    obtain ⟨hi, ti, St, hc, ht, -⟩ := h
    obtain ⟨rfl, hdc, -, -, -, -, hwt, -⟩ := hw
    have ih' : t.anyKey fuel ti = some T.someKey := ih ht hwt (by omega)
    simp [anyKey, hi, hc, Tree.someKey, ih']

/-- `find_leaf` finds exactly what the tree holds. -/
theorem findLeafFrom_eq [Crypto] (key : Hash256) (h : Rep t.arena T i S) (hw : T.WF d p)
    (hfuel : 257 ≤ fuel + d) : t.findLeafFrom key fuel i = some (T.get key) := by
  induction T generalizing i S d p fuel with
  | nil =>
    obtain ⟨fuel, rfl⟩ := hw.exists_fuel hfuel
    simp [findLeafFrom, h.1, Tree.get]
  | leaf k v =>
    obtain ⟨fuel, rfl⟩ := hw.exists_fuel hfuel
    simp [findLeafFrom, h.1, h.2.1, Tree.get]
  | branch d' l r x ihl ihr =>
    obtain ⟨fuel, rfl⟩ := hw.exists_fuel hfuel
    obtain ⟨hi, li, ri, Sl, Sr, hc, hl, hr, -⟩ := h
    obtain ⟨rfl, hd, -, -, hwl, hwr, -⟩ := hw
    cases hb : keyBit key d' with
    | false =>
      have ih : t.findLeafFrom key fuel li = some (l.get key) := ihl hl hwl (by omega)
      simp [findLeafFrom, hi, hc, getBit_eq _ hd, hb, Tree.get, ih]
    | true =>
      have ih : t.findLeafFrom key fuel ri = some (r.get key) := ihr hr hwr (by omega)
      simp [findLeafFrom, hi, hc, getBit_eq _ hd, hb, Tree.get, ih]
  | ext d' c pk T x ih =>
    obtain ⟨fuel, rfl⟩ := hw.exists_fuel hfuel
    obtain ⟨hi, ti, St, hc, ht, -⟩ := h
    obtain ⟨rfl, hdc, hc256, -, -, -, hwt, -⟩ := hw
    obtain ⟨b, hm, hb⟩ := matchesPrefix_eq key pk (n := c - d') (d := d') (by omega)
    have hmatch : b = true ↔ Tree.Matches d' c key pk := by
      rw [hb]
      exact ⟨fun h i hi hdi => h i hdi (by omega), fun h i hdi hi => h i (by omega) hdi⟩
    by_cases hM : Tree.Matches d' c key pk
    · have ih' : t.findLeafFrom key fuel ti = some (T.get key) := ih ht hwt (by omega)
      simp [findLeafFrom, hi, hc, hm, hmatch.mpr hM, Tree.get, hM, ih']
    · have hbf : b = false := by simpa [hM] using hmatch
      simp [findLeafFrom, hi, hc, hm, hbf, Tree.get, hM]

end Exfer.Proof
