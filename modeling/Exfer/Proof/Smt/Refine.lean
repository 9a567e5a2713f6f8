import Exfer.Proof.Smt.Remove

/-!
# The compressed tree refines the naive one

`Holds t m` says that the arena of `t` is in order and that `t` holds exactly the map
`m`. Every operation keeps it, so over any sequence of operations the root is the root
of the uncompressed tree, lookups and the leaf count agree with the map and nothing
panics (`smt_refines_naive`). `StateTree` packages a tree with that invariant, so that
the layers above have operations that cannot fail.
-/

namespace Exfer.Proof

open Lib Impl Spec Impl.SparseMerkleTree

variable [Crypto] {t : SparseMerkleTree} {m : LeafMap}

omit [Crypto] in
/-- Owning a tree depends only on the arena and the free list. -/
theorem Owns.of_eq (h : Owns t T i S R) (ha : t'.arena = t.arena) (hf : t'.free = t.free) : Owns t' T i S R := by
  obtain ⟨hrep, hdisj, hsep⟩ := h
  refine ⟨ha ▸ hrep, hdisj, ha ▸ hsep.pos, hf ▸ hsep.nodup, hf ▸ hsep.free_ne, ?_,
    hf ▸ hsep.free_notMem, ha ▸ hsep.lt⟩
  rw [ha, hf]
  exact hsep.free_lt

/-- The tree `t` is well formed and holds exactly the map `m`. -/
structure Holds (t : SparseMerkleTree) (m : LeafMap) : Prop where
  shape : ∃ T S, Owns t T t.root S ∅ ∧ T.WF 0 (fun _ => false) ∧
    (∀ k, T.get k = m.lookup k) ∧ t.rootHash = T.hash 0
  leafCount : t.leafCount = m.keys.card

theorem holds_new : Holds SparseMerkleTree.new ∅ := by
  refine ⟨⟨.nil, ∅, ⟨⟨rfl, rfl⟩, Finset.disjoint_empty_left _, ?_⟩, Nat.zero_le _, ?_, rfl⟩, rfl⟩
  · exact ⟨by simp [new], List.nodup_nil, by simp [new], by simp [new], by simp [new], by simp⟩
  · intro k
    rw [Tree.get, Finmap.lookup_empty]

theorem Holds.findLeaf (h : Holds t m) (key : Hash256) : t.findLeaf key = some (m.lookup key) := by
  obtain ⟨T, S, own, hw, hget, -⟩ := h.shape
  rw [← hget]
  exact findLeafFrom_eq key own.rep hw (by simp [maxFuel, smtDepth])

theorem Holds.rootHash (h : Holds t m) : t.rootHash = naiveRoot m := by
  obtain ⟨T, S, own, hw, hget, hroot⟩ := h.shape
  rw [hroot, Tree.hash_eq_naive hw, naiveRoot]
  exact Tree.naiveHash_congr (Nat.zero_le _) (Agree.refl _ _) fun k _ => hget k

theorem Holds.insert (h : Holds t m) (key value : Hash256) :
    ∃ t', t.insert key value = some t' ∧ Holds t' (m.insert key value) := by
  have hfind := h.findLeaf key
  obtain ⟨T, S, own, hw, hget, -⟩ := h.shape
  obtain ⟨i', t', T', S', hins, hI⟩ := insertAt_spec key value own hw
    (fun i hi => absurd hi (Nat.not_lt_zero i)) (show 257 ≤ maxFuel + 0 by simp [maxFuel, smtDepth])
  have hx := subtreeHash_eq hI.owns.rep (Nat.zero_le 256)
  refine ⟨{ t' with
      root := i'
      rootHash := T'.hash 0
      leafCount := if (m.lookup key).isSome then t'.leafCount else t'.leafCount + 1 },
    by simp [SparseMerkleTree.insert, hfind, hins, hx],
    ⟨T', S', hI.owns.of_eq rfl rfl, hI.wf, ?_, rfl⟩, ?_⟩
  · intro k
    rw [hI.get, Map.lookup_insert_eq, hget]
  · rw [Map.card_keys_insert, ← h.leafCount, ← hI.keeps.count]

theorem Holds.remove (h : Holds t m) (key : Hash256) : ∃ t', t.remove key = some t' ∧ Holds t' (m.erase key) := by
  have hfind := h.findLeaf key
  rcases hm : m.lookup key with _ | v
  · refine ⟨t, by simp [SparseMerkleTree.remove, hfind, hm], ?_⟩
    rwa [Map.erase_eq_self hm]
  · obtain ⟨T, S, own, hw, hget, -⟩ := h.shape
    have hmem : key ∈ m.keys := Map.mem_keys_iff.mpr (by simp [hm])
    have hpos : 0 < m.keys.card := Finset.card_pos.mpr ⟨key, hmem⟩
    obtain ⟨i', t', T', S', hrem, hI⟩ := removeAt_spec key own hw
      (by simp [hget, hm]) (show 257 ≤ maxFuel + 0 by simp [maxFuel, smtDepth])
    have hx := subtreeHash_eq hI.owns.rep (Nat.zero_le 256)
    have hcount : t'.leafCount ≠ 0 := by
      rw [hI.keeps.count, h.leafCount]
      exact hpos.ne'
    refine ⟨{ t' with root := i', rootHash := T'.hash 0, leafCount := t'.leafCount - 1 },
      by simp [SparseMerkleTree.remove, hfind, hm, hrem, hx, hcount],
      ⟨T', S', hI.owns.of_eq rfl rfl, hI.wf, ?_, rfl⟩, ?_⟩
    · intro k
      rw [hI.get, Map.lookup_erase_eq, hget]
    · rw [Finmap.keys_erase, Finset.card_erase_of_mem hmem, ← h.leafCount, ← hI.keeps.count]

/-! ## Trees that carry their invariant -/

/-- A sparse Merkle tree that holds some map. -/
structure StateTree where
  tree : SparseMerkleTree
  holds : ∃ m, Holds tree m

namespace StateTree

variable {s : StateTree}

/-- The empty tree. -/
def new : StateTree :=
  ⟨SparseMerkleTree.new, ∅, holds_new⟩

/-- `SparseMerkleTree::insert`, which does not panic on a tree that holds a map. -/
def insert (s : StateTree) (key value : Hash256) : StateTree :=
  have h : (s.tree.insert key value).isSome := by
    obtain ⟨m, hm⟩ := s.holds
    obtain ⟨t', ht', -⟩ := hm.insert key value
    rw [ht', Option.isSome_some]
  ⟨(s.tree.insert key value).get h, by
    obtain ⟨m, hm⟩ := s.holds
    obtain ⟨t', ht', hold⟩ := hm.insert key value
    exact ⟨_, by simpa only [ht', Option.get_some] using hold⟩⟩

/-- `SparseMerkleTree::remove`, which does not panic on a tree that holds a map. -/
def remove (s : StateTree) (key : Hash256) : StateTree :=
  have h : (s.tree.remove key).isSome := by
    obtain ⟨m, hm⟩ := s.holds
    obtain ⟨t', ht', -⟩ := hm.remove key
    rw [ht', Option.isSome_some]
  ⟨(s.tree.remove key).get h, by
    obtain ⟨m, hm⟩ := s.holds
    obtain ⟨t', ht', hold⟩ := hm.remove key
    exact ⟨_, by simpa only [ht', Option.get_some] using hold⟩⟩

/-- `SparseMerkleTree::root`. -/
def root (s : StateTree) : Hash256 :=
  s.tree.rootHash

/-- The tree holds exactly the map `m`. -/
def Maps (s : StateTree) (m : LeafMap) : Prop :=
  Holds s.tree m

theorem maps_new : (new : StateTree).Maps ∅ :=
  holds_new

theorem Maps.insert (h : s.Maps m) (key value : Hash256) : (s.insert key value).Maps (m.insert key value) := by
  obtain ⟨t', ht', hold⟩ := Holds.insert h key value
  simpa only [Maps, StateTree.insert, ht', Option.get_some] using hold

theorem Maps.remove (h : s.Maps m) (key : Hash256) : (s.remove key).Maps (m.erase key) := by
  obtain ⟨t', ht', hold⟩ := Holds.remove h key
  simpa only [Maps, StateTree.remove, ht', Option.get_some] using hold

theorem Maps.root_eq (h : s.Maps m) : s.root = naiveRoot m :=
  Holds.rootHash h

end StateTree

/-! ## Runs -/

theorem Holds.onTree (h : Holds t m) (op : SmtOp) : ∃ t', op.onTree t = some t' ∧ Holds t' (op.onMap m) := by
  cases op with
  | insert key value => exact h.insert key value
  | remove key => exact h.remove key

theorem Holds.foldlM (h : Holds t m) (ops : List SmtOp) :
    ∃ t', ops.foldlM SmtOp.onTree t = some t' ∧ Holds t' (ops.foldl SmtOp.onMap m) := by
  induction ops generalizing t m with
  | nil => exact ⟨t, rfl, h⟩
  | cons op ops ih =>
    obtain ⟨t₁, h₁, hold₁⟩ := h.onTree op
    obtain ⟨t₂, h₂, hold₂⟩ := ih hold₁
    exact ⟨t₂, by simp [List.foldlM_cons, h₁, h₂], hold₂⟩

theorem holds_treeAfter (ops : List SmtOp) : ∃ t, treeAfter ops = some t ∧ Holds t (mapAfter ops) :=
  holds_new.foldlM ops

/-- Over every sequence of insertions and removals, the path-compressed tree does not panic,
its root is that of the uncompressed tree that holds the current map, its lookups and its
leaf count are those of the map, and sequences that end in the same map end in the same
root. -/
theorem smt_refines_naive (ops : List SmtOp) : ∃ t, treeAfter ops = some t ∧
      t.rootHash = naiveRoot (mapAfter ops) ∧
      (∀ key, t.findLeaf key = some ((mapAfter ops).lookup key)) ∧
      t.leafCount = (mapAfter ops).keys.card ∧
      ∀ ops' t', treeAfter ops' = some t' → mapAfter ops' = mapAfter ops →
        t'.rootHash = t.rootHash := by
  obtain ⟨t, hrun, h⟩ := holds_treeAfter ops
  refine ⟨t, hrun, h.rootHash, h.findLeaf, h.leafCount, fun ops' t' hrun' hmap => ?_⟩
  obtain ⟨t'', hrun'', h'⟩ := holds_treeAfter ops'
  obtain rfl : t' = t'' := Option.some.inj (hrun'.symm.trans hrun'')
  rw [h'.rootHash, h.rootHash, hmap]

end Exfer.Proof
