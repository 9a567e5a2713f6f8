import Exfer.Proof.Smt.Insert

/-!
# Removal

`removeAt_spec`: removing a key that a well-formed tree holds never panics and leaves a
well-formed tree with the other leaves. A branch that loses a side becomes an extension
over the other (`prependExtension_spec`), and an extension is merged with what the
removal left below it (`tryMergeExtension_spec`).
-/

namespace Exfer.Proof

open Lib Impl Spec Impl.SparseMerkleTree

variable [Crypto] {t : SparseMerkleTree} {T : Tree} {i xi yi : NodeIdx} {S R : Finset NodeIdx}
  {d fuel : Nat} {p : Nat → Bool} {b : Bool} {key x : Hash256}

omit [Crypto] in
/-- Freeing the root cell of a tree of which only `V` stays live. -/
theorem Owns.freeNode (hrep : Rep t.arena T j S) (hdisj : Disjoint S R) (hsep : Sep t U)
    (hi : i ∈ U) (hne : i ≠ nullIdx) (hU : S ∪ R ⊆ U) (hiS : i ∉ S) (hiR : i ∉ R) :
    Owns (t.freeNode i) T j S R := by
  refine ⟨(freeNode_keeps t i S).rep subset_rfl hrep, hdisj, freeNode_sep hsep hi hne hU ?_⟩
  rw [Finset.mem_union, not_or]
  exact ⟨hiS, hiR⟩

/-- The survivor of a branch at depth `d`, lifted from `d + 1` to `d`. -/
theorem prependExtension_spec (h : Owns t T i S R) (hw : T.WF (d + 1) (Function.update p d b)) (hT : T ≠ .nil) :
    ∃ i' t' T' S', t.prependExtension i d = some (i', t') ∧ Owns t' T' i' S' R ∧ Keeps t t' R ∧
      T'.WF d p ∧ T'.get = T.get := by
  have hany : t.anyKey maxFuel i = some T.someKey := anyKey_eq h.rep hw (by simp [maxFuel, smtDepth])
  have hdepth := logicalDepth_eq h.rep
  rw [hw.depth_eq hT] at hdepth
  have hkey := hw.agree_someKey hT
  have hx := subtreeHash_eq h.rep hw.le
  have hd := hw.le
  -- a leaf or a branch gets an extension of its own
  have fresh : T.isExt = false → ∃ i' t' T' S', (do
        let childHash ← t.subtreeHash i (d + 1)
        let h ← foldHash childHash T.someKey d (d + 1)
        t.alloc (.extension d (d + 1) T.someKey i h)) = some (i', t') ∧ Owns t' T' i' S' R ∧
      Keeps t t' R ∧ T'.WF d p ∧ T'.get = T.get := by
    intro hext
    have hfold := foldHash_extHash (T.hash (d + 1)) T.someKey (Nat.le_succ d) hd
    obtain ⟨i', t', ha, own', hk⟩ := allocExt_spec d (d + 1) T.someKey
      (Tree.extHash (T.hash (d + 1)) T.someKey d (d + 1)) h
    refine ⟨i', t', _, _, ?_, own', hk, ?_, hw.get_ext hkey⟩
    · simp [hx, hfold, ha]
    · exact hw.ext hT hext (Nat.lt_succ_self d) hkey (agree_update.mp hkey).1
  cases T with
  | nil => exact absurd rfl hT
  | leaf k v =>
    obtain ⟨i', t', T', S', hrun, hres⟩ := fresh rfl
    refine ⟨i', t', T', S', ?_, hres⟩
    rw [← hrun]
    simp [prependExtension, hany, hdepth, h.rep.2.1]
  | branch d' l r x =>
    obtain ⟨-, li, ri, Sl, Sr, hcell, -⟩ := id h.rep
    obtain ⟨i', t', T', S', hrun, hres⟩ := fresh rfl
    refine ⟨i', t', T', S', ?_, hres⟩
    rw [← hrun]
    simp [prependExtension, hany, hdepth, hcell]
  | ext d' c pk T x =>
    obtain ⟨⟨hi, ti, St, hcell, ht, hit, rfl⟩, hdisj, hsep⟩ := h
    obtain ⟨rfl, hdc, hc, hp, hnT, hext, hwT, -⟩ := hw
    have hxT := subtreeHash_eq ht hc
    have hfold := foldHash_extHash (T.hash c) pk (show d ≤ c by omega) hc
    obtain ⟨t', hwr, hst, hsep'⟩ := write_spec (i := i) (.extension d c pk ti
      (Tree.extHash (T.hash c) pk d c)) hsep (by simp)
    have hiR := (Finset.disjoint_insert_left.mp hdisj).1
    refine ⟨i, t', _, _, ?_, Owns.ext ht hi hit hst hdisj hsep', hst.keeps hiR,
      hwT.ext hnT hext (by omega) (Agree.refl _ _) (agree_update.mp hp).1, ?_⟩
    · simp [prependExtension, hany, hdepth, hcell, hxT, hfold, hwr]
    · rw [hwT.get_ext (Agree.refl _ _), hwT.get_ext (Agree.refl _ _)]

/-- An extension over a changed child `T`, merged with it when it is an extension too. -/
theorem tryMergeExtension_spec (h : Owns t T ti S (insert i R)) (hw : T.WF c (keyBit pk))
    (hT : T ≠ .nil) (hi : i ≠ nullIdx) (hiR : i ∉ R) (hdc : d < c) (hp : Agree d p (keyBit pk)) :
    ∃ i' t' T' S', t.tryMergeExtension i d c pk ti = some (i', t') ∧ Owns t' T' i' S' R ∧
      Keeps t t' R ∧ T'.WF d p ∧ T'.get = T.get := by
  have hc := hw.le
  have hiS := (Finset.disjoint_insert_right.mp h.disj).1
  have hSR := (Finset.disjoint_insert_right.mp h.disj).2
  -- a leaf or a branch stays where it is, below the rewritten extension
  have keep : ∀ k x, T.isExt = false → Agree c (keyBit pk) (keyBit k) →
      x = Tree.extHash (T.hash c) k d c → ∃ t',
        t.write i (.extension d c k ti x) = some t' ∧ Owns t' (.ext d c k T x) i (insert i S) R ∧
        Keeps t t' R ∧ (Tree.ext d c k T x).WF d p ∧ (Tree.ext d c k T x).get = T.get := by
    rintro k x hext hk rfl
    obtain ⟨t', hwr, hst, hsep'⟩ := write_spec (i := i) (.extension d c k ti
      (Tree.extHash (T.hash c) k d c)) h.sep (by simp)
    refine ⟨t', hwr, Owns.ext h.rep hi hiS hst ?_ ?_, hst.keeps hiR,
      hw.ext hT hext hdc hk (hp.trans (hk.mono hdc.le)), hw.get_ext hk⟩
    · exact Finset.disjoint_insert_left.mpr ⟨hiR, hSR⟩
    · rwa [Finset.union_insert, ← Finset.insert_union] at hsep'
  cases T with
  | nil => exact absurd rfl hT
  | leaf k v =>
    obtain ⟨rfl, hk⟩ := id hw
    obtain ⟨t', hwr, hres⟩ := keep k _ rfl hk rfl
    have hx := subtreeHash_eq h.rep le_rfl
    have hfold := foldHash_extHash ((Tree.leaf k v).hash 256) k hdc.le le_rfl
    exact ⟨i, t', _, _, by simp [tryMergeExtension, h.rep.2.1, hx, hfold, hwr], hres⟩
  | branch d' l r x =>
    obtain ⟨-, li, ri, Sl, Sr, hcell, -⟩ := id h.rep
    obtain ⟨t', hwr, hres⟩ := keep pk _ rfl (Agree.refl _ _) rfl
    have hx := subtreeHash_eq h.rep hc
    have hfold := foldHash_extHash ((Tree.branch d' l r x).hash c) pk hdc.le hc
    exact ⟨i, t', _, _, by simp [tryMergeExtension, hcell, hx, hfold, hwr], hres⟩
  | ext d' c' pk' T x =>
    obtain ⟨⟨hti, ui, Su, hcell, hu, hiu, rfl⟩, hdisj, hsep⟩ := h
    obtain ⟨rfl, hdc', hc', hp', hnT, hext, hwT, -⟩ := hw
    rw [Finset.mem_insert, not_or] at hiS
    rw [Finset.disjoint_insert_left] at hSR
    have hxT := subtreeHash_eq hu hc'
    have hfold := foldHash_extHash (T.hash c') pk' (show d ≤ c' by omega) hc'
    have own : Owns (t.freeNode ti) T ui Su (insert i R) := by
      refine Owns.freeNode hu ?_ hsep (by simp) hti ?_ hiu ?_
      · exact Finset.disjoint_insert_right.mpr ⟨hiS.2, hSR.2⟩
      · exact Finset.union_subset_union (Finset.subset_insert _ _) subset_rfl
      · rw [Finset.mem_insert, not_or]
        exact ⟨Ne.symm hiS.1, hSR.1⟩
    obtain ⟨t', hwr, hst, hsep'⟩ := write_spec (i := i) (.extension d c' pk' ui
      (Tree.extHash (T.hash c') pk' d c')) own.sep (by simp)
    rw [Finset.union_insert, ← Finset.insert_union] at hsep'
    refine ⟨i, t', _, _, ?_, Owns.ext own.rep hi hiS.2 hst ?_ hsep', (freeNode_keeps t ti R).trans (hst.keeps hiR),
      hwT.ext hnT hext (by omega) (Agree.refl _ _) (hp.trans (hp'.mono hdc.le)), ?_⟩
    · simp [tryMergeExtension, hcell, hxT, hfold, hwr]
    · exact Finset.disjoint_insert_left.mpr ⟨hiR, hSR.2⟩
    · rw [hwT.get_ext (Agree.refl _ _), hwT.get_ext (Agree.refl _ _)]

/-- What removing `key` from a tree `T` at depth `d` and position `p` returns. -/
structure Removed (t : SparseMerkleTree) (T : Tree) (R : Finset NodeIdx) (d : Nat)
    (p : Nat → Bool) (key : Hash256) (i' : NodeIdx) (t' : SparseMerkleTree) (T' : Tree)
    (S' : Finset NodeIdx) : Prop where
  owns : Owns t' T' i' S' R
  keeps : Keeps t t' R
  wf : T'.WF d p
  get : ∀ k, T'.get k = if k = key then none else T.get k

section

variable (hcell : t.arena[i]? = some (.branch d (if b then yi else xi) (if b then xi else yi) x))
  (hi : i ≠ nullIdx)
include hcell hi

/-- `remove_at` at a branch, with `xi` the child on the key's side and `yi` the other. -/
theorem removeAt_branch_eq (hyi : yi ≠ nullIdx) (hd : d < 256) (hb : keyBit key d = b)
    (hrem : removeAt fuel t xi (d + 1) key = some (xi', t₁)) : removeAt (fuel + 1) t i d key =
      if xi' = nullIdx then (t₁.freeNode i).prependExtension yi d
      else rewriteBranch t₁ i (if b then yi else xi') (if b then xi' else yi) d := by
  have hbit := getBit_eq key hd
  cases b with
  | false =>
    simp only [hb, Bool.false_eq_true, if_false] at hcell hbit
    by_cases hx : xi' = nullIdx <;> simp [removeAt, hi, hcell, hbit, hrem, hx, hyi, rewriteBranch]
  | true =>
    simp only [hb, if_true] at hcell hbit
    by_cases hx : xi' = nullIdx <;> simp [removeAt, hi, hcell, hbit, hrem, hx, hyi, rewriteBranch]

/-- One level of removal at a branch, with `X` the subtree on the key's side. -/
theorem removeAt_branch (hiy : i ∉ Sy) (hRy : Disjoint Sy R) (hiR : i ∉ R) (hy : Rep t.arena Y yi Sy)
    (hny : Y ≠ .nil) (hwy : Y.WF (d + 1) (Function.update p d !b)) (hd : d < 256) (hb : keyBit key d = b)
    (ih : ∃ i' t' X' S', removeAt fuel t xi (d + 1) key = some (i', t') ∧ Removed t X (insert i (Sy
      ∪ R)) (d + 1) (Function.update p d b) key i' t' X' S') :
    ∃ i' t' T' S', removeAt (fuel + 1) t i d key = some (i', t') ∧
      Removed t (Tree.join d b X Y) R d p key i' t' T' S' := by
  obtain ⟨xi', t₁, X', Sx', hrem, hI⟩ := ih
  have hy₁ : Rep t₁.arena Y yi Sy := hI.keeps.rep (fun j hj => by simp [hj]) hy
  have hkeep : Keeps t t₁ R := hI.keeps.mono fun j hj => by simp [hj]
  have hyi : yi ≠ nullIdx := fun e => hny (hy.eq_null_iff.mp e)
  by_cases hX : X' = .nil
  · -- the key's side is gone: its sibling takes the branch's place
    subst hX
    obtain ⟨⟨rfl, rfl⟩, -, hsep⟩ := hI.owns
    rw [Finset.empty_union] at hsep
    have own : Owns (t₁.freeNode i) Y yi Sy R :=
      Owns.freeNode hy₁ hRy hsep (by simp) hi (Finset.subset_insert _ _) hiy hiR
    obtain ⟨i', t', T', S', hpre, own', hk', hw', hget⟩ := prependExtension_spec own hwy hny
    refine ⟨i', t', T', S', ?_, own', (hkeep.trans (freeNode_keeps _ _ _)).trans hk', hw', fun k => ?_⟩
    · rw [removeAt_branch_eq hcell hi hyi hd hb hrem, if_pos rfl, hpre]
    · have hgX := hI.get k
      rw [hget, Tree.join_get]
      by_cases hkb : keyBit k d = b
      · have hgY : Y.get k = none := by
          by_contra hne
          have := (agree_update.mp (hwy.agree_of_get hne)).2
          simp [hkb] at this
        rw [hgY, if_pos hkb]
        exact hgX
      · have hk : k ≠ key := fun e => hkb (e ▸ hb)
        simp [hk, hkb]
  · have hxi : xi' ≠ nullIdx := fun e => hX (hI.owns.rep.eq_null_iff.mp e)
    obtain ⟨t', hwr, own', hk'⟩ :=
      rewriteBranch_spec b hd hI.owns.rep hy₁ hi hiy hRy hiR hI.owns.disj hI.owns.sep
    refine ⟨i, t', _, _, ?_, own', hkeep.trans hk', Tree.join_wf hd hI.wf hwy hX hny, fun k => ?_⟩
    · rw [removeAt_branch_eq hcell hi hyi hd hb hrem, if_neg hxi, hwr]
    · rw [Tree.join_get, Tree.join_get, hI.get]
      by_cases hk : k = key
      · simp [hk, hb]
      · simp [hk]

end

/-- Removing a key that a well-formed tree holds never panics, and drops exactly its leaf. -/
theorem removeAt_spec (key : Hash256) (h : Owns t T i S R) (hw : T.WF d p)
    (hkey : T.get key ≠ none) (hfuel : 257 ≤ fuel + d) :
    ∃ i' t' T' S', removeAt fuel t i d key = some (i', t') ∧ Removed t T R d p key i' t' T' S' := by
  induction T generalizing t i S R d p fuel with
  | nil => exact absurd rfl hkey
  | leaf k v =>
    obtain ⟨fuel, rfl⟩ := hw.exists_fuel hfuel
    obtain ⟨⟨hi, hcell, rfl⟩, hdisj, hsep⟩ := h
    obtain rfl : k = key := by
      by_contra hne
      exact hkey (if_neg hne)
    have own : Owns (t.freeNode i) .nil nullIdx ∅ R :=
      Owns.freeNode ⟨rfl, rfl⟩ (Finset.disjoint_empty_left R) hsep (by simp) hi (by simp)
        (by simp) (Finset.disjoint_singleton_left.mp hdisj)
    refine ⟨nullIdx, t.freeNode i, .nil, ∅, ?_, own, freeNode_keeps t i R, hw.le, fun k' => ?_⟩
    · simp [removeAt, hi, hcell]
    · by_cases hk : k = k' <;> simp [Tree.get, hk]
  | branch d' l r x ihl ihr =>
    obtain ⟨fuel, rfl⟩ := hw.exists_fuel hfuel
    obtain ⟨⟨hi, li, ri, Sl, Sr, hcell, hl, hr, hlr, hil, hir, rfl⟩, hdisj, hsep⟩ := h
    obtain ⟨rfl, hd, hnl, hnr, hwl, hwr, rfl⟩ := hw
    simp only [Finset.disjoint_insert_left, Finset.disjoint_union_left] at hdisj
    obtain ⟨hiR, hlR, hrR⟩ := hdisj
    rw [Tree.get] at hkey
    cases hb : keyBit key d' with
    | false =>
      refine removeAt_branch (X := l) (b := false) hcell hi hir hrR hiR hr hnr hwr hd hb ?_
      refine ihl ⟨hl, by simp [hil, hlr, hlR], ?_⟩ hwl (by simpa [hb] using hkey) (by omega)
      rwa [Finset.union_insert, ← Finset.union_assoc, ← Finset.insert_union]
    | true =>
      refine removeAt_branch (X := r) (b := true) hcell hi hil hlR hiR hl hnl hwl hd hb ?_
      refine ihr ⟨hr, by simp [hir, hlr.symm, hrR], ?_⟩ hwr (by simpa [hb] using hkey) (by omega)
      rwa [Finset.union_insert, ← Finset.union_assoc, Finset.union_comm Sr, ← Finset.insert_union]
  | ext d' c pk T x ih =>
    obtain ⟨fuel, rfl⟩ := hw.exists_fuel hfuel
    obtain ⟨rfl, hdc, hc, hp, hT, hext, hwT, -⟩ := hw
    obtain ⟨⟨hi, ti, St, hcell, ht, hit, rfl⟩, hdisj, hsep⟩ := h
    rw [Finset.disjoint_insert_left] at hdisj
    have own : Owns t T ti St (insert i R) := by
      refine ⟨ht, by simp [hit, hdisj.2], ?_⟩
      rwa [Finset.union_insert, ← Finset.insert_union]
    rw [hwT.get_ext (Agree.refl _ _)] at hkey
    obtain ⟨ti', t₁, T', St', hrem, hI⟩ : ∃ i' t' T' S', removeAt fuel t ti c key = some (i', t') ∧
        Removed t T (insert i R) c (keyBit pk) key i' t' T' S' := ih own hwT hkey (by omega)
    have hkeep : Keeps t t₁ R := hI.keeps.mono fun j hj => by simp [hj]
    by_cases hT' : T' = .nil
    · subst hT'
      obtain ⟨⟨rfl, rfl⟩, -, hsep₁⟩ := hI.owns
      have own' : Owns (t₁.freeNode i) .nil nullIdx ∅ R :=
        Owns.freeNode ⟨rfl, rfl⟩ (Finset.disjoint_empty_left R) hsep₁ (by simp) hi (by simp)
          (by simp) hdisj.1
      refine ⟨nullIdx, _, .nil, ∅, ?_, own', hkeep.trans (freeNode_keeps _ _ _), ?_, ?_⟩
      · simp [removeAt, hi, hcell, hrem]
      · exact le_trans hdc.le hc
      · intro k
        rw [hwT.get_ext (Agree.refl _ _)]
        exact hI.get k
    · have hti' : ti' ≠ nullIdx := fun e => hT' (hI.owns.rep.eq_null_iff.mp e)
      obtain ⟨i', t', T'', S', hmerge, own', hk', hw', hget⟩ :=
        tryMergeExtension_spec hI.owns hI.wf hT' hi hdisj.1 hdc hp
      refine ⟨i', t', T'', S', ?_, own', hkeep.trans hk', hw', fun k => ?_⟩
      · simp [removeAt, hi, hcell, hrem, hti', hmerge]
      · rw [hget, hwT.get_ext (Agree.refl _ _)]
        exact hI.get k

end Exfer.Proof
