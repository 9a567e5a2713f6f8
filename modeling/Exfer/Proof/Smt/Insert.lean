import Exfer.Proof.Smt.Heap

/-!
# Insertion

`insertAt_spec`: inserting below a well-formed tree never panics and leaves a
well-formed tree that holds the old leaves and the new one. The case of a leaf with
another key cannot occur: leaves sit at depth 256, where the path fixes the key.
-/

namespace Exfer.Proof

open Lib Impl Spec Impl.SparseMerkleTree

/-- The arena holds `T` in the cells `S`, apart from the live cells `R` of the rest. -/
structure Owns (t : SparseMerkleTree) (T : Tree) (i : NodeIdx) (S R : Finset NodeIdx) : Prop where
  rep : Rep t.arena T i S
  disj : Disjoint S R
  sep : Sep t (S ∪ R)

variable [Crypto] {T X Y : Tree} {c d e fuel : Nat} {p : Nat → Bool} {pk x key value : Hash256}
  {t t' : SparseMerkleTree} {i xi yi : NodeIdx} {R S Sy : Finset NodeIdx} {b : Bool}

/-! ## Extensions -/

theorem Tree.WF.get_ext (hw : T.WF c p) (hp : Agree c p (keyBit pk)) : (Tree.ext d c pk T x).get = T.get := by
  funext k
  rw [Tree.get]
  split
  · rfl
  · rename_i hm
    by_contra hne
    refine hm fun i hi _ => ?_
    exact ((hw.agree_of_get (Ne.symm hne)) i hi).symm.trans (hp i hi)

theorem foldHash_extHash (x pk : Hash256) (hdc : d ≤ c) (hc : c ≤ 256) :
    foldHash x pk d c = some (Tree.extHash x pk d c) :=
  foldHash_eq x pk hdc hc

omit [Crypto] in
/-- An extension whose child lies in the arena, once its own cell is written. -/
theorem Owns.ext (ht : Rep t.arena T ti St) (hi : i ≠ nullIdx) (hit : i ∉ St)
    (hst : Stores t t' i (.extension d c pk ti x)) (hR : Disjoint (insert i St) R)
    (hsep : Sep t' (insert i St ∪ R)) : Owns t' (.ext d c pk T x) i (insert i St) R :=
  ⟨⟨hi, ti, St, hst.cell, (hst.keeps hit).rep subset_rfl ht, hit, rfl⟩, hR, hsep⟩

omit [Crypto] in
/-- Allocating an extension above a tree. -/
theorem allocExt_spec (d c : Nat) (pk x : Hash256) (h : Owns t T i S R) :
    ∃ i' t', t.alloc (.extension d c pk i x) = some (i', t') ∧
      Owns t' (.ext d c pk T x) i' (insert i' S) R ∧ Keeps t t' R := by
  obtain ⟨i', t', ha, hne, hnew, hst, hsep⟩ := alloc_spec (.extension d c pk i x) h.sep
  rw [Finset.mem_union, not_or] at hnew
  refine ⟨i', t', ha, Owns.ext h.rep hne hnew.1 hst ?_ ?_, hst.keeps hnew.2⟩
  · exact Finset.disjoint_insert_left.mpr ⟨hnew.2, h.disj⟩
  · rwa [Finset.insert_union]

/-- `wrap_in_extension` lifts a tree at depth `c` to a tree with the same leaves at `d`. -/
theorem wrapInExtension_spec (h : Owns t T i S R) (hw : T.WF c p) (hT : T ≠ .nil)
    (hext : T.isExt = false) (hd : d ≤ c) (hq : Agree d q p) :
    ∃ i' t' T' S', t.wrapInExtension i d = some (i', t') ∧ Owns t' T' i' S' R ∧ Keeps t t' R ∧
      T'.WF d q ∧ T' ≠ .nil ∧ T'.get = T.get := by
  have hdepth := logicalDepth_eq h.rep
  rw [hw.depth_eq hT] at hdepth
  rcases Nat.eq_or_lt_of_le hd with rfl | hdc
  · refine ⟨i, t, T, S, ?_, h, Keeps.refl t R, hw.congr hq.symm, hT, rfl⟩
    simp [wrapInExtension, hdepth]
  · have hkey : Agree c p (keyBit T.someKey) := hw.agree_someKey hT
    have hany : t.anyKey maxFuel i = some T.someKey := anyKey_eq h.rep hw (by simp [maxFuel, smtDepth])
    have hx := subtreeHash_eq h.rep hw.le
    have hfold := foldHash_extHash (T.hash c) T.someKey hd hw.le
    obtain ⟨i', t', ha, ho, hk⟩ :=
      allocExt_spec d c T.someKey (Tree.extHash (T.hash c) T.someKey d c) h
    refine ⟨i', t', _, _, ?_, ho, hk, ?_, by simp, hw.get_ext hkey⟩
    · simp [wrapInExtension, hdepth, hdc, hany, hx, hfold, ha]
    · exact hw.ext hT hext hdc hkey (hq.trans (hkey.mono hd))

/-! ## Branches -/

/-- The branch at depth `e` with `x` on the side of the bit `b` and `y` on the other. -/
def Tree.join (e : Nat) (b : Bool) (x y : Tree) : Tree :=
  let l := if b then y else x
  let r := if b then x else y
  .branch e l r (nodeHash (l.hash (e + 1)) (r.hash (e + 1)))

theorem Tree.join_get (e : Nat) (b : Bool) (x y : Tree) (k : Hash256) :
    (Tree.join e b x y).get k = if keyBit k e = b then x.get k else y.get k := by
  cases b <;> simp [Tree.join, Tree.get]
  split <;> simp_all

theorem Tree.join_wf {x y : Tree} (he : e < 256) (hx : x.WF (e + 1) (Function.update q e b))
    (hy : y.WF (e + 1) (Function.update q e !b)) (hnx : x ≠ .nil) (hny : y ≠ .nil) :
    (Tree.join e b x y).WF e q := by
  cases b with
  | false => exact ⟨rfl, he, hnx, hny, hx, hy, rfl⟩
  | true => exact ⟨rfl, he, hny, hnx, hy, hx, rfl⟩

omit [Crypto] in
/-- A branch whose two subtrees lie in the arena, once its own cell is written. -/
theorem Owns.branch (hl : Rep t.arena L li Sl) (hr : Rep t.arena M ri Sr) (hdisj : Disjoint Sl Sr)
    (hi : i ≠ nullIdx) (hil : i ∉ Sl) (hir : i ∉ Sr) (hst : Stores t t' i (.branch d li ri x))
    (hR : Disjoint (insert i (Sl ∪ Sr)) R) (hsep : Sep t' (insert i (Sl ∪ Sr) ∪ R)) :
    Owns t' (.branch d L M x) i (insert i (Sl ∪ Sr)) R :=
  ⟨⟨hi, li, ri, Sl, Sr, hst.cell, (hst.keeps hil).rep subset_rfl hl,
    (hst.keeps hir).rep subset_rfl hr, hdisj, hil, hir, rfl⟩, hR, hsep⟩

/-- The tail of `insert_at` and `remove_at` at a branch: rewrite it over its two subtrees. -/
def rewriteBranch (t : SparseMerkleTree) (i li ri : NodeIdx) (d : Nat) :
    Option (NodeIdx × SparseMerkleTree) := do
  let h ← t.computeBranchHash li ri d
  let t ← t.write i (.branch d li ri h)
  return (i, t)

/-- Rewriting a branch after the subtree on the side of `b` changed. -/
theorem rewriteBranch_spec (b : Bool) (hd : d < 256) (hx : Rep t.arena X xi Sx)
    (hy : Rep t.arena Y yi Sy) (hi : i ≠ nullIdx) (hiy : i ∉ Sy) (hRy : Disjoint Sy R)
    (hiR : i ∉ R) (hdisj : Disjoint Sx (insert i (Sy ∪ R))) (hsep : Sep t (Sx ∪ insert i (Sy ∪ R))) :
    ∃ t', rewriteBranch t i (if b then yi else xi) (if b then xi else yi) d = some (i, t') ∧
      Owns t' (Tree.join d b X Y) i (insert i (Sx ∪ Sy)) R ∧ Keeps t t' R := by
  simp only [Finset.disjoint_insert_right, Finset.disjoint_union_right] at hdisj
  obtain ⟨hix, hxy, hxR⟩ := hdisj
  have hR : Disjoint (insert i (Sx ∪ Sy)) R := by
    simp [Finset.disjoint_insert_left, hiR, hxR, hRy]
  have hU : Sx ∪ insert i (Sy ∪ R) = insert i (Sx ∪ Sy) ∪ R := by
    rw [Finset.union_insert, Finset.insert_union, Finset.union_assoc]
  obtain ⟨t', hwr, hst, hsep'⟩ := write_spec (i := i) (.branch d (if b then yi else xi)
    (if b then xi else yi) ((Tree.join d b X Y).hash d)) hsep (by simp)
  rw [hU] at hsep'
  refine ⟨t', ?_, ?_, hst.keeps hiR⟩
  · cases b with
    | false => simp_all [rewriteBranch, computeBranchHash_eq hx hy hd, Tree.join, Tree.hash]
    | true => simp_all [rewriteBranch, computeBranchHash_eq hy hx hd, Tree.join, Tree.hash]
  · cases b with
    | false => exact Owns.branch hx hy hxy hi hix hiy hst hR hsep'
    | true =>
      rw [Finset.union_comm Sx Sy] at hR hsep' ⊢
      exact Owns.branch hy hx hxy.symm hi hiy hix hst hR hsep'

/-- Allocating the branch of two trees on the two sides of a bit. -/
theorem allocJoin_spec (he : e < 256) (b : Bool) (hx : Rep t.arena X xi Sx)
    (hy : Rep t.arena Y yi Sy) (hdisj : Disjoint Sx Sy) (hR : Disjoint (Sx ∪ Sy) R) (hsep : Sep t (Sx ∪ Sy ∪ R)) :
    ∃ bi t', t.computeBranchHash (if b then yi else xi) (if b then xi else yi) e =
        some ((Tree.join e b X Y).hash e) ∧
      t.alloc (.branch e (if b then yi else xi) (if b then xi else yi)
        ((Tree.join e b X Y).hash e)) = some (bi, t') ∧
      Owns t' (Tree.join e b X Y) bi (insert bi (Sx ∪ Sy)) R ∧ Keeps t t' R := by
  obtain ⟨bi, t', ha, hne, hnew, hst, hsep'⟩ := alloc_spec
    (.branch e (if b then yi else xi) (if b then xi else yi) ((Tree.join e b X Y).hash e)) hsep
  simp only [Finset.mem_union, not_or] at hnew
  obtain ⟨⟨hbx, hby⟩, hbR⟩ := hnew
  have hRb : Disjoint (insert bi (Sx ∪ Sy)) R := Finset.disjoint_insert_left.mpr ⟨hbR, hR⟩
  rw [← Finset.insert_union] at hsep'
  refine ⟨bi, t', ?_, ha, ?_, hst.keeps hbR⟩
  · cases b with
    | false => exact computeBranchHash_eq hx hy he
    | true => exact computeBranchHash_eq hy hx he
  · cases b with
    | false => exact Owns.branch hx hy hdisj hne hbx hby hst hRb hsep'
    | true =>
      rw [Finset.union_comm Sx Sy] at hRb hsep' ⊢
      exact Owns.branch hy hx hdisj.symm hne hby hbx hst hRb hsep'

/-! ## Inserting -/

/-- The part of an extension below the bit at which an inserted key leaves it. -/
theorem remainingChild_spec (h : Owns t T i S R) (hw : T.WF c (keyBit pk)) (hT : T ≠ .nil)
    (hext : T.isExt = false) (hec : e < c) :
    ∃ i' t' T' S', t.remainingChild c pk i e = some (i', t') ∧ Owns t' T' i' S' R ∧ Keeps t t' R ∧
      T'.WF (e + 1) (keyBit pk) ∧ T' ≠ .nil ∧
      T'.get = fun k => if Tree.Matches (e + 1) c k pk then T.get k else none := by
  by_cases hlt : e + 1 < c
  · have hx := subtreeHash_eq h.rep hw.le
    have hfold := foldHash_extHash (T.hash c) pk hlt.le hw.le
    obtain ⟨i', t', ha, ho, hk⟩ := allocExt_spec (e + 1) c pk (Tree.extHash (T.hash c) pk (e + 1) c) h
    refine ⟨i', t', _, _, ?_, ho, hk, ?_, by simp, rfl⟩
    · simp [remainingChild, hlt, hx, hfold, ha]
    · exact hw.ext hT hext hlt (Agree.refl _ _) (Agree.refl _ _)
  · obtain rfl : e + 1 = c := by omega
    refine ⟨i, t, T, S, by simp [remainingChild], h, Keeps.refl t R, hw, hT, ?_⟩
    have hm : ∀ k, Tree.Matches (e + 1) (e + 1) k pk := fun k i h1 h2 => by omega
    simp [hm]

/-- Splitting an extension at the bit `e`, with the new leaf on one side and the rest of the
extension on the other, adds exactly the new leaf. -/
theorem Tree.get_split (hde : d ≤ e) (hec : e < c)
    (hsame : ∀ j, d ≤ j → j < e → keyBit key j = keyBit pk j) (hdiff : keyBit key e ≠ keyBit pk e)
    (hgw : Tw.get = (Tree.leaf key value).get)
    (hgr : Tr.get = fun k => if Matches (e + 1) c k pk then T.get k else none) (k : Hash256) :
    (if Matches d e k key then (join e (keyBit key e) Tw Tr).get k else none) =
      if k = key then some value else (ext d c pk T x).get k := by
  rw [join_get, hgw, hgr]
  by_cases hk : k = key
  · subst hk
    have hm : Matches d e k k := fun _ _ _ => rfl
    simp [hm, get]
  have hold : (ext d c pk T x).get k = if Matches d c k pk then T.get k else none := rfl
  rw [if_neg hk, hold]
  by_cases hm : Matches d e k key
  · rw [if_pos hm]
    by_cases hb : keyBit k e = keyBit key e
    · have hno : ¬ Matches d c k pk := fun h => hdiff (hb.symm.trans (h e hec hde))
      simp [hb, hno, get, Ne.symm hk]
    · have hbpk : keyBit k e = keyBit pk e := by
        cases h1 : keyBit k e <;> cases h2 : keyBit key e <;> cases h3 : keyBit pk e <;> simp_all
      have hiff : Matches (e + 1) c k pk ↔ Matches d c k pk := by
        refine ⟨fun h j hj hdj => ?_, fun h j hj hej => h j hj (by omega)⟩
        rcases Nat.lt_trichotomy j e with hje | rfl | hje
        · exact (hm j hje hdj).trans (hsame j hdj hje)
        · exact hbpk
        · exact h j hj hje
      simp [hb, hiff]
  · have hno : ¬ Matches d c k pk := by
      intro h
      exact hm fun j hj hdj => (h j (by omega) hdj).trans (hsame j hdj hj).symm
    simp [hm, hno]

/-- Splitting an extension at the bit where the inserted key leaves its prefix. -/
theorem insertSplitExtension_spec (value : Hash256) (h : Owns t (.ext d c pk T x) i S R)
    (hw : (Tree.ext d c pk T x).WF d p) (hkey : Agree d p (keyBit key)) (hde : d ≤ e)
    (hec : e < c) (hsame : ∀ j, d ≤ j → j < e → keyBit key j = keyBit pk j)
    (hdiff : keyBit key e ≠ keyBit pk e) : ∃ ci i' t' T' S', t.arena[i]? = some (.extension d c pk ci x) ∧
      t.insertSplitExtension i d c pk ci e key value = some (i', t') ∧ Owns t' T' i' S' R ∧
      Keeps t t' R ∧ T'.WF d p ∧ T' ≠ .nil ∧
      ∀ k, T'.get k = if k = key then some value else (Tree.ext d c pk T x).get k := by
  obtain ⟨⟨hi, ci, Sc, hcell, hrep, hiSc, rfl⟩, hdisj, hsep⟩ := h
  obtain ⟨-, hdc, hc, hp, hT, hext, hwT, -⟩ := hw
  have hkp : Agree e (keyBit key) (keyBit pk) := by
    intro j hj
    by_cases hjd : j < d
    · exact (hkey j hjd).symm.trans (hp j hjd)
    · exact hsame j (by omega) hj
  rw [Finset.disjoint_insert_left] at hdisj
  -- the new leaf
  obtain ⟨n, t₁, ha₁, hn, hnew, hst₁, hsep₁⟩ := alloc_spec (.leaf key value) hsep
  simp only [Finset.mem_union, Finset.mem_insert, not_or] at hnew
  obtain ⟨⟨hni, hnc⟩, hnR⟩ := hnew
  have own₁ : Owns t₁ T ci Sc (insert n (insert i R)) := by
    refine ⟨(hst₁.keeps hnc).rep subset_rfl hrep, ?_, hsep₁.mono fun j => ?_⟩
    · simp [Finset.disjoint_insert_right, hnc, hiSc, hdisj.2]
    · grind only [= Finset.mem_union, = Finset.mem_insert, = Finset.mem_singleton]
  -- the rest of the old extension
  obtain ⟨ri, t₂, Tr, Sr, hrem, own₂, hk₂, hwr, hnr, hgr⟩ :=
    remainingChild_spec own₁ hwT hT hext hec
  have hSr := own₂.disj
  simp only [Finset.disjoint_insert_right] at hSr
  obtain ⟨hnSr, hiSr, hSrR⟩ := hSr
  have own₂' : Owns t₂ (.leaf key value) n {n} (insert i (Sr ∪ R)) := by
    refine ⟨⟨hn, ?_, rfl⟩, ?_, own₂.sep.mono fun j => ?_⟩
    · exact (hk₂.cells n (by simp)).trans hst₁.cell
    · simp [hni, hnSr, hnR]
    · grind only [= Finset.mem_union, = Finset.mem_insert, = Finset.mem_singleton]
  -- the new leaf, lifted to just below the branch
  obtain ⟨wi, t₃, Tw, Sw, hwrap, own₃, hk₃, hww, hnw, hgw⟩ :=
    wrapInExtension_spec (d := e + 1) (q := keyBit key) own₂' ⟨rfl, Agree.refl _ _⟩ (by simp) rfl
      (by omega) (Agree.refl _ _)
  have hSw := own₃.disj
  simp only [Finset.disjoint_insert_right, Finset.disjoint_union_right] at hSw
  obtain ⟨hiSw, hSwSr, hSwR⟩ := hSw
  have hrep₃ : Rep t₃.arena Tr ri Sr := hk₃.rep (fun j hj => by simp [hj]) own₂.rep
  -- the branch of the two
  obtain ⟨bi, t₄, hbh, ha₄, own₄, hk₄⟩ := allocJoin_spec (R := insert i R) (e := e) (by omega)
    (keyBit key e) own₃.rep hrep₃ hSwSr
    (by simp [Finset.disjoint_insert_right, hiSw, hiSr, hSwR, hSrR])
    (own₃.sep.mono fun j => by grind only [= Finset.mem_union, = Finset.mem_insert])
  have hbool : (!keyBit key e) = keyBit pk e := by
    cases h1 : keyBit key e <;> cases h2 : keyBit pk e <;> simp_all
  have hwB : (Tree.join e (keyBit key e) Tw Tr).WF e (keyBit key) := by
    refine Tree.join_wf (by omega) (hww.congr ?_) (hwr.congr ?_) hnw hnr
    · exact (agree_update.mpr ⟨Agree.refl _ _, rfl⟩).symm
    · exact (agree_update.mpr ⟨hkp, hbool⟩).symm
  have hgB := Tree.get_split (x := x) hde hec hsame hdiff hgw hgr
  have hkeep : Keeps t t₄ R := by
    refine (hst₁.keeps hnR).trans ((hk₂.mono ?_).trans ((hk₃.mono ?_).trans (hk₄.mono ?_))) <;>
    · intro j hj
      simp [hj]
  have hSB := own₄.disj
  rw [Finset.disjoint_insert_right] at hSB
  have hbit := getBit_eq key (show e < 256 by omega)
  have hsides : (if (if keyBit key e then 1 else 0 : UInt8) = 0 then (wi, ri) else (ri, wi)) =
      (if keyBit key e then ri else wi, if keyBit key e then wi else ri) := by
    cases keyBit key e <;> simp
  rcases Nat.eq_or_lt_of_le hde with rfl | hlt
  · refine ⟨ci, bi, t₄.freeNode i, _, _, hcell, ?_, ⟨?_, hSB.2, ?_⟩,
      hkeep.trans (freeNode_keeps _ _ _), hwB.congr hkey.symm, by simp [Tree.join], ?_⟩
    · simp only [insertSplitExtension, Option.bind_eq_bind, Option.bind_some, ha₁, hrem, hbit,
        hwrap, hsides, hbh, ha₄]
      simp
    · exact (freeNode_keeps _ _ _).rep subset_rfl own₄.rep
    · refine freeNode_sep own₄.sep (by simp) hi (fun j => ?_) ?_
      · grind only [= Finset.mem_union, = Finset.mem_insert, = Finset.mem_singleton]
      · rw [Finset.mem_union, not_or]
        exact ⟨hSB.1, hdisj.1⟩
    · intro k
      have hm : Tree.Matches d d k key := fun j _ _ => by omega
      rw [← hgB k, if_pos hm]
  · have hfold := foldHash_extHash ((Tree.join e (keyBit key e) Tw Tr).hash e) key hde (by omega)
    obtain ⟨t₅, hwr₅, hst₅, hsep₅⟩ := write_spec (i := i) (.extension d e key bi
      (Tree.extHash ((Tree.join e (keyBit key e) Tw Tr).hash e) key d e)) own₄.sep (by simp)
    have hwE := hwB.ext (by simp [Tree.join]) rfl hlt (Agree.refl _ _) hkey
    refine ⟨ci, i, t₅, _, _, hcell, ?_, Owns.ext own₄.rep hi hSB.1 hst₅ ?_ ?_,
      hkeep.trans (hst₅.keeps hdisj.1), hwE, by simp, hgB⟩
    · simp only [insertSplitExtension, Option.bind_eq_bind, Option.bind_some, ha₁, hrem, hbit,
        hwrap, hsides, hbh, ha₄]
      simp [hlt, hfold, hwr₅]
    · exact Finset.disjoint_insert_left.mpr ⟨hdisj.1, hSB.2⟩
    · refine hsep₅.mono fun j => ?_
      grind only [= Finset.mem_union, = Finset.mem_insert, = Finset.mem_singleton]

/-- What inserting `key` with `value` below a tree `T` at depth `d` and position `p` returns. -/
structure Inserted (t : SparseMerkleTree) (T : Tree) (R : Finset NodeIdx) (d : Nat)
    (p : Nat → Bool) (key value : Hash256) (i' : NodeIdx) (t' : SparseMerkleTree) (T' : Tree)
    (S' : Finset NodeIdx) : Prop where
  owns : Owns t' T' i' S' R
  keeps : Keeps t t' R
  wf : T'.WF d p
  ne : T' ≠ .nil
  isExt : T ≠ .nil → T.isExt = false → T'.isExt = false
  get : ∀ k, T'.get k = if k = key then some value else T.get k

theorem insertAt_nil (fuel : Nat) (value : Hash256) (h : Owns t .nil i S R) (hd : d ≤ 256)
    (hkey : Agree d p (keyBit key)) : ∃ i' t' T' S', insertAt (fuel + 1) t i d key value = some (i', t') ∧
      Inserted t .nil R d p key value i' t' T' S' := by
  obtain ⟨⟨rfl, rfl⟩, -, hsep⟩ := h
  rw [Finset.empty_union] at hsep
  obtain ⟨n, t₁, ha, hn, hnR, hst, hsep₁⟩ := alloc_spec (.leaf key value) hsep
  have own : Owns t₁ (.leaf key value) n {n} R :=
    ⟨⟨hn, hst.cell, rfl⟩, Finset.disjoint_singleton_left.mpr hnR, by rwa [← Finset.insert_eq]⟩
  obtain ⟨i', t', T', S', hwrap, own', hk, hw, hne, hget⟩ :=
    wrapInExtension_spec own ⟨rfl, Agree.refl _ _⟩ (by simp) rfl hd hkey
  refine ⟨i', t', T', S', ?_, own', (hst.keeps hnR).trans hk, hw, hne, by simp, fun k => ?_⟩
  · simp [insertAt, ha, hwrap]
  · simp [hget, Tree.get, eq_comm]

theorem insertAt_leaf (fuel : Nat) (value : Hash256) (h : Owns t (.leaf k v) i S R)
    (hw : (Tree.leaf k v).WF d p) (hkey : Agree d p (keyBit key)) :
    ∃ i' t' T' S', insertAt (fuel + 1) t i d key value = some (i', t') ∧
      Inserted t (.leaf k v) R d p key value i' t' T' S' := by
  obtain ⟨⟨hi, hcell, rfl⟩, hdisj, hsep⟩ := h
  obtain ⟨rfl, hp⟩ := hw
  -- the path to a leaf fixes all its bits
  obtain rfl : k = key := eq_of_agree (hp.symm.trans hkey)
  obtain ⟨t', hwr, hst, hsep'⟩ := write_spec (i := i) (.leaf k value) hsep (by simp)
  refine ⟨i, t', .leaf k value, {i}, ?_, ⟨⟨hi, hst.cell, rfl⟩, hdisj, hsep'⟩,
    hst.keeps (Finset.disjoint_singleton_left.mp hdisj), ⟨rfl, hp⟩, by simp, fun _ _ => rfl, ?_⟩
  · simp [insertAt, hi, hcell, hwr]
  · intro k'
    by_cases hk : k = k' <;> simp [Tree.get, hk, eq_comm]

section

variable (hcell : t.arena[i]? = some (.branch d (if b then yi else xi) (if b then xi else yi) x))
  (hi : i ≠ nullIdx)
include hcell hi

/-- `insert_at` at a branch, with `xi` the child on the key's side and `yi` the other. -/
theorem insertAt_branch_eq (hd : d < 256) (hb : keyBit key d = b)
    (hins : insertAt fuel t xi (d + 1) key value = some (xi', t₁)) : insertAt (fuel + 1) t i d key value =
      rewriteBranch t₁ i (if b then yi else xi') (if b then xi' else yi) d := by
  have hbit := getBit_eq key hd
  cases b with
  | false =>
    simp only [hb, Bool.false_eq_true, if_false] at hcell hbit
    simp [insertAt, hi, hcell, hbit, hins, rewriteBranch]
  | true =>
    simp only [hb, if_true] at hcell hbit
    simp [insertAt, hi, hcell, hbit, hins, rewriteBranch]

/-- One level of insertion at a branch, with `X` the subtree on the key's side. -/
theorem insertAt_branch (hiy : i ∉ Sy) (hRy : Disjoint Sy R) (hiR : i ∉ R)
    (hy : Rep t.arena Y yi Sy) (hny : Y ≠ .nil) (hwy : Y.WF (d + 1) (Function.update p d !b))
    (hd : d < 256) (hb : keyBit key d = b)
    (ih : ∃ i' t' X' S', insertAt fuel t xi (d + 1) key value = some (i', t') ∧ Inserted t X (insert
      i (Sy ∪ R)) (d + 1) (Function.update p d b) key value i' t' X' S') :
    ∃ i' t' T' S', insertAt (fuel + 1) t i d key value = some (i', t') ∧
      Inserted t (Tree.join d b X Y) R d p key value i' t' T' S' := by
  obtain ⟨xi', t₁, X', Sx', hins, hI⟩ := ih
  have hy₁ : Rep t₁.arena Y yi Sy := hI.keeps.rep (fun j hj => by simp [hj]) hy
  obtain ⟨t', hwr, own', hk'⟩ :=
    rewriteBranch_spec b hd hI.owns.rep hy₁ hi hiy hRy hiR hI.owns.disj hI.owns.sep
  refine ⟨i, t', _, _, ?_, own', (hI.keeps.mono fun j hj => by simp [hj]).trans hk',
    Tree.join_wf hd hI.wf hwy hI.ne hny, by simp [Tree.join], fun _ _ => rfl, fun k => ?_⟩
  · rw [insertAt_branch_eq hcell hi hd hb hins, hwr]
  · rw [Tree.join_get, Tree.join_get, hI.get]
    by_cases hk : k = key
    · simp [hk, hb]
    · simp [hk]

end

/-- Inserting below a well-formed tree never panics, and adds exactly the new leaf. -/
theorem insertAt_spec (key value : Hash256) (h : Owns t T i S R) (hw : T.WF d p)
    (hkey : Agree d p (keyBit key)) (hfuel : 257 ≤ fuel + d) :
    ∃ i' t' T' S', insertAt fuel t i d key value = some (i', t') ∧
      Inserted t T R d p key value i' t' T' S' := by
  induction T generalizing t i S R d p fuel with
  | nil =>
    obtain ⟨fuel, rfl⟩ := hw.exists_fuel hfuel
    exact insertAt_nil fuel value h hw hkey
  | leaf k v =>
    obtain ⟨fuel, rfl⟩ := hw.exists_fuel hfuel
    exact insertAt_leaf fuel value h hw hkey
  | branch d' l r x ihl ihr =>
    obtain ⟨fuel, rfl⟩ := hw.exists_fuel hfuel
    obtain ⟨⟨hi, li, ri, Sl, Sr, hcell, hl, hr, hlr, hil, hir, rfl⟩, hdisj, hsep⟩ := h
    obtain ⟨rfl, hd, hnl, hnr, hwl, hwr, rfl⟩ := hw
    simp only [Finset.disjoint_insert_left, Finset.disjoint_union_left] at hdisj
    obtain ⟨hiR, hlR, hrR⟩ := hdisj
    cases hb : keyBit key d' with
    | false =>
      refine insertAt_branch (X := l) (b := false) hcell hi hir hrR hiR hr hnr hwr hd hb ?_
      refine ihl ⟨hl, by simp [hil, hlr, hlR], ?_⟩ hwl (agree_update.mpr ⟨hkey, hb.symm⟩) (by omega)
      rwa [Finset.union_insert, ← Finset.union_assoc, ← Finset.insert_union]
    | true =>
      refine insertAt_branch (X := r) (b := true) hcell hi hil hlR hiR hl hnl hwl hd hb ?_
      refine ihr ⟨hr, by simp [hir, hlr.symm, hrR], ?_⟩ hwr (agree_update.mpr ⟨hkey, hb.symm⟩)
        (by omega)
      rwa [Finset.union_insert, ← Finset.union_assoc, Finset.union_comm Sr, ← Finset.insert_union]
  | ext d' c pk T x ih =>
    obtain ⟨fuel, rfl⟩ := hw.exists_fuel hfuel
    obtain ⟨rfl, hdc, hc, hp, hT, hext, hwT, -⟩ := id hw
    obtain ⟨e, hdiv, hde, hec, hsame, hdiff⟩ := divergeFrom_spec key pk (n := c - d') (d := d') (by omega)
    rw [show d' + (c - d') = c by omega] at hec hdiff
    rcases Nat.eq_or_lt_of_le hec with rfl | hlt
    · -- the key runs through the whole prefix: insert below
      obtain ⟨⟨hi, ti, St, hcell, ht, hit, rfl⟩, hdisj, hsep⟩ := h
      rw [Finset.disjoint_insert_left] at hdisj
      have hke : Agree e (keyBit pk) (keyBit key) := by
        intro j hj
        by_cases hjd : j < d'
        · exact (hp j hjd).symm.trans (hkey j hjd)
        · exact (hsame j (by omega) hj).symm
      have own : Owns t T ti St (insert i R) := by
        refine ⟨ht, by simp [hit, hdisj.2], ?_⟩
        rwa [Finset.union_insert, ← Finset.insert_union]
      obtain ⟨ti', t₁, T', St', hins, hI⟩ : ∃ i' t' T' S',
          insertAt fuel t ti e key value = some (i', t') ∧
            Inserted t T (insert i R) e (keyBit pk) key value i' t' T' S' :=
        ih own hwT hke (by omega)
      have hS := hI.owns.disj
      rw [Finset.disjoint_insert_right] at hS
      have hx := subtreeHash_eq hI.owns.rep hc
      have hfold := foldHash_extHash (T'.hash e) pk hdc.le hc
      obtain ⟨t', hwr, hst, hsep'⟩ := write_spec (i := i) (.extension d' e pk ti'
        (Tree.extHash (T'.hash e) pk d' e)) hI.owns.sep (by simp)
      rw [Finset.union_insert, ← Finset.insert_union] at hsep'
      refine ⟨i, t', _, _, ?_, Owns.ext hI.owns.rep hi hS.1 hst ?_ hsep',
        (hI.keeps.mono fun j hj => by simp [hj]).trans (hst.keeps hdisj.1),
        hI.wf.ext hI.ne (hI.isExt hT hext) hdc (Agree.refl _ _) hp, by simp, by simp [Tree.isExt], ?_⟩
      · simp [insertAt, hi, hcell, hdiv, hins, hx, hfold, hwr]
      · exact Finset.disjoint_insert_left.mpr ⟨hdisj.1, hS.2⟩
      · intro k
        have hm : Tree.Matches d' e key pk := fun j hj hdj => hsame j hdj hj
        by_cases hk : k = key
        · subst hk
          simp [Tree.get, hm, hI.get]
        · simp [Tree.get, hk, hI.get]
    · obtain ⟨ci, i', t', T', S', hcell, hins, own', hk', hw', hne, hget⟩ :=
        insertSplitExtension_spec value h hw hkey hde hlt hsame (hdiff hlt)
      have hi : i ≠ nullIdx := fun e => by simpa using h.rep.eq_null_iff.mp e
      refine ⟨i', t', T', S', ?_, own', hk', hw', hne, by simp [Tree.isExt], hget⟩
      simp [insertAt, hi, hcell, hdiv, hlt.ne, hins]

end Exfer.Proof
