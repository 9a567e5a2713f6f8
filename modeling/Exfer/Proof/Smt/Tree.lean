import Exfer.Proof.Smt.Bits

/-!
# The compressed tree without its arena

The shape of a path-compressed tree as a value, and what it means for it to be well
formed below a position. Depths, prefixes and cached digests are constrained locally;
`Tree.hash_eq_naive` derives from that that the digest of a well-formed tree is the
digest of the uncompressed tree with the same leaves.
-/

namespace Exfer.Proof

open Lib Impl Spec

/-- A path-compressed tree. -/
inductive Tree where
  | nil
  | leaf (key value : Hash256)
  | branch (d : Nat) (left right : Tree) (hash : Hash256)
  | ext (d c : Nat) (pk : Hash256) (child : Tree) (hash : Hash256)

namespace Tree

/-- The keys `a` and `b` agree on the bits `[d, c)`. -/
def Matches (d c : Nat) (a b : Hash256) : Prop :=
  ∀ i < c, d ≤ i → keyBit a i = keyBit b i

instance (d c : Nat) (a b : Hash256) : Decidable (Matches d c a b) :=
  inferInstanceAs (Decidable (∀ i < c, d ≤ i → keyBit a i = keyBit b i))

/-- The value stored at a key. -/
def get : Tree → Hash256 → Option Hash256
  | nil, _ => none
  | leaf k v, key => if k = key then some v else none
  | branch d l r _, key => if keyBit key d then r.get key else l.get key
  | ext d c pk t _, key => if Matches d c key pk then t.get key else none

/-- Whether the root of the tree is an extension. -/
def isExt : Tree → Bool
  | ext _ _ _ _ _ => true
  | _ => false

/-- The depth recorded in the root of the tree. -/
def depth : Tree → Nat
  | nil => 0
  | leaf _ _ => 256
  | branch d _ _ _ => d
  | ext d _ _ _ _ => d

/-- The key of the leftmost leaf. -/
def someKey : Tree → Hash256
  | nil => Hash256.zero
  | leaf k _ => k
  | branch _ l _ _ => l.someKey
  | ext _ _ _ t _ => t.someKey

section Hash

variable [Crypto] {t : Tree} {d c : Nat} {p q : Nat → Bool} {pk : Hash256}
  {f : Hash256 → Option Hash256}

/-- The digest recorded in the root of a tree at depth `d`. -/
def hash : Tree → Nat → Hash256
  | nil, d => emptyHashes (256 - d)
  | leaf _ v, _ => v
  | branch _ _ _ h, _ => h
  | ext _ _ _ _ h, _ => h

/-- The digest of an extension over the bits `[d, c)` of `pk` above a subtree's digest. -/
def extHash (x pk : Hash256) (d c : Nat) : Hash256 :=
  pathHash nodeHash Hash256.zero x (256 - c) (keyBit pk) (c - d) d

/-- A tree is well formed at depth `d` below the position `p`: its nodes sit at the depths
they record, its leaves lie below `p`, no extension is empty or follows an extension, and
every node caches the digest of its children's digests. -/
def WF : Tree → Nat → (Nat → Bool) → Prop
  | nil, d, _ => d ≤ 256
  | leaf k _, d, p => d = 256 ∧ Agree 256 p (keyBit k)
  | branch d' l r h, d, p => d' = d ∧ d < 256 ∧ l ≠ nil ∧ r ≠ nil ∧
      l.WF (d + 1) (Function.update p d false) ∧ r.WF (d + 1) (Function.update p d true) ∧
      h = nodeHash (l.hash (d + 1)) (r.hash (d + 1))
  | ext d' c pk t h, d, p => d' = d ∧ d < c ∧ c ≤ 256 ∧ Agree d p (keyBit pk) ∧ t ≠ nil ∧
      t.isExt = false ∧ t.WF c (keyBit pk) ∧ h = extHash (t.hash c) pk d c

/-- Being well formed depends on the position only through the bits above the tree. -/
theorem WF.congr (h : t.WF d p) (hpq : Agree d p q) : t.WF d q := by
  induction t generalizing d p q with
  | nil => exact h
  | leaf k v =>
    obtain ⟨rfl, hk⟩ := h
    exact ⟨rfl, hpq.symm.trans hk⟩
  | branch d' l r x ihl ihr =>
    obtain ⟨rfl, hd, hl, hr, hwl, hwr, hx⟩ := h
    exact ⟨rfl, hd, hl, hr, ihl hwl (hpq.update false), ihr hwr (hpq.update true), hx⟩
  | ext d' c pk t x ih =>
    obtain ⟨rfl, hdc, hc, hp, ht, hext, hw, hx⟩ := h
    exact ⟨rfl, hdc, hc, hpq.symm.trans hp, ht, hext, hw, hx⟩

theorem WF.le (h : t.WF d p) : d ≤ 256 := by
  cases t with
  | nil => exact h
  | leaf k v => exact h.1.le
  | branch d' l r x => exact h.2.1.le
  | ext d' c pk t x => exact le_trans h.2.1.le h.2.2.1

/-- A well-formed tree that is not an extension sits at the depth it records. -/
theorem WF.depth_eq (h : t.WF d p) (ht : t ≠ nil) : t.depth = d := by
  cases t with
  | nil => exact absurd rfl ht
  | leaf k v => exact h.1.symm
  | branch d' l r x => exact h.1
  | ext d' c pk t x => exact h.1

/-- Every leaf lies below the position of the tree. -/
theorem WF.agree_of_get (h : t.WF d p) (hk : t.get k ≠ none) : Agree d p (keyBit k) := by
  induction t generalizing d p with
  | nil => exact absurd rfl hk
  | leaf k' v =>
    obtain ⟨rfl, hp⟩ := h
    by_cases hkk : k' = k
    · exact hkk ▸ hp
    · exact absurd (if_neg hkk) hk
  | branch d' l r x ihl ihr =>
    obtain ⟨rfl, -, -, -, hwl, hwr, -⟩ := h
    rw [get] at hk
    split at hk
    · exact (agree_update.mp (ihr hwr hk)).1
    · exact (agree_update.mp (ihl hwl hk)).1
  | ext d' c pk t x ih =>
    obtain ⟨rfl, hdc, -, hp, -, -, hw, -⟩ := h
    rw [get] at hk
    split at hk
    · exact hp.trans ((ih hw hk).mono hdc.le)
    · exact absurd rfl hk

theorem WF.agree_someKey (h : t.WF d p) (ht : t ≠ nil) : Agree d p (keyBit t.someKey) := by
  induction t generalizing d p with
  | nil => exact absurd rfl ht
  | leaf k v => exact h.1 ▸ h.2
  | branch d' l r x ihl _ =>
    obtain ⟨rfl, -, hl, -, hwl, -, -⟩ := h
    exact (agree_update.mp (ihl hwl hl)).1
  | ext d' c pk t x ih =>
    obtain ⟨rfl, hdc, -, hp, ht', -, hw, -⟩ := h
    exact hp.trans ((ih hw ht').mono hdc.le)

/-- An extension from `d` above a tree that is not an extension. -/
theorem WF.ext (h : t.WF c p) (ht : t ≠ nil) (hext : t.isExt = false) (hdc : d < c)
    (hp : Agree c p (keyBit pk)) (hq : Agree d q (keyBit pk)) : (ext d c pk t (extHash (t.hash c) pk d c)).WF d q :=
  ⟨rfl, hdc, h.le, hq, ht, hext, h.congr hp, rfl⟩

/-! ## The digest of a well-formed tree -/

theorem naiveHash_congr (hd : d ≤ 256) (hpq : Agree d p q)
    (h : ∀ k, Agree d p (keyBit k) → f k = g k) : naiveHash f d p = naiveHash g d q := by
  refine treeHash_congr hpq fun p' q' h1 h2 => ?_
  rw [smtDepth, show d + (256 - d) = 256 by omega] at h1
  have hk : keyOfBits p' = keyOfBits q' :=
    keyOfBits_eq_iff.mpr fun i hi => (h1 i hi).trans (keyBit_keyOfBits q' hi).symm
  have hp' : Agree d p (keyBit (keyOfBits p')) :=
    h2.trans fun i hi => (keyBit_keyOfBits p' (by omega)).symm
  rw [naiveLeaf, naiveLeaf, h _ hp', hk]

theorem naiveHash_branch (hd : d < 256) :
    naiveHash f d p = nodeHash (naiveHash f (d + 1) (Function.update p d false))
      (naiveHash f (d + 1) (Function.update p d true)) := by
  rw [naiveHash, smtDepth, show 256 - d = 256 - (d + 1) + 1 by omega]
  rfl

theorem naiveHash_ext (hdc : d ≤ c) (hc : c ≤ 256) (hp : Agree d p (keyBit pk))
    (hf : ∀ k, Agree d p (keyBit k) → ¬ Matches d c k pk → f k = none) :
    naiveHash f d p = extHash (naiveHash f c (keyBit pk)) pk d c := by
  have hsub : smtDepth - d = 256 - c + (c - d) := by
    rw [smtDepth]
    omega
  have hcd : d + (c - d) = c := by omega
  rw [naiveHash, hsub, extHash, naiveHash, smtDepth]
  refine (treeHash_path hp ?_ ?_).trans (by rw [hcd])
  · intro p' q' h
    rw [hcd, show c + (256 - c) = 256 by omega] at h
    have hk : keyOfBits p' = keyOfBits q' :=
      keyOfBits_eq_iff.mpr fun i hi => (h i hi).trans (keyBit_keyOfBits q' hi).symm
    rw [naiveLeaf, naiveLeaf, hk]
  · intro p' h1 h2
    rw [hcd] at h2
    have bits : ∀ i < c, keyBit (keyOfBits p') i = p' i :=
      fun i hi => keyBit_keyOfBits p' (by omega)
    rw [naiveLeaf, hf, Option.getD_none]
    · exact fun i hi => (h1 i hi).trans (bits i (by omega)).symm
    · intro hm
      refine h2 fun i hi => ?_
      by_cases hid : i < d
      · exact (hp i hid).symm.trans (h1 i hid)
      · exact (hm i hi (by omega)).symm.trans (bits i hi)

/-- The digest a well-formed tree records is that of the uncompressed tree with the same
leaves. -/
theorem hash_eq_naive (h : t.WF d p) : t.hash d = naiveHash t.get d p := by
  induction t generalizing d p with
  | nil =>
    rw [hash, emptyHashes_eq, naiveHash]
    exact (treeHash_empty fun _ _ => rfl).symm
  | leaf k v =>
    obtain ⟨rfl, hp⟩ := h
    rw [naiveHash, smtDepth, Nat.sub_self, treeHash, naiveLeaf, keyOfBits_eq_iff.mpr hp]
    simp [hash, get]
  | branch d' l r x ihl ihr =>
    obtain ⟨rfl, hd, -, -, hwl, hwr, hx⟩ := h
    rw [hash, hx, ihl hwl, ihr hwr, naiveHash_branch hd]
    congr 1
    · refine naiveHash_congr hd (Agree.refl _ _) fun k hk => ?_
      simp [get, ← (agree_update.mp hk).2]
    · refine naiveHash_congr hd (Agree.refl _ _) fun k hk => ?_
      simp [get, ← (agree_update.mp hk).2]
  | ext d' c pk t x ih =>
    obtain ⟨rfl, hdc, hc, hp, -, -, hw, hx⟩ := h
    rw [hash, hx, naiveHash_ext hdc.le hc hp, ih hw]
    · congr 1
      refine naiveHash_congr hc (Agree.refl _ _) fun k hk => ?_
      have hm : Matches d' c k pk := fun i hi _ => (hk i hi).symm
      rw [get, if_pos hm]
    · intro k _ hm
      rw [get, if_neg hm]

end Hash

end Tree

end Exfer.Proof
