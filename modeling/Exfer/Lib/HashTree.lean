import Mathlib.Data.Set.Function
import Mathlib.Tactic.Common

/-!
# Complete binary hash trees

A complete binary tree of a given height over arbitrary digests. A leaf position is
a bit string `p : Nat → Bool` of which only the bits below the depth of the tree
matter; the two children of a node at depth `d` are the positions that extend `p`
with bit `d` clear or set. Nothing here knows how a tree is stored.

* `treeHash`: the digest of the subtree at a position, with no sharing or
  compression.
* `emptyHash`: the digest of a subtree whose leaves are all the empty leaf.
* `pathHash`: a digest carried upwards along a path whose siblings are all empty.
* `treePairs`: the pairs of digests that are hashed for a subtree.
* `treeHash_congr`, `treeHash_empty`, `treeHash_path`: a subtree's digest depends
  only on the leaves below it, an empty subtree has the empty digest, and a subtree
  with all its leaves below one descendant is that descendant's digest carried
  along the path.
* `leaf_eq_of_treeHash_eq`: where the hashed pairs do not collide, a digest determines the leaves.
-/

namespace Exfer.Lib

variable {d : Nat} {p q : Nat → Bool}

/-- The bit strings `p` and `q` agree on their first `d` bits. -/
def Agree (d : Nat) (p q : Nat → Bool) : Prop :=
  ∀ i < d, p i = q i

theorem Agree.refl (d : Nat) (p : Nat → Bool) : Agree d p p :=
  fun _ _ => rfl

theorem Agree.symm (h : Agree d p q) : Agree d q p :=
  fun i hi => (h i hi).symm

theorem Agree.trans {r : Nat → Bool} (h : Agree d p q) (h' : Agree d q r) : Agree d p r :=
  fun i hi => (h i hi).trans (h' i hi)

theorem Agree.mono {c : Nat} (h : Agree d p q) (hcd : c ≤ d) : Agree c p q :=
  fun i hi => h i (by omega)

theorem agree_succ : Agree (d + 1) p q ↔ Agree d p q ∧ p d = q d := by
  constructor
  · intro h
    exact ⟨h.mono (by omega), h d (by omega)⟩
  · rintro ⟨h, hd⟩ i hi
    rcases Nat.lt_succ_iff_lt_or_eq.mp hi with hi | rfl
    · exact h i hi
    · exact hd

theorem agree_update {b : Bool} : Agree (d + 1) (Function.update p d b) q ↔ Agree d p q ∧ b = q d := by
  rw [agree_succ, Function.update_self]
  refine and_congr_left fun _ => forall₂_congr fun i hi => ?_
  rw [Function.update_of_ne (by omega)]

theorem Agree.update (h : Agree d p q) (b : Bool) :
    Agree (d + 1) (Function.update p d b) (Function.update q d b) := by
  rw [agree_update, Function.update_self]
  refine ⟨fun i hi => ?_, rfl⟩
  rw [Function.update_of_ne (by omega)]
  exact h i hi

section HashTree

variable {α : Type*} (node : α → α → α)

/-- The digest of the subtree of height `h` at depth `d` and position `p`: every one of
its `2 ^ h` leaves is visited. -/
def treeHash (leaf : (Nat → Bool) → α) : (h d : Nat) → (Nat → Bool) → α
  | 0, _, p => leaf p
  | h + 1, d, p => node (treeHash leaf h (d + 1) (Function.update p d false))
      (treeHash leaf h (d + 1) (Function.update p d true))

/-- The pairs of digests hashed for the subtree of height `h` at depth `d` and position `p`. -/
def treePairs (leaf : (Nat → Bool) → α) : (h d : Nat) → (Nat → Bool) → Set (α × α)
  | 0, _, _ => ∅
  | h + 1, d, p =>
    {(treeHash node leaf h (d + 1) (Function.update p d false),
      treeHash node leaf h (d + 1) (Function.update p d true))} ∪
      (treePairs leaf h (d + 1) (Function.update p d false) ∪
        treePairs leaf h (d + 1) (Function.update p d true))

/-- The digest of a subtree of height `h` whose leaves are all `empty`. -/
def emptyHash (empty : α) : Nat → α
  | 0 => empty
  | h + 1 => node (emptyHash empty h) (emptyHash empty h)

/-- The digest at depth `d` of a path of `len` nodes with empty siblings that ends in the
digest `x` of a subtree of height `h`; `p` says at each depth which way the path goes. -/
def pathHash (empty : α) (x : α) (h : Nat) (p : Nat → Bool) : (len d : Nat) → α
  | 0, _ => x
  | len + 1, d =>
    let below := pathHash empty x h p len (d + 1)
    let sibling := emptyHash node empty (h + len)
    if p d then node sibling below else node below sibling

variable {node} {empty : α} {leaf leaf' : (Nat → Bool) → α} {h : Nat}

/-- A subtree's digest depends only on the leaves below it, and on its position only
through the bits above it. -/
theorem treeHash_congr (hpq : Agree d p q)
    (hleaf : ∀ p' q', Agree (d + h) p' q' → Agree d p p' → leaf p' = leaf' q') :
    treeHash node leaf h d p = treeHash node leaf' h d q := by
  induction h generalizing d p q with
  | zero => exact hleaf p q hpq (Agree.refl d p)
  | succ h ih =>
    have child : ∀ b, treeHash node leaf h (d + 1) (Function.update p d b) =
        treeHash node leaf' h (d + 1) (Function.update q d b) := by
      intro b
      refine ih (hpq.update b) fun p' q' h1 h2 => ?_
      exact hleaf p' q' (h1.mono (by omega)) (agree_update.mp h2).1
    simp only [treeHash, child]

/-- A subtree with only empty leaves has the empty digest of its height. -/
theorem treeHash_empty (hleaf : ∀ p', Agree d p p' → leaf p' = empty) :
    treeHash node leaf h d p = emptyHash node empty h := by
  induction h generalizing d p with
  | zero => exact hleaf p (Agree.refl d p)
  | succ h ih =>
    have child : ∀ b, treeHash node leaf h (d + 1) (Function.update p d b) =
        emptyHash node empty h := by
      intro b
      exact ih fun p' hp' => hleaf p' (agree_update.mp hp').1
    simp only [treeHash, emptyHash, child]

/-- Where the hashed pairs do not collide, subtrees with the same digest have the same leaves. -/
theorem leaf_eq_of_treeHash_eq {S : Set (α × α)} (hinj : Set.InjOn (fun x => node x.1 x.2) S)
    (hS : treePairs node leaf h d p ⊆ S) (hS' : treePairs node leaf' h d p ⊆ S)
    (hleaf : ∀ p' q', Agree (d + h) p' q' → leaf p' = leaf q')
    (hleaf' : ∀ p' q', Agree (d + h) p' q' → leaf' p' = leaf' q')
    (heq : treeHash node leaf h d p = treeHash node leaf' h d p) : ∀ q, Agree d p q → leaf q = leaf' q := by
  induction h generalizing d p with
  | zero =>
    intro q hq
    rw [← hleaf p q hq, ← hleaf' p q hq]
    exact heq
  | succ h ih =>
    intro q hq
    have hpair := hinj (hS (.inl rfl)) (hS' (.inl rfl)) heq
    have hdh : d + 1 + h = d + (h + 1) := by omega
    have child : ∀ b, treeHash node leaf h (d + 1) (Function.update p d b) =
        treeHash node leaf' h (d + 1) (Function.update p d b) := by
      intro b
      cases b with
      | false => exact congrArg Prod.fst hpair
      | true => exact congrArg Prod.snd hpair
    have below : ∀ b {l : (Nat → Bool) → α}, treePairs node l (h + 1) d p ⊆ S →
        treePairs node l h (d + 1) (Function.update p d b) ⊆ S := by
      intro b l hl
      cases b with
      | false => exact fun x hx => hl (.inr (.inl hx))
      | true => exact fun x hx => hl (.inr (.inr hx))
    exact ih (below (q d) hS) (below (q d) hS') (by rwa [hdh]) (by rwa [hdh]) (child (q d)) q
      (agree_update.mpr ⟨hq, rfl⟩)

/-- When every non-empty leaf below a position also lies below a deeper position `q`, the
digest is the digest at `q` carried up the path. -/
theorem treeHash_path {len : Nat} (hpq : Agree d p q)
    (hcongr : ∀ p' q', Agree (d + len + h) p' q' → leaf p' = leaf q')
    (hleaf : ∀ p', Agree d p p' → ¬ Agree (d + len) q p' → leaf p' = empty) : treeHash node leaf (h + len) d p =
      pathHash node empty (treeHash node leaf h (d + len) q) h q len d := by
  induction len generalizing d p with
  | zero =>
    exact treeHash_congr hpq fun p' q' h1 _ => hcongr p' q' h1
  | succ len ih =>
    have hdl : d + 1 + len = d + (len + 1) := by omega
    -- the child on the path carries the digest, the other one has no leaf
    have on : treeHash node leaf (h + len) (d + 1) (Function.update p d (q d)) =
        pathHash node empty (treeHash node leaf h (d + (len + 1)) q) h q len (d + 1) := by
      rw [← hdl]
      refine ih (agree_update.mpr ⟨hpq, rfl⟩) (by rwa [hdl]) fun p' h1 h2 => ?_
      exact hleaf p' (agree_update.mp h1).1 (by rwa [hdl] at h2)
    have off : treeHash node leaf (h + len) (d + 1) (Function.update p d (!q d)) =
        emptyHash node empty (h + len) := by
      refine treeHash_empty fun p' h1 => ?_
      obtain ⟨h1, hb⟩ := agree_update.mp h1
      refine hleaf p' h1 fun h2 => ?_
      have := h2 d (by omega)
      simp [this] at hb
    rw [← Nat.add_assoc, treeHash, pathHash]
    cases hq : q d <;> simp only [hq, Bool.not_false, Bool.not_true] at on off <;> simp [on, off]

end HashTree

end Exfer.Lib
