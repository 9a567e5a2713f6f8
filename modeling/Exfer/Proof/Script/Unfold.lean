import Exfer.Proof.Script.Admission
import Exfer.Spec.Script.Tree

/-!
# Unfolding

A program whose children are in place and whose nodes are all below its root passes
`validate_structure` (`validateStructure_ok`): the marking pass marks exactly what is reachable. Every
node of a well-formed program unfolds (`exists_unfolds`).
-/

namespace Exfer.Proof.Script

open Lib Impl Impl.Script Spec.Script

variable {children : List NodeId} {k i : Nat} {marks : List Bool} {nodes : List Combinator}
  {p : Program} {sub : NodeId → Option ScriptTree} {node : Combinator}

/-! ## Marks -/

theorem length_markChildren (children : List NodeId) (marks : List Bool) :
    (children.foldl (fun r child => r.set child true) marks).length = marks.length := by
  induction children generalizing marks with
  | nil => rfl
  | cons c children ih => rw [List.foldl_cons, ih, List.length_set]

theorem markChildren_of_not_mem (marks : List Bool) (h : ∀ c : Nat, c ∈ children → c ≠ k) :
    (children.foldl (fun r child => r.set child true) marks)[k]? = marks[k]? := by
  induction children generalizing marks with
  | nil => rfl
  | cons c children ih =>
    rw [List.foldl_cons, ih _ fun c' hc' => h c' (List.mem_cons_of_mem _ hc'),
      List.getElem?_set_ne (h c List.mem_cons_self)]

theorem markChildren_keeps (children : List NodeId) (h : marks[k]? = some true) :
    (children.foldl (fun r child => r.set child true) marks)[k]? = some true := by
  induction children generalizing marks with
  | nil => exact h
  | cons c children ih =>
    apply ih
    rw [List.getElem?_set]
    split
    · have hk : k < marks.length := (List.getElem?_eq_some_iff.mp h).1
      simp_all
    · exact h

theorem markChildren_marks (hc : c ∈ children) (hlt : c < marks.length) :
    (children.foldl (fun r child => r.set child true) marks)[c]? = some true := by
  induction children generalizing marks with
  | nil => cases hc
  | cons c' children ih =>
    rcases List.mem_cons.mp hc with rfl | hc
    · exact markChildren_keeps children (by simp [hlt])
    · exact ih hc (by simpa using hlt)

/-- What the marking pass does from node `i` on. -/
structure Marks (i : Nat) (nodes : List Combinator) (marks result : List Bool) : Prop where
  length : result.length = marks.length
  keeps : ∀ k : Nat, marks[k]? = some true → result[k]? = some true
  earlier : ∀ k : Nat, k ≤ i → result[k]? = marks[k]?
  children : ∀ (j : Nat) node, nodes[j]? = some node → result[i + j]? = some true →
    ∀ c : Nat, c ∈ node.children → result[c]? = some true

theorem markReachable_marks (i : Nat) (nodes : List Combinator) (marks : List Bool)
    (h : ∀ (j : Nat) node, nodes[j]? = some node → ∀ c : Nat, c ∈ node.children →
      i + j < c ∧ c < marks.length) : Marks i nodes marks (Program.markReachable i nodes marks) := by
  induction nodes generalizing i marks with
  | nil => exact ⟨rfl, fun _ hk => hk, fun _ _ => rfl, nofun⟩
  | cons node nodes ih =>
    have hchild (c : Nat) (hc : c ∈ node.children) : i < c ∧ c < marks.length := h 0 node rfl c hc
    have hrest (j : Nat) (node' : Combinator) (hj : nodes[j]? = some node') (c : Nat)
        (hc : c ∈ node'.children) : i + 1 + j < c ∧ c < marks.length := by
      have hlt := h (j + 1) node' hj c hc
      omega
    by_cases hmark : marks.getD i false = true
    · rw [Program.markReachable, if_pos hmark]
      generalize hmarks : node.children.foldl (fun r child => r.set child true) marks = marks'
      have hlen : marks'.length = marks.length := by rw [← hmarks, length_markChildren]
      have hnext := ih (i + 1) marks' fun j node' hj c hc =>
        hlen ▸ hrest j node' hj c hc
      refine ⟨hnext.length.trans hlen, fun k hk => ?_, fun k hk => ?_, fun j node' hj hres c hc => ?_⟩
      · exact hnext.keeps k (hmarks ▸ markChildren_keeps _ hk)
      · rw [hnext.earlier k (by omega), ← hmarks]
        exact markChildren_of_not_mem marks fun c hc heq => by
          have hlt := (hchild c hc).1
          omega
      · cases j with
        | zero =>
          cases hj
          exact hnext.keeps c (hmarks ▸ markChildren_marks hc (hchild c hc).2)
        | succ j =>
          rw [show i + (j + 1) = i + 1 + j by omega] at hres
          exact hnext.children j node' hj hres c hc
    · rw [Program.markReachable, if_neg hmark]
      have hnext := ih (i + 1) marks hrest
      refine ⟨hnext.length, hnext.keeps, fun k hk => hnext.earlier k (by omega),
        fun j node' hj hres c hc => ?_⟩
      cases j with
      | zero =>
        -- the node is not marked, and stays so
        have hi : marks[i]? = some true := (hnext.earlier i (by omega)).symm.trans hres
        exact absurd (by simp [List.getD_eq_getElem?_getD, hi]) hmark
      | succ j =>
        rw [show i + (j + 1) = i + 1 + j by omega] at hres
        exact hnext.children j node' hj hres c hc

/-! ## Valid structures -/

theorem validateChildren_of_bounds (h : ∀ (j : Nat) node, nodes[j]? = some node → ∀ c : Nat, c ∈ node.children →
      i + j < c ∧ c < n) : Program.validateChildren n i nodes = .ok () := by
  induction nodes generalizing i with
  | nil => rfl
  | cons node nodes ih =>
    refine bind_eq_ok.mpr ⟨(), forM_eq_ok.mpr fun c hc => ?_, ih fun j node' hj c hc => ?_⟩
    · have hlt : i < c ∧ c < n := h 0 node rfl c hc
      rw [Program.validateChild, if_neg (Nat.not_le.mpr hlt.2), if_neg (Nat.not_le.mpr hlt.1)]
    · have hlt := h (j + 1) node' hj c hc
      omega

/-- A program with its children in place and every node below its root passes the checks. -/
theorem validateStructure_ok (hp : WellFormed p)
    (hreach : ∀ k < p.nodes.length, Reaches p.nodes p.root k) : p.validateStructure = .ok () := by
  have hroot := hp.root
  have hbounds (j : Nat) (node : Combinator) (hj : p.nodes[j]? = some node) (c : Nat)
      (hc : c ∈ node.children) : 0 + j < c ∧ c < p.nodes.length := by
    have hlt := hp.children j node hj c hc
    omega
  have hmarks := markReachable_marks 0 p.nodes
    ((List.replicate p.nodes.length false).set p.root true) fun j node hj c hc => by
      simpa using hbounds j node hj c hc
  -- the root is marked, and a child of a marked node
  have hmarked (k : NodeId) (hk : Reaches p.nodes p.root k) :
      (Program.markReachable 0 p.nodes ((List.replicate p.nodes.length false).set p.root true))[k]? =
        some true := by
    induction hk with
    | refl => exact hmarks.keeps _ (by simp [hroot])
    | tail _ hchild ih =>
      obtain ⟨node, hnode, hc⟩ := hchild
      exact hmarks.children _ node hnode (by rwa [Nat.zero_add]) _ hc
  unfold Program.validateStructure
  rw [if_neg (Nat.ne_zero_of_lt hroot), if_neg (Nat.not_le.mpr hroot), validateChildren_of_bounds hbounds]
  refine if_neg ?_
  rw [List.any_eq_true]
  rintro ⟨b, hb, hfalse⟩
  obtain ⟨k, hk, rfl⟩ := List.mem_iff_getElem.mp hb
  have hlen := hmarks.length
  rw [List.length_set, List.length_replicate] at hlen
  have htrue := hmarked k (hreach k (hlen ▸ hk))
  rw [List.getElem?_eq_getElem hk] at htrue
  injection htrue with htrue
  simp [htrue] at hfalse

/-! ## Trees -/

theorem graft_congr (h : ∀ c ∈ node.children, sub c = sub' c) : graft sub node = graft sub' node := by
  cases node <;> simp_all [graft, Combinator.children]

theorem exists_child_of_graft (h : graft sub node = some t) : ∀ c ∈ node.children, ∃ t', sub c = some t' := by
  cases node <;> simp_all [graft, Combinator.children, Option.bind_eq_some_iff] <;> grind

theorem exists_graft (h : ∀ c ∈ node.children, ∃ t, sub c = some t) : ∃ t, graft sub node = some t := by
  cases node with
  | iden | unit | jet | witness | merkleHidden | const => exact ⟨_, rfl⟩
  | take f | drop f | injL f | injR f =>
    obtain ⟨a, ha⟩ := h f List.mem_cons_self
    simp [graft, ha]
  | comp f g | pair f g | case f g | fold f g | listFold f g =>
    obtain ⟨a, ha⟩ := h f List.mem_cons_self
    obtain ⟨b, hb⟩ := h g (List.mem_cons_of_mem _ List.mem_cons_self)
    simp [graft, ha, hb]

/-- A pass succeeds if its step does wherever the later nodes have results. -/
theorem exists_bottomUp {α ε : Type} {step : Nat → Combinator → List α → Except ε α}
    (h : ∀ (j : Nat) node later, nodes[j]? = some node → later.length + j + 1 = nodes.length → ∃ r,
      step (i + j) node later = .ok r) : ∃ rs, bottomUp step i nodes = .ok rs := by
  induction nodes generalizing i with
  | nil => exact ⟨[], rfl⟩
  | cons node nodes ih =>
    obtain ⟨later, hlater⟩ := ih (i := i + 1) fun j node' later hj hlen => by
      rw [Nat.add_assoc, Nat.add_comm 1 j]
      exact h (j + 1) node' later hj (by rw [List.length_cons]; omega)
    obtain ⟨r, hr⟩ := h 0 node later rfl (by rw [List.length_cons, bottomUp_length hlater])
    exact ⟨r :: later, bind_eq_ok.mpr ⟨later, hlater, bind_eq_ok.mpr ⟨r, hr, rfl⟩⟩⟩

/-- The trees are the unfoldings of the nodes. -/
structure Unfolds (p : Program) (trees : List ScriptTree) : Prop where
  unfoldings : unfoldings p.nodes = .ok trees
  graft : ∀ (i : Nat) node, p.get i = some node →
    ∃ t, trees[i]? = some t ∧ graft (fun c => trees[c]?) node = some t

/-- Every node of a well-formed program unfolds. -/
theorem exists_unfolds (hp : WellFormed p) : ∃ trees, Unfolds p trees := by
  have hstep (j : Nat) (node : Combinator) (later : List ScriptTree) (hj : p.nodes[j]? = some node)
      (hlen : later.length + j + 1 = p.nodes.length) : ∃ t, unfoldStep (0 + j) node later = .ok t := by
    have hchild (c : Nat) (hc : c ∈ node.children) :
        ∃ t, Program.laterResult (0 + j) later c = some t := by
      have hlt := hp.children j node hj c hc
      have hbound : c - (0 + j) - 1 < later.length := by omega
      have hlater : ¬ c ≤ 0 + j := by omega
      rw [Program.laterResult, if_neg hlater]
      exact ⟨_, List.getElem?_eq_getElem hbound⟩
    obtain ⟨t, ht⟩ := exists_graft hchild
    exact ⟨t, by rw [unfoldStep, ht]⟩
  obtain ⟨trees, htrees⟩ := exists_bottomUp (i := 0) hstep
  refine ⟨trees, htrees, fun i node hi => ?_⟩
  obtain ⟨t, ht, hroot⟩ := bottomUp_step htrees hi
  refine ⟨t, ht, ?_⟩
  rw [unfoldStep, Nat.zero_add] at hroot
  have hcongr : Exfer.Spec.Script.graft (Program.laterResult i (trees.drop (i + 1))) node =
      Exfer.Spec.Script.graft (fun c => trees[c]?) node :=
    graft_congr fun c hc => laterResult_drop (hp.children i node hi c hc).1
  rw [hcongr] at hroot
  split at hroot <;> cases hroot
  assumption

theorem Unfolds.unfolding_eq (h : Unfolds p trees) : unfolding p = trees[p.root]? := by
  rw [unfolding, h.unfoldings]

theorem exists_unfolding (hp : p.validateStructure = .ok ()) : ∃ t, unfolding p = some t := by
  have hwf := wellFormed_of_ok hp
  obtain ⟨trees, htrees⟩ := exists_unfolds hwf
  have hroot : p.root < trees.length := bottomUp_length htrees.unfoldings ▸ hwf.root
  exact ⟨_, htrees.unfolding_eq.trans (List.getElem?_eq_getElem hroot)⟩

end Exfer.Proof.Script
