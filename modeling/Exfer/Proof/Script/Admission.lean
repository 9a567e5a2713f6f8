import Exfer.Impl.Validation.Script

/-!
# Admitted scripts

What `validate_output_script` establishes (`Admitted`), and what its passes over the arena
compute: `bottomUp_getElem` says that every result of a bottom-up pass is the step applied to
the results of the later nodes.
-/

namespace Exfer.Proof.Script

open Impl Impl.Script Lib

variable {i : Nat} {nodes : List Combinator} {node : Combinator} {p : Program}
  {typed : List TypedNode}

/-! ## Bottom-up passes -/

section

variable {α ε : Type} {step : Nat → Combinator → List α → Except ε α}

theorem bottomUp_length (h : bottomUp step i nodes = .ok rs) : rs.length = nodes.length := by
  induction nodes generalizing i rs with
  | nil =>
    cases h
    rfl
  | cons node nodes ih =>
    obtain ⟨later, hlater, h⟩ := bind_eq_ok.mp h
    obtain ⟨r, _, h⟩ := bind_eq_ok.mp h
    cases h
    simp [ih hlater]

theorem bottomUp_step (h : bottomUp step i nodes = .ok rs) (hj : nodes[j]? = some node) :
    ∃ r, rs[j]? = some r ∧ step (i + j) node (rs.drop (j + 1)) = .ok r := by
  induction nodes generalizing i j rs with
  | nil => cases hj
  | cons first nodes ih =>
    obtain ⟨later, hlater, h⟩ := bind_eq_ok.mp h
    obtain ⟨r, hr, h⟩ := bind_eq_ok.mp h
    cases h
    cases j with
    | zero =>
      cases hj
      exact ⟨r, rfl, hr⟩
    | succ j =>
      obtain ⟨r', hr', hstep⟩ := ih hlater hj
      exact ⟨r', hr', by rwa [Nat.add_assoc, Nat.add_comm 1 j] at hstep⟩

/-- Seen from node `i`, the result of a later child is the child's. -/
theorem laterResult_drop {rs : List α} {child : Nat} (h : i < child) :
    Program.laterResult i (rs.drop (i + 1)) child = rs[child]? := by
  rw [Program.laterResult, if_neg (Nat.not_le.mpr h), List.getElem?_drop]
  congr 1
  omega

theorem forall₂_getElem? {R : α → β → Prop} {xs : List α} {ys : List β}
    (h : List.Forall₂ R xs ys) {k : Nat} {y : β} (hy : ys[k]? = some y) : ∃ x, xs[k]? = some x ∧ R x y := by
  induction h generalizing k with
  | nil => cases hy
  | @cons x _ xs _ hxy _ ih =>
    cases k with
    | zero =>
      cases hy
      exact ⟨x, rfl, hxy⟩
    | succ k => exact ih hy

/-- Passes whose steps compare at related results compare. -/
theorem bottomUp_under (h : ∀ i node later later', List.Forall₂ R later later' →
      Under R (step i node later) (step' i node later')) (i : Nat) (nodes : List Combinator) :
    Under (List.Forall₂ R) (bottomUp step i nodes) (bottomUp step' i nodes) := by
  induction nodes generalizing i with
  | nil => exact .ok .nil
  | cons node nodes ih =>
    refine (ih (i + 1)).bind fun later later' hlater => ?_
    refine (h i node later later' hlater).bind fun r r' hr => ?_
    exact .ok (.cons hr hlater)

end

/-! ## Structure -/

/-- What `validate_structure` establishes. -/
structure WellFormed (p : Program) : Prop where
  root : p.root < p.nodes.length
  children : ∀ (i : Nat) (node : Combinator), p.get i = some node → ∀ c : Nat, c ∈ node.children →
    i < c ∧ c < p.nodes.length

theorem validateChildren_ok {n : Nat} (h : Program.validateChildren n i nodes = .ok ())
    (hj : nodes[j]? = some node) {c : Nat} (hc : c ∈ node.children) : i + j < c ∧ c < n := by
  induction nodes generalizing i j with
  | nil => cases hj
  | cons first nodes ih =>
    obtain ⟨_, hfirst, h⟩ := bind_eq_ok.mp h
    cases j with
    | zero =>
      cases hj
      have hc := forM_eq_ok.mp hfirst c hc
      unfold Program.validateChild at hc
      split at hc
      · cases hc
      · split at hc
        · cases hc
        · exact ⟨Nat.not_le.mp ‹_›, Nat.not_le.mp ‹_›⟩
    | succ j =>
      have hlt := ih h hj
      omega

theorem wellFormed_of_ok (h : p.validateStructure = .ok ()) : WellFormed p := by
  unfold Program.validateStructure at h
  split at h
  · cases h
  split at h
  · cases h
  · obtain ⟨_, hchildren, _⟩ := bind_eq_ok.mp h
    refine ⟨Nat.not_le.mp ‹_›, fun i node hi c hc => ?_⟩
    have hlt := validateChildren_ok hchildren hi hc
    omega

/-! ## Depth -/

theorem le_foldr_max {xs : List Nat} {x : Nat} (h : x ∈ xs) : x ≤ xs.foldr max 0 := by
  induction xs with
  | nil => cases h
  | cons y ys ih =>
    rcases List.mem_cons.mp h with rfl | h
    · exact Nat.le_max_left _ _
    · exact (ih h).trans (Nat.le_max_right _ _)

/-- The depths `max_depth` computes: a node is deeper than its children. -/
theorem exists_depths (hp : WellFormed p) : ∃ depthOf : NodeId → Nat, depthOf p.root = p.maxDepth ∧
      ∀ i node, p.get i = some node → ∀ c ∈ node.children, depthOf c < depthOf i := by
  cases hrs : bottomUp Program.depthStep 0 p.nodes with
  | error e => exact nomatch e
  | ok rs =>
    refine ⟨fun i => rs.getD i 0, by simp [Program.maxDepth, hrs], fun i node hi c hc => ?_⟩
    obtain ⟨r, hr, hstep⟩ := bottomUp_step hrs hi
    have hchild : rs.getD c 0 ∈ node.children.map
        fun c => (Program.laterResult i (rs.drop (i + 1)) c).getD 0 := by
      refine List.mem_map.mpr ⟨c, hc, ?_⟩
      rw [laterResult_drop (hp.children i node hi c hc).1, List.getD_eq_getElem?_getD]
    have hle := le_foldr_max hchild
    injection hstep with hstep
    refine Nat.lt_of_le_of_lt hle ?_
    simp [List.getD_eq_getElem?_getD, hr, ← hstep]

/-! ## Admission -/

/-- What `validate_output_script` establishes of a program. -/
structure Admitted (p : Program) (typed : List TypedNode) : Prop where
  typechecks : typecheck p = .ok typed
  root_output : outTy typed p.root = .boolType
  edges : strictTypeEdges p typed = true
  evaluable : p.nodes.all evaluable = true
  root_input : scriptInputAccepts (inTy typed p.root) scriptInputType = true
  depth : p.maxDepth ≤ maxEvalDepth

theorem admitted_of_ok (haccept : validateOutputScript idx output = .ok ())
    (hprog : Program.deserializeProgram output.script = .ok p) : ∃ typed, Admitted p typed := by
  unfold validateOutputScript at haccept
  rw [hprog] at haccept
  dsimp only at haccept
  split at haccept
  · cases haccept
  rename_i typed htyped
  refine ⟨typed, ?_⟩
  split at haccept
  · cases haccept
  rename_i hroot
  split at haccept
  · cases haccept
  rename_i hedges
  split at haccept
  · cases haccept
  rename_i heval
  split at haccept
  · cases haccept
  rename_i hinput
  split at haccept
  · cases haccept
  rename_i hdepth
  exact ⟨htyped, by simpa using hroot, by simpa using hedges, by simpa using heval,
    by simpa using hinput, Nat.not_lt.mp hdepth⟩

/-- Past the other checks, the cost decides. -/
theorem Admitted.validateOutputScript_eq (h : Admitted p typed)
    (hprog : Program.deserializeProgram output.script = .ok p) (idx : Nat) : validateOutputScript idx output =
      match p.computeCost ⟨1, 1⟩ with
      | .ok cost => if cost.steps > maxScriptSteps then .error (.illTypedScript idx) else .ok ()
      | .error _ => .error (.illTypedScript idx) := by
  unfold validateOutputScript
  rw [hprog]
  dsimp only
  rw [h.typechecks]
  dsimp only
  rw [if_neg (not_not.mpr h.root_output), if_neg (by simp [h.edges]), if_neg (by simp [h.evaluable]),
    if_neg (by simp [h.root_input])]
  exact if_neg (Nat.not_lt.mpr h.depth)

theorem valid_of_typecheck (h : typecheck p = .ok typed) : p.validateStructure = .ok () := by
  unfold typecheck at h
  split at h
  · cases h
  · assumption

theorem Admitted.valid (h : Admitted p typed) : p.validateStructure = .ok () :=
  valid_of_typecheck h.typechecks

theorem Admitted.wellFormed (h : Admitted p typed) : WellFormed p :=
  wellFormed_of_ok h.valid

end Exfer.Proof.Script
