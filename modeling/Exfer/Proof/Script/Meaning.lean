import Exfer.Lib.Budgeted
import Exfer.Proof.Script.Witness
import Exfer.Spec.Script.Meaning
import Mathlib.Algebra.Order.Monoid.Prod

/-!
# Evaluation and meaning

With a budget that suffices, an admitted program evaluates to what its typed tree means (`evaluate_meaning`).
Every operation of the evaluator is a budgeted form of one of the reader's (`Evaluates`), node by node
(`evalCombinator_evaluates`) and then by induction on the levels (`evalNode_evaluates`).
-/

namespace Exfer.Proof.Script

open Lib Impl Impl.Script Spec.Script

variable {id : NodeId} {node : Combinator}

/-! ## Typed trees -/

theorem typedNode_congr (h : ∀ c ∈ node.children, sub c = sub' c) :
    typedNode typed sub id node = typedNode typed sub' id node := by
  cases node <;> simp_all [typedNode, Combinator.children]

/-- The typed trees of the nodes of a program. -/
theorem exists_typedTrees (hp : WellFormed p) (typed : List TypedNode) :
    ∃ tree : NodeId → TypedTree, tree p.root = typedTree p typed ∧
      ∀ i node, p.get i = some node → tree i = typedNode typed tree i node := by
  cases htrees : bottomUp (typedStep typed) 0 p.nodes with
  | error e => exact nomatch e
  | ok trees =>
    refine ⟨fun i => trees.getD i .unit, by rw [typedTree, htrees], fun i node hi => ?_⟩
    obtain ⟨t, ht, hstep⟩ := bottomUp_step htrees hi
    rw [Nat.zero_add] at hstep
    cases hstep
    show trees.getD i .unit = _
    rw [List.getD_eq_getElem?_getD, ht, Option.getD_some]
    refine typedNode_congr fun c hc => ?_
    rw [laterResult_drop (hp.children i node hi c hc).1, List.getD_eq_getElem?_getD]

/-! ## The account -/

/-- Steps, cells and memory left. An evaluation may not use the last unit of the memory, so that it can go
on with none. -/
def account (s : EvalState) : Nat × Nat × Nat :=
  (s.budget.stepsRemaining, s.budget.cellsRemaining, s.budget.memoryLimit + 1 - s.budget.memoryUsed)

section

variable (witness : List UInt8)

/-- What is left of the witness. -/
def unread (s : EvalState) : List UInt8 :=
  witness.drop s.pos

/-- An evaluation with enough of a budget has a meaning. -/
abbrev Evaluates {α : Type} (m : EvalM α) (r : Reading α) : Prop :=
  Realizes account (unread witness) m r

variable {witness}

theorem consumeSteps_evaluates (n : Nat) : Evaluates witness (consumeSteps n) (pure ⟨⟩) := by
  refine .spend (n, 0, 0) fun s hs => ?_
  have hn : n ≤ s.budget.stepsRemaining := hs.1
  refine ⟨_, congrFun (if_neg (Nat.not_lt.mpr hn)) s, rfl, ?_, Nat.le_refl _, Nat.le_refl _⟩
  show s.budget.stepsRemaining ≤ s.budget.stepsRemaining - n + n
  omega

theorem consumeCell_evaluates : Evaluates witness consumeCell (pure ⟨⟩) := by
  refine .spend (0, 1, 0) fun s hs => ?_
  have hn : 1 ≤ s.budget.cellsRemaining := hs.2.1
  refine ⟨_, congrFun (if_neg (Nat.ne_of_gt hn)) s, rfl, Nat.le_refl _, ?_, Nat.le_refl _⟩
  show s.budget.cellsRemaining ≤ s.budget.cellsRemaining - 1 + 1
  omega

theorem trackMemory_evaluates (size : Nat) : Evaluates witness (trackMemory size) (pure ⟨⟩) := by
  refine .spend (0, 0, size + 1) fun s hs => ?_
  have hn : size + 1 ≤ s.budget.memoryLimit + 1 - s.budget.memoryUsed := hs.2.2
  have hroom : ¬ s.budget.memoryUsed + size > s.budget.memoryLimit := by omega
  refine ⟨_, congrFun (if_neg hroom) _, rfl, Nat.le_refl _, Nat.le_refl _, ?_⟩
  show s.budget.memoryLimit + 1 - s.budget.memoryUsed ≤
    s.budget.memoryLimit + 1 - (s.budget.memoryUsed + size) + (size + 1)
  omega

theorem releaseMemory_evaluates (size : Nat) : Evaluates witness (releaseMemory size) (pure ⟨⟩) := by
  refine .spend 0 fun s _ => ⟨_, rfl, rfl, Nat.le_refl _, Nat.le_refl _, ?_⟩
  show s.budget.memoryLimit + 1 - s.budget.memoryUsed ≤
    s.budget.memoryLimit + 1 - (s.budget.memoryUsed - size) + 0
  omega

theorem produce_evaluates (v : Value) : Evaluates witness (produce v) (pure v) :=
  fun _ => ⟨0, fun _ hs _ => ⟨_, rfl, hs, (add_zero _).ge⟩⟩

theorem readNext_eq_some : readNext rest = some (v, rest') ↔
    ∃ n, Value.deserialize rest = .ok (v, n) ∧ rest' = rest.drop n := by
  unfold readNext
  cases Value.deserialize rest with
  | error e => simp
  | ok result => simp [Prod.ext_iff, eq_comm]

theorem readValue_evaluates : Evaluates witness (readValue witness) readNext := by
  refine fun rest => ⟨0, fun s hs _ => ?_⟩
  subst hs
  cases hnext : readNext (unread witness s) with
  | some result =>
    obtain ⟨n, hread, hrest⟩ := readNext_eq_some.mp hnext
    have hpos : s.pos < witness.length := by
      by_contra hpos
      rw [unread, List.drop_eq_nil_of_le (Nat.not_lt.mp hpos)] at hread
      cases hread
    refine ⟨_, readValue_eq_ok.mpr ⟨hpos, n, hread, rfl⟩, ?_, (add_zero _).ge⟩
    rw [hrest]
    exact (List.drop_drop ..).symm
  | none =>
    cases hrun : readValue witness s with
    | error e s' => exact ⟨e, s', rfl⟩
    | ok v s' =>
      obtain ⟨_, n, hread, _⟩ := readValue_eq_ok.mp hrun
      exact nomatch hnext.symm.trans (readNext_eq_some.mpr ⟨n, hread, rfl⟩)

theorem readTypedValue_evaluates (expected : Ty) :
    Evaluates witness (readTypedValue witness expected) (readTyped expected) := by
  refine readValue_evaluates.bind fun value => ?_
  split
  · exact .throw _
  · exact .pure value

end

/-! ## Nodes -/

section

variable {context : ScriptContext} {typed : List TypedNode} {witness : List UInt8}
  {eval : NodeId → Value → EvalM Value}

section loops

variable {eval : Value → EvalM Value} {mean : Value → Reading Value}
  (h : ∀ input, Evaluates witness (eval input) (mean input))

include h

theorem foldRound_evaluates (elem : Value) (prevStepHeap : Nat) (acc : Value)
    (hnext : ∀ acc' heap, Evaluates witness (next (acc', heap)) (rest acc')) :
    Evaluates witness (foldRound eval elem prevStepHeap acc >>= next)
      (mean (.pair elem acc) >>= rest) := by
  unfold foldRound
  simp only [bind_assoc, pure_bind]
  refine .skip (consumeSteps_evaluates 1) (.skip (releaseMemory_evaluates _) ?_)
  refine .skip (trackMemory_evaluates _) ?_
  have hproduce : Evaluates witness (produce (.pair elem acc)) (pure (.pair elem acc)) :=
    produce_evaluates _
  have hrest := hproduce.bind fun stepInput => (h stepInput).bind fun acc' => hnext acc' stepInput.heapSize
  rwa [pure_bind] at hrest

theorem foldLoop_evaluates (init : Value) (k prevStepHeap : Nat) (acc : Value) :
    Evaluates witness (foldLoop eval init k prevStepHeap acc)
      (rounds (fun acc => mean (.pair init acc)) k acc) := by
  induction k generalizing prevStepHeap acc with
  | zero => exact .skip (releaseMemory_evaluates _) (.pure acc)
  | succ k ih => exact foldRound_evaluates h init prevStepHeap acc fun acc' heap => ih heap acc'

theorem listFoldLoop_evaluates (elems : List Value) (prevStepHeap : Nat) (acc : Value) :
    Evaluates witness (listFoldLoop eval elems prevStepHeap acc)
      (elems.foldlM (fun acc elem => mean (.pair elem acc)) acc) := by
  induction elems generalizing prevStepHeap acc with
  | nil => exact .skip (releaseMemory_evaluates _) (.pure acc)
  | cons elem elems ih =>
    exact foldRound_evaluates h elem prevStepHeap acc fun acc' heap => ih heap acc'

end loops

theorem evalBranch_evaluates (h : ∀ input, Evaluates witness (eval branch input) (mean input))
    (side : String) (payload : Value) : Evaluates witness (evalBranch typed eval side branch payload)
      (onPayload (inputTypeOf typed branch) mean payload) := by
  unfold evalBranch onPayload
  cases inputTypeOf typed branch with
  | none => exact h payload
  | some ty =>
    by_cases hmatch : (! payload.matchesType ty) = true
    · simp only [if_pos hmatch]
      exact .throw _
    · simp only [if_neg hmatch]
      exact h payload

variable [Crypto]

/-- A node evaluates to what its typed tree means, if its children do. -/
theorem evalCombinator_evaluates
    (h : ∀ c ∈ node.children, ∀ input, Evaluates witness (eval c input) (meaning context (sub c)
      input)) (id : NodeId) (input : Value) :
    Evaluates witness (evalCombinator context typed witness eval id node input)
      (meaning context (typedNode typed sub id node) input) := by
  have hstep : Evaluates witness consumeStep (pure ⟨⟩) := consumeSteps_evaluates 1
  cases node with
  | iden => exact .skip hstep (.skip (trackMemory_evaluates _) (.pure input))
  | unit => exact .skip hstep (.pure Value.unit)
  | comp f g =>
    refine .skip hstep ((h f (.head _) input).bind fun mid => ?_)
    refine (h g (.tail _ (.head _)) mid).after fun result => ?_
    exact .skip (releaseMemory_evaluates _) (.pure result)
  | pair f g =>
    refine .skip hstep (.skip consumeCell_evaluates ?_)
    refine (h f (.head _) input).bind fun left => ?_
    refine (h g (.tail _ (.head _)) input).bind fun right => ?_
    exact .skip (trackMemory_evaluates _) (.pure _)
  | take f =>
    refine .skip hstep ?_
    cases input with
    | pair a b => exact h f (.head _) a
    | _ => exact .throw _
  | drop f =>
    refine .skip hstep ?_
    cases input with
    | pair a b => exact h f (.head _) b
    | _ => exact .throw _
  | injL f | injR f =>
    refine .skip hstep (.skip consumeCell_evaluates ?_)
    refine (h f (.head _) input).bind fun result => ?_
    exact .skip (trackMemory_evaluates _) (.pure _)
  | case f g =>
    have hf := h f (.head _)
    have hg := h g (.tail _ (.head _))
    refine .skip hstep ?_
    cases input with
    | left a => exact evalBranch_evaluates hf "Left" a
    | right b => exact evalBranch_evaluates hg "Right" b
    | bool b =>
      simp only [typedNode, meaning]
      split
      · cases b with
        | true => exact hg .unit
        | false => exact hf .unit
      · exact .throw _
    | _ => exact .throw _
  | fold f z k =>
    refine .skip hstep ?_
    cases input with
    | pair a init =>
      refine (h z (.tail _ (.head _)) init).bind fun acc => ?_
      exact foldLoop_evaluates (h f (.head _)) init k.toNat 0 acc
    | _ => exact .throw _
  | listFold f z =>
    refine .skip hstep ?_
    cases input with
    | pair a init =>
      cases a with
      | list elems =>
        refine (h z (.tail _ (.head _)) init).bind fun acc => ?_
        exact listFoldLoop_evaluates (h f (.head _)) elems 0 acc
      | _ => exact .throw _
    | _ => exact .throw _
  | jet jetId =>
    refine .skip (consumeSteps_evaluates _) ?_
    simp only [typedNode, meaning]
    cases jetId.eval input context with
    | error e => exact .throw _
    | ok v => exact .skip (trackMemory_evaluates _) (.pure v)
  | witness =>
    refine .skip hstep ((readTypedValue_evaluates _).after fun value => ?_)
    exact .skip (trackMemory_evaluates _) (.pure value)
  | merkleHidden hash => exact .throw _
  | const v => exact .skip hstep (.skip (trackMemory_evaluates _) (.pure v))

/-- With levels enough, the node of a program evaluates to what its typed tree means. -/
theorem evalNode_evaluates (hp : WellFormed p) {tree : NodeId → TypedTree}
    (htree : ∀ i node, p.get i = some node → tree i = typedNode typed tree i node) {depthOf : NodeId → Nat}
    (hdepth : ∀ i node, p.get i = some node → ∀ c ∈ node.children, depthOf c < depthOf i)
    {levels : Nat} (hid : id < p.nodes.length) (hlevels : depthOf id < levels) (input : Value) :
    Evaluates witness (evalNode p context typed witness levels id input)
      (meaning context (tree id) input) := by
  induction levels generalizing id input with
  | zero => cases hlevels
  | succ levels ih =>
    have hnode : p.get id = some (p.nodes[id]) := List.getElem?_eq_getElem hid
    rw [htree id _ hnode]
    unfold evalNode
    rw [hnode]
    refine Realizes.after (evalCombinator_evaluates (fun c hc input => ?_) id input) produce_evaluates
    have hlt := hdepth id _ hnode c hc
    exact ih (hp.children id _ hnode c hc).2 (by omega) input

/-- With a budget that suffices, an admitted program returns what its typed tree means, if this reads the
whole witness. -/
theorem evaluate_meaning (h : Admitted p typed) (context : ScriptContext) (witness : List UInt8)
    (input : Value) : ∃ need, ∀ budget, Sufficient need budget → ∀ v,
      (∃ s, evaluateWithContext p context witness input (.new budget) = .ok v s) ↔
        meaning context (typedTree p typed) input witness = some (v, []) := by
  obtain ⟨tree, hroot, htree⟩ := exists_typedTrees h.wellFormed typed
  obtain ⟨depthOf, hdepth, hless⟩ := exists_depths h.wellFormed
  have hlevels : depthOf p.root < maxEvalDepth + 1 := by
    rw [hdepth]
    exact Nat.lt_succ_of_le h.depth
  have hrun : Evaluates witness (evalNode p context typed witness (maxEvalDepth + 1) p.root input)
      (meaning context (typedTree p typed) input) := by
    rw [← hroot]
    exact evalNode_evaluates h.wellFormed htree hless h.wellFormed.root hlevels input
  obtain ⟨⟨steps, cells, memory⟩, hneed⟩ := hrun witness
  refine ⟨steps + cells + memory, fun budget hbudget v => ?_⟩
  obtain ⟨hsteps, hcells, hmemory⟩ := hbudget
  have hleft : (steps, cells, memory) ≤ account (.new budget) := by
    refine ⟨?_, ?_, ?_⟩
    · show steps ≤ budget.stepsRemaining
      omega
    · show cells ≤ budget.cellsRemaining
      omega
    · show memory ≤ budget.memoryLimit + 1 - budget.memoryUsed
      omega
  have hdone := hneed (.new budget) rfl hleft
  rw [evaluateWithContext_eq h.typechecks]
  cases hmean : meaning context (typedTree p typed) input witness with
  | none =>
    rw [hmean] at hdone
    obtain ⟨e, s', herror⟩ := hdone
    simp [herror]
  | some result =>
    obtain ⟨w, rest⟩ := result
    rw [hmean] at hdone
    obtain ⟨s', hok, hview, -⟩ := hdone
    have hend : rest = [] ↔ ¬ s'.pos < witness.length := by
      rw [← hview, unread, List.drop_eq_nil_iff, Nat.not_lt]
    rw [hok]
    dsimp only
    split
    · have hrest : rest ≠ [] := fun hnil => hend.mp hnil ‹_›
      simp [hrest]
    · simp [hend.mpr ‹_›]

end

end Exfer.Proof.Script
