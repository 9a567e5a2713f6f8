import Exfer.Lib.Safe
import Exfer.Impl.Script.Eval

/-!
# Rules for the evaluator

One rule per primitive and per combinator of the evaluator, for invariants that every value in
the log satisfies `P`. An analysis of programs is sound when it follows these rules.
-/

namespace Exfer.Proof.Script

open Impl Impl.Script Lib

/-- Every value in the log satisfies `P`. -/
def Logged (P : Value → Prop) (s : EvalState) : Prop :=
  ∀ v ∈ s.produced, P v

theorem logged_new (P : Value → Prop) (budget : Budget) : Logged P (EvalState.new budget) := by
  simp [Logged, EvalState.new]

/-- The errors an evaluation may always end in. -/
structure Benign (E : EvalError → Prop) : Prop where
  budget : E .budgetExceeded
  memory : E .memoryExceeded
  witness : ∀ msg, E (.witnessError msg)

variable {P A : Value → Prop} {E : EvalError → Prop} {v acc : Value} {step : Value → EvalM Value}

theorem matchesType_bool : v.matchesType .boolType = true ↔ ∃ b, v.asBool = some b := by
  unfold Value.matchesType
  rw [if_pos rfl]
  unfold Value.asBool
  split <;> simp

/-! ## Primitives -/

theorem consumeSteps_safe (hE : Benign E) (n : Nat) : Safe (Logged P) (consumeSteps n) (fun _ => True) E := by
  refine Safe.get.bind fun s hs => ?_
  split
  · exact Safe.throw hE.budget
  · exact Safe.set hs

theorem consumeStep_safe (hE : Benign E) : Safe (Logged P) consumeStep (fun _ => True) E :=
  consumeSteps_safe hE 1

theorem consumeCell_safe (hE : Benign E) : Safe (Logged P) consumeCell (fun _ => True) E := by
  refine Safe.get.bind fun s hs => ?_
  split
  · exact Safe.throw hE.budget
  · exact Safe.set hs

theorem trackMemory_safe (hE : Benign E) (size : Nat) : Safe (Logged P) (trackMemory size) (fun _ => True) E := by
  refine Safe.get.bind fun s hs => ?_
  refine (Safe.set (by exact hs)).bind fun _ _ => ?_
  split
  · exact Safe.throw hE.memory
  · exact Safe.pure trivial

theorem releaseMemory_safe (size : Nat) : Safe (Logged P) (releaseMemory size) (fun _ => True) E :=
  Safe.modify fun _ hs => hs

theorem produce_safe (h : P v) : Safe (Logged P) (produce v) (· = v) E := by
  refine (Safe.modify fun s hs => ?_).bind fun _ _ => Safe.pure rfl
  intro w hw
  rcases List.mem_cons.mp hw with rfl | hw
  · exact h
  · exact hs w hw

/-- A value read from a byte string. -/
def Decoded (v : Value) : Prop :=
  ∃ data consumed, Value.deserialize data = .ok (v, consumed)

section

variable (hE : Benign E)
include hE

theorem readValue_safe (witness : List UInt8) : Safe (Logged P) (readValue witness) Decoded E := by
  refine Safe.get.bind fun s hs => ?_
  split
  · exact Safe.throw (hE.witness _)
  · split
    · exact Safe.throw (hE.witness _)
    · rename_i value consumed heq
      exact (Safe.set (by exact hs)).bind fun _ _ => Safe.pure ⟨_, _, heq⟩

/-- A witness value has the type it is read at, unless that is the wildcard. -/
theorem readTypedValue_safe (witness : List UInt8) (expected : Ty) :
    Safe (Logged P) (readTypedValue witness expected)
      (fun v => Decoded v ∧ (expected ≠ .unit → v.matchesType expected = true)) E := by
  refine (readValue_safe hE witness).bind fun v hv => ?_
  split
  · exact Safe.throw (hE.witness _)
  · rename_i hmatch
    refine Safe.pure ⟨hv, fun hne => ?_⟩
    simpa [hne] using hmatch

/-! ## Loops -/

theorem foldRound_safe (heap : Nat) (hP : P (.pair elem acc))
    (hstep : Safe (Logged P) (step (.pair elem acc)) A E) :
    Safe (Logged P) (foldRound step elem heap acc) (fun r => A r.1) E := by
  refine (consumeStep_safe hE).bind fun _ _ => ?_
  refine (releaseMemory_safe heap).bind fun _ _ => ?_
  refine (trackMemory_safe hE _).bind fun _ _ => ?_
  refine (produce_safe hP).bind ?_
  rintro _ rfl
  exact hstep.bind fun acc' hacc' => Safe.pure hacc'

/-- `A k` holds of the accumulator when `k` rounds remain. -/
theorem foldLoop_safe (A : Nat → Value → Prop) (hP : ∀ k acc, A (k + 1) acc → P (.pair init acc))
    (hstep : ∀ k acc, A (k + 1) acc → Safe (Logged P) (step (.pair init acc)) (A k) E) (heap : Nat)
    (hacc : A k acc) : Safe (Logged P) (foldLoop step init k heap acc) (A 0) E := by
  induction k generalizing heap acc with
  | zero => exact (releaseMemory_safe heap).bind fun _ _ => Safe.pure hacc
  | succ k ih =>
    refine (foldRound_safe hE heap (hP k acc hacc) (hstep k acc hacc)).bind ?_
    rintro ⟨acc', heap'⟩ hacc'
    exact ih heap' hacc'

/-- `A` holds of the accumulator in every round. -/
theorem listFoldLoop_safe (A : Value → Prop) (hP : ∀ elem ∈ elems, ∀ acc, A acc → P (.pair elem acc))
    (hstep : ∀ elem ∈ elems, ∀ acc, A acc → Safe (Logged P) (step (.pair elem acc)) A E)
    (heap : Nat) (hacc : A acc) : Safe (Logged P) (listFoldLoop step elems heap acc) A E := by
  induction elems generalizing heap acc with
  | nil => exact (releaseMemory_safe heap).bind fun _ _ => Safe.pure hacc
  | cons elem elems ih =>
    have hmem : elem ∈ elem :: elems := List.mem_cons_self
    refine (foldRound_safe hE heap (hP elem hmem acc hacc) (hstep elem hmem acc hacc)).bind ?_
    rintro ⟨acc', heap'⟩ hacc'
    exact ih (fun e he => hP e (List.mem_cons_of_mem _ he))
      (fun e he => hstep e (List.mem_cons_of_mem _ he)) heap' hacc'

end

/-! ## Combinators -/

section

variable [Crypto] {context : ScriptContext} {typed : List TypedNode} {witness : List UInt8}
  {eval : NodeId → Value → EvalM Value} {id f g : NodeId} {input : Value} {Q : Value → Prop}

section

variable (hE : Benign E)
include hE

theorem iden_safe (h : Q input) : Safe (Logged P) (evalCombinator context typed witness eval id .iden input) Q E :=
  (consumeStep_safe hE).bind fun _ _ => (trackMemory_safe hE _).bind fun _ _ => Safe.pure h

theorem unit_safe (h : Q .unit) : Safe (Logged P) (evalCombinator context typed witness eval id .unit input) Q E :=
  (consumeStep_safe hE).bind fun _ _ => Safe.pure h

theorem comp_safe (hf : Safe (Logged P) (eval f input) M E) (hg : ∀ mid, M mid → Safe (Logged P) (eval g mid) Q E) :
    Safe (Logged P) (evalCombinator context typed witness eval id (.comp f g) input) Q E := by
  refine (consumeStep_safe hE).bind fun _ _ => hf.bind fun mid hmid => ?_
  exact (hg mid hmid).bind fun r hr => (releaseMemory_safe _).bind fun _ _ => Safe.pure hr

theorem pair_safe (hf : Safe (Logged P) (eval f input) A E)
    (hg : Safe (Logged P) (eval g input) B E) (h : ∀ a b, A a → B b → Q (.pair a b)) :
    Safe (Logged P) (evalCombinator context typed witness eval id (.pair f g) input) Q E := by
  refine (consumeStep_safe hE).bind fun _ _ => (consumeCell_safe hE).bind fun _ _ => ?_
  refine hf.bind fun a ha => hg.bind fun b hb => ?_
  exact (trackMemory_safe hE _).bind fun _ _ => Safe.pure (h a b ha hb)

theorem take_safe (hf : ∀ a b, input = .pair a b → Safe (Logged P) (eval f a) Q E)
    (herr : (∀ a b, input ≠ .pair a b) → E (.typeMismatch "Take expects Pair input")) :
    Safe (Logged P) (evalCombinator context typed witness eval id (.take f) input) Q E := by
  refine (consumeStep_safe hE).bind fun _ _ => ?_
  split
  · exact hf _ _ rfl
  · exact Safe.throw (herr ‹_›)

theorem drop_safe (hf : ∀ a b, input = .pair a b → Safe (Logged P) (eval f b) Q E)
    (herr : (∀ a b, input ≠ .pair a b) → E (.typeMismatch "Drop expects Pair input")) :
    Safe (Logged P) (evalCombinator context typed witness eval id (.drop f) input) Q E := by
  refine (consumeStep_safe hE).bind fun _ _ => ?_
  split
  · exact hf _ _ rfl
  · exact Safe.throw (herr ‹_›)

theorem injL_safe (hf : Safe (Logged P) (eval f input) A E) (h : ∀ a, A a → Q (.left a)) :
    Safe (Logged P) (evalCombinator context typed witness eval id (.injL f) input) Q E := by
  refine (consumeStep_safe hE).bind fun _ _ => (consumeCell_safe hE).bind fun _ _ => ?_
  exact hf.bind fun a ha => (trackMemory_safe hE _).bind fun _ _ => Safe.pure (h a ha)

theorem injR_safe (hf : Safe (Logged P) (eval f input) A E) (h : ∀ a, A a → Q (.right a)) :
    Safe (Logged P) (evalCombinator context typed witness eval id (.injR f) input) Q E := by
  refine (consumeStep_safe hE).bind fun _ _ => (consumeCell_safe hE).bind fun _ _ => ?_
  exact hf.bind fun a ha => (trackMemory_safe hE _).bind fun _ _ => Safe.pure (h a ha)

end

omit [Crypto] in
theorem evalBranch_safe (h : Safe (Logged P) (eval f payload) Q E)
    (herr : ∀ ty, inputTypeOf typed f = some ty → payload.matchesType ty = false →
      E (.typeMismatch ("Case " ++ side ++ " payload type mismatch: expected " ++ ty.debug))) :
    Safe (Logged P) (evalBranch typed eval side f payload) Q E := by
  unfold evalBranch
  split
  · rename_i ty hty
    split
    · rename_i hm
      exact Safe.throw (herr ty hty (by simpa using hm))
    · exact h
  · exact h

section

variable (hE : Benign E)
include hE

/-- The rule for `Case`: `hl` and `hr` for tagged payloads, `hbool` for the shortcut on booleans. -/
theorem case_safe (hl : ∀ a, input = .left a → Safe (Logged P) (evalBranch typed eval "Left" f a) Q E)
    (hr : ∀ b, input = .right b → Safe (Logged P) (evalBranch typed eval "Right" g b) Q E)
    (hbool : ∀ b, input = .bool b → inputTypeOf typed id = some .boolType →
      Safe (Logged P) (eval (if b then g else f) .unit) Q E)
    (herr : (∀ a, input ≠ .left a) → (∀ b, input ≠ .right b) →
      (∀ b, input = .bool b → inputTypeOf typed id ≠ some .boolType) →
      E (.typeMismatch "Case expects Sum (Left/Right) or Bool input")) :
    Safe (Logged P) (evalCombinator context typed witness eval id (.case f g) input) Q E := by
  refine (consumeStep_safe hE).bind fun _ _ => ?_
  split
  · exact hl _ rfl
  · exact hr _ rfl
  · rename_i b
    split
    · exact hbool b rfl ‹_›
    · refine Safe.throw (herr (by simp) (by simp) ?_)
      intro _ _
      assumption
  · rename_i hnl hnr hnb
    exact Safe.throw (herr hnl hnr fun b hb => absurd hb (hnb b))

theorem fold_safe (A : Nat → Value → Prop)
    (hz : ∀ a init, input = .pair a init → Safe (Logged P) (eval z init) (A k.toNat) E)
    (hP : ∀ a init, input = .pair a init → ∀ i acc, A (i + 1) acc → P (.pair init acc))
    (hf : ∀ a init, input = .pair a init → ∀ i acc, A (i + 1) acc →
      Safe (Logged P) (eval f (.pair init acc)) (A i) E) (hQ : ∀ acc, A 0 acc → Q acc)
    (herr : (∀ a b, input ≠ .pair a b) → E (.typeMismatch "Fold expects Pair input")) :
    Safe (Logged P) (evalCombinator context typed witness eval id (.fold f z k) input) Q E := by
  refine (consumeStep_safe hE).bind fun _ _ => ?_
  split
  · rename_i a init
    refine (hz a init rfl).bind fun acc hacc => ?_
    exact (foldLoop_safe hE A (hP a init rfl) (hf a init rfl) 0 hacc).mono hQ
  · exact Safe.throw (herr ‹_›)

theorem listFold_safe (A : Value → Prop) (hz : ∀ a init, input = .pair a init → Safe (Logged P) (eval z init) A E)
    (hP : ∀ elems init, input = .pair (.list elems) init → ∀ elem ∈ elems, ∀ acc, A acc →
      P (.pair elem acc)) (hf : ∀ elems init, input = .pair (.list elems) init → ∀ elem ∈ elems, ∀ acc, A acc →
      Safe (Logged P) (eval f (.pair elem acc)) A E) (hQ : ∀ acc, A acc → Q acc)
    (herr : (∀ elems init, input ≠ .pair (.list elems) init) → ∀ msg, E (.typeMismatch msg)) :
    Safe (Logged P) (evalCombinator context typed witness eval id (.listFold f z) input) Q E := by
  refine (consumeStep_safe hE).bind fun _ _ => ?_
  split
  · rename_i elems init
    refine (hz _ init rfl).bind fun acc hacc => ?_
    exact (listFoldLoop_safe hE A (hP elems init rfl) (hf elems init rfl) 0 hacc).mono hQ
  · rename_i hne
    refine Safe.throw (herr (fun elems init heq => ?_) _)
    injection heq with h1 h2
    exact hne elems h1
  · rename_i hne
    exact Safe.throw (herr (fun elems init => hne _ _) _)

theorem jet_safe (hok : ∀ r, jet.eval input context = .ok r → Q r)
    (herr : ∀ e, jet.eval input context = .error e → E (.jetError e)) :
    Safe (Logged P) (evalCombinator context typed witness eval id (.jet jet) input) Q E := by
  refine (consumeSteps_safe hE _).bind fun _ _ => ?_
  split
  · exact Safe.throw (herr _ ‹_›)
  · exact (trackMemory_safe hE _).bind fun _ _ => Safe.pure (hok _ ‹_›)

theorem witness_safe (h : ∀ v, Decoded v → ((typed[id]?.map TypedNode.outputType).getD .unit ≠ .unit →
      v.matchesType ((typed[id]?.map TypedNode.outputType).getD .unit) = true) → Q v) :
    Safe (Logged P) (evalCombinator context typed witness eval id .witness input) Q E := by
  refine (consumeStep_safe hE).bind fun _ _ => ?_
  refine (readTypedValue_safe hE _ _).bind fun v hv => ?_
  exact (trackMemory_safe hE _).bind fun _ _ => Safe.pure (h v hv.1 hv.2)

theorem const_safe (h : Q v) :
    Safe (Logged P) (evalCombinator context typed witness eval id (.const v) input) Q E :=
  (consumeStep_safe hE).bind fun _ _ => (trackMemory_safe hE _).bind fun _ _ => Safe.pure h

end

/-- A node is evaluated by its combinator, and the result is logged. -/
theorem evalNode_safe (hget : p.get id = some node)
    (h : Safe (Logged P) (evalCombinator context typed witness (evalNode p context typed witness
      levels) id node input) Q E) (hP : ∀ v, Q v → P v) :
    Safe (Logged P) (evalNode p context typed witness (levels + 1) id input) Q E := by
  rw [evalNode, hget]
  refine h.bind fun v hv => (produce_safe (hP v hv)).mono ?_
  rintro _ rfl
  exact hv

/-- The whole evaluation, from the program's root. -/
theorem evaluateWithContext_safe (hE : Benign E) (htyped : typecheck p = .ok typed)
    (h : Safe (Logged P) (evalNode p context typed witness (maxEvalDepth + 1) p.root input) Q E) :
    Safe (Logged P) (evaluateWithContext p context witness input) Q E := by
  unfold evaluateWithContext
  rw [htyped]
  refine h.bind fun v hv => Safe.get.bind fun s _ => ?_
  split
  · exact Safe.throw (hE.witness _)
  · exact Safe.pure hv

end

end Exfer.Proof.Script
