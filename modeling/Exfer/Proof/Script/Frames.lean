import Exfer.Impl.Script.Frames
import Mathlib

/-!
# The evaluator and its frames

The evaluator call by call does what it does in one piece (`evalMachine_does`): every evaluation of a
node ends with the value, or the error, and the state of `evalNode`.
-/

namespace Exfer.Proof.Script

open Lib Lib.StackMachine Impl Impl.Script

section

variable [Crypto] {p : Program} {context : ScriptContext} {typed : List TypedNode}
  {witness : List UInt8} {frame : EvalFrame}

/-- A call that returns without calls of its own. -/
theorem does_return (hcall : callNode p context typed witness c = m >>= returnValue) :
    (evalMachine p context typed witness).Does (.calling c) (m >>= produce) := by
  refine .call_ret (hcall.trans ?_)
  rw [bind_assoc]
  rfl

/-- A waiting call that returns once it has its result. -/
theorem does_resume_return (hresume : resumeFrame frame v = m >>= fun _ => returnValue w) :
    (evalMachine p context typed witness).Does (fun stack => .returning v (frame :: stack))
      (m >>= fun _ => produce w) := by
  refine .resume_ret (hresume.trans ?_)
  rw [bind_assoc]
  rfl

section loops

variable {levels : Nat} {f : NodeId} {eval : Value → EvalM Value}
  (hf : ∀ input, (evalMachine p context typed witness).Does (.calling (.node levels f input)) (eval input))

include hf

theorem foldLoop_does (init : Value) (k : Nat)
    (hresume : resumeFrame frame acc = nextFold levels f init prevStepHeap acc k) :
    (evalMachine p context typed witness).Does (fun stack => .returning acc (frame :: stack))
      (foldLoop eval init k prevStepHeap acc >>= produce) := by
  induction k generalizing frame prevStepHeap acc with
  | zero =>
    exact does_resume_return hresume
  | succ k ih =>
    have hloop : (foldLoop eval init (k + 1) prevStepHeap acc >>= produce) =
        beginRound init prevStepHeap acc >>= fun stepInput => eval stepInput >>= fun acc =>
          foldLoop eval init k stepInput.heapSize acc >>= produce := by
      simp only [foldLoop, foldRound, beginRound, bind_assoc, pure_bind]
    rw [hloop]
    refine .resume hresume fun stepInput => ?_
    exact .bind (hf stepInput) fun acc => ih rfl

theorem listFoldLoop_does (list : List Value) (init : Value) (rest : List Value)
    (hresume : resumeFrame frame acc = nextListFold levels f list init prevStepHeap acc rest) :
    (evalMachine p context typed witness).Does (fun stack => .returning acc (frame :: stack))
      (listFoldLoop eval rest prevStepHeap acc >>= produce) := by
  induction rest generalizing frame prevStepHeap acc with
  | nil =>
    exact does_resume_return hresume
  | cons elem rest ih =>
    have hloop : (listFoldLoop eval (elem :: rest) prevStepHeap acc >>= produce) =
        beginRound elem prevStepHeap acc >>= fun stepInput => eval stepInput >>= fun acc =>
          listFoldLoop eval rest stepInput.heapSize acc >>= produce := by
      simp only [listFoldLoop, foldRound, beginRound, bind_assoc, pure_bind]
    rw [hloop]
    refine .resume hresume fun stepInput => ?_
    exact .bind (hf stepInput) fun acc => ih rfl

end loops

section nodes

variable {levels : Nat} (heval : ∀ id input, (evalMachine p context typed witness).Does
  (.calling (.node levels id input)) (evalNode p context typed witness levels id input))

include heval

/-- A call that passes the result of another on. -/
theorem pass_does (id : NodeId) (input : Value) :
    Does.Goes (evalMachine p context typed witness) (.wait .pass (.node levels id input))
      (evalNode p context typed witness levels id input >>= produce) :=
  .bind (heval id input) fun v => does_resume_return (v := v) (w := v) (m := pure ()) rfl

/-- A call of `Case` on a tagged payload. -/
theorem case_does {c : EvalCall} {side : String} {branch : NodeId} {payload : Value}
    (hcall : callNode p context typed witness c =
      (do consumeStep; callBranch typed levels side branch payload)) :
    (evalMachine p context typed witness).Does (.calling c)
      ((do consumeStep; evalBranch typed (evalNode p context typed witness levels) side branch payload) >>=
        produce) := by
  cases hty : inputTypeOf typed branch with
  | none =>
    simp only [callBranch, hty] at hcall
    simp only [evalBranch, hty, bind_assoc]
    exact .call hcall fun _ => pass_does heval branch payload
  | some ty =>
    simp only [callBranch, hty] at hcall
    simp only [evalBranch, hty]
    by_cases hmatch : (! payload.matchesType ty) = true
    · simp only [if_pos hmatch] at hcall ⊢
      refine does_return (hcall.trans ?_)
      rw [bind_assoc]
      rfl
    · simp only [if_neg hmatch] at hcall ⊢
      rw [bind_assoc]
      exact .call hcall fun _ => pass_does heval branch payload

theorem combinator_does {id : NodeId} {node : Combinator} {input : Value} (hnode : p.get id = some node) :
    (evalMachine p context typed witness).Does (.calling (.node (levels + 1) id input))
      (evalCombinator context typed witness (evalNode p context typed witness levels) id node input >>=
        produce) := by
  have hcall : callNode p context typed witness (.node (levels + 1) id input) =
      callCombinator context typed witness levels id node input := by
    simp only [callNode, hnode]
  -- a node that is evaluated without calls, or fails before them
  have hleaf (h : callCombinator context typed witness levels id node input =
      evalCombinator context typed witness (evalNode p context typed witness levels) id node input >>=
        returnValue) := does_return (hcall.trans h)
  cases node with
  | iden | unit | witness =>
    apply hleaf
    simp only [callCombinator, evalCombinator, bind_assoc, pure_bind]
  | comp f g =>
    simp only [evalCombinator, bind_assoc, pure_bind]
    refine .call hcall fun _ => .bind (heval f input) fun mid => ?_
    refine .resume_pure rfl (.bind (heval g mid) fun result => ?_)
    exact does_resume_return rfl
  | pair f g =>
    simp only [evalCombinator, bind_assoc, pure_bind]
    simp only [← bind_assoc consumeStep]
    refine .call (hcall.trans (bind_assoc ..).symm) fun _ => .bind (heval f input) fun left => ?_
    refine .resume_pure rfl (.bind (heval g input) fun right => ?_)
    exact does_resume_return rfl
  | take f =>
    cases input with
    | pair a b =>
      simp only [evalCombinator, bind_assoc]
      exact .call hcall fun _ => pass_does heval f a
    | _ =>
      apply hleaf
      simp only [callCombinator, evalCombinator, bind_assoc]
      rfl
  | drop f =>
    cases input with
    | pair a b =>
      simp only [evalCombinator, bind_assoc]
      exact .call hcall fun _ => pass_does heval f b
    | _ =>
      apply hleaf
      simp only [callCombinator, evalCombinator, bind_assoc]
      rfl
  | injL f | injR f =>
    simp only [evalCombinator, bind_assoc, pure_bind]
    simp only [← bind_assoc consumeStep]
    refine .call (hcall.trans (bind_assoc ..).symm) fun _ => .bind (heval f input) fun v => ?_
    exact does_resume_return rfl
  | case f g =>
    cases input with
    | left a => exact case_does heval hcall
    | right b => exact case_does heval hcall
    | bool b =>
      by_cases hbool : inputTypeOf typed id = some .boolType
      · simp only [callCombinator, if_pos hbool] at hcall
        simp only [evalCombinator, if_pos hbool, bind_assoc]
        exact .call hcall fun _ => pass_does heval _ _
      · apply hleaf
        simp only [callCombinator, evalCombinator, if_neg hbool, bind_assoc]
        rfl
    | _ =>
      apply hleaf
      simp only [callCombinator, evalCombinator, bind_assoc]
      rfl
  | fold f z k =>
    cases input with
    | pair a init =>
      simp only [evalCombinator, bind_assoc]
      refine .call hcall fun _ => ?_
      refine .call_pure rfl (.bind (heval z init) fun acc => ?_)
      exact foldLoop_does (heval f) init k.toNat rfl
    | _ =>
      apply hleaf
      simp only [callCombinator, evalCombinator, bind_assoc]
      rfl
  | listFold f z =>
    cases input with
    | pair a init =>
      cases a with
      | list elems =>
        simp only [evalCombinator, bind_assoc]
        refine .call hcall fun _ => .bind (heval z init) fun acc => ?_
        exact listFoldLoop_does (heval f) elems init elems rfl
      | _ =>
        apply hleaf
        simp only [callCombinator, evalCombinator, bind_assoc]
        rfl
    | _ =>
      apply hleaf
      simp only [callCombinator, evalCombinator, bind_assoc]
      rfl
  | jet jetId =>
    apply hleaf
    cases hjet : jetId.eval input context with
    | error e =>
      simp only [callCombinator, evalCombinator, hjet, bind_assoc]
      rfl
    | ok v => simp only [callCombinator, evalCombinator, hjet, bind_assoc, pure_bind]
  | merkleHidden hash =>
    apply hleaf
    rfl
  | const v =>
    apply hleaf
    simp only [callCombinator, evalCombinator, bind_assoc, pure_bind]

end nodes

/-- The evaluator call by call does what it does in one piece. -/
theorem evalMachine_does (levels : Nat) (id : NodeId) (input : Value) :
    (evalMachine p context typed witness).Does (.calling (.node levels id input))
      (evalNode p context typed witness levels id input) := by
  induction levels generalizing id input with
  | zero => exact .call_ret rfl
  | succ levels ih =>
    unfold evalNode
    cases hnode : p.get id with
    | none =>
      refine .call_ret ?_
      show callNode p context typed witness (.node (levels + 1) id input) = _
      simp only [callNode, hnode]
      rfl
    | some node => exact combinator_does ih hnode

/-- An evaluation is that of the root, which must read the whole witness. -/
theorem evaluateWithContext_eq (htyped : typecheck p = .ok typed) (input : Value) (s : EvalState) :
    evaluateWithContext p context witness input s =
      match evalNode p context typed witness (maxEvalDepth + 1) p.root input s with
      | .ok v s' =>
        if s'.pos < witness.length then
          .error (.witnessError ("unconsumed witness bytes: " ++ toString s'.pos ++ " of " ++
            toString witness.length ++ " consumed")) s'
        else .ok v s'
      | .error e s' => .error e s' := by
  unfold evaluateWithContext
  rw [htyped]
  simp only [bind, EStateM.bind]
  cases evalNode p context typed witness (maxEvalDepth + 1) p.root input s with
  | error e s' => rfl
  | ok v s' =>
    simp only [getThe, MonadState.get, MonadStateOf.get, EStateM.get]
    split <;> rfl

end

end Exfer.Proof.Script
