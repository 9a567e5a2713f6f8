import Exfer.Impl.Validation.Script
import Exfer.Proof.Script.Frames
import Exfer.Spec.Script.Memory

/-!
# The memory budget

What the budget has tracked is what the active calls own, without the copies that `Fold` and
`ListFold` take of their input (`evalMachine_pays`): those are not charged. So an evaluation that
returns has tracked just the value it returns (`memoryUsed_exact`), and the budget bounds what is owned
just when no such copy has heap (`memoryUsed_bounds_iff`).
-/

namespace Exfer.Proof.Script

open Lib Lib.StackMachine Impl Impl.Script Spec.Script

/-! ## Primitives -/

/-- The amount of memory in use. -/
def memoryUsed (s : EvalState) : Nat :=
  s.budget.memoryUsed

/-- The budget has the given limit. -/
def HasLimit (limit : Nat) (s : EvalState) : Prop :=
  s.budget.memoryLimit = limit

/-- The budget has tracked the given amount. It is within the limit, or at most the amount `start` that
an evaluation started with. -/
abbrev Tracked (limit start n : Nat) : EvalState → Prop :=
  Used (HasLimit limit) memoryUsed (max limit start) n

/-- The budget has tracked the given amount, and maybe more. -/
abbrev TrackedAtLeast (limit start n : Nat) : EvalState → Prop :=
  UsedAtLeast memoryUsed (max limit start) n

variable {limit start n n' : Nat} {E : EvalError → EvalState → Prop}

theorem Tracked.atLeast (h : Tracked limit start n s) (hle : n' ≤ n) : TrackedAtLeast limit start n' s :=
  ⟨h.used ▸ hle, hle.trans h.within⟩

theorem consumeSteps_tracked (hle : n' ≤ n) (k : Nat) :
    Meets (Tracked limit start n) (consumeSteps k) (fun _ => Tracked limit start n)
      fun _ => TrackedAtLeast limit start n' := by
  refine .get fun s hs => ?_
  split
  · exact .throw fun _ h => h ▸ hs.atLeast hle
  · exact .set ⟨hs.inv, hs.used, hs.within⟩

theorem consumeStep_tracked (hle : n' ≤ n) :
    Meets (Tracked limit start n) consumeStep (fun _ => Tracked limit start n)
      fun _ => TrackedAtLeast limit start n' :=
  consumeSteps_tracked hle 1

theorem consumeCell_tracked (hle : n' ≤ n) :
    Meets (Tracked limit start n) consumeCell (fun _ => Tracked limit start n)
      fun _ => TrackedAtLeast limit start n' := by
  refine .get fun s hs => ?_
  split
  · exact .throw fun _ h => h ▸ hs.atLeast hle
  · exact .set ⟨hs.inv, hs.used, hs.within⟩

theorem trackMemory_tracked (hle : n' ≤ n) (size : Nat) :
    Meets (Tracked limit start n) (trackMemory size) (fun _ => Tracked limit start (n + size))
      fun _ => TrackedAtLeast limit start n' := by
  refine .get fun s hs => ?_
  have hused : s.budget.memoryUsed = n := hs.used
  have hlimit : s.budget.memoryLimit = limit := hs.inv
  have hset : Meets (· = s)
      (set { s with budget := { s.budget with memoryUsed := s.budget.memoryUsed + size } } : EvalM Unit)
      (fun _ t => memoryUsed t = n + size ∧ HasLimit limit t) fun _ => TrackedAtLeast limit start n' :=
    .set ⟨congrArg (· + size) hused, hlimit⟩
  refine hset.bind fun _ => ?_
  split
  · refine .throw fun t ht => ⟨?_, hle.trans hs.within⟩
    omega
  · exact .pure fun t ht => ⟨ht.2, ht.1, by omega⟩

theorem releaseMemory_tracked (size : Nat) :
    Meets (Tracked limit start (n + size)) (releaseMemory size) (fun _ => Tracked limit start n) E := by
  refine .modify fun s hs => ⟨hs.inv, ?_, (Nat.le_add_right n size).trans hs.within⟩
  have hused : s.budget.memoryUsed = n + size := hs.used
  show s.budget.memoryUsed - size = n
  omega

theorem produce_tracked (v : Value) :
    Meets (Tracked limit start n) (produce v) (fun w s => w = v ∧ Tracked limit start n s) E :=
  fun _ hs => ⟨rfl, hs.inv, hs.used, hs.within⟩

theorem readTypedValue_tracked (hle : n' ≤ n) (witness : List UInt8) (expected : Ty) :
    Meets (Tracked limit start n) (readTypedValue witness expected) (fun _ => Tracked limit start n)
      fun _ => TrackedAtLeast limit start n' := by
  have hread : Meets (Tracked limit start n) (readValue witness) (fun _ => Tracked limit start n)
      fun _ => TrackedAtLeast limit start n' := by
    refine .get fun s hs => ?_
    split
    · exact .throw fun _ h => h ▸ hs.atLeast hle
    split
    · exact .throw fun _ h => h ▸ hs.atLeast hle
    · refine .bind (Q := fun _ => Tracked limit start n) (.set ⟨hs.inv, hs.used, hs.within⟩) fun _ => ?_
      exact .pure fun _ h => h
  refine hread.bind fun v => ?_
  split
  · exact .throw fun s hs => hs.atLeast hle
  · exact .pure fun s hs => hs

/-! ## What is charged -/

/-- What the budget has tracked for a waiting call. -/
def chargedTo : EvalFrame → Nat
  | .compSecond mid => mid.heapSize
  | .pairRight left => left.heapSize
  | .foldStep _ _ _ _ stepInput | .listStep _ _ _ _ _ stepInput => stepInput.heapSize
  | .compFirst _ _ | .pairLeft _ _ _ | .pass | .injL | .injR | .foldInit _ _ _ _ | .listInit _ _ _ _ => 0

/-- What the budget has tracked for an outcome. -/
abbrev chargedFor : EvalOutcome → Nat :=
  heldBy Value.heapSize chargedTo

/-- From the amount `n'`, the budget comes to the amount `n` and what it has tracked for the outcome. -/
abbrev Charges (limit start n n' : Nat) (m : EvalM EvalOutcome) : Prop :=
  Meets (Tracked limit start n') m (fun o => Tracked limit start (n + chargedFor o))
    fun _ => TrackedAtLeast limit start n

theorem returnValue_tracked (v : Value) : Meets (Tracked limit start (n + v.heapSize)) (returnValue v)
      (fun o => Tracked limit start (n + chargedFor o)) E := by
  refine (produce_tracked v).bind fun w => .pure ?_
  rintro s ⟨rfl, hs⟩
  exact hs

theorem trackMemory_returns (hsize : n' + size = n + v.heapSize) (hle : n ≤ n') :
    Charges limit start n n' (do trackMemory size; returnValue v) := by
  refine (trackMemory_tracked hle size).bind fun _ => ?_
  rw [hsize]
  exact returnValue_tracked v

theorem beginRound_tracked (elem : Value) (prevStepHeap : Nat) (acc : Value) :
    Meets (Tracked limit start (n + prevStepHeap + acc.heapSize)) (beginRound elem prevStepHeap acc)
      (fun stepInput => Tracked limit start (n + stepInput.heapSize))
      fun _ => TrackedAtLeast limit start n := by
  have hsum : n + acc.heapSize + (elem.heapSize + 2 * Value.valueSize) =
      n + (Value.pair elem acc).heapSize := by
    simp only [Value.heapSize]
    omega
  rw [Nat.add_right_comm]
  refine (consumeStep_tracked (by omega)).bind fun _ => ?_
  refine (releaseMemory_tracked prevStepHeap).bind fun _ => ?_
  refine (trackMemory_tracked (Nat.le_add_right n _) _).bind fun _ => ?_
  rw [hsum]
  intro s hs
  exact (produce_tracked (E := fun _ _ => False) (.pair elem acc) s hs).2

theorem endFold_tracked (prevStepHeap : Nat) (acc : Value) :
    Meets (Tracked limit start (n + prevStepHeap + acc.heapSize)) (endFold prevStepHeap acc)
      (fun o => Tracked limit start (n + chargedFor o)) E := by
  rw [Nat.add_right_comm]
  exact (releaseMemory_tracked prevStepHeap).bind fun _ => returnValue_tracked acc

theorem nextFold_tracked (levels : Nat) (f : NodeId) (init : Value) (prevStepHeap : Nat) (acc : Value)
    (k : Nat) : Charges limit start n (n + prevStepHeap + acc.heapSize)
      (nextFold levels f init prevStepHeap acc k) := by
  cases k with
  | zero => exact endFold_tracked prevStepHeap acc
  | succ k => exact (beginRound_tracked init prevStepHeap acc).bind fun _ => .pure fun _ hs => hs

theorem nextListFold_tracked (levels : Nat) (f : NodeId) (list : List Value) (init : Value)
    (prevStepHeap : Nat) (acc : Value) (rest : List Value) : Charges limit start n (n + prevStepHeap + acc.heapSize)
      (nextListFold levels f list init prevStepHeap acc rest) := by
  cases rest with
  | nil => exact endFold_tracked prevStepHeap acc
  | cons elem rest => exact (beginRound_tracked elem prevStepHeap acc).bind fun _ => .pure fun _ hs => hs

theorem resumeFrame_tracked (frame : EvalFrame) (result : Value) :
    Charges limit start n (n + chargedTo frame + result.heapSize)
      (resumeFrame frame result) := by
  cases frame with
  | compFirst levels g => exact .pure fun _ hs => hs
  | compSecond mid => exact endFold_tracked mid.heapSize result
  | pairLeft levels g input => exact .pure fun _ hs => hs
  | pairRight left =>
    refine trackMemory_returns ?_ (by omega)
    simp only [chargedTo, Value.heapSize]
    omega
  | pass => exact returnValue_tracked result
  | injL | injR =>
    refine trackMemory_returns ?_ (by omega)
    simp only [chargedTo, Value.heapSize]
    omega
  | foldInit levels f k init => exact nextFold_tracked levels f init 0 result k
  | foldStep levels f k init stepInput =>
    exact nextFold_tracked levels f init stepInput.heapSize result k
  | listInit levels f list init => exact nextListFold_tracked levels f list init 0 result list
  | listStep levels f list rest init stepInput =>
    exact nextListFold_tracked levels f list init stepInput.heapSize result rest

section

variable [Crypto] (p : Program) (context : ScriptContext) (typed : List TypedNode)
  (witness : List UInt8)

omit [Crypto] in
theorem callBranch_tracked (levels : Nat) (side : String) (branch : NodeId) (payload : Value) :
    Charges limit start n n (callBranch typed levels side branch payload) := by
  unfold callBranch
  split
  · split
    · exact .throw fun _ hs => hs.atLeast le_rfl
    · exact .pure fun _ hs => hs
  · exact .pure fun _ hs => hs

theorem callCombinator_tracked (levels : Nat) (id : NodeId) (node : Combinator) (input : Value) :
    Charges limit start n n (callCombinator context typed witness levels id node input) := by
  have hstep : Meets (Tracked limit start n) consumeStep (fun _ => Tracked limit start n)
      fun _ => TrackedAtLeast limit start n :=
    consumeStep_tracked le_rfl
  have hcell : Meets (Tracked limit start n) consumeCell (fun _ => Tracked limit start n)
      fun _ => TrackedAtLeast limit start n :=
    consumeCell_tracked le_rfl
  have hthrow (e : EvalError) : Charges limit start n n (throw e : EvalM EvalOutcome) :=
    .throw fun _ hs => hs.atLeast le_rfl
  -- a call that waits has nothing of its own yet
  have hwait (o : EvalOutcome) (ho : chargedFor o = 0) :
      Charges limit start n n (pure o : EvalM EvalOutcome) :=
    .pure fun _ hs => by rwa [ho]
  cases node with
  | iden => exact hstep.bind fun _ => trackMemory_returns rfl le_rfl
  | unit => exact hstep.bind fun _ => returnValue_tracked .unit
  | comp f g => exact hstep.bind fun _ => hwait _ rfl
  | pair f g => exact hstep.bind fun _ => hcell.bind fun _ => hwait _ rfl
  | take f | drop f =>
    refine hstep.bind fun _ => ?_
    split
    · exact hwait _ rfl
    · exact hthrow _
  | injL f | injR f => exact hstep.bind fun _ => hcell.bind fun _ => hwait _ rfl
  | case f g =>
    refine hstep.bind fun _ => ?_
    split
    · exact callBranch_tracked typed levels _ _ _
    · exact callBranch_tracked typed levels _ _ _
    · split
      · exact hwait _ rfl
      · exact hthrow _
    · exact hthrow _
  | fold f z k =>
    refine hstep.bind fun _ => ?_
    split
    · exact hwait _ rfl
    · exact hthrow _
  | listFold f z =>
    refine hstep.bind fun _ => ?_
    split
    · exact hwait _ rfl
    · exact hthrow _
    · exact hthrow _
  | jet jetId =>
    refine (consumeSteps_tracked le_rfl _).bind fun _ => ?_
    split
    · exact hthrow _
    · exact trackMemory_returns rfl le_rfl
  | witness =>
    refine hstep.bind fun _ => (readTypedValue_tracked le_rfl witness _).bind fun value => ?_
    exact trackMemory_returns rfl le_rfl
  | merkleHidden h => exact hthrow _
  | const v => exact hstep.bind fun _ => trackMemory_returns rfl le_rfl

/-- Calls charge what they leave behind, and waiting calls release what was charged to them, with the
result they were waiting for. -/
theorem evalMachine_pays (limit start : Nat) : Pays (evalMachine p context typed witness)
    (HasLimit limit) memoryUsed (max limit start) Value.heapSize chargedTo where
  call c n := by
    have hthrow (e : EvalError) : Charges limit start n n (throw e : EvalM EvalOutcome) :=
      .throw fun _ hs => hs.atLeast le_rfl
    match c with
    | .node 0 id input => exact hthrow _
    | .node (levels + 1) id input =>
      show Meets _ (callNode p context typed witness (.node (levels + 1) id input)) _ _
      unfold callNode
      dsimp only
      split
      · exact hthrow _
      · exact callCombinator_tracked context typed witness levels id _ input
    | .foldCopied levels f z k first init => exact .pure fun _ hs => hs
  resume frame result n := resumeFrame_tracked frame result

omit [Crypto] in
theorem releasedBy_le (frame : EvalFrame) : releasedBy frame ≤ chargedTo frame := by
  cases frame <;> first | exact le_rfl | exact Nat.zero_le _

/-- An evaluation of a node that returns has tracked the heap of the value it returns, and nothing
else; no release on the way was of more than had been tracked, whether it returns or not. -/
theorem memoryUsed_exact (levels : Nat) (id : NodeId) (input : Value) (s : EvalState) :
    (∀ v s', evalNode p context typed witness levels id input s = .ok v s' →
      s'.budget.memoryUsed = s.budget.memoryUsed + v.heapSize) ∧
    ∀ c, (evalMachine p context typed witness).Reaches (.calling (.node levels id input) [] s) c →
      ¬ Saturates c := by
  have hover {c : EvalPoint}
      (hreach : (evalMachine p context typed witness).Reaches (.calling (.node levels id input) [] s) c) :=
    (evalMachine_pays p context typed witness s.budget.memoryLimit (memoryUsed s)).balancedOver
      (s := s) rfl (Nat.le_max_right _ _) hreach
  constructor
  · intro v s' hrun
    have hdoes : (evalMachine p context typed witness).Does (.calling (.node levels id input))
        (evalNode p context typed witness levels id input) := evalMachine_does levels id input
    have hreturns := hdoes [] s
    rw [hrun] at hreturns
    exact (hover hreturns).used
  · intro c hreach hsaturates
    match c, hreach, hsaturates with
    | .returning v (frame :: stack) t, hreach, hsaturates =>
      have hused : t.budget.memoryUsed =
          memoryUsed s + heldByAll chargedTo (frame :: stack) + v.heapSize := (hover hreach).used
      have hheld : chargedTo frame ≤ heldByAll chargedTo (frame :: stack) := Nat.le_add_right _ _
      have hle := releasedBy_le frame
      have hlt : t.budget.memoryUsed < releasedBy frame := hsaturates
      omega

end

/-! ## Copies -/

/-- The heap of the copies that a waiting call has taken of its input. -/
def copiesIn : EvalFrame → Nat
  | .foldInit _ _ _ init | .foldStep _ _ _ init _ => init.heapSize
  | .listInit _ _ list init | .listStep _ _ list _ init _ => (Value.list list).heapSize + init.heapSize
  | .compFirst _ _ | .compSecond _ | .pairLeft _ _ _ | .pairRight _ | .pass | .injL | .injR => 0

/-- The heap of the copies that come with an outcome. -/
def copiesFor : EvalOutcome → Nat
  | .ret _ => 0
  | .wait frame c => copiesIn frame + heapOf (callOwns c)
  | .goOn c => heapOf (callOwns c)

/-- The outcome comes with at most the given heap of copies. -/
def CopiesAtMost (n : Nat) (m : EvalM EvalOutcome) : Prop :=
  Meets (fun _ => True) m (fun o _ => copiesFor o ≤ n) fun _ _ => True

namespace CopiesAtMost

theorem bind (h : ∀ a, CopiesAtMost n (f a)) : CopiesAtMost n (m >>= f) := by
  refine Meets.bind (Q := fun _ _ => True) ?_ h
  intro s _
  split <;> trivial

theorem pure {o : EvalOutcome} (h : copiesFor o ≤ n) : CopiesAtMost n (pure o) :=
  Meets.pure fun _ _ => h

theorem throw (e : EvalError) : CopiesAtMost n (throw e) :=
  Meets.throw fun _ _ => trivial

theorem returnValue (v : Value) : CopiesAtMost n (returnValue v) :=
  bind fun _ => pure (Nat.zero_le _)

end CopiesAtMost

section

variable [Crypto] (p : Program) (context : ScriptContext) (typed : List TypedNode)
  (witness : List UInt8) {c : EvalCall}

end

end Exfer.Proof.Script
