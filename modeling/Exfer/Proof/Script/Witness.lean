import Exfer.Proof.Script.Frames
import Exfer.Proof.Wire.Script

/-!
# Witnesses cannot be extended or cut

A value is read off a witness whatever follows it (`deserializeDepth_stable`), so an evaluation that
returns does the same with more bytes behind the witness (`evalNode_agrees`), and then fails for the
bytes it has left. Hence of all the prefixes and extensions of a witness only one is accepted
(`witness_exact`).
-/

namespace Exfer.Proof.Script

open Lib Impl Impl.Script

/-! ## Reading values -/

theorem hashOfBytes_more (h : 32 ≤ data.length) (more : List UInt8) :
    hashOfBytes (data ++ more) = hashOfBytes data := by
  unfold hashOfBytes
  congr 1
  funext i
  rw [List.getD_eq_getElem?_getD, List.getD_eq_getElem?_getD,
    List.getElem?_append_left (Nat.lt_of_lt_of_le i.isLt h)]

theorem deserializeDepth_stable (levels : Nat) : Stable (Value.deserializeDepth levels) := by
  induction levels with
  | zero => exact fun _ _ _ h => nomatch h
  | succ levels ih =>
    intro data v n h
    refine ⟨(deserializeDepth_canonical (levels + 1) h).1, fun more => ?_⟩
    cases data with
    | nil => cases h
    | cons tag rest =>
      rw [List.cons_append]
      rw [Value.deserializeDepth] at h ⊢
      unfold Value.deserializeTagged at h ⊢
      split at h
      · exact h
      iterate 2
        · obtain ⟨⟨w, c⟩, hw, h⟩ := bind_eq_ok.mp h
          exact bind_eq_ok.mpr ⟨(w, c), (ih hw).2 more, h⟩
      · obtain ⟨⟨a, ca⟩, ha, h⟩ := bind_eq_ok.mp h
        obtain ⟨⟨b, cb⟩, hb, h⟩ := bind_eq_ok.mp h
        refine bind_eq_ok.mpr ⟨(a, ca), (ih ha).2 more, bind_eq_ok.mpr ⟨(b, cb), ?_, h⟩⟩
        rw [List.drop_append_of_le_length (ih ha).1]
        exact (ih hb).2 more
      · split at h
        · cases h
        rename_i hlen
        have htake : (rest ++ more).take 4 = rest.take 4 :=
          List.take_append_of_le_length (Nat.not_lt.mp hlen)
        have hdrop : (rest ++ more).drop 4 = rest.drop 4 ++ more :=
          List.drop_append_of_le_length (Nat.not_lt.mp hlen)
        rw [if_neg (by rw [List.length_append]; omega), htake, hdrop]
        split at h
        · cases h
        rename_i hcount
        rw [if_neg hcount]
        obtain ⟨⟨vs, pos⟩, hvs, h⟩ := bind_eq_ok.mp h
        rw [deserializeElems_eq] at hvs
        refine bind_eq_ok.mpr ⟨(vs, pos), ?_, h⟩
        rw [deserializeElems_eq]
        exact (ih.many _ hvs).2 more
      · split at h
        · cases h
        rename_i hlen
        split at h
        · cases h
        rename_i hdata
        have htake : (rest ++ more).take 4 = rest.take 4 :=
          List.take_append_of_le_length (Nat.not_lt.mp hlen)
        have hdrop : ((rest ++ more).drop 4).take (leNat (rest.take 4)) =
            (rest.drop 4).take (leNat (rest.take 4)) := by
          rw [List.drop_append_of_le_length (Nat.not_lt.mp hlen)]
          refine List.take_append_of_le_length ?_
          rw [List.length_drop]
          omega
        rw [if_neg (by rw [List.length_append]; omega), htake,
          if_neg (by rw [List.length_append]; omega), hdrop]
        exact h
      · split at h
        · cases h
        rename_i hlen
        rw [if_neg (by rw [List.length_append]; omega),
          List.take_append_of_le_length (Nat.not_lt.mp hlen)]
        exact h
      · split at h
        · cases h
        rename_i hlen
        rw [if_neg (by rw [List.length_append]; omega), hashOfBytes_more (Nat.not_lt.mp hlen)]
        exact h
      · split at h
        · cases h
        · exact h
        · exact h
        · cases h
      · split at h
        · cases h
        rename_i hlen
        rw [if_neg (by rw [List.length_append]; omega), hashOfBytes_more (Nat.not_lt.mp hlen)]
        exact h
      · cases h

/-! ## Evaluation -/

/-- The witness reader is within the witness. -/
def Within (witness : List UInt8) (s : EvalState) : Prop :=
  s.pos ≤ witness.length

section primitives

variable {witness : List UInt8}

theorem consumeSteps_agrees (n : Nat) : Agrees (Within witness) (consumeSteps n) (consumeSteps n) := by
  refine .of_safe (Safe.get.bind fun s hs => ?_)
  split
  · exact .throw trivial
  · exact .set hs

theorem consumeStep_agrees : Agrees (Within witness) consumeStep consumeStep :=
  consumeSteps_agrees 1

theorem consumeCell_agrees : Agrees (Within witness) consumeCell consumeCell := by
  refine .of_safe (Safe.get.bind fun s hs => ?_)
  split
  · exact .throw trivial
  · exact .set hs

theorem trackMemory_agrees (size : Nat) : Agrees (Within witness) (trackMemory size) (trackMemory size) := by
  refine .of_safe (Safe.get.bind fun s hs => ?_)
  have hset : Within witness { s with budget.memoryUsed := s.budget.memoryUsed + size } := hs
  refine (Safe.set hset).bind fun _ _ => ?_
  split
  · exact .throw trivial
  · exact .pure trivial

theorem releaseMemory_agrees (size : Nat) : Agrees (Within witness) (releaseMemory size) (releaseMemory size) :=
  .of_safe (.modify fun _ hs => hs)

theorem produce_agrees (v : Value) : Agrees (Within witness) (produce v) (produce v) :=
  .of_safe fun _ hs => ⟨hs, trivial⟩

theorem readValue_run (s : EvalState) : readValue witness s =
    if s.pos ≥ witness.length then .error (.witnessError "unexpected end of witness data") s
    else match Value.deserialize (witness.drop s.pos) with
      | .error e => .error (.witnessError e) s
      | .ok (value, consumed) => .ok value { s with pos := s.pos + consumed } := by
  simp only [readValue, bind, EStateM.bind, MonadState.get, getThe, MonadStateOf.get, EStateM.get]
  split
  · rfl
  · cases Value.deserialize (witness.drop s.pos) <;> rfl

theorem readValue_eq_ok : readValue witness s = .ok v s' ↔
    s.pos < witness.length ∧ ∃ n, Value.deserialize (witness.drop s.pos) = .ok (v, n) ∧
      s' = { s with pos := s.pos + n } := by
  rw [readValue_run]
  constructor
  · intro h
    split at h
    · cases h
    rename_i hpos
    split at h <;> cases h
    rename_i n hvalue
    exact ⟨Nat.not_le.mp hpos, n, hvalue, rfl⟩
  · rintro ⟨hpos, n, hvalue, rfl⟩
    rw [if_neg (Nat.not_le.mpr hpos), hvalue]

/-- A value is read the same with more bytes behind the witness. -/
theorem readValue_agrees (more : List UInt8) :
    Agrees (Within witness) (readValue witness) (readValue (witness ++ more)) := by
  intro s v s' hs hrun
  obtain ⟨hpos, n, hvalue, rfl⟩ := readValue_eq_ok.mp hrun
  obtain ⟨hle, hmore⟩ := deserializeDepth_stable _ hvalue
  constructor
  · refine readValue_eq_ok.mpr ⟨?_, n, ?_, rfl⟩
    · rw [List.length_append]
      omega
    · rw [List.drop_append_of_le_length hs]
      exact hmore more
  · show s.pos + n ≤ witness.length
    rw [List.length_drop] at hle
    omega

theorem readTypedValue_agrees (more : List UInt8) (expected : Ty) :
    Agrees (Within witness) (readTypedValue witness expected) (readTypedValue (witness ++ more) expected) := by
  refine (readValue_agrees more).bind fun v => ?_
  split
  · exact .throw _ _
  · exact .of_safe (.pure trivial)

end primitives

section

variable [Crypto] {p : Program} {context : ScriptContext} {witness more : List UInt8}

section loops

variable {step step' : Value → EvalM Value} (hstep : ∀ v, Agrees (Within witness) (step v) (step' v))

include hstep

section

omit [Crypto]

theorem foldRound_agrees (elem : Value) (prevStepHeap : Nat) (acc : Value) :
    Agrees (Within witness) (foldRound step elem prevStepHeap acc)
      (foldRound step' elem prevStepHeap acc) := by
  refine consumeStep_agrees.bind fun _ => (releaseMemory_agrees _).bind fun _ => ?_
  refine (trackMemory_agrees _).bind fun _ => (produce_agrees _).bind fun stepInput => ?_
  exact (hstep stepInput).bind fun _ => .of_safe (.pure trivial)

theorem foldLoop_agrees (init : Value) (k prevStepHeap : Nat) (acc : Value) :
    Agrees (Within witness) (foldLoop step init k prevStepHeap acc)
      (foldLoop step' init k prevStepHeap acc) := by
  induction k generalizing prevStepHeap acc with
  | zero => exact (releaseMemory_agrees _).bind fun _ => .of_safe (.pure trivial)
  | succ k ih => exact (foldRound_agrees hstep init prevStepHeap acc).bind fun r => ih r.2 r.1

theorem listFoldLoop_agrees (elems : List Value) (prevStepHeap : Nat) (acc : Value) :
    Agrees (Within witness) (listFoldLoop step elems prevStepHeap acc)
      (listFoldLoop step' elems prevStepHeap acc) := by
  induction elems generalizing prevStepHeap acc with
  | nil => exact (releaseMemory_agrees _).bind fun _ => .of_safe (.pure trivial)
  | cons elem elems ih => exact (foldRound_agrees hstep elem prevStepHeap acc).bind fun r => ih r.2 r.1

end

end loops

theorem evalCombinator_agrees (more : List UInt8)
    (h : ∀ id v, Agrees (Within witness) (eval id v) (eval' id v)) (id : NodeId) (node : Combinator)
    (input : Value) : Agrees (Within witness) (evalCombinator context typed witness eval id node input)
      (evalCombinator context typed (witness ++ more) eval' id node input) := by
  have hpure (v : Value) : Agrees (Within witness) (pure v : EvalM Value) (pure v) := .of_safe (.pure trivial)
  have hbranch (side : String) (branch : NodeId) (payload : Value) :
      Agrees (Within witness) (evalBranch typed eval side branch payload)
        (evalBranch typed eval' side branch payload) := by
    unfold evalBranch
    split
    · split
      · exact .throw _ _
      · exact h branch payload
    · exact h branch payload
  cases node with
  | iden => exact consumeStep_agrees.bind fun _ => (trackMemory_agrees _).bind fun _ => hpure _
  | unit => exact consumeStep_agrees.bind fun _ => hpure _
  | comp f g =>
    refine consumeStep_agrees.bind fun _ => (h f input).bind fun mid => (h g mid).bind fun result => ?_
    exact (releaseMemory_agrees _).bind fun _ => hpure _
  | pair f g =>
    refine consumeStep_agrees.bind fun _ => consumeCell_agrees.bind fun _ => ?_
    refine (h f input).bind fun left => (h g input).bind fun right => ?_
    exact (trackMemory_agrees _).bind fun _ => hpure _
  | take f | drop f =>
    refine consumeStep_agrees.bind fun _ => ?_
    split
    · exact h f _
    · exact .throw _ _
  | injL f | injR f =>
    refine consumeStep_agrees.bind fun _ => consumeCell_agrees.bind fun _ => ?_
    exact (h f input).bind fun _ => (trackMemory_agrees _).bind fun _ => hpure _
  | case f g =>
    refine consumeStep_agrees.bind fun _ => ?_
    split
    · exact hbranch _ _ _
    · exact hbranch _ _ _
    · split
      · exact h _ _
      · exact .throw _ _
    · exact .throw _ _
  | fold f z k =>
    refine consumeStep_agrees.bind fun _ => ?_
    split
    · exact (h z _).bind fun acc => foldLoop_agrees (h f) _ _ _ _
    · exact .throw _ _
  | listFold f z =>
    refine consumeStep_agrees.bind fun _ => ?_
    split
    · exact (h z _).bind fun acc => listFoldLoop_agrees (h f) _ _ _
    · exact .throw _ _
    · exact .throw _ _
  | jet jet =>
    refine (consumeSteps_agrees _).bind fun _ => ?_
    split
    · exact .throw _ _
    · exact (trackMemory_agrees _).bind fun _ => hpure _
  | witness =>
    refine consumeStep_agrees.bind fun _ => (readTypedValue_agrees more _).bind fun v => ?_
    exact (trackMemory_agrees _).bind fun _ => hpure _
  | merkleHidden hash => exact .throw _ _
  | const v => exact consumeStep_agrees.bind fun _ => (trackMemory_agrees _).bind fun _ => hpure _

/-- An evaluation that returns does the same with more bytes behind the witness. -/
theorem evalNode_agrees (more : List UInt8) (levels : Nat) (id : NodeId) (input : Value) :
    Agrees (Within witness) (evalNode p context typed witness levels id input)
      (evalNode p context typed (witness ++ more) levels id input) := by
  induction levels generalizing id input with
  | zero => exact .throw _ _
  | succ levels ih =>
    unfold evalNode
    split
    · exact .throw _ _
    · exact (evalCombinator_agrees more ih id _ input).bind fun _ => produce_agrees _

theorem evaluateWithContext_extended
    (h : evaluateWithContext p context witness input (.new budget) = .ok v s) (hmore : more ≠ []) :
    ∃ e s', evaluateWithContext p context (witness ++ more) input (.new budget) = .error e s' := by
  cases htyped : typecheck p with
  | error e =>
    unfold evaluateWithContext at h
    rw [htyped] at h
    cases h
  | ok typed =>
    rw [evaluateWithContext_eq htyped] at h
    cases hrun : evalNode p context typed witness (maxEvalDepth + 1) p.root input (.new budget) with
    | error e s' =>
      rw [hrun] at h
      cases h
    | ok w s' =>
      have hstart : Within witness (.new budget) := Nat.zero_le _
      obtain ⟨hrun', hwithin⟩ := evalNode_agrees more _ _ _ hstart hrun
      rw [evaluateWithContext_eq htyped, hrun']
      have hlt : s'.pos < (witness ++ more).length := by
        have hpos := List.length_pos_iff.mpr hmore
        have hle : s'.pos ≤ witness.length := hwithin
        rw [List.length_append]
        omega
      exact ⟨_, s', if_pos hlt⟩

/-- Where an evaluation returns, it fails with every proper prefix and every proper extension of the
witness. -/
theorem witness_exact {input v : Value} {budget : Budget} {s : EvalState}
    (h : evaluateWithContext p context witness input (.new budget) = .ok v s) :
    (∀ other, other <+: witness → other ≠ witness →
      ∃ e s', evaluateWithContext p context other input (.new budget) = .error e s') ∧
    ∀ other, witness <+: other → other ≠ witness →
      ∃ e s', evaluateWithContext p context other input (.new budget) = .error e s' := by
  constructor
  · rintro other ⟨more, rfl⟩ hne
    have hmore : more ≠ [] := by
      rintro rfl
      exact hne (List.append_nil other).symm
    cases hother : evaluateWithContext p context other input (.new budget) with
    | error e s' => exact ⟨e, s', rfl⟩
    | ok w s' =>
      -- then the witness would be an extension of one that is accepted
      obtain ⟨e, t, hfails⟩ := evaluateWithContext_extended hother hmore
      rw [h] at hfails
      cases hfails
  · rintro other ⟨more, rfl⟩ hne
    refine evaluateWithContext_extended h ?_
    rintro rfl
    exact hne (List.append_nil witness)

end

/-- A script that reads a flag: with the flag cut, or a byte added, the evaluation fails. -/
theorem witness_exact_flag : let _ := Crypto.ofHash fun _ => Hash256.zero
    let evaluate witness := evaluateWithContext ⟨[.witness], 0⟩ ⟨[], [], 0, 0, []⟩ witness .unit
      (.new (.new 10 10))
    (∃ s, evaluate [8, 1] = .ok (.bool true) s) ∧ (∃ e s, evaluate [8] = .error e s) ∧
    ∃ e s, evaluate [8, 1, 0] = .error e s := by
  intro _ evaluate
  have hok : evaluate [8, 1] = .ok (.bool true) ⟨⟨9, 10, 0, maxScriptMemory⟩, 2, [.bool true]⟩ := by rfl
  have hexact := witness_exact hok
  exact ⟨⟨_, hok⟩, hexact.1 [8] ⟨[1], rfl⟩ (by decide), hexact.2 [8, 1, 0] ⟨[0], rfl⟩ (by decide)⟩

end Exfer.Proof.Script
