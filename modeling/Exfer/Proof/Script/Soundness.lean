import Exfer.Proof.Script.Admission
import Exfer.Proof.Script.Jets

/-!
# Type soundness of scripts

`hasType_sound`: a node takes the values of its input type to values of its output type, or fails
for its resources. `script_type_sound` is the consequence for admitted scripts that have a type,
and `script_type_sound_counterexample` an admitted script that has none and fails in a jet.
-/

namespace Exfer.Proof.Script

open Impl Impl.Script Spec Lib

/-- A computation returns values of the type `B` or fails for its resources. -/
abbrev Returns (m : EvalM Value) (B : Option Ty) : Prop :=
  Safe (Logged fun _ => True) m (HasValue B) IsResourceError

theorem benign_resource : Benign IsResourceError :=
  ⟨trivial, trivial, fun _ => trivial⟩

theorem inTy_of_inputTypeOf {typed : List TypedNode} {id : NodeId} {ty : Ty}
    (h : inputTypeOf typed id = some ty) : inTy typed id = ty := by
  rw [inTy, show typed[id]?.map TypedNode.inputType = some ty from h, Option.getD_some]

section

variable [Crypto] {p : Program} {context : ScriptContext} {typed : List TypedNode}
  {witness : List UInt8}

omit [Crypto] in
/-- The branch of a case on a payload whose type passes the check. -/
theorem evalBranch_returns (hsub : Sub (some A) (some (inTy typed f)))
    (hpayload : payload.matchesType A = true) (heval : Returns (eval f payload) C) :
    Returns (evalBranch typed eval side f payload) C := by
  refine evalBranch_safe heval fun ty hty hmatch => ?_
  have hm : payload.matchesType (inTy typed f) = true := hsub payload hpayload
  rw [inTy_of_inputTypeOf hty, hmatch] at hm
  cases hm

/-- A node is evaluated with levels that exceed the depths of its children. -/
theorem evalNode_returns {depthOf : NodeId → Nat} {id : NodeId} {node : Combinator}
    (hdepth : ∀ i node, p.get i = some node → ∀ c ∈ node.children, depthOf c < depthOf i)
    (hlevels : depthOf id < levels) (hget : p.get id = some node)
    (h : ∀ n, (∀ c ∈ node.children, depthOf c < n) → Returns (evalCombinator context typed witness
      (evalNode p context typed witness n) id node input) B) :
    Returns (evalNode p context typed witness levels id input) B := by
  obtain ⟨n, rfl⟩ := Nat.exists_eq_add_one_of_ne_zero (Nat.ne_zero_of_lt hlevels)
  have hchild : ∀ c ∈ node.children, depthOf c < n := fun c hc =>
    Nat.lt_of_lt_of_le (hdepth id node hget c hc) (Nat.le_of_lt_succ hlevels)
  exact evalNode_safe hget (h n hchild) fun _ _ => trivial

/-- A typed node evaluates at its type when the levels exceed its depth. -/
theorem hasType_sound {depthOf : NodeId → Nat}
    (hdepth : ∀ i node, p.get i = some node → ∀ c ∈ node.children, depthOf c < depthOf i)
    {id : NodeId} {A B : Option Ty} (h : HasType p typed id A B) {levels : Nat}
    (hlevels : depthOf id < levels) {input : Value} (hin : HasValue A input) :
    Returns (evalNode p context typed witness levels id input) B := by
  induction h generalizing levels input with
  | sub h hA hB ih => exact (ih hlevels (hA input hin)).mono hB
  | iden hget =>
    refine evalNode_returns hdepth hlevels hget fun n hn => ?_
    exact iden_safe benign_resource hin
  | unit hget =>
    refine evalNode_returns hdepth hlevels hget fun n hn => ?_
    exact unit_safe benign_resource (matchesType_unit.mpr rfl)
  | comp hget hf hg ihf ihg =>
    refine evalNode_returns hdepth hlevels hget fun n hn => ?_
    exact comp_safe benign_resource (ihf (hn _ (.head _)) hin) fun mid hmid => ihg (hn _ (.tail _ (.head _))) hmid
  | pair hget hf hg ihf ihg =>
    refine evalNode_returns hdepth hlevels hget fun n hn => ?_
    refine pair_safe benign_resource (ihf (hn _ (.head _)) hin) (ihg (hn _ (.tail _ (.head _))) hin) fun a b ha hb => ?_
    exact matchesType_product.mpr ⟨a, b, rfl, ha, hb⟩
  | take hget hf ihf =>
    refine evalNode_returns hdepth hlevels hget fun n hn => ?_
    obtain ⟨a, b, rfl, ha, hb⟩ := matchesType_product.mp hin
    refine take_safe benign_resource ?_ fun h => absurd rfl (h a b)
    rintro _ _ ⟨rfl, rfl⟩
    exact ihf (hn _ (.head _)) ha
  | drop hget hf ihf =>
    refine evalNode_returns hdepth hlevels hget fun n hn => ?_
    obtain ⟨a, b, rfl, ha, hb⟩ := matchesType_product.mp hin
    refine drop_safe benign_resource ?_ fun h => absurd rfl (h a b)
    rintro _ _ ⟨rfl, rfl⟩
    exact ihf (hn _ (.head _)) hb
  | injL hget hf ihf =>
    refine evalNode_returns hdepth hlevels hget fun n hn => ?_
    refine injL_safe benign_resource (ihf (hn _ (.head _)) hin) fun a ha => ?_
    exact matchesType_sum.mpr (.inl ⟨a, rfl, ha⟩)
  | injR hget hf ihf =>
    refine evalNode_returns hdepth hlevels hget fun n hn => ?_
    refine injR_safe benign_resource (ihf (hn _ (.head _)) hin) fun a ha => ?_
    exact matchesType_sum.mpr (.inr (.inl ⟨a, rfl, ha⟩))
  | @case i f g A B C hget hf hg hA hB hbool ihf ihg =>
    refine evalNode_returns hdepth hlevels hget fun n hn => ?_
    rcases matchesType_sum.mp hin with ⟨a, rfl, ha⟩ | ⟨b, rfl, hb⟩ | ⟨hsum, b, rfl⟩
    · refine case_safe benign_resource ?_ (by simp) (by simp) fun h => absurd rfl (h a)
      rintro _ ⟨rfl⟩
      exact evalBranch_returns hA ha (ihf (hn _ (.head _)) ha)
    · refine case_safe benign_resource (by simp) ?_ (by simp) fun _ h => absurd rfl (h b)
      rintro _ ⟨rfl⟩
      exact evalBranch_returns hB hb (ihg (hn _ (.tail _ (.head _))) hb)
    · obtain ⟨rfl, rfl⟩ : A = .unit ∧ B = .unit := by simpa [Ty.boolType] using hsum
      refine case_safe benign_resource (by simp) (by simp) ?_
        fun _ _ h => absurd (hbool hsum) (h b rfl)
      rintro _ ⟨rfl⟩ _
      cases b
      · exact ihf (hn _ (.head _)) (matchesType_unit.mpr rfl)
      · exact ihg (hn _ (.tail _ (.head _))) (matchesType_unit.mpr rfl)
  | fold hget hz hf ihz ihf =>
    refine evalNode_returns hdepth hlevels hget fun n hn => ?_
    obtain ⟨a, init, rfl, ha, hinit⟩ := matchesType_product.mp hin
    refine fold_safe benign_resource (fun _ => HasValue (some _)) ?_ ?_ ?_ (fun _ h => h)
      fun h => absurd rfl (h a init)
    · rintro _ _ ⟨rfl, rfl⟩
      exact ihz (hn _ (.tail _ (.head _))) hinit
    · exact fun _ _ _ _ _ _ => trivial
    · rintro _ _ ⟨rfl, rfl⟩ i acc hacc
      exact ihf (hn _ (.head _)) (matchesType_product.mpr ⟨_, _, rfl, hinit, hacc⟩)
  | listFold hget hE hz hf ihz ihf =>
    refine evalNode_returns hdepth hlevels hget fun n hn => ?_
    obtain ⟨a, init, rfl, ha, hinit⟩ := matchesType_product.mp hin
    obtain ⟨elems, rfl, helems⟩ := (matchesType_list hE).mp ha
    refine listFold_safe benign_resource (HasValue (some _)) ?_ ?_ ?_ (fun _ h => h)
      fun h => absurd rfl (h elems init)
    · rintro _ _ ⟨rfl, rfl⟩
      exact ihz (hn _ (.tail _ (.head _))) hinit
    · exact fun _ _ _ _ _ _ _ => trivial
    · rintro _ _ ⟨rfl, rfl⟩ elem hmem acc hacc
      exact ihf (hn _ (.head _)) (matchesType_product.mpr ⟨_, _, rfl, helems elem hmem, hacc⟩)
  | jet hget hjet =>
    refine evalNode_returns hdepth hlevels hget fun n hn => ?_
    have hsound := jet_sound context hjet hin
    exact jet_safe benign_resource hsound.1 hsound.2
  | @witness i A hget =>
    refine evalNode_returns hdepth hlevels hget fun n hn => ?_
    refine witness_safe benign_resource fun v _ hv => ?_
    by_cases hunit : outTy typed i = .unit
    · rw [if_pos hunit]
      trivial
    · rw [if_neg hunit]
      exact hv hunit
  | const hget hv =>
    refine evalNode_returns hdepth hlevels hget fun n hn => ?_
    exact const_safe benign_resource hv

/-! ## The recursion limit -/

/-- A computation does not run out of levels. -/
abbrev Ends (m : EvalM Value) : Prop :=
  Safe (Logged fun _ => True) m (fun _ => True) (· ≠ .recursionDepthExceeded)

omit [Crypto] in
theorem benign_levels : Benign (· ≠ .recursionDepthExceeded) :=
  ⟨nofun, nofun, nofun⟩

theorem evalNode_ends {depthOf : NodeId → Nat}
    (hdepth : ∀ i node, p.get i = some node → ∀ c ∈ node.children, depthOf c < depthOf i) {id : NodeId}
    (hlevels : depthOf id < levels) (input : Value) : Ends (evalNode p context typed witness levels id input) := by
  have hE := benign_levels
  induction levels generalizing id input with
  | zero => exact absurd hlevels (Nat.not_lt_zero _)
  | succ n ih =>
    cases hget : p.get id with
    | none =>
      rw [Ends, evalNode, hget]
      exact Safe.throw (by simp)
    | some node =>
      have hchild : ∀ c ∈ node.children, ∀ v, Ends (evalNode p context typed witness n c v) :=
        fun c hc v => ih ((hdepth id node hget c hc).trans_le (Nat.le_of_lt_succ hlevels)) v
      refine evalNode_safe hget ?_ fun _ _ => trivial
      cases node with
      | iden => exact iden_safe hE trivial
      | unit => exact unit_safe hE trivial
      | comp f g => exact comp_safe hE (hchild f (.head _) _) fun v _ => hchild g (.tail _ (.head _)) v
      | pair f g =>
        exact pair_safe hE (hchild f (.head _) _) (hchild g (.tail _ (.head _)) _) fun _ _ _ _ => trivial
      | take f => exact take_safe hE (fun v _ _ => hchild f (.head _) v) fun _ => by simp
      | drop f => exact drop_safe hE (fun _ v _ => hchild f (.head _) v) fun _ => by simp
      | injL f => exact injL_safe hE (hchild f (.head _) _) fun _ _ => trivial
      | injR f => exact injR_safe hE (hchild f (.head _) _) fun _ _ => trivial
      | case f g =>
        have hf := hchild f (.head _)
        have hg := hchild g (.tail _ (.head _))
        refine case_safe hE (fun v _ => evalBranch_safe (hf v) fun _ _ _ => by simp)
          (fun v _ => evalBranch_safe (hg v) fun _ _ _ => by simp) (fun b _ _ => ?_) fun _ _ _ => by simp
        cases b
        · exact hf .unit
        · exact hg .unit
      | fold f z k =>
        exact fold_safe hE (fun _ _ => True) (fun _ v _ => hchild z (.tail _ (.head _)) v)
          (fun _ _ _ _ _ _ => trivial) (fun _ _ _ _ _ _ => hchild f (.head _) _) (fun _ _ => trivial)
          fun _ => by simp
      | listFold f z =>
        exact listFold_safe hE (fun _ => True) (fun _ v _ => hchild z (.tail _ (.head _)) v)
          (fun _ _ _ _ _ _ _ => trivial) (fun _ _ _ _ _ _ _ => hchild f (.head _) _) (fun _ _ => trivial)
          fun _ _ => by simp
      | jet id => exact jet_safe hE (fun _ _ => trivial) fun _ _ => by simp
      | witness => exact witness_safe hE fun _ _ _ => trivial
      | const v => exact const_safe hE trivial
      | merkleHidden hash => exact Safe.throw (by simp)

end

/-- Evaluation of a program within the limit on depth does not reach the limit on recursion. -/
theorem evaluation_within_levels [Crypto] {p : Program} (hdepth : p.maxDepth ≤ maxEvalDepth)
    (context : ScriptContext) (witness : List UInt8) (input : Value) (budget : Budget) (s : EvalState) :
    evaluateWithContext p context witness input (.new budget) ≠ .error .recursionDepthExceeded s := by
  intro hrun
  cases htyped : typecheck p with
  | error e =>
    rw [evaluateWithContext, htyped] at hrun
    cases hrun
  | ok typed =>
    obtain ⟨depthOf, hroot, hless⟩ := exists_depths (wellFormed_of_ok (valid_of_typecheck htyped))
    have hlevels : depthOf p.root < maxEvalDepth + 1 := by
      rw [hroot]
      exact Nat.lt_succ_of_le hdepth
    have hends : Ends (evalNode p context typed witness (maxEvalDepth + 1) p.root input) :=
      evalNode_ends hless hlevels input
    have hsafe := evaluateWithContext_safe benign_levels htyped hends
    exact (hsafe.of_error (logged_new _ budget) hrun).2 rfl

theorem evaluation_within_levels_comp : let _ := Crypto.ofHash fun _ => Hash256.zero
    (⟨[.comp 1 2, .iden, .unit], 0⟩ : Program).maxDepth ≤ maxEvalDepth ∧
    ∀ s, evaluateWithContext ⟨[.comp 1 2, .iden, .unit], 0⟩ ⟨[], [], 0, 0, []⟩ [] .unit
      (.new (.new maxScriptSteps 1)) ≠ .error .recursionDepthExceeded s := by
  intro _
  exact ⟨by decide, evaluation_within_levels (by decide) _ _ _ _⟩

/-! ## Admitted scripts -/

theorem hasValue_optionBytes (bs : Option (List UInt8)) : (optionBytes bs).matchesType (.option .bytes) = true := by
  cases bs with
  | none => exact matchesType_option (.inl rfl)
  | some bs => exact matchesType_option (.inr ⟨_, rfl, matchesType_bytes.mpr ⟨_, rfl⟩⟩)

theorem hasValue_buildScriptInput (witness : List UInt8) (redeemer datum : Option (List UInt8)) :
    HasValue (some scriptInputType) (buildScriptInput witness redeemer datum) := by
  refine matchesType_product.mpr ⟨_, _, rfl, matchesType_bytes.mpr ⟨_, rfl⟩, ?_⟩
  refine matchesType_product.mpr ⟨_, _, rfl, hasValue_optionBytes redeemer, ?_⟩
  exact matchesType_product.mpr ⟨_, _, rfl, hasValue_optionBytes datum, matchesType_unit.mpr rfl⟩

/-- An admitted script that is well typed fails only for budget, memory, witness decoding or a value
error of a jet, whatever the witness, redeemer, datum, context and budget. -/
theorem script_type_sound [Crypto] {idx : Nat} {output : TxOutput} {program : Program}
    (haccept : validateOutputScript idx output = .ok ())
    (hprog : Program.deserializeProgram output.script = .ok program) (htype : WellTyped program)
    (witness : List UInt8) (redeemer datum : Option (List UInt8)) (context : ScriptContext) (budget : Budget) :
    ∀ e s, evaluateWithContext program context witness (buildScriptInput witness redeemer datum)
      (.new budget) = .error e s → IsResourceError e := by
  intro e s hrun
  obtain ⟨typed, haccepted⟩ := admitted_of_ok haccept hprog
  obtain ⟨typed', B, htyped, htype⟩ := htype
  obtain rfl : typed = typed' := by
    have := haccepted.typechecks.symm.trans htyped
    injection this
  obtain ⟨depthOf, hroot, hdepth⟩ := exists_depths haccepted.wellFormed
  have hlevels : depthOf program.root < maxEvalDepth + 1 := by
    rw [hroot]
    exact Nat.lt_succ_of_le haccepted.depth
  have heval : Returns (evalNode program context typed witness (maxEvalDepth + 1) program.root
      (buildScriptInput witness redeemer datum)) B :=
    hasType_sound hdepth htype hlevels (hasValue_buildScriptInput witness redeemer datum)
  have hsafe := evaluateWithContext_safe benign_resource htyped heval
  exact (hsafe.of_error (logged_new _ budget) hrun).2

/-- A signature check: the witness is a signature on the transaction under a fixed key. -/
def sigCheck : Program where
  nodes := [.comp 1 6, .pair 2 3, .jet .txSigHash, .pair 4 5, .const (.bytes (List.replicate 32 7)),
    .witness, .jet .ed25519Verify]
  root := 0

/-- The types of the nodes of `sigCheck`. -/
def sigCheckTyped : List TypedNode :=
  List.zipWith (fun node t => ⟨node, t.1, t.2⟩) sigCheck.nodes
    [(.unit, .boolType), (.unit, .product .bytes (.product .bytes .bytes)), (.unit, .bytes),
      (.unit, .product .bytes .bytes), (.unit, .bytes), (.unit, .bytes),
      (.product .bytes (.product .bytes .bytes), .boolType)]

theorem sigCheck_wellTyped : WellTyped sigCheck := by
  refine ⟨sigCheckTyped, some .boolType, by rfl, ?_⟩
  have hwitness : HasType sigCheck sigCheckTyped 5 (some scriptInputType) (some .bytes) :=
    HasType.witness rfl
  have hkey : HasType sigCheck sigCheckTyped 4 (some scriptInputType) (some .bytes) :=
    HasType.const rfl (by decide)
  have hmessage : HasType sigCheck sigCheckTyped 2 (some scriptInputType) (some .bytes) :=
    HasType.sub (HasType.jet rfl (.context rfl)) (fun _ _ => trivial) fun _ h => h
  exact HasType.comp rfl (HasType.pair rfl hmessage (HasType.pair rfl hkey hwitness))
    (HasType.jet rfl (.declared rfl))

/-- The signature check is admitted and well typed. -/
theorem script_type_sound_sigCheck : let _ := Crypto.ofHash fun _ => Hash256.zero
    validateOutputScript 0 ⟨500, sigCheck.serializeProgram, none, none⟩ = .ok () ∧
    ∀ e s, evaluateWithContext sigCheck ⟨[], [], 0, 0, [1, 2, 3]⟩ [5, 1]
      (buildScriptInput [5, 1] none none) (.new (.new maxScriptSteps 10)) = .error e s →
      IsResourceError e := by
  intro _
  have haccept : validateOutputScript 0 ⟨500, sigCheck.serializeProgram, none, none⟩ = .ok () := by
    rfl
  exact ⟨haccept, script_type_sound haccept (by rfl) sigCheck_wellTyped [5, 1] none none _ _⟩

/-- The composition of the identity with a signature check, the example `strict_type_edges` gives
of what it rejects. -/
def idenVerify : Program where
  nodes := [.comp 1 2, .iden, .jet .ed25519Verify]
  root := 0

/-- The script is admitted, and its jet fails on the script's input for a type mismatch. -/
theorem script_type_sound_counterexample : let _ := Crypto.ofHash fun _ => Hash256.zero
    validateOutputScript 0 ⟨500, idenVerify.serializeProgram, none, none⟩ = .ok () ∧
    Program.deserializeProgram idenVerify.serializeProgram = .ok idenVerify ∧
    ∃ s, evaluateWithContext idenVerify ⟨[], [], 0, 0, []⟩ [] (buildScriptInput [] none none)
      (.new (.new maxScriptSteps 1)) =
        .error (.jetError (.typeMismatch "ed25519_verify expects (Bytes, (Bytes, Bytes))")) s := by
  intro _
  exact ⟨by rfl, by rfl, _, by rfl⟩

end Exfer.Proof.Script
