import Exfer.Spec.Script
import Exfer.Proof.Script.Eval

/-!
# Results and errors of jets

`matches_type` is read as a typing of values: which values each type has. `jet_result`: whatever its
input, a result of a jet has the jet's output type, except for `ListAt`, whose elements have any
type. `jet_sound`: at the types of `JetHasType` the results have the output type and the errors are
about magnitudes.
-/

namespace Exfer.Proof.Script

open Impl Impl.Script Impl.Script.Jets Spec Lib

variable {n : Nat} {r v input a b : Value} {items : List Value} {A B : Ty}
  {f : UInt64 × UInt64 → Except JetError Value} {jet : JetId} {context : ScriptContext}
  {e : JetError}

/-! ## Values of a type -/

theorem matchesType_bytes : v.matchesType .bytes = true ↔ ∃ bs, v = .bytes bs := by
  unfold Value.matchesType
  rw [if_neg (by decide), if_pos rfl]
  cases v <;> simp

theorem matchesType_hash : v.matchesType .hash256 = true ↔ ∃ h, v = .hash h := by
  unfold Value.matchesType
  rw [if_neg (by decide), if_neg (by decide), if_pos rfl]
  cases v <;> simp

theorem matchesType_u256 : v.matchesType .u256 = true ↔ ∃ d, v = .u256 d := by
  unfold Value.matchesType
  rw [if_neg (by decide), if_neg (by decide), if_neg (by decide), if_pos rfl]
  cases v <;> simp

theorem matchesType_unit : v.matchesType .unit = true ↔ v = .unit := by
  unfold Value.matchesType
  rw [if_neg (by decide), if_neg (by decide), if_neg (by decide), if_neg (by decide)]
  cases v <;> simp

theorem matchesType_u64 : v.matchesType .u64Type = true ↔ ∃ n, v = .u64 n := by
  unfold Value.matchesType
  rw [if_neg (by decide), if_neg (by decide), if_neg (by decide), if_neg (by decide)]
  cases v <;> simp [Ty.u64Type]

theorem matchesType_product : v.matchesType (.product A B) = true ↔
    ∃ a b, v = .pair a b ∧ a.matchesType A = true ∧ b.matchesType B = true := by
  conv_lhs => unfold Value.matchesType
  rw [if_neg (by simp [Ty.boolType]), if_neg (by simp [Ty.bytes]), if_neg (by simp [Ty.hash256]),
    if_neg (by simp)]
  cases v <;> simp

/-- A sum has its tagged values, and the sum of two units also the booleans. -/
theorem matchesType_sum : v.matchesType (.sum A B) = true ↔
    (∃ a, v = .left a ∧ a.matchesType A = true) ∨ (∃ b, v = .right b ∧ b.matchesType B = true) ∨
      (Ty.sum A B = .boolType ∧ ∃ b, v = .bool b) := by
  by_cases hbool : Ty.sum A B = .boolType
  · rw [hbool, matchesType_bool]
    obtain ⟨rfl, rfl⟩ : A = .unit ∧ B = .unit := by simpa [Ty.boolType] using hbool
    simp only [matchesType_unit, true_and]
    unfold Value.asBool
    split <;> simp_all
  · conv_lhs => unfold Value.matchesType
    rw [if_neg hbool, if_neg (by simp [Ty.bytes]), if_neg (by simp [Ty.hash256]), if_neg (by simp)]
    cases v <;> simp [hbool]

theorem matchesTypeList_iff : Value.matchesTypeList vs A = true ↔ ∀ v ∈ vs, v.matchesType A = true := by
  induction vs with
  | nil => simp [Value.matchesTypeList]
  | cons v vs ih => simp [Value.matchesTypeList, ih]

theorem matchesType_list (hA : Ty.list A ≠ .bytes) :
    v.matchesType (.list A) = true ↔ ∃ vs, v = .list vs ∧ ∀ e ∈ vs, e.matchesType A = true := by
  conv_lhs => unfold Value.matchesType
  rw [if_neg (by simp [Ty.boolType]), if_neg hA, if_neg (by simp [Ty.hash256]), if_neg (by simp)]
  cases v <;> simp [matchesTypeList_iff]

/-! ## Results of each shape -/

theorem asBool_matchesType (b : Bool) : (Value.bool b).matchesType .boolType = true :=
  matchesType_bool.mpr ⟨b, rfl⟩

theorem u64_matchesType (n : UInt64) : (Value.u64 n).matchesType .u64Type = true :=
  matchesType_u64.mpr ⟨n, rfl⟩

theorem checkedU64_ok (h : checkedU64 n msg = .ok r) : ∃ m, r = .u64 m := by
  unfold checkedU64 at h
  split at h <;> cases h
  exact ⟨_, rfl⟩

theorem listSumLoop_ok (h : listSumLoop sum items = .ok r) : ∃ m, r = .u64 m := by
  induction items generalizing sum with
  | nil =>
    cases h
    exact ⟨_, rfl⟩
  | cons item items ih =>
    cases item with
    | u64 n =>
      rw [listSumLoop] at h
      split at h
      · exact ih h
      · cases h
    | _ => cases h

theorem listAllLoop_ok (h : listAllLoop items = .ok r) : ∃ b, r = .bool b := by
  induction items with
  | nil =>
    cases h
    exact ⟨_, rfl⟩
  | cons item items ih =>
    rw [listAllLoop] at h
    repeat' split at h
    · exact ih h
    · cases h
      exact ⟨_, rfl⟩
    · cases h

theorem listAnyLoop_ok (h : listAnyLoop items = .ok r) : ∃ b, r = .bool b := by
  induction items with
  | nil =>
    cases h
    exact ⟨_, rfl⟩
  | cons item items ih =>
    rw [listAnyLoop] at h
    repeat' split at h
    · cases h
      exact ⟨_, rfl⟩
    · exact ih h
    · cases h

theorem listFindLoop_ok (h : listFindLoop i items = .ok r) : r = .left .unit ∨ ∃ m, r = .right (.u64 m) := by
  induction items generalizing i with
  | nil =>
    cases h
    exact .inl rfl
  | cons item items ih =>
    rw [listFindLoop] at h
    repeat' split at h
    · cases h
      exact .inr ⟨_, rfl⟩
    · exact ih h
    · cases h

theorem matchesType_option (h : v = .left .unit ∨ ∃ w, v = .right w ∧ w.matchesType A = true) :
    v.matchesType (.option A) = true := by
  rw [Ty.option, matchesType_sum]
  rcases h with rfl | ⟨w, rfl, hw⟩
  · exact .inl ⟨_, rfl, matchesType_unit.mpr rfl⟩
  · exact .inr (.inl ⟨w, rfl, hw⟩)

/-- Jets on a pair of 64-bit integers. -/
theorem extractU64Pair_bind (h : (extractU64Pair input >>= f) = .ok r) : ∃ a b, f (a, b) = .ok r := by
  obtain ⟨⟨a, b⟩, _, h⟩ := bind_eq_ok.mp h
  exact ⟨a, b, h⟩

/-- Jets on a pair of 256-bit integers. -/
theorem extractU256Pair_bind {f : Hash256 × Hash256 → Except JetError Value}
    (h : (extractU256Pair input >>= f) = .ok r) : ∃ a b, f (a, b) = .ok r := by
  obtain ⟨⟨a, b⟩, _, h⟩ := bind_eq_ok.mp h
  exact ⟨a, b, h⟩

/-- A result has the jet's output type whatever the input. -/
theorem jet_result [Crypto] (hne : jet ≠ .listAt) (h : jet.eval input context = .ok r) :
    r.matchesType jet.jetType.2 = true := by
  cases jet with
  | listAt => exact absurd rfl hne
  | schnorrVerify => cases h
  | sha256 =>
    change jetSha256 input = _ at h
    unfold jetSha256 at h
    split at h <;> cases h
    exact matchesType_hash.mpr ⟨_, rfl⟩
  | add64 | mul64 =>
    obtain ⟨a, b, h⟩ := extractU64Pair_bind h
    exact matchesType_u64.mpr (checkedU64_ok h)
  | sub64 | div64 | mod64 =>
    obtain ⟨a, b, h⟩ := extractU64Pair_bind h
    dsimp only at h
    split at h <;> cases h
    exact u64_matchesType _
  | eq64 | lt64 | gt64 =>
    obtain ⟨a, b, h⟩ := extractU64Pair_bind h
    cases h
    exact asBool_matchesType _
  | add256 | sub256 | div256 | mod256 =>
    obtain ⟨a, b, h⟩ := extractU256Pair_bind h
    dsimp only at h
    repeat' split at h
    all_goals cases h
    all_goals exact matchesType_u256.mpr ⟨_, rfl⟩
  | mul256 =>
    obtain ⟨a, b, h⟩ := extractU256Pair_bind h
    dsimp only at h
    split at h
    · cases h
    · obtain ⟨d, _, h⟩ := bind_eq_ok.mp h
      cases h
      exact matchesType_u256.mpr ⟨_, rfl⟩
  | eq256 | lt256 | gt256 =>
    obtain ⟨a, b, h⟩ := extractU256Pair_bind h
    cases h
    exact asBool_matchesType _
  | ed25519Verify =>
    change jetEd25519Verify input = _ at h
    unfold jetEd25519Verify at h
    split at h <;> cases h
    exact asBool_matchesType _
  | merkleVerify =>
    change jetMerkleVerify input = _ at h
    unfold jetMerkleVerify at h
    split at h <;> cases h
    exact asBool_matchesType _
  | cat =>
    change jetCat input = _ at h
    unfold jetCat at h
    split at h <;> cases h
    exact matchesType_bytes.mpr ⟨_, rfl⟩
  | slice =>
    change jetSlice input = _ at h
    unfold jetSlice at h
    repeat' split at h
    all_goals cases h
    all_goals exact matchesType_bytes.mpr ⟨_, rfl⟩
  | len =>
    change jetLen input = _ at h
    unfold jetLen at h
    split at h <;> cases h
    exact u64_matchesType _
  | eqBytes | eqHash =>
    change jetEqBytes input = _ at h
    unfold jetEqBytes at h
    split at h
    · obtain ⟨lhs, _, h⟩ := bind_eq_ok.mp h
      obtain ⟨rhs, _, h⟩ := bind_eq_ok.mp h
      cases h
      exact asBool_matchesType _
    · cases h
  | txInputs =>
    cases h
    refine (matchesType_list (by decide)).mpr ⟨_, rfl, fun e he => ?_⟩
    obtain ⟨info, _, rfl⟩ := List.mem_map.mp he
    simp [JetId.txInputType, matchesType_product, matchesType_hash, matchesType_u64]
  | txOutputs =>
    cases h
    refine (matchesType_list (by decide)).mpr ⟨_, rfl, fun e he => ?_⟩
    obtain ⟨info, _, rfl⟩ := List.mem_map.mp he
    simp only [JetId.txOutputType, matchesType_product]
    refine ⟨_, _, rfl, u64_matchesType _, _, _, rfl, matchesType_hash.mpr ⟨_, rfl⟩, ?_⟩
    apply matchesType_option
    split
    · exact .inr ⟨_, rfl, matchesType_hash.mpr ⟨_, rfl⟩⟩
    · exact .inl rfl
  | txValue =>
    change jetTxValue input context = _ at h
    unfold jetTxValue at h
    repeat' split at h
    all_goals cases h
    exact u64_matchesType _
  | txScriptHash =>
    change jetTxScriptHash input context = _ at h
    unfold jetTxScriptHash at h
    repeat' split at h
    all_goals cases h
    exact matchesType_hash.mpr ⟨_, rfl⟩
  | txInputCount | txOutputCount | selfIndex | blockHeight =>
    cases h
    exact u64_matchesType _
  | txSigHash =>
    cases h
    exact matchesType_bytes.mpr ⟨_, rfl⟩
  | listLen =>
    change jetListLen input = _ at h
    unfold jetListLen at h
    split at h <;> cases h
    exact u64_matchesType _
  | listSum =>
    change jetListSum input = _ at h
    unfold jetListSum at h
    split at h
    · exact matchesType_u64.mpr (listSumLoop_ok h)
    · cases h
  | listAll =>
    change jetListAll input = _ at h
    unfold jetListAll at h
    split at h
    · obtain ⟨b, rfl⟩ := listAllLoop_ok h
      exact asBool_matchesType b
    · cases h
  | listAny =>
    change jetListAny input = _ at h
    unfold jetListAny at h
    split at h
    · obtain ⟨b, rfl⟩ := listAnyLoop_ok h
      exact asBool_matchesType b
    · cases h
  | listFind =>
    change jetListFind input = _ at h
    unfold jetListFind at h
    split at h
    · refine matchesType_option ((listFindLoop_ok h).imp id ?_)
      rintro ⟨m, rfl⟩
      exact ⟨_, rfl, u64_matchesType m⟩
    · cases h

/-! ## Errors -/

theorem extractU64Pair_error (hA : A = .product .u64Type .u64Type)
    (hin : input.matchesType A = true) (h : (extractU64Pair input >>= f) = .error e) :
    ∃ a b, f (a, b) = .error e := by
  subst hA
  obtain ⟨_, _, rfl, ha, hb⟩ := matchesType_product.mp hin
  obtain ⟨a, rfl⟩ := matchesType_u64.mp ha
  obtain ⟨b, rfl⟩ := matchesType_u64.mp hb
  exact ⟨a, b, h⟩

theorem extractU256Pair_error {f : Hash256 × Hash256 → Except JetError Value}
    (hA : A = .product .u256 .u256) (hin : input.matchesType A = true)
    (h : (extractU256Pair input >>= f) = .error e) : ∃ a b, f (a, b) = .error e := by
  subst hA
  obtain ⟨_, _, rfl, ha, hb⟩ := matchesType_product.mp hin
  obtain ⟨a, rfl⟩ := matchesType_u256.mp ha
  obtain ⟨b, rfl⟩ := matchesType_u256.mp hb
  exact ⟨a, b, h⟩

theorem toByteSlice_of (h : v.matchesType .bytes = true ∨ v.matchesType .hash256 = true) :
    ∃ bs, toByteSlice v = .ok bs := by
  rcases h with h | h
  · obtain ⟨bs, rfl⟩ := matchesType_bytes.mp h
    exact ⟨bs, rfl⟩
  · obtain ⟨d, rfl⟩ := matchesType_hash.mp h
    exact ⟨d.toList, rfl⟩

theorem eqBytes_error (ha : a.matchesType .bytes = true ∨ a.matchesType .hash256 = true)
    (hb : b.matchesType .bytes = true ∨ b.matchesType .hash256 = true) : jetEqBytes (.pair a b) ≠ .error e := by
  obtain ⟨x, hx⟩ := toByteSlice_of ha
  obtain ⟨y, hy⟩ := toByteSlice_of hb
  rw [jetEqBytes, hx, hy]
  exact fun h => by cases h

theorem listAt_ok (hE : Ty.list E ≠ .bytes) (ha : a.matchesType (.list E) = true)
    (h : jetListAt (.pair a b) = .ok r) : r.matchesType (.option E) = true := by
  obtain ⟨vs, rfl, hvs⟩ := (matchesType_list hE).mp ha
  unfold jetListAt at h
  repeat' split at h
  all_goals cases h
  · rename_i i v hv
    injections
    subst_vars
    exact matchesType_option (.inr ⟨v, rfl, hvs v (List.mem_of_getElem? hv)⟩)
  · exact matchesType_option (.inl rfl)

theorem listAt_error (hE : Ty.list E ≠ .bytes) (ha : a.matchesType (.list E) = true)
    (hb : b.matchesType .u64Type = true) : jetListAt (.pair a b) ≠ .error e := by
  obtain ⟨vs, rfl, _⟩ := (matchesType_list hE).mp ha
  obtain ⟨i, rfl⟩ := matchesType_u64.mp hb
  rw [jetListAt]
  split <;> exact fun h => by cases h

theorem checkedU64_error (h : checkedU64 n msg = .error e) : IsValueError e := by
  unfold checkedU64 at h
  split at h <;> cases h
  trivial

theorem mulU256Full_error {a b : Hash256} (h : mulU256Full a b = .error e) : IsValueError e := by
  unfold mulU256Full at h
  dsimp only at h
  split at h <;> cases h
  trivial

theorem listSumLoop_error (hitems : ∀ v ∈ items, v.matchesType .u64Type = true)
    (h : listSumLoop sum items = .error e) : IsValueError e := by
  induction items generalizing sum with
  | nil => cases h
  | cons item items ih =>
    obtain ⟨n, rfl⟩ := matchesType_u64.mp (hitems item List.mem_cons_self)
    rw [listSumLoop] at h
    split at h
    · exact ih (fun v hv => hitems v (List.mem_cons_of_mem _ hv)) h
    · cases h
      trivial

section

variable (hitems : ∀ v ∈ items, v.matchesType .boolType = true)
include hitems

theorem listAllLoop_error : listAllLoop items ≠ .error e := by
  induction items with
  | nil => exact fun h => by cases h
  | cons item items ih =>
    obtain ⟨b, hb⟩ := matchesType_bool.mp (hitems item List.mem_cons_self)
    rw [listAllLoop, hb]
    dsimp only
    split
    · exact ih fun v hv => hitems v (List.mem_cons_of_mem _ hv)
    · exact fun h => by cases h

theorem listAnyLoop_error : listAnyLoop items ≠ .error e := by
  induction items with
  | nil => exact fun h => by cases h
  | cons item items ih =>
    obtain ⟨b, hb⟩ := matchesType_bool.mp (hitems item List.mem_cons_self)
    rw [listAnyLoop, hb]
    dsimp only
    split
    · exact fun h => by cases h
    · exact ih fun v hv => hitems v (List.mem_cons_of_mem _ hv)

theorem listFindLoop_error : listFindLoop i items ≠ .error e := by
  induction items generalizing i with
  | nil => exact fun h => by cases h
  | cons item items ih =>
    obtain ⟨b, hb⟩ := matchesType_bool.mp (hitems item List.mem_cons_self)
    rw [listFindLoop, hb]
    dsimp only
    split
    · exact fun h => by cases h
    · exact ih fun v hv => hitems v (List.mem_cons_of_mem _ hv)

end

/-- On values of its input type a jet fails only for their magnitude. -/
theorem jet_error [Crypto] (himpl : jet.isImplemented = true)
    (hin : input.matchesType jet.jetType.1 = true) (h : jet.eval input context = .error e) : IsValueError e := by
  cases jet with
  | schnorrVerify => cases himpl
  | txInputs | txOutputs | txInputCount | txOutputCount | selfIndex | blockHeight | txSigHash => cases h
  | sha256 | len =>
    obtain ⟨bs, rfl⟩ := matchesType_bytes.mp hin
    cases h
  | ed25519Verify =>
    obtain ⟨_, _, rfl, ha, hbc⟩ := matchesType_product.mp hin
    obtain ⟨_, _, rfl, hb, hc⟩ := matchesType_product.mp hbc
    obtain ⟨_, rfl⟩ := matchesType_bytes.mp ha
    obtain ⟨_, rfl⟩ := matchesType_bytes.mp hb
    obtain ⟨_, rfl⟩ := matchesType_bytes.mp hc
    cases h
  | merkleVerify =>
    obtain ⟨_, _, rfl, ha, hbc⟩ := matchesType_product.mp hin
    obtain ⟨_, _, rfl, hb, hc⟩ := matchesType_product.mp hbc
    obtain ⟨_, rfl⟩ := matchesType_hash.mp ha
    obtain ⟨_, rfl⟩ := matchesType_hash.mp hb
    obtain ⟨_, rfl⟩ := matchesType_bytes.mp hc
    cases h
  | add64 | mul64 =>
    obtain ⟨a, b, h⟩ := extractU64Pair_error rfl hin h
    exact checkedU64_error h
  | sub64 | div64 | mod64 =>
    obtain ⟨a, b, h⟩ := extractU64Pair_error rfl hin h
    dsimp only at h
    split at h <;> cases h
    trivial
  | eq64 | lt64 | gt64 =>
    obtain ⟨a, b, h⟩ := extractU64Pair_error rfl hin h
    cases h
  | add256 | sub256 | div256 | mod256 =>
    obtain ⟨a, b, h⟩ := extractU256Pair_error rfl hin h
    dsimp only at h
    repeat' split at h
    all_goals cases h
    all_goals trivial
  | mul256 =>
    obtain ⟨a, b, h⟩ := extractU256Pair_error rfl hin h
    dsimp only at h
    split at h
    · cases h
      trivial
    · cases hm : mulU256Full a b with
      | error e' =>
        rw [hm] at h
        cases h
        exact mulU256Full_error hm
      | ok d =>
        rw [hm] at h
        cases h
  | eq256 | lt256 | gt256 =>
    obtain ⟨a, b, h⟩ := extractU256Pair_error rfl hin h
    cases h
  | cat =>
    obtain ⟨_, _, rfl, ha, hb⟩ := matchesType_product.mp hin
    obtain ⟨_, rfl⟩ := matchesType_bytes.mp ha
    obtain ⟨_, rfl⟩ := matchesType_bytes.mp hb
    cases h
  | slice =>
    change jetSlice input = _ at h
    obtain ⟨_, _, rfl, ha, hbc⟩ := matchesType_product.mp hin
    obtain ⟨_, _, rfl, hb, hc⟩ := matchesType_product.mp hbc
    obtain ⟨_, rfl⟩ := matchesType_bytes.mp ha
    obtain ⟨_, rfl⟩ := matchesType_u64.mp hb
    obtain ⟨_, rfl⟩ := matchesType_u64.mp hc
    rw [jetSlice] at h
    split at h <;> cases h
  | eqBytes =>
    obtain ⟨_, _, rfl, ha, hb⟩ := matchesType_product.mp hin
    exact absurd h (eqBytes_error (.inl ha) (.inl hb))
  | eqHash =>
    obtain ⟨_, _, rfl, ha, hb⟩ := matchesType_product.mp hin
    exact absurd h (eqBytes_error (.inr ha) (.inr hb))
  | txValue =>
    change jetTxValue input context = _ at h
    obtain ⟨i, rfl⟩ := matchesType_u64.mp hin
    rw [jetTxValue] at h
    split at h <;> cases h
    trivial
  | txScriptHash =>
    change jetTxScriptHash input context = _ at h
    obtain ⟨i, rfl⟩ := matchesType_u64.mp hin
    rw [jetTxScriptHash] at h
    split at h <;> cases h
    trivial
  | listLen =>
    obtain ⟨vs, rfl, _⟩ := (matchesType_list (by decide)).mp hin
    cases h
  | listAt =>
    obtain ⟨_, _, rfl, ha, hb⟩ := matchesType_product.mp hin
    exact absurd h (listAt_error (by decide) ha hb)
  | listSum =>
    obtain ⟨vs, rfl, hvs⟩ := (matchesType_list (by decide)).mp hin
    exact listSumLoop_error hvs h
  | listAll =>
    obtain ⟨vs, rfl, hvs⟩ := (matchesType_list (by decide)).mp hin
    exact absurd h (listAllLoop_error hvs)
  | listAny =>
    obtain ⟨vs, rfl, hvs⟩ := (matchesType_list (by decide)).mp hin
    exact absurd h (listAnyLoop_error hvs)
  | listFind =>
    obtain ⟨vs, rfl, hvs⟩ := (matchesType_list (by decide)).mp hin
    exact absurd h (listFindLoop_error hvs)

/-- The jets keep the types they can be used at. -/
theorem jet_sound [Crypto] {A : Option Ty} {B : Ty} (context : ScriptContext)
    (htype : JetHasType jet A B) (hin : HasValue A input) :
    (∀ r, jet.eval input context = .ok r → r.matchesType B = true) ∧
      ∀ e, jet.eval input context = .error e → IsValueError e := by
  cases htype with
  | declared himpl =>
    refine ⟨fun r h => ?_, fun e h => jet_error himpl hin h⟩
    by_cases hat : jet = .listAt
    · subst hat
      obtain ⟨_, _, rfl, ha, hb⟩ := matchesType_product.mp hin
      exact listAt_ok (by decide) ha h
    · exact jet_result hat h
  | context hunit =>
    have hat : jet ≠ .listAt := by
      rintro rfl
      cases hunit
    refine ⟨fun r h => jet_result hat h, fun e h => ?_⟩
    cases jet <;> cases hunit <;> cases h
  | equal hjet hA hB =>
    obtain ⟨a, b, rfl, ha, hb⟩ := matchesType_product.mp hin
    have hne : jet ≠ .listAt := by
      rintro rfl
      simp at hjet
    have herr (e : JetError) : jet.eval (.pair a b) context ≠ .error e := by
      have heq : jetEqBytes (.pair a b) ≠ .error e := by
        apply eqBytes_error
        · rcases hA with rfl | rfl
          exacts [.inl ha, .inr ha]
        · rcases hB with rfl | rfl
          exacts [.inl hb, .inr hb]
      rcases hjet with rfl | rfl <;> exact heq
    have hout : jet.jetType.2 = .boolType := by
      rcases hjet with rfl | rfl <;> rfl
    exact ⟨fun r h => hout ▸ jet_result hne h, fun e h => absurd h (herr e)⟩
  | listLen hE =>
    obtain ⟨vs, rfl, _⟩ := (matchesType_list hE).mp hin
    refine ⟨fun r h => ?_, fun e h => by cases h⟩
    cases h
    exact u64_matchesType _
  | listAt hE =>
    obtain ⟨_, _, rfl, ha, hb⟩ := matchesType_product.mp hin
    exact ⟨fun r h => listAt_ok hE ha h, fun e h => absurd h (listAt_error hE ha hb)⟩

end Exfer.Proof.Script
