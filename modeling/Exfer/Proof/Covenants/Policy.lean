import Exfer.Proof.Script.Meaning
import Exfer.Spec.Policy

/-!
# Policies as scripts

Every policy has a typed tree (`policyTree`), and this tree means `true` exactly on the witnesses that meet
the policy (`policyTree_accepts`). `Accepts` is the judgement: a reader that returns booleans, and `true`
exactly after a witness of the given property.
-/

namespace Exfer.Proof.Covenants

open Lib Impl Impl.Script Spec Spec.Script Proof.Script

variable {rest rest' : List UInt8} {v : Value} {choice : Choice} {context : ScriptContext}

/-! ## Trees -/

/-- The typed tree of a condition. -/
def condTree : Condition → TypedTree
  | .signedBy pubkey =>
    .comp (.pair (.comp .unit (.jet .txSigHash)) (.pair (.const (.bytes pubkey.toList)) (.witness .bytes)))
      (.jet .ed25519Verify)
  | .reveals hash =>
    .comp (.pair (.comp (.witness .bytes) (.jet .sha256)) (.const (.hash hash))) (.jet .eqHash)
  | .heightOver height =>
    .comp (.pair (.comp .unit (.jet .blockHeight)) (.const (.u64 height))) (.jet .gt64)
  | .heightUnder height =>
    .comp (.pair (.comp .unit (.jet .blockHeight)) (.const (.u64 height))) (.jet .lt64)
  | .both a b =>
    .comp (condTree a)
      (.case (some .boolType) (some .unit) (some .unit) (.const (.bool false)) (condTree b))

/-- The type of what selects from a choice. -/
def choiceTy : Choice → Ty
  | .one _ => .unit
  | .either a b => .sum (choiceTy a) (choiceTy b)

/-- The typed tree of a choice, on what is selected. -/
def choiceTree : Choice → TypedTree
  | .one c => condTree c
  | .either a b =>
    .case (some (.sum (choiceTy a) (choiceTy b))) (some (choiceTy a)) (some (choiceTy b)) (choiceTree a)
      (choiceTree b)

/-- The typed tree of a policy. -/
def policyTree : Choice → TypedTree
  | .one c => condTree c
  | .either a b => .comp (.witness (choiceTy (.either a b))) (choiceTree (.either a b))

/-! ## Readers -/

theorem reading_bind {α β : Type} {r : Reading α} {f : α → Reading β} {b : β} : (r >>= f) rest = some (b, rest') ↔
      ∃ a mid, r rest = some (a, mid) ∧ f a mid = some (b, rest') := by
  show (r rest).bind (fun result => f result.1 result.2) = _ ↔ _
  rw [Option.bind_eq_some_iff]
  exact Prod.exists

theorem readTyped_eq_some (hty : expected ≠ .unit) : readTyped expected rest = some (v, rest') ↔
      v.matchesType expected = true ∧ readNext rest = some (v, rest') := by
  unfold readTyped
  rw [reading_bind]
  constructor
  · rintro ⟨w, mid, hread, h⟩
    split at h <;> cases h
    rename_i hmatch
    exact ⟨by simpa [hty] using hmatch, hread⟩
  · rintro ⟨hmatch, hread⟩
    refine ⟨v, rest', hread, ?_⟩
    rw [if_neg (by simp [hmatch])]
    rfl

/-- What is read is what was written. -/
theorem eq_append_of_readNext (h : readNext rest = some (v, rest')) : rest = v.serialize ++ rest' := by
  obtain ⟨n, hread, rfl⟩ := readNext_eq_some.mp h
  rw [← (deserializeDepth_canonical _ hread).2, List.take_append_drop]

theorem readNext_append (h : ReadsAs Value.deserialize v v.serialize) (rest : List UInt8) :
    readNext (v.serialize ++ rest) = some (v, rest) :=
  readNext_eq_some.mpr ⟨_, h rest, List.drop_left.symm⟩

theorem readTyped_bytes : readTyped .bytes rest = some (v, rest') ↔
      ∃ bs, bs.length < 2 ^ 32 ∧ v = .bytes bs ∧ rest = (Value.bytes bs).serialize ++ rest' := by
  rw [readTyped_eq_some (by decide)]
  constructor
  · rintro ⟨hmatch, hread⟩
    cases v with
    | bytes bs =>
      obtain ⟨n, hbytes, -⟩ := readNext_eq_some.mp hread
      exact ⟨bs, length_lt_of_read hbytes, rfl, eq_append_of_readNext hread⟩
    | _ => cases hmatch
  · rintro ⟨bs, hlen, rfl, rfl⟩
    exact ⟨rfl, readNext_append (bytes_reads _ hlen) rest'⟩

/-! ## Acceptance -/

/-- A reader that returns a boolean, and `true` exactly after a witness in `P`. -/
structure Accepts (r : Reading Value) (P : List UInt8 → Prop) : Prop where
  bool : ∀ {rest v rest'}, r rest = some (v, rest') → ∃ b, v = .bool b
  accepts : ∀ {rest rest'}, r rest = some (.bool true, rest') ↔ ∃ w, rest = w ++ rest' ∧ P w

namespace Accepts

/-- A check that reads nothing. -/
theorem check (b : Bool) : Accepts (pure (.bool b)) fun w => w = [] ∧ b = true where
  bool h := by
    cases h
    exact ⟨b, rfl⟩
  accepts := by
    intro rest rest'
    constructor
    · intro h
      injection h with h
      injection h with hb hrest
      injection hb with hb
      exact ⟨[], hrest, rfl, hb⟩
    · rintro ⟨w, rfl, rfl, rfl⟩
      rfl

/-- A check of a byte string. -/
theorem checkBytes (test : List UInt8 → Bool) (hk : ∀ bs, k (.bytes bs) = pure (.bool (test bs))) :
    Accepts (readTyped .bytes >>= k) (Presents fun bs => test bs = true) where
  bool h := by
    obtain ⟨v, mid, hread, h⟩ := reading_bind.mp h
    obtain ⟨bs, -, rfl, -⟩ := readTyped_bytes.mp hread
    rw [hk] at h
    exact (check (test bs)).bool h
  accepts := by
    intro rest rest'
    rw [reading_bind]
    constructor
    · rintro ⟨v, mid, hread, h⟩
      obtain ⟨bs, hlen, rfl, rfl⟩ := readTyped_bytes.mp hread
      rw [hk] at h
      obtain ⟨_, rfl, rfl, htest⟩ := (check (test bs)).accepts.mp h
      exact ⟨_, rfl, bs, hlen, rfl, htest⟩
    · rintro ⟨w, rfl, bs, hlen, rfl, htest⟩
      refine ⟨.bytes bs, rest', readTyped_bytes.mpr ⟨bs, hlen, rfl, rfl⟩, ?_⟩
      rw [hk, htest]
      rfl

/-- One check after another, the second only if the first succeeds. -/
theorem both (hr : Accepts r P) (hs : Accepts s Q) (htrue : k (.bool true) = s)
    (hfalse : k (.bool false) = pure (.bool false)) :
    Accepts (r >>= k) fun w => ∃ first second, w = first ++ second ∧ P first ∧ Q second where
  bool h := by
    obtain ⟨v, mid, hfirst, h⟩ := reading_bind.mp h
    obtain ⟨b, rfl⟩ := hr.bool hfirst
    cases b with
    | true =>
      rw [htrue] at h
      exact hs.bool h
    | false =>
      rw [hfalse] at h
      exact (check false).bool h
  accepts := by
    intro rest rest'
    rw [reading_bind]
    constructor
    · rintro ⟨v, mid, hfirst, h⟩
      obtain ⟨b, rfl⟩ := hr.bool hfirst
      cases b with
      | true =>
        rw [htrue] at h
        obtain ⟨first, rfl, hp⟩ := hr.accepts.mp hfirst
        obtain ⟨second, rfl, hq⟩ := hs.accepts.mp h
        exact ⟨first ++ second, (List.append_assoc ..).symm, first, second, rfl, hp, hq⟩
      | false =>
        rw [hfalse] at h
        obtain ⟨_, _, _, hfail⟩ := (check false).accepts.mp h
        cases hfail
    · rintro ⟨_, rfl, first, second, rfl, hp, hq⟩
      refine ⟨.bool true, second ++ rest', hr.accepts.mpr ⟨first, List.append_assoc .., hp⟩, ?_⟩
      rw [htrue]
      exact hs.accepts.mpr ⟨second, rfl, hq⟩

/-- The same reader and an equivalent property. -/
theorem congr (h : Accepts r P) (hpq : ∀ w, P w ↔ Q w) : Accepts r Q := by
  obtain rfl : P = Q := funext fun w => propext (hpq w)
  exact h

end Accepts

/-! ## Conditions -/

section

variable [Crypto] {context : ScriptContext}

theorem meaning_sigHash (input : Value) :
    meaning context (.comp .unit (.jet .txSigHash)) input = pure (.bytes context.sigHash) := rfl

theorem meaning_signedBy (pubkey : Vector UInt8 32) (input : Value) :
    meaning context (condTree (.signedBy pubkey)) input = readTyped .bytes >>= fun sig =>
      meaning context (.jet .ed25519Verify)
        (.pair (.bytes context.sigHash) (.pair (.bytes pubkey.toList) sig)) := by
  rw [condTree, meaning, meaning, meaning_sigHash]
  simp only [meaning, bind_assoc, pure_bind]

theorem meaning_reveals (hash : Hash256) (input : Value) :
    meaning context (condTree (.reveals hash)) input = readTyped .bytes >>= fun preimage =>
      meaning context (.jet .sha256) preimage >>= fun digest =>
        meaning context (.jet .eqHash) (.pair digest (.hash hash)) := by
  simp only [condTree, meaning, bind_assoc, pure_bind]

/-- A condition accepts what meets it, whatever its input. -/
theorem condTree_accepts (c : Condition) (input : Value) :
    Accepts (meaning context (condTree c) input) (c.Met context) := by
  induction c generalizing input with
  | signedBy pubkey =>
    rw [meaning_signedBy]
    exact .checkBytes (fun sig => Jets.ed25519VerifyZip215 context.sigHash pubkey.toList sig) fun _ => rfl
  | reveals hash =>
    rw [meaning_reveals]
    have hsame : ∀ w, Presents (fun bs => ((Crypto.sha256 bs).toList == hash.toList) = true) w ↔
        (Condition.reveals hash).Met context w := by
      simp only [beq_iff_eq, Vector.toList_inj, Condition.Met, implies_true]
    refine Accepts.congr (.checkBytes (fun bs => (Crypto.sha256 bs).toList == hash.toList) fun _ => ?_) hsame
    rfl
  | heightOver height =>
    refine Accepts.congr (.check (decide (context.blockHeight > height))) fun w => ?_
    simp only [decide_eq_true_eq, Condition.Met]
  | heightUnder height =>
    refine Accepts.congr (.check (decide (context.blockHeight < height))) fun w => ?_
    simp only [decide_eq_true_eq, Condition.Met]
  | both a b iha ihb => exact (iha input).both (ihb .unit) rfl rfl

end

/-! ## Choices -/

/-- `Choice.pick` as a relation. -/
inductive Picks : Choice → Value → Condition → Prop
  | one {c : Condition} : Picks (.one c) .unit c
  | left {a b : Choice} {v : Value} {c : Condition} (h : Picks a v c) : Picks (.either a b) (.left v) c
  | right {a b : Choice} {v : Value} {c : Condition} (h : Picks b v c) : Picks (.either a b) (.right v) c
  | bool {c d : Condition} (b : Bool) : Picks (.either (.one c) (.one d)) (.bool b) (if b then d else c)

theorem pick_eq_some : choice.pick v = some c ↔ Picks choice v c := by
  constructor
  · intro h
    fun_induction Choice.pick choice v with
    | case1 c =>
      cases h
      exact .one
    | case2 a b v ih => exact .left (ih h)
    | case3 a b v ih => exact .right (ih h)
    | case4 c d b =>
      cases h
      exact .bool b
    | case5 => cases h
  · intro h
    induction h with
    | one => rfl
    | left _ ih | right _ ih => exact ih
    | bool b => rfl

/-- The nesting of a choice. -/
def choiceLevels : Choice → Nat
  | .one _ => 0
  | .either a b => max (choiceLevels a) (choiceLevels b) + 1

theorem exists_one_of_unit (h : choiceTy choice = .unit) : ∃ c, choice = .one c := by
  cases choice with
  | one c => exact ⟨c, rfl⟩
  | either a b => cases h

theorem exists_picks (h : v.matchesType (choiceTy choice) = true) : ∃ c, Picks choice v c := by
  induction choice generalizing v with
  | one c =>
    obtain rfl := matchesType_unit.mp h
    exact ⟨c, .one⟩
  | either a b iha ihb =>
    rcases matchesType_sum.mp h with ⟨w, rfl, hw⟩ | ⟨w, rfl, hw⟩ | ⟨hbool, flag, rfl⟩
    · obtain ⟨c, hc⟩ := iha hw
      exact ⟨c, hc.left⟩
    · obtain ⟨c, hc⟩ := ihb hw
      exact ⟨c, hc.right⟩
    · injection hbool with ha hb
      obtain ⟨c, rfl⟩ := exists_one_of_unit ha
      obtain ⟨d, rfl⟩ := exists_one_of_unit hb
      exact ⟨_, .bool flag⟩

namespace Picks

variable {choice : Choice} {v : Value} {c : Condition}

section

variable (h : Picks choice v c)
include h

theorem matchesType : v.matchesType (choiceTy choice) = true := by
  induction h with
  | one => rfl
  | left _ ih => exact matchesType_sum.mpr (.inl ⟨_, rfl, ih⟩)
  | right _ ih => exact matchesType_sum.mpr (.inr (.inl ⟨_, rfl, ih⟩))
  | bool b => exact matchesType_sum.mpr (.inr (.inr ⟨rfl, b, rfl⟩))

theorem listsFit : ListsFit v := by
  induction h with
  | one => trivial
  | left _ ih | right _ ih => exact ih
  | bool b => trivial

theorem depth_le : depth v ≤ choiceLevels choice := by
  induction h with
  | one => exact Nat.le_refl _
  | left _ ih => exact Nat.succ_le_succ (ih.trans (Nat.le_max_left _ _))
  | right _ ih => exact Nat.succ_le_succ (ih.trans (Nat.le_max_right _ _))
  | bool b => exact Nat.zero_le _

theorem length_le : v.serialize.length ≤ choiceLevels choice + 1 := by
  induction h with
  | one => exact Nat.le_refl _
  | left _ ih => exact Nat.succ_le_succ (ih.trans (Nat.succ_le_succ (Nat.le_max_left _ _)))
  | right _ ih => exact Nat.succ_le_succ (ih.trans (Nat.succ_le_succ (Nat.le_max_right _ _)))
  | bool b => exact Nat.le_refl _

/-- What is selected is read back, if the choice is not too deep. -/
theorem reads (hlevels : choiceLevels choice ≤ maxValueDepth) : ReadsAs Value.deserialize v v.serialize := by
  have hdepth : depth v < maxValueDepth + 1 := Nat.lt_succ_of_le (h.depth_le.trans hlevels)
  have hlen : v.serialize.length < 2 ^ 32 := by
    have hle := h.length_le
    have hmax : maxValueDepth + 1 < 2 ^ 32 := by decide
    omega
  exact value_reads hdepth h.listsFit hlen

/-- On what selects a condition, a choice means the condition. -/
theorem meaning_eq [Crypto] : meaning context (choiceTree choice) v = meaning context (condTree c) .unit := by
  induction h with
  | one => rfl
  | left h ih | right h ih =>
    simp only [choiceTree, meaning, onPayload, h.matchesType]
    exact ih
  | bool b => cases b <;> rfl

end

end Picks

/-- A policy accepts what meets it, whatever its input. -/
theorem policyTree_accepts [Crypto] (hlevels : choiceLevels policy ≤ maxValueDepth)
    (input : Value) : Accepts (meaning context (policyTree policy) input) (policy.Met context) := by
  cases policy with
  | one c => exact condTree_accepts c input
  | either a b =>
    have hty : choiceTy (.either a b) ≠ .unit := nofun
    constructor
    · intro rest v rest' h
      obtain ⟨selector, mid, hread, h⟩ := reading_bind.mp h
      obtain ⟨c, hc⟩ := exists_picks ((readTyped_eq_some hty).mp hread).1
      rw [hc.meaning_eq] at h
      exact (condTree_accepts c .unit).bool h
    · intro rest rest'
      constructor
      · intro h
        obtain ⟨selector, mid, hread, h⟩ := reading_bind.mp h
        obtain ⟨hmatch, hnext⟩ := (readTyped_eq_some hty).mp hread
        obtain ⟨c, hc⟩ := exists_picks hmatch
        rw [hc.meaning_eq] at h
        obtain ⟨w, rfl, hmet⟩ := (condTree_accepts c .unit).accepts.mp h
        refine ⟨selector.serialize ++ w, ?_, selector, c, w, rfl, pick_eq_some.mpr hc, hmet⟩
        rw [List.append_assoc]
        exact eq_append_of_readNext hnext
      · rintro ⟨_, rfl, selector, c, w, rfl, hpick, hmet⟩
        have hc := pick_eq_some.mp hpick
        refine reading_bind.mpr ⟨selector, w ++ rest', ?_, ?_⟩
        · rw [List.append_assoc]
          exact (readTyped_eq_some hty).mpr ⟨hc.matchesType, readNext_append (hc.reads hlevels) _⟩
        · rw [hc.meaning_eq]
          exact (condTree_accepts c .unit).accepts.mpr ⟨w, rfl, hmet⟩

end Exfer.Proof.Covenants
