import Exfer.Impl.Validation.Script

/-!
# What scripts are meant to satisfy

`Value.depth` is the nesting of a value's constructors and `nestBound` a static bound on it:
an abstract interpretation of a program that follows the evaluator and tracks depths instead
of values. `HasType` is the typing of a program without wildcards: what the type checker's
types must say for every edge to fit at run time.
-/

namespace Exfer.Spec

open Impl Impl.Script

/-! ## Nesting -/

mutual

/-- The nesting depth of a value's constructors: values without components have depth 0. -/
def depth : Value → Nat
  | .left v => depth v + 1
  | .right v => depth v + 1
  | .pair a b => max (depth a) (depth b) + 1
  | .list vs => depthList vs
  | .unit | .bytes _ | .u64 _ | .u256 _ | .bool _ | .hash _ => 0

/-- The depth of a list with the given elements. -/
def depthList : List Value → Nat
  | [] => 0
  | v :: vs => max (depth v + 1) (depthList vs)

end

mutual

/-- Every list in the value keeps to `MAX_LIST_LENGTH`. -/
def ListsFit : Value → Prop
  | .left v => ListsFit v
  | .right v => ListsFit v
  | .pair a b => ListsFit a ∧ ListsFit b
  | .list vs => vs.length ≤ maxListLength ∧ AllListsFit vs
  | .unit | .bytes _ | .u64 _ | .u256 _ | .bool _ | .hash _ => True

/-- Every list in one of the elements keeps to it. -/
def AllListsFit : List Value → Prop
  | [] => True
  | v :: vs => ListsFit v ∧ AllListsFit vs

end

/-- A structurally valid program within the node limit whose constants keep to the limits on depth
and list length. -/
structure WithinLimits (p : Program) : Prop where
  valid : p.validateStructure = .ok ()
  count : p.nodes.length ≤ maxScriptNodes
  depth : ∀ v, Combinator.const v ∈ p.nodes → depth v ≤ maxValueDepth
  lists : ∀ v, Combinator.const v ∈ p.nodes → ListsFit v

/-- A bound on the accumulator of a loop of `rounds` rounds (or of any number) that starts at
`acc`, where `step` bounds one round. A round that does not raise the bound ends the search; `fuel`
is more than the number of rounds that can raise it. -/
def loopDepth (step : Nat → Option Nat) :
    (fuel : Nat) → (rounds : Option Nat) → (acc : Nat) → Option Nat
  | 0, rounds, acc => if rounds = some 0 then some acc else none
  | fuel + 1, rounds, acc =>
    if rounds = some 0 then some acc
    else do
      let acc' ← step acc
      if acc' ≤ acc then some acc else loopDepth step fuel (rounds.map (· - 1)) acc'

/-- The values of a type; `none` is the type of all values. -/
def HasValue (A : Option Ty) (v : Value) : Prop :=
  match A with
  | some ty => v.matchesType ty = true
  | none => True

/-- Every value of `A` is a value of `B`. -/
def Sub (A B : Option Ty) : Prop :=
  ∀ v, HasValue A v → HasValue B v

/-- The types a jet can be used at. -/
inductive JetHasType : JetId → Option Ty → Ty → Prop where
  | declared {jet : JetId} (himpl : jet.isImplemented = true) :
      JetHasType jet (some jet.jetType.1) jet.jetType.2
  /-- Introspection jets ignore their input. -/
  | context {jet : JetId} (h : jet.jetType.1 = .unit) : JetHasType jet none jet.jetType.2
  /-- Digests compare as byte strings. -/
  | equal {jet : JetId} {A B : Ty} (hjet : jet = .eqBytes ∨ jet = .eqHash)
      (hA : A = .bytes ∨ A = .hash256) (hB : B = .bytes ∨ B = .hash256) :
      JetHasType jet (some (.product A B)) .boolType
  | listLen {E : Ty} (hE : Ty.list E ≠ .bytes) : JetHasType .listLen (some (.list E)) .u64Type
  | listAt {E : Ty} (hE : Ty.list E ≠ .bytes) :
      JetHasType .listAt (some (.product (.list E) .u64Type)) (.option E)

/-- `HasType p typed id A B`: the node `id` takes every value of `A` to a value of `B`, by rules
that follow the evaluator. The rules for witnesses and branches refer to the types `typed` that
the evaluator checks at run time. -/
inductive HasType (p : Program) (typed : List TypedNode) : NodeId → Option Ty → Option Ty → Prop where
  | iden {id A} (hget : p.get id = some .iden) : HasType p typed id A A
  | unit {id A} (hget : p.get id = some .unit) : HasType p typed id A (some .unit)
  | comp {id f g A B C} (hget : p.get id = some (.comp f g)) (hf : HasType p typed f A B)
      (hg : HasType p typed g B C) : HasType p typed id A C
  | pair {id f g A B C} (hget : p.get id = some (.pair f g)) (hf : HasType p typed f A (some B))
      (hg : HasType p typed g A (some C)) : HasType p typed id A (some (.product B C))
  | take {id f A B C} (hget : p.get id = some (.take f)) (hf : HasType p typed f (some A) C) :
      HasType p typed id (some (.product A B)) C
  | drop {id f A B C} (hget : p.get id = some (.drop f)) (hf : HasType p typed f (some B) C) :
      HasType p typed id (some (.product A B)) C
  | injL {id f A B C} (hget : p.get id = some (.injL f)) (hf : HasType p typed f A (some B)) :
      HasType p typed id A (some (.sum B C))
  | injR {id f A B C} (hget : p.get id = some (.injR f)) (hf : HasType p typed f A (some C)) :
      HasType p typed id A (some (.sum B C))
  /-- The payloads pass the check at the branches, and a boolean the one at the node. -/
  | case {id f g A B C} (hget : p.get id = some (.case f g)) (hf : HasType p typed f (some A) C)
      (hg : HasType p typed g (some B) C) (hA : Sub (some A) (some (inTy typed f)))
      (hB : Sub (some B) (some (inTy typed g)))
      (hbool : Ty.sum A B = .boolType → inputTypeOf typed id = some .boolType) :
      HasType p typed id (some (.sum A B)) C
  | fold {id f z k K A B} (hget : p.get id = some (.fold f z k))
      (hz : HasType p typed z (some A) (some B))
      (hf : HasType p typed f (some (.product A B)) (some B)) :
      HasType p typed id (some (.product K A)) (some B)
  | listFold {id f z E A B} (hget : p.get id = some (.listFold f z)) (hE : Ty.list E ≠ .bytes)
      (hz : HasType p typed z (some A) (some B))
      (hf : HasType p typed f (some (.product E B)) (some B)) :
      HasType p typed id (some (.product (.list E) A)) (some B)
  | jet {id jet A B} (hget : p.get id = some (.jet jet)) (hjet : JetHasType jet A B) :
      HasType p typed id A (some B)
  /-- A witness is checked against its type, unless that is the wildcard. -/
  | witness {id A} (hget : p.get id = some .witness) :
      HasType p typed id A (if outTy typed id = .unit then none else some (outTy typed id))
  | const {id v A B} (hget : p.get id = some (.const v)) (hv : v.matchesType B = true) :
      HasType p typed id A (some B)
  | sub {id A A' B B'} (h : HasType p typed id A B) (hA : Sub A' A) (hB : Sub B B') :
      HasType p typed id A' B'

/-- The program has a type at the input every script is run on. -/
def WellTyped (p : Program) : Prop :=
  ∃ typed B, typecheck p = .ok typed ∧ HasType p typed p.root (some scriptInputType) B

/-- The errors of a jet on values of its types. -/
def IsValueError : JetError → Prop
  | .overflow _ | .divisionByZero | .outOfBounds _ => True
  | .typeMismatch _ | .notImplemented _ => False

/-- The errors a well-typed script may end in: budget, memory, witness decoding or a value error
of a jet. -/
def IsResourceError : EvalError → Prop
  | .budgetExceeded | .memoryExceeded | .witnessError _ => True
  | .jetError e => IsValueError e
  | .typeMismatch _ | .hiddenNode | .nodeOutOfBounds _ | .recursionDepthExceeded => False

end Exfer.Spec
