import Exfer.Lib.Safe
import Mathlib.Algebra.Order.Ring.Nat
import Mathlib.Algebra.BigOperators.Group.List.Basic

/-!
# Stack machines

Recursive stateful code, step by step: a call runs until it returns, fails, or makes another call and
waits for it in a frame; a frame goes on with what the call returned (`StackMachine`). A configuration
has the frames that wait. `Does` relates the machine to a computation in one piece, and its rules follow
the constructors of `do` blocks.

`Pays` is a rule for resources: if a call pays for what it leaves behind, in a frame or as its result,
and a frame that goes on gives back what it held, then at every point of a run what has been paid is
what the waiting frames hold (`Pays.balanced`).
-/

namespace Exfer.Lib

variable {ε σ α Call Frame : Type}

/-- What a call or a frame has come to: it returns, it makes a call and waits, or it goes on as a
call. -/
inductive Outcome (α Call Frame : Type) where
  | ret (a : α)
  | wait (frame : Frame) (call : Call)
  | goOn (call : Call)

/-- What calls do, and what frames do with the result of the call they wait for. -/
structure StackMachine (ε σ α Call Frame : Type) where
  call : Call → EStateM ε σ (Outcome α Call Frame)
  resume : Frame → α → EStateM ε σ (Outcome α Call Frame)

/-- A point of a run: a call is made, a value has been returned to the frames that wait, or a failure
has left some of them. -/
inductive Config (ε σ α Call Frame : Type) where
  | calling (c : Call) (stack : List Frame) (s : σ)
  | returning (a : α) (stack : List Frame) (s : σ)
  | failed (e : ε) (stack : List Frame) (s : σ)

/-- The state at a point. -/
def Config.state : Config ε σ α Call Frame → σ
  | .calling _ _ s | .returning _ _ s | .failed _ _ s => s

/-- The point after a computation that leaves the given frames. -/
def Config.after (stack : List Frame) :
    EStateM.Result ε σ (Outcome α Call Frame) → Config ε σ α Call Frame
  | .ok (.ret a) s => .returning a stack s
  | .ok (.wait frame c) s => .calling c (frame :: stack) s
  | .ok (.goOn c) s => .calling c stack s
  | .error e s => .failed e stack s

namespace StackMachine

variable (M : StackMachine ε σ α Call Frame)

/-- The next point; `none` at the end. -/
def next : Config ε σ α Call Frame → Option (Config ε σ α Call Frame)
  | .calling c stack s => some (.after stack (M.call c s))
  | .returning a (frame :: stack) s => some (.after stack (M.resume frame a s))
  | .returning _ [] _ | .failed _ _ _ => none

/-- The points of a run. -/
def Reaches : Config ε σ α Call Frame → Config ε σ α Call Frame → Prop :=
  Relation.ReflTransGen fun c c' => M.next c = some c'

variable {M} {c : Call} {frame : Frame} {c₀ c₁ : Config ε σ α Call Frame}

/-- What holds at the start and is kept by steps holds at every point. -/
theorem Reaches.invariant {Inv : Config ε σ α Call Frame → Prop} (h : M.Reaches c₀ c₁) (hinit : Inv c₀)
    (hnext : ∀ c c', Inv c → M.next c = some c' → Inv c') : Inv c₁ := by
  induction h with
  | refl => exact hinit
  | tail _ hstep ih => exact hnext _ _ ih hstep

variable (M) in
/-- The point after the given number of steps, or the last one. -/
def run : Nat → Config ε σ α Call Frame → Config ε σ α Call Frame
  | 0, c => c
  | n + 1, c =>
    match M.next c with
    | some c' => run n c'
    | none => c

variable (M) in
/-- Whatever frames wait below, the machine returns what the computation returns, in the same state,
and fails as it does. -/
def Does (start : List Frame → σ → Config ε σ α Call Frame) (m : EStateM ε σ α) : Prop :=
  ∀ stack s, match m s with
    | .ok a s' => M.Reaches (start stack s) (.returning a stack s')
    | .error e s' => ∃ stack', M.Reaches (start stack s) (.failed e stack' s')

namespace Does

variable {β : Type} {m : EStateM ε σ α} {first : EStateM ε σ β} {k : β → Outcome α Call Frame}
  {rest : β → EStateM ε σ α}

theorem pure (a : α) : M.Does (.returning a) (pure a) :=
  fun _ _ => .refl

variable (M) in
/-- What is left to do after an outcome. -/
def Goes : Outcome α Call Frame → EStateM ε σ α → Prop
  | .ret a, m => M.Does (.returning a) m
  | .wait frame c, m => M.Does (fun stack => .calling c (frame :: stack)) m
  | .goOn c, m => M.Does (.calling c) m

theorem goes_reaches {o : Outcome α Call Frame} {start : Config ε σ α Call Frame} {stack : List Frame}
    {s : σ} (h : Goes M o m) (hstart : M.Reaches start (.after stack (.ok o s))) : match m s with
    | .ok a s' => M.Reaches start (.returning a stack s')
    | .error e s' => ∃ stack', M.Reaches start (.failed e stack' s') := by
  have hlast : match m s with
      | .ok a s' => M.Reaches (.after stack (.ok o s)) (.returning a stack s')
      | .error e s' => ∃ stack', M.Reaches (.after stack (.ok o s)) (.failed e stack' s') := by
    cases o <;> exact h stack s
  split at hlast
  · exact hstart.trans hlast
  · exact hlast.imp fun _ => hstart.trans

/-- A step that comes to an outcome, and then what is left to do. -/
theorem step {start : List Frame → σ → Config ε σ α Call Frame} (hnext : ∀ stack s, M.next (start stack s) =
      some (.after stack ((first >>= fun b => Pure.pure (k b) : EStateM ε σ _) s)))
    (hrest : ∀ b, Goes M (k b) (rest b)) : M.Does start (first >>= rest) := by
  intro stack s
  have hstep : M.Reaches (start stack s) _ := .single (hnext stack s)
  simp only [Bind.bind, EStateM.bind] at hstep ⊢
  cases hfirst : first s with
  | error e s' =>
    rw [hfirst] at hstep
    exact ⟨stack, hstep⟩
  | ok b s' =>
    rw [hfirst] at hstep
    exact goes_reaches (hrest b) hstep

/-- A call does its first part and what comes after. -/
theorem call (hcall : M.call c = first >>= fun b => Pure.pure (k b))
    (hrest : ∀ b, Goes M (k b) (rest b)) : M.Does (.calling c) (first >>= rest) :=
  step (fun _ _ => by rw [next, hcall]) hrest

/-- A frame does its next part and what comes after. -/
theorem resume {a : α} (hresume : M.resume frame a = first >>= fun b => Pure.pure (k b))
    (hrest : ∀ b, Goes M (k b) (rest b)) : M.Does (fun stack => .returning a (frame :: stack)) (first >>= rest) :=
  step (fun _ _ => by rw [next, hresume]) hrest

/-- A call that has nothing to do before its outcome. -/
theorem call_pure {o : Outcome α Call Frame} (hcall : M.call c = Pure.pure o)
    (hrest : Goes M o m) : M.Does (.calling c) m := by
  show M.Does _ ((Pure.pure () : EStateM ε σ Unit) >>= fun _ => m)
  exact call (k := fun _ => o) hcall fun _ => hrest

/-- A frame that has nothing to do before its outcome. -/
theorem resume_pure {a : α} {o : Outcome α Call Frame} (hresume : M.resume frame a = Pure.pure o)
    (hrest : Goes M o m) : M.Does (fun stack => .returning a (frame :: stack)) m := by
  show M.Does _ ((Pure.pure () : EStateM ε σ Unit) >>= fun _ => m)
  exact resume (k := fun _ => o) hresume fun _ => hrest

/-- A call that returns without calls of its own. -/
theorem call_ret (hcall : M.call c = m >>= fun a => Pure.pure (.ret a)) : M.Does (.calling c) m := by
  have hdoes : M.Does (.calling c) (m >>= Pure.pure) := call hcall Does.pure
  rwa [bind_pure] at hdoes

/-- A frame that returns without calls of its own. -/
theorem resume_ret {a : α} (hresume : M.resume frame a = m >>= fun a => Pure.pure (.ret a)) :
    M.Does (fun stack => .returning a (frame :: stack)) m := by
  have hdoes : M.Does (fun stack => .returning a (frame :: stack)) (m >>= Pure.pure) :=
    resume hresume Does.pure
  rwa [bind_pure] at hdoes

/-- A call under a frame, and then the frame. -/
theorem bind {f : α → EStateM ε σ α} (hcall : M.Does (.calling c) m)
    (hframe : ∀ a, M.Does (fun stack => .returning a (frame :: stack)) (f a)) :
    M.Does (fun stack => .calling c (frame :: stack)) (m >>= f) := by
  intro stack s
  have hfirst := hcall (frame :: stack) s
  simp only [Bind.bind, EStateM.bind]
  split at hfirst
  · rename_i a s' hm
    rw [hm]
    have hlast := hframe a stack s'
    dsimp only
    split at hlast
    · exact hfirst.trans hlast
    · exact hlast.imp fun _ => hfirst.trans
  · rename_i e s' hm
    rw [hm]
    exact hfirst

end Does

/-! ## Resources -/

section Pays

variable (I : σ → Prop) (used : σ → Nat) (limit : Nat) (size : α → Nat) (held : Frame → Nat)

/-- The given amount is in use, which is within the limit, and the state satisfies the invariant. -/
structure Used (n : Nat) (s : σ) : Prop where
  inv : I s
  used : used s = n
  within : n ≤ limit

/-- The given amount, which is within the limit, is in use, and maybe more. -/
structure UsedAtLeast (n : Nat) (s : σ) : Prop where
  le : n ≤ used s
  within : n ≤ limit

/-- What an outcome leaves behind. -/
def heldBy : Outcome α Call Frame → Nat
  | .ret a => size a
  | .wait frame _ => held frame
  | .goOn _ => 0

variable (M) in
/-- Calls pay for what they leave behind, and frames that go on give back what they held, with the
result they were waiting for. -/
structure Pays : Prop where
  call : ∀ c n, Meets (Used I used limit n) (M.call c)
    (fun o => Used I used limit (n + heldBy size held o)) fun _ => UsedAtLeast used limit n
  resume : ∀ frame a n, Meets (Used I used limit (n + held frame + size a)) (M.resume frame a)
    (fun o => Used I used limit (n + heldBy size held o)) fun _ => UsedAtLeast used limit n

/-- What the frames hold. -/
def heldByAll (stack : List Frame) : Nat :=
  (stack.map held).sum

/-- What is in use is what the frames and the result hold. -/
def Balanced : Config ε σ α Call Frame → Prop
  | .calling _ stack s => Used I used limit (heldByAll held stack) s
  | .returning a stack s => Used I used limit (heldByAll held stack + size a) s
  | .failed _ stack s => UsedAtLeast used limit (heldByAll held stack) s

/-- What is in use is the given amount, and what the frames and the result hold. -/
def BalancedOver (base : Nat) : Config ε σ α Call Frame → Prop
  | .calling _ stack s => Used I used limit (base + heldByAll held stack) s
  | .returning a stack s => Used I used limit (base + heldByAll held stack + size a) s
  | .failed _ stack s => UsedAtLeast used limit (base + heldByAll held stack) s

variable {I used limit size held}

theorem balancedOver_after {base : Nat} {stack : List Frame} {m : EStateM ε σ (Outcome α Call Frame)} {P : σ → Prop}
    (h : Meets P m (fun o => Used I used limit (base + heldByAll held stack + heldBy size held o))
      fun _ => UsedAtLeast used limit (base + heldByAll held stack)) {s : σ} (hs : P s) :
    BalancedOver I used limit size held base (Config.after stack (m s)) := by
  have hm := h s hs
  cases hrun : m s with
  | error e s' =>
    rw [hrun] at hm
    exact hm
  | ok o s' =>
    rw [hrun] at hm
    cases o with
    | ret a => exact hm
    | wait frame c =>
      show Used I used limit (base + heldByAll held (frame :: stack)) s'
      rw [heldByAll, List.map_cons, List.sum_cons, Nat.add_comm (held frame), ← Nat.add_assoc]
      exact hm
    | goOn c => exact hm

/-- At every point of a run, what is in use is what was in use at its start, and what the frames that
wait and the result hold. -/
theorem Pays.balancedOver (h : Pays M I used limit size held) {s : σ} (hinv : I s)
    (hs : used s ≤ limit) (hreach : M.Reaches (.calling c [] s) c₁) :
    BalancedOver I used limit size held (used s) c₁ := by
  refine hreach.invariant ⟨hinv, rfl, hs⟩ fun c c' hbalanced hnext => ?_
  match c, hbalanced, hnext with
  | .calling call stack s, hbalanced, hnext =>
    rw [← Option.some.inj hnext]
    exact balancedOver_after (h.call call _) hbalanced
  | .returning a (frame :: stack) s', hbalanced, hnext =>
    rw [← Option.some.inj hnext]
    refine balancedOver_after (h.resume frame a _) ?_
    rw [Nat.add_assoc (used s), Nat.add_comm (heldByAll held stack)]
    exact hbalanced

theorem BalancedOver.zero {c : Config ε σ α Call Frame} (h : BalancedOver I used limit size held 0 c) :
    Balanced I used limit size held c := by
  match c, h with
  | .calling _ stack _, h =>
    rw [BalancedOver, Nat.zero_add] at h
    exact h
  | .returning _ stack _, h =>
    rw [BalancedOver, Nat.zero_add] at h
    exact h
  | .failed _ stack _, h =>
    rw [BalancedOver, Nat.zero_add] at h
    exact h

end Pays

end StackMachine

end Exfer.Lib
