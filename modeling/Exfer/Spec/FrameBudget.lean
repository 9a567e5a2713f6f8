import Exfer.Impl.Network.FrameBudget
import Exfer.Lib.Interleave
import Mathlib.Algebra.BigOperators.Group.Multiset.Basic
import Mathlib.Algebra.Order.Ring.Nat

/-!
# Threads over the frame budgets

Any number of threads call `try_reserve` and drop reservations, interleaved at each atomic operation
(`budgetTasks`).
-/

namespace Exfer.Spec

open Lib Impl

variable {Peer : Type} [DecidableEq Peer]

/-- The counters, and the reservations that have been returned and not dropped. -/
structure BudgetState (Peer : Type) where
  counters : BudgetCounters Peer
  held : Multiset (FrameReservation Peer)

/-- The budgets when they are made. -/
def BudgetState.new (Peer : Type) : BudgetState Peer :=
  ⟨.new Peer, 0⟩

/-- The call goes on, or has returned. -/
def outcomeCalls : BudgetOutcome Peer → Multiset (BudgetCall Peer)
  | .running call => {call}
  | _ => 0

/-- The reservation that a call returns. -/
def outcomeHeld : BudgetOutcome Peer → Multiset (FrameReservation Peer)
  | .reserved r => {r}
  | _ => 0

/-- The calls: `try_reserve` on any peer, and `drop` of any reservation that is held. -/
inductive BudgetStarts : BudgetState Peer → BudgetState Peer → BudgetCall Peer → Prop where
  | tryReserve (s : BudgetState Peer) (r : FrameReservation Peer) : BudgetStarts s s (.loadPeer r)
  | drop (c : BudgetCounters Peer) (held : Multiset (FrameReservation Peer))
      (r : FrameReservation Peer) : BudgetStarts ⟨c, r ::ₘ held⟩ ⟨c, held⟩ (.dropPeer r)

/-- The interleavings of calls on budgets with the given caps. -/
def budgetTasks (caps : BudgetCaps Peer) : Tasks (BudgetState Peer) (BudgetCall Peer) where
  starts := BudgetStarts
  steps s call s' next := ∃ spurious c outcome,
    call.step caps spurious s.counters = (c, outcome) ∧
      s' = ⟨c, outcomeHeld outcome + s.held⟩ ∧ next = outcomeCalls outcome

/-- What the reservations hold together. -/
def heldBytes (held : Multiset (FrameReservation Peer)) : Nat :=
  (held.map fun r => r.bytes.toNat).sum

/-- What the reservations of a peer hold together. -/
def peerHeldBytes (p : Peer) (held : Multiset (FrameReservation Peer)) : Nat :=
  heldBytes (held.filter fun r => r.peer = p)

/-- What a `fetch_sub` that a call is about to do takes from a counter is there. -/
def NoUnderflow (c : BudgetCounters Peer) : BudgetCall Peer → Prop
  | .rollback r _ => r.bytes ≤ c.peerUsed r.peer
  | .dropPeer r => r.bytes ≤ c.peerUsed r.peer
  | .dropGlobal r => r.bytes ≤ c.globalUsed
  | _ => True

end Exfer.Spec
