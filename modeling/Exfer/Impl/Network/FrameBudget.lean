import Mathlib.Algebra.Order.Ring.Nat

/-!
# Budgets for frames in flight

`network/frame_budget.rs`: a counter of the bytes in flight for the node and one for each peer. The
counters are atomic, so a call is a sequence of atomic operations, and `BudgetCall.step` is the next
one of a call with what it computes until the one after. `usize` is that of a 64-bit target.
-/

namespace Exfer.Impl

/-- `GLOBAL_FRAME_BUDGET_BYTES`: 128 MiB. -/
def globalFrameBudgetBytes : UInt64 := 134217728

/-- `PER_PEER_FRAME_BUDGET_BYTES`: 16 MiB. -/
def perPeerFrameBudgetBytes : UInt64 := 16777216

def saturatingAdd (a b : UInt64) : UInt64 :=
  if a.toNat + b.toNat < 2 ^ 64 then a + b else 18446744073709551615

inductive BudgetError where
  | global (requested used cap : UInt64)
  | perPeer (requested held cap : UInt64)
  deriving DecidableEq, Repr

/-- `FrameReservation`, of the budget of a peer. -/
structure FrameReservation (Peer : Type) where
  peer : Peer
  bytes : UInt64

/-- The caps of `FrameBudget` and of each `PeerBudget`. -/
structure BudgetCaps (Peer : Type) where
  globalCap : UInt64
  peerCap : Peer → UInt64

/-- The caps that `FrameBudget::new` and `PeerBudget::new` set. -/
def BudgetCaps.new (Peer : Type) : BudgetCaps Peer :=
  ⟨globalFrameBudgetBytes, fun _ => perPeerFrameBudgetBytes⟩

/-- The atomic counters. -/
structure BudgetCounters (Peer : Type) where
  globalUsed : UInt64
  peerUsed : Peer → UInt64

/-- Counters of budgets that have just been made. -/
def BudgetCounters.new (Peer : Type) : BudgetCounters Peer :=
  ⟨0, fun _ => 0⟩

/-- A call of `try_reserve` or `drop` that is about to do an atomic operation. -/
inductive BudgetCall (Peer : Type) where
  /-- The load of `peer_used`. -/
  | loadPeer (r : FrameReservation Peer)
  /-- The compare-exchange of `peer_used` against `peer_prev`. -/
  | casPeer (r : FrameReservation Peer) (prev : UInt64)
  /-- The load of `global_used`. -/
  | loadGlobal (r : FrameReservation Peer)
  /-- The compare-exchange of `global_used` against `global_prev`. -/
  | casGlobal (r : FrameReservation Peer) (prev : UInt64)
  /-- The `fetch_sub` that rolls the peer reservation back. -/
  | rollback (r : FrameReservation Peer) (used : UInt64)
  /-- The first `fetch_sub` of `drop`. -/
  | dropPeer (r : FrameReservation Peer)
  /-- The second `fetch_sub` of `drop`. -/
  | dropGlobal (r : FrameReservation Peer)

/-- What becomes of a call after an atomic operation. -/
inductive BudgetOutcome (Peer : Type) where
  | running (call : BudgetCall Peer)
  | reserved (r : FrameReservation Peer)
  | failed (e : BudgetError)
  | dropped

namespace BudgetCall

variable {Peer : Type} (caps : BudgetCaps Peer)

/-- The head of the first loop of `try_reserve`. -/
def tryPeer (r : FrameReservation Peer) (prev : UInt64) : BudgetOutcome Peer :=
  if saturatingAdd prev r.bytes > caps.peerCap r.peer then
    .failed (.perPeer r.bytes prev (caps.peerCap r.peer))
  else .running (.casPeer r prev)

/-- The head of the second loop of `try_reserve`. -/
def tryGlobal (r : FrameReservation Peer) (prev : UInt64) : BudgetOutcome Peer :=
  if saturatingAdd prev r.bytes > caps.globalCap then .running (.rollback r prev)
  else .running (.casGlobal r prev)

variable [DecidableEq Peer]

/-- The next atomic operation of a call. A weak compare-exchange may fail although the value is the
expected one; it returns the value then as well. -/
def step (spurious : Bool) (c : BudgetCounters Peer) :
    BudgetCall Peer → BudgetCounters Peer × BudgetOutcome Peer
  | .loadPeer r => (c, tryPeer caps r (c.peerUsed r.peer))
  | .casPeer r prev =>
    if c.peerUsed r.peer = prev ∧ ! spurious then
      ({ c with peerUsed := Function.update c.peerUsed r.peer (saturatingAdd prev r.bytes) },
        .running (.loadGlobal r))
    else (c, tryPeer caps r (c.peerUsed r.peer))
  | .loadGlobal r => (c, tryGlobal caps r c.globalUsed)
  | .casGlobal r prev =>
    if c.globalUsed = prev ∧ ! spurious then
      ({ c with globalUsed := saturatingAdd prev r.bytes }, .reserved r)
    else (c, tryGlobal caps r c.globalUsed)
  | .rollback r used =>
    ({ c with peerUsed := Function.update c.peerUsed r.peer (c.peerUsed r.peer - r.bytes) },
      .failed (.global r.bytes used caps.globalCap))
  | .dropPeer r =>
    ({ c with peerUsed := Function.update c.peerUsed r.peer (c.peerUsed r.peer - r.bytes) },
      .running (.dropGlobal r))
  | .dropGlobal r => ({ c with globalUsed := c.globalUsed - r.bytes }, .dropped)

end BudgetCall

end Exfer.Impl
