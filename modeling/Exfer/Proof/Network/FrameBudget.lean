import Exfer.Spec.FrameBudget
import Mathlib.Algebra.Order.BigOperators.Group.Multiset

/-!
# The frame budgets are exact

Each counter is the sum of the reservations that are held and of what the calls in progress have
added and not yet taken back (`BudgetInv`). An atomic operation moves bytes between the counter, a
call and a reservation (`BudgetInv.step`), so the counters stay under their caps, none underflows,
and when no call is in progress they are the sums of the reservations (`frameBudget_exact`).
-/

namespace Exfer.Proof

open Lib Impl Spec

variable {Peer : Type} [DecidableEq Peer] {b : UInt64} {c : BudgetCounters Peer}

/-! ## Counters -/

theorem saturatingAdd_of_le (hcap : cap.toNat < 2 ^ 64 - 1) (h : ¬ saturatingAdd a b > cap) :
    (saturatingAdd a b).toNat = a.toNat + b.toNat ∧
      a.toNat + b.toNat ≤ cap.toNat := by
  have hle : (saturatingAdd a b).toNat ≤ cap.toNat := by
    simpa [UInt64.lt_iff_toNat_lt] using h
  unfold saturatingAdd at hle ⊢
  split
  · rename_i hlt
    rw [if_pos hlt] at hle
    rw [UInt64.toNat_add, Nat.mod_eq_of_lt hlt] at hle ⊢
    exact ⟨rfl, hle⟩
  · rename_i hlt
    rw [if_neg hlt] at hle
    have hmax : (18446744073709551615 : UInt64).toNat = 2 ^ 64 - 1 := by decide
    omega

theorem toNat_sub_of_le (h : b.toNat ≤ a.toNat) : (a - b).toNat = a.toNat - b.toNat := by
  have ha := a.toNat_lt
  rw [UInt64.toNat_sub]
  omega

/-- What a call has in the counter of a peer. -/
def peerShare (p : Peer) : BudgetCall Peer → Nat
  | .loadGlobal r | .casGlobal r _ | .rollback r _ | .dropPeer r =>
    if r.peer = p then r.bytes.toNat else 0
  | _ => 0

/-- What a call has in the counter of the node. -/
def globalShare : BudgetCall Peer → Nat
  | .dropPeer r | .dropGlobal r => r.bytes.toNat
  | _ => 0

/-- The cap has been checked before a compare-exchange. -/
def Tried (caps : BudgetCaps Peer) : BudgetCall Peer → Prop
  | .casPeer r prev => ¬ saturatingAdd prev r.bytes > caps.peerCap r.peer
  | .casGlobal r prev => ¬ saturatingAdd prev r.bytes > caps.globalCap
  | _ => True

section

omit [DecidableEq Peer]

@[simp] theorem heldBytes_zero : heldBytes (0 : Multiset (FrameReservation Peer)) = 0 := rfl

@[simp] theorem heldBytes_cons (r : FrameReservation Peer) (held : Multiset (FrameReservation Peer)) :
    heldBytes (r ::ₘ held) = r.bytes.toNat + heldBytes held := by
  simp [heldBytes]

theorem heldBytes_add (held held' : Multiset (FrameReservation Peer)) :
    heldBytes (held + held') = heldBytes held + heldBytes held' := by
  simp [heldBytes]

end

@[simp] theorem peerHeldBytes_zero (p : Peer) : peerHeldBytes p 0 = 0 := by
  simp [peerHeldBytes]

@[simp] theorem peerHeldBytes_cons (p : Peer) (r : FrameReservation Peer)
    (held : Multiset (FrameReservation Peer)) : peerHeldBytes p (r ::ₘ held) =
      (if r.peer = p then r.bytes.toNat else 0) + peerHeldBytes p held := by
  unfold peerHeldBytes
  by_cases h : r.peer = p <;> simp [h]

theorem peerHeldBytes_add (p : Peer) (held held' : Multiset (FrameReservation Peer)) :
    peerHeldBytes p (held + held') = peerHeldBytes p held + peerHeldBytes p held' := by
  rw [peerHeldBytes, Multiset.filter_add, heldBytes_add]
  rfl

/-! ## The invariant -/

/-- The counters are made up of reservations and of the shares of calls in progress. -/
structure BudgetInv (caps : BudgetCaps Peer) (s : BudgetState Peer)
    (calls : Multiset (BudgetCall Peer)) : Prop where
  global : s.counters.globalUsed.toNat = heldBytes s.held + (calls.map globalShare).sum
  peer : ∀ p, (s.counters.peerUsed p).toNat =
    peerHeldBytes p s.held + (calls.map (peerShare p)).sum
  globalCap : s.counters.globalUsed.toNat ≤ caps.globalCap.toNat
  peerCap : ∀ p, (s.counters.peerUsed p).toNat ≤ (caps.peerCap p).toNat
  tried : ∀ c ∈ calls, Tried caps c

section

variable {caps : BudgetCaps Peer} {s : BudgetState Peer} {call : BudgetCall Peer}
  {calls : Multiset (BudgetCall Peer)} {r : FrameReservation Peer}

theorem BudgetInv.new (caps : BudgetCaps Peer) : BudgetInv caps (.new Peer) 0 where
  global := rfl
  peer _ := by simp [BudgetState.new, BudgetCounters.new]
  globalCap := Nat.zero_le _
  peerCap _ := Nat.zero_le _
  tried _ h := absurd h (Multiset.notMem_zero _)

theorem BudgetInv.start (h : BudgetInv caps s calls) (hstart : BudgetStarts s s' call) :
    BudgetInv caps s' (call ::ₘ calls) := by
  cases hstart with
  | tryReserve r =>
    refine ⟨?_, fun p => ?_, h.globalCap, h.peerCap, ?_⟩
    · simpa [globalShare] using h.global
    · simpa [peerShare] using h.peer p
    · exact Multiset.forall_mem_cons.mpr ⟨trivial, h.tried⟩
  | drop c held r =>
    have hglobal := h.global
    refine ⟨?_, fun p => ?_, h.globalCap, h.peerCap, ?_⟩
    · simp [globalShare] at hglobal ⊢
      omega
    · have hpeer := h.peer p
      simp [peerShare] at hpeer ⊢
      omega
    · exact Multiset.forall_mem_cons.mpr ⟨trivial, h.tried⟩

section

variable (h : BudgetInv caps s (call ::ₘ calls))
include h

/-- What an operation adds to the counters is what the call, or the reservation it returns, has
there afterwards. -/
theorem BudgetInv.move (hglobal : c.globalUsed.toNat + globalShare call = s.counters.globalUsed.toNat + (heldBytes
      (outcomeHeld outcome) + ((outcomeCalls outcome).map globalShare).sum))
    (hpeer : ∀ p, (c.peerUsed p).toNat + peerShare p call = (s.counters.peerUsed p).toNat +
      (peerHeldBytes p (outcomeHeld outcome) + ((outcomeCalls outcome).map (peerShare p)).sum))
    (hglobalCap : c.globalUsed.toNat ≤ caps.globalCap.toNat)
    (hpeerCap : ∀ p, (c.peerUsed p).toNat ≤ (caps.peerCap p).toNat)
    (htried : ∀ c ∈ outcomeCalls outcome, Tried caps c) :
    BudgetInv caps ⟨c, outcomeHeld outcome + s.held⟩ (outcomeCalls outcome + calls) := by
  refine ⟨?_, fun p => ?_, hglobalCap, hpeerCap, ?_⟩
  · have hsum := h.global
    simp only [heldBytes_add, Multiset.map_cons, Multiset.sum_cons, Multiset.map_add, Multiset.sum_add] at hsum ⊢
    omega
  · have hsum := h.peer p
    have hmove := hpeer p
    simp only [peerHeldBytes_add, Multiset.map_cons, Multiset.sum_cons, Multiset.map_add,
      Multiset.sum_add] at hsum hmove ⊢
    omega
  · intro c' hc'
    rcases Multiset.mem_add.mp hc' with hc' | hc'
    · exact htried c' hc'
    · exact (Multiset.forall_mem_cons.mp h.tried).2 c' hc'

/-- The head of the first loop: nothing is reserved yet. -/
theorem BudgetInv.tryPeer (hglobal : globalShare call = 0)
    (hpeer : ∀ p, peerShare p call = 0) (r : FrameReservation Peer) (prev : UInt64) :
    BudgetInv caps ⟨s.counters, outcomeHeld (BudgetCall.tryPeer caps r prev) + s.held⟩
      (outcomeCalls (BudgetCall.tryPeer caps r prev) + calls) := by
  by_cases hover : saturatingAdd prev r.bytes > caps.peerCap r.peer
  · rw [BudgetCall.tryPeer, if_pos hover]
    refine h.move ?_ (fun p => ?_) h.globalCap h.peerCap ?_
    · simp [hglobal, outcomeHeld, outcomeCalls]
    · simp [hpeer, outcomeHeld, outcomeCalls]
    · simp [outcomeCalls]
  · rw [BudgetCall.tryPeer, if_neg hover]
    refine h.move ?_ (fun p => ?_) h.globalCap h.peerCap ?_
    · rw [hglobal]
      simp [outcomeHeld, outcomeCalls, globalShare]
    · rw [hpeer]
      simp [outcomeHeld, outcomeCalls, peerShare]
    · simpa [outcomeCalls, Tried] using hover

/-- The head of the second loop: the bytes are in the counter of the peer. -/
theorem BudgetInv.tryGlobal (hglobal : globalShare call = 0)
    (hpeer : ∀ p, peerShare p call = if r.peer = p then r.bytes.toNat else 0) (prev : UInt64) :
    BudgetInv caps ⟨s.counters, outcomeHeld (BudgetCall.tryGlobal caps r prev) + s.held⟩
      (outcomeCalls (BudgetCall.tryGlobal caps r prev) + calls) := by
  by_cases hover : saturatingAdd prev r.bytes > caps.globalCap
  · rw [BudgetCall.tryGlobal, if_pos hover]
    refine h.move ?_ (fun p => ?_) h.globalCap h.peerCap ?_
    · rw [hglobal]
      simp [outcomeHeld, outcomeCalls, globalShare]
    · rw [hpeer]
      simp [outcomeHeld, outcomeCalls, peerShare]
    · simp [outcomeCalls, Tried]
  · rw [BudgetCall.tryGlobal, if_neg hover]
    refine h.move ?_ (fun p => ?_) h.globalCap h.peerCap ?_
    · rw [hglobal]
      simp [outcomeHeld, outcomeCalls, globalShare]
    · rw [hpeer]
      simp [outcomeHeld, outcomeCalls, peerShare]
    · simpa [outcomeCalls, Tried] using hover

end

/-- What a `fetch_sub` takes is there: it is the share of the call. -/
theorem BudgetInv.noUnderflow (h : BudgetInv caps s calls) : ∀ c ∈ calls, NoUnderflow s.counters c := by
  intro c hc
  have hglobal : globalShare c ≤ (calls.map globalShare).sum :=
    Multiset.le_sum_of_mem (Multiset.mem_map_of_mem _ hc)
  have hpeer (p : Peer) : peerShare p c ≤ (calls.map (peerShare p)).sum :=
    Multiset.le_sum_of_mem (Multiset.mem_map_of_mem _ hc)
  have hglobal' := h.global
  have hpeer' := h.peer
  cases c with
  | rollback r used | dropPeer r =>
    have := hpeer r.peer
    have := hpeer' r.peer
    simp only [peerShare, if_true] at *
    exact UInt64.le_iff_toNat_le.mpr (by omega)
  | dropGlobal r =>
    simp only [globalShare] at *
    exact UInt64.le_iff_toNat_le.mpr (by omega)
  | loadPeer r | casPeer r prev | loadGlobal r | casGlobal r prev => trivial

/-- The counter of one peer changes. -/
theorem toNat_update {used : Peer → UInt64} {p : Peer} {n : UInt64} (q : Peer) :
    (Function.update used p n q).toNat = if p = q then n.toNat else (used q).toNat := by
  by_cases h : p = q
  · subst h
    simp
  · rw [Function.update_of_ne (Ne.symm h), if_neg h]

/-- A `fetch_sub` on the counter of a peer by a call that has the bytes there. -/
theorem BudgetInv.subPeer (h : BudgetInv caps s (call ::ₘ calls)) (hle : r.bytes ≤ s.counters.peerUsed r.peer)
    (hpeer : ∀ p, peerShare p call = if r.peer = p then r.bytes.toNat else 0)
    (hpeer' : ∀ p, ((outcomeCalls outcome).map (peerShare p)).sum = 0)
    (hglobal : globalShare call = ((outcomeCalls outcome).map globalShare).sum)
    (hheld : outcomeHeld outcome = 0) (htried : ∀ c ∈ outcomeCalls outcome, Tried caps c) : BudgetInv caps
      ⟨{ s.counters with peerUsed :=
          Function.update s.counters.peerUsed r.peer (s.counters.peerUsed r.peer - r.bytes) },
        outcomeHeld outcome + s.held⟩ (outcomeCalls outcome + calls) := by
  have hsub := toNat_sub_of_le (UInt64.le_iff_toNat_le.mp hle)
  have hle := UInt64.le_iff_toNat_le.mp hle
  refine h.move ?_ (fun p => ?_) h.globalCap (fun p => ?_) htried
  · simp [hglobal, hheld]
  · rw [toNat_update, hpeer, hpeer', hheld]
    split
    · rename_i heq
      subst heq
      rw [hsub, peerHeldBytes_zero]
      omega
    · simp
  · have := h.peerCap p
    rw [toNat_update]
    split
    · rename_i heq
      subst heq
      omega
    · exact this

/-- An atomic operation keeps the invariant. -/
theorem BudgetInv.step (hglobalMax : caps.globalCap.toNat < 2 ^ 64 - 1)
    (hpeerMax : ∀ p, (caps.peerCap p).toNat < 2 ^ 64 - 1) (h : BudgetInv caps s (call ::ₘ calls))
    (hstep : (budgetTasks caps).steps s call s' next) : BudgetInv caps s' (next + calls) := by
  obtain ⟨spurious, c, outcome, hcall, rfl, rfl⟩ := hstep
  have hunder := h.noUnderflow call (Multiset.mem_cons_self call calls)
  have htried := h.tried call (Multiset.mem_cons_self call calls)
  cases call with
  | loadPeer r =>
    cases hcall
    exact h.tryPeer rfl (fun _ => rfl) r _
  | casPeer r prev =>
    by_cases hsame : s.counters.peerUsed r.peer = prev ∧ ! spurious
    · rw [BudgetCall.step, if_pos hsame] at hcall
      cases hcall
      obtain ⟨hadd, hcap⟩ := saturatingAdd_of_le (hpeerMax r.peer) htried
      refine h.move ?_ (fun p => ?_) h.globalCap (fun p => ?_) ?_
      · simp [outcomeHeld, outcomeCalls, globalShare]
      · rw [toNat_update]
        split
        · rename_i heq
          subst heq
          simp [outcomeHeld, outcomeCalls, peerShare, hadd, hsame.1]
        · rename_i hne
          simp [outcomeHeld, outcomeCalls, peerShare, hne]
      · have := h.peerCap p
        rw [toNat_update]
        split
        · rename_i heq
          subst heq
          omega
        · exact this
      · simp [outcomeCalls, Tried]
    · rw [BudgetCall.step, if_neg hsame] at hcall
      cases hcall
      exact h.tryPeer rfl (fun _ => rfl) r _
  | loadGlobal r =>
    cases hcall
    exact h.tryGlobal rfl (fun _ => rfl) _
  | casGlobal r prev =>
    by_cases hsame : s.counters.globalUsed = prev ∧ ! spurious
    · rw [BudgetCall.step, if_pos hsame] at hcall
      cases hcall
      obtain ⟨hadd, hcap⟩ := saturatingAdd_of_le hglobalMax htried
      refine h.move ?_ (fun p => ?_) ?_ h.peerCap ?_
      · simp [outcomeHeld, outcomeCalls, globalShare, hadd, hsame.1, heldBytes]
      · simp [outcomeHeld, outcomeCalls, peerShare, ← Multiset.cons_zero]
      · show (saturatingAdd prev r.bytes).toNat ≤ _
        omega
      · simp [outcomeCalls]
    · rw [BudgetCall.step, if_neg hsame] at hcall
      cases hcall
      exact h.tryGlobal rfl (fun _ => rfl) _
  | rollback r used =>
    cases hcall
    exact h.subPeer hunder (fun _ => rfl) (fun _ => rfl) rfl rfl (by simp [outcomeCalls])
  | dropPeer r =>
    cases hcall
    exact h.subPeer hunder (fun _ => rfl) (fun _ => rfl) rfl rfl (by simp [outcomeCalls, Tried])
  | dropGlobal r =>
    cases hcall
    have hle := UInt64.le_iff_toNat_le.mp hunder
    have hsub := toNat_sub_of_le hle
    refine h.move ?_ (fun p => ?_) ?_ h.peerCap ?_
    · simp [outcomeHeld, outcomeCalls, globalShare, hsub]
      omega
    · simp [outcomeHeld, outcomeCalls, peerShare]
    · have := h.globalCap
      show (s.counters.globalUsed - r.bytes).toNat ≤ _
      omega
    · simp [outcomeCalls]

end

/-- In every interleaving of calls of `try_reserve` and `drop` at their atomic operations, the
counters stay under their caps, a `fetch_sub` takes no more than is there, and when no call is in
progress the counters are the sums of the outstanding reservations. The caps are under `usize::MAX`,
at which `saturating_add` would hide an overflow. -/
theorem frameBudget_exact (caps : BudgetCaps Peer) (hglobalMax : caps.globalCap.toNat < 2 ^ 64 - 1)
    (hpeerMax : ∀ p, (caps.peerCap p).toNat < 2 ^ 64 - 1) (s : BudgetState Peer)
    (calls : Multiset (BudgetCall Peer)) (h : (budgetTasks caps).Reaches (.new Peer) s calls) :
    s.counters.globalUsed ≤ caps.globalCap ∧ (∀ p, s.counters.peerUsed p ≤ caps.peerCap p) ∧
      (∀ c ∈ calls, NoUnderflow s.counters c) ∧
      (calls = 0 → s.counters.globalUsed.toNat = heldBytes s.held ∧
        ∀ p, (s.counters.peerUsed p).toNat = peerHeldBytes p s.held) := by
  have hinv : BudgetInv caps s calls := h.invariant (.new caps)
    (fun _ _ _ _ hinv hstart => hinv.start hstart)
    (fun _ _ _ _ _ hinv hstep => hinv.step hglobalMax hpeerMax hstep)
  refine ⟨UInt64.le_iff_toNat_le.mpr hinv.globalCap,
    fun p => UInt64.le_iff_toNat_le.mpr (hinv.peerCap p), hinv.noUnderflow, ?_⟩
  rintro rfl
  exact ⟨hinv.global, hinv.peer⟩

/-- A call alone takes an operation and goes on. -/
theorem reaches_running (call' : BudgetCall Peer) (spurious : Bool)
    (h : (budgetTasks caps).Reaches (.new Peer) ⟨c, held⟩ (call ::ₘ 0))
    (hstep : call.step caps spurious c = (c', .running call')) :
    (budgetTasks caps).Reaches (.new Peer) ⟨c', held⟩ (call' ::ₘ 0) := by
  have := h.step ⟨spurious, c', _, hstep, rfl, rfl⟩
  simpa [outcomeHeld, outcomeCalls] using this

/-- One peer reserves a kilobyte; a compare-exchange fails once for no reason. -/
theorem frameBudget_exact_kilobyte : let caps : BudgetCaps Unit := .new Unit
    let s : BudgetState Unit := ⟨⟨1024, fun _ => 1024⟩, {⟨(), 1024⟩}⟩
    (budgetTasks caps).Reaches (.new Unit) s 0 ∧
      s.counters.globalUsed.toNat = heldBytes s.held := by
  intro caps s
  let r : FrameReservation Unit := ⟨(), 1024⟩
  have hload : (budgetTasks caps).Reaches (.new Unit) ⟨.new Unit, 0⟩ (.loadPeer r ::ₘ 0) :=
    Tasks.Reaches.start.spawn (.tryReserve _ r)
  have htry : BudgetCall.tryPeer caps r 0 = .running (.casPeer r 0) := if_neg (by decide)
  have htry' : BudgetCall.tryGlobal caps r 0 = .running (.casGlobal r 0) := if_neg (by decide)
  have hcas := reaches_running (.casPeer r 0) false hload (congrArg _ htry)
  have hagain := reaches_running (.casPeer r 0) true hcas (congrArg _ htry)
  have hpeer := reaches_running (.loadGlobal r) false hagain rfl
  have hglobal := reaches_running (.casGlobal r 0) false hpeer (congrArg _ htry')
  have hdone : (budgetTasks caps).Reaches (.new Unit) s 0 :=
    hglobal.step ⟨false, _, .reserved r, rfl, rfl, rfl⟩
  have hmax : perPeerFrameBudgetBytes.toNat < 2 ^ 64 - 1 := by decide
  exact ⟨hdone, ((frameBudget_exact caps (by decide) (fun _ => hmax) s 0 hdone).2.2.2 rfl).1⟩

end Exfer.Proof
