import Exfer.Spec.Triggers

/-!
# The bookkeeping of reorg triggers

The map and the queue of ancestors agree with one queue of stored triggers (`Stores`): the queue of
ancestors is its first column, a list of the map is the blocks of one ancestor, in order. So the front of
the queue of ancestors names the list whose head is the oldest block of all.
-/

namespace Exfer.Proof.Node

open Lib Impl Spec Spec.TriggerCall

/-- The state stores the triggers of the queue. -/
structure Stores (t : ReorgTriggerState) (queue : List Trigger) : Prop where
  order : t.order = queue.map (·.ancestorId)
  blocks : ∀ a, (t.triggers.lookup a).getD [] = (waitingFor a queue).map (·.block)
  nonempty : ∀ a, t.triggers.lookup a ≠ some []

variable {t : ReorgTriggerState} {queue : List Trigger} {a : Hash256}

theorem waitingFor_concat (e : Trigger) :
    waitingFor a (queue ++ [e]) = waitingFor a queue ++ if e.ancestorId = a then [e] else [] := by
  simp [waitingFor, List.filter_singleton]

theorem waitingFor_drop_le (n : Nat) : (waitingFor a (queue.drop n)).length ≤ (waitingFor a queue).length :=
  ((List.drop_sublist n queue).filter _).length_le

section

variable (h : Stores t queue)
include h

theorem Stores.length : ((t.triggers.lookup a).getD []).length = (waitingFor a queue).length := by
  rw [h.blocks, List.length_map]

theorem Stores.count_order (a : Hash256) : t.order.count a = ((t.triggers.lookup a).getD []).length := by
  rw [h.length, h.order, List.count, List.countP_map, List.countP_eq_length_filter]
  simp [waitingFor, Function.comp_def, beq_eq_decide]

theorem Stores.total : ∑ a ∈ t.triggers.keys, ((t.triggers.lookup a).getD []).length = queue.length := by
  have hkeys : ∀ a ∈ (t.order : Multiset Hash256), a ∈ t.triggers.keys := by
    intro a ha
    have hpos := List.count_pos_iff.mpr ha
    rw [h.count_order] at hpos
    rw [Map.mem_keys_iff]
    intro hnone
    simp [hnone] at hpos
  have hsum := Multiset.sum_count_eq_card hkeys
  simp only [Multiset.coe_count, Multiset.coe_card, h.order, List.length_map] at hsum
  simp only [← h.count_order, h.order]
  convert hsum

/-- Every operation changes the list of one ancestor. -/
theorem Stores.update {t' : ReorgTriggerState} {queue' : List Trigger} {x : Option (List Block)}
    (horder : t'.order = queue'.map (·.ancestorId))
    (hlookup : ∀ b, t'.triggers.lookup b = if b = a then x else t.triggers.lookup b)
    (hx : x.getD [] = (waitingFor a queue').map (·.block)) (hne : x ≠ some [])
    (hother : ∀ b ≠ a, waitingFor b queue' = waitingFor b queue) : Stores t' queue' := by
  refine ⟨horder, fun b => ?_, fun b => ?_⟩ <;> rw [hlookup] <;> split
  · subst b
    exact hx
  · rw [hother b ‹_›, h.blocks]
  · exact hne
  · exact h.nonempty b

theorem Stores.evictOldest : Stores t.evictOldest queue.tail := by
  cases queue with
  | nil =>
    rw [show t.evictOldest = t by simp [ReorgTriggerState.evictOldest, h.order]]
    exact h
  | cons oldest rest =>
    have hother : ∀ b ≠ oldest.ancestorId, waitingFor b rest = waitingFor b (oldest :: rest) :=
      fun b hb => (List.filter_cons_of_neg (by simpa using hb.symm)).symm
    have hblocks := h.blocks oldest.ancestorId
    rw [waitingFor, List.filter_cons_of_pos (by simp), List.map_cons, ← waitingFor] at hblocks
    unfold ReorgTriggerState.evictOldest
    rw [h.order]
    cases hlookup : t.triggers.lookup oldest.ancestorId with
    | none => simp [hlookup] at hblocks
    | some blocks =>
      rw [hlookup, Option.getD_some] at hblocks
      subst blocks
      simp only [List.map_cons, hlookup, Option.map_some, List.tail_cons]
      -- the rest of the list is put back unless it is empty
      cases hrest : (waitingFor oldest.ancestorId rest).map (·.block) with
      | nil => exact h.update rfl (fun _ => Map.lookup_erase_eq) hrest.symm nofun hother
      | cons next later => exact h.update rfl (fun _ => Map.lookup_insert_eq) hrest.symm nofun hother

theorem Stores.makeRoom : Stores t.makeRoom (queue.drop (queue.length + 1 - maxGlobalTriggers)) := by
  rw [ReorgTriggerState.makeRoom, h.order, List.length_map]
  generalize queue.length + 1 - maxGlobalTriggers = rounds
  induction rounds with
  | zero => exact h
  | succ rounds ih =>
    rw [← List.tail_drop]
    exact ih.evictOldest

theorem Stores.insert (ancestorId : Hash256) (block : Block) (number : Nat) :
    Stores (t.insert ancestorId block).1 ((TriggerCall.insert ancestorId block).enqueue queue number) := by
  unfold ReorgTriggerState.insert
  simp only [h.length, enqueue]
  split
  · exact h
  rename_i hroom
  have hmade := h.makeRoom
  rw [if_pos (hmade.length.trans_lt ((waitingFor_drop_le _).trans_lt (Nat.not_le.mp hroom)))]
  refine hmade.update (by simp [hmade.order]) (fun _ => Map.lookup_insert_eq) ?_ (by simp) fun b hb => ?_
  · simp [hmade.blocks, waitingFor_concat]
  · simp [waitingFor_concat, hb.symm]

theorem Stores.take (ancestorId : Hash256) (number : Nat) :
    Stores (t.take ancestorId).1 ((TriggerCall.take ancestorId).enqueue queue number) := by
  refine h.update ?_ (fun _ => Map.lookup_erase_eq) ?_ nofun fun b hb => ?_
  · simp only [ReorgTriggerState.take, h.order, List.filter_map, enqueue]
    rfl
  · simp [waitingFor, enqueue, List.filter_filter]
  · simp only [waitingFor, enqueue, List.filter_filter]
    congr 1
    grind

end

/-- The queue after so many calls: within both limits, in the order of arrival. -/
structure Queued (calls : Nat) (queue : List Trigger) : Prop where
  each : ∀ a, (waitingFor a queue).length ≤ maxTriggersPerAncestor
  total : queue.length ≤ maxGlobalTriggers
  past : ∀ e ∈ queue, e.arrival < calls
  sorted : queue.Pairwise (·.arrival < ·.arrival)

theorem Queued.sublist {queue' : List Trigger} (h : Queued n queue) (hsub : queue'.Sublist queue) :
    Queued (n + 1) queue' where
  each a := (hsub.filter _).length_le.trans (h.each a)
  total := hsub.length_le.trans h.total
  past e he := Nat.lt_succ_of_lt (h.past e (hsub.subset he))
  sorted := h.sorted.sublist hsub

theorem Queued.enqueue (h : Queued n queue) (call : TriggerCall) : Queued (n + 1) (call.enqueue queue n) := by
  cases call with
  | take ancestorId => exact h.sublist List.filter_sublist
  | insert ancestorId block =>
    simp only [TriggerCall.enqueue]
    split
    · exact h.sublist (List.Sublist.refl _)
    · rename_i hroom
      have hkept := h.sublist (List.drop_sublist (queue.length + 1 - maxGlobalTriggers) queue)
      refine ⟨fun a => ?_, ?_, fun e he => ?_, ?_⟩
      · rw [waitingFor_concat, List.length_append]
        split
        · subst a
          exact ((waitingFor_drop_le _).trans_lt (Nat.not_le.mp hroom))
        · exact hkept.each a
      · have htotal := h.total
        simp only [List.length_append, List.length_drop, List.length_singleton, maxGlobalTriggers] at *
        omega
      · obtain he | he := List.mem_append.mp he
        · exact hkept.past e he
        · rw [List.mem_singleton.mp he]
          exact Nat.lt_succ_self n
      · refine List.pairwise_append.mpr ⟨hkept.sorted, List.pairwise_singleton _ _, fun e he e' he' => ?_⟩
        rw [List.mem_singleton.mp he']
        exact h.past e (List.mem_of_mem_drop he)

/-- An insertion removes the oldest trigger or none. -/
theorem Queued.oldest (h : Queued n queue) {evicted e : Trigger} (hmem : evicted ∈ queue)
    (hgone : evicted ∉ (TriggerCall.insert ancestorId block).enqueue queue n) (he : e ∈ queue) :
    evicted.arrival ≤ e.arrival := by
  simp only [TriggerCall.enqueue] at hgone
  split at hgone
  · exact absurd hmem hgone
  cases queue with
  | nil => cases hmem
  | cons oldest rest =>
    have hone : (oldest :: rest).length + 1 - maxGlobalTriggers ≤ 1 := by
      have htotal := h.total
      omega
    have hrest : evicted ∉ rest := fun hin =>
      hgone (List.mem_append_left _ ((List.drop_sublist_drop_left (oldest :: rest) hone).subset hin))
    obtain rfl := (List.mem_cons.mp hmem).resolve_right hrest
    obtain rfl | he := List.mem_cons.mp he
    · exact Nat.le_refl _
    · exact (List.rel_of_pairwise_cons h.sorted he).le

theorem queueOf_concat (calls : List TriggerCall) (call : TriggerCall) :
    queueOf (calls ++ [call]) = call.enqueue (queueOf calls) calls.length := by
  simp [queueOf, List.zipIdx_append]

theorem stores_run (calls : List TriggerCall) :
    Stores (run calls) (queueOf calls) ∧ Queued calls.length (queueOf calls) := by
  induction calls using List.reverseRecOn with
  | nil => exact ⟨⟨rfl, fun _ => rfl, nofun⟩, ⟨by simp [queueOf, waitingFor], by decide, nofun, .nil⟩⟩
  | append_singleton calls call ih =>
    rw [queueOf_concat, run, List.foldl_append, List.length_append]
    refine ⟨?_, ih.2.enqueue call⟩
    cases call with
    | insert ancestorId block => exact ih.1.insert ancestorId block calls.length
    | take ancestorId => exact ih.1.take ancestorId calls.length

/-- Over every sequence of calls the queue of ancestors counts the stored triggers, no list is empty, both
limits hold, and what an insertion evicts is the oldest of the stored triggers. -/
theorem trigger_bookkeeping (calls : List TriggerCall) :
    (∀ a, (run calls).order.count a = (((run calls).triggers.lookup a).getD []).length) ∧
    (∀ a blocks, (run calls).triggers.lookup a = some blocks →
      blocks ≠ [] ∧ blocks.length ≤ maxTriggersPerAncestor) ∧
    ∑ a ∈ (run calls).triggers.keys, (((run calls).triggers.lookup a).getD []).length ≤ maxGlobalTriggers ∧
    (∀ a, ((run calls).triggers.lookup a).getD [] = (waitingFor a (queueOf calls)).map (·.block)) ∧
    ∀ ancestorId block, ∀ evicted ∈ queueOf calls,
      evicted ∉ queueOf (calls ++ [.insert ancestorId block]) →
        ∀ e ∈ queueOf calls, evicted.arrival ≤ e.arrival := by
  obtain ⟨hstores, hqueued⟩ := stores_run calls
  refine ⟨hstores.count_order, fun a blocks hlookup => ⟨?_, ?_⟩, hstores.total.trans_le hqueued.total,
    hstores.blocks, fun ancestorId block evicted hmem hgone e he => ?_⟩
  · rintro rfl
    exact hstores.nonempty a hlookup
  · have hlen := hstores.length (a := a)
    rw [hlookup] at hlen
    exact hlen.trans_le (hqueued.each a)
  · rw [queueOf_concat] at hgone
    exact hqueued.oldest hmem hgone he

end Exfer.Proof.Node
