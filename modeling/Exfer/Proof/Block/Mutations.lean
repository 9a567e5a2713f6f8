import Exfer.Proof.Block.Rules
import Exfer.Spec.Chain

/-!
# The log of mutations

What the application of transactions makes of the outputs that it does not create, and of the
mutations that it returns (`Mutates`).
-/

namespace Exfer.Proof

open Lib Impl Spec UtxoSet

variable [Crypto]

/-- The mutations of some transactions lead from one map to another: what they spend is gone and the
rest is as before but for what they create, which can be stored. -/
structure Mutates (txs : List Transaction) (m : Map OutPoint UtxoEntry)
    (mutations : List UtxoMutation) (m' : Map OutPoint UtxoEntry) : Prop where
  lookup : ∀ op, op ∉ outputsOfAll txs →
    m'.lookup op = if op ∈ txs.flatMap spends then none else m.lookup op
  serializes : ∀ op entry, .insert op entry ∈ mutations → ∃ bytes, entry.output.serialize = .ok bytes

section

variable {txs : List Transaction} {mutations : List UtxoMutation} {s s' : UtxoSet}

theorem mutates_nil (m : Map OutPoint UtxoEntry) : Mutates [] m [] m :=
  ⟨fun _ _ => rfl, fun _ _ h => nomatch h⟩

theorem outputsOfAll_append (txs txs' : List Transaction) :
    outputsOfAll (txs ++ txs') = outputsOfAll txs ∪ outputsOfAll txs' := by
  ext op
  simp only [outputsOfAll, List.mem_append, or_and_right, exists_or, Set.mem_union, Set.mem_ofPred_eq]

theorem Mutates.append (h : Mutates txs m mutations m') (h' : Mutates txs' m' mutations' m'') :
    Mutates (txs ++ txs') m (mutations ++ mutations') m'' where
  lookup op hop := by
    rw [outputsOfAll_append, Set.mem_union, not_or] at hop
    rw [h'.lookup op hop.2, h.lookup op hop.1, List.flatMap_append]
    by_cases hspent : op ∈ txs.flatMap spends <;> by_cases hspent' : op ∈ txs'.flatMap spends <;>
      simp [hspent, hspent']
  serializes op entry hmem :=
    (List.mem_append.mp hmem).elim (h.serializes op entry) (h'.serializes op entry)

theorem applyTransaction_mutates (h : s.applyTransaction tx height = (s', .ok mutations)) :
    Mutates [tx] s.utxos mutations s'.utxos := by
  obtain ⟨txId, removed, hid, hkeys, -, hutxos, rfl⟩ := applyTransaction_ok h
  refine ⟨fun op hop => ?_, fun op entry hmem => ?_⟩
  · have hfree : op ∉ (created txId tx height).map Prod.fst := by
      rw [← mem_outputsOf hid]
      simpa [outputsOfAll] using hop
    rw [List.flatMap_singleton, ← hkeys, hutxos]
    exact Delta.lookup_apply_of_notMem hfree
  · simp only [List.mem_append, List.mem_map, UtxoMutation.insert.injEq, reduceCtorEq, and_false,
      exists_false, false_or] at hmem
    obtain ⟨x, hx, rfl, rfl⟩ := hmem
    exact (txId_ok hid).2.2 _ (mem_created hx).2.2.2

variable [Network]

theorem applyRest_mutates (h : applyRest height s log txs = (s', .ok log')) :
    ∃ mutations, log'.mutations = log.mutations ++ mutations ∧
      Mutates txs s.utxos mutations s'.utxos := by
  induction txs generalizing s log with
  | nil =>
    cases h
    exact ⟨[], (List.append_nil _).symm, mutates_nil _⟩
  | cons tx txs ih =>
    unfold applyRest at h
    split at h
    · cases h
    rename_i s₁ log₁ hnext
    obtain ⟨_, _, _, mutations, _, _, happly, rfl⟩ := applyNext_ok hnext
    obtain ⟨rest, hrest, hmutates⟩ := ih h
    refine ⟨mutations ++ rest, ?_, (applyTransaction_mutates happly).append hmutates⟩
    rw [hrest, List.append_assoc]

theorem validateAndApply_mutates (h : validateAndApplyBlockTransactionsAtomic block s = some (s', .ok r)) :
    Mutates block.transactions s.utxos r.2 s'.utxos := by
  unfold validateAndApplyBlockTransactionsAtomic at h
  split at h
  · cases h
  rename_i coinbase rest htxs
  obtain ⟨s₁, mutations, log, hcoinbase, hrest, -, -, rfl⟩ := applyBlock_ok (Option.some.inj h)
  obtain ⟨mutations', heq, hmutates⟩ := applyRest_mutates hrest
  rw [htxs, heq]
  exact (applyTransaction_mutates hcoinbase).append hmutates

end

end Exfer.Proof
