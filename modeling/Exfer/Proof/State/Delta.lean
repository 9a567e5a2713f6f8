import Exfer.Lib.Delta
import Exfer.Proof.State.Invariant

/-!
# Transactions as changes of the map

On the map of a UTXO set, `apply_transaction` is a `Delta`: it removes the entries the inputs spend
and adds those of the outputs. It succeeds exactly when the delta fits (`applyTransaction_ok`,
`applyTransaction_of_free`), and `undo_transaction` with the removed entries takes the map back
(`undoTransaction_delta`).
-/

namespace Exfer.Proof

open Lib Impl

variable [Crypto]

namespace UtxoSet

open Impl.UtxoSet

variable {s s' : UtxoSet} {mutations : List UtxoMutation} {tx : Transaction} {txId : Hash256}
  {op : OutPoint} {height : UInt64} {isCoinbase : Bool} {idx : Nat} {outputs : List TxOutput}

/-! ## Inputs -/

theorem spendInputs_ok (h : s.spendInputs inputs = (s', .ok mutations)) : ∃ removed : List (OutPoint × UtxoEntry),
      removed.map Prod.fst = inputs.map TxInput.outPoint ∧
      mutations = removed.map (fun x => .remove x.1 x.2) ∧
      (removed.map Prod.fst).Nodup ∧
      (∀ op entry, (op, entry) ∈ removed → s.utxos.lookup op = some entry) ∧
      s'.utxos = Map.eraseAll s.utxos (removed.map Prod.fst) := by
  induction inputs generalizing s mutations with
  | nil =>
    cases h
    exact ⟨[], rfl, rfl, List.nodup_nil, by simp, rfl⟩
  | cons input rest ih =>
    have hutxos := remove_utxos s input.outPoint
    have hentry := remove_snd s input.outPoint
    simp only [spendInputs] at h
    split at h
    · cases h
    · rename_i s₁ entry hremove
      rw [hremove] at hutxos hentry
      split at h <;> cases h
      rename_i s₂ mutations' hrest
      obtain ⟨removed, hkeys, hmut, hnodup, hmem, hutxos'⟩ := ih hrest
      have hlater : ∀ op e, (op, e) ∈ removed → op ≠ input.outPoint ∧ s.utxos.lookup op = some e := by
        intro op e hop
        have hlookup := hmem op e hop
        rw [hutxos, Map.lookup_erase_eq] at hlookup
        split at hlookup
        · cases hlookup
        · exact ⟨‹_›, hlookup⟩
      refine ⟨(input.outPoint, entry) :: removed, by rw [List.map_cons, List.map_cons, hkeys],
        by rw [List.map_cons, hmut], ?_, ?_, ?_⟩
      · rw [List.map_cons, List.nodup_cons]
        refine ⟨fun hop => ?_, hnodup⟩
        obtain ⟨⟨op, e⟩, hop, heq⟩ := List.mem_map.mp hop
        exact (hlater op e hop).1 heq
      · intro op e hop
        rcases List.mem_cons.mp hop with heq | hop
        · cases heq
          exact hentry.symm
        · exact (hlater op e hop).2
      · rw [hutxos', hutxos]
        rfl

theorem spendInputs_of_live (hnodup : (inputs.map TxInput.outPoint).Nodup)
    (hlive : ∀ i ∈ inputs, ∃ entry, s.utxos.lookup i.outPoint = some entry) :
    ∃ s' mutations, s.spendInputs inputs = (s', .ok mutations) := by
  induction inputs generalizing s with
  | nil => exact ⟨s, [], rfl⟩
  | cons input rest ih =>
    rw [List.map_cons, List.nodup_cons] at hnodup
    obtain ⟨entry, hentry⟩ := hlive input List.mem_cons_self
    have hutxos := remove_utxos s input.outPoint
    have hremove : s.remove input.outPoint = ((s.remove input.outPoint).1, some entry) := by
      rw [← hentry, ← remove_snd]
    have hrest : ∀ i ∈ rest, ∃ e, (s.remove input.outPoint).1.utxos.lookup i.outPoint = some e := by
      intro i hi
      obtain ⟨e, he⟩ := hlive i (List.mem_cons_of_mem _ hi)
      refine ⟨e, ?_⟩
      have hne : i.outPoint ≠ input.outPoint := by
        intro heq
        exact hnodup.1 (heq ▸ List.mem_map_of_mem hi)
      rw [hutxos, Map.lookup_erase_eq, if_neg hne, he]
    obtain ⟨s', mutations, hspend⟩ := ih hnodup.2 hrest
    refine ⟨s', .remove input.outPoint entry :: mutations, ?_⟩
    simp only [spendInputs]
    rw [hremove]
    simp only [hspend]

/-! ## Outputs -/

/-- The entries of outputs, from index `idx` on. -/
def createdFrom (txId : Hash256) (height : UInt64) (isCoinbase : Bool) (idx : Nat)
    (outputs : List TxOutput) : List (OutPoint × UtxoEntry) :=
  (outputs.zipIdx idx).map fun x => (⟨txId, UInt32.ofNat x.2⟩, ⟨x.1, height, isCoinbase⟩)

/-- The entries a transaction creates. -/
def created (txId : Hash256) (tx : Transaction) (height : UInt64) : List (OutPoint × UtxoEntry) :=
  createdFrom txId height tx.isCoinbase 0 tx.outputs

omit [Crypto] in
theorem createdFrom_cons (txId : Hash256) (height : UInt64) (isCoinbase : Bool) (idx : Nat)
    (output : TxOutput) (rest : List TxOutput) : createdFrom txId height isCoinbase idx (output :: rest) =
      (⟨txId, UInt32.ofNat idx⟩, ⟨output, height, isCoinbase⟩) ::
        createdFrom txId height isCoinbase (idx + 1) rest :=
  rfl

omit [Crypto] in
theorem createdFrom_keys (txId : Hash256) (height : UInt64) (isCoinbase : Bool) (idx : Nat)
    (outputs : List TxOutput) : (createdFrom txId height isCoinbase idx outputs).map Prod.fst =
      (List.range' idx outputs.length).map fun i => ⟨txId, UInt32.ofNat i⟩ := by
  rw [createdFrom, List.map_map, ← List.zipIdx_map_snd idx outputs, List.map_map]
  rfl

theorem mem_outputsOf (h : tx.txId = .ok txId) (height : UInt64) :
    op ∈ outputsOf tx ↔ op ∈ (created txId tx height).map Prod.fst := by
  rw [created, createdFrom_keys, List.mem_map]
  constructor
  · rintro ⟨txId', h', idx, hidx, rfl⟩
    rw [h] at h'
    cases h'
    exact ⟨idx, List.mem_range'_1.mpr ⟨Nat.zero_le _, by omega⟩, rfl⟩
  · rintro ⟨idx, hidx, rfl⟩
    exact ⟨txId, h, idx, by simpa using List.mem_range'_1.mp hidx, rfl⟩

omit [Crypto] in
theorem mem_created (h : (op, entry) ∈ created txId tx height) :
    op.txId = txId ∧ entry.height = height ∧ entry.isCoinbase = tx.isCoinbase ∧
      entry.output ∈ tx.outputs := by
  obtain ⟨⟨o, i⟩, hmem, heq⟩ := List.mem_map.mp h
  cases heq
  exact ⟨rfl, rfl, rfl, List.mem_of_getElem? (List.mem_zipIdx_iff_getElem?.mp hmem)⟩

theorem createOutputs_ok (h : createOutputs txId height isCoinbase s idx outputs = (s', .ok mutations)) :
    mutations = (createdFrom txId height isCoinbase idx outputs).map (fun x => .insert x.1 x.2) ∧
    ((createdFrom txId height isCoinbase idx outputs).map Prod.fst).Nodup ∧
    (∀ op ∈ (createdFrom txId height isCoinbase idx outputs).map Prod.fst,
      s.utxos.lookup op = none) ∧
    s'.utxos = Map.insertAll s.utxos (createdFrom txId height isCoinbase idx outputs) := by
  induction outputs generalizing s idx mutations with
  | nil =>
    cases h
    exact ⟨rfl, List.nodup_nil, by simp [createdFrom], rfl⟩
  | cons output rest ih =>
    simp only [createOutputs] at h
    split at h
    · cases h
    · rename_i s₁ hinsert
      split at h <;> cases h
      rename_i s₂ mutations' hrest
      obtain ⟨e, herr⟩ | ⟨hfree, bytes, _, heq⟩ :=
        insert_spec s ⟨txId, UInt32.ofNat idx⟩ ⟨output, height, isCoinbase⟩
      · rw [herr] at hinsert
        cases hinsert
      · rw [heq] at hinsert
        cases hinsert
        obtain ⟨hmut, hnodup, hfree', hutxos⟩ := ih hrest
        have hlater : ∀ op ∈ (createdFrom txId height isCoinbase (idx + 1) rest).map Prod.fst,
            op ≠ ⟨txId, UInt32.ofNat idx⟩ ∧ s.utxos.lookup op = none := by
          intro op hop
          have hlookup := hfree' op hop
          rw [Map.lookup_insert_eq] at hlookup
          split at hlookup
          · cases hlookup
          · exact ⟨‹_›, hlookup⟩
        rw [createdFrom_cons, List.map_cons, List.map_cons]
        refine ⟨by rw [hmut], ?_, ?_, by rw [hutxos]; rfl⟩
        · exact List.nodup_cons.mpr ⟨fun hop => (hlater _ hop).1 rfl, hnodup⟩
        · intro op hop
          rcases List.mem_cons.mp hop with rfl | hop
          · exact hfree
          · exact (hlater op hop).2

theorem insert_of_free (entry : UtxoEntry) (hfree : s.utxos.lookup op = none)
    (hser : ∃ bytes, entry.output.serialize = .ok bytes) :
    ∃ s', s.insert op entry = (s', .ok ()) ∧ s'.utxos = s.utxos.insert op entry := by
  obtain ⟨bytes, hb⟩ := hser
  obtain ⟨e, herr⟩ | ⟨_, bytes', _, heq⟩ := insert_spec s op entry
  · simp [UtxoSet.insert, contains, hfree, hb] at herr
  · exact ⟨_, heq, rfl⟩

theorem createOutputs_of_free (hnodup : ((createdFrom txId height isCoinbase idx outputs).map Prod.fst).Nodup)
    (hfree : ∀ op ∈ (createdFrom txId height isCoinbase idx outputs).map Prod.fst, s.utxos.lookup op
      = none) (hser : ∀ o ∈ outputs, ∃ bytes, o.serialize = .ok bytes) :
    ∃ s' mutations, createOutputs txId height isCoinbase s idx outputs = (s', .ok mutations) := by
  induction outputs generalizing s idx with
  | nil => exact ⟨s, [], rfl⟩
  | cons output rest ih =>
    have hnodup' := List.nodup_cons.mp hnodup
    obtain ⟨s₁, hinsert, hutxos⟩ := insert_of_free ⟨output, height, isCoinbase⟩
      (hfree _ List.mem_cons_self) (hser output List.mem_cons_self)
    have hrest : ∀ op ∈ (createdFrom txId height isCoinbase (idx + 1) rest).map Prod.fst,
        s₁.utxos.lookup op = none := by
      intro op hop
      have hne : op ≠ ⟨txId, UInt32.ofNat idx⟩ := by
        rintro rfl
        exact hnodup'.1 hop
      rw [hutxos, Map.lookup_insert_eq, if_neg hne]
      exact hfree op (List.mem_cons_of_mem _ hop)
    obtain ⟨s', mutations, hcreate⟩ :=
      ih hnodup'.2 hrest fun o ho => hser o (List.mem_cons_of_mem _ ho)
    exact ⟨s', _, by simp only [createOutputs, hinsert, hcreate]; rfl⟩

/-! ## Application -/

/-- The outpoints a transaction spends. -/
def spends (tx : Transaction) : List OutPoint :=
  if tx.isCoinbase then [] else tx.inputs.map TxInput.outPoint

/-- The change a transaction makes whose inputs have the entries `removed`. -/
def txDelta (txId : Hash256) (tx : Transaction) (height : UInt64)
    (removed : List (OutPoint × UtxoEntry)) : Delta OutPoint UtxoEntry :=
  ⟨removed, created txId tx height⟩

theorem applyTransaction_ok (h : s.applyTransaction tx height = (s', .ok mutations)) :
    ∃ txId removed, tx.txId = .ok txId ∧ removed.map Prod.fst = spends tx ∧
      (txDelta txId tx height removed).Fits s.utxos ∧
      s'.utxos = (txDelta txId tx height removed).apply s.utxos ∧
      mutations = removed.map (fun x => .remove x.1 x.2) ++
        (created txId tx height).map fun x => .insert x.1 x.2 := by
  unfold applyTransaction at h
  split at h
  · cases h
  · rename_i txId htxId
    split at h
    · cases h
    · rename_i s₁ spent hspend
      split at h <;> cases h
      rename_i s₂ inserted hcreate
      obtain ⟨hmut, hnodup, hfree, hutxos⟩ := createOutputs_ok hcreate
      have hspent : ∃ removed : List (OutPoint × UtxoEntry), removed.map Prod.fst = spends tx ∧
          spent = removed.map (fun x => .remove x.1 x.2) ∧ (removed.map Prod.fst).Nodup ∧
          (∀ op entry, (op, entry) ∈ removed → s.utxos.lookup op = some entry) ∧
          s₁.utxos = Map.eraseAll s.utxos (removed.map Prod.fst) := by
        unfold spends
        split at hspend
        · cases hspend
          exact ⟨[], by simp_all, rfl, List.nodup_nil, by simp, rfl⟩
        · rw [if_neg ‹_›]
          exact spendInputs_ok hspend
      obtain ⟨removed, hkeys, hremoved, hrnodup, hmem, hutxos₁⟩ := hspent
      rw [hutxos₁] at hfree hutxos
      exact ⟨txId, removed, htxId, hkeys, ⟨hrnodup, hmem, hnodup, hfree⟩, hutxos,
        by rw [hremoved, hmut]; rfl⟩

omit [Crypto] in
theorem concatSerialized_ok (h : Transaction.concatSerialized f xs = .ok bytes) : ∀ x ∈ xs, ∃ b, f x = .ok b := by
  induction xs generalizing bytes with
  | nil => exact fun _ h => nomatch h
  | cons x xs ih =>
    obtain ⟨b, hb, h⟩ := bind_eq_ok.mp h
    obtain ⟨bs, hbs, _⟩ := bind_eq_ok.mp h
    intro y hy
    rcases List.mem_cons.mp hy with rfl | hy
    · exact ⟨b, hb⟩
    · exact ih hbs y hy

/-- A transaction with an id has at most 65535 inputs and outputs, and its outputs serialize. -/
theorem txId_ok (h : tx.txId = .ok txId) : tx.inputs.length ≤ 65535 ∧ tx.outputs.length ≤ 65535 ∧
      ∀ o ∈ tx.outputs, ∃ bytes, o.serialize = .ok bytes := by
  obtain ⟨bytes, hbytes, _⟩ := bind_eq_ok.mp h
  obtain ⟨header, hheader, hbytes⟩ := bind_eq_ok.mp hbytes
  obtain ⟨body, hbody, _⟩ := bind_eq_ok.mp hbytes
  obtain ⟨outputs, houtputs, _⟩ := bind_eq_ok.mp hbody
  unfold Transaction.serializeHeader at hheader
  split at hheader
  · split at hheader
    · exact ⟨‹_›, ‹_›, concatSerialized_ok houtputs⟩
    · cases hheader
  · cases hheader

theorem created_nodup (h : tx.txId = .ok txId) (height : UInt64) :
    ((created txId tx height).map Prod.fst).Nodup := by
  have hlen := (txId_ok h).2.1
  rw [created, createdFrom_keys]
  refine List.Nodup.map_on ?_ List.nodup_range'
  intro i hi j hj heq
  rw [List.mem_range'_1] at hi hj
  have hij : (UInt32.ofNat i).toNat = (UInt32.ofNat j).toNat :=
    congrArg (fun op : OutPoint => op.outputIndex.toNat) heq
  rw [UInt32.toNat_ofNat', UInt32.toNat_ofNat'] at hij
  omega

/-- A transaction applies where its inputs are live and its outputs free, or spent by itself. -/
theorem applyTransaction_of_free (height : UInt64) (htxId : tx.txId = .ok txId) (hnodup : (spends tx).Nodup)
    (hlive : ∀ op ∈ spends tx, ∃ entry, s.utxos.lookup op = some entry)
    (hfree : ∀ op ∈ (created txId tx height).map Prod.fst, op ∉ spends tx → s.utxos.lookup op =
      none) : ∃ s' mutations, s.applyTransaction tx height = (s', .ok mutations) := by
  have hspend : ∃ s₁ spent,
      (if tx.isCoinbase then (s, .ok []) else s.spendInputs tx.inputs) = (s₁, .ok spent) ∧
        ∀ op ∈ (created txId tx height).map Prod.fst, s₁.utxos.lookup op = none := by
    unfold spends at hnodup hlive hfree
    split
    · rw [if_pos ‹_›] at hfree
      exact ⟨s, [], rfl, fun op hop => hfree op hop List.not_mem_nil⟩
    · rw [if_neg ‹_›] at hnodup hlive hfree
      obtain ⟨s₁, spent, hspend⟩ := spendInputs_of_live hnodup
        fun i hi => hlive _ (List.mem_map_of_mem hi)
      obtain ⟨removed, hkeys, _, _, _, hutxos⟩ := spendInputs_ok hspend
      refine ⟨s₁, spent, hspend, fun op hop => ?_⟩
      rw [hutxos, Map.lookup_eraseAll, hkeys]
      split
      · rfl
      · exact hfree op hop ‹_›
  obtain ⟨s₁, spent, hspend, hfree₁⟩ := hspend
  obtain ⟨s', inserted, hcreate⟩ :=
    createOutputs_of_free (created_nodup htxId height) hfree₁ (txId_ok htxId).2.2
  exact ⟨s', spent ++ inserted, by simp only [applyTransaction, htxId, hspend, hcreate]⟩

/-! ## Undoing -/

theorem removeOutputs_of_live
    (hnodup : ((List.range' idx n).map fun i => (⟨txId, UInt32.ofNat i⟩ : OutPoint)).Nodup)
    (hlive : ∀ op ∈ (List.range' idx n).map fun i => (⟨txId, UInt32.ofNat i⟩ : OutPoint), ∃ entry,
      s.utxos.lookup op = some entry) :
    ∃ s', removeOutputs txId s idx n = (s', .ok ()) ∧ s'.utxos = Map.eraseAll s.utxos
      ((List.range' idx n).map fun i => ⟨txId, UInt32.ofNat i⟩) := by
  induction n generalizing s idx with
  | zero => exact ⟨s, rfl, rfl⟩
  | succ n ih =>
    obtain ⟨hnot, hnodup⟩ := List.nodup_cons.mp hnodup
    obtain ⟨entry, hentry⟩ := hlive _ List.mem_cons_self
    have hutxos := remove_utxos s ⟨txId, UInt32.ofNat idx⟩
    have hremove : s.remove ⟨txId, UInt32.ofNat idx⟩ =
        ((s.remove ⟨txId, UInt32.ofNat idx⟩).1, some entry) := by
      rw [← hentry, ← remove_snd]
    obtain ⟨s', hrest, hutxos'⟩ := ih (s := (s.remove ⟨txId, UInt32.ofNat idx⟩).1) hnodup
      (fun op hop => by
        obtain ⟨e, he⟩ := hlive op (List.mem_cons_of_mem _ hop)
        have hne : op ≠ ⟨txId, UInt32.ofNat idx⟩ := by
          rintro rfl
          exact hnot hop
        exact ⟨e, by rw [hutxos, Map.lookup_erase_eq, if_neg hne, he]⟩)
    refine ⟨s', ?_, by rw [hutxos', hutxos]; rfl⟩
    simp only [removeOutputs]
    rw [hremove]
    exact hrest

theorem restoreInputs_of_free {entries : List (OutPoint × UtxoEntry)}
    (hnodup : (entries.map Prod.fst).Nodup) (hfree : ∀ op ∈ entries.map Prod.fst, s.utxos.lookup op = none)
    (hser : ∀ x ∈ entries, ∃ bytes, x.2.output.serialize = .ok bytes) :
    ∃ s', s.restoreInputs entries = (s', .ok ()) ∧ s'.utxos = Map.insertAll s.utxos entries := by
  induction entries generalizing s with
  | nil => exact ⟨s, rfl, rfl⟩
  | cons x rest ih =>
    obtain ⟨op, entry⟩ := x
    obtain ⟨hnot, hnodup⟩ := List.nodup_cons.mp hnodup
    have hop := hfree op List.mem_cons_self
    obtain ⟨s₁, hinsert, hutxos⟩ := insert_of_free entry hop (hser _ List.mem_cons_self)
    obtain ⟨s', hrest, hutxos'⟩ := ih (s := s₁) hnodup
      (fun op' hop' => by
        have hne : op' ≠ op := by
          rintro rfl
          exact hnot hop'
        rw [hutxos, Map.lookup_insert_eq, if_neg hne]
        exact hfree op' (List.mem_cons_of_mem _ hop'))
      (fun x hx => hser x (List.mem_cons_of_mem _ hx))
    refine ⟨s', ?_, by rw [hutxos', hutxos]; rfl⟩
    simp only [restoreInputs, contains, hop, hinsert, hrest]
    rfl

/-- Undoing a transaction with the entries it removed takes the map back. -/
theorem undoTransaction_delta (htxId : tx.txId = .ok txId)
    (hkeys : removed.map Prod.fst = spends tx) (hfits : (txDelta txId tx height removed).Fits m)
    (hser : ∀ x ∈ removed, ∃ bytes, x.2.output.serialize = .ok bytes)
    (hs : s.utxos = (txDelta txId tx height removed).apply m) :
    ∃ s', s.undoTransaction tx removed = (s', .ok ()) ∧ s'.utxos = m := by
  have hcount : (!tx.isCoinbase && removed.length ≠ tx.inputs.length) = false := by
    have hlen := congrArg List.length hkeys
    rw [List.length_map, spends] at hlen
    split at hlen <;> simp_all
  have hkeys' : (created txId tx height).map Prod.fst =
      (List.range' 0 tx.outputs.length).map fun i => ⟨txId, UInt32.ofNat i⟩ :=
    createdFrom_keys ..
  have hnodup := hfits.added_nodup
  have hlive : ∀ op ∈ (created txId tx height).map Prod.fst,
      ∃ entry, s.utxos.lookup op = some entry := by
    intro op hop
    obtain ⟨⟨op, entry⟩, hmem, rfl⟩ := List.mem_map.mp hop
    exact ⟨entry, by rw [hs, hfits.lookup_added hmem]⟩
  simp only [txDelta] at hnodup
  rw [hkeys'] at hnodup hlive
  obtain ⟨s₁, hremove, hutxos₁⟩ := removeOutputs_of_live hnodup hlive
  rw [← hkeys', hs] at hutxos₁
  have hfree : ∀ op ∈ removed.map Prod.fst, s₁.utxos.lookup op = none := by
    intro op hop
    rw [hutxos₁, Map.lookup_eraseAll]
    split
    · rfl
    · rename_i hnot
      exact (Delta.lookup_apply_of_notMem hnot).trans (if_pos hop)
  obtain ⟨s₂, hrestore, hutxos₂⟩ := restoreInputs_of_free hfits.removed_nodup hfree hser
  refine ⟨s₂, ?_, ?_⟩
  · simp only [undoTransaction, hcount, htxId, hremove]
    exact hrestore
  · rw [hutxos₂, hutxos₁]
    exact Delta.undo_apply hfits

end UtxoSet

end Exfer.Proof
