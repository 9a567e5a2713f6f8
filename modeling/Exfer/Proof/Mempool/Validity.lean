import Exfer.Proof.Block.Rules
import Exfer.Proof.Mempool.Exact
import Exfer.Spec.PoolTasks

/-!
# Validity of entries

`validate_transaction` reads a UTXO set only at the inputs of the transaction
(`validateTransaction_congr`), so what it accepts against a snapshot it accepts against the set the
snapshot was taken of (`valid_of_snapshot`). `revalidate` keeps just the entries that pass
(`revalidate_lookup`), and an admission adds no other transaction than its own (`addTx_lookup`).
-/

namespace Exfer.Proof

open Lib Impl Spec

variable [Crypto]

/-! ## Snapshots -/

theorem snapshot_get (s : UtxoSet) (ops : List OutPoint) (op : OutPoint) :
    (s.snapshotForOutpoints ops).get op = if op ∈ ops then s.get op else none := by
  have hfold : ∀ (f : Map OutPoint UtxoEntry → OutPoint → Map OutPoint UtxoEntry),
      (∀ utxos op, f utxos op = (s.utxos.lookup op).elim utxos (utxos.insert op)) → ∀ utxos,
        (ops.foldl f utxos).lookup op =
          (if op ∈ ops then s.utxos.lookup op else none).or (utxos.lookup op) := by
    intro f hf
    induction ops with
    | nil => simp
    | cons op' ops ih =>
      intro utxos
      rw [List.foldl_cons, ih, hf]
      by_cases hmem : op ∈ ops
      · rw [if_pos hmem, if_pos (List.mem_cons_of_mem _ hmem)]
        cases hop : s.utxos.lookup op with
        | some entry => rfl
        | none =>
          rcases hentry : s.utxos.lookup op' with _ | entry
          · rfl
          · rw [Option.elim_some, Map.lookup_insert_eq, if_neg]
            rintro rfl
            rw [hop] at hentry
            cases hentry
      · by_cases heq : op = op'
        · subst heq
          rw [if_neg hmem, if_pos List.mem_cons_self]
          cases hop : s.utxos.lookup op with
          | some entry => simp
          | none => simp
        · have hnot : op ∉ op' :: ops := by simp [heq, hmem]
          rw [if_neg hmem, if_neg hnot]
          rcases s.utxos.lookup op' with _ | entry
          · rfl
          · rw [Option.elim_some, Map.lookup_insert_eq, if_neg heq]
  refine (hfold _ (fun utxos op => ?_) ∅).trans (by simp [UtxoSet.get])
  rcases s.utxos.lookup op with _ | entry <;> rfl

/-! ## What validation reads -/

variable [Network] {s : UtxoSet} {height : UInt64} {e : MempoolEntry} {m m' : Mempool}
  {txId : Hash256} {txBytes : Nat}

theorem valid_of_snapshot (h : validateTransaction tx snapshot height = .ok r)
    (hsub : ∀ op entry, snapshot.get op = some entry → s.get op = some entry) :
    validateTransaction tx s height = .ok r := by
  rw [← h]
  refine validateTransaction_congr fun op hop => ?_
  obtain ⟨entry, hentry⟩ := Option.isSome_iff_exists.mp ((promised_of_valid h).1 op hop)
  rw [hentry, hsub op entry hentry]

/-! ## Revalidation -/

/-- The cheap first phase removes nothing that validation would accept. -/
theorem shouldRemove_iff :
    Mempool.shouldRemove s height e = true ↔ ∀ r, validateTransaction e.tx s height ≠ .ok r := by
  unfold Mempool.shouldRemove
  split
  · rename_i hinvalid
    refine ⟨fun _ r hvalid => ?_, fun _ => rfl⟩
    obtain ⟨op, hop, hbad⟩ := List.any_eq_true.mp hinvalid
    obtain ⟨input, hinput, rfl⟩ := List.mem_map.mp hop
    obtain ⟨_, -, hvalid⟩ := bind_eq_ok.mp hvalid
    obtain ⟨entries, hentries, -⟩ := bind_eq_ok.mp hvalid
    obtain ⟨entry, -, hlookup⟩ := exists_of_mapM_ok hentries input hinput
    unfold lookupInput at hlookup
    unfold Mempool.utxoInvalid at hbad
    dsimp only at hlookup
    split at hlookup
    · cases hlookup
    · rename_i hget
      rw [hget] at hbad
      rw [if_pos (of_decide_eq_true hbad)] at hlookup
      cases hlookup
  · rw [Option.isNone_iff_eq_none, Option.eq_none_iff_forall_ne_some]
    simp only [ne_eq, toOption_eq_some]

omit [Crypto] [Network] in
theorem removeAll_lookup (m : Mempool) (txIds : List Hash256) (txId : Hash256) :
    (m.removeAll txIds).entries.lookup txId =
      if txId ∈ txIds then none else m.entries.lookup txId := by
  unfold Mempool.removeAll
  induction txIds generalizing m with
  | nil => simp
  | cons txId' txIds ih =>
    rw [List.foldl_cons, ih, remove_entries, Map.lookup_erase_eq]
    by_cases hmem : txId ∈ txIds
    · simp [hmem]
    · by_cases heq : txId = txId' <;> simp [hmem, heq]

omit [Crypto] [Network] in
theorem mem_txIds (h : m.entries.lookup txId = some e) : txId ∈ m.txIds := by
  rw [Mempool.txIds, Finset.mem_sort, Map.mem_keys_iff, h]
  simp

/-- `revalidate` keeps just the entries that pass. -/
theorem revalidate_lookup : (m.revalidate s height).entries.lookup txId = some e ↔
      m.entries.lookup txId = some e ∧ Mempool.shouldRemove s height e = false := by
  have hfold : ∀ (f : Mempool → Hash256 → Mempool), (∀ m txId, f m txId = (m.entries.lookup txId).elim m fun e =>
        if Mempool.shouldRemove s height e then (m.remove txId).1 else m) →
      ∀ (txIds : List Hash256) (m' : Mempool), (txIds.foldl f m').entries.lookup txId = some e ↔
        m'.entries.lookup txId = some e ∧
          (txId ∈ txIds → Mempool.shouldRemove s height e = false) := by
    intro f hf txIds
    induction txIds with
    | nil => simp
    | cons txId' txIds ih =>
      intro m'
      rw [List.foldl_cons, ih, hf]
      rcases he' : m'.entries.lookup txId' with _ | e'
      · rw [Option.elim_none]
        constructor
        · rintro ⟨hlookup, hkeep⟩
          refine ⟨hlookup, fun hmem => hkeep ?_⟩
          refine (List.mem_cons.mp hmem).resolve_left ?_
          rintro rfl
          rw [he'] at hlookup
          cases hlookup
        · rintro ⟨hlookup, hkeep⟩
          exact ⟨hlookup, fun hmem => hkeep (List.mem_cons_of_mem _ hmem)⟩
      · rw [Option.elim_some]
        split
        · rename_i hremove
          rw [remove_entries, lookup_erase_iff]
          constructor
          · rintro ⟨⟨hne, hlookup⟩, hkeep⟩
            refine ⟨hlookup, fun hmem => hkeep ?_⟩
            exact (List.mem_cons.mp hmem).resolve_left hne
          · rintro ⟨hlookup, hkeep⟩
            refine ⟨⟨?_, hlookup⟩, fun hmem => hkeep (List.mem_cons_of_mem _ hmem)⟩
            rintro rfl
            rw [hlookup] at he'
            cases he'
            rw [hkeep List.mem_cons_self] at hremove
            cases hremove
        · rename_i hkeep'
          constructor
          · rintro ⟨hlookup, hkeep⟩
            refine ⟨hlookup, fun hmem => ?_⟩
            rcases List.mem_cons.mp hmem with rfl | hmem
            · rw [hlookup] at he'
              cases he'
              simpa using hkeep'
            · exact hkeep hmem
          · rintro ⟨hlookup, hkeep⟩
            exact ⟨hlookup, fun hmem => hkeep (List.mem_cons_of_mem _ hmem)⟩
  refine (hfold _ (fun m txId => ?_) m.txIds m).trans
    ⟨fun h => ⟨h.1, h.2 (mem_txIds h.1)⟩, fun h => ⟨h.1, fun _ => h.2⟩⟩
  rcases m.entries.lookup txId with _ | e <;> rfl

omit [Network] in
/-- `remove_confirmed` removes just the entries that are confirmed or spend what is spent. -/
theorem removeConfirmed_lookup : (m.removeConfirmed txs).entries.lookup txId = some e ↔
      m.entries.lookup txId = some e ∧ txId ∉ txs.filterMap (fun tx => tx.txId.toOption) ∧
        ∀ op ∈ e.tx.outpoints, op ∉ Mempool.confirmedOutpoints txs := by
  unfold Mempool.removeConfirmed
  generalize hrest : m.removeAll (txs.filterMap fun tx => tx.txId.toOption) = m'
  have hlookup' : m'.entries.lookup txId = if txId ∈ txs.filterMap (fun tx => tx.txId.toOption)
      then none else m.entries.lookup txId := hrest ▸ removeAll_lookup m _ txId
  rw [removeAll_lookup]
  constructor
  · intro h
    split at h
    · cases h
    rename_i hkeep
    rw [hlookup'] at h
    split at h
    · cases h
    · rename_i hnew
      refine ⟨h, hnew, fun op hop hconfirmed => hkeep (List.mem_filter.mpr ⟨?_, ?_⟩)⟩
      · exact mem_txIds (e := e) (by rw [hlookup', if_neg hnew, h])
      · rw [hlookup', if_neg hnew, h]
        exact List.any_eq_true.mpr ⟨op, hop, decide_eq_true hconfirmed⟩
  · rintro ⟨hlookup, hnew, hkeep⟩
    rw [hlookup', if_neg hnew, hlookup, if_neg]
    intro hmem
    obtain ⟨-, hany⟩ := List.mem_filter.mp hmem
    rw [hlookup', if_neg hnew, hlookup] at hany
    obtain ⟨op, hop, hconfirmed⟩ := List.any_eq_true.mp hany
    exact hkeep op hop (of_decide_eq_true hconfirmed)

/-! ## Admission -/

section

omit [Crypto] [Network]

theorem evictLowest_lookup (h : m.evictLowest.entries.lookup txId = some e) : m.entries.lookup txId = some e := by
  unfold Mempool.evictLowest at h
  split at h
  · exact h
  · dsimp only at h
    split at h
    · exact h
    · exact (lookup_erase_iff.mp h).2

theorem evictWhile_lookup (hrun : Mempool.evictWhile txBytes fuel m = some m')
    (h : m'.entries.lookup txId = some e) : m.entries.lookup txId = some e := by
  induction fuel generalizing m with
  | zero => cases hrun
  | succ fuel ih =>
    unfold Mempool.evictWhile at hrun
    split at hrun
    · split at hrun
      · cases hrun
        exact h
      · exact evictLowest_lookup (ih hrun)
    · cases hrun
      exact h

theorem makeRoom_lookup (hrun : m.makeRoom feeDensity txBytes = some (.ok m'))
    (h : m'.entries.lookup txId = some e) : m.entries.lookup txId = some e := by
  unfold Mempool.makeRoom at hrun
  split at hrun
  · split at hrun
    · cases hrun
      exact h
    · split at hrun
      · cases hrun
      · obtain ⟨m₁, hevict, hok⟩ := Option.map_eq_some_iff.mp hrun
        cases hok
        exact evictWhile_lookup hevict h
  · cases hrun
    exact h

theorem insertEntry_entries (m : Mempool) (e : MempoolEntry) (txBytes : Nat) :
    (m.insertEntry e txBytes).entries = m.entries.insert e.txId e := rfl

end

/-- An admission adds its own transaction, and it may evict entries. -/
theorem addTx_lookup (hrun : m.addTx v = some (m', r)) (h : m'.entries.lookup txId = some e) :
    m.entries.lookup txId = some e ∨ e.tx = v.tx := by
  unfold Mempool.addTx Mempool.addValidated at hrun
  split at hrun
  · cases hrun
    exact .inl h
  · unfold Mempool.addChecked at hrun
    split at hrun
    · cases hrun
      exact .inl h
    · rename_i txCost _
      dsimp only at hrun
      generalize (if txCost > 0 then min (v.fee * 1000000) u64Max / txCost else 0) = feeDensity at hrun
      split at hrun
      · cases hrun
      · cases hrun
        exact .inl h
      · rename_i m₁ hroom
        cases hrun
        rw [insertEntry_entries, Map.lookup_insert_eq] at h
        split at h
        · cases h
          exact .inr rfl
        · exact .inl (makeRoom_lookup hroom h)

theorem addTxs_lookup (hrun : m.addTxs vs = some m') (h : m'.entries.lookup txId = some e) :
    m.entries.lookup txId = some e ∨ ∃ v ∈ vs, e.tx = v.tx := by
  induction vs generalizing m with
  | nil =>
    cases hrun
    exact .inl h
  | cons v vs ih =>
    unfold Mempool.addTxs at hrun
    split at hrun
    · cases hrun
    rename_i m₁ r hadd
    rcases ih hrun with hold | ⟨v', hv', heq⟩
    · rcases addTx_lookup hadd hold with hold | heq
      · exact .inl hold
      · exact .inr ⟨v, List.mem_cons_self, heq⟩
    · exact .inr ⟨v', List.mem_cons_of_mem _ hv', heq⟩

end Exfer.Proof
