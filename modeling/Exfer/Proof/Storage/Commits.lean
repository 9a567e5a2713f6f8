import Exfer.Spec.Database

/-!
# Calls of the database

What a write transaction that goes through has checked and leaves in the tables, for each of
`commit_genesis_atomic`, `commit_block_atomic`, `commit_reorg_atomic` and `store_fork_block_atomic`,
and what `get_block` gives. The heights of a chain of blocks are those below its length.
-/

namespace Exfer.Proof

open Lib Impl Impl.Storage Spec

theorem answer_eq_ok : answer error fault value = .ok a ↔ fault = none ∧ value = a := by
  cases fault <;> simp [answer]

theorem orSerialization_eq_ok : orSerialization x = .ok a ↔ x = .ok a := by
  cases x <;> simp [orSerialization]

variable [Crypto] {s s' : Storage} {fault : Option String} {block : Block} {cumulativeWork : Work}
  {chain : List Block}

theorem getBlock_eq_ok {id : Hash256} : s.getBlock fault id = .ok (some block) ↔
      fault = none ∧ s.blocks.lookup id = some block ∧ block.header.blockId = id := by
  unfold Storage.getBlock
  rw [bind_eq_ok]
  constructor
  · rintro ⟨row, hrow, h⟩
    obtain ⟨hfault, rfl⟩ := answer_eq_ok.mp hrow
    split at h
    · cases h
    rename_i stored hstored
    split at h
    · cases h
    rename_i hid
    cases h
    exact ⟨hfault, hstored, not_not.mp hid⟩
  · rintro ⟨hfault, hlookup, hid⟩
    refine ⟨some block, answer_eq_ok.mpr ⟨hfault, hlookup⟩, ?_⟩
    dsimp only
    rw [if_neg (not_not.mpr hid)]
    rfl

theorem storeForkBlockAtomic_ok (h : s.storeForkBlockAtomic fault block cumulativeWork = .ok s') :
    (∃ bytes, block.serialize = .ok bytes) ∧ s' = { s with
      blocks := s.blocks.insert block.header.blockId block
      headers := s.headers.insert block.header.blockId block.header
      work := s.work.insert block.header.blockId cumulativeWork
      forkBlocks := s.forkBlocks.insert block.header.blockId cumulativeWork } := by
  obtain ⟨bytes, hbytes, h⟩ := bind_eq_ok.mp h
  exact ⟨⟨bytes, orSerialization_eq_ok.mp hbytes⟩, (answer_eq_ok.mp h).2.symm⟩

theorem commitGenesisAtomic_ok (h : s.commitGenesisAtomic fault block cumulativeWork utxoMutations = .ok s') :
    ∃ utxos spentBy, applyUtxoMutations s.utxos utxoMutations = .ok utxos ∧
      applySpentByForBlock s.spentBy block = .ok spentBy ∧ s' = { s with
        blocks := s.blocks.insert block.header.blockId block
        headers := s.headers.insert block.header.blockId block.header
        heightIndex := s.heightIndex.insert block.header.height block.header.blockId
        work := s.work.insert block.header.blockId cumulativeWork
        tip := some block.header.blockId
        snapshotComplete := true
        snapshotTip := some block.header.blockId
        walkVerifiedTip := some block.header.blockId
        txIndex := indexTxs s.txIndex block
        utxos, spentBy } := by
  obtain ⟨bytes, hbytes, h⟩ := bind_eq_ok.mp h
  obtain ⟨utxos, hutxos, h⟩ := bind_eq_ok.mp h
  obtain ⟨spentBy, hspentBy, h⟩ := bind_eq_ok.mp h
  exact ⟨utxos, spentBy, hutxos, hspentBy, (answer_eq_ok.mp h).2.symm⟩

theorem commitBlockAtomic_ok {spentUtxos : List (OutPoint × UtxoEntry)}
    (h : s.commitBlockAtomic fault block cumulativeWork spentUtxos utxoMutations = .ok s') :
    ∃ spentData utxos spentBy, serializeSpentUtxos spentUtxos = .ok spentData ∧
      applyUtxoMutations s.utxos utxoMutations = .ok utxos ∧
      applySpentByForBlock s.spentBy block = .ok spentBy ∧ s' = advanceMarkers { s with
        blocks := s.blocks.insert block.header.blockId block
        headers := s.headers.insert block.header.blockId block.header
        work := s.work.insert block.header.blockId cumulativeWork
        spentUtxos := s.spentUtxos.insert block.header.blockId spentData
        heightIndex := s.heightIndex.insert block.header.height block.header.blockId
        tip := some block.header.blockId
        forkBlocks := s.forkBlocks.erase block.header.blockId
        txIndex := indexTxs s.txIndex block
        utxos, spentBy } block.header.blockId := by
  obtain ⟨bytes, hbytes, h⟩ := bind_eq_ok.mp h
  obtain ⟨spentData, hspent, h⟩ := bind_eq_ok.mp h
  obtain ⟨utxos, hutxos, h⟩ := bind_eq_ok.mp h
  obtain ⟨spentBy, hspentBy, h⟩ := bind_eq_ok.mp h
  exact ⟨spentData, utxos, spentBy, orSerialization_eq_ok.mp hspent, hutxos, hspentBy, (answer_eq_ok.mp h).2.symm⟩

theorem commitReorgAtomic_ok {triggerBlock : Block} {oldChainBlocks : List Block}
    {newChainSpent : List (Hash256 × List (OutPoint × UtxoEntry))}
    {newChainMutations : List (Hash256 × List UtxoMutation)}
    {newChainHeights : List (UInt64 × Hash256)} {newChainBlocks : List Block}
    {newChainWork : List (Hash256 × Work)} {staleHeights : Option (UInt64 × UInt64)} {newTipId : Hash256}
    (h : s.commitReorgAtomic fault triggerBlock cumulativeWork oldChainBlocks newChainSpent
      newChainMutations newChainHeights newChainBlocks newChainWork staleHeights newTipId = .ok s')
      : let triggerId := triggerBlock.header.blockId
    let stored := triggerBlock :: newChainBlocks
    let blocks := stored.foldl (fun m block => m.insert block.header.blockId block) s.blocks
    ∃ spentUtxos undone utxos spentBy,
      insertSpentRows s.spentUtxos newChainSpent = .ok spentUtxos ∧
      oldChainBlocks.foldlM (undoOrphan spentUtxos) s.utxos = .ok undone ∧
      newChainMutations.foldlM (fun utxos m => applyUtxoMutations utxos m.2) undone = .ok utxos ∧
      stored.foldlM applySpentByForBlock (oldChainBlocks.foldl revertSpentByForBlock s.spentBy) =
        .ok spentBy ∧
      s' = advanceMarkers { s with
        blocks
        headers := stored.foldl (fun m block => m.insert block.header.blockId block.header) s.headers
        work := ((triggerId, cumulativeWork) :: newChainWork).foldl (fun m x => m.insert x.1 x.2)
          s.work
        spentUtxos
        heightIndex := (heightRange staleHeights).foldl (fun m height => m.erase height)
          (newChainHeights.foldl (fun m x => m.insert x.1 x.2) s.heightIndex)
        tip := some newTipId
        forkBlocks := (newChainHeights.map Prod.snd ++ [triggerId]).foldl (fun m id => m.erase id)
          s.forkBlocks
        txIndex := stored.foldl indexTxs ({ s with blocks }.unindexHeights
          (heightRange staleHeights ++ newChainHeights.map Prod.fst))
        utxos, spentBy } newTipId := by
  obtain ⟨bytes, hbytes, h⟩ := bind_eq_ok.mp h
  obtain ⟨spentUtxos, hspent, h⟩ := bind_eq_ok.mp h
  obtain ⟨undone, hundone, h⟩ := bind_eq_ok.mp h
  obtain ⟨utxos, hutxos, h⟩ := bind_eq_ok.mp h
  obtain ⟨spentBy, hspentBy, h⟩ := bind_eq_ok.mp h
  exact ⟨spentUtxos, undone, utxos, spentBy, hspent, hundone, hutxos, hspentBy, (answer_eq_ok.mp h).2.symm⟩

/-! ## Chains -/

theorem chained_of_suffix (h : Chained chain) (hsuffix : below <:+ chain) : Chained below := by
  induction h with
  | nil =>
    rw [List.suffix_nil.mp hsuffix]
    exact .nil
  | cons h hheight hprev ih =>
    rcases List.suffix_cons_iff.mp hsuffix with rfl | hsuffix
    · exact .cons h hheight hprev
    · exact ih hsuffix

theorem height_lt_length (h : Chained chain) : ∀ block ∈ chain, block.header.height.toNat < chain.length := by
  induction h with
  | nil => exact fun _ h => nomatch h
  | @cons top chain h hheight hprev ih =>
    refine List.forall_mem_cons.mpr ⟨?_, fun block hblock => ?_⟩
    · rw [hheight, List.length_cons]
      exact Nat.lt_succ_self _
    · rw [List.length_cons]
      exact Nat.lt_succ_of_lt (ih block hblock)

theorem heights_nodup (h : Chained chain) : (chain.map fun block => block.header.height).Nodup := by
  induction h with
  | nil => exact List.nodup_nil
  | @cons top chain h hheight hprev ih =>
    refine List.nodup_cons.mpr ⟨fun hmem => ?_, ih⟩
    obtain ⟨block, hblock, heq⟩ := List.mem_map.mp hmem
    have hlt := height_lt_length h block hblock
    rw [heq, hheight] at hlt
    exact Nat.lt_irrefl _ hlt

end Exfer.Proof
