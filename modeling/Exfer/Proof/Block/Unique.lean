import Exfer.Proof.Block.NextBlock

/-!
# Ids along a chain

`txIds_never_repeat`: in every chain of accepted blocks no id repeats, and so no outpoint is created
or spent twice. A coinbase carries its height, and another transaction with an old id would
spend what is gone.
-/

namespace Exfer.Proof

open Lib Impl Spec UtxoSet

variable [Crypto] {tx : Transaction} {txs : List Transaction} {mutations : List UtxoMutation}

theorem createdBy_eq (h : tx.txId = .ok txId) (height : UInt64) :
    createdBy tx = (created txId tx height).map Prod.fst := by
  rw [createdBy, h, created, createdFrom_keys, List.range_eq_range']

/-- Transactions with different ids create different outpoints. -/
theorem created_nodup_of_distinct (hids : ∀ tx ∈ txs, ∃ txId, tx.txId = .ok txId)
    (hdistinct : txs.Pairwise fun tx tx' => tx.txId ≠ tx'.txId) : (txs.flatMap createdBy).Nodup := by
  refine List.nodup_flatMap.mpr ⟨fun tx htx => ?_, ?_⟩
  · obtain ⟨txId, hid⟩ := hids tx htx
    rw [createdBy_eq hid 0]
    exact created_nodup hid 0
  · refine hdistinct.imp_of_mem fun {tx tx'} htx htx' hne op hop hop' => hne ?_
    obtain ⟨txId, hid⟩ := hids tx htx
    obtain ⟨txId', hid'⟩ := hids tx' htx'
    rw [createdBy, hid] at hop
    rw [createdBy, hid'] at hop'
    obtain ⟨_, _, rfl⟩ := List.mem_map.mp hop
    obtain ⟨_, _, heq⟩ := List.mem_map.mp hop'
    rw [hid, hid', show txId' = txId from congrArg OutPoint.txId heq]

/-- What a block spends is live before it or created by it. -/
theorem BlockEffect.spends_live (h : BlockEffect txs block mutations m₀ m done)
    (htx : tx ∈ block.transactions) (hop : op ∈ spends tx) :
    (∃ entry, m₀.lookup op = some entry) ∨ ∃ tx' ∈ block.transactions, tx'.txId = .ok op.txId := by
  have hmem : tx ∈ done.map Prod.fst := by
    rw [h.order]
    exact List.mem_reverse.mpr htx
  obtain ⟨x, hx, rfl⟩ := List.mem_map.mp hmem
  rw [← h.applied.keys x hx] at hop
  obtain ⟨y, hy, rfl⟩ := List.mem_map.mp hop
  rcases h.applied.entries.2 x hx y hy with hold | ⟨z, hz, hid, _⟩
  · exact .inl ⟨y.2, hold⟩
  · refine .inr ⟨z.1, ?_, hid⟩
    rw [← List.mem_reverse, ← h.order]
    exact List.mem_map_of_mem hz

theorem noRepeats_genesis : NoRepeats [genesisCoinbase] := by
  obtain ⟨bytes, hser, _⟩ := genesisCoinbase_serialize
  have hids : ∀ tx ∈ [genesisCoinbase], ∃ txId, tx.txId = .ok txId := by
    intro tx htx
    rw [List.mem_singleton.mp htx]
    exact txId_of_serialize hser
  have hdistinct : [genesisCoinbase].Pairwise fun tx tx' => tx.txId ≠ tx'.txId :=
    List.pairwise_singleton _ _
  exact ⟨hids, hdistinct, created_nodup_of_distinct hids hdistinct, List.nodup_nil⟩

/-- A block with new ids that spends what is there repeats nothing. -/
theorem noRepeats_append (h : NoRepeats txs) (hfacts : HeaderFacts parent block coinbase rest)
    (hledger : Ledger txs n s) (hfresh : Fresh txs block)
    (heffect : BlockEffect txs block mutations s.utxos m done) : NoRepeats (txs ++ block.transactions) := by
  have hblock : ∀ tx ∈ block.transactions, ∃ txId, tx.txId = .ok txId := by
    rw [hfacts.transactions]
    exact hfacts.ids
  have hids : ∀ tx ∈ txs ++ block.transactions, ∃ txId, tx.txId = .ok txId := by
    intro tx htx
    rcases List.mem_append.mp htx with htx | htx
    · exact h.ids tx htx
    · exact hblock tx htx
  have hdistinct : (txs ++ block.transactions).Pairwise fun tx tx' => tx.txId ≠ tx'.txId := by
    refine List.pairwise_append.mpr ⟨h.distinct, ?_, ?_⟩
    · rw [hfacts.transactions]
      exact hfacts.distinct
    · intro tx htx tx' htx' heq
      obtain ⟨txId, hid⟩ := hblock tx' htx'
      exact hfresh tx' htx' txId hid ⟨tx, htx, heq.trans hid⟩
  refine ⟨hids, hdistinct, created_nodup_of_distinct hids hdistinct, ?_⟩
  rw [List.flatMap_append]
  refine h.spent.append ?_ ?_
  · -- the block's own spends: the coinbase has none
    have hrest : rest.flatMap spends = rest.flatMap fun tx => tx.inputs.map TxInput.outPoint :=
      List.flatMap_congr fun tx htx => by
        rw [spends, if_neg (by simp [hfacts.others tx htx])]
    rw [hfacts.transactions, List.flatMap_cons, spends, if_pos hfacts.first, List.nil_append, hrest]
    exact hfacts.spends
  · -- what the chain has spent is gone, and not created again
    intro op hop hop'
    obtain ⟨tx, htx, hop⟩ := List.mem_flatMap.mp hop
    obtain ⟨tx', htx', hop'⟩ := List.mem_flatMap.mp hop'
    unfold spends at hop
    split at hop
    · cases hop
    rename_i hspend
    obtain ⟨i, hi, rfl⟩ := List.mem_map.mp hop
    obtain ⟨hgone, hprev⟩ := hledger.spent tx htx (by simpa using hspend) i hi
    rcases heffect.spends_live htx' hop' with ⟨entry, hlive⟩ | ⟨t, ht, hid⟩
    · rw [hgone] at hlive
      cases hlive
    · exact hfresh t ht _ hid hprev

variable [Network]

/-- Transaction ids never repeat along a chain, and so every outpoint is created at most once and spent
at most once. -/
theorem txIds_never_repeat {txs : List Transaction} {tip : BlockHeader} {s : UtxoSet}
    (h : Reachable txs tip s) (hhash : HashesDistinct txs) : NoRepeats txs := by
  induction h with
  | genesis hblock hs =>
    rw [(genesisBlock_ok hblock).1]
    exact noRepeats_genesis
  | @extend txs parent s s' block timestamps target clock skipPow r h hheader happly ih =>
    obtain ⟨coinbase, rest, hfacts⟩ := headerFacts_of_ok hheader
    have hold := hashesDistinct_mono hhash fun tx htx => List.mem_append_left block.transactions htx
    have hledger := reachable_ledger h hold
    obtain ⟨-, hfresh, done, heffect⟩ := validateAndApply_ok hfacts hhash hledger happly
    exact noRepeats_append (ih hold) hfacts hledger hfresh heffect

omit [Crypto] [Network] in
/-- The hypotheses are met by the first block and one that pays the reward. -/
theorem txIds_never_repeat_reward : let _ := Crypto.ofHash sampleHash
    let _ := sampleNetwork
    (∃ tip s, Reachable [genesisCoinbase, rewardCoinbase 1] tip s) ∧
      NoRepeats [genesisCoinbase, rewardCoinbase 1] := by
  intro _ _
  obtain ⟨genesis, s, s', mutations, hreach, _, hdistinct, hheader, happly⟩ := exists_rewardChain
  have hnext : Reachable [genesisCoinbase, rewardCoinbase 1]
      (nextBlock genesis (rewardCoinbase 1)).header s' := .extend hreach hheader happly
  exact ⟨⟨_, _, hnext⟩, txIds_never_repeat hnext hdistinct⟩

end Exfer.Proof
