import Exfer.Proof.Mempool.AtRest
import Mathlib.Algebra.Order.BigOperators.Group.Multiset

/-!
# What a clean-up drops

As long as no transaction is added between the two moments at which a clean-up locks the mempool, the
snapshot of the clean-up covers all entries (`Cleans`), and it drops only conflicting and invalid ones
(`cleanUp_drops`). A valid transaction that is added in between is dropped
(`cleanUp_drops_valid`).
-/

namespace Exfer.Proof

open Lib Impl Spec

variable [Crypto] [Network] {L : ChainModel} {s s' : PoolState L} {t : PoolTask}
  {ts next : Multiset PoolTask} {m : Mempool} {txId : Hash256} {e : MempoolEntry} {op : OutPoint}

/-- The task, if it cleans up, works on all entries as they are. -/
def CleansAll (s : PoolState L) : PoolTask → Prop
  | .readHeight outpoints _ => ∀ txId e, s.mempool.entries.lookup txId = some e →
      ∀ op ∈ e.tx.outpoints, op ∈ outpoints
  | .snapshotPool newHeight outpoints _ => newHeight = s.tip.nextHeight ∧
      ∀ txId e, s.mempool.entries.lookup txId = some e → ∀ op ∈ e.tx.outpoints, op ∈ outpoints
  | .revalidate newHeight snapshot _ => newHeight = s.tip.nextHeight ∧
      ∀ txId e, s.mempool.entries.lookup txId = some e →
        ∀ op ∈ e.tx.outpoints, snapshot.get op = s.utxoSet.get op
  | _ => True

/-- How many of the tasks process a block. -/
def blockTasks (tasks : Multiset PoolTask) : Nat :=
  (tasks.map fun t => (blockTask t).toNat).sum

@[simp] theorem blockTasks_zero : blockTasks 0 = 0 := rfl

@[simp] theorem blockTasks_cons : blockTasks (t ::ₘ ts) = (blockTask t).toNat + blockTasks ts := by
  simp [blockTasks]

@[simp] theorem blockTasks_singleton : blockTasks {t} = (blockTask t).toNat := by
  simp [blockTasks]

theorem blockTasks_add : blockTasks (next + ts) = blockTasks next + blockTasks ts := by
  simp [blockTasks]

theorem not_block_of_blockTasks (h : blockTasks ts = 0) (ht : t ∈ ts) : blockTask t = false := by
  have hle : (blockTask t).toNat ≤ blockTasks ts :=
    Multiset.le_sum_of_mem (Multiset.mem_map_of_mem (fun t => (blockTask t).toNat) ht)
  cases hblock : blockTask t with
  | false => rfl
  | true =>
    rw [hblock, h] at hle
    exact absurd hle (by decide)

/-- One block is processed at a time, and its clean-up works on all entries as they are. -/
structure Cleans (s : PoolState L) (tasks : Multiset PoolTask) : Prop where
  oneBlock : blockTasks tasks ≤ 1
  cleansAll : ∀ t ∈ tasks, CleansAll s t

theorem cleansAll_of_not_cleaning (h : cleaning t = false) : CleansAll s t := by
  cases t with
  | readHeight outpoints orphaned => cases h
  | snapshotPool newHeight outpoints orphaned => cases h
  | revalidate newHeight snapshot orphaned => cases h
  | _ => trivial

theorem not_cleaning_of_not_block (h : blockTask t = false) : cleaning t = false := by
  cases t <;> first | rfl | cases h

/-- A task that processes a block goes on. -/
theorem Cleans.replace (h : Cleans s (t ::ₘ ts)) (hblock : blockTask t = true)
    (hnext : blockTasks next ≤ 1) (hclean : ∀ t' ∈ next, CleansAll s' t') : Cleans s' (next + ts) := by
  have hothers : blockTasks ts = 0 := by
    have hone := h.oneBlock
    rw [blockTasks_cons, hblock, Bool.toNat_true] at hone
    omega
  refine ⟨?_, fun t' ht' => ?_⟩
  · rw [blockTasks_add, hothers]
    exact hnext
  · rcases Multiset.mem_add.mp ht' with ht' | ht'
    · exact hclean t' ht'
    · exact cleansAll_of_not_cleaning
        (not_cleaning_of_not_block (not_block_of_blockTasks hothers ht'))

/-- A task that relays a transaction goes on, and leaves the mempool. -/
theorem Cleans.relay {next : Option PoolTask} (h : Cleans s (t ::ₘ ts)) (hblock : blockTask t = false)
    (hnext : ∀ t' ∈ next, blockTask t' = false) : Cleans s ((next.elim 0 fun t => {t}) + ts) := by
  have hone : blockTasks ts ≤ 1 := by
    have hone := h.oneBlock
    rw [blockTasks_cons, hblock, Bool.toNat_false] at hone
    omega
  cases next with
  | none =>
    refine ⟨by simpa using hone, fun t' ht' => ?_⟩
    exact h.cleansAll t' (Multiset.mem_cons_of_mem (by simpa using ht'))
  | some t' =>
    have hnew : blockTask t' = false := hnext t' rfl
    refine ⟨?_, fun t'' ht'' => ?_⟩
    · simpa [blockTasks_add, hnew] using hone
    · rcases Multiset.mem_add.mp ht'' with ht'' | ht''
      · rw [Multiset.mem_singleton.mp ht'']
        exact cleansAll_of_not_cleaning (not_cleaning_of_not_block hnew)
      · exact h.cleansAll t'' (Multiset.mem_cons_of_mem ht'')

omit [Crypto] [Network] in
theorem mem_referencedOutpoints (h : m.entries.lookup txId = some e) (hop : op ∈ e.tx.outpoints) :
    op ∈ m.referencedOutpoints := by
  refine List.mem_flatMap.mpr ⟨txId, mem_txIds h, ?_⟩
  rw [h]
  exact hop

theorem Cleans.step (h : Cleans s (t ::ₘ ts)) (hstep : PoolSteps s t s' next)
    (hapart : AddsApart ts t) : Cleans s' (next + ts) := by
  have hsingle (t : PoolTask) : blockTasks {t} ≤ 1 := by
    rw [blockTasks_singleton]
    exact Bool.toNat_le _
  cases hstep with
  | commit hcommit =>
    refine h.replace rfl (hsingle _) fun t' ht' => ?_
    rw [Multiset.mem_singleton.mp ht']
    trivial
  | leave hutxos htip =>
    exact h.replace rfl (by simp) fun t' ht' => absurd ht' (Multiset.notMem_zero t')
  | @pool _ m next hpool =>
    have hcleans := h.cleansAll t (Multiset.mem_cons_self t ts)
    cases t with
    | preCheck tx =>
      rw [PoolTask.step] at hpool
      split at hpool
      · cases hpool
        exact h.relay rfl (by simp)
      · cases hpool
        exact h.relay rfl (by simp [blockTask])
    | snapshotTx tx =>
      cases hpool
      refine h.relay rfl fun t' ht' => ?_
      obtain ⟨v, -, rfl⟩ := Option.map_eq_some_iff.mp ht'
      rfl
    | readTip v tipSnapshot =>
      cases hpool
      exact h.relay rfl (by simp [blockTask])
    | addTx v tipSnapshot currentTip =>
      -- no clean-up is under way, so nothing is said about the entries
      have hnone : next = none := by
        rw [PoolTask.step] at hpool
        split at hpool
        · cases hpool
          rfl
        · obtain ⟨r, -, heq⟩ := Option.map_eq_some_iff.mp hpool
          cases heq
          rfl
      subst hnone
      refine ⟨by simpa [blockTask] using h.oneBlock, fun t' ht' => ?_⟩
      exact cleansAll_of_not_cleaning (hapart t' (by simpa using ht'))
    | processBlock => cases hpool
    | removeConfirmed confirmed orphaned =>
      cases hpool
      refine h.replace rfl (hsingle _) fun t' ht' => ?_
      rw [Multiset.mem_singleton.mp ht']
      exact fun txId e hlookup op hop => mem_referencedOutpoints hlookup hop
    | readHeight outpoints orphaned =>
      cases hpool
      refine h.replace rfl (hsingle _) fun t' ht' => ?_
      rw [Multiset.mem_singleton.mp ht']
      exact ⟨rfl, hcleans⟩
    | snapshotPool newHeight outpoints orphaned =>
      cases hpool
      refine h.replace rfl (hsingle _) fun t' ht' => ?_
      rw [Multiset.mem_singleton.mp ht']
      refine ⟨hcleans.1, fun txId e hlookup op hop => ?_⟩
      rw [snapshot_get, if_pos (hcleans.2 txId e hlookup op hop)]
    | revalidate | snapshotOrphans =>
      cases hpool
      refine h.replace rfl ?_ fun t' ht' => ?_
      · split
        · simp
        · exact hsingle _
      · split at ht'
        · exact absurd ht' (Multiset.notMem_zero t')
        · rw [Multiset.mem_singleton.mp ht']
          trivial
    | reintroduce orphans =>
      obtain ⟨m', -, heq⟩ := Option.map_eq_some_iff.mp hpool
      cases heq
      exact h.replace rfl (by simp) fun t' ht' => absurd ht' (Multiset.notMem_zero t')

/-- An entry with an input that the snapshot lacks is dropped. -/
theorem revalidate_lookup_of_missing (hentry : m.entries.lookup txId = some e)
    (hop : op ∈ e.tx.outpoints) (hmissing : snapshot.get op = none) :
    (m.revalidate snapshot height).entries.lookup txId = none := by
  refine Option.eq_none_iff_forall_ne_some.mpr fun e' h => ?_
  obtain ⟨hin, hkeep⟩ := revalidate_lookup.mp h
  obtain rfl := Option.some.inj (hin.symm.trans hentry)
  have hremove : Mempool.shouldRemove snapshot height e' = true := by
    refine shouldRemove_iff.mpr fun r hvalid => ?_
    have hin := (promised_of_valid hvalid).1 op hop
    rw [hmissing] at hin
    cases hin
  rw [hremove] at hkeep
  cases hkeep

/-! ## A block that pays the reward -/

omit [Crypto] [Network] in
/-- A node that has just started accepts a block with a coinbase only, which leaves the output of the
first block. -/
theorem rewardCoinbase_commits : let _ := Crypto.ofHash sampleHash
    let _ := testNetwork
    ∃ genesis start node', Started genesis start ∧
      nodeChain.commits start node' [rewardCoinbase 1] [] ∧
      node'.utxoSet.get genesisOutpoint = some genesisEntry ∧ node'.tip.nextHeight = 2 := by
  intro _ _
  obtain ⟨genesis, start, hstart, hassume, hcache⟩ := exists_started
  obtain ⟨-, hheight⟩ := genesisBlock_ok hstart.block
  have hlive := started_live hstart
  have hdigests : digestsApart [genesisCoinbase, rewardCoinbase 1] = true := by decide
  have hid : (rewardCoinbase 1).txId = .ok (digestOf (rewardCoinbase 1)) :=
    txId_eq_digestOf (by decide)
  have hfree := started_free hstart (hashesDistinct_of_digestsApart hdigests) List.mem_cons_self
    (by decide)
  have hblock : (childBlock genesis.header [rewardCoinbase 1] 0 Hash256.zero).header.height = 1 := by
    show genesis.header.height + 1 = 1
    rw [hheight]
    rfl
  obtain ⟨u, mutations, happly⟩ : ∃ u mutations,
      applyBlock (childBlock genesis.header [rewardCoinbase 1] 0 Hash256.zero).header (rewardCoinbase 1)
        [] start.utxoSet = (u, .ok (0, mutations)) :=
    coinbaseBlock_accepted hid hfree (by rw [hblock]; exact rewardCoinbase_valid (by decide))
  obtain ⟨node', hcommits, rfl, hnext⟩ := sample_commits hstart hassume hcache (by decide)
    hdigests (childBlock_applies happly)
  refine ⟨genesis, start, node', hstart, hcommits, ?_, hnext⟩
  rw [← hlive]
  refine ((validateAndApply_mutates (childBlock_applies happly Hash256.zero)).lookup _ ?_).trans
    (if_neg ?_)
  · rintro ⟨tx, htx, hop⟩
    rw [List.mem_singleton.mp htx] at hop
    rw [UtxoSet.get, hfree _ hop] at hlive
    cases hlive
  · show genesisOutpoint ∉ [rewardCoinbase 1].flatMap UtxoSet.spends
    exact List.not_mem_nil

/-- In every interleaving with one block at a time in which no transaction is added between the two
moments at which a clean-up locks the mempool, the clean-up drops only entries that conflict with
what the block confirms, or that are not valid against the new UTXO set at the new height. -/
theorem cleanUp_drops (L : ChainModel) (start s s' : PoolState L) (t : PoolTask) (ts next : Multiset PoolTask)
    (h : (poolTasks L).ReachesWhere OneBlock (fun _ ts t => AddsApart ts t) start s (t ::ₘ ts))
    (hstep : PoolSteps s t s' next) (txId : Hash256) (e : MempoolEntry)
    (hin : s.mempool.entries.lookup txId = some e) (hout : s'.mempool.entries.lookup txId = none) :
    (∀ confirmed orphaned, t = .removeConfirmed confirmed orphaned →
      Conflicts confirmed txId e.tx) ∧ (∀ newHeight snapshot orphaned, t = .revalidate newHeight snapshot orphaned →
      ¬ s.Valid e.tx) := by
  have hcleans : Cleans s (t ::ₘ ts) := by
    refine h.invariant ⟨by simp, fun t ht => absurd ht (Multiset.notMem_zero t)⟩ ?_ ?_
    · intro m m' t ts hinv hstart hone
      cases hstart with
      | newTx tx =>
        refine ⟨?_, Multiset.forall_mem_cons.mpr ⟨trivial, hinv.cleansAll⟩⟩
        rw [blockTasks_cons, blockTask, Bool.toNat_false, Nat.zero_add]
        exact hinv.oneBlock
      | newBlock =>
        refine ⟨?_, Multiset.forall_mem_cons.mpr ⟨trivial, hinv.cleansAll⟩⟩
        have hzero : blockTasks ts = 0 := by
          refine Multiset.sum_eq_zero fun n hn => ?_
          obtain ⟨t, ht, rfl⟩ := Multiset.mem_map.mp hn
          rw [hone rfl t ht]
          rfl
        rw [blockTasks_cons, hzero, Nat.add_zero]
        exact Bool.toNat_le _
    · exact fun _ _ _ _ _ hinv hstep hapart => hinv.step hstep hapart
  constructor
  · rintro confirmed orphaned rfl
    cases hstep with
    | pool hpool =>
      cases hpool
      by_contra hnot
      have hkeep : (s.mempool.removeConfirmed confirmed).entries.lookup txId = some e := by
        refine removeConfirmed_lookup.mpr ⟨hin, fun hmem => ?_, fun op hop hspent => ?_⟩
        · obtain ⟨tx, htx, hid⟩ := List.mem_filterMap.mp hmem
          exact hnot ⟨tx, htx, .inl (toOption_eq_some.mp hid)⟩
        · obtain ⟨tx, htx, hop'⟩ := List.mem_flatMap.mp hspent
          obtain ⟨htx, hcoinbase⟩ := List.mem_filter.mp htx
          exact hnot ⟨tx, htx, .inr ⟨by simpa using hcoinbase, op, hop, hop'⟩⟩
      exact absurd (hkeep.symm.trans hout) (by simp)
  · rintro newHeight snapshot orphaned rfl ⟨r, hvalid⟩
    obtain ⟨rfl, hagree⟩ := hcleans.cleansAll _ (Multiset.mem_cons_self _ ts)
    cases hstep with
    | pool hpool =>
      cases hpool
      have hkeep : Mempool.shouldRemove snapshot s.tip.nextHeight e = false := by
        rw [← Bool.not_eq_true, shouldRemove_iff]
        intro hbad
        refine hbad r ?_
        rw [← hvalid]
        exact validateTransaction_congr (hagree txId e hin)
      exact absurd ((revalidate_lookup.mpr ⟨hin, hkeep⟩).symm.trans hout) (by simp)

omit [Crypto] [Network] in
/-- A transaction is added, and the clean-up after the block that confirms it drops it. -/
theorem cleanUp_drops_confirmed : let _ := Crypto.ofHash sampleHash
    let _ := testNetwork
    ∃ (start : Node) (s : PoolState nodeChain) (e : MempoolEntry),
      (poolTasks nodeChain).ReachesWhere OneBlock (fun _ ts t => AddsApart ts t) ⟨start, .new⟩ s
        {.removeConfirmed [feeCoinbase, spendTx] []} ∧
      s.mempool.entries.lookup (digestOf spendTx) = some e ∧
      Conflicts [feeCoinbase, spendTx] (digestOf spendTx) e.tx := by
  intro _ _
  obtain ⟨genesis, start, node', hstart, hheight, hlive, hcommits, -⟩ := spendTx_commits
  have hinit : (poolTasks nodeChain).ReachesWhere OneBlock (fun _ ts t => AddsApart ts t)
      ⟨start, .new⟩ ⟨start, .new⟩ 0 := .start
  obtain ⟨v, m, e, -, -, hreach, hadd, hentry, -⟩ := spendTx_relay hinit (fun h => nomatch h)
    (fun _ => ⟨trivial, trivial, fun _ _ => trivial⟩) hlive (.inl hheight)
  have hrest := addTx_reaches hreach hadd fun t ht => absurd ht (Multiset.notMem_zero t)
  have hblock := hrest.spawn (T := poolTasks nodeChain) (PoolStarts.newBlock _) fun _ t ht =>
    absurd ht (Multiset.notMem_zero t)
  have hcommitted := hblock.step (T := poolTasks nodeChain) (PoolSteps.commit hcommits) trivial
  have hstep : PoolSteps (L := nodeChain) ⟨node', m⟩ (.removeConfirmed [feeCoinbase, spendTx] []) _ _ :=
    PoolSteps.pool rfl
  have hout : (m.removeConfirmed [feeCoinbase, spendTx]).entries.lookup (digestOf spendTx) = none := by
    refine Option.eq_none_iff_forall_ne_some.mpr fun e' h => ?_
    refine (removeConfirmed_lookup.mp h).2.1 (List.mem_filterMap.mpr ⟨spendTx, ?_, ?_⟩)
    · exact List.mem_cons_of_mem _ (List.mem_singleton_self _)
    · rw [spendTx_id.1]
      rfl
  obtain ⟨hconflicts, -⟩ := cleanUp_drops nodeChain _ _ _ _ 0 _ hcommitted hstep _ e hentry hout
  exact ⟨start, _, e, hcommitted, hentry, hconflicts _ _ rfl⟩

omit [Crypto] [Network] in
/-- A transaction is added after the clean-up has listed the outpoints of the mempool: the clean-up
drops it, though it is valid at the new tip and has nothing to do with the block. -/
theorem cleanUp_drops_valid : let _ := Crypto.ofHash sampleHash
    let _ := testNetwork
    ∃ (genesis : Block) (start node' : Node) (s s' : PoolState nodeChain) (newHeight : UInt64)
      (snapshot : UtxoSet) (next : Multiset PoolTask) (e : MempoolEntry),
      Started genesis start ∧ nodeChain.commits start node' [rewardCoinbase 1] [] ∧
      s.chain = node' ∧
      (poolTasks nodeChain).ReachesWhere OneBlock (fun _ _ _ => True) ⟨start, .new⟩ s
        {.revalidate newHeight snapshot []} ∧
      PoolSteps s (.revalidate newHeight snapshot []) s' next ∧
      s.mempool.entries.lookup (digestOf spendTx) = some e ∧
      s'.mempool.entries.lookup (digestOf spendTx) = none ∧
      ¬ Conflicts [rewardCoinbase 1] (digestOf spendTx) e.tx ∧ s.Valid e.tx := by
  intro _ _
  obtain ⟨genesis, start, node', hstart, hcommits, hlive, hheight⟩ := rewardCoinbase_commits
  have hinit : (poolTasks nodeChain).ReachesWhere OneBlock (fun _ _ _ => True)
      ⟨start, .new⟩ ⟨start, .new⟩ 0 := .start
  have hblock := hinit.spawn (T := poolTasks nodeChain) (PoolStarts.newBlock _) fun _ t ht =>
    absurd ht (Multiset.notMem_zero t)
  have hcommitted := hblock.step (T := poolTasks nodeChain) (PoolSteps.commit hcommits) trivial
  rw [Multiset.singleton_add] at hcommitted
  have hlist : (PoolTask.removeConfirmed [rewardCoinbase 1] []).step node'.utxoSet node'.tip .new =
      some (.new, some (.readHeight Mempool.new.referencedOutpoints [])) := by
    rw [PoolTask.step, removeConfirmed_new]
  have hlisted := reaches_next hcommitted hlist trivial
  -- the transaction is relayed now
  obtain ⟨v, m, e, -, -, hreach, hadd, hentry, htx⟩ := spendTx_relay hlisted
    (fun h => by cases h) (fun _ => ⟨trivial, trivial, fun _ _ => trivial⟩) hlive (.inr hheight)
  have hadded := addTx_reaches hreach hadd trivial
  have hsnapshot := reaches_next (reaches_next hadded rfl trivial) rfl trivial
  refine ⟨genesis, start, node', _, _, _, _, _, e, hstart, hcommits, rfl, hsnapshot,
    PoolSteps.pool rfl, hentry, ?_, ?_, ?_⟩
  · -- the output it spends is not among those listed
    have hop : genesisOutpoint ∈ e.tx.outpoints := by
      rw [htx]
      exact List.mem_singleton_self _
    refine revalidate_lookup_of_missing hentry hop ?_
    rw [snapshot_get, if_neg]
    rw [Mempool.referencedOutpoints, txIds_new]
    exact List.not_mem_nil
  · rintro ⟨tx', htx', hid | ⟨hnormal, -⟩⟩
    · rw [List.mem_singleton.mp htx'] at hid
      exact absurd (digestOf_eq hid) (by decide)
    · rw [List.mem_singleton.mp htx'] at hnormal
      cases hnormal
  · rw [htx]
    refine ⟨(5000000000, 5016, 0), ?_⟩
    show validateTransaction spendTx node'.utxoSet node'.tip.nextHeight = _
    rw [hheight]
    exact (spendTx_valid _ hlive).2

end Exfer.Proof
