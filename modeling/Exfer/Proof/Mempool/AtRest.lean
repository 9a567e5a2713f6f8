import Exfer.Proof.Mempool.Validity
import Exfer.Proof.Node.FirstBlocks

/-!
# The mempool at rest

After each step, all entries are valid or a clean-up is on its way that will leave only valid ones
(`FreshPool`), as long as transactions are added only while what they were validated against is
current; so at rest all entries are valid (`entries_valid_at_rest`). A block that is processed between
the last look at the tip and the admission leaves an entry that is not valid
(`entry_invalid_at_rest`).
-/

namespace Exfer.Proof

open Lib Impl Spec

variable [Crypto] [Network] {L : ChainModel} {s s' : PoolState L} {t : PoolTask}
  {ts next : Multiset PoolTask} {tx : Transaction} {v : ValidatedTx} {m : Mempool} {cost : Nat}

/-- The entries pass validation. -/
def AllValid (s : PoolState L) : Prop :=
  ∀ txId e, s.mempool.entries.lookup txId = some e → s.Valid e.tx

theorem valid_congr (hutxos : s'.utxoSet.utxos = s.utxoSet.utxos) (htip : s'.tip = s.tip)
    (h : s.Valid tx) : s'.Valid tx := by
  obtain ⟨r, hr⟩ := h
  refine ⟨r, ?_⟩
  rw [htip, ← hr]
  refine validateTransaction_congr fun op _ => ?_
  rw [UtxoSet.get, hutxos]
  rfl

theorem valid_of_current (h : Current s v) : s.Valid v.tx := by
  refine ⟨(v.fee, v.scriptCost, v.scriptValidationCost), ?_⟩
  rw [← v.valid, ← h.1]
  exact validateTransaction_congr fun op hop => (h.2 op hop).symm

/-! ## Entries at rest -/

/-- The task is going to leave only valid entries. -/
def WillClean (s : PoolState L) : PoolTask → Prop
  | .removeConfirmed _ _ | .readHeight _ _ => True
  | .snapshotPool newHeight _ _ => newHeight = s.tip.nextHeight
  | .revalidate newHeight snapshot _ => newHeight = s.tip.nextHeight ∧
      ∀ op entry, snapshot.get op = some entry → s.utxoSet.get op = some entry
  | _ => False

/-- All entries are valid, or a clean-up is on its way. -/
def FreshPool (s : PoolState L) (tasks : Multiset PoolTask) : Prop :=
  AllValid s ∨ ∃ t ∈ tasks, WillClean s t

theorem willClean_congr (hutxos : s'.utxoSet.utxos = s.utxoSet.utxos) (htip : s'.tip = s.tip)
    (h : WillClean s t) : WillClean s' t := by
  cases t with
  | removeConfirmed confirmed orphaned => trivial
  | readHeight outpoints orphaned => trivial
  | snapshotPool newHeight outpoints orphaned =>
    show newHeight = s'.tip.nextHeight
    rw [htip]
    exact h
  | revalidate newHeight snapshot orphaned =>
    refine ⟨htip ▸ h.1, fun op entry hget => ?_⟩
    rw [UtxoSet.get, hutxos]
    exact h.2 op entry hget
  | _ => exact h

/-- What is in the mempool after a step was there before or is valid. -/
theorem step_lookup {next : Option PoolTask} {txId : Hash256} {e : MempoolEntry}
    (hstep : t.step s.utxoSet s.tip s.mempool = some (m, next)) (hadds : AddsCurrent s t)
    (h : m.entries.lookup txId = some e) : s.mempool.entries.lookup txId = some e ∨ s.Valid e.tx := by
  cases t with
  | preCheck tx =>
    rw [PoolTask.step] at hstep
    split at hstep <;> cases hstep <;> exact .inl h
  | snapshotTx tx | readTip v tipSnapshot | readHeight outpoints orphaned
  | snapshotPool newHeight outpoints orphaned | snapshotOrphans newHeight orphaned =>
    cases hstep
    exact .inl h
  | addTx v tipSnapshot currentTip =>
    by_cases htip : currentTip = tipSnapshot.blockId
    · rw [PoolTask.step, if_neg (not_not.mpr htip)] at hstep
      obtain ⟨⟨m', r⟩, hadd, heq⟩ := Option.map_eq_some_iff.mp hstep
      cases heq
      rcases addTx_lookup hadd h with hold | heq
      · exact .inl hold
      · exact .inr (heq ▸ valid_of_current (hadds htip))
    · rw [PoolTask.step, if_pos htip] at hstep
      cases hstep
      exact .inl h
  | processBlock => cases hstep
  | removeConfirmed confirmed orphaned =>
    cases hstep
    exact .inl (removeConfirmed_lookup.mp h).1
  | revalidate newHeight snapshot orphaned =>
    cases hstep
    exact .inl (revalidate_lookup.mp h).1
  | reintroduce orphans =>
    obtain ⟨m', hadd, heq⟩ := Option.map_eq_some_iff.mp hstep
    cases heq
    rcases addTxs_lookup hadd h with hold | ⟨v, hv, heq⟩
    · exact .inl hold
    · exact .inr (heq ▸ valid_of_current (hadds v hv))

/-- The clean-up goes on, and its last step leaves only valid entries. -/
theorem willClean_step {next : Option PoolTask} (h : WillClean s t)
    (hstep : t.step s.utxoSet s.tip s.mempool = some (m, next)) :
    FreshPool ⟨s.chain, m⟩ (next.elim 0 fun t => {t}) := by
  cases t with
  | removeConfirmed confirmed orphaned =>
    cases hstep
    exact .inr ⟨_, Multiset.mem_singleton_self _, trivial⟩
  | readHeight outpoints orphaned =>
    cases hstep
    exact .inr ⟨_, Multiset.mem_singleton_self _, rfl⟩
  | snapshotPool newHeight outpoints orphaned =>
    cases hstep
    refine .inr ⟨_, Multiset.mem_singleton_self _, h, fun op entry hget => ?_⟩
    rw [snapshot_get] at hget
    split at hget
    · exact hget
    · cases hget
  | revalidate newHeight snapshot orphaned =>
    cases hstep
    refine .inl fun txId e hlookup => ?_
    obtain ⟨-, hkeep⟩ := revalidate_lookup.mp hlookup
    have hvalid : ∃ r, validateTransaction e.tx snapshot newHeight = .ok r := by
      by_contra hnone
      rw [shouldRemove_iff.mpr fun r hr => hnone ⟨r, hr⟩] at hkeep
      cases hkeep
    obtain ⟨r, hr⟩ := hvalid
    refine ⟨r, ?_⟩
    have := valid_of_snapshot hr h.2
    rwa [h.1] at this
  | _ => exact h.elim

theorem FreshPool.step (h : FreshPool s (t ::ₘ ts)) (hstep : PoolSteps s t s' next)
    (hadds : AddsCurrent s t) : FreshPool s' (next + ts) := by
  cases hstep with
  | commit hcommit =>
    exact .inr ⟨_, Multiset.mem_add.mpr (.inl (Multiset.mem_singleton_self _)), trivial⟩
  | leave hutxos htip =>
    rcases h with hvalid | ⟨t', ht', hclean⟩
    · exact .inl fun txId e hlookup => valid_congr hutxos htip (hvalid txId e hlookup)
    · rcases Multiset.mem_cons.mp ht' with rfl | ht'
      · exact hclean.elim
      · exact .inr ⟨t', Multiset.mem_add.mpr (.inr ht'), willClean_congr hutxos htip hclean⟩
  | pool hpool =>
    rcases h with hvalid | ⟨t', ht', hclean⟩
    · exact .inl fun txId e hlookup =>
        (step_lookup hpool hadds hlookup).elim (hvalid txId e) id
    · rcases Multiset.mem_cons.mp ht' with rfl | ht'
      · rcases willClean_step hclean hpool with hvalid | ⟨t'', ht'', hclean⟩
        · exact .inl hvalid
        · exact .inr ⟨t'', Multiset.mem_add.mpr (.inl ht''), hclean⟩
      · exact .inr ⟨t', Multiset.mem_add.mpr (.inr ht'), hclean⟩

/-! ## The relay of a transaction -/

theorem validateAt_eq_some
    (h : validateTransaction tx (u.snapshotForOutpoints tx.outpoints) height = .ok (fee, cost,
      cost')) : validateAt tx u height = some ⟨tx, _, height, fee, cost, cost', h⟩ := by
  unfold validateAt
  dsimp only
  split
  · rename_i hvalid
    cases hvalid.symm.trans h
    rfl
  · rename_i hvalid
    cases hvalid.symm.trans h

section Relay

variable {mayStart : Multiset PoolTask → PoolTask → Prop}
  {mayStep : PoolState L → Multiset PoolTask → PoolTask → Prop} {start : PoolState L} {m : Mempool}

section

variable (h : (poolTasks L).ReachesWhere mayStart mayStep start s (t ::ₘ ts))
include h

/-- A task goes on. -/
theorem reaches_next (hstep : t.step s.utxoSet s.tip s.mempool = some (m, some t')) (hmay : mayStep s ts t) :
    (poolTasks L).ReachesWhere mayStart mayStep start ⟨s.chain, m⟩ (t' ::ₘ ts) := by
  have hnext := h.step (T := poolTasks L) (PoolSteps.pool hstep) hmay
  rwa [Option.elim_some, Multiset.singleton_add] at hnext

/-- A task returns. -/
theorem reaches_return (hstep : t.step s.utxoSet s.tip s.mempool = some (m, none)) (hmay : mayStep s ts t) :
    (poolTasks L).ReachesWhere mayStart mayStep start ⟨s.chain, m⟩ ts := by
  have hnext := h.step (T := poolTasks L) (PoolSteps.pool hstep) hmay
  rwa [Option.elim_none, Multiset.zero_add] at hnext

end

/-- A transaction comes in and is found valid; its task is about to add it. -/
theorem relay_reaches (h : (poolTasks L).ReachesWhere mayStart mayStep start s ts)
    (hstart : mayStart ts (.preCheck tx)) (hfirst : mayStep s ts (.preCheck tx))
    (hsecond : mayStep s ts (.snapshotTx tx)) (hthird : ∀ v tip, mayStep s ts (.readTip v tip))
    (hcheck : s.mempool.preCheck tx = .ok ())
    (hvalid : validateTransaction tx (s.utxoSet.snapshotForOutpoints tx.outpoints) s.tip.nextHeight =
      .ok (fee, cost, cost')) : (poolTasks L).ReachesWhere mayStart mayStep start s
      (.addTx ⟨tx, _, s.tip.nextHeight, fee, cost, cost', hvalid⟩ s.tip s.tip.blockId ::ₘ ts) := by
  have hspawn := h.spawn (T := poolTasks L) (PoolStarts.newTx s tx) hstart
  have hcheckStep : (PoolTask.preCheck tx).step s.utxoSet s.tip s.mempool =
      some (s.mempool, some (.snapshotTx tx)) := by
    rw [PoolTask.step, hcheck]
  have hsnapshotStep : (PoolTask.snapshotTx tx).step s.utxoSet s.tip s.mempool = some (s.mempool,
      some (.readTip ⟨tx, _, s.tip.nextHeight, fee, cost, cost', hvalid⟩ s.tip)) := by
    rw [PoolTask.step, validateAt_eq_some hvalid]
    rfl
  have hchecked := reaches_next hspawn hcheckStep hfirst
  have hsnapshot := reaches_next hchecked hsnapshotStep hsecond
  exact reaches_next hsnapshot rfl (hthird _ _)

/-- A task adds its transaction. -/
theorem addTx_reaches (h : (poolTasks L).ReachesWhere mayStart mayStep start s (.addTx v tip tip.blockId ::ₘ ts))
    (hadd : s.mempool.addTx v = some (m, r)) (hmay : mayStep s ts (.addTx v tip tip.blockId)) :
    (poolTasks L).ReachesWhere mayStart mayStep start ⟨s.chain, m⟩ ts := by
  refine reaches_return h ?_ hmay
  rw [PoolTask.step, if_neg (not_not.mpr rfl), hadd]
  rfl

end Relay

section Empty

variable {txId : Hash256}

omit [Crypto] [Network] in
theorem mempool_new_lookup (txId : Hash256) : Mempool.new.entries.lookup txId = none :=
  Finmap.lookup_empty txId

omit [Network] in
theorem checkLocal_new (hid : tx.txId = .ok txId) (hnormal : tx.isCoinbase = false) :
    Mempool.new.checkLocal tx = .ok txId := by
  refine bind_eq_ok.mpr ⟨txId, by rw [Mempool.idOf, hid], ?_⟩
  refine failIf_then (by simp [mempool_new_lookup]) ?_
  refine failIf_then (by simp [hnormal]) ?_
  refine bind_eq_ok.mpr ⟨(), forM_eq_ok.mpr fun op _ => failIf_eq_ok.mpr ?_, rfl⟩
  exact Finset.notMem_empty op

omit [Network] in
theorem preCheck_new (hid : tx.txId = .ok txId) (hnormal : tx.isCoinbase = false) :
    Mempool.new.preCheck tx = .ok () :=
  bind_eq_ok.mpr ⟨txId, checkLocal_new hid hnormal, rfl⟩

/-- An empty mempool takes a transaction that is not too large. -/
theorem addTx_new (hid : v.tx.txId = .ok txId) (hnormal : v.tx.isCoinbase = false)
    (hcost : txCostWithScriptCost v.tx v.scriptCost v.scriptValidationCost = some cost)
    (hsize : v.tx.sizeOrZero ≤ maxMempoolBytes) :
    ∃ m e, Mempool.new.addTx v = some (m, .ok txId) ∧ m.entries.lookup txId = some e ∧
      e.tx = v.tx := by
  have hroom : ∀ density, Mempool.new.makeRoom density v.tx.sizeOrZero = some (.ok Mempool.new) := by
    intro density
    rw [Mempool.makeRoom, if_neg]
    simpa [Mempool.isFull, Mempool.new, mempoolCapacity] using hsize
  rw [Mempool.addTx, Mempool.addValidated, checkLocal_new hid hnormal]
  simp only [Mempool.addChecked, hcost, hroom]
  refine ⟨_, _, rfl, Finmap.lookup_insert _, rfl⟩

omit [Network] in
theorem removeConfirmed_new (txs : List Transaction) : Mempool.new.removeConfirmed txs = Mempool.new := by
  have hall : ∀ ids, Mempool.new.removeAll ids = Mempool.new := by
    intro ids
    induction ids with
    | nil => rfl
    | cons id ids ih =>
      rw [Mempool.removeAll, List.foldl_cons, Mempool.remove, mempool_new_lookup]
      exact ih
  rw [Mempool.removeConfirmed, hall]
  exact hall _

omit [Crypto] [Network] in
theorem txIds_new : Mempool.new.txIds = [] :=
  Finset.sort_empty _

theorem revalidate_new (u : UtxoSet) (height : UInt64) : Mempool.new.revalidate u height = Mempool.new := by
  rw [Mempool.revalidate, txIds_new, List.foldl_nil]

/-- The clean-up after a block that orphans nothing leaves an empty mempool. -/
theorem cleanUp_reaches (h : (poolTasks L).Reaches start ⟨chain, .new⟩ (.removeConfirmed confirmed [] ::ₘ ts)) :
    (poolTasks L).Reaches start ⟨chain, .new⟩ ts := by
  have hstep : (PoolTask.removeConfirmed confirmed []).step (L.utxoSet chain) (L.tip chain) .new =
      some (.new, some (.readHeight Mempool.new.referencedOutpoints [])) := by
    rw [PoolTask.step, removeConfirmed_new]
  have hremoved := reaches_next h hstep trivial
  have hheight := reaches_next hremoved rfl trivial
  have hsnapshot := reaches_next hheight rfl trivial
  refine reaches_return hsnapshot ?_ trivial
  rw [PoolTask.step, revalidate_new]
  rfl

end Empty

/-! ## A transaction that spends the output of the first block -/

omit [Crypto] [Network] in
theorem spendTx_id : let _ := Crypto.ofHash sampleHash
    spendTx.txId = .ok (digestOf spendTx) ∧ spendTx.isCoinbase = false := by
  intro _
  exact ⟨txId_eq_digestOf (by decide), by decide⟩

omit [Crypto] [Network] in
/-- Where that output is live, the transaction comes in and is found valid, and an empty mempool takes
it. -/
theorem spendTx_relay : let _ := Crypto.ofHash sampleHash
    let _ := testNetwork
    ∀ {L : ChainModel} {mayStart : Multiset PoolTask → PoolTask → Prop}
      {mayStep : PoolState L → Multiset PoolTask → PoolTask → Prop} {start : PoolState L}
      {chain : L.State} {ts : Multiset PoolTask},
      (poolTasks L).ReachesWhere mayStart mayStep start ⟨chain, .new⟩ ts →
      mayStart ts (.preCheck spendTx) →
      (∀ s, mayStep s ts (.preCheck spendTx) ∧ mayStep s ts (.snapshotTx spendTx) ∧
        ∀ v tip, mayStep s ts (.readTip v tip)) →
      (L.utxoSet chain).get genesisOutpoint = some genesisEntry →
      ((L.tip chain).nextHeight = 1 ∨ (L.tip chain).nextHeight = 2) →
      ∃ v m e, v.tx = spendTx ∧ Current (L := L) ⟨chain, .new⟩ v ∧
        (poolTasks L).ReachesWhere mayStart mayStep start ⟨chain, .new⟩
          (.addTx v (L.tip chain) (L.tip chain).blockId ::ₘ ts) ∧
        Mempool.new.addTx v = some (m, .ok (digestOf spendTx)) ∧
        m.entries.lookup (digestOf spendTx) = some e ∧ e.tx = spendTx := by
  intro _ _ L mayStart mayStep start chain ts h hstart hmay hlive hheight
  obtain ⟨hid, hnormal⟩ := spendTx_id
  have hsnapshot : ∀ op ∈ spendTx.outpoints,
      ((L.utxoSet chain).snapshotForOutpoints spendTx.outpoints).get op = (L.utxoSet chain).get op := by
    intro op hop
    rw [snapshot_get, if_pos hop]
  have hvalid : validateTransaction spendTx
      ((L.utxoSet chain).snapshotForOutpoints spendTx.outpoints) (L.tip chain).nextHeight =
        .ok (5000000000, 5016, 0) := by
    have := spendTx_valid _ ((hsnapshot genesisOutpoint (List.mem_singleton_self _)).trans hlive)
    rcases hheight with hheight | hheight
    · rw [hheight]
      exact this.1
    · rw [hheight]
      exact this.2
  obtain ⟨hfirst, hsecond, hthird⟩ := hmay ⟨chain, .new⟩
  have hreach := relay_reaches h hstart hfirst hsecond hthird (preCheck_new hid hnormal) hvalid
  have hcost : txCostWithScriptCost spendTx 5016 0 = some 6221 := by decide +kernel
  have hsize : spendTx.sizeOrZero ≤ maxMempoolBytes := by decide +kernel
  obtain ⟨m, e, hadd, hentry, htx⟩ := addTx_new
    (v := ⟨spendTx, _, (L.tip chain).nextHeight, 5000000000, 5016, 0, hvalid⟩) hid hnormal hcost hsize
  exact ⟨_, m, e, rfl, ⟨rfl, hsnapshot⟩, hreach, hadd, hentry, htx⟩

theorem commitBlock_eq_extendTip {node : Node} {faults : Faults} {block : Block} {newTip : ChainTip}
    (hbetter : isBetterChain newTip node.tip = true) (hprev : block.header.prevBlockId = node.tip.blockId) :
    node.commitBlock faults block newTip = node.extendTip faults block newTip := by
  rw [Node.commitBlock, hbetter, if_pos hprev]
  rfl

omit [Crypto] [Network] in
/-- A node that has just started accepts a block with the given transactions, if they apply. -/
theorem sample_commits : let _ := Crypto.ofHash sampleHash
    let _ := testNetwork
    ∀ {genesis : Block} {start : Node} {txs : List Transaction} {u : UtxoSet}
      {r : Nat × List UtxoMutation}, Started genesis start → start.assumeValid = false →
      start.difficultyCache = [] → listed txs = true → digestsApart (genesisCoinbase :: txs) = true →
      (∀ stateRoot, validateAndApplyBlockTransactionsAtomic
        (childBlock genesis.header txs 0 stateRoot) start.utxoSet = some (u, .ok r)) →
      ∃ node', nodeChain.commits start node' txs [] ∧ node'.utxoSet = u ∧
        node'.tip.nextHeight = 2 := by
  intro _ _ genesis start txs u r hstart hassume hcache hlisted hdigests happly
  obtain ⟨cache, storage, hcheck, hbetter, hextend⟩ :=
    sample_accepts hstart hassume hcache hlisted hdigests happly
  have hprev : (childBlock genesis.header txs 0 u.stateRoot).header.prevBlockId = start.tip.blockId := by
    rw [hstart.tip]
    rfl
  have hcommit := (commitBlock_eq_extendTip hbetter hprev).trans hextend
  have hconfirmed : txs = confirmedTxs [childBlock genesis.header txs 0 u.stateRoot] := by
    rw [confirmedTxs, List.flatMap_singleton]
    rfl
  exact ⟨_, ⟨noFaults, _, none, false, start, _, _, [], [_], hcheck, hcommit, if_pos hprev, hconfirmed,
    rfl⟩, rfl, rfl⟩

omit [Crypto] [Network] in
/-- A node that has just started accepts a block with that transaction, which spends the output. -/
theorem spendTx_commits : let _ := Crypto.ofHash sampleHash
    let _ := testNetwork
    ∃ genesis start node', Started genesis start ∧ start.tip.nextHeight = 1 ∧
      start.utxoSet.get genesisOutpoint = some genesisEntry ∧
      nodeChain.commits start node' [feeCoinbase, spendTx] [] ∧
      node'.utxoSet.get genesisOutpoint = none := by
  intro _ _
  obtain ⟨genesis, start, hstart, hassume, hcache⟩ := exists_started
  obtain ⟨-, hheight⟩ := genesisBlock_ok hstart.block
  obtain ⟨hid, hnormal⟩ := spendTx_id
  have hlive := started_live hstart
  have hdigests : digestsApart [genesisCoinbase, feeCoinbase, spendTx] = true := by decide +kernel
  have hhash := hashesDistinct_of_digestsApart hdigests
  have hcoinbase : feeCoinbase.txId = .ok (digestOf feeCoinbase) :=
    txId_eq_digestOf (by decide)
  have hfree := started_free hstart hhash List.mem_cons_self (by decide)
  have hfree' := started_free hstart hhash (List.mem_cons_of_mem _ (List.mem_singleton_self _))
    (by decide)
  -- the block at height 1, whatever its state root
  have hblock : (childBlock genesis.header [feeCoinbase, spendTx] 0 Hash256.zero).header.height = 1 := by
    show genesis.header.height + 1 = 1
    rw [hheight]
    rfl
  obtain ⟨u, mutations, happly⟩ : ∃ u mutations,
      applyBlock (childBlock genesis.header [feeCoinbase, spendTx] 0 Hash256.zero).header feeCoinbase
        [spendTx] start.utxoSet = (u, .ok (5000000000, mutations)) :=
    spendBlock_applies hcoinbase hid (by decide) rfl hnormal hlive (by decide) hfree
      hfree' (by rw [hblock]; exact fun s hs => (spendTx_valid s hs).1)
      (by rw [hblock]; decide) (by rw [hblock]; decide)
  obtain ⟨node', hcommits, rfl, -⟩ := sample_commits hstart hassume hcache (by decide +kernel) hdigests
    (childBlock_applies happly)
  have hspent : node'.utxoSet.utxos.lookup genesisOutpoint = none := by
    refine ((validateAndApply_mutates (childBlock_applies happly Hash256.zero)).lookup _ ?_).trans
      (if_pos ?_)
    · rintro ⟨tx, htx, hop⟩
      rcases List.mem_pair.mp htx with rfl | rfl
      · rw [UtxoSet.get, hfree _ hop] at hlive
        cases hlive
      · rw [UtxoSet.get, hfree' _ hop] at hlive
        cases hlive
    · refine List.mem_flatMap.mpr ⟨spendTx, List.mem_cons_of_mem _ (List.mem_singleton_self _), ?_⟩
      rw [UtxoSet.spends, if_neg (by rw [hnormal]; exact Bool.false_ne_true)]
      exact List.mem_singleton_self _
  refine ⟨genesis, start, node', hstart, ?_, hlive, hcommits, hspent⟩
  rw [hstart.tip]
  rfl

/-- In every interleaving in which transactions are added only while what they were validated against
is current, all entries of the mempool are valid whenever no task is in progress. -/
theorem entries_valid_at_rest (L : ChainModel) (chain : L.State) (s : PoolState L)
    (h : (poolTasks L).ReachesWhere (fun _ _ => True) (fun s _ t => AddsCurrent s t) ⟨chain, .new⟩
      s 0) : ∀ txId e, s.mempool.entries.lookup txId = some e → s.Valid e.tx := by
  have hfresh : FreshPool s 0 := by
    refine h.invariant ?_ ?_ ?_
    · exact .inl fun txId e hlookup => by simp [Mempool.new] at hlookup
    · intro m m' t ts hinv hstart _
      cases hstart <;> exact hinv.imp_right (Exists.imp fun t ht =>
        ⟨Multiset.mem_cons_of_mem ht.1, ht.2⟩)
    · exact fun _ _ _ _ _ hinv hstep hadds => hinv.step hstep hadds
  rcases hfresh with hvalid | ⟨t, ht, -⟩
  · exact hvalid
  · exact absurd ht (Multiset.notMem_zero t)

omit [Crypto] [Network] in
/-- A transaction is added with nothing in between, and is valid at rest. -/
theorem entries_valid_at_rest_relayed : let _ := Crypto.ofHash sampleHash
    let _ := testNetwork
    ∃ (start : Node) (s : PoolState nodeChain) (e : MempoolEntry),
      (poolTasks nodeChain).ReachesWhere (fun _ _ => True) (fun s _ t => AddsCurrent s t)
        ⟨start, .new⟩ s 0 ∧
      s.mempool.entries.lookup (digestOf spendTx) = some e ∧ s.Valid e.tx := by
  intro _ _
  obtain ⟨genesis, start, -, -, hheight, hlive, -⟩ := spendTx_commits
  have hinit : (poolTasks nodeChain).ReachesWhere (fun _ _ => True) (fun s _ t => AddsCurrent s t)
      ⟨start, .new⟩ ⟨start, .new⟩ 0 := .start
  obtain ⟨v, m, e, -, hcurrent, hreach, hadd, hentry, -⟩ := spendTx_relay hinit trivial
    (fun _ => ⟨trivial, trivial, fun _ _ => trivial⟩) hlive (.inl hheight)
  have hrest := addTx_reaches hreach hadd fun _ => hcurrent
  exact ⟨start, _, e, hrest, hentry, entries_valid_at_rest nodeChain start _ hrest _ e hentry⟩

omit [Crypto] [Network] in
/-- A block that spends the same output is processed after the task of a transaction has looked at the
tip for the last time: the transaction is added and stays. -/
theorem entry_invalid_at_rest : let _ := Crypto.ofHash sampleHash
    let _ := testNetwork
    ∃ (genesis : Block) (start : Node) (s : PoolState nodeChain) (e : MempoolEntry),
      Started genesis start ∧ (poolTasks nodeChain).Reaches ⟨start, .new⟩ s 0 ∧
      s.mempool.entries.lookup (digestOf spendTx) = some e ∧ ¬ s.Valid e.tx := by
  intro _ _
  obtain ⟨genesis, start, node', hstart, hheight, hlive, hcommits, hspent⟩ := spendTx_commits
  have hinit : (poolTasks nodeChain).Reaches ⟨start, .new⟩ ⟨start, .new⟩ 0 := .start
  obtain ⟨v, m, e, -, -, hreach, hadd, hentry, htx⟩ := spendTx_relay hinit trivial
    (fun _ => ⟨trivial, trivial, fun _ _ => trivial⟩) hlive (.inl hheight)
  -- the block comes in, is committed, and is cleaned up after
  have hblock := hreach.spawn (T := poolTasks nodeChain) (PoolStarts.newBlock _) trivial
  have hcommitted := hblock.step (T := poolTasks nodeChain) (PoolSteps.commit hcommits) trivial
  rw [Multiset.singleton_add] at hcommitted
  have hcleaned := cleanUp_reaches hcommitted
  have hrest := addTx_reaches hcleaned hadd trivial
  refine ⟨genesis, start, _, e, hstart, hrest, hentry, fun ⟨r, hvalid⟩ => ?_⟩
  rw [htx] at hvalid
  have hin := (promised_of_valid hvalid).1 genesisOutpoint (List.mem_singleton_self _)
  rw [show PoolState.utxoSet _ = node'.utxoSet from rfl, hspent] at hin
  cases hin

end Exfer.Proof
