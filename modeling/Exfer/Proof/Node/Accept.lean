import Exfer.Proof.Node.Steps

/-!
# Blocks that are accepted

A block that meets the rules for headers passes the checks of `process_block`
(`checkNewBlock_passes`), and if its transactions apply and its state root is right, a node at its
parent accepts it (`NodeInv.accepts`), as long as the storage answers.
-/

namespace Exfer.Proof

open Lib Impl Spec UtxoSet

variable [Crypto] [Network]

section Check

variable {node : Node} {parent : BlockHeader}

omit [Network] in
theorem readParent_passes (hnew : node.storage.blocks.lookup block.header.blockId = none)
    (hheight : block.header.height ≠ 0)
    (hparent : node.storage.headers.lookup block.header.prevBlockId = some parent)
    (htimes : node.storage.getAncestorTimestamps (fun _ => none) 0 mtpWindow
      block.header.prevBlockId = .ok timestamps) : node.readParent noFaults block = .ok (parent, timestamps) := by
  refine bind_eq_ok.mpr ⟨false, orRecoverable_eq_ok.mpr (answer_eq_ok.mpr ⟨rfl, by rw [hnew]; rfl⟩), ?_⟩
  refine failIf_then Bool.false_ne_true ?_
  refine failIf_then hheight ?_
  refine bind_eq_ok.mpr ⟨some parent, orRecoverable_eq_ok.mpr (answer_eq_ok.mpr ⟨rfl, hparent⟩), ?_⟩
  refine bind_eq_ok.mpr ⟨parent, rfl, ?_⟩
  exact bind_eq_ok.mpr ⟨timestamps, orRecoverable_eq_ok.mpr htimes, rfl⟩

omit [Crypto] in
/-- Between two retargets, the expected target is that of the parent. -/
theorem expectedDifficulty_parent (hheight : height.toNat % retargetWindow ≠ 0)
    (hparent : getHeader 0 prevBlockId = .ok (some parent)) :
    expectedDifficulty getHeader prevBlockId height = .ok parent.difficultyTarget := by
  have hzero : height ≠ 0 := by
    rintro rfl
    exact hheight rfl
  rw [expectedDifficulty, if_neg hzero]
  refine bind_eq_ok.mpr ⟨parent, ?_, if_pos hheight⟩
  rw [ancestorHeader, hparent]

theorem cachedExpectedDifficulty_passes (hcache : node.difficultyCache.lookup (prevBlockId, height) = none)
    (htarget : expectedDifficulty (fun _ id => .ok (node.storage.headers.lookup id)) prevBlockId
      height = .ok target) : ∃ cache, node.cachedExpectedDifficulty noFaults prevBlockId height =
      ({ node with difficultyCache := cache }, .ok target) := by
  have hread : (fun i id => node.storage.getHeader (noFaults (.difficulty i)) id) =
      fun _ id => .ok (node.storage.headers.lookup id) := rfl
  rw [Node.cachedExpectedDifficulty, hcache, hread, htarget]
  exact ⟨_, rfl⟩

/-- A block that meets the rules for headers passes the checks. -/
theorem checkNewBlock_passes (hnew : node.storage.blocks.lookup block.header.blockId = none)
    (hheight : block.header.height.toNat % retargetWindow ≠ 0)
    (hparent : node.storage.headers.lookup block.header.prevBlockId = some parent)
    (htimes : node.storage.getAncestorTimestamps (fun _ => none) 0 mtpWindow
      block.header.prevBlockId = .ok timestamps)
    (hcache : node.difficultyCache.lookup (block.header.prevBlockId, block.header.height) = none)
    (hvalid : validateBlockHeader block (some parent) timestamps parent.difficultyTarget none = .ok ())
    (hassume : node.assumeValid = false) (hwork : node.storage.work.lookup block.header.prevBlockId = some work) :
    ∃ cache, node.checkNewBlock noFaults block none false =
      ({ node with difficultyCache := cache }, .ok (ChainTip.new block.header.blockId
        block.header.height block.header.difficultyTarget work)) := by
  have hzero : block.header.height ≠ 0 := by
    intro h
    rw [h] at hheight
    exact hheight rfl
  obtain ⟨cache, hcached⟩ := cachedExpectedDifficulty_passes hcache
    (expectedDifficulty_parent hheight (congrArg Except.ok hparent))
  have hheader : Node.checkHeader block parent timestamps (.ok parent.difficultyTarget) none false =
      .ok () := by
    simp only [Node.checkHeader, hvalid, Bool.false_eq_true, if_false]
  have hverify : ({ node with difficultyCache := cache } : Node).verifyCheckpoint noFaults block =
      .ok { node with difficultyCache := cache } := by
    rw [Node.verifyCheckpoint, if_neg]
    rw [hassume]
    exact fun h => Bool.false_ne_true h.1
  have htip : ({ node with difficultyCache := cache } : Node).candidateTip noFaults block =
      .ok (ChainTip.new block.header.blockId block.header.height block.header.difficultyTarget
        work) :=
    bind_eq_ok.mpr ⟨some work, orRecoverable_eq_ok.mpr (answer_eq_ok.mpr ⟨rfl, hwork⟩),
      bind_eq_ok.mpr ⟨work, rfl, rfl⟩⟩
  refine ⟨cache, ?_⟩
  rw [Node.checkNewBlock, readParent_passes hnew hzero hparent htimes]
  simp only [hcached, hheader, hverify, htip]

end Check

/-! ## The tip -/

section Tip

/-- A node at its parent accepts a block whose transactions apply and whose state root is right. -/
theorem NodeInv.accepts (h : NodeInv known all (parent :: below) node) (hd : Distinct known all)
    (hblock : block ∈ known) (hfacts : HeaderFacts parent.header block coinbase rest)
    (happly : validateAndApplyBlockTransactionsAtomic block node.utxoSet = some (u, .ok r))
    (hroot : block.header.stateRoot = u.stateRoot) (hser : ∃ bytes, block.serialize = .ok bytes)
    (newTip : ChainTip) : ∃ storage, node.extendTip noFaults block newTip =
      some ({ node with storage, utxoSet := u, tip := newTip }, .ok .accepted) := by
  have htxs := hd.chainTxs
    (List.forall_mem_cons.mpr ⟨hblock, fun b (hb : b ∈ parent :: below) => h.db.mem hb⟩)
  rcases h.state.apply hd.hashes htxs hfacts rfl h.inv happly with ⟨msg, hmsg⟩ | ⟨e, he, -⟩ |
    ⟨q, hq, -, hreads, -⟩
  · cases hmsg
  · cases he
  cases hq
  have hids : HasIds block := fun tx htx => hfacts.ids tx (hfacts.transactions ▸ htx)
  obtain ⟨storage, hcommit⟩ : ∃ storage, node.storage.commitBlockAtomic none block
      newTip.cumulativeWork (UtxoMutation.collectSpentUtxos r.2) r.2 = .ok storage :=
    exists_commitBlock hser hreads hids (validateAndApply_mutates happly)
  refine ⟨storage, ?_⟩
  rw [Node.extendTip, happly]
  simp only [hroot, ne_eq, not_true_eq_false, if_false, noFaults, hcommit]

end Tip

end Exfer.Proof
