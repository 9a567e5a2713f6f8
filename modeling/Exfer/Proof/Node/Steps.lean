import Exfer.Proof.Node.Commit

/-!
# What `process_block` keeps

`NodeInv`: the tables and indexes of the node are those of a chain of accepted blocks, and so is what
it has in memory. A call of `process_block` that the node survives keeps this, with a chain that ends
at the new tip (`NodeInv.processBlock`).
-/

namespace Exfer.Proof

open Lib Impl Spec UtxoSet

variable [Crypto] [Network] {chain : List Block} {u : UtxoSet}

/-- What is assumed of the hashes of the blocks that a node has seen. -/
structure Distinct (known : List Block) (all : List Transaction) : Prop where
  ids : BlockIdsDistinct known
  hashes : HashesDistinct all
  txs : ∀ block ∈ known, ∀ tx ∈ block.transactions, tx ∈ all

omit [Network] in
theorem Distinct.chainTxs (h : Distinct known all) (hknown : ∀ b ∈ chain, b ∈ known) :
    ∀ tx ∈ Proof.chainTxs chain, tx ∈ all := by
  intro tx htx
  obtain ⟨block, hblock, htx⟩ := mem_chainTxs.mp htx
  exact h.txs block (hknown block hblock) tx htx

/-- The node is at the last block of the chain, on disk and in memory. -/
structure NodeInv (known : List Block) (all : List Transaction) (chain : List Block) (node : Node) :
    Prop where
  db : ForkDb known chain node.storage
  indexes : CanonicalIndexes node.storage chain
  state : ChainState (undoRow node.storage) chain node.utxoSet.utxos
  inv : Inv (outputsOfAll all) node.utxoSet
  tipId : node.tip.blockId = lastId chain
  tipHeight : node.tip.height.toNat + 1 = chain.length

section Inv

variable {known chain : List Block} {all : List Transaction} {node : Node}

section

variable (h : NodeInv known all chain node)
include h

theorem NodeInv.pool (hstep : PoolStep known chain node node') : NodeInv known all chain node' where
  db := hstep.storage.db h.db
  indexes := hstep.storage.keeps.indexes h.indexes
  state := by
    rw [hstep.utxoSet]
    refine h.state.mono fun block hblock spent _ hrow => ?_
    rw [undoRow, hstep.storage.keeps.spentUtxos block hblock]
    exact hrow
  inv := hstep.utxoSet ▸ h.inv
  tipId := hstep.tip ▸ h.tipId
  tipHeight := hstep.tip ▸ h.tipHeight

/-- The set in memory may be replaced by one with the same entries. -/
theorem NodeInv.withSet (hu : u.utxos = node.utxoSet.utxos)
    (hinv : Inv (outputsOfAll all) u) : NodeInv known all chain { node with utxoSet := u } :=
  ⟨h.db, h.indexes, hu ▸ h.state, hinv, h.tipId, h.tipHeight⟩

theorem NodeInv.congr (hstorage : node'.storage = node.storage)
    (hset : node'.utxoSet = node.utxoSet) (htip : node'.tip = node.tip) : NodeInv known all chain node' := by
  refine ⟨?_, ?_, ?_, ?_, ?_, ?_⟩
  · exact hstorage ▸ h.db
  · exact hstorage ▸ h.indexes
  · exact hstorage ▸ hset ▸ h.state
  · exact hset ▸ h.inv
  · exact htip ▸ h.tipId
  · exact htip ▸ h.tipHeight

theorem NodeInv.txs (hd : Distinct known all) : ∀ tx ∈ chainTxs chain, tx ∈ all :=
  hd.chainTxs fun _ hb => h.db.mem hb

end

end Inv

/-! ## Checks on a new block -/

/-- The parts of the node that the chain is about are the same. -/
structure SameChain (node node' : Node) : Prop where
  storage : node'.storage = node.storage
  utxoSet : node'.utxoSet = node.utxoSet
  tip : node'.tip = node.tip

/-- What has been checked of a block before fork choice. -/
structure Checked (node : Node) (block : Block) (newTip : ChainTip) : Prop where
  new : node.storage.blocks.lookup block.header.blockId = none
  parent : ∃ parent coinbase rest,
    node.storage.headers.lookup block.header.prevBlockId = some parent ∧
      HeaderFacts parent block coinbase rest
  tip : ∃ work, node.storage.work.lookup block.header.prevBlockId = some work ∧
    newTip = ChainTip.new block.header.blockId block.header.height block.header.difficultyTarget work

section Check

variable {node node' : Node} {faults : Faults} {block : Block}

omit [Crypto] [Network] in
theorem orRecoverable_eq_ok : orRecoverable x = .ok a ↔ x = .ok a := by
  cases x <;> simp [orRecoverable]

omit [Crypto] [Network] in
theorem orMissing_eq_ok : orMissing msg x = .ok a ↔ x = some a := by
  cases x <;> simp [orMissing]

omit [Network] in
theorem readParent_ok (h : node.readParent faults block = .ok (parent, timestamps)) :
    node.storage.blocks.lookup block.header.blockId = none ∧
      node.storage.headers.lookup block.header.prevBlockId = some parent := by
  obtain ⟨known, hknown, h⟩ := bind_eq_ok.mp h
  obtain ⟨⟨⟩, hnew, h⟩ := bind_eq_ok.mp h
  obtain ⟨⟨⟩, -, h⟩ := bind_eq_ok.mp h
  obtain ⟨row, hrow, h⟩ := bind_eq_ok.mp h
  obtain ⟨header, hheader, h⟩ := bind_eq_ok.mp h
  obtain ⟨stamps, -, h⟩ := bind_eq_ok.mp h
  cases h
  obtain ⟨-, rfl⟩ := answer_eq_ok.mp (orRecoverable_eq_ok.mp hknown)
  obtain ⟨-, rfl⟩ := answer_eq_ok.mp (orRecoverable_eq_ok.mp hrow)
  exact ⟨by simpa using failIf_eq_ok.mp hnew, orMissing_eq_ok.mp hheader⟩

theorem cachedExpectedDifficulty_same
    (h : node.cachedExpectedDifficulty faults prevBlockId height = (node', r)) : SameChain node node' := by
  unfold Node.cachedExpectedDifficulty at h
  split at h
  · cases h
    exact ⟨rfl, rfl, rfl⟩
  · split at h <;> cases h <;> exact ⟨rfl, rfl, rfl⟩

section

omit [Network]

theorem checkHeader_ok (h : Node.checkHeader block parent timestamps target wallClock skipPow = .ok ()) :
    ∃ coinbase rest, HeaderFacts parent block coinbase rest := by
  unfold Node.checkHeader at h
  split at h
  · cases h
  · cases h
  split at h <;> cases h
  rename_i hvalid
  split at hvalid
  · exact headerFacts_of_ok hvalid
  · exact headerFacts_of_ok hvalid

theorem verifyCheckpoint_same (h : node.verifyCheckpoint faults block = .ok node') : SameChain node node' := by
  unfold Node.verifyCheckpoint at h
  split at h
  · split at h <;> cases h
    exact ⟨rfl, rfl, rfl⟩
  · cases h
    exact ⟨rfl, rfl, rfl⟩

theorem SameChain.trans (h : SameChain node node') (h' : SameChain node' node'') : SameChain node node'' :=
  ⟨h'.storage.trans h.storage, h'.utxoSet.trans h.utxoSet, h'.tip.trans h.tip⟩

theorem candidateTip_ok (h : node.candidateTip faults block = .ok newTip) :
    ∃ work, node.storage.work.lookup block.header.prevBlockId = some work ∧ newTip =
      ChainTip.new block.header.blockId block.header.height block.header.difficultyTarget work := by
  obtain ⟨row, hrow, h⟩ := bind_eq_ok.mp h
  obtain ⟨work, hwork, h⟩ := bind_eq_ok.mp h
  cases h
  obtain ⟨-, rfl⟩ := answer_eq_ok.mp (orRecoverable_eq_ok.mp hrow)
  exact ⟨work, orMissing_eq_ok.mp hwork, rfl⟩

end

theorem checkNewBlock_spec (h : node.checkNewBlock faults block wallClock skipPow = (node', r)) :
    SameChain node node' ∧ ∀ newTip, r = .ok newTip → Checked node' block newTip := by
  unfold Node.checkNewBlock at h
  split at h
  · cases h
    exact ⟨⟨rfl, rfl, rfl⟩, fun _ h => nomatch h⟩
  rename_i parent timestamps hparent
  obtain ⟨hnew, hheader⟩ := readParent_ok hparent
  dsimp only at h
  generalize htarget : node.cachedExpectedDifficulty faults _ _ = cached at h
  have hsame := cachedExpectedDifficulty_same htarget
  split at h
  · cases h
    exact ⟨hsame, fun _ h => nomatch h⟩
  rename_i hcheck
  obtain ⟨coinbase, rest, hfacts⟩ := checkHeader_ok hcheck
  split at h
  · cases h
    exact ⟨hsame, fun _ h => nomatch h⟩
  rename_i node₂ hverify
  have hsame₂ := hsame.trans (verifyCheckpoint_same hverify)
  cases h
  refine ⟨hsame₂, fun newTip htip => ⟨?_, ⟨parent, coinbase, rest, ?_, hfacts⟩, candidateTip_ok htip⟩⟩
  · rw [hsame₂.storage, hnew]
  · rw [hsame₂.storage, hheader]

end Check

/-! ## Commits -/

section Commit

variable {known olds base : List Block} {all : List Transaction} {node node' : Node} {block : Block}
  {newTip : ChainTip} {faults : Faults} {r : ProcessResult} {context : String}

theorem chain_indexable (hd : Distinct known all) (h : ChainState row chain m)
    (hknown : ∀ b ∈ chain, b ∈ known) : Indexable chain := by
  exact indexable_of_noRepeats
    (h.noRepeats (hashesDistinct_mono hd.hashes (hd.chainTxs hknown)))

/-- The node after a commit of the applied blocks. -/
theorem NodeInv.commit (h : NodeInv known all (olds ++ base) node) (hd : Distinct known all)
    (hswitch : Switch olds (applied.map Prod.fst).reverse base stored (Node.spentOf applied)
      node.storage s') (hstate : ChainState (appliedRow node.storage applied) (newChain applied base) u.utxos)
    (hinv : Inv (outputsOfAll all) u) (hknown : ∀ b ∈ newChain applied base, b ∈ known)
    (htip : newTip.blockId = lastId (newChain applied base))
    (hheight : newTip.height.toNat + 1 = (newChain applied base).length) : NodeInv known all (newChain applied base)
      { node with storage := s', utxoSet := u, tip := newTip } := by
  have hnodup := blockIds_nodup hd.ids hstate.chained hknown
  refine ⟨⟨hswitch.tables h.db.tables hstate.chained hnodup, hswitch.storedFrom h.db.stored ?_⟩,
    hswitch.indexes h.indexes ?_ (chain_indexable hd hstate hknown), hswitch.state hnodup hstate, hinv,
    htip, hheight⟩
  · exact fun b hb => hknown b (List.mem_append_left _ hb)
  · exact chain_indexable hd h.state fun b hb => h.db.mem hb

/-! ## Extending the tip -/

omit [Network] in
/-- A block that extends the tip: the parent that was read is the tip. -/
theorem Checked.onTip {parent : Block} (h : Checked node block newTip)
    (hdb : ForkDb known (parent :: base) node.storage) (hprev : block.header.prevBlockId = parent.header.blockId) :
    (∃ coinbase rest, HeaderFacts parent.header block coinbase rest) ∧
      newTip = ChainTip.new block.header.blockId block.header.height block.header.difficultyTarget
        (chainWork (parent :: base)) := by
  obtain ⟨header, coinbase, rest, hheader, hfacts⟩ := h.parent
  obtain ⟨work, hwork, rfl⟩ := h.tip
  rw [hprev, hdb.tables.header parent List.mem_cons_self] at hheader
  rw [hprev, hdb.tables.work parent base List.suffix_rfl] at hwork
  cases hheader
  cases hwork
  exact ⟨⟨coinbase, rest, hfacts⟩, rfl⟩

/-- The old blocks are undone and new ones applied, and the old state can be restored. -/
structure Applied (known : List Block) (all : List Transaction) (node : Node)
    (olds base : List Block) (u : UtxoSet) (applied : List (Block × List UtxoMutation)) : Prop where
  state : ChainState (appliedRow node.storage applied) (newChain applied base) u.utxos
  inv : Inv (outputsOfAll all) u
  known : ∀ b ∈ newChain applied base, b ∈ known
  restore : ∀ context, ∃ u₀, restoreOldChain u context (applied.map Prod.fst) (Node.spentOf applied)
    olds = (u₀, .ok ()) ∧ u₀.utxos = node.utxoSet.utxos ∧ Inv (outputsOfAll all) u₀

theorem NodeInv.revertTip (h : NodeInv known all base node)
    (hundone : Undone (outputsOfAll all) block spent node.utxoSet.utxos u.utxos)
    (hinv : Inv (outputsOfAll all) u) (hrun : node.revertTip u block spent context msg = (node', r)) :
    NodeInv known all base node' := by
  obtain ⟨u₀, hundo, hu₀, hinv₀⟩ := hundone.undo u rfl hinv
  rw [Node.revertTip, undoBlockTransactions, hundo] at hrun
  cases hrun
  exact h.withSet hu₀ hinv₀

theorem NodeInv.extendTip (h : NodeInv known all base node) (hd : Distinct known all)
    (hblock : block ∈ known) (hchecked : Checked node block newTip)
    (hprev : block.header.prevBlockId = node.tip.blockId)
    (hrun : node.extendTip faults block newTip = some (node', r)) (hr : ∀ e, r = .error e → e.isFatal = false) :
    NodeInv known all base node' ∨ NodeInv known all (block :: base) node' := by
  obtain ⟨parent, below, rfl⟩ := List.exists_cons_of_ne_nil h.state.ne_nil
  obtain ⟨⟨coinbase, rest, hfacts⟩, rfl⟩ := hchecked.onTip h.db (hprev.trans h.tipId)
  have hknown : ∀ b ∈ block :: parent :: below, b ∈ known :=
    List.forall_mem_cons.mpr ⟨hblock, fun b hb => h.db.mem hb⟩
  unfold Node.extendTip at hrun
  split at hrun
  · cases hrun
  · cases hrun
    exact absurd (hr _ rfl) (by simp [ProcessBlockError.isFatal])
  · rename_i u e hcorrupted happly
    cases hrun
    rcases h.state.apply hd.hashes (hd.chainTxs hknown) hfacts rfl h.inv happly with
      ⟨msg, hmsg⟩ | ⟨e', -, hu, hinv⟩ | ⟨q, hq, -⟩
    · cases hmsg
      exact absurd rfl (hcorrupted msg)
    · exact .inl (h.withSet hu hinv)
    · cases hq
  rename_i u fees mutations happly
  rcases h.state.apply hd.hashes (hd.chainTxs hknown) hfacts rfl h.inv happly with
    ⟨msg, hmsg⟩ | ⟨e', he', -⟩ | ⟨q, hq, hinv, -, hundone, hextend⟩
  · cases hmsg
  · cases he'
  cases hq
  dsimp only at hrun
  split at hrun
  · exact .inl (h.revertTip hundone hinv (Option.some.inj hrun))
  split at hrun
  · exact .inl (h.revertTip hundone hinv (Option.some.inj hrun))
  rename_i s' hcommit
  cases hrun
  have hstate : ChainState (appliedRow node.storage [(block, mutations)])
      (block :: parent :: below) u.utxos :=
    ChainState.concat hd.ids hknown (h.state.mono fun _ _ _ _ hrow => appliedRow_nil.mpr hrow)
      fun _ => hextend
  have hids : HasIds block := (chain_indexable hd hstate hknown).ids block List.mem_cons_self
  have hswitch := switch_block hcommit h.db.tables hids
    (blockId_ne_of_chained hd.ids hstate.chained hknown)
  have hfront : NodeInv known all ([] ++ parent :: below) node := h
  refine .inr (show NodeInv known all (newChain [(block, mutations)] (parent :: below)) _ from
    hfront.commit hd hswitch hstate hinv hknown rfl ?_)
  cases hstate.chained with
  | cons _ hheight _ => exact congrArg (· + 1) hheight

/-! ## The reorg -/

/-- The reorg gets to its end: the old blocks are undone and the new ones applied. -/
structure Switched (node : Node) (faults : Faults) (block : Block) (u : UtxoSet) (olds : List Block)
    (applied : List (Block × List UtxoMutation)) (forkPoint : Hash256) : Prop where
  run : ∃ news u₀, node.commonAncestor faults block = some (.ok (olds, news, forkPoint)) ∧
    node.undoOldChain faults node.utxoSet [] olds = (u₀, .ok ()) ∧
    node.applyNewChain faults u₀ [] news.reverse = some (u, applied, .ok ())

section Branches

variable {rest : List Block}

omit [Network] in
/-- The old branch is the front of the chain, and the new one is a path of stored blocks to the rest
but for its last block. -/
theorem ForkDb.branches (h : ForkDb known chain node.storage) (hids : BlockIdsDistinct known)
    (htip : node.tip.blockId = lastId chain)
    (hancestor : node.commonAncestor faults block = some (.ok (olds, news, forkPoint))) :
    ∃ base rest, chain = olds ++ base ∧ forkPoint = lastId base ∧ news = block :: rest ∧
      Path (block :: rest) block.header.blockId (lastId base) ∧
      ∀ b ∈ rest, HasBody node.storage b := by
  obtain ⟨⟨holds, holdBodies⟩, rest, rfl, hrest, hbodies⟩ := commonAncestor_spec hancestor
  rw [htip] at holds
  obtain ⟨base, rfl, rfl⟩ := holds.front h.stored hids h.tables.chained h.tables.body holdBodies
  exact ⟨base, rest, rfl, rfl, rfl, ⟨rfl, hrest⟩, hbodies⟩

/-- A block whose parent is not stored ends the reorg. -/
theorem checkStoredHeader_missing (h : node.storage.headers.lookup block.header.prevBlockId = none) :
    ∃ e, node.checkStoredHeader faults n block = .error e ∧ e.isFatal = true := by
  unfold Node.checkStoredHeader
  dsimp only
  split
  · exact ⟨_, rfl, rfl⟩
  · exact ⟨_, rfl, rfl⟩
  · rename_i hheader
    rw [(answer_eq_ok.mp hheader).2] at h
    cases h

/-- Without a common ancestor the first new block has no parent. -/
theorem applyNewChain_orphan (faults : Faults) (u : UtxoSet) (hdb : StoredFrom known node.storage)
    (hids : BlockIdsDistinct known) (hpath : Path (block :: rest) block.header.blockId Hash256.zero) :
    ∃ e, node.applyNewChain faults u [] (block :: rest).reverse = some (u, [], .error e) ∧
      e.isFatal = true := by
  obtain ⟨first, tail, hfirst⟩ : ∃ first tail, (block :: rest).reverse = first :: tail :=
    List.exists_cons_of_ne_nil (by simp)
  have hprev : first.header.prevBlockId = Hash256.zero := by
    have heq : block :: rest = tail.reverse ++ [first] := by
      rw [← List.reverse_cons, ← hfirst, List.reverse_reverse]
    rw [heq] at hpath
    exact hpath.concat.1
  have hnone : node.storage.headers.lookup first.header.prevBlockId = none := by
    rw [hprev, Option.eq_none_iff_forall_ne_some]
    intro header hlookup
    obtain ⟨b, hb, rfl, hid⟩ := hdb.headers _ _ hlookup
    exact hids.nonzero b hb hid
  obtain ⟨e, he, hfatal⟩ := checkStoredHeader_missing hnone
  refine ⟨e, ?_, hfatal⟩
  rw [hfirst, Node.applyNewChain, Node.applyNewBlock, List.length_nil, he]

/-- A reorg that gets to its end has a common ancestor. -/
theorem ForkDb.switched (h : ForkDb known chain node.storage) (hids : BlockIdsDistinct known)
    (htip : node.tip.blockId = lastId chain) (hswitched : Switched node faults block u olds applied forkPoint) :
    ∃ parent base rest u₀, chain = olds ++ parent :: base ∧ forkPoint = parent.header.blockId ∧
      (applied.map Prod.fst).reverse = block :: rest ∧
      Path (block :: rest) block.header.blockId parent.header.blockId ∧
      (∀ b ∈ rest, HasBody node.storage b) ∧
      node.undoOldChain faults node.utxoSet [] olds = (u₀, .ok ()) ∧
      node.applyNewChain faults u₀ [] (block :: rest).reverse = some (u, applied, .ok ()) := by
  obtain ⟨news, u₀, hancestor, hundo, happly⟩ := hswitched.run
  obtain ⟨base, rest, rfl, rfl, rfl, hpath, hbodies⟩ := h.branches hids htip hancestor
  cases base with
  | nil =>
    obtain ⟨e, hfail, -⟩ := applyNewChain_orphan faults u₀ h.stored hids hpath
    rw [happly] at hfail
    cases hfail
  | cons parent base =>
    refine ⟨parent, base, rest, u₀, rfl, rfl, ?_, hpath, hbodies, hundo, happly⟩
    rw [(applyNewChain_ok happly).1, List.map_nil, List.nil_append, List.reverse_reverse]

omit [Network] in
/-- The commit of a reorg makes the new branch the front of the chain and keeps the bodies of the old
one. -/
theorem ForkDb.switch_reorg (h : ForkDb known (olds ++ parent :: base) node.storage)
    (hids : BlockIdsDistinct known) (hheight : node.tip.height.toNat + 1 = (olds ++ parent :: base).length)
    (hchecked : Checked node block newTip) (hnews : (applied.map Prod.fst).reverse = block :: rest)
    (hbodies : ∀ b ∈ rest, HasBody node.storage b) (hchained : Chained (newChain applied (parent :: base)))
    (hknown : ∀ b ∈ newChain applied (parent :: base), b ∈ known) (hold : ∀ b ∈ olds, HasIds b)
    (hnew : ∀ b ∈ (applied.map Prod.fst).reverse, HasIds b)
    (hcommit : node.storage.commitReorgAtomic fault block newTip.cumulativeWork olds (Node.spentOf
      applied) (applied.map fun x => (x.1.header.blockId, x.2)) ((applied.map Prod.fst).map fun b =>
      (b.header.height, b.header.blockId)) (applied.map Prod.fst) (Node.cumulativeWorks (chainWork
      (parent :: base)) (applied.map Prod.fst)) (staleHeights node.tip.height block.header.height)
      block.header.blockId = .ok s') :
    Switch olds (applied.map Prod.fst).reverse (parent :: base) (block :: applied.map Prod.fst)
        (Node.spentOf applied) node.storage s' ∧
      newTip.blockId = lastId (newChain applied (parent :: base)) ∧
      newTip.height.toNat + 1 = (newChain applied (parent :: base)).length ∧
      ∀ b ∈ olds, HasBody s' b := by
  -- a new block with the id of an old one is that block, since the last one was not stored
  have hsame : ∀ new ∈ (applied.map Prod.fst).reverse, ∀ old ∈ olds,
      new.header.blockId = old.header.blockId → new = old := by
    intro new hnew old hold hid
    have hbody := h.tables.body old (List.mem_append_left _ hold)
    rw [hnews] at hnew
    rcases List.mem_cons.mp hnew with rfl | hnew
    · rw [← hid, hchecked.new] at hbody
      cases hbody
    · rw [← hid, hbodies new hnew] at hbody
      exact Option.some.inj hbody
  have hswitch := Proof.switch_reorg hcommit hnews h.tables hheight hchained
    (blockIds_nodup hids hchained hknown) hold hnew hsame
  obtain ⟨work, -, rfl⟩ := hchecked.tip
  refine ⟨hswitch, ?_, ?_, fun b hb => hswitch.hasBody
    (h.tables.body b (List.mem_append_left _ hb)) fun new hnew => hsame new hnew b hb⟩
  · rw [newChain, hnews]
    rfl
  · rw [newChain, hnews] at hchained ⊢
    cases hchained with
    | cons _ hheight _ => exact congrArg (· + 1) hheight

end Branches

omit [Network] in
theorem restoreOldChain_fatal
    (h : restoreOldChain u context applied allSpent olds = (u', .error e)) : e.isFatal = true := by
  unfold restoreOldChain at h
  split at h
  · cases h
    rfl
  split at h <;> cases h
  rfl

section Apply

variable {parent : Block}

section

variable (h : NodeInv known all (olds ++ parent :: base) node) (hd : Distinct known all)
include h hd

theorem NodeInv.applyNewChain (hblock : block ∈ known) (hbodies : ∀ b ∈ rest, HasBody node.storage b)
    (hpath : Path (block :: rest) block.header.blockId parent.header.blockId)
    (hundo : node.undoOldChain faults node.utxoSet [] olds = (u₀, .ok ()))
    (happly : node.applyNewChain faults u₀ [] (block :: rest).reverse = some (u, applied, q))
    (hq : ∀ e, q = .error e → e.isFatal = false) : Applied known all node olds (parent :: base) u applied := by
  obtain ⟨hstate₀, hinv₀, hredo⟩ := undoOldChain_spec hd.hashes h.state (h.txs hd) rfl h.inv hundo
  have hrest : ∀ b ∈ (block :: rest).reverse, b ∈ known := by
    intro b hb
    rcases List.mem_cons.mp (List.mem_reverse.mp hb) with rfl | hb
    · exact hblock
    · exact (h.db.stored.blocks _ _ (hbodies b hb)).1
  have hstate : ChainState (appliedRow node.storage []) (newChain [] (parent :: base)) u₀.utxos :=
    hstate₀.mono fun _ _ _ _ hrow => appliedRow_nil.mpr hrow
  rw [← List.reverse_reverse (block :: rest)] at hpath
  rcases applyNewChain_spec h.db.stored hd.ids hd.hashes hd.txs hstate hinv₀
    (fun b hb => h.db.mem (List.mem_append_right _ hb)) hrest hpath happly with
      ⟨e, he, hfatal⟩ | ⟨hstate', hinv', hknown'⟩
  · exact absurd ((hq e he).symm.trans hfatal) Bool.false_ne_true
  exact ⟨hstate', hinv', hknown', fun context =>
    restoreOldChain_spec hd.hashes (hd.chainTxs hknown') hstate₀ hredo hstate' hinv'⟩

theorem NodeInv.finishReorg (hchecked : Checked node block newTip)
    (happlied : Applied known all node olds (parent :: base) u applied)
    (hnews : (applied.map Prod.fst).reverse = block :: rest) (hbodies : ∀ b ∈ rest, HasBody node.storage b)
    (hrun : node.finishReorg faults block newTip u olds applied parent.header.blockId = (node', r))
    (hr : ∀ e, r = .error e → e.isFatal = false ∧ faults .forkPointWork = none) :
    NodeInv known all (olds ++ parent :: base) node' ∨
      NodeInv known all (newChain applied (parent :: base)) node' := by
  unfold Node.finishReorg at hrun
  dsimp only at hrun
  split at hrun
  · rename_i hread
    cases hrun
    rw [Storage.getCumulativeWork, (hr _ rfl).2] at hread
    cases hread
  · cases hrun
    exact absurd (hr _ rfl).1 (by simp [ProcessBlockError.isFatal])
  rename_i work hread
  rw [Storage.getCumulativeWork, answer_eq_ok] at hread
  have hwork := h.db.tables.work parent base (List.suffix_append ..)
  rw [hread.2] at hwork
  cases hwork
  split at hrun
  · obtain ⟨u₀, hrestore, hu₀, hinv₀⟩ := happlied.restore _
    rw [hrestore] at hrun
    cases hrun
    exact .inl (h.withSet hu₀ hinv₀)
  rename_i s' hcommit
  obtain ⟨hswitch, htip, hheight, holds⟩ := h.db.switch_reorg hd.ids h.tipHeight hchecked hnews hbodies
    happlied.state.chained happlied.known
    (fun b hb => (chain_indexable hd h.state fun b hb => h.db.mem hb).ids b (List.mem_append_left _ hb))
    (fun b hb => (chain_indexable hd happlied.state happlied.known).ids b (List.mem_append_left _ hb))
    hcommit
  have hcommitted := h.commit hd hswitch happlied.state happlied.inv happlied.known htip hheight
  have hdb : ForkDb known (newChain applied (parent :: base))
      (Node.storage { node with storage := s', utxoSet := u }) := hcommitted.db
  have hdemoted := hdb.demote hd.ids faults (applied.map Prod.fst) holds
  generalize Node.demote _ _ _ _ = demoted at hrun hdemoted
  cases hrun
  exact .inr (hcommitted.pool ⟨hdemoted.storage, hdemoted.utxoSet, rfl⟩)

end

end Apply

/-- A reorg fails before its end, with the state restored unless the error is fatal, or gets there. -/
theorem NodeInv.reorg_cases (h : NodeInv known all chain node) (hd : Distinct known all)
    (hblock : block ∈ known) (hrun : node.reorg faults block newTip = some (node', r))
    (hr : ∀ e, r = .error e → e.isFatal = false) : NodeInv known all chain node' ∨
      ∃ u applied olds forkPoint, Switched node faults block u olds applied forkPoint ∧
        node.finishReorg faults block newTip u olds applied forkPoint = (node', r) := by
  unfold Node.reorg at hrun
  split at hrun
  · cases hrun
  · cases hrun
    exact .inl h
  rename_i olds news forkPoint hancestor
  split at hrun
  · rename_i hundo
    cases hrun
    exact absurd ((hr _ rfl).symm.trans (undoOldChain_fatal hundo)) Bool.false_ne_true
  rename_i u₀ hundo
  split at hrun
  · cases hrun
  · rename_i u applied e happly
    -- an error that ends the loop over the new blocks is the result, or a fatal one is
    have hsurvives : e.isFatal = false := by
      split at hrun
      · rename_i hrestore
        cases hrun
        exact absurd ((hr _ rfl).symm.trans (restoreOldChain_fatal hrestore)) Bool.false_ne_true
      · cases hrun
        exact hr _ rfl
    obtain ⟨base, rest, rfl, rfl, rfl, hpath, hbodies⟩ := h.db.branches hd.ids h.tipId hancestor
    cases base with
    | nil =>
      obtain ⟨e', hfail, hfatal⟩ := applyNewChain_orphan faults u₀ h.db.stored hd.ids hpath
      rw [happly] at hfail
      cases hfail
      exact absurd (hsurvives.symm.trans hfatal) Bool.false_ne_true
    | cons parent base =>
      have happlied := h.applyNewChain hd hblock hbodies hpath hundo happly fun e' he' => by
        cases he'
        exact hsurvives
      obtain ⟨u', hrestore, hu', hinv'⟩ := happlied.restore e.display
      rw [hrestore] at hrun
      cases hrun
      exact .inl (h.withSet hu' hinv')
  · rename_i u applied happly
    exact .inr ⟨u, applied, olds, forkPoint, ⟨news, u₀, hancestor, hundo, happly⟩, Option.some.inj hrun⟩

end Commit

/-! ## A call -/

section Call

/-- A call that the node survives leaves it at the end of a chain from the same first block. -/
theorem NodeInv.processBlock (h : NodeInv known all chain node) (hd : Distinct known all)
    (hfirst : [genesis] <:+ chain) (hblock : c.block ∈ known) (hrun : c.run node = some (node', r))
    (hr : Survives c r) : ∃ chain', [genesis] <:+ chain' ∧ NodeInv known all chain' node' := by
  have hr' : ∀ e, r = .error e → e.isFatal = false ∧ c.faults .forkPointWork = none := by
    rintro e rfl
    exact hr
  unfold BlockCall.run Node.processBlockInner at hrun
  split at hrun
  · rename_i node₁ r₁ hcheck
    cases hrun
    obtain ⟨hsame, -⟩ := checkNewBlock_spec hcheck
    exact ⟨chain, hfirst, h.congr hsame.storage hsame.utxoSet hsame.tip⟩
  rename_i node₁ newTip hcheck
  obtain ⟨⟨hstorage, hset, htip⟩, hchecked⟩ := checkNewBlock_spec hcheck
  have h₁ : NodeInv known all chain node₁ := h.congr hstorage hset htip
  have hchecked := hchecked newTip rfl
  split at hrun
  · have hstep := h₁.db.storeFork hd.ids c.faults newTip hblock
    rw [Option.some.inj hrun] at hstep
    exact ⟨chain, hfirst, h₁.pool hstep⟩
  split at hrun
  · rename_i hprev
    rcases h₁.extendTip hd hblock hchecked hprev hrun fun e he => (hr' e he).1 with hinv | hinv
    · exact ⟨chain, hfirst, hinv⟩
    · exact ⟨c.block :: chain, hfirst.trans (List.suffix_cons ..), hinv⟩
  · rcases h₁.reorg_cases hd hblock hrun fun e he => (hr' e he).1 with
      hinv | ⟨u, applied, olds, forkPoint, hswitched, hfinish⟩
    · exact ⟨chain, hfirst, hinv⟩
    obtain ⟨parent, base, rest, u₀, rfl, rfl, hnews, hpath, hbodies, hundo, happly⟩ :=
      h₁.db.switched hd.ids h₁.tipId hswitched
    have happlied := h₁.applyNewChain hd hblock hbodies hpath hundo happly fun _ he => nomatch he
    rcases h₁.finishReorg hd hchecked happlied hnews hbodies hfinish hr' with hinv | hinv
    · exact ⟨_, hfirst, hinv⟩
    · -- the first block is below the fork point
      have hbase : [genesis] <:+ parent :: base :=
        List.suffix_of_suffix_length_le hfirst (List.suffix_append olds _) (by simp)
      exact ⟨_, hbase.trans (List.suffix_append ..), hinv⟩

end Call

end Exfer.Proof
