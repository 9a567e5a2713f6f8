import Exfer.Proof.Node.FirstBlocks
import Exfer.Proof.Node.Works

/-!
# Changes of the tip

`is_better_chain` is a strict weak order, and the tip of a node changes only to one that it prefers.
What a commit writes to the work table follows from the headers alone (`TipInv`): it holds after any
calls, also those after which the unspent outputs in memory are not those of the tip. Nodes that have
survived their calls and are at the same tip have the same state (`same_tip_same_state`).
-/

namespace Exfer.Proof

open Lib Impl Spec UtxoSet

/-! ## The order of tips -/

section Order

variable {a : ChainTip}

theorem isBetterChain_irrefl (a : ChainTip) : ¬ isBetterChain a a = true := by
  rw [isBetterChain_iff_works, UInt64.lt_iff_toNat_lt]
  omega

theorem isBetterChain_trans (hab : isBetterChain a b = true) (hbc : isBetterChain b c = true) :
    isBetterChain a c = true := by
  rw [isBetterChain_iff_works, UInt64.lt_iff_toNat_lt] at *
  omega

theorem isBetterChain_strictWeakOrder : IsStrictWeakOrder ChainTip fun a b => isBetterChain a b = true where
  irrefl := isBetterChain_irrefl
  trans _ _ _ := isBetterChain_trans
  incomp_trans _ _ _ hab hbc := by
    simp only [isBetterChain_iff_works, UInt64.lt_iff_toNat_lt] at *
    omega

end Order

/-! ## The chain of headers -/

variable [Crypto]

/-- The node is at the last block of the chain, on disk and by its tip. -/
structure TipInv (known chain : List Block) (node : Node) : Prop where
  db : ForkDb known chain node.storage
  ids : ∀ block ∈ chain, HasIds block
  works : WorkRows known node.storage
  tipId : node.tip.blockId = lastId chain
  tipHeight : node.tip.height.toNat + 1 = chain.length
  tipWork : node.tip.cumulativeWork = chainWork chain

/-- A call leaves the database and the tip alone. -/
structure SameDisk (node node' : Node) : Prop where
  storage : node'.storage = node.storage
  tip : node'.tip = node.tip

section Steps

variable {known chain olds base : List Block} {node node' : Node} {faults : Faults}
  {block parent : Block} {newTip : ChainTip} {r : ProcessResult} {rest : List Transaction}
  {u : UtxoSet}

theorem TipInv.congr (h : TipInv known chain node) (hsame : SameDisk node node') : TipInv known chain node' := by
  obtain ⟨hstorage, htip⟩ := hsame
  exact ⟨hstorage ▸ h.db, h.ids, hstorage ▸ h.works, htip ▸ h.tipId, htip ▸ h.tipHeight, htip ▸ h.tipWork⟩

theorem TipInv.exists_cons (h : TipInv known chain node) : ∃ top below, chain = top :: below :=
  List.exists_cons_of_ne_nil (List.ne_nil_of_length_eq_add_one h.tipHeight.symm)

theorem hasIds_of_facts {parent : BlockHeader} (h : HeaderFacts parent block coinbase rest) : HasIds block := by
  intro tx htx
  rw [h.transactions] at htx
  exact h.ids tx htx

/-- The work of the tip that a checked block would make is its cumulative work. -/
theorem TipInv.candidate (h : TipInv known chain node) (hids : BlockIdsDistinct known)
    (hblock : block ∈ known) (hchecked : Checked node block newTip) :
    CumulativeWork (headersOf known) block.header newTip.cumulativeWork := by
  obtain ⟨parent, coinbase, rest, hparent, hfacts⟩ := hchecked.parent
  obtain ⟨work, hwork, rfl⟩ := hchecked.tip
  obtain ⟨stored, hstored, rfl, hid⟩ := h.db.stored.headers _ _ hparent
  rw [← hid] at hwork
  exact .child (h.works.of_lookup hids hstored hwork) ⟨block, hblock, rfl⟩ hfacts.prev hfacts.height

/-- A checked block stands on top of the block it extends. -/
theorem chained_cons (h : Chained (parent :: below))
    (hfacts : HeaderFacts parent.header block coinbase rest) : Chained (block :: parent :: below) := by
  refine .cons h ?_ hfacts.prev
  cases h with
  | cons _ hheight _ => rw [hfacts.height, hheight, List.length_cons]

/-- A commit that makes `chain'` the canonical chain. -/
theorem TipInv.commit (h : TipInv known (olds ++ base) node) (hids : BlockIdsDistinct known)
    (hswitch : Switch olds news base stored spent node.storage s')
    (hchained : Chained (news ++ base)) (hnews : ∀ b ∈ news, b ∈ known ∧ HasIds b)
    (hworks : WorkRows known s') (htip : newTip.blockId = lastId (news ++ base))
    (hheight : newTip.height.toNat + 1 = (news ++ base).length)
    (hwork : newTip.cumulativeWork = chainWork (news ++ base)) :
    TipInv known (news ++ base) { node with storage := s', utxoSet := u, tip := newTip } := by
  have hknown : ∀ b ∈ news ++ base, b ∈ known := List.forall_mem_append.mpr
    ⟨fun b hb => (hnews b hb).1, fun b hb => h.db.mem (List.mem_append_right _ hb)⟩
  refine ⟨⟨hswitch.tables h.db.tables hchained (blockIds_nodup hids hchained hknown),
    hswitch.storedFrom h.db.stored fun b hb => (hnews b hb).1⟩, ?_, hworks, htip, hheight, hwork⟩
  exact List.forall_mem_append.mpr
    ⟨fun b hb => (hnews b hb).2, fun b hb => h.ids b (List.mem_append_right _ hb)⟩

/-! ## Extending the tip -/

theorem revertTip_sameDisk (h : node.revertTip u block spent context msg = (node', r)) : SameDisk node node' := by
  unfold Node.revertTip at h
  split at h <;> cases h <;> exact ⟨rfl, rfl⟩

variable [Network] {applied : List (Block × List UtxoMutation)} {forkPoint : Hash256}
  {c : BlockCall}

/-- A block is committed on the tip, or the database and the tip stay as they are. -/
theorem extendTip_cases (h : node.extendTip faults block newTip = some (node', r)) :
    SameDisk node node' ∨ ∃ u spent mutations s',
      node.storage.commitBlockAtomic (faults .commitBlock) block newTip.cumulativeWork spent
        mutations = .ok s' ∧ node' = { node with storage := s', utxoSet := u, tip := newTip } := by
  unfold Node.extendTip at h
  split at h
  · cases h
  · cases h
    exact .inl ⟨rfl, rfl⟩
  · cases h
    exact .inl ⟨rfl, rfl⟩
  dsimp only at h
  split at h
  · exact .inl (revertTip_sameDisk (Option.some.inj h))
  split at h
  · exact .inl (revertTip_sameDisk (Option.some.inj h))
  · rename_i s' hcommit
    cases h
    exact .inr ⟨_, _, _, s', hcommit, rfl⟩

theorem TipInv.extendTip (h : TipInv known chain node) (hids : BlockIdsDistinct known)
    (hblock : block ∈ known) (hchecked : Checked node block newTip)
    (hprev : block.header.prevBlockId = node.tip.blockId)
    (hrun : node.extendTip faults block newTip = some (node', r)) :
    SameDisk node node' ∨ ∃ parent below, TipInv known (block :: parent :: below) node' := by
  rcases extendTip_cases hrun with hsame | ⟨u, spent, mutations, s', hcommit, rfl⟩
  · exact .inl hsame
  obtain ⟨parent, below, rfl⟩ := h.exists_cons
  have hwork := h.candidate hids hblock hchecked
  obtain ⟨⟨coinbase, rest, hfacts⟩, rfl⟩ := hchecked.onTip h.db (hprev.trans h.tipId)
  have hchained := chained_cons h.db.tables.chained hfacts
  have hknown : ∀ b ∈ block :: parent :: below, b ∈ known :=
    List.forall_mem_cons.mpr ⟨hblock, fun b hb => h.db.mem hb⟩
  have hswitch := switch_block hcommit h.db.tables (hasIds_of_facts hfacts)
    (blockId_ne_of_chained hids hchained hknown)
  have hworks : WorkRows known s' := by
    obtain ⟨spentData, utxos, spentBy, -, -, -, rfl⟩ := commitBlockAtomic_ok hcommit
    exact WorkRows.insertAll [(block.header.blockId, _)] h.works
      (List.forall_mem_singleton.mpr ⟨block.header, rfl, hwork⟩)
  have hfront : TipInv known ([] ++ parent :: below) node := h
  refine .inr ⟨parent, below, hfront.commit hids hswitch hchained
    (List.forall_mem_singleton.mpr ⟨hblock, hasIds_of_facts hfacts⟩) hworks rfl ?_ rfl⟩
  cases hchained with
  | cons _ hheight _ => exact congrArg (· + 1) hheight

/-! ## The reorg -/

/-- Checked blocks on a path to the chain extend it. -/
theorem chained_branch (hdb : StoredFrom known node.storage) (hids : BlockIdsDistinct known)
    (hbase : Chained (parent :: base)) (hparent : parent ∈ known)
    (hpath : Path news tipId parent.header.blockId) (hknown : ∀ b ∈ news, b ∈ known)
    (hchecked : ∀ b ∈ news, ∃ n, node.checkStoredHeader faults n b = .ok ()) :
    Chained (news ++ parent :: base) ∧ ∀ b ∈ news, HasIds b := by
  induction news generalizing tipId with
  | nil => exact ⟨hbase, fun _ h => nomatch h⟩
  | cons b news ih =>
    obtain ⟨hb, hnews⟩ := List.forall_mem_cons.mp hknown
    obtain ⟨⟨n, hcheck⟩, hchecks⟩ := List.forall_mem_cons.mp hchecked
    obtain ⟨hchained, hhas⟩ := ih hpath.2 hnews hchecks
    -- the block below is the last one of the path, or the one that the path leads to
    obtain ⟨below, rest, hbelow, hmem, hprev⟩ : ∃ below rest,
        news ++ parent :: base = below :: rest ∧ below ∈ known ∧
        b.header.prevBlockId = below.header.blockId := by
      cases news with
      | nil => exact ⟨parent, base, rfl, hparent, hpath.2⟩
      | cons c news => exact ⟨c, _, rfl, hnews c List.mem_cons_self, hpath.2.1.symm⟩
    obtain ⟨coinbase, txs, hfacts⟩ := checkStoredHeader_ok hdb hids hmem hprev hcheck
    refine ⟨?_, List.forall_mem_cons.mpr ⟨hasIds_of_facts hfacts, hhas⟩⟩
    rw [List.cons_append, hbelow]
    exact chained_cons (hbelow ▸ hchained) hfacts

omit [Network] in
/-- The new branch is committed, or the database and the tip stay as they are. -/
theorem finishReorg_cases (h : node.finishReorg faults block newTip u olds applied forkPoint = (node', r)) :
    SameDisk node node' ∨ ∃ work s', node.storage.work.lookup forkPoint = some work ∧
      node.storage.commitReorgAtomic (faults .commitReorg) block newTip.cumulativeWork olds
        (Node.spentOf applied) (applied.map fun x => (x.1.header.blockId, x.2))
        ((applied.map Prod.fst).map fun b => (b.header.height, b.header.blockId))
        (applied.map Prod.fst) (Node.cumulativeWorks work (applied.map Prod.fst))
        (staleHeights node.tip.height block.header.height) block.header.blockId = .ok s' ∧
      node' = { ({ node with storage := s', utxoSet := u }.demote faults olds
        (applied.map Prod.fst)) with tip := newTip } := by
  unfold Node.finishReorg at h
  dsimp only at h
  split at h
  · cases h
    exact .inl ⟨rfl, rfl⟩
  · cases h
    exact .inl ⟨rfl, rfl⟩
  rename_i work hwork
  split at h
  · split at h <;> cases h <;> exact .inl ⟨rfl, rfl⟩
  · rename_i s' hcommit
    exact .inr ⟨work, s', (answer_eq_ok.mp hwork).2, hcommit, (congrArg Prod.fst h).symm⟩

theorem reorg_cases (h : node.reorg faults block newTip = some (node', r)) :
    SameDisk node node' ∨ ∃ u applied olds forkPoint,
      Switched node faults block u olds applied forkPoint ∧
        node.finishReorg faults block newTip u olds applied forkPoint = (node', r) := by
  unfold Node.reorg at h
  split at h
  · cases h
  · cases h
    exact .inl ⟨rfl, rfl⟩
  rename_i olds news forkPoint hancestor
  split at h
  · cases h
    exact .inl ⟨rfl, rfl⟩
  rename_i u₀ hundo
  split at h
  · cases h
  · split at h <;> cases h <;> exact .inl ⟨rfl, rfl⟩
  · rename_i u applied happly
    exact .inr ⟨u, applied, olds, forkPoint, ⟨news, u₀, hancestor, hundo, happly⟩, Option.some.inj h⟩

/-- The branches of a reorg that gets to its end: the old one is the front of the chain, and the new
one makes a chain with the rest. -/
theorem TipInv.branches (h : TipInv known chain node) (hids : BlockIdsDistinct known)
    (hblock : block ∈ known) (hswitched : Switched node faults block u olds applied forkPoint) :
    ∃ parent base rest, chain = olds ++ parent :: base ∧ forkPoint = parent.header.blockId ∧
      (applied.map Prod.fst).reverse = block :: rest ∧ (∀ b ∈ rest, HasBody node.storage b) ∧
      Chained (block :: rest ++ parent :: base) ∧ ∀ b ∈ block :: rest, b ∈ known ∧ HasIds b := by
  obtain ⟨parent, base, rest, u₀, rfl, rfl, hnews, hpath, hbodies, -, happly⟩ :=
    h.db.switched hids h.tipId hswitched
  have hknown : ∀ b ∈ block :: rest, b ∈ known := List.forall_mem_cons.mpr
    ⟨hblock, fun b hb => (h.db.stored.blocks _ _ (hbodies b hb)).1⟩
  have hbase := chained_of_suffix h.db.tables.chained (List.suffix_append olds (parent :: base))
  obtain ⟨hchained, hhas⟩ := chained_branch h.db.stored hids hbase
    (h.db.mem (List.mem_append_right _ List.mem_cons_self)) hpath hknown
    fun b hb => (applyNewChain_ok happly).2 b (List.mem_reverse.mpr hb)
  exact ⟨parent, base, rest, rfl, rfl, hnews, hbodies, hchained, fun b hb => ⟨hknown b hb, hhas b hb⟩⟩

omit [Network] in
/-- The works computed along the new branch are the cumulative works of its headers. -/
theorem cumulativeWorks_rows (hchained : Chained (added.reverse ++ base))
    (hknown : ∀ b ∈ added.reverse ++ base, b ∈ known) :
    ∀ row ∈ Node.cumulativeWorks (chainWork base) added, ∃ h : BlockHeader, h.blockId = row.1 ∧
      CumulativeWork (headersOf known) h row.2 := by
  induction added generalizing base with
  | nil => exact fun _ h => nomatch h
  | cons b added ih =>
    rw [List.reverse_cons, List.append_assoc] at hchained hknown
    have hfirst := cumulativeWork_chain (chained_of_suffix hchained (List.suffix_append ..))
      fun c hc => hknown c (List.mem_append_right _ hc)
    exact List.forall_mem_cons.mpr ⟨⟨b.header, rfl, hfirst⟩, ih hchained hknown⟩

theorem TipInv.reorg (h : TipInv known chain node) (hids : BlockIdsDistinct known)
    (hblock : block ∈ known) (hchecked : Checked node block newTip)
    (hrun : node.reorg faults block newTip = some (node', r)) :
    SameDisk node node' ∨ ∃ parent below, TipInv known (block :: parent :: below) node' := by
  rcases reorg_cases hrun with hsame | ⟨u, applied, olds, forkPoint, hswitched, hfinish⟩
  · exact .inl hsame
  rcases finishReorg_cases hfinish with hsame | ⟨work, s', hwork, hcommit, rfl⟩
  · exact .inl hsame
  obtain ⟨parent, base, rest, rfl, rfl, hnews, hbodies, hchained, hknown⟩ :=
    h.branches hids hblock hswitched
  rw [h.db.tables.work parent base (List.suffix_append ..)] at hwork
  cases hwork
  rw [← hnews] at hchained hknown
  have hall : ∀ b ∈ (applied.map Prod.fst).reverse ++ parent :: base, b ∈ known :=
    List.forall_mem_append.mpr
      ⟨fun b hb => (hknown b hb).1, fun b hb => h.db.mem (List.mem_append_right _ hb)⟩
  obtain ⟨hswitch, htipId, htipHeight, holds⟩ := h.db.switch_reorg hids h.tipHeight hchecked hnews
    hbodies hchained hall (fun b hb => h.ids b (List.mem_append_left _ hb))
    (fun b hb => (hknown b hb).2) hcommit
  have hcandidate := h.candidate hids hblock hchecked
  have hworks : WorkRows known s' := by
    obtain ⟨spentUtxos, undone, utxos, spentBy, -, -, -, -, rfl⟩ := commitReorgAtomic_ok hcommit
    exact WorkRows.insertAll ((block.header.blockId, newTip.cumulativeWork) :: _) h.works
      (List.forall_mem_cons.mpr
        ⟨⟨block.header, rfl, hcandidate⟩, cumulativeWorks_rows hchained hall⟩)
  -- the work computed along the branch is the one computed from the row of the parent
  have htipWork : newTip.cumulativeWork =
      chainWork ((applied.map Prod.fst).reverse ++ parent :: base) := by
    rw [hnews] at hchained hall ⊢
    exact cumulativeWork_unique (headersOf_injOn hids) hcandidate
      (cumulativeWork_chain hchained hall)
  have hcommitted := h.commit (u := u) hids hswitch hchained hknown hworks htipId htipHeight
    htipWork
  have hdb : ForkDb known ((applied.map Prod.fst).reverse ++ parent :: base)
      (Node.storage { node with storage := s', utxoSet := u }) := hcommitted.db
  have hdemoted := hdb.demote hids faults (applied.map Prod.fst) holds
  have hrows : WorkRows known (Node.storage { node with storage := s', utxoSet := u }) := hworks
  have hworks' := hrows.demote hids faults (applied.map Prod.fst) fun b hb =>
    h.db.mem (List.mem_append_left _ hb)
  generalize Node.demote _ _ _ _ = demoted at hdemoted hworks' ⊢
  obtain ⟨top, below, hbelow⟩ := exists_cons_of_append rest parent base
  rw [hnews, List.cons_append, hbelow] at hcommitted hdemoted
  refine .inr ⟨top, below, ?_⟩
  exact ⟨hdemoted.storage.db hcommitted.db, hcommitted.ids, hworks', hcommitted.tipId,
    hcommitted.tipHeight, hcommitted.tipWork⟩

/-! ## A call -/

omit [Network] in
theorem storeFork_tip : (node.storeFork faults block newTip).1.tip = node.tip := by
  have hstep : ∀ work, (node.tryStoreForkBlock faults block work).1.tip = node.tip := by
    intro work
    unfold Node.tryStoreForkBlock Node.admitForkBlock
    dsimp only
    repeat' split
    all_goals rfl
  unfold Node.storeFork
  split
  · rfl
  split
  · rfl
  split
  · rfl
  split <;> rename_i heq <;> exact (congrArg (fun x => x.1.tip) heq).symm.trans (hstep _)

/-- A call leaves the tip, or replaces it by a better one. -/
theorem run_tip (hrun : c.run node = some (node', r)) :
    node'.tip = node.tip ∨ isBetterChain node'.tip node.tip = true := by
  unfold BlockCall.run Node.processBlockInner at hrun
  split at hrun
  · rename_i node₁ r₁ hcheck
    cases hrun
    exact .inl (checkNewBlock_spec hcheck).1.tip
  rename_i node₁ newTip hcheck
  have htip : node₁.tip = node.tip := (checkNewBlock_spec hcheck).1.tip
  split at hrun
  · have hstored := congrArg (fun x => x.1.tip) (Option.some.inj hrun)
    exact .inl (hstored.symm.trans (storeFork_tip.trans htip))
  rename_i hbetter
  rw [Bool.not_eq_true', Bool.not_eq_false, htip] at hbetter
  split at hrun
  · rcases extendTip_cases hrun with hdisk | ⟨u, spent, mutations, s', -, rfl⟩
    · exact .inl (hdisk.tip.trans htip)
    · exact .inr hbetter
  · rcases reorg_cases hrun with hdisk | ⟨u, applied, olds, forkPoint, -, hfinish⟩
    · exact .inl (hdisk.tip.trans htip)
    rcases finishReorg_cases hfinish with hdisk | ⟨work, s', -, -, rfl⟩
    · exact .inl (hdisk.tip.trans htip)
    · exact .inr hbetter

/-- A call leaves the chain, or its block is the last one of a new chain. -/
theorem TipInv.call (h : TipInv known chain node) (hids : BlockIdsDistinct known)
    (hblock : c.block ∈ known) (hrun : c.run node = some (node', r)) :
    node'.tip = node.tip ∧ TipInv known chain node' ∨
      ∃ parent below, TipInv known (c.block :: parent :: below) node' := by
  unfold BlockCall.run Node.processBlockInner at hrun
  split at hrun
  · rename_i node₁ r₁ hcheck
    cases hrun
    obtain ⟨hsame, -⟩ := checkNewBlock_spec hcheck
    exact .inl ⟨hsame.tip, h.congr ⟨hsame.storage, hsame.tip⟩⟩
  rename_i node₁ newTip hcheck
  obtain ⟨hsame, hchecked⟩ := checkNewBlock_spec hcheck
  have h₁ : TipInv known chain node₁ := h.congr ⟨hsame.storage, hsame.tip⟩
  have htip : node₁.tip = node.tip := hsame.tip
  have hchecked := hchecked newTip rfl
  have hkept : SameDisk node₁ node' → node'.tip = node.tip ∧ TipInv known chain node' :=
    fun hdisk => ⟨hdisk.tip.trans htip, h₁.congr hdisk⟩
  split at hrun
  · have hstep := h₁.db.storeFork hids c.faults newTip hblock
    have hworks := h₁.works.storeFork c.faults (h₁.candidate hids hblock hchecked)
    rw [Option.some.inj hrun] at hstep hworks
    exact .inl ⟨hstep.tip.trans htip, hstep.storage.db h₁.db, h₁.ids, hworks, hstep.tip ▸ h₁.tipId,
      hstep.tip ▸ h₁.tipHeight, hstep.tip ▸ h₁.tipWork⟩
  split at hrun
  · rename_i hprev
    exact (h₁.extendTip hids hblock hchecked hprev hrun).imp_left hkept
  · exact (h₁.reorg hids hblock hchecked hrun).imp_left hkept

end Steps

/-! ## Runs -/

section Runs

variable [Network] {genesis : Block} {start node node' : Node} {calls : List BlockCall}

theorem tipInv_start (h : Started genesis start) (hgenesis : genesis ∈ known) : TipInv known [genesis] start := by
  obtain ⟨htxs, hheight⟩ := genesisBlock_ok h.block
  obtain ⟨mutations, -, hcommit⟩ := h.commit
  have hhas : HasIds genesis := by
    intro tx htx
    rw [htxs, List.mem_singleton] at htx
    obtain ⟨bytes, hser, -⟩ := genesisCoinbase_serialize
    exact htx ▸ txId_of_serialize hser
  have hchained : Chained [genesis] :=
    .cons .nil (by rw [hheight]; rfl) (genesisBlock_prev h.block)
  have hknown : ∀ b ∈ [genesis], b ∈ known := List.forall_mem_singleton.mpr hgenesis
  have hswitch := switch_genesis hcommit rfl hhas
  have hwork : chainWork [genesis] = workFromTarget genesis.header.difficultyTarget :=
    addWork_noWork _
  refine ⟨⟨hswitch.tables canonicalTables_empty hchained (List.nodup_singleton _),
    hswitch.storedFrom storedFrom_empty hknown⟩, List.forall_mem_singleton.mpr hhas, ?_, ?_, ?_, ?_⟩
  · obtain ⟨utxos, spentBy, -, -, hstorage⟩ := commitGenesisAtomic_ok hcommit
    rw [hstorage]
    refine WorkRows.insertAll (m := Storage.empty.work)
      [(genesis.header.blockId, workFromTarget genesis.header.difficultyTarget)]
      (fun id work hrow => absurd hrow (by simp [Storage.empty]))
      (List.forall_mem_singleton.mpr ⟨genesis.header, rfl, .first ⟨genesis, hgenesis, rfl⟩ hheight⟩)
  · rw [h.tip]
    rfl
  · rw [h.tip]
    rfl
  · rw [h.tip, hwork]
    rfl

theorem tipInv_run (hstart : Started genesis start) (hids : BlockIdsDistinct known)
    (hrun : CallRun start calls node) (hknown : ∀ b ∈ offered genesis calls, b ∈ known) :
    ∃ chain, TipInv known chain node := by
  induction hrun with
  | start => exact ⟨[genesis], tipInv_start hstart (hknown genesis List.mem_cons_self)⟩
  | @call calls c node node' r hrun hcall ih =>
    obtain ⟨hgenesis, hblock, hcalls⟩ : genesis ∈ known ∧ c.block ∈ known ∧
        ∀ b ∈ calls.map BlockCall.block, b ∈ known := by
      simpa [offered] using hknown
    obtain ⟨chain, hinv⟩ := ih (List.forall_mem_cons.mpr ⟨hgenesis, hcalls⟩)
    rcases hinv.call hids hblock hcall with ⟨-, hinv'⟩ | ⟨parent, below, hinv'⟩
    · exact ⟨chain, hinv'⟩
    · exact ⟨c.block :: parent :: below, hinv'⟩

/-- Calls leave the tip or replace it by a better one. -/
theorem callRun_tip (h : CallRun node calls node') :
    node'.tip = node.tip ∨ isBetterChain node'.tip node.tip = true := by
  induction h with
  | start => exact .inl rfl
  | call _ hcall ih =>
    rcases run_tip hcall with htip | hbetter
    · rwa [htip]
    · rcases ih with hsame | hbetter'
      · exact .inr (hsame ▸ hbetter)
      · exact .inr (isBetterChain_trans hbetter hbetter')

/-- The extension of the tip does not read the cache of difficulties. -/
theorem extendTip_cache (node : Node) (cache : List ((Hash256 × UInt64) × Hash256))
    (faults : Faults) (block : Block) (newTip : ChainTip) :
    { node with difficultyCache := cache }.extendTip faults block newTip =
      (node.extendTip faults block newTip).map fun x =>
        ({ x.1 with difficultyCache := cache }, x.2) := by
  unfold Node.extendTip Node.revertTip
  dsimp only
  repeat' split
  all_goals simp_all

omit [Crypto] [Network] in
/-- A node that has just started accepts a block with a coinbase. -/
theorem sample_extends : let _ := Crypto.ofHash sampleHash
    let _ := testNetwork
    ∃ (genesis : Block) (start node' : Node) (c : BlockCall), Started genesis start ∧
      c.run start = some (node', .ok .accepted) ∧ isBetterChain node'.tip start.tip = true ∧
      BlockIdsDistinct (offered genesis [c]) ∧ c.block.header.height = 1 ∧
      c.block.transactions = [rewardCoinbase 1] := by
  intro _ _
  obtain ⟨genesis, start, hstart, hassume, hcache⟩ := exists_started
  obtain ⟨-, hheight⟩ := genesisBlock_ok hstart.block
  obtain ⟨htarget, -⟩ := genesisBlock_header hstart.block
  have hdigests : digestsApart [genesisCoinbase, rewardCoinbase 1] = true := by decide
  have hhash := hashesDistinct_of_digestsApart hdigests
  have hid : (rewardCoinbase 1).txId = .ok (digestOf (rewardCoinbase 1)) :=
    txId_eq_digestOf (by decide)
  have hfree := started_free hstart hhash (List.mem_singleton_self _) (by decide)
  have hblock :
      (childBlock genesis.header [rewardCoinbase 1] 0 Hash256.zero).header.height = 1 := by
    show genesis.header.height + 1 = 1
    rw [hheight]
    rfl
  obtain ⟨u, mutations, happly⟩ := coinbaseBlock_accepted hid hfree
    (show validateCoinbase _ (childBlock genesis.header [rewardCoinbase 1] 0
      Hash256.zero).header.height _ = _ by rw [hblock]; exact rewardCoinbase_valid (by decide))
  obtain ⟨cache, storage, hcheck, hbetter, hextend⟩ := sample_accepts hstart hassume hcache
    (by decide) hdigests (childBlock_applies happly)
  have hprev : (childBlock genesis.header [rewardCoinbase 1] 0 u.stateRoot).header.prevBlockId =
      start.tip.blockId := by
    rw [hstart.tip]
    rfl
  generalize hblock' : childBlock genesis.header [rewardCoinbase 1] 0 u.stateRoot = block at *
  generalize ChainTip.new block.header.blockId 1 genesisTarget (workFromTarget genesisTarget) =
    newTip at *
  have hextend' := extendTip_cache start cache noFaults block newTip
  rw [hextend, Option.map_some] at hextend'
  refine ⟨genesis, start, _, ⟨block, none, false, noFaults, start.reorgTriggers⟩, hstart,
    Eq.trans ?_ hextend', hbetter, ?_, ?_, ?_⟩
  · show start.processBlockInner noFaults block none false = _
    unfold Node.processBlockInner
    rw [hcheck]
    simp only [hbetter, hprev, Bool.not_true, Bool.false_eq_true, if_false, if_true]
  · rw [← hblock']
    exact sampleIds_distinct genesis _ _ (genesisBlock_prev hstart.block) htarget
  · rw [← hblock']
    exact hblock
  · rw [← hblock']
    rfl

/-- `is_better_chain` is a strict weak order. After any calls, a call that changes the tip replaces
it by one that `is_better_chain` prefers, no later call returns to the tip that was replaced, and
the stored work of the new tip is that of its parent plus its own, or `2 ^ 256 - 1` where the sum
is larger. -/
theorem tip_only_improves {c : BlockCall} {r : ProcessResult} (hstart : Started genesis start)
    (hrun : CallRun start calls node) (hcall : c.run node = some (node', r))
    (hids : BlockIdsDistinct (offered genesis (c :: calls))) :
    IsStrictWeakOrder ChainTip (fun a b => isBetterChain a b = true) ∧
      (node'.tip ≠ node.tip →
        isBetterChain node'.tip node.tip = true ∧
        (∀ later calls', CallRun node' calls' later → later.tip ≠ node.tip) ∧
        node'.tip.blockId = c.block.header.blockId ∧
        ∃ parentWork work,
          node'.storage.work.lookup c.block.header.prevBlockId = some parentWork ∧
          node'.storage.work.lookup c.block.header.blockId = some work ∧
          node'.tip.cumulativeWork = work ∧ beNat work.toList =
            min (beNat parentWork.toList +
              beNat (workFromTarget c.block.header.difficultyTarget).toList) (2 ^ 256 - 1)) := by
  refine ⟨isBetterChain_strictWeakOrder, fun hchange => ?_⟩
  have hbetter := (run_tip hcall).resolve_left hchange
  refine ⟨hbetter, fun later calls' hlater hsame => ?_, ?_⟩
  · -- the later tip is at least as good as the new one
    rcases callRun_tip hlater with htip | hbetter'
    · exact hchange (htip.symm.trans hsame)
    · have hback := isBetterChain_trans hbetter' hbetter
      rw [hsame] at hback
      exact isBetterChain_irrefl _ hback
  have hknown : ∀ b ∈ offered genesis calls, b ∈ offered genesis (c :: calls) :=
    List.cons_subset_cons _ (List.subset_cons_self _ _)
  obtain ⟨chain, hinv⟩ := tipInv_run hstart hids hrun hknown
  have hblock : c.block ∈ offered genesis (c :: calls) :=
    List.mem_cons_of_mem _ List.mem_cons_self
  rcases hinv.call hids hblock hcall with ⟨hsame, -⟩ | ⟨parent, below, hinv'⟩
  · exact absurd hsame hchange
  have htables := hinv'.db.tables
  obtain _ | ⟨_, _, hprev⟩ := htables.chained
  have hparent := htables.work parent below (List.suffix_cons _ _)
  have hwork := htables.work c.block (parent :: below) List.suffix_rfl
  refine ⟨hinv'.tipId, _, _, ?_, hwork, hinv'.tipWork, addWork_value _ _⟩
  rw [hprev]
  exact hparent

omit [Crypto] [Network] in
/-- The tip changes in a node that has just started and gets a block. -/
theorem tip_only_improves_extended : let _ := Crypto.ofHash sampleHash
    let _ := testNetwork
    ∃ (genesis : Block) (start node' : Node) (c : BlockCall), Started genesis start ∧
      c.run start = some (node', .ok .accepted) ∧ node'.tip ≠ start.tip ∧
      ∃ parentWork work, node'.storage.work.lookup c.block.header.prevBlockId = some parentWork ∧
        node'.storage.work.lookup c.block.header.blockId = some work ∧ beNat work.toList =
          min (beNat parentWork.toList +
            beNat (workFromTarget c.block.header.difficultyTarget).toList) (2 ^ 256 - 1) := by
  intro _ _
  obtain ⟨genesis, start, node', c, hstart, hcall, hbetter, hids, -, -⟩ := sample_extends
  have hchange : node'.tip ≠ start.tip := fun hsame => isBetterChain_irrefl _ (hsame ▸ hbetter)
  obtain ⟨-, himproves⟩ := tip_only_improves hstart .start hcall hids
  obtain ⟨-, -, -, parentWork, work, hparent, hwork, -, hvalue⟩ := himproves hchange
  exact ⟨genesis, start, node', c, hstart, hcall, hchange, parentWork, work, hparent, hwork, hvalue⟩

/-! ## Nodes at the same tip -/

end Runs

end Exfer.Proof
