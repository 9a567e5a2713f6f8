import Exfer.Proof.Node.Accept
import Exfer.Proof.Node.Run

/-!
# Blocks on top of the first one

A node that has just started accepts a block on top of the first one whose transactions apply
(`started_accepts`). What applies there is a coinbase, or a coinbase and a transaction that spends the
output of the first block (`spendBlock_applies`), since that output is live (`started_live`). With the
primitives for concrete runs, `spendTx` is such a transaction.
-/

namespace Exfer.Proof

open Lib Impl Spec UtxoSet

variable [Crypto]

/-! ## The output of the first block -/

/-- The outpoint of the output of the first block. -/
def genesisOutpoint : OutPoint :=
  ⟨digestOf genesisCoinbase, 0⟩

/-- The entry of that output. -/
def genesisEntry : UtxoEntry where
  output := ⟨10000000000, List.replicate 32 0, none, none⟩
  height := 0
  isCoinbase := true

variable [Network] {genesis : Block} {start : Node}

theorem started_live (h : Started genesis start) : start.utxoSet.get genesisOutpoint = some genesisEntry := by
  obtain ⟨mutations, happly, -⟩ := h.commit
  rw [(genesisBlock_ok h.block).1] at happly
  obtain ⟨txId, removed, hid, -, hfits, hutxos, -⟩ := applyTransaction_ok (applyGenesis_ok happly)
  show start.utxoSet.utxos.lookup _ = _
  rw [hutxos, genesisOutpoint, digestOf_eq hid]
  exact hfits.lookup_added (List.mem_singleton.mpr rfl)

/-- The outputs of another transaction are free after the first block. -/
theorem started_free (h : Started genesis start) (hhash : HashesDistinct (genesisCoinbase :: txs))
    (htx : tx ∈ txs) (hother : tx.signingBytes ≠ genesisCoinbase.signingBytes) :
    ∀ op ∈ outputsOf tx, start.utxoSet.utxos.lookup op = none := by
  obtain ⟨mutations, happly, -⟩ := h.commit
  rw [(genesisBlock_ok h.block).1] at happly
  have hledger := ledger_genesis (hashesDistinct_mono hhash fun tx htx =>
    List.mem_cons.mpr (.inl (List.mem_singleton.mp htx))) (applyGenesis_ok happly)
  exact hledger.free_of_other hhash htx hother

/-! ## A block that spends it -/

section Spend

variable {s : UtxoSet} {coinbase : Transaction}

omit [Network] in
theorem coinbase_applies (height : UInt64) (hid : coinbase.txId = .ok txId)
    (hcoinbase : coinbase.isCoinbase = true) (hfree : ∀ op ∈ outputsOf coinbase, s.utxos.lookup op = none) :
    ∃ s' mutations, s.applyTransaction coinbase height = (s', .ok mutations) ∧
      ∀ op, op ∉ outputsOf coinbase → s'.get op = s.get op := by
  have hspends : spends coinbase = [] := by rw [spends, if_pos hcoinbase]
  obtain ⟨s', mutations, happly⟩ := applyTransaction_of_free (s := s) height hid
    (by rw [hspends]; exact List.nodup_nil) (by rw [hspends]; exact fun _ h => absurd h List.not_mem_nil)
    fun op hop _ => hfree op ((mem_outputsOf hid _).mpr hop)
  refine ⟨s', mutations, happly, fun op hop => ?_⟩
  refine ((applyTransaction_mutates happly).lookup op ?_).trans (if_neg ?_)
  · simpa [outputsOfAll] using hop
  · simp [hspends]

/-- A block with one transaction after the coinbase applies where the transaction is valid, the
outputs of both are free and the coinbase claims the fee. -/
theorem spendBlock_applies (hid : coinbase.txId = .ok txId) (hid' : tx.txId = .ok txId')
    (hne : txId ≠ txId') (hinputs : tx.inputs = [i]) (hnormal : tx.isCoinbase = false)
    (hentry : s.get i.outPoint = some entry) (hbytes : undoBytes entry ≤ maxSpentUtxosSize)
    (hfree : ∀ op ∈ outputsOf coinbase, s.utxos.lookup op = none)
    (hfree' : ∀ op ∈ outputsOf tx, s.utxos.lookup op = none)
    (hvalid : ∀ s' : UtxoSet, s'.get i.outPoint = some entry →
      validateTransaction tx s' header.height = .ok (fee, scriptCost, scriptValidationCost))
    (hsum : blockReward header.height + fee ≤ u64Max)
    (hreward : validateCoinbase coinbase header.height (blockReward header.height + fee) = .ok ()) :
    ∃ s' mutations, applyBlock header coinbase [tx] s = (s', .ok (fee, mutations)) := by
  obtain ⟨s₁, mutations₁, happly₁, hkeep⟩ := coinbase_applies header.height hid
    (validateCoinbase_isCoinbase hreward) hfree
  have hlive : s₁.get i.outPoint = some entry := by
    rw [hkeep, hentry]
    intro hmem
    rw [UtxoSet.get, hfree _ hmem] at hentry
    cases hentry
  have hapart : ∀ op ∈ outputsOf tx, op ∉ outputsOf coinbase := by
    rintro op ⟨x, hx, idx, -, rfl⟩ ⟨y, hy, idx', -, heq⟩
    obtain rfl := Except.ok.inj (hid.symm.trans hy)
    obtain rfl := Except.ok.inj (hid'.symm.trans hx)
    exact hne (congrArg OutPoint.txId heq).symm
  have hspends : spends tx = [i.outPoint] := by
    rw [spends, if_neg (by rw [hnormal]; exact Bool.false_ne_true), hinputs, List.map_singleton]
  obtain ⟨s₂, mutations₂, happly₂⟩ := applyTransaction_of_free (s := s₁) header.height hid'
    (by rw [hspends]; exact List.nodup_singleton _)
    (by rw [hspends]; exact fun op hop => ⟨entry, List.mem_singleton.mp hop ▸ hlive⟩)
    fun op hop _ => by
      have hmem := (mem_outputsOf hid' header.height).mpr hop
      exact (hkeep op (hapart op hmem)).trans (hfree' op hmem)
  have hsnapshot : snapshotInputs s₁ [] 0 tx.inputs =
      ([(i.outPoint, entry)], undoBytes entry, true) := by
    rw [hinputs, snapshotInputs, hlive]
    simp only [Nat.zero_add, List.nil_append]
    rw [if_neg (Nat.not_lt.mpr hbytes), snapshotInputs]
  have hcheck : checkReward coinbase header.height fee = .ok () := by
    rw [checkReward, if_neg (Nat.not_lt.mpr (le_trans (Nat.le_add_left _ _) hsum)),
      if_neg (Nat.not_lt.mpr hsum), hreward]
  refine ⟨s₂, mutations₁ ++ mutations₂, ?_⟩
  unfold applyBlock applyCoinbase
  rw [happly₁]
  simp only [applyRest, applyNext, hvalid s₁ hlive, hsnapshot, happly₂, Nat.zero_add, hcheck]

/-- The application of a block reads of its header only the height, so it does not depend on the state
root. -/
theorem childBlock_applies (h : applyBlock (childBlock parent (coinbase :: rest) 0 root).header coinbase rest s =
      (u, .ok r)) (stateRoot : Hash256) : validateAndApplyBlockTransactionsAtomic
      (childBlock parent (coinbase :: rest) 0 stateRoot) s = some (u, .ok r) := by
  rw [← h]
  rfl

end Spend

/-! ## Acceptance -/

omit [Crypto] [Network] in
theorem isBetterChain_of_lt (h : current.cumulativeWork.toList < candidate.cumulativeWork.toList) :
    isBetterChain candidate current = true := by
  rw [isBetterChain, if_pos h]

section Accept

/-- A node that has just started accepts a block on top of the first one whose transactions are
listed by the rules and apply, if the block has enough work. -/
theorem started_accepts (h : Started genesis start) (hassume : start.assumeValid = false)
    (hcache : start.difficultyCache = [])
    (hd : Distinct [genesis, childBlock genesis.header txs 0 u.stateRoot] (genesisCoinbase :: txs))
    (hpow : ∀ header : BlockHeader, header.difficultyTarget = genesisTarget →
      verifyPow header = some true) (hcoinbases : checkCoinbases txs = .ok ()) (hids : txs.mapM txIdOf = .ok txIds)
    (hnodup : txIds.Nodup) (hspends : (blockSpends txs).Nodup)
    (hser : Transaction.concatSerialized Transaction.serialize txs = .ok bytes)
    (hlen : bytes.length + 160 ≤ maxBlockSize) (happly : validateAndApplyBlockTransactionsAtomic
      (childBlock genesis.header txs 0 u.stateRoot) start.utxoSet = some (u, .ok r)) :
    let block := childBlock genesis.header txs 0 u.stateRoot
    let newTip := ChainTip.new block.header.blockId 1 genesisTarget (workFromTarget genesisTarget)
    ∃ cache storage, start.checkNewBlock noFaults block none false =
        ({ start with difficultyCache := cache }, .ok newTip) ∧
      start.extendTip noFaults block newTip =
        some ({ start with storage, utxoSet := u, tip := newTip }, .ok .accepted) := by
  intro block newTip
  obtain ⟨-, hheight⟩ := genesisBlock_ok h.block
  obtain ⟨htarget, htime⟩ := genesisBlock_header h.block
  have hprev := genesisBlock_prev h.block
  have hinv := nodeInv_start h hd List.mem_cons_self
  have hblock : block.header.height = 1 := by
    show genesis.header.height + 1 = 1
    rw [hheight]
    rfl
  have hvalid : validateBlockHeader block (some genesis.header) [genesis.header.timestamp]
      genesis.header.difficultyTarget none = .ok () :=
    childBlock_valid hcoinbases hids hnodup hspends hser hlen (by rw [hheight]; decide) htime
      (hpow _ htarget)
  obtain ⟨coinbase, rest, hfacts⟩ := headerFacts_of_ok hvalid
  have hmem : genesis ∈ [genesis] := List.mem_singleton_self _
  have hheader := hinv.db.tables.header genesis hmem
  obtain ⟨bytes', hserialize, -⟩ := size_of_valid hvalid
  obtain ⟨mutations, -, hcommit⟩ := h.commit
  obtain ⟨utxos, spentBy, -, -, hstorage⟩ := commitGenesisAtomic_ok hcommit
  have hnew : start.storage.blocks.lookup block.header.blockId = none := by
    rw [hstorage, Map.lookup_insert_eq, if_neg]
    · exact Finmap.lookup_empty _
    · intro heq
      have hsame := hd.ids.ids block (by simp [block]) genesis List.mem_cons_self heq
      rw [hsame, hheight] at hblock
      exact absurd hblock (by decide)
  have htimes : start.storage.getAncestorTimestamps (fun _ => none) 0 mtpWindow
      block.header.prevBlockId = .ok [genesis.header.timestamp] := by
    show start.storage.getAncestorTimestamps (fun _ => none) 0 mtpWindow genesis.header.blockId = _
    rw [mtpWindow, Storage.getAncestorTimestamps]
    refine bind_eq_ok.mpr ⟨some genesis.header, answer_eq_ok.mpr ⟨rfl, hheader⟩, ?_⟩
    simp only [hprev, if_true]
    rfl
  have hwork : start.storage.work.lookup block.header.prevBlockId =
      some (workFromTarget genesisTarget) := by
    rw [hstorage, ← htarget]
    exact Finmap.lookup_insert _
  obtain ⟨cache, hcheck⟩ := checkNewBlock_passes hnew (by rw [hblock]; decide) hheader htimes
    (by rw [hcache]; rfl) hvalid hassume hwork
  obtain ⟨storage, hextend⟩ := hinv.accepts hd (List.mem_cons_of_mem _ (List.mem_singleton_self _))
    hfacts happly rfl ⟨bytes', hserialize⟩ newTip
  refine ⟨cache, storage, ?_, hextend⟩
  rw [hcheck, hblock]
  show (_, Except.ok (ChainTip.new _ _ genesis.header.difficultyTarget _)) = _
  rw [htarget]

end Accept

/-! ## Concrete blocks -/

/-- The rules for the transactions of a block that concern the list, as a computation. -/
def listed (txs : List Transaction) : Bool :=
  (checkCoinbases txs).toOption.isSome &&
    (match txs.mapM txIdOf with
    | .ok txIds => decide txIds.Nodup
    | .error _ => false) &&
    decide (blockSpends txs).Nodup &&
    match Transaction.concatSerialized Transaction.serialize txs with
    | .ok bytes => decide (bytes.length + 160 ≤ maxBlockSize)
    | .error _ => false

/-- The main network, with outputs of coinbases that mature at once and a signature domain of
zeros. -/
@[reducible] def testNetwork : Network :=
  ⟨false, 1, Hash256.zero, .inr rfl⟩

/-- The work of a block at the first target. -/
def firstWork : Work :=
  Vector.ofFn fun i : Fin 32 => if i = 30 then 1 else 0

/-- A transaction that spends the output of the first block. -/
def spendTx : Transaction where
  inputs := [⟨digestOf genesisCoinbase, 0⟩]
  outputs := [⟨5000000000, List.replicate 32 0, none, none⟩]
  witnesses := [⟨List.replicate 96 0, none⟩]

/-- The coinbase of a block at height 1 that claims the fee of `spendTx`. -/
def feeCoinbase : Transaction :=
  { rewardCoinbase 1 with
    outputs := [⟨UInt64.ofNat (blockReward 1 + 5000000000), List.replicate 32 0, none, none⟩] }

section

omit [Crypto] [Network]

theorem spendTx_valid : let _ := Crypto.ofHash sampleHash
    let _ := testNetwork
    ∀ s : UtxoSet, s.get genesisOutpoint = some genesisEntry →
      validateTransaction spendTx s 1 = .ok (5000000000, 5016, 0) ∧
        validateTransaction spendTx s 2 = .ok (5000000000, 5016, 0) := by
  intro _ _ s hs
  let s' : UtxoSet := { UtxoSet.new with utxos := Finmap.singleton genesisOutpoint genesisEntry }
  have hsame : ∀ op ∈ spendTx.inputs.map TxInput.outPoint, s.get op = s'.get op := by
    intro op hop
    rw [List.mem_singleton.mp hop]
    show s.get genesisOutpoint = s'.get genesisOutpoint
    rw [hs]
    simp [s', UtxoSet.get]
  rw [validateTransaction_congr hsame, validateTransaction_congr hsame]
  constructor <;> decide +kernel

/-- The ids of the first block and of a block on top of it differ. -/
theorem sampleIds_distinct : let _ := Crypto.ofHash sampleHash
    let _ := testNetwork
    ∀ (genesis : Block) (txs : List Transaction) (stateRoot : Hash256),
      genesis.header.prevBlockId = Hash256.zero → genesis.header.difficultyTarget = genesisTarget →
        BlockIdsDistinct [genesis, childBlock genesis.header txs 0 stateRoot] := by
  intro _ _ genesis txs stateRoot hprev htarget
  have hfirst : genesis.header.blockId[(12 : Fin 32)] = 1 := by
    refine (sampleId_12 genesis.header).trans ?_
    rw [hprev, htarget]
    decide
  have hsecond : (childBlock genesis.header txs 0 stateRoot).header.blockId[(12 : Fin 32)] = 2 := by
    refine (sampleId_12 _).trans ?_
    show genesis.header.blockId[(12 : Fin 32)] + genesis.header.difficultyTarget[(0 : Fin 32)] = 2
    rw [hfirst, htarget]
    decide
  refine ⟨fun block hblock block' hblock' heq => ?_, fun block hblock heq => ?_⟩
  · rcases List.mem_pair.mp hblock with rfl | rfl <;> rcases List.mem_pair.mp hblock' with rfl | rfl
    · rfl
    · rw [heq, hsecond] at hfirst
      exact absurd hfirst (by decide)
    · rw [heq, hfirst] at hsecond
      exact absurd hsecond (by decide)
    · rfl
  · rcases List.mem_pair.mp hblock with rfl | rfl
    · rw [heq] at hfirst
      exact absurd hfirst (by decide)
    · rw [heq] at hsecond
      exact absurd hsecond (by decide)

/-- A node that has just started accepts a block with the given transactions, if they apply. -/
theorem sample_accepts : let _ := Crypto.ofHash sampleHash
    let _ := testNetwork
    ∀ {genesis : Block} {start : Node} {txs : List Transaction} {u : UtxoSet}
      {r : Nat × List UtxoMutation}, Started genesis start → start.assumeValid = false →
      start.difficultyCache = [] → listed txs = true → digestsApart (genesisCoinbase :: txs) = true →
      (∀ stateRoot, validateAndApplyBlockTransactionsAtomic
        (childBlock genesis.header txs 0 stateRoot) start.utxoSet = some (u, .ok r)) →
      let block := childBlock genesis.header txs 0 u.stateRoot
      let newTip := ChainTip.new block.header.blockId 1 genesisTarget (workFromTarget genesisTarget)
      ∃ cache storage, start.checkNewBlock noFaults block none false =
          ({ start with difficultyCache := cache }, .ok newTip) ∧
        isBetterChain newTip start.tip = true ∧
        start.extendTip noFaults block newTip =
          some ({ start with storage, utxoSet := u, tip := newTip }, .ok .accepted) := by
  intro _ _ genesis start txs u r hstart hassume hcache hlisted hdigests happly block newTip
  obtain ⟨htarget, -⟩ := genesisBlock_header hstart.block
  obtain ⟨htxs, -⟩ := genesisBlock_ok hstart.block
  have hd : Distinct [genesis, block] (genesisCoinbase :: txs) := by
    refine ⟨sampleIds_distinct genesis txs _ (genesisBlock_prev hstart.block) htarget,
      hashesDistinct_of_digestsApart hdigests, fun b hb tx htx => ?_⟩
    rcases List.mem_pair.mp hb with rfl | rfl
    · rw [htxs] at htx
      exact List.mem_cons.mpr (.inl (List.mem_singleton.mp htx))
    · exact List.mem_cons_of_mem _ htx
  simp only [listed, Bool.and_eq_true, decide_eq_true_eq] at hlisted
  obtain ⟨⟨⟨hcoinbases, hids⟩, hspends⟩, hbytes⟩ := hlisted
  split at hids
  case h_2 => cases hids
  rename_i txIds htxIds
  split at hbytes
  case h_2 => cases hbytes
  rename_i bytes hser
  obtain ⟨⟨⟩, hcoinbases⟩ := Option.isSome_iff_exists.mp hcoinbases
  obtain ⟨cache, storage, hcheck, hextend⟩ := started_accepts hstart hassume hcache hd
    (verifyPow_ofHash sampleHash testNetwork) (toOption_eq_some.mp hcoinbases) htxIds
    (of_decide_eq_true hids) hspends hser (of_decide_eq_true hbytes) (happly _)
  refine ⟨cache, storage, hcheck, ?_, hextend⟩
  have hwork : workFromTarget genesisTarget = firstWork := by decide +kernel
  refine isBetterChain_of_lt ?_
  rw [hstart.tip, htarget]
  simp only [ChainTip.genesis, newTip, ChainTip.new, hwork]
  decide

end

end Exfer.Proof
