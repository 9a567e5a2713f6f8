import Exfer.Proof.Block.Ledger

/-!
# Blocks with a coinbase only

`nextBlock` puts a coinbase on top of a parent. Such a block passes the header rules
(`nextBlock_valid`, a case of `childBlock_valid`), the first block exists under any hash function (`exists_genesis`), and a block
that pays just the reward is accepted wherever its output is free (`rewardBlock_accepted`).
`exists_rewardChain` is a chain of two such blocks under a concrete hash.
-/

namespace Exfer.Proof

open Lib Impl Spec UtxoSet

variable [Crypto] {s : UtxoSet} {txId : Hash256} {tx : Transaction} {txs : List Transaction}

/-! ## Headers -/

/-- A block on top of a parent, one second later and at the same target. -/
def childBlock (parent : BlockHeader) (txs : List Transaction) (nonce : UInt64)
    (stateRoot : Hash256) : Block where
  header :=
    { version := version, height := parent.height + 1, prevBlockId := parent.blockId
      timestamp := parent.timestamp + 1, difficultyTarget := parent.difficultyTarget, nonce
      txRoot := ((computeTxRoot txs).toOption).getD Hash256.zero, stateRoot }
  transactions := txs

/-- A block with one transaction on top of a parent, one second later and at the same target. -/
def nextBlock (parent : BlockHeader) (coinbase : Transaction) : Block where
  header :=
    { version := version, height := parent.height + 1, prevBlockId := parent.blockId
      timestamp := parent.timestamp + 1, difficultyTarget := parent.difficultyTarget, nonce := 0
      txRoot := (coinbase.wtxId.toOption).getD Hash256.zero, stateRoot := Hash256.zero }
  transactions := [coinbase]

section

variable {parent : BlockHeader} {txs : List Transaction} {nonce : UInt64} {stateRoot : Hash256}
  {bytes : List UInt8}

theorem childBlock_parent (hheight : parent.height.toNat < 2 ^ 32) :
    checkParent (childBlock parent txs nonce stateRoot).header (some parent) = .ok () := by
  have hnext : (childBlock parent txs nonce stateRoot).header.height.toNat =
      parent.height.toNat + 1 := by
    rw [childBlock, UInt64.toNat_add]
    simp
    omega
  have hexpected : checkedAddU64 parent.height.toNat 1 = .ok (parent.height.toNat + 1) := by
    rw [checkedAddU64, if_neg (by simp only [u64Max]; omega)]
  refine bind_eq_ok.mpr ⟨_, hexpected, bind_eq_ok.mpr ⟨(), ?_, ?_⟩⟩
  · exact failIf_eq_ok.mpr (not_not.mpr hnext)
  · exact failIf_eq_ok.mpr (not_not.mpr rfl)

theorem childBlock_timestamp (htime : parent.timestamp.toNat < 2 ^ 32) :
    checkTimestamp (childBlock parent txs nonce stateRoot).header (some parent) [parent.timestamp]
      none = .ok () := by
  have hnext : (childBlock parent txs nonce stateRoot).header.timestamp.toNat =
      parent.timestamp.toNat + 1 := by
    rw [childBlock, UInt64.toNat_add]
    simp
    omega
  have hgap : checkedAddU64 parent.timestamp.toNat maxTimestampGap =
      .ok (parent.timestamp.toNat + maxTimestampGap) := by
    rw [checkedAddU64, if_neg (by simp only [u64Max, maxTimestampGap]; omega)]
  refine failIf_then (fun h => ?_) (bind_eq_ok.mpr ⟨(), rfl, ?_⟩)
  · have hle : (childBlock parent txs nonce stateRoot).header.timestamp ≤ parent.timestamp := by
      simpa [medianTimePast] using h.2
    rw [UInt64.le_iff_toNat_le, hnext] at hle
    omega
  · refine forM_eq_ok.mpr fun p hp => ?_
    cases List.mem_singleton.mp hp
    refine bind_eq_ok.mpr ⟨_, hgap, failIf_eq_ok.mpr ?_⟩
    rw [hnext, maxTimestampGap]
    omega

section

variable (hser : Transaction.concatSerialized Transaction.serialize txs = .ok bytes)
include hser

theorem childBlock_size (hlen : bytes.length + 160 ≤ maxBlockSize) :
    checkBlockSize (childBlock parent txs nonce stateRoot) = .ok () := by
  have hblock : (childBlock parent txs nonce stateRoot).serialize = .ok
      ((childBlock parent txs nonce stateRoot).header.serialize ++ leBytes 4 txs.length ++ bytes) := by
    rw [Block.serialize, childBlock, hser]
    rfl
  rw [checkBlockSize, hblock]
  refine failIf_eq_ok.mpr ?_
  simp [BlockHeader.serialize]
  omega

theorem childBlock_txRoot : txRootOf txs = .ok (childBlock parent txs nonce stateRoot).header.txRoot := by
  have hids : ∃ ids, (txs.mapM fun tx => tx.wtxId) = .ok ids := by
    refine exists_mapM fun tx htx => ?_
    obtain ⟨b, hb⟩ := concatSerialized_ok hser tx htx
    exact ⟨_, by rw [Transaction.wtxId, hb]; rfl⟩
  obtain ⟨ids, hids⟩ := hids
  have hroot : computeTxRoot txs = .ok (merkleRoot dsTxroot ids) := by
    rw [computeTxRoot, hids]
    rfl
  rw [txRootOf, childBlock, hroot]
  rfl

end

/-- Such a block passes the header rules where its transactions do. -/
theorem childBlock_valid (hcoinbases : checkCoinbases txs = .ok ())
    (hids : txs.mapM txIdOf = .ok txIds) (hdistinct : txIds.Nodup) (hspends : (blockSpends txs).Nodup)
    (hser : Transaction.concatSerialized Transaction.serialize txs = .ok bytes)
    (hlen : bytes.length + 160 ≤ maxBlockSize) (hheight : parent.height.toNat < 2 ^ 32)
    (htime : parent.timestamp.toNat < 2 ^ 32)
    (hpow : verifyPow (childBlock parent txs nonce stateRoot).header = some true) :
    validateBlockHeader (childBlock parent txs nonce stateRoot) (some parent) [parent.timestamp]
      parent.difficultyTarget none = .ok () := by
  refine validateBlockHeaderInner_eq_ok.mpr ⟨rfl, childBlock_parent hheight, rfl, fun _ => hpow,
    childBlock_timestamp htime, childBlock_size hser hlen, hcoinbases, txIds, hids, hdistinct,
    hspends, ?_⟩
  exact childBlock_txRoot hser

theorem nextBlock_eq (hser : coinbase.serialize = .ok bytes) :
    nextBlock parent coinbase = childBlock parent [coinbase] 0 Hash256.zero := by
  have hwtxId : coinbase.wtxId = .ok (Hash256.domainHash dsWtxid bytes) := by
    rw [Transaction.wtxId, hser]
    rfl
  simp [nextBlock, childBlock, computeTxRoot, hwtxId, merkleRoot, merkleLoop, Except.toOption]

theorem nextBlock_valid (hcoinbase : coinbase.isCoinbase = true)
    (hser : coinbase.serialize = .ok bytes) (hlen : bytes.length ≤ maxTxSize)
    (hheight : parent.height.toNat < 2 ^ 32) (htime : parent.timestamp.toNat < 2 ^ 32)
    (hpow : verifyPow (nextBlock parent coinbase).header = some true) :
    validateBlockHeader (nextBlock parent coinbase) (some parent) [parent.timestamp]
      parent.difficultyTarget none = .ok () := by
  obtain ⟨txId, hid⟩ := txId_of_serialize hser
  rw [nextBlock_eq hser] at hpow ⊢
  have hcoinbases : checkCoinbases [coinbase] = .ok () :=
    failIf_then (by simp [hcoinbase]) rfl
  have hbytes : Transaction.concatSerialized Transaction.serialize [coinbase] = .ok (bytes ++ []) := by
    rw [Transaction.concatSerialized, hser]
    rfl
  refine childBlock_valid hcoinbases (mapM_eq_ok.mpr (.cons (txIdOf_eq_ok.mpr hid) .nil))
    (List.nodup_singleton txId) List.nodup_nil hbytes ?_ hheight htime hpow
  rw [List.append_nil]
  exact (Nat.add_le_add_right hlen 160).trans (by decide)

end

omit [Crypto] in
theorem genesisCoinbase_serialize : ∃ bytes, genesisCoinbase.serialize = .ok bytes ∧ bytes.length ≤ maxTxSize := by
  have h : (genesisCoinbase.serialize.toOption.any fun bytes => bytes.length ≤ maxTxSize) = true := by
    decide +kernel
  rcases hser : genesisCoinbase.serialize with e | bytes
  · rw [hser] at h
    cases h
  · rw [hser] at h
    exact ⟨bytes, rfl, of_decide_eq_true h⟩

/-- The first block exists under any hash function, and its output is live after it. -/
theorem exists_genesis [Network] : ∃ block s txId, genesisBlock = some block ∧
    Reachable [genesisCoinbase] block.header s ∧ block.header.height = 0 ∧
    block.header.timestamp = genesisTimestamp ∧ block.header.difficultyTarget = genesisTarget ∧
    genesisCoinbase.txId = .ok txId ∧ ∃ entry, s.utxos.lookup ⟨txId, 0⟩ = some entry := by
  obtain ⟨bytes, hser, _⟩ := genesisCoinbase_serialize
  obtain ⟨txId, hid⟩ := txId_of_serialize hser
  obtain ⟨s, mutations, happly⟩ := applyTransaction_of_free (s := UtxoSet.new) 0 hid List.nodup_nil
    (fun _ h => nomatch h) (fun op _ _ => Finmap.lookup_empty op)
  have hroot : computeTxRoot [genesisCoinbase] = .ok (Hash256.domainHash dsWtxid bytes) := by
    simp [computeTxRoot, Transaction.wtxId, hser, merkleRoot, merkleLoop]
  have htemplate : ∃ template, genesisTemplate = some (template, s) := by
    unfold genesisTemplate
    rw [hroot, happly]
    exact ⟨_, rfl⟩
  obtain ⟨template, htemplate⟩ := htemplate
  obtain ⟨htxs, hheight, htime, htarget, _⟩ := genesisTemplate_ok htemplate
  have hblock : genesisBlock =
      some { template with header := { template.header with nonce := genesisNonce } } := by
    rw [genesisBlock, htemplate]
    rfl
  obtain ⟨txId', removed, hid', _, hfits, hs, _⟩ := applyTransaction_ok happly
  obtain rfl : txId = txId' := by
    rw [hid] at hid'
    injection hid'
  refine ⟨_, s, txId, hblock, ?_, hheight, htime, htarget, hid, ?_⟩
  · rw [← htxs]
    exact .genesis (.inl hblock) htemplate
  · have hmem : (⟨txId, 0⟩ : OutPoint) ∈ (created txId genesisCoinbase 0).map Prod.fst :=
      List.mem_singleton_self _
    obtain ⟨⟨op, entry⟩, hmem, heq⟩ := List.mem_map.mp hmem
    refine ⟨entry, ?_⟩
    rw [hs, ← heq]
    exact hfits.lookup_added hmem

/-! ## The reward -/

section

omit [Crypto]

theorem lut_le (i : Nat) : lut i ≤ 2 ^ 64 := by
  induction i with
  | zero => exact Nat.le_refl _
  | succ i ih =>
    refine Nat.div_le_of_le_mul ((Nat.mul_le_mul_right _ ih).trans ?_)
    decide

theorem blockReward_bounds (height : UInt64) :
    baseReward ≤ blockReward height ∧ blockReward height ≤ baseReward + decayComponent := by
  unfold blockReward
  dsimp only
  split
  · exact ⟨Nat.le_refl _, Nat.le_add_right _ _⟩
  · refine ⟨Nat.le_add_right _ _, Nat.add_le_add_left ?_ _⟩
    split
    · exact Nat.zero_le _
    -- the decay is at most one in Q64.64
    refine Nat.div_le_of_le_mul ?_
    rw [Nat.mul_comm (2 ^ _)]
    refine Nat.mul_le_mul_left _ ((Nat.sub_le _ _).trans ((lut_le _).trans ?_))
    exact Nat.pow_le_pow_right (by decide) (Nat.le_add_right _ _)

/-- A coinbase that pays just the reward. -/
def rewardCoinbase (height : UInt64) : Transaction where
  inputs := [⟨Hash256.zero, height.toUInt32⟩]
  outputs := [⟨UInt64.ofNat (blockReward height), List.replicate 32 0, none, none⟩]
  witnesses := [⟨[], none⟩]

theorem rewardCoinbase_value (height : UInt64) :
    (UInt64.ofNat (blockReward height)).toNat = blockReward height := by
  refine UInt64.toNat_ofNat_of_lt' ((blockReward_bounds height).2.trans_lt ?_)
  decide

theorem rewardCoinbase_serialize (height : UInt64) :
    ∃ bytes, (rewardCoinbase height).serialize = .ok bytes ∧ bytes.length ≤ maxTxSize := by
  refine ⟨_, rfl, ?_⟩
  simp [TxInput.serialize, maxTxSize, rewardCoinbase, serializeOptHash]

end

theorem rewardCoinbase_valid (hheight : height.toNat < 2 ^ 32) :
    validateCoinbase (rewardCoinbase height) height (blockReward height) = .ok () := by
  obtain ⟨bytes, hser, hlen⟩ := rewardCoinbase_serialize height
  obtain ⟨hlow, hhigh⟩ := blockReward_bounds height
  have htotal : totalOutput (rewardCoinbase height) = blockReward height := by
    simp only [totalOutput, rewardCoinbase, List.map_cons, List.map_nil, rewardCoinbase_value, List.sum_singleton]
  simp only [validateCoinbase, checkCoinbaseIndex, seq_eq_ok, failIf_eq_ok, forEach_eq_ok, forM_eq_ok,
    not_not, htotal]
  refine ⟨rfl, ?_, ⟨hheight, fun input hinput => ?_⟩, ?_, fun x hx => ?_, fun x hx => ?_, ?_, trivial⟩
  · rw [checkTxSize, hser]
    exact failIf_eq_ok.mpr (Nat.not_lt.mpr hlen)
  · cases List.mem_singleton.mp hinput
    rfl
  · exact seq_eq_ok.mpr ⟨failIf_eq_ok.mpr fun h => h.2 rfl, rfl⟩
  · cases List.mem_singleton.mp hx
    refine ⟨failIf_eq_ok.mpr ?_, rfl, rfl⟩
    -- the reward is far above the dust threshold
    rw [UInt64.lt_iff_toNat_lt, rewardCoinbase_value]
    exact Nat.not_lt.mpr ((by decide : dustThreshold.toNat ≤ baseReward).trans hlow)
  · cases List.mem_singleton.mp hx
    rfl
  · exact Nat.not_lt.mpr (hhigh.trans (by decide))

/-- A block with only a coinbase is accepted when its outputs are free and its reward is right. -/
theorem coinbaseBlock_accepted [Network] (hid : coinbase.txId = .ok txId)
    (hfree : ∀ op ∈ outputsOf coinbase, s.utxos.lookup op = none)
    (hreward : validateCoinbase coinbase header.height (blockReward header.height) = .ok ()) :
    ∃ s' mutations, applyBlock header coinbase [] s = (s', .ok (0, mutations)) := by
  have hcoinbase := validateCoinbase_isCoinbase hreward
  obtain ⟨s', mutations, happly⟩ := applyTransaction_of_free (s := s) header.height hid
    (by simp [spends, hcoinbase]) (by simp [spends, hcoinbase])
    fun op hop _ => hfree op ((mem_outputsOf hid _).mpr hop)
  have hbound : ¬ blockReward header.height + 0 > u64Max := by
    exact Nat.not_lt.mpr ((blockReward_bounds header.height).2.trans (by decide))
  have hcheck : checkReward coinbase header.height 0 = .ok () := by
    rw [checkReward, if_neg (by decide), if_neg hbound]
    simp only [Nat.add_zero, hreward]
  refine ⟨s', mutations, ?_⟩
  unfold applyBlock applyCoinbase
  rw [happly]
  simp only [applyRest, hcheck]

/-- The next block with a coinbase that pays the reward is accepted where its output is free. -/
theorem rewardBlock_accepted [Network] {parent : BlockHeader} (hheight : parent.height.toNat + 1 < 2 ^ 32)
    (hfree : ∀ op ∈ outputsOf (rewardCoinbase (parent.height + 1)), s.utxos.lookup op = none) :
    ∃ s' mutations, validateAndApplyBlockTransactionsAtomic
      (nextBlock parent (rewardCoinbase (parent.height + 1))) s = some (s', .ok (0, mutations)) := by
  obtain ⟨bytes, hser, _⟩ := rewardCoinbase_serialize (parent.height + 1)
  obtain ⟨txId, hid⟩ := txId_of_serialize hser
  have hlt : (parent.height + 1).toNat < 2 ^ 32 := by
    rw [UInt64.toNat_add]
    simp
    omega
  have hreward : validateCoinbase (rewardCoinbase (parent.height + 1))
      (nextBlock parent (rewardCoinbase (parent.height + 1))).header.height
      (blockReward (parent.height + 1)) = .ok () := rewardCoinbase_valid hlt
  obtain ⟨s', mutations, h⟩ := coinbaseBlock_accepted hid hfree hreward
  exact ⟨s', mutations, congrArg some h⟩

/-! ## Primitives for concrete runs -/

section

omit [Crypto]

/-- With the primitives for concrete runs, every block meets the first target. -/
theorem verifyPow_ofHash (sha256 : List UInt8 → Hash256) (network : Network) : let _ := Crypto.ofHash sha256
    ∀ header : BlockHeader, header.difficultyTarget = genesisTarget →
      verifyPow header = some true := by
  intro _ header htarget
  have hzero : computePow header = some (Vector.replicate 32 0) := rfl
  rw [verifyPow, hzero, htarget, genesisTarget]
  cases Network.testnet <;> decide

/-- A hash for concrete runs, which keeps where their transactions and outputs differ. -/
def sampleHash (bs : List UInt8) : Hash256 :=
  Vector.ofFn fun i : Fin 32 => bs.getD (12 + i) 0 + bs.getD (40 + i) 0

/-- The bytes of a block id under the hash for concrete runs. -/
theorem sampleId_get (h : BlockHeader) (i : Fin 32) : let _ := Crypto.ofHash sampleHash
    h.blockId[i] = h.serialize.getD (12 + i) 0 + h.serialize.getD (40 + i) 0 := by
  intro _
  change (sampleHash h.serialize)[i] = _
  simp [sampleHash]

theorem sampleId_12 (h : BlockHeader) : let _ := Crypto.ofHash sampleHash
    h.blockId[(12 : Fin 32)] = h.prevBlockId[(12 : Fin 32)] + h.difficultyTarget[(0 : Fin 32)] := by
  intro _
  rw [sampleId_get]
  simp [BlockHeader.serialize]

end

/-- The main network, with a signature domain of zeros. -/
@[reducible] def sampleNetwork : Network :=
  ⟨false, 360, Hash256.zero, .inl rfl⟩

/-! ## Digests of concrete transactions -/

/-- The id of a transaction that has one. -/
def digestOf (tx : Transaction) : Hash256 :=
  tx.txId.toOption.getD Hash256.zero

/-- What the digests of transactions with one output each have to satisfy, as a computation. -/
def digestsApart (txs : List Transaction) : Bool :=
  txs.all (fun tx => tx.txId.toOption.isSome && decide (tx.outputs.length = 1)) &&
    decide ((txs.map digestOf).Nodup ∧ Hash256.zero ∉ txs.map digestOf ∧
      (txs.map fun tx => leafKey ⟨digestOf tx, 0⟩).Nodup)

theorem digestOf_eq (h : tx.txId = .ok txId) : digestOf tx = txId := by
  rw [digestOf, h]
  rfl

theorem txId_eq_digestOf (h : tx.txId.toOption.isSome = true) : tx.txId = .ok (digestOf tx) := by
  obtain ⟨txId, hid⟩ := Option.isSome_iff_exists.mp h
  rw [digestOf_eq (toOption_eq_some.mp hid), toOption_eq_some.mp hid]

theorem hashesDistinct_of_digestsApart (h : digestsApart txs = true) : HashesDistinct txs := by
  obtain ⟨hall, hdigests⟩ := (Bool.and_eq_true _ _).mp h
  obtain ⟨hids, hzero, hkeys⟩ := of_decide_eq_true hdigests
  have hone : ∀ tx ∈ txs, tx.outputs.length = 1 := by
    intro tx htx
    have := List.all_eq_true.mp hall tx htx
    simp only [Bool.and_eq_true, decide_eq_true_eq] at this
    exact this.2
  have hout : ∀ op ∈ outputsOfAll txs, ∃ tx ∈ txs, op = ⟨digestOf tx, 0⟩ := by
    rintro op ⟨tx, htx, txId, hid, idx, hidx, rfl⟩
    rw [hone tx htx] at hidx
    refine ⟨tx, htx, ?_⟩
    rw [digestOf_eq hid, show idx = 0 by omega]
    rfl
  refine ⟨?_, ?_, ?_⟩
  · intro tx htx tx' htx' txId hid hid'
    rw [List.inj_on_of_nodup_map hids htx htx' ((digestOf_eq hid).trans (digestOf_eq hid').symm)]
  · intro tx htx hid
    exact hzero (List.mem_map.mpr ⟨tx, htx, digestOf_eq hid⟩)
  · intro op hop op' hop' heq
    obtain ⟨tx, htx, rfl⟩ := hout op hop
    obtain ⟨tx', htx', rfl⟩ := hout op' hop'
    rw [List.inj_on_of_nodup_map hkeys htx htx' heq]

/-- The outputs of another transaction are free after the first block. -/
theorem Ledger.free_of_other (h : Ledger [genesisCoinbase] n s)
    (hhash : HashesDistinct (genesisCoinbase :: txs)) (htx : tx ∈ txs)
    (hother : tx.signingBytes ≠ genesisCoinbase.signingBytes) : ∀ op ∈ outputsOf tx, s.utxos.lookup op = none := by
  rintro op ⟨txId, hid, idx, hidx, rfl⟩
  refine h.free hid ?_ _ ⟨txId, hid, idx, hidx, rfl⟩
  rintro ⟨tx', htx', hid'⟩
  rw [List.mem_singleton.mp htx'] at hid'
  exact hother (hhash.ids tx (List.mem_cons_of_mem _ htx) genesisCoinbase List.mem_cons_self txId hid hid')

omit [Crypto] in
/-- A chain of two blocks: the first block and one that pays the reward. -/
theorem exists_rewardChain : let _ := Crypto.ofHash sampleHash
    let _ := sampleNetwork
    ∃ genesis s s' mutations, Reachable [genesisCoinbase] genesis s ∧ genesis.height = 0 ∧
      HashesDistinct [genesisCoinbase, rewardCoinbase 1] ∧
      validateBlockHeader (nextBlock genesis (rewardCoinbase 1)) (some genesis) [genesis.timestamp]
        genesis.difficultyTarget none = .ok () ∧
      validateAndApplyBlockTransactionsAtomic (nextBlock genesis (rewardCoinbase 1)) s =
        some (s', .ok (0, mutations)) := by
  intro _ _
  obtain ⟨genesis, s, txId, _, hreach, hheight, htime, htarget, hid, _⟩ := exists_genesis
  obtain ⟨bytes, hser, hlen⟩ := rewardCoinbase_serialize 1
  have hdistinct : HashesDistinct [genesisCoinbase, rewardCoinbase 1] :=
    hashesDistinct_of_digestsApart (by decide)
  have hledger := reachable_ledger hreach
    (hashesDistinct_mono hdistinct fun tx htx => List.mem_cons.mpr (.inl (List.mem_singleton.mp htx)))
  have hnext : genesis.header.height + 1 = 1 := by
    rw [hheight]
    rfl
  have hfree : ∀ op ∈ outputsOf (rewardCoinbase (genesis.header.height + 1)),
      s.utxos.lookup op = none := by
    rw [hnext]
    exact hledger.free_of_other hdistinct (List.mem_singleton_self _) (by decide)
  obtain ⟨s', mutations, happly⟩ := rewardBlock_accepted (by rw [hheight]; decide) hfree
  rw [hnext] at happly
  refine ⟨genesis.header, s, s', mutations, hreach, hheight, hdistinct, ?_, happly⟩
  refine nextBlock_valid rfl hser hlen ?_ ?_ (verifyPow_ofHash sampleHash sampleNetwork _ htarget)
  · rw [hheight]
    decide
  · rw [htime]
    decide

end Exfer.Proof
