import Exfer.Proof.Wire.Digests

/-!
# Blocks on the wire

What `serialize` writes for a block, `deserialize` reads where the transactions fit and there are not
more of them than it makes room for (`block_reads`); what it accepts is written back as it was
(`block_faithful`). The room is for `MAX_BLOCK_SIZE / MIN_TX_SIZE` transactions, and header validation
does not count them: a block with more transactions than that passes it if most of them have no
inputs (`wire_round_trip_counterexample`). Where each has an input and an output, the size limit
leaves no place for so many (`count_of_valid`).
-/

namespace Exfer.Proof

open Lib Impl Spec

variable {data bytes : List UInt8} {block : Block} {n value : Nat} {tx : Transaction}
  {height : UInt64}

/-! ## Headers -/

theorem header_reads (h : BlockHeader) : BlockHeader.deserialize h.serialize = h := by
  have hversion : h.version.toNat < 256 ^ 4 := h.version.toNat_lt
  have hheight : h.height.toNat < 256 ^ 8 := h.height.toNat_lt
  have htime : h.timestamp.toNat < 256 ^ 8 := h.timestamp.toNat_lt
  have hnonce : h.nonce.toNat < 256 ^ 8 := h.nonce.toNat_lt
  -- the data from each field on
  have h0 : h.serialize = leBytes 4 h.version.toNat ++ (leBytes 8 h.height.toNat ++
      (h.prevBlockId.toList ++ (leBytes 8 h.timestamp.toNat ++ (h.difficultyTarget.toList ++
        (leBytes 8 h.nonce.toNat ++ (h.txRoot.toList ++ (h.stateRoot.toList ++ []))))))) := by
    simp only [BlockHeader.serialize, List.append_assoc, List.append_nil]
  generalize h.serialize = data at h0
  have h4 : data.drop 4 = _ := h0 ▸ drop_leBytes_append 4 _ _
  have h12 : data.drop 12 = _ := drop_add_of_drop h4 (length_leBytes 8 _)
  have h44 : data.drop 44 = _ := drop_add_of_drop h12 h.prevBlockId.length_toList
  have h52 : data.drop 52 = _ := drop_add_of_drop h44 (length_leBytes 8 _)
  have h84 : data.drop 84 = _ := drop_add_of_drop h52 h.difficultyTarget.length_toList
  have h92 : data.drop 92 = _ := drop_add_of_drop h84 (length_leBytes 8 _)
  have h124 : data.drop 124 = _ := drop_add_of_drop h92 h.txRoot.length_toList
  rw [BlockHeader.deserialize, h4, h12, h44, h52, h84, h92, h124, h0, leNat_take_append hversion,
    leNat_take_append hheight, leNat_take_append htime, leNat_take_append hnonce]
  simp only [hashOfBytes_append, UInt32.ofNat_toNat, UInt64.ofNat_toNat]

@[simp] theorem length_header (h : BlockHeader) : h.serialize.length = headerSize := by
  simp [BlockHeader.serialize, headerSize]

theorem header_takes (hlen : data.length = headerSize) : (BlockHeader.deserialize data).serialize = data := by
  have hlen : data.length = 156 := hlen
  have hnumber : ∀ m n, m + n ≤ 156 → Takes (data.drop m) n (leBytes n (leNat ((data.drop m).take n))) :=
    fun m n h => .number (by simp only [List.length_drop]; omega)
  have hhash : ∀ m, m + 32 ≤ 156 → Takes (data.drop m) 32 (hashOfBytes (data.drop m)).toList :=
    fun m h => takes_hash (by simp only [List.length_drop]; omega)
  have htakes : Takes data 156 (BlockHeader.deserialize data).serialize := by
    unfold BlockHeader.serialize BlockHeader.deserialize
    rw [toNat_leNat32 (by simp; omega), toNat_leNat64 (by simp; omega), toNat_leNat64 (by simp; omega),
      toNat_leNat64 (by simp; omega)]
    exact (((((((hnumber 0 4 (by omega)).append (hnumber 4 8 (by omega))).append
      (hhash 12 (by omega))).append (hnumber 44 8 (by omega))).append (hhash 52 (by omega))).append
      (hnumber 84 8 (by omega))).append (hhash 92 (by omega))).append (hhash 124 (by omega))
  exact (hlen ▸ htakes).eq.symm

/-! ## Blocks -/

theorem blockSerialize_ok :
    block.serialize = .ok bytes ↔ ∃ body, writeMany Transaction.serialize block.transactions = .ok body ∧
      block.header.serialize ++ leBytes 4 block.transactions.length ++ body = bytes := by
  rw [Block.serialize, concatSerialized_eq]
  constructor
  · intro h
    obtain ⟨body, hbody, h⟩ := bind_eq_ok.mp h
    exact ⟨body, hbody, Except.ok.inj h⟩
  · rintro ⟨body, hbody, rfl⟩
    rw [hbody]
    rfl

theorem block_reads (hfits : BlockFits block) (h : block.serialize = .ok bytes) :
    ReadsAs Block.deserialize block bytes := by
  intro rest
  obtain ⟨body, hbody, rfl⟩ := blockSerialize_ok.mp h
  have hcount : block.transactions.length < 256 ^ 4 := hfits.count.trans_lt (by decide)
  have hdata : block.header.serialize ++ leBytes 4 block.transactions.length ++ body ++ rest =
      block.header.serialize ++ (leBytes 4 block.transactions.length ++ (body ++ rest)) := by
    simp only [List.append_assoc]
  have hdrop : (block.header.serialize ++ (leBytes 4 block.transactions.length ++ (body ++ rest))).drop
      headerSize = leBytes 4 block.transactions.length ++ (body ++ rest) :=
    List.drop_left' (length_header _)
  rw [hdata]
  unfold Block.deserialize
  rw [hdrop, leNat_take_append hcount, List.take_left' (length_header _), header_reads,
    drop_add_of_drop hdrop (length_leBytes 4 _)]
  refine failIf_then (by simp) ?_
  refine failIf_then (Nat.not_lt.mpr hfits.count) ?_
  refine bind_eq_ok.mpr ⟨(block.transactions, body.length), ?_, ?_⟩
  · exact writeMany_reads (fun tx htx _ => transaction_reads (hfits.txs tx htx)) hbody rest
  · simp [pure, Except.pure]
    omega

theorem block_faithful : Faithful Block.deserialize Block.serialize := by
  intro data block n h
  obtain ⟨_, hlen, h⟩ := bind_eq_ok.mp h
  obtain ⟨_, _, h⟩ := bind_eq_ok.mp h
  obtain ⟨⟨transactions, consumed⟩, htxs, h⟩ := bind_eq_ok.mp h
  obtain ⟨rfl, rfl⟩ := Prod.mk.inj (Except.ok.inj h)
  have hlen := Nat.not_lt.mp (failIf_eq_ok.mp hlen)
  obtain ⟨body, hbody, htakes⟩ := transaction_faithful.many _ htxs
  have hheader : Takes data headerSize (BlockHeader.deserialize (data.take headerSize)).serialize := by
    rw [header_takes (List.length_take_of_le (by omega))]
    exact .raw (by omega)
  have hcount : Takes (data.drop headerSize) 4 (leBytes 4 transactions.length) := by
    rw [length_readMany htxs]
    exact .number (by simp only [List.length_drop]; omega)
  exact ⟨_, blockSerialize_ok.mpr ⟨body, hbody, rfl⟩, (hheader.append hcount).append htakes⟩

theorem block_fits (h : Block.deserialize data = .ok (block, n)) : BlockFits block := by
  obtain ⟨_, _, h⟩ := bind_eq_ok.mp h
  obtain ⟨_, hcount, h⟩ := bind_eq_ok.mp h
  obtain ⟨⟨transactions, consumed⟩, htxs, h⟩ := bind_eq_ok.mp h
  obtain ⟨rfl, rfl⟩ := Prod.mk.inj (Except.ok.inj h)
  refine ⟨fun tx htx => ?_, ?_⟩
  · obtain ⟨_, _, hread⟩ := exists_of_mem_readMany htxs tx htx
    exact transaction_fits hread
  · rw [length_readMany htxs]
    exact Nat.not_lt.mp (failIf_eq_ok.mp hcount)

/-! ## Blocks that are stored -/

/-- What the rules on transactions give: it fits, and it has an input and an output. -/
structure SoundTx (tx : Transaction) : Prop where
  fits : TxFits tx
  inputs : tx.inputs ≠ []
  outputs : tx.outputs ≠ []

theorem checkWitnessSize_ok (h : checkWitnessSize idx w = .ok ()) :
    ∀ r, w.redeemer = some r → r.length ≤ maxRedeemerSize := by
  intro r hr
  have hredeemer := (seq_eq_ok.mp h).2
  rw [hr] at hredeemer
  exact Nat.not_lt.mp (failIf_eq_ok.mp hredeemer)

theorem length_witness (hsentinel : checkSentinel tx = .ok ())
    (hwitness : checkCoinbaseWitness tx height = .ok ()) :
    tx.witnesses.length = tx.inputs.length ∧ ∀ w ∈ tx.witnesses, w.redeemer = none := by
  unfold checkSentinel at hsentinel
  unfold checkCoinbaseWitness at hwitness
  split at hsentinel
  · rename_i input hinputs
    split at hwitness
    · rename_i w hwitnesses
      have hnone : w.redeemer = none := by simpa using failIf_eq_ok.mp (seq_eq_ok.mp hwitness).2
      simp [hinputs, hwitnesses, hnone]
    · cases hwitness
  · cases hsentinel

section Sound

variable [Crypto]

theorem soundTx_of_rules (h : TxRules tx) : SoundTx tx := by
  refine ⟨⟨h.count, h.each.datums, fun w hw => ?_⟩, h.inputs, h.outputs⟩
  obtain ⟨i, hi⟩ := mem_zipIdx_of_mem hw
  exact checkWitnessSize_ok (h.witnesses (w, i) hi)

theorem txFits_of_coinbase (h : CoinbaseRules tx height) : TxFits tx := by
  obtain ⟨hcount, hnone⟩ := length_witness h.sentinel h.witness
  refine ⟨hcount, h.each.datums, fun w hw r hr => ?_⟩
  rw [hnone w hw] at hr
  cases hr

/-- A block whose first transaction fits and whose other ones are sound. -/
structure SoundBlock (block : Block) : Prop where
  first : ∀ tx ∈ block.transactions.head?, TxFits tx
  others : ∀ tx ∈ block.transactions.tail, SoundTx tx

theorem soundBlock_of_rules (h : BlockRules block) : SoundBlock block := by
  obtain ⟨coinbase, rest, htxs, hcoinbase, hrest⟩ := h
  refine ⟨fun tx htx => ?_, fun tx htx => ?_⟩
  · rw [htxs] at htx
    cases htx
    exact txFits_of_coinbase hcoinbase
  · rw [htxs] at htx
    exact soundTx_of_rules (hrest tx htx)

end Sound

theorem SoundTx.length (h : SoundTx tx) (hser : tx.serialize = .ok bytes) : 55 ≤ bytes.length := by
  obtain ⟨_, witnesses, hsigning, hwitnesses, rfl⟩ := serialize_ok.mp hser
  obtain ⟨-, -, outputs, houtputs, rfl⟩ := signingBytes_ok.mp hsigning
  have houts := writeMany_length (fun _ _ _ h => (output_length h).1) houtputs
  have hwits := writeMany_length (fun _ _ _ => witness_length) hwitnesses
  have hins := List.length_pos_of_ne_nil h.inputs
  have hlen := List.length_pos_of_ne_nil h.outputs
  rw [h.fits.witnesses] at hwits
  simp only [List.length_append, length_leBytes, length_inputs]
  omega

/-- The size limit leaves no place for more transactions than can be read. -/
theorem SoundBlock.fits (h : SoundBlock block) (hser : block.serialize = .ok bytes)
    (hsize : bytes.length ≤ maxBlockSize) : BlockFits block := by
  obtain ⟨body, hbody, rfl⟩ := blockSerialize_ok.mp hser
  rcases htxs : block.transactions with _ | ⟨coinbase, rest⟩
  · exact ⟨by simp [htxs], by simp [htxs]⟩
  have hfirst : TxFits coinbase := h.first coinbase (by simp [htxs])
  have hothers : ∀ tx ∈ rest, SoundTx tx := fun tx htx => h.others tx (by simp [htxs, htx])
  refine ⟨fun tx htx => ?_, ?_⟩
  · rw [htxs] at htx
    rcases List.mem_cons.mp htx with rfl | htx
    · exact hfirst
    · exact (hothers tx htx).fits
  · rw [htxs] at hbody ⊢
    obtain ⟨head, tail, -, htail, rfl⟩ := writeMany_cons hbody
    have hlen := writeMany_length (fun tx htx _ => (hothers tx htx).length) htail
    have hmax : maxBlockSize = 4194304 := rfl
    have hroom : maxTxs = 83886 := rfl
    simp only [List.length_append, length_header, length_leBytes, headerSize] at hsize
    rw [hroom, List.length_cons]
    omega

/-- Transactions and blocks are read back off what they are written as, and what is read is written
back as it was. So every block that passes header validation is read back once it is stored, if it
was read off the wire itself or its transactions pass the checks on the body of a block. -/
theorem wire_round_trip [Crypto] [Network] : (∀ tx bytes, TxFits tx → tx.serialize = .ok bytes →
      Transaction.deserialize bytes = .ok (tx, bytes.length)) ∧
    (∀ data tx n, Transaction.deserialize data = .ok (tx, n) →
      n ≤ data.length ∧ tx.serialize = .ok (data.take n)) ∧
    (∀ block bytes, BlockFits block → block.serialize = .ok bytes →
      Block.deserialize bytes = .ok (block, bytes.length)) ∧
    (∀ data block n, Block.deserialize data = .ok (block, n) →
      n ≤ data.length ∧ block.serialize = .ok (data.take n)) ∧ ∀ block parent timestamps target clock,
      validateBlockHeader block parent timestamps target clock = .ok () →
      ((∃ data n, Block.deserialize data = .ok (block, n)) ∨ validateBlockStructure block = .ok () ∨
        ∃ s s' r, validateAndApplyBlockTransactionsAtomic block s = some (s', .ok r)) →
      ∃ bytes, block.serialize = .ok bytes ∧ Block.deserialize bytes = .ok (block, bytes.length) := by
  have hread : ∀ block bytes, BlockFits block → block.serialize = .ok bytes →
      Block.deserialize bytes = .ok (block, bytes.length) := by
    intro block bytes hfits hser
    have h := block_reads hfits hser []
    rwa [List.append_nil] at h
  refine ⟨fun tx bytes hfits hser => ?_, fun data tx n h => ?_, hread, fun data block n h => ?_,
    fun block parent timestamps target clock hvalid hbody => ?_⟩
  · have h := transaction_reads hfits hser []
    rwa [List.append_nil] at h
  · obtain ⟨bytes, hbytes, htakes⟩ := transaction_faithful h
    exact ⟨htakes.1, htakes.2 ▸ hbytes⟩
  · obtain ⟨bytes, hbytes, htakes⟩ := block_faithful h
    exact ⟨htakes.1, htakes.2 ▸ hbytes⟩
  · obtain ⟨bytes, hser, hsize⟩ := size_of_valid hvalid
    refine ⟨bytes, hser, hread block bytes ?_ hser⟩
    rcases hbody with ⟨data, n, h⟩ | h | ⟨s, s', r, h⟩
    · exact block_fits h
    · exact (soundBlock_of_rules (validateBlockStructure_eq_ok.mp h)).fits hser hsize
    · exact (soundBlock_of_rules (blockRules_of_applied h)).fits hser hsize

/-- The block after the first one, with a coinbase that pays the reward. -/
theorem wire_round_trip_reward : let _ := Crypto.ofHash sampleHash
    let _ := sampleNetwork
    ∃ genesis bytes, (nextBlock genesis (rewardCoinbase 1)).serialize = .ok bytes ∧
      Block.deserialize bytes = .ok (nextBlock genesis (rewardCoinbase 1), bytes.length) := by
  intro _ _
  obtain ⟨genesis, s, s', mutations, _, _, _, hvalid, happly⟩ := exists_rewardChain
  obtain ⟨bytes, hser, hread⟩ := wire_round_trip.2.2.2.2 _ _ _ _ _ hvalid
    (.inr (.inr ⟨s, s', _, happly⟩))
  exact ⟨genesis, bytes, hser, hread⟩

/-! ## A block that passes header validation and is not read back -/

/-- A transaction without inputs. -/
def emptySpend (value : Nat) : Transaction where
  inputs := []
  outputs := [⟨UInt64.ofNat value, [], none, none⟩]
  witnesses := []

/-- A coinbase and transactions without inputs. -/
def manyTxs (count : Nat) : List Transaction :=
  rewardCoinbase 1 :: (List.range' 1 count).map emptySpend

/-- A hash that keeps the value of such a transaction. -/
def valueHash (bs : List UInt8) : Hash256 :=
  hashOfBytes (bs.drop 13 ++ List.replicate 32 0)

theorem emptySpend_bytes (h : value < 2 ^ 64) :
    (emptySpend value).signingBytes = .ok ([0, 0, 1, 0] ++ (leBytes 8 value ++ [0, 0, 0, 0])) ∧
      (emptySpend value).serialize = .ok ([0, 0, 1, 0] ++ (leBytes 8 value ++ [0, 0, 0, 0])) := by
  have hvalue : (UInt64.ofNat value).toNat = value := UInt64.toNat_ofNat_of_lt' h
  have houtputs : writeMany TxOutput.serialize (emptySpend value).outputs =
      .ok (leBytes 8 value ++ [0, 0, 0, 0]) := by
    simp [emptySpend, writeMany, TxOutput.serialize, serializeVarbytes, serializeOptVarbytes,
      serializeOptHash, leBytes, hvalue]
    rfl
  have hsigning : (emptySpend value).signingBytes =
      .ok ([0, 0, 1, 0] ++ (leBytes 8 value ++ [0, 0, 0, 0])) :=
    signingBytes_ok.mpr ⟨by simp [emptySpend], by simp [emptySpend], _, houtputs,
      by simp [emptySpend, leBytes]⟩
  exact ⟨hsigning, serialize_ok.mpr ⟨_, [], hsigning, rfl, List.append_nil _⟩⟩

theorem emptySpends_serialize {values : List Nat} (h : ∀ v ∈ values, v < 2 ^ 64) :
    ∃ bytes, writeMany Transaction.serialize (values.map emptySpend) = .ok bytes ∧
      bytes.length = 16 * values.length := by
  induction values with
  | nil => exact ⟨[], rfl, rfl⟩
  | cons v values ih =>
    obtain ⟨hv, hvalues⟩ := List.forall_mem_cons.mp h
    obtain ⟨bytes, hbytes, hlen⟩ := ih hvalues
    refine ⟨_, by rw [List.map_cons, writeMany, (emptySpend_bytes hv).2, hbytes]; rfl, ?_⟩
    simp [hlen]
    omega

theorem emptySpend_fits (value : Nat) : TxFits (emptySpend value) where
  witnesses := rfl
  datums o ho d hd := by
    rw [List.mem_singleton.mp ho] at hd
    cases hd
  redeemers _ hw := nomatch hw

theorem rewardCoinbase_fits (height : UInt64) : TxFits (rewardCoinbase height) where
  witnesses := rfl
  datums o ho d hd := by
    rw [List.mem_singleton.mp ho] at hd
    cases hd
  redeemers w hw r hr := by
    rw [List.mem_singleton.mp hw] at hr
    cases hr

/-- A count that is too large ends `deserialize`. -/
theorem block_unreadable (h : block.serialize = .ok bytes)
    (hcount : maxTxs < block.transactions.length) (hfits : block.transactions.length < 256 ^ 4) :
    ∃ e, Block.deserialize bytes = .error e := by
  obtain ⟨body, -, rfl⟩ := blockSerialize_ok.mp h
  have hdrop : (block.header.serialize ++ leBytes 4 block.transactions.length ++ body).drop headerSize =
      leBytes 4 block.transactions.length ++ body := by
    rw [List.append_assoc, List.drop_left' (length_header _)]
  rcases hread : Block.deserialize _ with e | r
  · exact ⟨e, rfl⟩
  · obtain ⟨_, _, hread⟩ := bind_eq_ok.mp hread
    obtain ⟨_, hroom, _⟩ := bind_eq_ok.mp hread
    rw [hdrop, leNat_take_append hfits] at hroom
    exact absurd hcount (failIf_eq_ok.mp hroom)

section Many

variable {count : Nat}

theorem manyTxs_fits : ∀ tx ∈ manyTxs count, TxFits tx := by
  refine List.forall_mem_cons.mpr ⟨rewardCoinbase_fits 1, fun tx htx => ?_⟩
  obtain ⟨i, -, rfl⟩ := List.mem_map.mp htx
  exact emptySpend_fits _

theorem manyTxs_coinbases : checkCoinbases (manyTxs count) = .ok () := by
  refine bind_eq_ok.mpr ⟨(), rfl, forM_eq_ok.mpr fun x hx => failIf_eq_ok.mpr ?_⟩
  obtain ⟨v, -, hv⟩ := List.mem_map.mp (List.fst_mem_of_mem_zipIdx hx)
  rw [← hv]
  simp [Transaction.isCoinbase, emptySpend]

theorem manyTxs_spends : blockSpends (manyTxs count) = [] := by
  refine List.flatMap_eq_nil_iff.mpr fun tx htx => ?_
  obtain ⟨v, -, rfl⟩ := List.mem_map.mp htx
  rfl

theorem value_lt (hcount : count < 2 ^ 32) (hv : v ∈ List.range' 1 count) : v < 2 ^ 64 := by
  rw [List.mem_range'_1] at hv
  omega

theorem manyTxs_serialize (hcount : count < 2 ^ 32) :
    ∃ bytes, Transaction.concatSerialized Transaction.serialize (manyTxs count) = .ok bytes ∧
      bytes.length = 87 + 16 * count := by
  obtain ⟨bytes, hbytes, hlen⟩ := emptySpends_serialize fun v => value_lt hcount
  have hcoinbase : ∃ first, (rewardCoinbase 1).serialize = .ok first ∧ first.length = 87 := by
    refine ⟨_, rfl, ?_⟩
    simp [TxInput.serialize, rewardCoinbase, serializeOptHash]
  obtain ⟨first, hfirst, hfirstLen⟩ := hcoinbase
  refine ⟨first ++ bytes, ?_, ?_⟩
  · rw [concatSerialized_eq, manyTxs, writeMany, hfirst, hbytes]
    rfl
  · rw [List.length_append, hlen, hfirstLen, List.length_range']

/-- The ids under the hash that keeps values. -/
theorem valueHash_framed (header : List UInt8) (hheader : header.length = 4) :
    valueHash (framed dsTx (header ++ (leBytes 8 value ++ rest))) =
      hashOfBytes (leBytes 8 value ++ (rest ++ List.replicate 32 0)) := by
  have hdrop : (framed dsTx (header ++ (leBytes 8 value ++ rest))).drop 13 = leBytes 8 value ++ rest := by
    have hframe : framed dsTx (header ++ (leBytes 8 value ++ rest)) =
        (UInt8.ofNat dsTx.length :: (dsTx ++ header)) ++ (leBytes 8 value ++ rest) := by
      simp [framed]
    rw [hframe]
    refine List.drop_left' ?_
    simp only [List.length_cons, List.length_append, hheader]
    decide
  rw [valueHash, hdrop, List.append_assoc]

theorem valueHash_inj (hm : m < 2 ^ 64) (hn : n < 2 ^ 64)
    (h : hashOfBytes (leBytes 8 m ++ (rest ++ List.replicate 32 0)) = hashOfBytes (leBytes 8 n ++
      (rest' ++ List.replicate 32 0))) : m = n :=
  hashOfBytes_leBytes_inj hm hn (by simp) (by simp) h

theorem manyTxs_ids (hcount : count < 2 ^ 32) : let _ := Crypto.ofHash valueHash
    ∃ ids, (manyTxs count).mapM txIdOf = .ok ids ∧ ids.Nodup := by
  intro _
  have hspend : ∀ v ∈ List.range' 1 count, txIdOf (emptySpend v) =
      .ok (hashOfBytes (leBytes 8 v ++ ([0, 0, 0, 0] ++ List.replicate 32 0))) := by
    intro v hv
    have hbytes := (emptySpend_bytes (value_lt hcount hv)).1
    rw [txIdOf_eq_ok, txId_of_signingBytes hbytes]
    exact congrArg Except.ok (valueHash_framed [0, 0, 1, 0] rfl)
  have hcoinbase : ∃ rest, txIdOf (rewardCoinbase 1) =
      .ok (hashOfBytes (leBytes 8 0 ++ (rest ++ List.replicate 32 0))) := by
    obtain ⟨bytes, hser, -⟩ := rewardCoinbase_serialize 1
    obtain ⟨_, _, hsigning, -, -⟩ := serialize_ok.mp hser
    obtain ⟨-, -, outputs, -, rfl⟩ := signingBytes_ok.mp hsigning
    refine ⟨List.replicate 24 0 ++ (leBytes 4 1 ++ outputs), ?_⟩
    exact congrArg Except.ok (valueHash_framed [1, 0, 1, 0] rfl)
  obtain ⟨rest, hcoinbase⟩ := hcoinbase
  refine ⟨_ :: (List.range' 1 count).map _, mapM_eq_ok.mpr (.cons hcoinbase
    (List.forall₂_map_left_iff.mpr (List.forall₂_map_right_iff.mpr (List.forall₂_same.mpr hspend)))),
    List.nodup_cons.mpr ⟨fun hmem => ?_, ?_⟩⟩
  · obtain ⟨v, hv, heq⟩ := List.mem_map.mp hmem
    have hzero := valueHash_inj (value_lt hcount hv) (by decide) heq
    rw [List.mem_range'_1] at hv
    omega
  · refine List.Nodup.map_on (fun v hv w hw heq => ?_) List.nodup_range'
    exact valueHash_inj (value_lt hcount hv) (value_lt hcount hw) heq

end Many

/-- A block with so many transactions passes header validation, and is not read back if they are more
than `deserialize` makes room for. -/
theorem manyTxs_unreadable {count : Nat} (hcount : count + 1 < 2 ^ 32)
    (hsize : 87 + 16 * count + 160 ≤ maxBlockSize) (hmany : maxTxs ≤ count) : let _ := Crypto.ofHash valueHash
    ∃ block parent timestamps target,
      validateBlockHeader block (some parent) timestamps target none = .ok () ∧
      (∀ tx ∈ block.transactions, TxFits tx) ∧
      ∃ bytes e, block.serialize = .ok bytes ∧ Block.deserialize bytes = .error e := by
  intro _
  let network := sampleNetwork
  obtain ⟨genesis, _, _, _, _, hheight, htime, htarget, _, _⟩ := exists_genesis
  obtain ⟨ids, hids, hnodup⟩ := manyTxs_ids (Nat.lt_of_succ_lt hcount)
  obtain ⟨body, hbody, hlen⟩ := manyTxs_serialize (Nat.lt_of_succ_lt hcount)
  have hpow := verifyPow_ofHash valueHash network
    (childBlock genesis.header (manyTxs count) 0 Hash256.zero).header htarget
  have hvalid := childBlock_valid manyTxs_coinbases hids hnodup
    (by rw [manyTxs_spends]; exact List.nodup_nil) hbody (by rw [hlen]; exact hsize)
    (by rw [hheight]; decide) (by rw [htime]; decide) hpow
  obtain ⟨bytes, hser, -⟩ := size_of_valid hvalid
  have hlength : (manyTxs count).length = count + 1 := by
    simp [manyTxs]
  obtain ⟨e, hread⟩ := block_unreadable hser (by rw [childBlock, hlength]; omega)
    (by rw [childBlock, hlength]; omega)
  exact ⟨_, _, _, _, hvalid, manyTxs_fits, bytes, e, hser, hread⟩

/-- A block of more transactions than `deserialize` makes room for, all of which fit, passes header
validation and is not read back. -/
theorem wire_round_trip_counterexample : let _ := Crypto.ofHash valueHash
    ∃ block parent timestamps target,
      validateBlockHeader block (some parent) timestamps target none = .ok () ∧
      (∀ tx ∈ block.transactions, TxFits tx) ∧
      ∃ bytes e, block.serialize = .ok bytes ∧ Block.deserialize bytes = .error e :=
  manyTxs_unreadable (by decide) (by decide) (le_refl maxTxs)

end Exfer.Proof
