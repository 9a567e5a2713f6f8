import Exfer.Impl.Validation.Block
import Exfer.Proof.State.Delta

/-!
# What the rules for transactions and blocks establish

The errors of `validate_transaction` and `validate_coinbase` are rejections, never
`StateCorrupted` (`validateTransaction_rejects`, `validateCoinbase_rejects`), and their successes
and that of `validate_block_header` are inverted into the facts that the application of a block
rests on.
-/

namespace Exfer.Proof

open Lib Impl

variable {α : Type}

/-! ## Rejections -/

/-- An error that rejects a block, and is not the report of a broken state. -/
def IsRejection : ValidationError → Prop
  | .stateCorrupted _ => False
  | _ => True

theorem validateOutputScript_rejects (idx : Nat) (o : TxOutput) :
    Raises IsRejection (validateOutputScript idx o) := by
  intro e h
  unfold validateOutputScript at h
  -- every exit but the last is an ill-typed script
  repeat' split at h
  all_goals
    first
    | cases h
      exact trivial
    | cases h

theorem checkOutputScript_rejects (idx : Nat) (o : TxOutput) : Raises IsRejection (checkOutputScript idx o) := by
  unfold checkOutputScript
  split
  · split
    · exact .error trivial
    · exact .ok ()
  · exact validateOutputScript_rejects idx o

theorem orScriptEvalFailed_rejects (idx : Nat) (reason : ε → String) (x : Except ε α) :
    Raises IsRejection (orScriptEvalFailed idx reason x) := by
  cases x with
  | error e => exact .error trivial
  | ok a => exact .ok a

theorem forEach_rejects (h : ∀ i x, Raises IsRejection (check i x)) (xs : List α) :
    Raises IsRejection (forEach xs check) :=
  Raises.forM (f := fun x => check x.2 x.1) (fun x => h x.2 x.1) xs.zipIdx

theorem checkTxSize_rejects (tx : Transaction) : Raises IsRejection (checkTxSize tx) := by
  unfold checkTxSize
  split
  · exact .error trivial
  · exact .failIf trivial

theorem checkWitnessSize_rejects (idx : Nat) (w : TxWitness) : Raises IsRejection (checkWitnessSize idx w) := by
  refine .bind (.failIf trivial) fun _ => ?_
  split
  · exact .failIf trivial
  · exact .ok ()

theorem checkDust_rejects (idx : Nat) (o : TxOutput) : Raises IsRejection (checkDust idx o) :=
  .failIf trivial

theorem checkDatumSize_rejects (idx : Nat) (o : TxOutput) : Raises IsRejection (checkDatumSize idx o) := by
  unfold checkDatumSize
  split
  · exact .failIf trivial
  · exact .ok ()

theorem checkFee_rejects (tx : Transaction) (fee scriptCost validationCost : Nat) :
    Raises IsRejection (checkFee tx fee scriptCost validationCost) := by
  refine .bind (.failIf trivial) fun _ => ?_
  split
  · exact .error trivial
  · exact .failIf trivial

variable [Crypto]

theorem checkDatumHash_rejects (idx : Nat) (o : TxOutput) : Raises IsRejection (checkDatumHash idx o) := by
  unfold checkDatumHash
  split
  · exact .failIf trivial
  · exact .ok ()

theorem validatePhase1Input_rejects (idx : Nat) (w : TxWitness) (o : TxOutput) (msg : List UInt8) :
    Raises IsRejection (validatePhase1Input idx w o msg) :=
  .bind (.failIf trivial) fun _ => .bind (.failIf trivial) fun _ => .bind (.failIf trivial) fun _ =>
    .bind (.failIf trivial) fun _ => .bind (.failIf trivial) fun _ => .failIf trivial

theorem validateScriptInput_rejects (idx : Nat) (w : TxWitness) (o : TxOutput)
    (context : Script.ScriptContext) : Raises IsRejection (validateScriptInput idx w o context) := by
  refine .bind (orScriptEvalFailed_rejects _ _ _) fun _ => ?_
  refine .bind (.failIf trivial) fun _ => ?_
  refine .bind (orScriptEvalFailed_rejects _ _ _) fun _ => ?_
  refine .bind (orScriptEvalFailed_rejects _ _ _) fun _ => ?_
  refine .bind (orScriptEvalFailed_rejects _ _ _) fun _ => ?_
  refine .bind (.failIf trivial) fun _ => ?_
  split
  · split
    · exact .ok _
    · exact .error trivial
  · exact .error trivial

theorem checkInput_rejects (msg : List UInt8) (context : Script.ScriptContext) (idx : Nat)
    (entry : UtxoEntry) (w : TxWitness) : Raises IsRejection (checkInput msg context idx entry w) := by
  unfold checkInput
  split
  · exact .bind (validatePhase1Input_rejects _ _ _ _) fun _ => .ok _
  · exact .bind (validateScriptInput_rejects _ _ _ _) fun _ => .ok _

theorem checkTransaction_rejects (tx : Transaction) : Raises IsRejection (checkTransaction tx) := by
  refine .bind (.failIf trivial) fun _ => ?_
  refine .bind (.failIf trivial) fun _ => ?_
  refine .bind (.failIf trivial) fun _ => ?_
  refine .bind (forEach_rejects checkWitnessSize_rejects _) fun _ => ?_
  refine .bind (forEach_rejects checkDatumSize_rejects _) fun _ => ?_
  refine .bind (checkTxSize_rejects tx) fun _ => ?_
  refine .bind (.failOnDuplicate (fun _ => trivial) _ _) fun _ => ?_
  refine forEach_rejects (fun idx o => ?_) _
  exact .bind (checkDust_rejects idx o) fun _ => checkDatumHash_rejects idx o

variable [Network] {tx coinbase : Transaction} {s s' : UtxoSet} {height : UInt64}
  {r : Nat × Nat × Nat} {reward : Nat} {block : Block} {timestamps : List UInt64} {target : Hash256}
  {clock : Option UInt64} {skipPow : Bool} {log : ApplyLog}

theorem lookupInput_rejects (s : UtxoSet) (height : UInt64) (input : TxInput) :
    Raises IsRejection (lookupInput s height input) := by
  unfold lookupInput
  dsimp only
  split
  · exact .error trivial
  · split
    · exact .error trivial
    · exact .ok _

omit [Crypto] in
theorem sigMessageOf_rejects (tx : Transaction) : Raises IsRejection (sigMessageOf tx) := by
  unfold sigMessageOf
  split
  · exact .error trivial
  · exact .ok _

theorem buildScriptContext_rejects (tx : Transaction) (s : UtxoSet) (height : UInt64) :
    Raises IsRejection (buildScriptContext tx s height) := by
  refine .bind (.mapM (fun x => ?_) _) fun _ => .bind (sigMessageOf_rejects tx) fun _ => .ok _
  dsimp only
  split
  · exact .error trivial
  · exact .ok _

theorem validateTransaction_rejects (tx : Transaction) (s : UtxoSet) (height : UInt64) :
    Raises IsRejection (validateTransaction tx s height) := by
  refine .bind (checkTransaction_rejects tx) fun _ => ?_
  refine .bind (.mapM (lookupInput_rejects s height) _) fun entries => ?_
  refine .bind (.bind (.failIf trivial) fun _ => .bind (.failIf trivial) fun _ => .ok _) fun _ => ?_
  refine .bind (forEach_rejects checkOutputScript_rejects _) fun _ => ?_
  refine .bind (sigMessageOf_rejects tx) fun msg => ?_
  refine .bind (buildScriptContext_rejects tx s height) fun context => ?_
  refine .bind (.mapM (fun x => ?_) _) fun costs => ?_
  · exact checkInput_rejects msg context x.2 x.1.1 x.1.2
  refine .bind (checkFee_rejects _ _ _ _) fun _ => .ok _

omit [Network] in
theorem validateCoinbase_rejects (tx : Transaction) (height : UInt64) (reward : Nat) :
    Raises IsRejection (validateCoinbase tx height reward) := by
  refine .bind ?_ fun _ => ?_
  · unfold checkSentinel
    split
    · exact .failIf trivial
    · exact .error trivial
  refine .bind (checkTxSize_rejects tx) fun _ => ?_
  refine .bind (.bind (.failIf trivial) fun _ => .forM (fun _ => .failIf trivial) _) fun _ => ?_
  refine .bind ?_ fun _ => ?_
  · unfold checkCoinbaseWitness
    split
    · exact .bind (.failIf trivial) fun _ => .failIf trivial
    · exact .error trivial
  refine .bind (forEach_rejects (fun idx o => ?_) _) fun _ => ?_
  · exact .bind (checkDust_rejects idx o) fun _ => .bind (checkDatumSize_rejects idx o) fun _ =>
      checkDatumHash_rejects idx o
  refine .bind (forEach_rejects checkOutputScript_rejects _) fun _ => ?_
  exact .bind (.failIf trivial) fun _ => .failIf trivial

/-! ## Accepted transactions -/

omit [Crypto] [Network] in
theorem isCoinbase_iff : tx.isCoinbase = true ↔ ∃ idx, tx.inputs = [⟨Hash256.zero, idx⟩] := by
  unfold Transaction.isCoinbase
  split
  · rename_i i hi
    rw [hi, beq_iff_eq]
    constructor
    · rintro h
      exact ⟨i.outputIndex, by rw [← h]⟩
    · rintro ⟨idx, h⟩
      cases h
      rfl
  · rename_i hne
    refine ⟨fun h => (nomatch h), ?_⟩
    rintro ⟨idx, h⟩
    exact absurd h (hne _)

theorem lookupInput_ok (h : lookupInput s height input = .ok entry) : s.utxos.lookup input.outPoint = some entry ∧
      ¬ (entry.isCoinbase = true ∧ entry.height = height) := by
  unfold lookupInput at h
  dsimp only at h
  split at h
  · cases h
  · rename_i entry' hget
    split at h <;> cases h
    rename_i hmature
    refine ⟨hget, fun ⟨hcoinbase, hheight⟩ => hmature ⟨hcoinbase, ?_⟩⟩
    -- an output of this block has age zero, and the maturity is positive
    rw [hheight, Nat.sub_self]
    obtain hm | hm := Network.maturity <;> rw [hm] <;> decide

omit [Crypto] [Network] in
theorem forEach_eq_ok : forEach xs check = .ok () ↔ ∀ x ∈ xs.zipIdx, check x.2 x.1 = .ok () :=
  forM_eq_ok

omit [Crypto] [Network] in
theorem mem_zipIdx_of_mem {xs : List α} {x : α} (hx : x ∈ xs) : ∃ i, (x, i) ∈ xs.zipIdx := by
  obtain ⟨i, hi⟩ := List.mem_iff_getElem?.mp hx
  exact ⟨i, List.mem_zipIdx_iff_getElem?.mpr hi⟩

/-- The rules on the outputs of a transaction. -/
def OutputRules (tx : Transaction) : Prop :=
  ∀ x ∈ tx.outputs.zipIdx, checkDust x.2 x.1 = .ok () ∧ checkDatumSize x.2 x.1 = .ok () ∧
    checkDatumHash x.2 x.1 = .ok () ∧ checkOutputScript x.2 x.1 = .ok ()

/-- The rules on a spend that need no UTXO set. -/
structure TxRules (tx : Transaction) : Prop where
  inputs : tx.inputs ≠ []
  outputs : tx.outputs ≠ []
  count : tx.witnesses.length = tx.inputs.length
  witnesses : ∀ x ∈ tx.witnesses.zipIdx, checkWitnessSize x.2 x.1 = .ok ()
  size : checkTxSize tx = .ok ()
  distinct : (tx.inputs.map TxInput.outPoint).Nodup
  each : OutputRules tx

section

variable (h : validateTransaction tx s height = .ok r)
include h

theorem validateTransaction_inv : TxRules tx ∧ ∃ entries, tx.inputs.mapM (lookupInput s height) = .ok entries ∧
      checkValues tx entries = .ok r.1 := by
  simp only [validateTransaction, checkTransaction, seq_eq_ok, failIf_eq_ok, forEach_eq_ok,
    failOnDuplicate_eq_ok, not_not] at h
  obtain ⟨⟨hinputs, houtputs, hcount, hwitnesses, hdatums, hsize, hdistinct, heach⟩, h⟩ := h
  obtain ⟨entries, hentries, h⟩ := bind_eq_ok.mp h
  obtain ⟨fee, hfee, h⟩ := bind_eq_ok.mp h
  obtain ⟨hscripts, h⟩ := seq_eq_ok.mp h
  obtain ⟨_, _, h⟩ := bind_eq_ok.mp h
  obtain ⟨_, _, h⟩ := bind_eq_ok.mp h
  obtain ⟨_, _, h⟩ := bind_eq_ok.mp h
  cases (seq_eq_ok.mp h).2
  refine ⟨⟨hinputs, houtputs, hcount, hwitnesses, hsize, hdistinct.1, fun x hx => ?_⟩, entries, hentries, hfee⟩
  exact ⟨(heach x hx).1, hdatums x hx, (heach x hx).2, forEach_eq_ok.mp hscripts x hx⟩

/-- Every input of an accepted transaction is live, and not an output of this block's coinbase. -/
theorem validateTransaction_ok : tx.inputs ≠ [] ∧ (tx.inputs.map TxInput.outPoint).Nodup ∧
      ∀ i ∈ tx.inputs, ∃ entry, s.utxos.lookup i.outPoint = some entry ∧
        ¬ (entry.isCoinbase = true ∧ entry.height = height) := by
  obtain ⟨hrules, entries, hentries, _⟩ := validateTransaction_inv h
  refine ⟨hrules.inputs, hrules.distinct, fun i hi => ?_⟩
  obtain ⟨entry, _, hentry⟩ := exists_of_mapM_ok hentries i hi
  exact ⟨entry, lookupInput_ok hentry⟩

/-- The fee of an accepted transaction is what its inputs hold over its outputs. -/
theorem validateTransaction_values :
    ∃ entries, List.Forall₂ (fun i e => s.utxos.lookup i.outPoint = some e) tx.inputs entries ∧
      (entries.map fun e => e.output.value.toNat).sum = r.1 + totalOutput tx := by
  obtain ⟨_, entries, hentries, hfee⟩ := validateTransaction_inv h
  simp only [checkValues, seq_eq_ok, failIf_eq_ok] at hfee
  obtain ⟨_, henough, hfee⟩ := hfee
  refine ⟨entries, (mapM_eq_ok.mp hentries).imp fun i e hlookup => (lookupInput_ok hlookup).1, ?_⟩
  rw [← Except.ok.inj hfee]
  exact (Nat.sub_add_cancel (Nat.not_lt.mp henough)).symm

end

omit [Network] in
theorem txId_of_serialize (h : tx.serialize = .ok bytes) : ∃ txId, tx.txId = .ok txId := by
  obtain ⟨header, hheader, h⟩ := bind_eq_ok.mp h
  obtain ⟨body, hbody, _⟩ := bind_eq_ok.mp h
  refine ⟨_, bind_eq_ok.mpr ⟨header ++ body, ?_, rfl⟩⟩
  exact bind_eq_ok.mpr ⟨header, hheader, bind_eq_ok.mpr ⟨body, hbody, rfl⟩⟩

/-- An accepted transaction has an id. -/
theorem validateTransaction_txId (h : validateTransaction tx s height = .ok r) : ∃ txId, tx.txId = .ok txId := by
  have hsize := (validateTransaction_inv h).1.size
  unfold checkTxSize at hsize
  split at hsize
  · cases hsize
  · rename_i bytes hbytes
    exact txId_of_serialize hbytes

/-! ## Accepted coinbases -/

/-- The rules on a coinbase that need no reward. -/
structure CoinbaseRules (tx : Transaction) (height : UInt64) : Prop where
  sentinel : checkSentinel tx = .ok ()
  index : checkCoinbaseIndex tx height = .ok ()
  witness : checkCoinbaseWitness tx height = .ok ()
  each : OutputRules tx

section

variable (h : validateCoinbase tx height reward = .ok ())
include h

section

omit [Network]

theorem validateCoinbase_inv : CoinbaseRules tx height ∧ totalOutput tx = reward := by
  simp only [validateCoinbase, seq_eq_ok, failIf_eq_ok, forEach_eq_ok, not_not] at h
  obtain ⟨hsentinel, _, hindex, hwitness, heach, hscripts, _, hreward⟩ := h
  refine ⟨⟨hsentinel, hindex, hwitness, fun x hx => ?_⟩, hreward⟩
  obtain ⟨hdust, hdatum, hhash⟩ := heach x hx
  exact ⟨hdust, hdatum, hhash, hscripts x hx⟩

theorem validateCoinbase_ok : height.toNat < 2 ^ 32 ∧ ∀ i ∈ tx.inputs, i.outputIndex = height.toUInt32 := by
  have hindex := (validateCoinbase_inv h).1.index
  simpa only [checkCoinbaseIndex, seq_eq_ok, failIf_eq_ok, forM_eq_ok, not_not] using hindex

theorem validateCoinbase_isCoinbase : tx.isCoinbase = true := by
  have hsentinel := (validateCoinbase_inv h).1.sentinel
  unfold checkSentinel at hsentinel
  split at hsentinel
  · rename_i input hinputs
    have hzero := Decidable.not_not.mp (failIf_eq_ok.mp hsentinel)
    refine isCoinbase_iff.mpr ⟨input.outputIndex, ?_⟩
    rw [hinputs, ← hzero]
  · cases hsentinel

end

end

/-! ## Datums and scripts -/

/-- An output's datum is within the size limit. -/
def DatumFits (o : TxOutput) : Prop :=
  ∀ d, o.datum = some d → d.length ≤ maxDatumSize

omit [Network] in
theorem OutputRules.datums (h : OutputRules tx) : ∀ o ∈ tx.outputs, DatumFits o := by
  intro o ho d hd
  obtain ⟨i, hi⟩ := mem_zipIdx_of_mem ho
  have hdatum := (h (o, i) hi).2.1
  rw [checkDatumSize, hd] at hdatum
  exact Nat.le_of_not_lt (failIf_eq_ok.mp hdatum)

omit [Crypto] [Network] in
/-- An empty script is no program, so that the check for it in `check_script_admissible` changes
nothing. -/
theorem checkScriptAdmissible_eq_ok : checkScriptAdmissible idx o = .ok () ↔ checkOutputScript idx o = .ok () := by
  unfold checkScriptAdmissible
  split
  · rename_i hempty
    have herror : checkOutputScript idx o = .error (.illTypedScript idx) := by
      rw [checkOutputScript, validateOutputScript, hempty]
      rfl
    rw [herror]
  · rfl

/-! ## Structure -/

section

omit [Network]

theorem checkTxStructure_eq_ok : checkTxStructure tx = .ok () ↔ TxRules tx := by
  simp only [checkTxStructure, seq_eq_ok, failIf_eq_ok, forEach_eq_ok, failOnDuplicate_eq_ok,
    checkScriptAdmissible_eq_ok, not_not]
  constructor
  · rintro ⟨hinputs, houtputs, hcount, hwitnesses, heach, hsize, hdistinct, hdust⟩
    exact ⟨hinputs, houtputs, hcount, hwitnesses, hsize, hdistinct.1, fun x hx => ⟨hdust x hx, heach x hx⟩⟩
  · intro h
    exact ⟨h.inputs, h.outputs, h.count, h.witnesses, fun x hx => (h.each x hx).2, h.size,
      ⟨h.distinct, fun _ _ => List.not_mem_nil⟩, fun x hx => (h.each x hx).1⟩

theorem checkCoinbaseStructure_eq_ok : checkCoinbaseStructure tx height = .ok () ↔ CoinbaseRules tx height := by
  simp only [checkCoinbaseStructure, seq_eq_ok, forEach_eq_ok, checkScriptAdmissible_eq_ok]
  constructor
  · rintro ⟨hsentinel, hindex, hwitness, heach⟩
    exact ⟨hsentinel, hindex, hwitness, heach⟩
  · exact fun h => ⟨h.sentinel, h.index, h.witness, h.each⟩

/-- The rules on the transactions of a block that need no UTXO set. -/
def BlockRules (block : Block) : Prop :=
  ∃ coinbase rest, block.transactions = coinbase :: rest ∧
    CoinbaseRules coinbase block.header.height ∧ ∀ tx ∈ rest, TxRules tx

theorem validateBlockStructure_eq_ok : validateBlockStructure block = .ok () ↔ BlockRules block := by
  unfold validateBlockStructure BlockRules
  split
  · simp_all
  rename_i coinbase rest htxs
  simp only [seq_eq_ok, forM_eq_ok, checkTxStructure_eq_ok, checkCoinbaseStructure_eq_ok, htxs, List.cons.injEq]
  constructor
  · exact fun h => ⟨coinbase, rest, ⟨rfl, rfl⟩, h⟩
  · rintro ⟨_, _, ⟨rfl, rfl⟩, h⟩
    exact h

end

/-- `validate_transaction` reads the UTXO set only at the inputs of the transaction. -/
theorem validateTransaction_congr (h : ∀ op ∈ tx.inputs.map TxInput.outPoint, s.get op = s'.get op) :
    validateTransaction tx s height = validateTransaction tx s' height := by
  have hinput : ∀ input ∈ tx.inputs, s.get input.outPoint = s'.get input.outPoint :=
    fun input hmem => h _ (List.mem_map_of_mem hmem)
  have hlookup : tx.inputs.mapM (lookupInput s height) = tx.inputs.mapM (lookupInput s' height) := by
    refine mapM_congr fun input hmem => ?_
    simp only [lookupInput, hinput input hmem]
  have hcontext : buildScriptContext tx s height = buildScriptContext tx s' height := by
    unfold buildScriptContext
    congr 1
    refine mapM_congr fun ⟨input, i⟩ hmem => ?_
    dsimp only
    rw [hinput input (List.fst_mem_of_mem_zipIdx hmem)]
  unfold validateTransaction
  rw [hlookup, hcontext]

/-! ## Accepted headers -/

/-- What `validate_block_header` establishes of the transactions of a block. -/
structure HeaderFacts (parent : BlockHeader) (block : Block) (coinbase : Transaction)
    (rest : List Transaction) : Prop where
  transactions : block.transactions = coinbase :: rest
  height : block.header.height.toNat = parent.height.toNat + 1
  prev : block.header.prevBlockId = parent.blockId
  first : coinbase.isCoinbase = true
  others : ∀ tx ∈ rest, tx.isCoinbase = false
  ids : ∀ tx ∈ coinbase :: rest, ∃ txId, tx.txId = .ok txId
  distinct : (coinbase :: rest).Pairwise fun tx tx' => tx.txId ≠ tx'.txId
  spends : (rest.flatMap fun tx => tx.inputs.map TxInput.outPoint).Nodup

section

omit [Network]

theorem txIdOf_eq_ok : txIdOf tx = .ok txId ↔ tx.txId = .ok txId := by
  unfold txIdOf
  split <;> simp_all

theorem validateBlockHeaderInner_eq_ok :
    validateBlockHeaderInner block parent timestamps target clock skipPow = .ok () ↔
      block.header.version = version ∧ checkParent block.header parent = .ok () ∧
      block.header.difficultyTarget = target ∧
      (skipPow = false → verifyPow block.header = some true) ∧
      checkTimestamp block.header parent timestamps clock = .ok () ∧ checkBlockSize block = .ok () ∧
      checkCoinbases block.transactions = .ok () ∧
      ∃ txIds, block.transactions.mapM txIdOf = .ok txIds ∧ txIds.Nodup ∧
        (blockSpends block.transactions).Nodup ∧
        txRootOf block.transactions = .ok block.header.txRoot := by
  simp [validateBlockHeaderInner, bind_eq_ok, Unique.exists_iff, failIf_eq_ok, failOnDuplicate_eq_ok]

theorem headerFacts_of_ok
    (h : validateBlockHeaderInner block (some parent) timestamps target clock skipPow = .ok ()) :
    ∃ coinbase rest, HeaderFacts parent block coinbase rest := by
  obtain ⟨_, hparent, _, _, _, _, hcoinbases, ids, hids, hdistinct, hspends, _⟩ :=
    validateBlockHeaderInner_eq_ok.mp h
  obtain ⟨expected, hexpected, hparent⟩ := bind_eq_ok.mp hparent
  obtain ⟨hheight, hprev⟩ := seq_eq_ok.mp hparent
  unfold checkCoinbases at hcoinbases
  split at hcoinbases
  · cases hcoinbases
  rename_i coinbase rest htxs
  obtain ⟨hcoinbase, hrest⟩ := seq_eq_ok.mp hcoinbases
  rw [htxs] at hids hspends
  refine ⟨coinbase, rest, htxs, ?_, Decidable.not_not.mp (failIf_eq_ok.mp hprev),
    by simpa using failIf_eq_ok.mp hcoinbase, ?_, ?_, ?_, hspends⟩
  · unfold checkedAddU64 at hexpected
    split at hexpected <;> cases hexpected
    exact Decidable.not_not.mp (failIf_eq_ok.mp hheight)
  · intro tx htx
    obtain ⟨i, hi⟩ := mem_zipIdx_of_mem htx
    simpa using failIf_eq_ok.mp (forM_eq_ok.mp hrest (tx, i) hi)
  · intro tx htx
    obtain ⟨txId, _, htxId⟩ := exists_of_mapM_ok hids tx htx
    exact ⟨txId, txIdOf_eq_ok.mp htxId⟩
  · refine (pairwise_of_mapM_nodup hids hdistinct).imp ?_
    intro tx tx' hne heq
    unfold txIdOf at hne
    rw [heq] at hne
    exact hne rfl

theorem size_of_valid (h : validateBlockHeaderInner block parent timestamps target clock skipPow = .ok ()) :
    ∃ bytes, block.serialize = .ok bytes ∧ bytes.length ≤ maxBlockSize := by
  obtain ⟨_, _, _, _, _, hsize, _⟩ := validateBlockHeaderInner_eq_ok.mp h
  unfold checkBlockSize at hsize
  split at hsize
  · cases hsize
  · exact ⟨_, ‹_›, Nat.not_lt.mp (failIf_eq_ok.mp hsize)⟩

/-! ## Accepted blocks -/

theorem rollback_ne_ok : rollback s applied spent context e ≠ (s', .ok a) := by
  unfold rollback
  split
  · exact fun h => nomatch h
  · exact fun h => nomatch h

theorem applyCoinbase_ok (h : applyCoinbase s coinbase height = (s', .ok log)) :
    ∃ mutations, s.applyTransaction coinbase height = (s', .ok mutations) ∧
      log = { mutations, spent := [], spentBytes := 0, applied := [coinbase], fees := 0 } := by
  unfold applyCoinbase at h
  split at h
  · rename_i mutations happly
    cases h
    exact ⟨mutations, happly, rfl⟩
  · split at h <;> cases h

end

/-- What one round of the loop does when it accepts the transaction. -/
theorem applyNext_ok (h : applyNext s log tx height = (s', .ok log')) :
    ∃ r spent bytes mutations, validateTransaction tx s height = .ok r ∧
      snapshotInputs s log.spent log.spentBytes tx.inputs = (spent, bytes, true) ∧
      s.applyTransaction tx height = (s', .ok mutations) ∧
      log' = { mutations := log.mutations ++ mutations, spent, spentBytes := bytes,
               applied := tx :: log.applied, fees := log.fees + r.1 } := by
  unfold applyNext at h
  split at h
  · exact absurd h rollback_ne_ok
  rename_i r _ _ hvalid
  split at h
  · exact absurd h rollback_ne_ok
  · rename_i spent bytes hsnapshot
    split at h
    · rename_i mutations happly
      cases h
      exact ⟨_, spent, bytes, mutations, hvalid, hsnapshot, happly, rfl⟩
    · split at h
      · cases h
      · exact absurd h rollback_ne_ok

/-- What an accepted block has passed: its coinbase and the other transactions were applied, and the
coinbase claims the reward and the fees. -/
theorem applyBlock_ok {header : BlockHeader} {rest : List Transaction}
    {r : Nat × List UtxoMutation} (h : applyBlock header coinbase rest s = (s', .ok r)) :
    ∃ s₁ mutations log, s.applyTransaction coinbase header.height = (s₁, .ok mutations) ∧
      applyRest header.height s₁
        { mutations, spent := [], spentBytes := 0, applied := [coinbase], fees := 0 } rest =
          (s', .ok log) ∧
      log.fees ≤ u64Max ∧
      validateCoinbase coinbase header.height (blockReward header.height + log.fees) = .ok () ∧
      r = (log.fees, log.mutations) := by
  unfold applyBlock at h
  split at h
  · cases h
  rename_i s₁ log₁ hcoinbase
  obtain ⟨mutations, happly, rfl⟩ := applyCoinbase_ok hcoinbase
  split at h
  · cases h
  rename_i s₂ log hrest
  split at h
  · exact absurd h rollback_ne_ok
  rename_i hcheck
  cases h
  unfold checkReward at hcheck
  split at hcheck
  · cases hcheck
  rename_i hfees
  split at hcheck
  · cases hcheck
  split at hcheck
  · cases hcheck
  rename_i hreward
  exact ⟨s₁, mutations, log, happly, hrest, Nat.not_lt.mp hfees, hreward, rfl⟩

theorem applyRest_rules {log' : ApplyLog} {txs : List Transaction}
    (h : applyRest height s log txs = (s', .ok log')) : ∀ tx ∈ txs, TxRules tx := by
  induction txs generalizing s log with
  | nil => exact fun _ h => nomatch h
  | cons tx txs ih =>
    unfold applyRest at h
    split at h
    · cases h
    · rename_i hnext
      obtain ⟨_, _, _, _, hvalid, _⟩ := applyNext_ok hnext
      exact List.forall_mem_cons.mpr ⟨(validateTransaction_inv hvalid).1, ih h⟩

theorem blockRules_of_applied {r : Nat × List UtxoMutation}
    (h : validateAndApplyBlockTransactionsAtomic block s = some (s', .ok r)) : BlockRules block := by
  unfold validateAndApplyBlockTransactionsAtomic at h
  split at h
  · cases h
  rename_i coinbase rest htxs
  obtain ⟨_, _, _, _, hrest, _, hcoinbase, _⟩ := applyBlock_ok (Option.some.inj h)
  exact ⟨coinbase, rest, htxs, (validateCoinbase_inv hcoinbase).1, applyRest_rules hrest⟩

end Exfer.Proof
