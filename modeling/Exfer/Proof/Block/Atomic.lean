import Exfer.Proof.Block.NextBlock

/-!
# Block application is atomic

`block_application_atomic`: a failed application leaves the UTXO set as it was exactly when no
output of the block's coinbase is live before. `block_application_atomic_counterexample` repeats
the coinbase of the first block.
-/

namespace Exfer.Proof

open Lib Impl Spec UtxoSet

variable [Crypto]

/-- A block that passes the header rules on a reachable UTXO set is applied atomically exactly when
no output of its coinbase is live before. -/
theorem block_application_atomic [Network] {txs : List Transaction} {s : UtxoSet} {parent : BlockHeader} {block : Block} {timestamps : List UInt64}
    {target : Hash256} {clock : Option UInt64} (hreach : Reachable txs parent s)
    (hheader : validateBlockHeader block (some parent) timestamps target clock = .ok ())
    (hhash : HashesDistinct (txs ++ block.transactions)) : AppliesAtomically block s ↔
      ∀ coinbase ∈ block.transactions.head?, ∀ op ∈ outputsOf coinbase, s.contains op = false := by
  obtain ⟨coinbase, rest, hfacts⟩ := headerFacts_of_ok hheader
  have hledger := reachable_ledger hreach
    (hashesDistinct_mono hhash fun tx htx => List.mem_append_left _ htx)
  obtain ⟨txId, hid⟩ := hfacts.ids coinbase List.mem_cons_self
  unfold AppliesAtomically validateAndApplyBlockTransactionsAtomic
  simp only [hfacts.transactions, Option.some.injEq, List.head?_cons, Option.mem_some]
  rw [hfacts.transactions] at hhash
  constructor
  · rintro ⟨s', r, hrun, hatomic⟩ _ rfl op hop
    -- otherwise the coinbase fails to apply, and that is reported as a broken state
    by_contra hlive
    have hfail : ∃ s₁ e, s.applyTransaction coinbase block.header.height = (s₁, .error e) := by
      rcases happly : s.applyTransaction coinbase block.header.height with ⟨s₁, e | mutations⟩
      · exact ⟨s₁, e, rfl⟩
      obtain ⟨txId', removed, hid', hkeys, hfits, _⟩ := applyTransaction_ok happly
      rw [spends, if_pos hfacts.first, List.map_eq_nil_iff] at hkeys
      subst hkeys
      have hfree := hfits.added_free op ((mem_outputsOf hid' _).mp hop)
      rw [Map.lookup_eraseAll, if_neg (by simp [txDelta])] at hfree
      simp [contains, hfree] at hlive
    obtain ⟨s₁, e, hfail⟩ := hfail
    obtain ⟨s₂, msg, hcorrupt⟩ := applyBlock_corrupted hfail
    rw [hcorrupt] at hrun
    cases hrun
    exact (hatomic _ rfl).2.2.2 msg rfl
  · intro hfree
    obtain ⟨s₁, mutations, happly⟩ := applyTransaction_of_free (s := s) block.header.height hid
      (by simp [spends, hfacts.first]) (by simp [spends, hfacts.first])
      (fun op hop _ => by
        have := hfree coinbase rfl op ((mem_outputsOf hid _).mpr hop)
        simpa [contains] using this)
    rcases applyBlock_spec hfacts.first hhash hledger happly with
      ⟨s', e, hrun, hreject, hutxos, hinv⟩ | ⟨s', log, _, hrun, _⟩
    · refine ⟨s', .error e, hrun, fun e' he => ?_⟩
      cases he
      refine ⟨hutxos, hinv.byScript_eq hledger.inv hutxos, hinv.stateRoot_eq hledger.inv hutxos, ?_⟩
      rintro msg rfl
      exact hreject
    · exact ⟨s', .ok _, hrun, fun _ h => by cases h⟩

/-! ## Repeating the first coinbase -/

theorem duplicate_coinbase [Network] (hcoinbase : coinbase.isCoinbase = true)
    (hid : coinbase.txId = .ok txId) (houtputs : coinbase.outputs = [output])
    (hlive : s.utxos.lookup ⟨txId, 0⟩ = some entry) (header : BlockHeader) (rest : List Transaction) :
    ∃ s' msg, applyBlock header coinbase rest s = (s', .error (.stateCorrupted msg)) ∧
      s'.utxos.lookup ⟨txId, 0⟩ = none := by
  have hinsert : s.insert ⟨txId, UInt32.ofNat 0⟩ ⟨output, header.height, true⟩ =
      (s, .error (.duplicateOutpoint ⟨txId, 0⟩)) := by
    have hc : s.contains ⟨txId, 0⟩ = true := by simp [contains, hlive]
    change s.insert ⟨txId, 0⟩ _ = _
    rw [UtxoSet.insert, if_pos hc]
  have hfail : s.applyTransaction coinbase header.height =
      (s, .error (.duplicateOutpoint ⟨txId, 0⟩)) := by
    simp only [applyTransaction, hid, hcoinbase, houtputs, createOutputs, hinsert, if_true]
  have hremove : s.remove ⟨txId, UInt32.ofNat 0⟩ =
      ((s.remove ⟨txId, 0⟩).1, some entry) := by
    rw [← hlive, ← remove_snd]
    rfl
  have hundo : s.undoTransaction coinbase [] = ((s.remove ⟨txId, 0⟩).1, .ok ()) := by
    simp only [undoTransaction, hid, hcoinbase, houtputs, List.length_singleton, removeOutputs,
      hremove, restoreInputs]
    rfl
  have hrun : applyBlock header coinbase rest s = ((s.remove ⟨txId, 0⟩).1,
      .error (.stateCorrupted ("coinbase apply: " ++
        (StateError.duplicateOutpoint ⟨txId, 0⟩).display))) := by
    unfold applyBlock applyCoinbase
    rw [hfail]
    dsimp only
    rw [hundo]
  exact ⟨_, _, hrun, by rw [remove_utxos, Map.lookup_erase_eq, if_pos rfl]⟩

/-- Whatever the hash function, a block at height 1 with the coinbase of the first block passes the
header rules; its coinbase fails to apply, and undoing it removes the live output. -/
theorem repeated_genesis [Network] (hpow : ∀ parent : BlockHeader, parent.difficultyTarget = genesisTarget →
      verifyPow (nextBlock parent genesisCoinbase).header = some true) :
    ∃ parent s, Reachable [genesisCoinbase] parent s ∧
      validateBlockHeader (nextBlock parent genesisCoinbase) (some parent) [parent.timestamp]
        parent.difficultyTarget none = .ok () ∧
      ∃ s' msg, validateAndApplyBlockTransactionsAtomic (nextBlock parent genesisCoinbase) s =
        some (s', .error (.stateCorrupted msg)) ∧ s'.utxos ≠ s.utxos := by
  obtain ⟨genesis, s, txId, _, hreach, hheight, htime, htarget, hid, entry, hlive⟩ := exists_genesis
  obtain ⟨bytes, hser, hlen⟩ := genesisCoinbase_serialize
  obtain ⟨s', msg, hrun, hgone⟩ := duplicate_coinbase (by rfl) hid rfl hlive
    (nextBlock genesis.header genesisCoinbase).header []
  refine ⟨genesis.header, s, hreach, nextBlock_valid (by rfl) hser hlen ?_ ?_ (hpow _ htarget), s',
    msg, congrArg some hrun, ?_⟩
  · rw [hheight]
    decide
  · rw [htime]
    decide
  · intro heq
    rw [heq, hlive] at hgone
    cases hgone

omit [Crypto] in
theorem block_application_atomic_counterexample : let _ := Crypto.ofHash sampleHash
    let _ := sampleNetwork
    ∃ parent s block, Reachable [genesisCoinbase] parent s ∧
      validateBlockHeader block (some parent) [parent.timestamp] parent.difficultyTarget none =
        .ok () ∧
      ∃ s' msg, validateAndApplyBlockTransactionsAtomic block s =
        some (s', .error (.stateCorrupted msg)) ∧ s'.utxos ≠ s.utxos := by
  intro _ _
  obtain ⟨parent, s, h⟩ := repeated_genesis fun _ htarget =>
    verifyPow_ofHash sampleHash sampleNetwork _ htarget
  exact ⟨parent, s, nextBlock parent genesisCoinbase, h⟩

/-- A coinbase at height 1 that pays less than the reward. -/
def underpaidCoinbase : Transaction where
  inputs := [⟨Hash256.zero, 1⟩]
  outputs := [⟨500, List.replicate 32 0, none, none⟩]
  witnesses := [⟨[], none⟩]

omit [Crypto] in
/-- The hypotheses are met by the first block and a next block with a coinbase of its own. -/
theorem block_application_atomic_underpaid : let _ := Crypto.ofHash sampleHash
    let _ := sampleNetwork
    ∃ parent s, Reachable [genesisCoinbase] parent s ∧
      AppliesAtomically (nextBlock parent underpaidCoinbase) s := by
  intro _ _
  obtain ⟨genesis, s, txId, _, hreach, hheight, htime, htarget, hid, _⟩ := exists_genesis
  have hser : ∃ bytes, underpaidCoinbase.serialize = .ok bytes ∧ bytes.length ≤ maxTxSize :=
    ⟨_, rfl, by decide⟩
  obtain ⟨bytes, hser, hlen⟩ := hser
  have hdistinct : HashesDistinct [genesisCoinbase, underpaidCoinbase] :=
    hashesDistinct_of_digestsApart (by decide)
  refine ⟨genesis.header, s, hreach, (block_application_atomic hreach
    (nextBlock_valid (by rfl) hser hlen ?_ ?_ ?_) hdistinct).mpr ?_⟩
  · rw [hheight]
    decide
  · rw [htime]
    decide
  · exact verifyPow_ofHash sampleHash sampleNetwork _ htarget
  · rintro _ ⟨⟩ op hop
    have hledger := reachable_ledger hreach
      (hashesDistinct_mono hdistinct fun tx htx => List.mem_cons.mpr (.inl (List.mem_singleton.mp htx)))
    have hfree := hledger.free_of_other hdistinct (List.mem_singleton_self _) (by decide)
    simp [contains, hfree op hop]

end Exfer.Proof
