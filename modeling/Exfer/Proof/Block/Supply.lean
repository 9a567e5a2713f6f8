import Exfer.Proof.Block.NextBlock

/-!
# Supply

`supply_conserved`: after accepted blocks up to a height, the unspent outputs hold what the first block
created and the rewards of the later ones. A transaction moves the supply by its outputs less its
inputs (`supply_applyTransaction`), which is its fee, and the coinbase puts the fees back.
-/

namespace Exfer.Proof

open Lib Impl Spec UtxoSet

variable [Crypto] {s s' : UtxoSet} {tx : Transaction} {height : UInt64} {txs : List Transaction}

omit [Crypto] in
theorem created_values (txId : Hash256) (tx : Transaction) (height : UInt64) :
    ((created txId tx height).map fun x => x.2.output.value.toNat).sum = totalOutput tx := by
  rw [created, createdFrom, List.map_map, totalOutput]
  conv_rhs => rw [← List.zipIdx_map_fst 0 tx.outputs, List.map_map]
  rfl

/-- A transaction moves the supply by what it creates and what it removes. -/
theorem supply_applyTransaction (h : s.applyTransaction tx height = (s', .ok mutations)) :
    ∃ removed : List (OutPoint × UtxoEntry), removed.map Prod.fst = spends tx ∧
      (∀ x ∈ removed, s.utxos.lookup x.1 = some x.2) ∧
      supply s' + (removed.map fun x => x.2.output.value.toNat).sum = supply s + totalOutput tx := by
  obtain ⟨txId, removed, hid, hkeys, hfits, hs, _⟩ := applyTransaction_ok h
  refine ⟨removed, hkeys, fun x hx => hfits.removed_mem _ _ hx, ?_⟩
  have htotal := hfits.total_apply (f := fun entry : UtxoEntry => entry.output.value.toNat)
  rw [← hs] at htotal
  rw [← created_values txId tx height]
  exact htotal

omit [Crypto] in
theorem removed_values {m : Map OutPoint UtxoEntry} {inputs : List TxInput} {entries : List UtxoEntry}
    (hentries : List.Forall₂ (fun i e => m.lookup i.outPoint = some e) inputs entries)
    {removed : List (OutPoint × UtxoEntry)} (hkeys : removed.map Prod.fst = inputs.map TxInput.outPoint)
    (hlive : ∀ x ∈ removed, m.lookup x.1 = some x.2) : removed.map Prod.snd = entries := by
  induction hentries generalizing removed with
  | nil => simpa using hkeys
  | @cons i e inputs entries hentry hentries ih =>
    cases removed with
    | nil => cases hkeys
    | cons x removed =>
      obtain ⟨hx, hkeys⟩ := List.cons.inj hkeys
      have hvalue := hlive x List.mem_cons_self
      rw [hx, hentry, Option.some.injEq] at hvalue
      rw [List.map_cons, ← hvalue, ih hkeys fun y hy => hlive y (List.mem_cons_of_mem _ hy)]

/-- Every live outpoint is of one of the transactions. -/
def LiveIn (txs : List Transaction) (s : UtxoSet) : Prop :=
  ∀ op entry, s.utxos.lookup op = some entry → op.txId ∈ idsOf txs

theorem LiveIn.applyTransaction (h : LiveIn txs s) (htx : tx ∈ txs)
    (happly : s.applyTransaction tx height = (s', .ok mutations)) : LiveIn txs s' := by
  obtain ⟨txId, removed, hid, _, hfits, hs, _⟩ := applyTransaction_ok happly
  intro op entry hlookup
  rw [hs] at hlookup
  rcases hfits.lookup_apply hlookup with hadded | ⟨_, hlookup⟩
  · exact ⟨tx, htx, (mem_created hadded).1 ▸ hid⟩
  · exact h op entry hlookup

section

variable [Network] {txs : List Transaction} (hsentinel : ∀ tx ∈ txs, tx.txId ≠ .ok Hash256.zero)
include hsentinel

/-- A transaction that passes the rules is not a coinbase: no output of the sentinel is live. -/
theorem LiveIn.not_coinbase (h : LiveIn txs s) (hvalid : validateTransaction tx s height = .ok r) :
    tx.isCoinbase = false := by
  by_contra hcoinbase
  obtain ⟨idx, hinputs⟩ := isCoinbase_iff.mp (Bool.not_eq_false _ ▸ hcoinbase)
  obtain ⟨_, _, hlive⟩ := validateTransaction_ok hvalid
  obtain ⟨entry, hentry, _⟩ := hlive ⟨Hash256.zero, idx⟩ (hinputs ▸ List.mem_singleton_self _)
  obtain ⟨tx', htx', hid⟩ := h _ entry hentry
  exact hsentinel tx' htx' hid

/-- A round of the loop takes the fee out of the supply. -/
theorem supply_applyNext (hlive : LiveIn txs s) (htx : tx ∈ txs) (h : applyNext s log tx height = (s', .ok log')) :
    LiveIn txs s' ∧ supply s' + log'.fees = supply s + log.fees := by
  obtain ⟨r, _, _, _, hvalid, _, happly, rfl⟩ := applyNext_ok h
  refine ⟨hlive.applyTransaction htx happly, ?_⟩
  obtain ⟨entries, hentries, hfee⟩ := validateTransaction_values hvalid
  obtain ⟨removed, hkeys, hremoved, hsupply⟩ := supply_applyTransaction happly
  rw [spends, if_neg (by simp [hlive.not_coinbase hsentinel hvalid])] at hkeys
  have hvalues := congrArg (List.map fun e : UtxoEntry => e.output.value.toNat)
    (removed_values hentries hkeys hremoved)
  rw [List.map_map] at hvalues
  change removed.map (fun x => x.2.output.value.toNat) = _ at hvalues
  rw [hvalues, hfee] at hsupply
  dsimp only
  omega

theorem supply_applyRest (hlive : LiveIn txs s) (hrest : ∀ tx ∈ rest, tx ∈ txs)
    (h : applyRest height s log rest = (s', .ok log')) :
    LiveIn txs s' ∧ supply s' + log'.fees = supply s + log.fees := by
  induction rest generalizing s log with
  | nil =>
    cases h
    exact ⟨hlive, rfl⟩
  | cons tx rest ih =>
    unfold applyRest at h
    split at h
    · cases h
    rename_i s₁ log₁ hnext
    obtain ⟨hlive₁, hsupply₁⟩ := supply_applyNext hsentinel hlive (hrest tx List.mem_cons_self) hnext
    obtain ⟨hlive', hsupply⟩ := ih hlive₁ (fun t ht => hrest t (List.mem_cons_of_mem _ ht)) h
    exact ⟨hlive', hsupply.trans hsupply₁⟩

/-- An accepted block adds its reward to the supply. -/
theorem supply_block (hlive : LiveIn txs s) (htxs : ∀ tx ∈ block.transactions, tx ∈ txs)
    (happly : validateAndApplyBlockTransactionsAtomic block s = some (s', .ok r)) :
    LiveIn txs s' ∧ supply s' = supply s + blockReward block.header.height := by
  unfold validateAndApplyBlockTransactionsAtomic at happly
  split at happly
  · cases happly
  rename_i coinbase rest hblock
  rw [hblock] at htxs
  obtain ⟨s₁, mutations, log, hcoinbase, hrest, _, hreward, _⟩ :=
    applyBlock_ok (Option.some.inj happly)
  have hlive₁ := hlive.applyTransaction (htxs coinbase List.mem_cons_self) hcoinbase
  obtain ⟨hlive', hsupply⟩ := supply_applyRest hsentinel hlive₁
    (fun tx htx => htxs tx (List.mem_cons_of_mem _ htx)) hrest
  obtain ⟨removed, hkeys, _, hsupply₁⟩ := supply_applyTransaction hcoinbase
  rw [spends, if_pos (validateCoinbase_isCoinbase hreward), List.map_eq_nil_iff] at hkeys
  subst hkeys
  have hvalue := (validateCoinbase_inv hreward).2
  refine ⟨hlive', ?_⟩
  simp only [List.map_nil, List.sum_nil] at hsupply₁
  dsimp only at hsupply
  omega

end

variable [Network]

/-- Supply conservation: after accepted blocks up to a height, the unspent outputs sum up to the outputs
of the first block and the rewards of the blocks after it. No transaction may hash to the
sentinel of coinbases. -/
theorem supply_conserved {txs : List Transaction} {height : Nat} {s : UtxoSet}
    (h : AcceptedChain txs height s) (hsentinel : ∀ tx ∈ txs, tx.txId ≠ .ok Hash256.zero) :
    supply s = totalOutput genesisCoinbase +
      ∑ i ∈ Finset.Icc 1 height, blockReward (UInt64.ofNat i) := by
  suffices hall : LiveIn txs s ∧ supply s = totalOutput genesisCoinbase +
      ∑ i ∈ Finset.Icc 1 height, blockReward (UInt64.ofNat i) from hall.2
  induction h with
  | genesis hblock hs =>
    obtain ⟨htxs, _⟩ := genesisBlock_ok hblock
    obtain ⟨_, _, _, _, mutations, happly⟩ := genesisTemplate_ok hs
    have hnone : LiveIn [genesisCoinbase] UtxoSet.new := by
      intro op entry hlookup
      exact absurd hlookup (by rw [UtxoSet.new, Finmap.lookup_empty]; simp)
    rw [htxs]
    refine ⟨hnone.applyTransaction (List.mem_singleton_self _) happly, ?_⟩
    obtain ⟨removed, hkeys, _, hsupply⟩ := supply_applyTransaction happly
    have hcoinbase : spends genesisCoinbase = [] := rfl
    rw [hcoinbase, List.map_eq_nil_iff] at hkeys
    subst hkeys
    have hempty : supply UtxoSet.new = 0 := rfl
    simpa [hempty] using hsupply
  | @extend txs height s s' block r h hheight happly ih =>
    obtain ⟨hlive, hsupply⟩ := ih fun tx htx => hsentinel tx (List.mem_append_left _ htx)
    have hlive : LiveIn (txs ++ block.transactions) s := fun op entry hlookup =>
      idsOf_mono (fun t ht => List.mem_append_left _ ht) (hlive op entry hlookup)
    obtain ⟨hlive', hstep⟩ := supply_block hsentinel hlive
      (fun tx htx => List.mem_append_right _ htx) happly
    refine ⟨hlive', ?_⟩
    have hheight : block.header.height = UInt64.ofNat (height + 1) := by
      rw [← hheight, UInt64.ofNat_toNat]
    rw [hstep, hsupply, hheight, Finset.sum_Icc_succ_top (Nat.le_add_left 1 height), Nat.add_assoc]

/-- A chain that meets the rules on headers has consecutive heights. -/
theorem acceptedChain_of_reachable (h : Reachable txs tip s) : AcceptedChain txs tip.height.toNat s := by
  induction h with
  | genesis hblock hs =>
    rw [(genesisBlock_ok hblock).2]
    exact .genesis hblock hs
  | extend h hheader happly ih =>
    obtain ⟨_, _, hfacts⟩ := headerFacts_of_ok hheader
    rw [hfacts.height]
    exact .extend ih hfacts.height happly

omit [Crypto] [Network] in
/-- The hypotheses are met by the first block and one that pays the reward. -/
theorem supply_conserved_reward : let _ := Crypto.ofHash sampleHash
    let _ := sampleNetwork
    ∃ s, AcceptedChain [genesisCoinbase, rewardCoinbase 1] 1 s ∧
      supply s = totalOutput genesisCoinbase +
        ∑ i ∈ Finset.Icc 1 1, blockReward (UInt64.ofNat i) := by
  intro _ _
  obtain ⟨genesis, s, s', mutations, hreach, hheight, hdistinct, hheader, happly⟩ :=
    exists_rewardChain
  have hnext : Reachable [genesisCoinbase, rewardCoinbase 1]
      (nextBlock genesis (rewardCoinbase 1)).header s' := .extend hreach hheader happly
  have hchain := acceptedChain_of_reachable hnext
  have hone : (nextBlock genesis (rewardCoinbase 1)).header.height.toNat = 1 := by
    rw [nextBlock, hheight]
    rfl
  rw [hone] at hchain
  exact ⟨s', hchain, supply_conserved hchain hdistinct.nonzero⟩

end Exfer.Proof
