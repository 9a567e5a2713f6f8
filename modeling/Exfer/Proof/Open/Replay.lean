import Exfer.Proof.Block.Rules
import Exfer.Proof.Open.Walk

/-!
# Replaying the chain and loading the snapshot

Both loops of `open.rs` follow the canonical chain from block to block (`Linked`). A replay that goes
through leaves a UTXO set that comes from the outputs of the canonical blocks and has the state root
of the last one (`replay_spec`); a snapshot that loads leaves one that comes from the rows and has
the state root of the tip (`loadSnapshot_spec`).
-/

namespace Exfer.Proof

open Lib Impl UtxoSet

variable [Crypto] [Network] {D : Set OutPoint} {height : UInt64} {s s' u u' : UtxoSet}
  {log log' : ApplyLog}

/-! ## Applying a block -/

theorem applyRest_steps (hD : ∀ tx ∈ txs, outputsOf tx ⊆ D)
    (h : applyRest height s log txs = (s', .ok log')) : Steps D s s' := by
  induction txs generalizing s log with
  | nil =>
    cases h
    exact .refl
  | cons tx txs ih =>
    rw [applyRest] at h
    split at h
    · cases h
    rename_i s₁ log₁ hnext
    obtain ⟨_, _, _, mutations, _, _, happly, _⟩ := applyNext_ok hnext
    have hstep := applyTransaction_steps s height (hD tx List.mem_cons_self)
    rw [happly] at hstep
    exact hstep.trans (ih (fun tx' htx' => hD tx' (List.mem_cons_of_mem _ htx')) h)

omit [Network] in
theorem applyNextAssumed_ok (h : applyNextAssumed s log tx height = (s', .ok log')) :
    ∃ mutations, s.applyTransaction tx height = (s', .ok mutations) := by
  unfold applyNextAssumed at h
  split at h
  · exact absurd h rollback_ne_ok
  split at h
  · exact absurd h rollback_ne_ok
  split at h
  · rename_i mutations happly
    cases h
    exact ⟨mutations, happly⟩
  split at h
  · cases h
  · exact absurd h rollback_ne_ok

omit [Network] in
theorem applyRestAssumed_steps (hD : ∀ tx ∈ txs, outputsOf tx ⊆ D)
    (h : applyRestAssumed height s log txs = (s', .ok log')) : Steps D s s' := by
  induction txs generalizing s log with
  | nil =>
    cases h
    exact .refl
  | cons tx txs ih =>
    rw [applyRestAssumed] at h
    split at h
    · cases h
    rename_i s₁ log₁ hnext
    obtain ⟨mutations, happly⟩ := applyNextAssumed_ok hnext
    have hstep := applyTransaction_steps s height (hD tx List.mem_cons_self)
    rw [happly] at hstep
    exact hstep.trans (ih (fun tx' htx' => hD tx' (List.mem_cons_of_mem _ htx')) h)

theorem applyStored_steps (hD : ∀ tx ∈ block.transactions, outputsOf tx ⊆ D)
    (h : applyStored skip u block = .ok u') : Steps D u u' := by
  cases htxs : block.transactions with
  | nil =>
    simp only [applyStored, validateAndApplyBlockTransactionsAtomic,
      applyBlockTransactionsAssumeValid, htxs, ite_self] at h
    cases h
  | cons coinbase rest =>
    rw [htxs] at hD
    have hrest : ∀ tx ∈ rest, outputsOf tx ⊆ D := fun tx htx => hD tx (List.mem_cons_of_mem _ htx)
    -- the coinbase first, the same way in both modes
    have hfirst : ∀ {s₁ : UtxoSet} {mutations : List UtxoMutation},
        u.applyTransaction coinbase block.header.height = (s₁, .ok mutations) → Steps D u s₁ := by
      intro s₁ mutations happly
      have hstep := applyTransaction_steps u block.header.height (hD coinbase List.mem_cons_self)
      rwa [happly] at hstep
    unfold applyStored at h
    dsimp only at h
    split at h
    · cases h
    · cases h
    rename_i u₂ r happly
    cases h
    cases skip with
    | false =>
      simp only [Bool.false_eq_true, if_false, validateAndApplyBlockTransactionsAtomic, htxs,
        Option.some.injEq] at happly
      obtain ⟨s₁, mutations, log, hcoinbase, hloop, _⟩ := applyBlock_ok happly
      exact (hfirst hcoinbase).trans (applyRest_steps hrest hloop)
    | true =>
      simp only [if_true, applyBlockTransactionsAssumeValid, htxs, Option.some.injEq] at happly
      split at happly
      · cases happly
      rename_i hcoinbase
      obtain ⟨mutations, hcoinbase, -⟩ := applyCoinbase_ok hcoinbase
      split at happly
      · cases happly
      rename_i hloop
      split at happly
      · exact absurd happly rollback_ne_ok
      cases happly
      exact (hfirst hcoinbase).trans (applyRestAssumed_steps hrest hloop)

/-! ## Replay -/

/-- The outputs of the canonical blocks. -/
def canonicalOutputs (s : Storage) : Set OutPoint :=
  { op | ∃ height id block, s.heightIndex.lookup height = some id ∧ s.blocks.lookup id = some block ∧
    ∃ tx ∈ block.transactions, op ∈ outputsOf tx }

section Replay

variable {s : Storage} {entries : List (OutPoint × UtxoEntry)}

theorem replayBlock_ok {id : Hash256}
    (h : replayBlock s expectedGenesisId proven (u, prevId, work) height = .ok (u', id, work')) :
    ∃ block, CanonicalAt s expectedGenesisId height id block ∧ block.header.prevBlockId = prevId ∧
      Steps (canonicalOutputs s) u u' ∧ u'.stateRoot = block.header.stateRoot ∧
      work' = addWork work (canonicalWork s height) := by
  obtain ⟨⟨id', block⟩, hread, h⟩ := bind_eq_ok.mp h
  obtain ⟨⟨⟩, -, h⟩ := bind_eq_ok.mp h
  obtain ⟨u₁, happly, h⟩ := bind_eq_ok.mp h
  obtain ⟨⟨⟩, hroot, h⟩ := bind_eq_ok.mp h
  cases h
  obtain ⟨hblock, hprev⟩ := readCanonical_eq_ok.mp hread
  have hD : ∀ tx ∈ block.transactions, outputsOf tx ⊆ canonicalOutputs s :=
    fun tx htx op hop => ⟨height, id, block, hblock.index, hblock.body, tx, htx, hop⟩
  exact ⟨block, hblock, hprev, applyStored_steps hD happly, not_not.mp (failIf_eq_ok.mp hroot),
    by rw [hblock.work]⟩

/-- What a replay that goes through has done; the last round checks the state root. -/
theorem replay_spec (h : heights.foldlM (replayBlock s expectedGenesisId proven) (u, prevId, work) = .ok (u',
      lastId, work')) : Linked s expectedGenesisId (fun _ _ => True) heights prevId lastId ∧
      Steps (canonicalOutputs s) u u' ∧ work' = workOver s heights work ∧
      (heights ≠ [] → ∃ block, s.blocks.lookup lastId = some block ∧
        u'.stateRoot = block.header.stateRoot) := by
  induction heights generalizing u prevId work with
  | nil =>
    cases h
    exact ⟨rfl, .refl, rfl, fun h => absurd rfl h⟩
  | cons height heights ih =>
    obtain ⟨⟨u₁, id, workAt⟩, hround, hrest⟩ := bind_eq_ok.mp h
    obtain ⟨block, hblock, hprev, hsteps, hroot, rfl⟩ := replayBlock_ok hround
    obtain ⟨hlinked, hsteps', hwork, hlast⟩ := ih hrest
    refine ⟨⟨id, block, hblock, hprev, trivial, hlinked⟩, hsteps.trans hsteps', hwork, fun _ => ?_⟩
    cases heights with
    | nil =>
      cases hrest
      exact ⟨block, hblock.body, hroot⟩
    | cons height' heights => exact hlast (List.cons_ne_nil _ _)

/-! ## The snapshot -/

/-- The outpoints of the rows of the snapshot. -/
def snapshotOutpoints (s : Storage) : Set OutPoint :=
  { op | ∃ entry, s.HasRow op entry }

omit [Crypto] [Network] in
theorem mem_sortedRows : (key, value) ∈ sortedRows rows ↔ rows.lookup key = some value := by
  simp only [sortedRows, List.mem_filterMap, Finset.mem_sort, Finmap.mem_keys, Option.map_eq_some_iff,
    Prod.mk.injEq]
  constructor
  · rintro ⟨key', -, value', h, rfl, rfl⟩
    exact h
  · intro h
    exact ⟨key, Finmap.mem_of_lookup_eq_some h, value, h, rfl, rfl⟩

omit [Crypto] [Network] in
theorem iterUtxos_rows (h : s.iterUtxos = .ok entries) : ∀ x ∈ entries, s.HasRow x.1 x.2 := by
  intro x hx
  obtain ⟨⟨key, value⟩, hrow, hread⟩ := exists_of_mem_mapM h x hx
  unfold readUtxoRow at hread
  split at hread
  · cases hread
  · rename_i op hop
    split at hread <;> cases hread
    rename_i entry hentry
    exact ⟨key, value, mem_sortedRows.mp hrow, hop, hentry⟩

omit [Network] in
theorem seedUtxos_steps (hD : ∀ x ∈ entries, x.1 ∈ D) (h : seedUtxos u entries = .ok u') : Steps D u u' := by
  induction entries generalizing u with
  | nil =>
    cases h
    exact .refl
  | cons x entries ih =>
    unfold seedUtxos at h
    rw [List.foldlM_cons] at h
    obtain ⟨u₁, hround, hrest⟩ := bind_eq_ok.mp h
    split at hround <;> cases hround
    rename_i hinsert
    exact (Steps.of_insert hinsert (hD x List.mem_cons_self)).trans
      (ih (fun y hy => hD y (List.mem_cons_of_mem _ hy)) hrest)

omit [Network] in
theorem loadSnapshot_spec (h : loadSnapshot s u tipHeader = .ok u') :
    Steps (snapshotOutpoints s) u u' ∧ u'.stateRoot = tipHeader.stateRoot := by
  obtain ⟨entries, hentries, h⟩ := bind_eq_ok.mp h
  obtain ⟨u₁, hseed, h⟩ := bind_eq_ok.mp h
  obtain ⟨⟨⟩, hroot, h⟩ := bind_eq_ok.mp h
  cases h
  have hrows := iterUtxos_rows (orStorageError_eq_ok.mp hentries)
  exact ⟨seedUtxos_steps (fun x hx => ⟨x.2, hrows x hx⟩) hseed, not_not.mp (failIf_eq_ok.mp hroot)⟩

end Replay

end Exfer.Proof
