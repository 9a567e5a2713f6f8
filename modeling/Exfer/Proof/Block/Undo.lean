import Exfer.Proof.Block.NextBlock
import Exfer.Proof.Wire.Rows

/-!
# Undoing a block

`undo_inverts_apply`: on every reachable UTXO set, the spent entries in the mutation log of an accepted
block are written and read back as undo metadata, and undoing the block with them restores the
map, the script index and the state root.
-/

namespace Exfer.Proof

open Lib Impl Spec UtxoSet

variable [Crypto]

theorem AppliedTxs.serializes (h : AppliedTxs height m₀ done m) :
    ∀ x ∈ done, ∀ y ∈ x.2, ∃ bytes, y.2.output.serialize = .ok bytes := by
  induction h with
  | nil => exact fun _ h => nomatch h
  | cons h hid hkeys hfits hser ih =>
    intro x hx y hy
    rcases List.mem_cons.mp hx with rfl | hx
    · exact hser y hy
    · exact ih x hx y hy

section

variable {txs : List Transaction} {block : Block} {mutations : List UtxoMutation}
  {m₀ m : Map OutPoint UtxoEntry} {done : List (Transaction × List (OutPoint × UtxoEntry))}

section

variable (h : BlockEffect txs block mutations m₀ m done)
include h

/-- The spent entries in the mutation log, in the order of the inputs. -/
theorem BlockEffect.spent : UtxoMutation.collectSpentUtxos mutations = done.reverse.flatMap Prod.snd := by
  rw [h.mutations, collectSpentUtxos_flatMap]

section

variable (hdatums : ∀ op entry, m₀.lookup op = some entry → DatumFits entry.output)
include hdatums

theorem BlockEffect.spent_fits : ∀ x ∈ UtxoMutation.collectSpentUtxos mutations, EntryFits x.2 := by
  rw [h.spent]
  intro x hx
  obtain ⟨y, hy, hmem⟩ := List.mem_flatMap.mp hx
  exact ⟨(h.entries_fit hdatums).2 x hx, h.applied.serializes y (List.mem_reverse.mp hy) x hmem⟩

/-- The spent entries survive the undo metadata. -/
theorem BlockEffect.metadata : ∃ bytes, serializeSpentUtxos (UtxoMutation.collectSpentUtxos mutations) = .ok bytes ∧
      deserializeSpentUtxos bytes = some (UtxoMutation.collectSpentUtxos mutations) := by
  refine deserializeSpentUtxos_serialize (h.spent_fits hdatums) ?_
  have hcount := h.count
  rw [← h.spent, maxSpentUtxosSize] at hcount
  omega

end

/-- Undoing a block with the spent entries of its log. -/
theorem BlockEffect.undo_block (hs : s.utxos = m) (hinv : Inv (outputsOfAll (txs ++ block.transactions)) s)
    (hhash : HashesDistinct (txs ++ block.transactions)) :
    ∃ s', undoBlockTransactions block s (UtxoMutation.collectSpentUtxos mutations) = (s', .ok ()) ∧
      s'.utxos = m₀ ∧ Inv (outputsOfAll (txs ++ block.transactions)) s' := by
  rw [h.spent, undoBlockTransactions, ← h.order]
  exact undoApplied h.applied hs hinv hhash.keys h.undo h.outputs

end

end

variable [Network]

/-- What acceptance says of any block, also without the rules on its header. -/
theorem accepted_effect (hledger : Ledger txs n s) (hhash : HashesDistinct (txs ++ block.transactions))
    (happly : validateAndApplyBlockTransactionsAtomic block s = some (s', .ok r)) :
    Inv (outputsOfAll (txs ++ block.transactions)) s' ∧
      ∃ done, BlockEffect txs block r.2 s.utxos s'.utxos done := by
  unfold validateAndApplyBlockTransactionsAtomic at happly
  split at happly
  · cases happly
  rename_i coinbase rest htxs
  rw [htxs] at hhash ⊢
  have happly := Option.some.inj happly
  obtain ⟨s₁, mutations, _, hcoinbase, _, _, hreward, _⟩ := applyBlock_ok happly
  rcases applyBlock_spec (validateCoinbase_isCoinbase hreward) hhash hledger hcoinbase with
    ⟨_, _, herror, _⟩ | ⟨s'', log, done, hok, hreward', hdone, h⟩
  · rw [happly] at herror
    cases herror
  · rw [happly] at hok
    cases hok
    exact ⟨h.inv, done, h.effect htxs hreward' hdone⟩

/-- Undo inverts apply: the spent entries collected from the mutation log are read back from the undo
metadata they are written to, and undoing the block with them succeeds and restores the set. -/
theorem undo_inverts_apply {txs : List Transaction} {tip : BlockHeader} {block : Block}
    {s s' : UtxoSet} {r : Nat × List UtxoMutation} (hreach : Reachable txs tip s)
    (hhash : HashesDistinct (txs ++ block.transactions))
    (happly : validateAndApplyBlockTransactionsAtomic block s = some (s', .ok r)) :
    (∃ bytes, serializeSpentUtxos (UtxoMutation.collectSpentUtxos r.2) = .ok bytes ∧
      deserializeSpentUtxos bytes = some (UtxoMutation.collectSpentUtxos r.2)) ∧
    ∃ s'', undoBlockTransactions block s' (UtxoMutation.collectSpentUtxos r.2) = (s'', .ok ()) ∧
      s''.utxos = s.utxos ∧ s''.byScript = s.byScript ∧ s''.stateRoot = s.stateRoot := by
  have hledger := reachable_ledger hreach
    (hashesDistinct_mono hhash fun tx htx => List.mem_append_left _ htx)
  obtain ⟨hinv, done, heffect⟩ := accepted_effect hledger hhash happly
  obtain ⟨s'', hundo, hutxos, hinv''⟩ := heffect.undo_block rfl hinv hhash
  exact ⟨heffect.metadata hledger.datums, s'', hundo, hutxos,
    hinv''.byScript_eq hledger.inv hutxos, hinv''.stateRoot_eq hledger.inv hutxos⟩

omit [Crypto] [Network] in
/-- The hypotheses are met by the first block and one that pays the reward. -/
theorem undo_inverts_apply_reward : let _ := Crypto.ofHash sampleHash
    let _ := sampleNetwork
    ∃ block s s' s'', Reachable [genesisCoinbase] block s ∧
      (∃ r, validateAndApplyBlockTransactionsAtomic (nextBlock block (rewardCoinbase 1)) s =
        some (s', .ok r) ∧
      undoBlockTransactions (nextBlock block (rewardCoinbase 1)) s'
        (UtxoMutation.collectSpentUtxos r.2) = (s'', .ok ())) ∧ s''.utxos = s.utxos := by
  intro _ _
  obtain ⟨genesis, s, s', mutations, hreach, _, hdistinct, _, happly⟩ := exists_rewardChain
  have hhash : HashesDistinct
      ([genesisCoinbase] ++ (nextBlock genesis (rewardCoinbase 1)).transactions) := hdistinct
  obtain ⟨_, s'', hundo, hutxos, _⟩ := undo_inverts_apply hreach hhash happly
  exact ⟨genesis, s, s', s'', hreach, ⟨_, happly, hundo⟩, hutxos⟩

end Exfer.Proof
