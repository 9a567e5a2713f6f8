import Exfer.Proof.Block.Undo

/-!
# What acceptance of a block gives

An accepted block has passed the prefilter for fork blocks (`fork_prefilter_sound`), and the entries
it spent can be stored and read back, as undo metadata and one by one (`undo_metadata_reads_back`).
-/

namespace Exfer.Proof

open Lib Impl Spec

variable [Crypto] [Network] {txs : List Transaction} {tip : BlockHeader} {block : Block}
  {s s' : UtxoSet} {r : Nat × List UtxoMutation}

/-- No block that would be accepted is refused by `validate_block_structure`. -/
theorem fork_prefilter_sound {parent : Option BlockHeader} {timestamps : List UInt64}
    {target : Hash256} {clock : Option UInt64}
    (_hheader : validateBlockHeader block parent timestamps target clock = .ok ())
    (happly : validateAndApplyBlockTransactionsAtomic block s = some (s', .ok r)) :
    validateBlockStructure block = .ok () :=
  -- the rules are the same ones, in another order; what the header says is not needed
  validateBlockStructure_eq_ok.mpr (blockRules_of_applied happly)

omit [Crypto] [Network] in
theorem fork_prefilter_sound_reward : let _ := Crypto.ofHash sampleHash
    ∃ genesis, validateBlockStructure (nextBlock genesis (rewardCoinbase 1)) = .ok () := by
  intro _
  let _ := sampleNetwork
  obtain ⟨genesis, _, _, _, _, _, _, hheader, happly⟩ := exists_rewardChain
  exact ⟨genesis, fork_prefilter_sound hheader happly⟩

end Exfer.Proof
