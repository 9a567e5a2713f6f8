import Exfer.Impl.Validation.Block
import Exfer.Lib.Total
import Exfer.Proof.State.Delta

/-!
# Chains of accepted blocks

`Reachable txs tip s`: the UTXO set `s` comes from applying the first block and accepted blocks up
to the one with header `tip`, with the transactions `txs`.
-/

namespace Exfer.Spec

open Impl
open Proof.UtxoSet (outputsOf spends)

variable [Crypto]

/-- The outpoints of the outputs of transactions. -/
def outputsOfAll (txs : List Transaction) : Set OutPoint :=
  { op | ∃ tx ∈ txs, op ∈ outputsOf tx }

/-- The ids of transactions. -/
def idsOf (txs : List Transaction) : Set Hash256 :=
  { txId | ∃ tx ∈ txs, tx.txId = .ok txId }

/-- The outpoints a transaction creates, in order. -/
def createdBy (tx : Transaction) : List OutPoint :=
  match tx.txId with
  | .ok txId => (List.range tx.outputs.length).map fun i => ⟨txId, UInt32.ofNat i⟩
  | .error _ => []

/-- All transactions have ids and no two have the same, no outpoint is created twice, and none is
spent twice. -/
structure NoRepeats (txs : List Transaction) : Prop where
  ids : ∀ tx ∈ txs, ∃ txId, tx.txId = .ok txId
  distinct : txs.Pairwise fun tx tx' => tx.txId ≠ tx'.txId
  created : (txs.flatMap createdBy).Nodup
  spent : (txs.flatMap spends).Nodup

/-- What is assumed of SHA-256 on the transactions of a chain: they do not collide, no id is the
sentinel, and no two outputs share a leaf of the state tree. -/
structure HashesDistinct (txs : List Transaction) : Prop where
  ids : ∀ tx ∈ txs, ∀ tx' ∈ txs, ∀ txId, tx.txId = .ok txId → tx'.txId = .ok txId →
    tx.signingBytes = tx'.signingBytes
  nonzero : ∀ tx ∈ txs, tx.txId ≠ .ok Hash256.zero
  keys : Set.InjOn leafKey (outputsOfAll txs)

variable [Network]

/-- The UTXO sets reachable by accepted blocks, with the transactions applied and the header of the
last block. A node accepts a block only if its state root is right as well; this is not needed
here. -/
inductive Reachable : List Transaction → BlockHeader → UtxoSet → Prop where
  | genesis {block template : Block} {s : UtxoSet}
      (hblock : genesisBlock = some block ∨ devnetGenesisBlock = some block)
      (hs : genesisTemplate = some (template, s)) : Reachable block.transactions block.header s
  | extend {txs : List Transaction} {parent : BlockHeader} {s s' : UtxoSet} {block : Block}
      {timestamps : List UInt64} {target : Hash256} {clock : Option UInt64} {skipPow : Bool}
      {r : Nat × List UtxoMutation} (h : Reachable txs parent s)
      (hheader : validateBlockHeaderInner block (some parent) timestamps target clock skipPow =
        .ok ())
      (happly : validateAndApplyBlockTransactionsAtomic block s = some (s', .ok r)) :
      Reachable (txs ++ block.transactions) block.header s'

/-- The UTXO sets after accepted blocks at consecutive heights, with the transactions applied and the
height. No rule on headers is asked here. -/
inductive AcceptedChain : List Transaction → Nat → UtxoSet → Prop where
  | genesis {block template : Block} {s : UtxoSet}
      (hblock : genesisBlock = some block ∨ devnetGenesisBlock = some block)
      (hs : genesisTemplate = some (template, s)) : AcceptedChain block.transactions 0 s
  | extend {txs : List Transaction} {height : Nat} {s s' : UtxoSet} {block : Block}
      {r : Nat × List UtxoMutation} (h : AcceptedChain txs height s)
      (hheight : block.header.height.toNat = height + 1)
      (happly : validateAndApplyBlockTransactionsAtomic block s = some (s', .ok r)) :
      AcceptedChain (txs ++ block.transactions) (height + 1) s'

/-- The sum of the values of all unspent outputs. -/
def supply (s : UtxoSet) : Nat :=
  Lib.total (fun entry => entry.output.value.toNat) s.utxos

/-- The application of a block returns, and when it fails the UTXO set is as it was and the error
is not `StateCorrupted`. -/
def AppliesAtomically (block : Block) (s : UtxoSet) : Prop :=
  ∃ s' r, validateAndApplyBlockTransactionsAtomic block s = some (s', r) ∧
    ∀ e, r = .error e → s'.utxos = s.utxos ∧ s'.byScript = s.byScript ∧
      s'.stateRoot = s.stateRoot ∧ ∀ msg, e ≠ .stateCorrupted msg

end Exfer.Spec
