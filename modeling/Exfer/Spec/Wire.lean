import Exfer.Impl.Block

/-!
# What the wire can carry

The limits a transaction or a block keeps to where `deserialize` accepts it (`TxFits`, `BlockFits`),
and the byte strings that are hashed for the ids of transactions and for a transaction root.
-/

namespace Exfer.Spec

open Lib Impl

/-- There is a witness for each input, and datums and redeemers keep to their limits. -/
structure TxFits (tx : Transaction) : Prop where
  witnesses : tx.witnesses.length = tx.inputs.length
  datums : ∀ o ∈ tx.outputs, ∀ d, o.datum = some d → d.length ≤ maxDatumSize
  redeemers : ∀ w ∈ tx.witnesses, ∀ r, w.redeemer = some r → r.length ≤ maxRedeemerSize

/-- The transactions fit, and there are not more than `deserialize` makes room for. -/
structure BlockFits (block : Block) : Prop where
  txs : ∀ tx ∈ block.transactions, TxFits tx
  count : block.transactions.length ≤ maxTxs

/-! ## What is hashed -/

/-- What `domain_hash` hashes. -/
def framed (separator data : List UInt8) : List UInt8 :=
  UInt8.ofNat separator.length :: (separator ++ data)

/-- What is hashed for the two ids of a transaction. -/
def idStrings (tx : Transaction) : Set (List UInt8) :=
  { x | (∃ bytes, tx.signingBytes = .ok bytes ∧ x = framed dsTx bytes) ∨
    ∃ bytes, tx.serialize = .ok bytes ∧ x = framed dsWtxid bytes }

variable [Crypto]

end Exfer.Spec
