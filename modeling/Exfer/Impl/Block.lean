import Exfer.Impl.Transaction

/-!
# Blocks

`types/block.rs`, the transaction root of a block (`merkle_root`, `compute_tx_root`) and its proof
of work (`consensus/pow.rs`).
-/

namespace Exfer.Impl

open Lib (ascii failIf leBytes leNat readMany)

/-- The domain separator `DS_TXROOT`. -/
def dsTxroot : List UInt8 := ascii "EXFER-TXROOT"

/-- The domain separator `DS_POW_P`. -/
def dsPowP : List UInt8 := ascii "EXFER-POW-P"

/-- The domain separator `DS_POW_S`. -/
def dsPowS : List UInt8 := ascii "EXFER-POW-S"

structure BlockHeader where
  version : UInt32
  height : UInt64
  prevBlockId : Hash256
  timestamp : UInt64
  difficultyTarget : Hash256
  nonce : UInt64
  txRoot : Hash256
  stateRoot : Hash256
  deriving DecidableEq

/-- `BlockHeader::serialize`: 156 bytes. -/
def BlockHeader.serialize (h : BlockHeader) : List UInt8 :=
  leBytes 4 h.version.toNat ++ leBytes 8 h.height.toNat ++ h.prevBlockId.toList ++
    leBytes 8 h.timestamp.toNat ++ h.difficultyTarget.toList ++ leBytes 8 h.nonce.toNat ++
    h.txRoot.toList ++ h.stateRoot.toList

def headerSize : Nat := 156

def BlockHeader.deserialize (data : List UInt8) : BlockHeader where
  version := UInt32.ofNat (leNat (data.take 4))
  height := UInt64.ofNat (leNat ((data.drop 4).take 8))
  prevBlockId := hashOfBytes (data.drop 12)
  timestamp := UInt64.ofNat (leNat ((data.drop 44).take 8))
  difficultyTarget := hashOfBytes (data.drop 52)
  nonce := UInt64.ofNat (leNat ((data.drop 84).take 8))
  txRoot := hashOfBytes (data.drop 92)
  stateRoot := hashOfBytes (data.drop 124)

def BlockHeader.blockId [Crypto] (h : BlockHeader) : Hash256 :=
  Crypto.sha256 h.serialize

structure Block where
  header : BlockHeader
  transactions : List Transaction
  deriving DecidableEq

def Block.serialize (b : Block) : Except SerError (List UInt8) := do
  return b.header.serialize ++ leBytes 4 b.transactions.length ++
    (← Transaction.concatSerialized Transaction.serialize b.transactions)

def maxBlockSize : Nat := 4194304

def minTxSize : Nat := 50

/-- `max_txs`: the most transactions `deserialize` makes room for. -/
def maxTxs : Nat := maxBlockSize / minTxSize

def Block.deserialize (data : List UInt8) : Except SerError (Block × Nat) := do
  failIf (data.length < headerSize + 4) .unexpectedEof
  let header := BlockHeader.deserialize (data.take headerSize)
  let txCount := leNat ((data.drop headerSize).take 4)
  failIf (txCount > maxTxs) (.invalidData ("tx_count " ++ toString txCount ++ " exceeds maximum " ++
    toString maxTxs))
  let (transactions, consumed) ← readMany Transaction.deserialize txCount (data.drop (headerSize + 4))
  return ({ header, transactions }, headerSize + 4 + consumed)

variable [Crypto]

/-- One level of `merkle_root`: the hashes of pairs, with the last node of an odd level paired with
itself. -/
def merkleLevel (domain : List UInt8) : List Hash256 → List Hash256
  | a :: b :: rest => Hash256.domainHash domain (a.toList ++ b.toList) :: merkleLevel domain rest
  | [a] => [Hash256.domainHash domain (a.toList ++ a.toList)]
  | [] => []

/-- The loop of `merkle_root`; a level is at most half as long as the one below, so that the
number of nodes is fuel enough. -/
def merkleLoop (domain : List UInt8) : (fuel : Nat) → List Hash256 → Hash256
  | _, [] => Hash256.zero
  | _, [root] => root
  | 0, root :: _ => root
  | fuel + 1, level => merkleLoop domain fuel (merkleLevel domain level)

def merkleRoot (domain : List UInt8) (hashes : List Hash256) : Hash256 :=
  merkleLoop domain hashes.length hashes

def computeTxRoot (transactions : List Transaction) : Except SerError Hash256 := do
  return merkleRoot dsTxroot (← transactions.mapM fun tx => tx.wtxId)

def computePow (h : BlockHeader) : Option Hash256 :=
  Crypto.argon2id (Hash256.domainHash dsPowP h.serialize) (Hash256.domainHash dsPowS h.serialize)

/-- `verify_pow`: the digest is below the target, both read as big-endian numbers; `none` when it
cannot be computed. -/
def verifyPow (h : BlockHeader) : Option Bool := do
  return decide ((← computePow h).toList < h.difficultyTarget.toList)

end Exfer.Impl
