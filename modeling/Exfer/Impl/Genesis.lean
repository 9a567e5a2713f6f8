import Exfer.Impl.Block
import Exfer.Impl.State

/-!
# The first block

`genesis.rs`, with `genesis_target` of `consensus/difficulty.rs`. The `expect`s of the source are
`none` here.
-/

namespace Exfer.Impl

open Lib (ascii)

def version : UInt32 := 1

def genesisTimestamp : UInt64 := 1773536400

def genesisNonce : UInt64 := 259

/-- `genesis_target`: `2 ^ 248`, or the greatest target in a test build. -/
def genesisTarget [Network] : Hash256 :=
  if Network.testnet then Vector.replicate 32 255
  else Vector.ofFn fun i : Fin 32 => if i = 0 then 1 else 0

/-- The coinbase of the first block. -/
def genesisCoinbase : Transaction where
  inputs := [⟨Hash256.zero, 0⟩]
  outputs := [⟨10000000000, List.replicate 32 0, none, none⟩]
  witnesses := [{
    witness := ascii ("NIST Beacon 2026-03-14T22:23:00Z 561AA26B4214EE8F3AAD4F5B8BD3B449" ++
      "DF3503C09611110E50AC28F39379B6D8904F833047EFF6109C94BB59AD4BB333" ++
      "59307C77F71C2FC3BA6D1073AE881F81 ") ++ [0xe2, 0x80, 0x94] ++
      ascii (" Designed, audited, and built by autonomous machines. " ++
        "A human provided minimal necessary support.")
    redeemer := none }]

variable [Crypto] [Network]

/-- `genesis_template`: the block without its nonce, and the UTXO set after it. -/
def genesisTemplate : Option (Block × UtxoSet) := do
  let txRoot ← (computeTxRoot [genesisCoinbase]).toOption
  match UtxoSet.new.applyTransaction genesisCoinbase 0 with
  | (_, .error _) => none
  | (s, .ok _) =>
    return ({ header := { version := version, height := 0, prevBlockId := Hash256.zero,
                          timestamp := genesisTimestamp, difficultyTarget := genesisTarget,
                          nonce := 0, txRoot, stateRoot := s.stateRoot }
              transactions := [genesisCoinbase] }, s)

def genesisBlock : Option Block := do
  let (block, _) ← genesisTemplate
  return { block with header := { block.header with nonce := genesisNonce } }

def devnetGenesisBlock : Option Block := do
  let (block, _) ← genesisTemplate
  return { block with
    header := { block.header with timestamp := genesisTimestamp + 1, nonce := 0 } }

end Exfer.Impl
