import Exfer.Impl.Script.Program

/-!
# The script builder

`covenants/builder.rs`: nodes are pushed into an arena, children first, and `build` reverses the arena,
so that the last node becomes the root and children come after their parents. An id is a `u32`.
-/

namespace Exfer.Impl.Covenants

open Impl.Script

structure ScriptBuilder where
  nodes : List Combinator

/-- Calls of a builder's methods. -/
abbrev BuilderM := StateM ScriptBuilder

def remapCombinator (remap : NodeId → NodeId) : Combinator → Combinator
  | .comp f g => .comp (remap f) (remap g)
  | .pair f g => .pair (remap f) (remap g)
  | .take f => .take (remap f)
  | .drop f => .drop (remap f)
  | .injL f => .injL (remap f)
  | .injR f => .injR (remap f)
  | .case f g => .case (remap f) (remap g)
  | .fold f z k => .fold (remap f) (remap z) k
  | .listFold f z => .listFold (remap f) (remap z)
  | other => other

namespace ScriptBuilder

def new : ScriptBuilder := ⟨[]⟩

def push (comb : Combinator) : BuilderM NodeId := do
  let b ← get
  set (ScriptBuilder.mk (b.nodes ++ [comb]))
  return b.nodes.length % 2 ^ 32

/-! ## Combinators -/

def iden : BuilderM NodeId := push .iden

def unit : BuilderM NodeId := push .unit

def witness : BuilderM NodeId := push .witness

def constant (v : Value) : BuilderM NodeId := push (.const v)

def jet (jetId : JetId) : BuilderM NodeId := push (.jet jetId)

def comp (f g : NodeId) : BuilderM NodeId := push (.comp f g)

def pair (f g : NodeId) : BuilderM NodeId := push (.pair f g)

def take (f : NodeId) : BuilderM NodeId := push (.take f)

def dropNode (f : NodeId) : BuilderM NodeId := push (.drop f)

def injl (f : NodeId) : BuilderM NodeId := push (.injL f)

def injr (f : NodeId) : BuilderM NodeId := push (.injR f)

def case (f g : NodeId) : BuilderM NodeId := push (.case f g)

def fold (f z : NodeId) (k : UInt64) : BuilderM NodeId := push (.fold f z k)

def listFold (f z : NodeId) : BuilderM NodeId := push (.listFold f z)

/-! ## Helpers -/

def constFalse : BuilderM NodeId := constant (.bool false)

def constTrue : BuilderM NodeId := constant (.bool true)

def sigCheck (pubkey : Vector UInt8 32) : BuilderM NodeId := do
  let sigHashJet ← jet .txSigHash
  let u ← unit
  let txMsg ← comp u sigHashJet
  let pkConst ← constant (.bytes pubkey.toList)
  let wSig ← witness
  let pkSig ← pair pkConst wSig
  let fullInput ← pair txMsg pkSig
  let verify ← jet .ed25519Verify
  comp fullInput verify

def hashEq (expected : Hash256) : BuilderM NodeId := do
  let wPreimage ← witness
  let shaJet ← jet .sha256
  let hashed ← comp wPreimage shaJet
  let expectedHash ← constant (.hash expected)
  let pairNode ← pair hashed expectedHash
  let eqJet ← jet .eqHash
  comp pairNode eqJet

/-- `height_gt` and `height_lt`, which differ in the jet that compares. -/
def heightJet (compare : JetId) (height : UInt64) : BuilderM NodeId := do
  let bhJet ← jet .blockHeight
  let u ← unit
  let getHeight ← comp u bhJet
  let threshold ← constant (.u64 height)
  let pairHeights ← pair getHeight threshold
  let compareJet ← jet compare
  comp pairHeights compareJet

def heightGt (height : UInt64) : BuilderM NodeId := heightJet .gt64 height

def heightLt (height : UInt64) : BuilderM NodeId := heightJet .lt64 height

def and (a b : NodeId) : BuilderM NodeId := do
  let cf ← constFalse
  let caseNode ← case cf b
  comp a caseNode

def or (a b : NodeId) : BuilderM NodeId := do
  let ct ← constTrue
  let caseNode ← case b ct
  comp a caseNode

/-- `build`, past the assertion that the arena is not empty. -/
def build (b : ScriptBuilder) : Program where
  nodes := b.nodes.reverse.map (remapCombinator fun old => (b.nodes.length - 1 - old) % 2 ^ 32)
  root := 0

end ScriptBuilder

end Exfer.Impl.Covenants
