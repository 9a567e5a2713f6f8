import Exfer.Impl.Covenants.Templates

/-!
# Hash time-locked contracts

`covenants/htlc.rs`: the template and its recognition in an output script. The records for observers of the
chain are left out.
-/

namespace Exfer.Impl.Covenants

open Impl.Script ScriptBuilder

def htlc (senderKey receiverKey : Vector UInt8 32) (hashLock : Hash256) (timeoutHeight : UInt64) :
    Program := ofCalls do
  let hashCheck ← hashEq hashLock
  let receiverCheck ← sigCheck receiverKey
  let hashPath ← and hashCheck receiverCheck
  let timeoutCheck ← heightGt timeoutHeight
  let senderCheck ← sigCheck senderKey
  let timeoutPath ← and timeoutCheck senderCheck
  let selector ← witness
  let caseNode ← case hashPath timeoutPath
  comp selector caseNode

structure HtlcParams where
  sender : Vector UInt8 32
  receiver : Vector UInt8 32
  hashLock : Hash256
  timeoutHeight : UInt64
  deriving DecidableEq, Repr

/-- The template at given parameters. -/
def HtlcParams.script (c : HtlcParams) : Program :=
  htlc c.sender c.receiver c.hashLock c.timeoutHeight

/-- The constants that `try_parse_htlc` has collected. -/
structure HtlcCandidates where
  pubkeys : List (Vector UInt8 32)
  hashLockCandidate : Option Hash256
  timeoutCandidate : Option UInt64

/-- A round of the loop of `try_parse_htlc` over the nodes. -/
def collectCandidate (c : HtlcCandidates) : Combinator → Option HtlcCandidates
  | .const (.bytes b) =>
    if b.length = 32 then
      if c.pubkeys.length ≥ 2 then none else some { c with pubkeys := c.pubkeys ++ [hashOfBytes b] }
    else some c
  | .const (.hash h) => if c.hashLockCandidate.isSome then none else some { c with hashLockCandidate := some h }
  | .const (.u64 n) => if c.timeoutCandidate.isSome then none else some { c with timeoutCandidate := some n }
  | _ => some c

def tryCandidate (scriptBytes : List UInt8) (c : HtlcParams) : Bool :=
  c.script.serializeProgram == scriptBytes

def tryParseHtlc (scriptBytes : List UInt8) : Option HtlcParams := do
  let program ← (Program.deserializeProgram scriptBytes).toOption
  let c ← program.nodes.foldlM collectCandidate ⟨[], none, none⟩
  match c.pubkeys with
  | [pk0, pk1] =>
    let hashLock ← c.hashLockCandidate
    let timeoutHeight ← c.timeoutCandidate
    let candidateA : HtlcParams := ⟨pk0, pk1, hashLock, timeoutHeight⟩
    if tryCandidate scriptBytes candidateA then return candidateA
    else
      let candidateB : HtlcParams := ⟨pk1, pk0, hashLock, timeoutHeight⟩
      if tryCandidate scriptBytes candidateB then return candidateB else none
  | _ => none

end Exfer.Impl.Covenants
