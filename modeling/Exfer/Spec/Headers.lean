import Exfer.Lib.HashChain
import Exfer.Impl.Network.StageA

/-!
# Chains of headers

What headers are compared with: the ancestors of the header with a given id, among a set of headers,
and the cumulative work of a header.
-/

namespace Exfer.Spec

open Impl Lib

/-- The headers of a batch, if one arrives. -/
def batchOf : StageARecv → List BlockHeader
  | .headers batch _ => batch
  | .closed => []
  | .elapsed => []

/-- The headers a peer delivers over the turns of Stage A. -/
def delivered (turns : List StageATurn) : List BlockHeader :=
  turns.flatMap fun turn => batchOf turn.recv

variable [Crypto]

/-- `h` is an ancestor of the checkpoint, `n` blocks below it, among the headers of `S`. -/
abbrev CheckpointAncestor (S : Set BlockHeader) (n : Nat) (h : BlockHeader) : Prop :=
  Ancestor BlockHeader.blockId BlockHeader.prevBlockId S assumeValidHash n h

/-- The cumulative work of a header: that of its parent and its own, from the first block on. -/
inductive CumulativeWork (S : Set BlockHeader) : BlockHeader → Work → Prop
  | first {h : BlockHeader} (hmem : h ∈ S) (hheight : h.height = 0) :
      CumulativeWork S h (workFromTarget h.difficultyTarget)
  | child {parent h : BlockHeader} {work : Work} (hparent : CumulativeWork S parent work)
      (hmem : h ∈ S) (hprev : h.prevBlockId = parent.blockId)
      (hheight : h.height.toNat = parent.height.toNat + 1) :
      CumulativeWork S h (addWork work (workFromTarget h.difficultyTarget))

end Exfer.Spec
