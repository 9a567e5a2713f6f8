import Exfer.Impl.Network.TipValidation
import Exfer.Spec.Headers
import Exfer.Spec.Node

/-!
# Tips of peers

What a verified tip stands for: the end of a chain of headers from the anchor, each of them with the
target that the difficulty rule gives and its proof of work.
-/

namespace Exfer.Spec

open Impl Lib

/-- The headers of a reply. -/
def replyHeaders : HeaderReply → List BlockHeader
  | .headers batch => batch
  | .closed => []
  | .elapsed => []

/-- The headers a peer sends over the turns of a validation. -/
def replied (turns : List TipTurn) : List BlockHeader :=
  turns.flatMap fun turn => replyHeaders turn.reply

variable [Crypto] [Network]

/-- The target of a header at a height whose parent has the id `prev`, among the headers of `S`:
that of the parent, but at every multiple of the window the target of the parent adjusted to the
time that the window took. -/
inductive DifficultyRule (S : Set BlockHeader) (prev : Hash256) (height : UInt64) : Hash256 → Prop
  | first (hheight : height = 0) : DifficultyRule S prev height genesisTarget
  | parent {parent : BlockHeader} (hheight : height.toNat % retargetWindow ≠ 0)
      (hparent : Ancestor BlockHeader.blockId BlockHeader.prevBlockId S prev 0 parent) :
      DifficultyRule S prev height parent.difficultyTarget
  | retarget {parent start : BlockHeader} (hpos : height ≠ 0)
      (hheight : height.toNat % retargetWindow = 0)
      (hparent : Ancestor BlockHeader.blockId BlockHeader.prevBlockId S prev 0 parent)
      (hstart : Ancestor BlockHeader.blockId BlockHeader.prevBlockId S prev (retargetWindow - 1)
        start) :
      DifficultyRule S prev height
        (retarget parent.difficultyTarget (parent.timestamp.toNat - start.timestamp.toNat))

/-- A header of `S` follows another one. -/
structure Follows (S : Set BlockHeader) (parent h : BlockHeader) : Prop where
  mem : h ∈ S
  prev : h.prevBlockId = parent.blockId
  height : h.height.toNat = parent.height.toNat + 1
  target : DifficultyRule S h.prevBlockId h.height h.difficultyTarget
  pow : verifyPow h = some true

/-- The tip is real: headers follow each other from the anchor to one with the height and the id of
the tip, and the work is the cumulative work of that header. -/
def RealTip (S : Set BlockHeader) (tip : VerifiedTip) : Prop :=
  ∃ anchor ∈ S, ∃ last, anchor.blockId = tip.anchorBlockId ∧ anchor.height = tip.anchorHeight ∧
    Relation.ReflTransGen (Follows S) anchor last ∧ last.height = tip.height ∧
    last.blockId = tip.blockId ∧ CumulativeWork S last tip.verifiedCumulativeWork

/-- The constant is the cumulative work of the checkpoint. -/
def CheckpointWork (S : Set BlockHeader) : Prop :=
  ∀ h ∈ S, h.height = assumeValidHeight → h.blockId = assumeValidHash →
    CumulativeWork S h assumeValidCumulativeWork

/-- Every read sees the database of a node that has processed known blocks. -/
def SeesNodes (known : List Block) (ctx : TipContext) : Prop :=
  ∀ read, ∃ genesis start calls node, Started genesis start ∧ CallRun start calls node ∧
    (∀ b ∈ offered genesis calls, b ∈ known) ∧ ctx.storage read = node.storage

/-- The anchors at or above a claimed height that a validation can take, by their height and id: the
checkpoint, while the node has no chain of its own and trusts the constants; or the block that the
node reads at that height, with its header and its work. -/
inductive AnchorsClaim (S : Set BlockHeader) (ctx : TipContext) (claimHeight : UInt64) :
    UInt64 → Hash256 → Prop
  | checkpoint {h : BlockHeader} (hslot : ctx.slotAvailable = true)
      (hfresh : ctx.ourHeightStart = 0) (hassume : ctx.assumeValid = true)
      (htrusted : ctx.trusted = true) (hstill : ctx.stillTrusted = true) (hmem : h ∈ S)
      (hheight : h.height = assumeValidHeight) (hid : h.blockId = assumeValidHash)
      (hclaim : claimHeight ≤ assumeValidHeight) :
      AnchorsClaim S ctx claimHeight assumeValidHeight assumeValidHash
  | own {probed id : Hash256} {header : BlockHeader} {work : Work}
      (hslot : ctx.slotAvailable = true) (hchain : ctx.ourHeightStart ≠ 0)
      (hclaim : claimHeight ≤ ctx.ourHeightStart)
      (hprobe : (ctx.storage (.probe 0)).getBlockIdByHeight (ctx.fault (.probe 0)) claimHeight =
        .ok (some probed))
      (hid : (ctx.storage .anchorId).getBlockIdByHeight (ctx.fault .anchorId) claimHeight =
        .ok (some id))
      (hheader : (ctx.storage .anchorHeader).getHeader (ctx.fault .anchorHeader) id =
        .ok (some header))
      (hwork : (ctx.storage .work).getCumulativeWork (ctx.fault .work) id = .ok (some work)) :
      AnchorsClaim S ctx claimHeight claimHeight id

end Exfer.Spec
