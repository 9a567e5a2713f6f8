import Exfer.Impl.Network.StageA
import Exfer.Lib.Rounds

/-!
# The validation of a peer's tip

`run_tip_forward_validation` and `interpret_ancestor_probe_response` of `network/sync.rs`, with what
they use of `network/tip_validation.rs`, and `ForwardHeaderOverlay` of `consensus/difficulty.rs`. A
peer claims a tip; the node looks for an anchor that it trusts below the claim, its own block or the
checkpoint, and checks the headers that the peer sends from there to the claim.

What a validation meets of its peer is a list of `TipTurn`s, one for each request. The rest of its
surroundings is a `TipContext`; the node goes on meanwhile, so each read of the storage has a
storage of its own.
-/

namespace Exfer.Impl

open Lib (failIf atOnce nextTurn rounds)

inductive TipValidationError where
  | deliveredInvalidHeader (msg : String)
  | fetchTimeout
  | deadlineExceeded
  | anchorOrphaned
  | noSlotAvailable
  | peerDisconnected
  | bootstrapStalled
  | peerNoForwardData (msg : String)
  | internal (msg : String)
  deriving DecidableEq

/-- The `Debug` form of a difficulty error. -/
def DifficultyError.debug : DifficultyError → String
  | .ancestorNotFound id => "AncestorNotFound(" ++ id.debug ++ ")"
  | .other msg => "Other(" ++ msg.quote ++ ")"

structure VerifiedTip where
  height : UInt64
  blockId : Hash256
  verifiedCumulativeWork : Work
  anchorHeight : UInt64
  anchorBlockId : Hash256
  headersValidated : Nat

/-! ## Regimes and deadlines -/

inductive ValidationRegime where
  | bootstrap
  | steadyState
  deriving DecidableEq

def ValidationRegime.select (ourTipHeight : UInt64) (_assumeValid : Bool) : ValidationRegime :=
  if ourTipHeight = 0 then .bootstrap else .steadyState

def validationArgon2PerCoreBootstrap : UInt32 := 10

def maxValidationArgon2PerSec : UInt32 := 20

def bootstrapCoordinatorDeadlineSecs : UInt64 := 300

def bootstrapCoordinatorStallSecs : Nat := 90

def tipValidationDeadlineFloorSecs : UInt64 := 7200

def tipValidationDeadlineScalePct : UInt64 := 150

/-- `argon2_rate_per_sec`, on a machine with that many cores. -/
def ValidationRegime.argon2RatePerSec (cores : UInt32) : ValidationRegime → UInt32
  | .bootstrap => max cores 1 * validationArgon2PerCoreBootstrap
  | .steadyState => maxValidationArgon2PerSec

def computeDeadline (cores : UInt32) (expectedHeaders : UInt64) (regime : ValidationRegime) : Nat :=
  let rate := (max (regime.argon2RatePerSec cores) 1).toUInt64
  let expectedArgon2Secs := expectedHeaders / rate
  let scaled := (expectedArgon2Secs * tipValidationDeadlineScalePct + 99) / 100
  let floor := match regime with
    | .bootstrap => bootstrapCoordinatorDeadlineSecs
    | .steadyState => tipValidationDeadlineFloorSecs
  fromSecs (max scaled floor).toNat

/-! ## Surroundings -/

/-- What waiting for a batch of headers ends with. -/
inductive HeaderReply where
  | headers (batch : List BlockHeader)
  | closed
  | elapsed

/-- What the validation meets at one request. -/
structure TipTurn where
  /-- The clock as the deadlines are checked. -/
  now : Instant
  /-- The answer of `send_to_session`. -/
  send : Message → Bool
  reply : HeaderReply
  /-- The clock after the last header of the batch has been checked. -/
  checkedAt : Instant

/-- The reads of the storage. -/
inductive TipRead where
  /-- The id that the answer to a probe is compared with. -/
  | probe (n : Nat)
  | anchorId
  | anchorHeader
  /-- A read of `expected_difficulty_overlay` for the header at a height. -/
  | ancestor (height : UInt64) (i : Nat)
  | work
  | recheck

/-- The surroundings of a validation, its peer apart. -/
structure TipContext where
  /-- The height of the tip as the validation starts. -/
  ourHeightStart : UInt64
  assumeValid : Bool
  /-- `assume_valid_cumulative_work_trusted` as the anchor is selected. -/
  trusted : Bool
  /-- The same flag as the work of the anchor is read. -/
  stillTrusted : Bool
  slotAvailable : Bool
  cores : UInt32
  startedAt : Instant
  /-- The clock as the forward loop begins. -/
  forwardAt : Instant
  storage : TipRead → Storage
  fault : TipRead → Option String

def Storage.getBlockIdByHeight (s : Storage) (fault : Option String) (height : UInt64) :
    Except String (Option Hash256) :=
  answer id fault (s.heightIndex.lookup height)

/-- A read of a row that has to be there. -/
def readRow {α : Type} (row : Except String (Option α)) (failed : String → String)
    (missing : String) : Except TipValidationError α :=
  match row with
  | .error e => .error (.internal (failed e))
  | .ok none => .error (.internal missing)
  | .ok (some a) => .ok a

def buildGetHeaders (startHeight : UInt64) (maxCount : UInt32) : Message :=
  .getHeaders { startHeight, maxCount }

def awaitHeaderBatch : HeaderReply → Except TipValidationError (List BlockHeader)
  | .headers batch => .ok batch
  | .closed => .error .peerDisconnected
  | .elapsed => .error .fetchTimeout

/-- A request is sent and its answer awaited. -/
def TipTurn.fetch (turn : TipTurn) (request : Message) :
    Except TipValidationError (List BlockHeader) := do
  failIf (! turn.send request) .peerDisconnected
  awaitHeaderBatch turn.reply

variable [Crypto]

/-! ## The anchor -/

/-- The anchor, and whether it is the checkpoint. -/
structure TipAnchor where
  height : UInt64
  blockId : Hash256
  header : BlockHeader
  isCheckpoint : Bool

def interpretAncestorProbeResponse (headers : List BlockHeader) (expectedHeight : UInt64)
    (ourBlockIdAtHeight : Option Hash256) : Except String (Option Bool) :=
  match headers with
  | [] => .ok none
  | first :: _ =>
    if first.height ≠ expectedHeight then
      .error ("peer returned height " ++ toString first.height.toNat ++
        " for hdrs[0] but expected " ++ toString expectedHeight.toNat ++ " (response carried " ++
        toString headers.length ++ " headers — first one used)")
    else .ok (ourBlockIdAtHeight.map fun our => our == first.blockId)

/-- A probe: whether the peer has the node's own block at a height. -/
def TipContext.probe (ctx : TipContext) (n : Nat) (turn : TipTurn) (height : UInt64)
    (noData : String) : Except TipValidationError Bool := do
  let hdrs ← turn.fetch (buildGetHeaders height 1)
  let ourId := (ctx.storage (.probe n)).getBlockIdByHeight (ctx.fault (.probe n)) height
  match interpretAncestorProbeResponse hdrs height ourId.toOption.join with
  | .ok (some same) => .ok same
  | .ok none => .error (.peerNoForwardData noData)
  | .error msg => .error (.deliveredInvalidHeader msg)

/-- The variables of the binary search, and how many probes there were. -/
structure AncestorSearch where
  probes : Nat
  lo : UInt64
  hi : UInt64

/-- The search goes on. -/
def AncestorSearch.Going (s : AncestorSearch) : Prop := s.lo < s.hi

instance : DecidablePred AncestorSearch.Going := fun s => inferInstanceAs (Decidable (s.lo < s.hi))

/-- The next height to probe: `lo + (hi - lo).div_ceil(2)`. -/
def AncestorSearch.mid (s : AncestorSearch) : UInt64 :=
  s.lo + ((s.hi - s.lo) / 2 + (s.hi - s.lo) % 2)

/-- A round of the binary search. -/
def TipContext.searchRound (ctx : TipContext) (deadline : Instant) (turn : TipTurn)
    (s : AncestorSearch) : Except TipValidationError AncestorSearch := do
  failIf (deadline ≤ turn.now) .deadlineExceeded
  let same ← ctx.probe s.probes turn s.mid
    ("empty / no-data response to ancestor midpoint probe at height " ++ toString s.mid.toNat)
  return if same then { s with probes := s.probes + 1, lo := s.mid }
    else { s with probes := s.probes + 1, hi := if s.mid = 0 then 0 else s.mid - 1 }

/-- The height of the last common block. -/
def TipContext.findAncestor (ctx : TipContext) (deadline : Instant) (claimHeight : UInt64)
    (turns : List TipTurn) : ExceptT TipValidationError Option (UInt64 × List TipTurn) := do
  let ourHeight := min ctx.ourHeightStart claimHeight
  let (turn, turns) ← nextTurn turns
  let same ← atOnce (ctx.probe 0 turn ourHeight
    ("empty response to ancestor probe at clamped height " ++ toString ourHeight.toNat ++
      " (our_height_start=" ++ toString ctx.ourHeightStart.toNat ++ ", claim_height=" ++
      toString claimHeight.toNat ++ ")"))
  if same then return (ourHeight, turns)
  else do
    let (s, turns) ← rounds AncestorSearch.Going (ctx.searchRound deadline) turns
      { probes := 1, lo := 0, hi := ourHeight }
    return (s.lo, turns)

/-- The node's own block at a height, as an anchor. -/
def TipContext.readAnchor (ctx : TipContext) (height : UInt64) :
    Except TipValidationError TipAnchor := do
  let blockId ← readRow
    ((ctx.storage .anchorId).getBlockIdByHeight (ctx.fault .anchorId) height)
    (fun e => "storage: " ++ e)
    ("no block at anchor_height " ++ toString height.toNat ++ " in storage")
  let header ← readRow ((ctx.storage .anchorHeader).getHeader (ctx.fault .anchorHeader) blockId)
    (fun e => "get_header: " ++ e) ("no header at anchor " ++ blockId.debug)
  return { height, blockId, header, isCheckpoint := false }

/-- The checkpoint, as an anchor. -/
def checkpointAnchor (turn : TipTurn) : Except TipValidationError TipAnchor := do
  let hdrs ← turn.fetch (buildGetHeaders assumeValidHeight 1)
  match hdrs with
  | [] => .error (.peerNoForwardData "empty response to checkpoint-header request")
  | hdr :: rest => do
    failIf (rest ≠ []) (.deliveredInvalidHeader ("checkpoint fetch returned " ++
      toString hdrs.length ++ " headers, expected 1"))
    failIf (hdr.height ≠ assumeValidHeight) (.deliveredInvalidHeader ("peer returned height " ++
      toString hdr.height.toNat ++ " for checkpoint request at " ++
      toString assumeValidHeight.toNat))
    failIf (hdr.blockId ≠ assumeValidHash) (.deliveredInvalidHeader
      ("peer served header at checkpoint height " ++ toString assumeValidHeight.toNat ++
        " with block_id " ++ hdr.blockId.hex ++ " != ASSUME_VALID_HASH"))
    return {
      height := assumeValidHeight
      blockId := hdr.blockId
      header := hdr
      isCheckpoint := true }

/-- The choice of the anchor: the checkpoint where the node has no chain and trusts its constants,
and otherwise the last common block. -/
def TipContext.selectAnchor (ctx : TipContext) (deadline : Instant) (claimHeight : UInt64)
    (turns : List TipTurn) : ExceptT TipValidationError Option (TipAnchor × List TipTurn) :=
  match ValidationRegime.select ctx.ourHeightStart ctx.assumeValid with
  | .bootstrap =>
    if ctx.assumeValid ∧ ctx.trusted then do
      let (turn, turns) ← nextTurn turns
      return (← atOnce (checkpointAnchor turn), turns)
    else atOnce (.error (.internal
      "bootstrap regime without trusted checkpoint constant; legacy path handles this"))
  | .steadyState => do
    let (height, turns) ← ctx.findAncestor deadline claimHeight turns
    return (← atOnce (ctx.readAnchor height), turns)

def anchorWork (work : Except String (Option Work)) (anchorBlockId : Hash256)
    (isCheckpointAnchor assumeValidCumulativeWorkTrusted : Bool) :
    Except TipValidationError Work :=
  if isCheckpointAnchor then
    if assumeValidCumulativeWorkTrusted then .ok assumeValidCumulativeWork
    else .error (.internal ("ASSUME_VALID_CUMULATIVE_WORK flagged untrusted at runtime; caller " ++
      "should have fallen through to --verify-all-equivalent"))
  else readRow work (fun e => "get_cumulative_work: " ++ e)
    ("anchor cumulative work not found for " ++ anchorBlockId.debug)

/-- `anchor_work` of the selected anchor. -/
def TipContext.workOf (ctx : TipContext) (anchor : TipAnchor) : Except TipValidationError Work :=
  anchorWork ((ctx.storage .work).getCumulativeWork (ctx.fault .work) anchor.blockId) anchor.blockId
    anchor.isCheckpoint ctx.stillTrusted

/-! ## Headers below the checkpoint -/

/-- The headers in memory, by id (`ForwardHeaderOverlay`). -/
abbrev HeaderOverlay := Exfer.Lib.Map Hash256 BlockHeader

/-- `ForwardHeaderOverlay::insert`. -/
def HeaderOverlay.insertHeader (overlay : HeaderOverlay) (header : BlockHeader) : HeaderOverlay :=
  overlay.insert header.blockId header

/-- The loop of `authenticate_prechckpt_headers`, from an index on. -/
def authenticateFrom (i : Nat) (expectedBlockId : Hash256) :
    List BlockHeader → Except TipValidationError Unit
  | [] => .ok ()
  | h :: batch => do
    failIf (h.blockId ≠ expectedBlockId) (.deliveredInvalidHeader
      ("pre-checkpoint header at batch index " ++ toString i ++ " has block_id " ++
        h.blockId.debug ++ ", expected " ++ expectedBlockId.debug ++
        " (hash-chain break from authenticated anchor)"))
    authenticateFrom (i + 1) h.prevBlockId batch

def authenticatePrechckptHeaders (anchor : BlockHeader) (batch : List BlockHeader) :
    Except TipValidationError Unit :=
  authenticateFrom 0 anchor.prevBlockId batch

/-- The variables of the lookback loop. -/
structure Lookback where
  collected : List BlockHeader
  nextHeight : UInt64

/-- The lookback goes on. -/
def Lookback.Going (s : Lookback) : Prop := s.nextHeight < assumeValidHeight

instance : DecidablePred Lookback.Going :=
  fun s => inferInstanceAs (Decidable (s.nextHeight < assumeValidHeight))

/-- A round of the lookback. -/
def lookbackRound (deadline : Instant) (turn : TipTurn) (s : Lookback) :
    Except TipValidationError Lookback := do
  failIf (deadline ≤ turn.now) .deadlineExceeded
  let remaining := assumeValidHeight - s.nextHeight
  let count := (min remaining (UInt64.ofNat maxGetblocksItems)).toUInt32
  let batch ← turn.fetch (buildGetHeaders s.nextHeight count)
  match batch with
  | [] => .error (.peerNoForwardData ("empty pre-checkpoint batch at start_height " ++
      toString s.nextHeight.toNat))
  | first :: _ => do
    failIf (first.height ≠ s.nextHeight ∨ count.toNat < batch.length) (.deliveredInvalidHeader
      ("malformed pre-checkpoint batch at start_height " ++ toString s.nextHeight.toNat ++
        ": len " ++ toString batch.length ++ ", first height " ++ toString first.height.toNat ++
        " (expected start " ++ toString s.nextHeight.toNat ++ ", max " ++ toString count.toNat ++
        ")"))
    return { collected := s.collected ++ batch
             nextHeight := s.nextHeight + UInt64.ofNat batch.length }

/-- `RETARGET_WINDOW`, as the source has it. -/
def retargetWindow64 : UInt64 := UInt64.ofNat retargetWindow

/-- The first retarget after the checkpoint. -/
def firstPostCheckpointRetarget : UInt64 :=
  (assumeValidHeight / retargetWindow64 + 1) * retargetWindow64

def lookbackSpan : UInt64 := retargetWindow64 - 1

/-- The headers below the checkpoint that the first retarget after it needs. -/
def fetchLookback (deadline : Instant) (anchor : BlockHeader) (overlay : HeaderOverlay)
    (turns : List TipTurn) : ExceptT TipValidationError Option (HeaderOverlay × List TipTurn) := do
  let lookbackStart :=
    if assumeValidHeight < lookbackSpan then 0 else assumeValidHeight - lookbackSpan
  let (s, turns) ← rounds Lookback.Going (lookbackRound deadline) turns
    { collected := [], nextHeight := lookbackStart }
  atOnce (failIf (s.collected.length ≠ lookbackSpan.toNat) (.deliveredInvalidHeader
    ("pre-checkpoint fetch incomplete: got " ++ toString s.collected.length ++ ", expected " ++
      toString lookbackSpan.toNat)))
  atOnce (authenticatePrechckptHeaders anchor s.collected.reverse)
  return (s.collected.foldl HeaderOverlay.insertHeader overlay, turns)

/-- The overlay as the forward loop begins: the anchor, and what lies below it where a retarget will
need it. -/
def startOverlay (deadline : Instant) (claimHeight : UInt64) (anchor : TipAnchor)
    (turns : List TipTurn) : ExceptT TipValidationError Option (HeaderOverlay × List TipTurn) :=
  let overlay := HeaderOverlay.insertHeader ∅ anchor.header
  if anchor.isCheckpoint ∧ firstPostCheckpointRetarget ≤ claimHeight then
    fetchLookback deadline anchor.header overlay turns
  else pure (overlay, turns)

/-! ## Forward headers -/

variable [Network]

/-- `ForwardHeaderOverlay::get_header`, in the reads of `expected_difficulty_overlay`. -/
def TipContext.overlayHeader (ctx : TipContext) (overlay : HeaderOverlay) (height : UInt64)
    (i : Nat) (id : Hash256) : Except String (Option BlockHeader) :=
  match overlay.lookup id with
  | some h => .ok (some h)
  | none => (ctx.storage (.ancestor height i)).getHeader (ctx.fault (.ancestor height i)) id

/-- `expected_difficulty_overlay`: the steps are those of `expected_difficulty`. -/
def TipContext.expectedDifficultyOverlay (ctx : TipContext) (overlay : HeaderOverlay)
    (prevBlockId : Hash256) (height : UInt64) : Except DifficultyError Hash256 :=
  expectedDifficulty (ctx.overlayHeader overlay height) prevBlockId height

def TipContext.validateOneForwardHeader (ctx : TipContext) (overlay : HeaderOverlay)
    (parentBlockId : Hash256) (expectedHeight : UInt64) (header : BlockHeader) :
    Except TipValidationError HeaderOverlay := do
  failIf (header.prevBlockId ≠ parentBlockId) (.deliveredInvalidHeader
    ("prev_block_id mismatch: got " ++ header.prevBlockId.debug ++ ", expected " ++
      parentBlockId.debug))
  failIf (header.height ≠ expectedHeight) (.deliveredInvalidHeader
    ("height mismatch: got " ++ toString header.height.toNat ++ ", expected " ++
      toString expectedHeight.toNat))
  match ctx.expectedDifficultyOverlay overlay header.prevBlockId header.height with
  | .error e => .error (.internal e.debug)
  | .ok expectedTarget => do
    failIf (header.difficultyTarget ≠ expectedTarget) (.deliveredInvalidHeader
      ("difficulty_target mismatch at height " ++ toString header.height.toNat ++ ": got " ++
        header.difficultyTarget.debug ++ ", expected " ++ expectedTarget.debug))
    match verifyPow header with
    | none => .error (.internal "pow")
    | some powOk => do
      failIf (! powOk) (.deliveredInvalidHeader ("PoW verification failed at height " ++
        toString header.height.toNat))
      return overlay.insertHeader header

/-- The variables of the forward loop. -/
structure Forward where
  overlay : HeaderOverlay
  lastBlockId : Hash256
  nextHeight : UInt64
  validated : List BlockHeader
  lastProgressAt : Instant

/-- The forward loop goes on. -/
def Forward.Going (claimHeight : UInt64) (s : Forward) : Prop := s.nextHeight ≤ claimHeight

instance (claimHeight : UInt64) : DecidablePred (Forward.Going claimHeight) :=
  fun s => inferInstanceAs (Decidable (s.nextHeight ≤ claimHeight))

/-- The headers of a batch, one after another. -/
def TipContext.validateBatch (ctx : TipContext) (checkedAt : Instant) :
    List BlockHeader → Forward → Except TipValidationError Forward
  | [], s => .ok s
  | h :: batch, s => do
    let overlay ← ctx.validateOneForwardHeader s.overlay s.lastBlockId s.nextHeight h
    ctx.validateBatch checkedAt batch
      { overlay
        lastBlockId := h.blockId
        nextHeight := s.nextHeight + 1
        validated := s.validated ++ [h]
        lastProgressAt := checkedAt }

/-- A round of the forward loop. -/
def TipContext.forwardRound (ctx : TipContext) (deadline : Instant) (regime : ValidationRegime)
    (claimHeight : UInt64) (turn : TipTurn) (s : Forward) : Except TipValidationError Forward := do
  failIf (deadline ≤ turn.now) .deadlineExceeded
  failIf (regime = .bootstrap ∧
    fromSecs bootstrapCoordinatorStallSecs ≤ turn.now - s.lastProgressAt) .bootstrapStalled
  -- the cast to `u32` cuts the number before the minimum is taken
  let count := min (claimHeight - s.nextHeight + 1).toUInt32 (UInt32.ofNat maxGetblocksItems)
  let batch ← turn.fetch (buildGetHeaders s.nextHeight count)
  match batch with
  | [] => .error (.peerNoForwardData ("empty forward batch starting at height " ++
      toString s.nextHeight.toNat))
  | first :: _ => do
    failIf (first.height ≠ s.nextHeight ∨ count.toNat < batch.length) (.deliveredInvalidHeader
      ("malformed batch: start height " ++ toString s.nextHeight.toNat ++ ", got " ++
        toString first.height.toNat ++ "; batch len " ++ toString batch.length ++ ", max " ++
        toString count.toNat))
    ctx.validateBatch turn.checkedAt batch s

def sumForwardWork (anchorWork : Work) (forwardHeaders : List BlockHeader) : Work :=
  forwardHeaders.foldl (fun total h => addWork total (workFromTarget h.difficultyTarget)) anchorWork

/-! ## The validation -/

/-- A tip that has been verified, and the headers that go into the pre-validated cache. -/
structure ValidatedTip where
  tip : VerifiedTip
  cached : List BlockHeader

/-- `anchor_still_canonical`, for an anchor of the node's own. -/
def TipContext.recheckAnchor (ctx : TipContext) (anchor : TipAnchor) :
    Except TipValidationError Unit :=
  if anchor.isCheckpoint then .ok ()
  else match (ctx.storage .recheck).getBlockIdByHeight (ctx.fault .recheck) anchor.height with
    | .error e => .error (.internal ("get_block_id_by_height: " ++ e))
    | .ok canonical => failIf (canonical ≠ some anchor.blockId) .anchorOrphaned

/-- The headers from the anchor to the claim. -/
def TipContext.validateForward (ctx : TipContext) (deadline : Instant) (claimHeight : UInt64)
    (claimBlockId : Hash256) (anchor : TipAnchor) (turns : List TipTurn) :
    ExceptT TipValidationError Option ValidatedTip := do
  let (overlay, turns) ← startOverlay deadline claimHeight anchor turns
  let regime := ValidationRegime.select ctx.ourHeightStart ctx.assumeValid
  let (s, _) ← rounds (Forward.Going claimHeight)
    (ctx.forwardRound deadline regime claimHeight) turns {
      overlay
      lastBlockId := anchor.blockId
      nextHeight := anchor.height + 1
      validated := []
      lastProgressAt := ctx.forwardAt }
  atOnce (failIf (s.lastBlockId ≠ claimBlockId) (.deliveredInvalidHeader
    ("forward chain terminates at block_id " ++ s.lastBlockId.debug ++ " but peer claimed " ++
      claimBlockId.debug)))
  let anchorCumWork ← atOnce (ctx.workOf anchor)
  atOnce (ctx.recheckAnchor anchor)
  return {
    tip := {
      height := claimHeight
      blockId := claimBlockId
      verifiedCumulativeWork := sumForwardWork anchorCumWork s.validated
      anchorHeight := anchor.height
      anchorBlockId := anchor.blockId
      headersValidated := s.validated.length }
    cached := s.validated }

/-- The body of `run_tip_forward_validation`. -/
def TipContext.validateTip (ctx : TipContext) (claimHeight : UInt64) (claimBlockId : Hash256)
    (turns : List TipTurn) : ExceptT TipValidationError Option ValidatedTip := do
  atOnce (failIf (! ctx.slotAvailable) .noSlotAvailable)
  let regime := ValidationRegime.select ctx.ourHeightStart ctx.assumeValid
  let expectedHeaders :=
    if claimHeight < ctx.ourHeightStart then 0 else claimHeight - ctx.ourHeightStart
  let deadline := ctx.startedAt + computeDeadline ctx.cores expectedHeaders regime
  let (anchor, turns) ← ctx.selectAnchor deadline claimHeight turns
  if claimHeight ≤ anchor.height then do
    -- the claimed id is not compared with that of the anchor
    let ourWork ← atOnce (ctx.workOf anchor)
    return {
      tip := {
        height := claimHeight
        blockId := claimBlockId
        verifiedCumulativeWork := ourWork
        anchorHeight := anchor.height
        anchorBlockId := anchor.blockId
        headersValidated := 0 }
      cached := [] }
  else ctx.validateForward deadline claimHeight claimBlockId anchor turns

structure ValidationResult where
  outcome : Except TipValidationError ValidatedTip
  recordStrike : Bool

def shouldStrike : Except TipValidationError ValidatedTip → Bool
  | .error (.deliveredInvalidHeader _) => true
  | _ => false

/-- `run_tip_forward_validation`. `none` while it waits for its peer. -/
def runTipForwardValidation (ctx : TipContext) (claimHeight : UInt64) (claimBlockId : Hash256)
    (turns : List TipTurn) : Option ValidationResult :=
  (ctx.validateTip claimHeight claimBlockId turns).run.map fun outcome =>
    { outcome, recordStrike := shouldStrike outcome }

end Exfer.Impl
