import Exfer.Impl.Network.Abuse
import Exfer.Impl.Network.Protocol
import Exfer.Impl.Node

/-!
# Stage A

`verify_stage_a_batch_linkage`, `verify_stage_a_anchor` and `stage_a_inner` of `network/sync.rs`:
the headers up to the checkpoint are fetched from one peer, in batches that have to link to each
other and end at the checkpoint. What the loop meets of its surroundings (the clock, the registry of
peers, the answers of `send_to_session`, the channel of headers) is a list of `StageATurn`s, one
for each time round the loop.
-/

namespace Exfer.Impl

open Lib (failIf)

inductive StageAOutcome where
  | success
  | timeout
  | peerDisconnected
  | emptyOrUncorrelatedResponse
  | deliveredInvalidHeader
  | deliveredForgedChain
  | sendFailed
  deriving DecidableEq

def maxInFlight : Nat := 8

def stageAProgressTimeout : Nat := fromSecs 120

/-- `n`: how many requests there are. -/
def stageARequests : UInt64 :=
  (assumeValidHeight + 1 + UInt64.ofNat maxGetblocksItems - 1) / UInt64.ofNat maxGetblocksItems

section Checks

variable [Crypto]

/-- The neighbours of a batch: contiguous heights, each linked to the one before. -/
def verifyNeighbours : List BlockHeader → Except StageAOutcome Unit
  | a :: b :: batch => do
    failIf (b.height ≠ a.height + 1) .deliveredInvalidHeader
    failIf (b.prevBlockId ≠ a.blockId) .deliveredInvalidHeader
    verifyNeighbours (b :: batch)
  | _ => .ok ()

def verifyStageABatchLinkage (batch : List BlockHeader) (prevLast : Option BlockHeader) :
    Except StageAOutcome Unit := do
  verifyNeighbours batch
  match prevLast, batch.head? with
  | some prev, some first => failIf (first.prevBlockId ≠ prev.blockId) .deliveredInvalidHeader
  | _, _ => .ok ()

def verifyStageAAnchor (headers : List BlockHeader) : Except StageAOutcome Unit :=
  match headers[assumeValidHeight.toNat]? with
  | none => .error .emptyOrUncorrelatedResponse
  | some anchor => failIf (anchor.blockId ≠ assumeValidHash) .deliveredForgedChain

end Checks

/-- What waiting for the next batch ends with. -/
inductive StageARecv where
  | headers (batch : List BlockHeader) (arrivedAt : Instant)
  | closed
  | elapsed

/-- What one turn of the loop meets. -/
structure StageATurn where
  shutdown : Bool
  now : Instant
  stillConnected : Bool
  /-- The answers of `send_to_session`; the turn waits for its peer where they run out. -/
  sends : List Bool
  recv : StageARecv

/-- The variables of `stage_a_inner`, and the messages it has sent. -/
structure StageAState where
  headers : List BlockHeader
  sendNextIdx : UInt64
  recvNextIdx : UInt64
  inFlight : Nat
  lastProgressAt : Instant
  sent : List Message

/-- The variables as the loop begins. -/
def StageAState.start (startInstant : Instant) : StageAState where
  headers := []
  sendNextIdx := 0
  recvNextIdx := 0
  inFlight := 0
  lastProgressAt := startInstant
  sent := []

/-- The fields of the node that a successful run sets. -/
structure StageANode where
  stageAAuthenticatedHeaders : Option (List BlockHeader)
  assumeValidVerified : Bool

/-- One more request is out. -/
def StageAState.request (s : StageAState) : StageAState :=
  { s with
    sendNextIdx := s.sendNextIdx + 1
    inFlight := s.inFlight + 1
    sent := s.sent ++ [.getHeaders
      { startHeight := s.sendNextIdx * UInt64.ofNat maxGetblocksItems
        maxCount := UInt32.ofNat maxGetblocksItems }] }

/-- The send side: the window of requests is filled. `none` while a request is held back. -/
def refillInFlight : List Bool → StageAState → Option (Except StageAOutcome StageAState)
  | [], s =>
    if s.inFlight < maxInFlight ∧ s.sendNextIdx < stageARequests then none else some (.ok s)
  | sent :: sends, s =>
    if s.inFlight < maxInFlight ∧ s.sendNextIdx < stageARequests then
      if sent then refillInFlight sends s.request else some (.error .sendFailed)
    else some (.ok s)

variable [Crypto]

/-- The last header received, to which the next batch has to link. -/
def prevLastForSeam (s : StageAState) : Except StageAOutcome (Option BlockHeader) :=
  if s.recvNextIdx = 0 then .ok none
  else match s.headers.getLast? with
    | some prev => .ok (some prev)
    | none => .error .deliveredInvalidHeader

/-- The receive side: a batch is checked and kept. -/
def receiveBatch (batch : List BlockHeader) (arrivedAt : Instant) (s : StageAState) :
    Except StageAOutcome StageAState := do
  let some first := batch.head? | .error .emptyOrUncorrelatedResponse
  failIf (first.height ≠ s.recvNextIdx * UInt64.ofNat maxGetblocksItems)
    .emptyOrUncorrelatedResponse
  let prevLast ← prevLastForSeam s
  verifyStageABatchLinkage batch prevLast
  return { s with
    headers := s.headers ++ batch
    recvNextIdx := s.recvNextIdx + 1
    inFlight := s.inFlight - 1
    lastProgressAt := arrivedAt }

/-- The loop of `stage_a_inner`, up to the headers it collects. `none` while it waits. -/
def collectHeaders : List StageATurn → StageAState →
    Option (Except StageAOutcome (List BlockHeader))
  | [], _ => none
  | turn :: turns, s =>
    if turn.shutdown then some (.error .timeout)
    else if stageAProgressTimeout ≤ turn.now - s.lastProgressAt then some (.error .timeout)
    else if ! turn.stillConnected then some (.error .peerDisconnected)
    else match refillInFlight turn.sends s with
      | none => none
      | some (.error e) => some (.error e)
      | some (.ok s) =>
        if stageARequests ≤ s.recvNextIdx then some (.ok s.headers)
        else match turn.recv with
          | .closed => some (.error .peerDisconnected)
          | .elapsed => some (.error .timeout)
          | .headers batch arrivedAt =>
            match receiveBatch batch arrivedAt s with
            | .error e => some (.error e)
            | .ok s => collectHeaders turns s

/-- `stage_a_inner`: the outcome, and the node it leaves. -/
def stageAInner (turns : List StageATurn) (startInstant : Instant) (node : StageANode) :
    Option (StageAOutcome × StageANode) :=
  match collectHeaders turns (.start startInstant) with
  | none => none
  | some (.error e) => some (e, node)
  | some (.ok headers) =>
    match verifyStageAAnchor headers with
    | .error e => some (e, node)
    | .ok () => some (.success,
        { stageAAuthenticatedHeaders := some headers, assumeValidVerified := true })

end Exfer.Impl
