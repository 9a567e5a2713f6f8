import Exfer.Impl.Node

/-!
# Stored reorg triggers

What the map and the queue of `ReorgTriggerState` stand for together: one queue of the triggers that
are stored, each with the number of the call that stored it.
-/

namespace Exfer.Spec

open Impl

inductive TriggerCall where
  | insert (ancestorId : Hash256) (triggerBlock : Block)
  | take (ancestorId : Hash256)

/-- A stored trigger, with the number of the call that stored it. -/
structure Trigger where
  arrival : Nat
  ancestorId : Hash256
  block : Block

/-- The triggers that wait for an ancestor. -/
def waitingFor (ancestorId : Hash256) (queue : List Trigger) : List Trigger :=
  queue.filter (·.ancestorId = ancestorId)

namespace TriggerCall

def apply (t : ReorgTriggerState) : TriggerCall → ReorgTriggerState
  | insert ancestorId triggerBlock => (t.insert ancestorId triggerBlock).1
  | take ancestorId => (t.take ancestorId).1

/-- The call of this number on the queue: a trigger over the limit of its ancestor is not stored, and
one over the limit of the queue costs the front. -/
def enqueue (queue : List Trigger) (number : Nat) : TriggerCall → List Trigger
  | insert ancestorId triggerBlock =>
    if (waitingFor ancestorId queue).length ≥ maxTriggersPerAncestor then queue
    else queue.drop (queue.length + 1 - maxGlobalTriggers) ++ [⟨number, ancestorId, triggerBlock⟩]
  | take ancestorId => queue.filter (·.ancestorId ≠ ancestorId)

/-- The state after the calls, from an empty one. -/
def run (calls : List TriggerCall) : ReorgTriggerState :=
  calls.foldl apply .new

/-- The triggers stored after the calls. -/
def queueOf (calls : List TriggerCall) : List Trigger :=
  calls.zipIdx.foldl (fun queue (call, number) => call.enqueue queue number) []

end TriggerCall

end Exfer.Spec
