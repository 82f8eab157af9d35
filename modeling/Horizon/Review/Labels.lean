import Horizon.Machine
import Horizon.Integrations.Outbox

/-!
# The label of an awaited review

The review demand of an item is authoritative; the `awaiting-review` label on the Forge is a
projection of it.  A request and a settlement queue a label operation in their own
transaction.  When it is delivered, the labels that the remote side reports are recorded and
compared with the demand again (`repair_label`).

What is sent is computed from the demand at the claim (`label_projection`).  What the remote
side reports afterwards can still be anything, as other processes deliver at the same time,
so the label a delivery records is arbitrary here.  The delivery of any other label operation
records the reported labels too, and repairs nothing.  What the delivery of an edit records of an
item is a synchronisation of the item, which the control plane has as an operation.
-/

namespace Horizon

/-- Whether an operation delivers the review label of an item. -/
def Delivery.isReviewLabel (itemId : Id) (d : Delivery) : Bool :=
  d.kind == .forgeLabel && d.payload.forgeItemId == some itemId && d.payload.reviewGeneration.isSome

/-- Whether an operation delivers other labels of an item. -/
def Delivery.isOtherLabel (itemId : Id) (d : Delivery) : Bool :=
  d.kind == .forgeLabel && d.payload.forgeItemId == some itemId && d.payload.reviewGeneration.isNone

/-- The operation that an item and a generation are to be labelled by. -/
def labelOperation (now : Instant) (id itemId : Id) (generation : Nat) : Delivery where
  id := id
  createdAt := now
  kind := .forgeLabel
  payload := { forgeItemId := some itemId, reviewGeneration := some generation }

namespace DB

variable (db : DB)

/-- The item and the generation that an operation of the control plane queues a label for:
a request always does, a settlement does for the current generation.  The unique key that
refuses a second label for the same settlement is not modelled, so such runs are among those
considered. -/
def labelOf (after : DB) (operation : Operation) : Option (Id × Nat) :=
  match operation with
  | .command _ (.requestReview itemId _ _) =>
    ((after .reviewDemand).find? itemId).map fun demand => (itemId, demand.generation)
  | .command _ (.settleReview itemId generation _) =>
    ((db .reviewDemand).find? itemId).bind fun demand =>
      if generation = demand.generation then some (itemId, generation) else none
  | _ => none

/-- Record the label that the remote side reports. -/
def recordLabel (itemId : Id) (labelled : Bool) : DB :=
  db.write .forgeItem
    ((db .forgeItem).modify itemId (fun i => { i with awaitingReview := labelled }) fun _ => rfl)

/-- `repair_label`: what a recorded label that does not fit the demand is corrected by. -/
def repairLabel (itemId : Id) : Option (Id × Nat) :=
  match (db .forgeItem).find? itemId, (db .reviewDemand).find? itemId with
  | some item, some demand =>
    let wants := item.status == .opened && demand.attention
      && decide (demand.handledGeneration < demand.generation)
    if wants = item.awaitingReview then none else some (itemId, demand.generation)
  | _, _ => none

end DB

/-- The operation that a settlement completes. -/
def Outbox.completedBy (s : Outbox) : OutboxStep → Option Delivery
  | .settle _ attemptId => do
    let a ← s.attempts.find? attemptId
    let d ← s.operations.find? a.operationId
    match a.phase with
    | .done => if d.isHeldBy s.now a.owner a.epoch then some d else none
    | _ => none
  | _ => none

/-- Queue a label, if there is one to queue. -/
def Outbox.queueLabel (s : Outbox) (id : Id) : Option (Id × Nat) → Option Outbox
  | none => some s
  | some (itemId, generation) => s.queue (labelOperation s.now id itemId generation)

/-- The control plane with its outbox. -/
structure LabelledPlane where
  plane : DB
  outbox : Outbox

/-- What happens to them.  An operation that a step queues gets the identifier of the step. -/
inductive LabelStep where
  | plane (l : Label) (operationId : Id)
  | outbox (step : OutboxStep) (labelled : Bool) (operationId : Id)

namespace LabelledPlane

variable (s : LabelledPlane)

/-- A transaction of the control plane, with the label it queues. -/
def onPlane (l : Label) (operationId : Id) : Option LabelledPlane :=
  match l.run s.plane with
  | .error _ => none
  | .ok (_, plane) =>
    (s.outbox.queueLabel operationId (s.plane.labelOf plane l.operation)).map (⟨plane, ·⟩)

/-- A delivered label is recorded; the label of a review is repaired if need be. -/
def afterDelivery (outbox : Outbox) (labelled : Bool) (operationId : Id) :
    Option Delivery → Option LabelledPlane
  | none => some ⟨s.plane, outbox⟩
  | some d =>
    match d.kind, d.payload.forgeItemId with
    | .forgeLabel, some itemId =>
      let plane := s.plane.recordLabel itemId labelled
      if d.payload.reviewGeneration.isSome then
        (outbox.queueLabel operationId (plane.repairLabel itemId)).map (⟨plane, ·⟩)
      else some ⟨plane, outbox⟩
    | _, _ => some ⟨s.plane, outbox⟩

/-- A step of the outbox.  Review labels are queued by the control plane only. -/
def onOutbox (maxAttempts : Nat) (step : OutboxStep) (labelled : Bool) (operationId : Id) :
    Option LabelledPlane :=
  match step with
  | .queue d =>
    if d.payload.reviewGeneration.isSome then none
    else (s.outbox.next maxAttempts (.queue d)).map (⟨s.plane, ·⟩)
  | step => (s.outbox.next maxAttempts step).bind fun outbox =>
    s.afterDelivery outbox labelled operationId (s.outbox.completedBy step)

def next (maxAttempts : Nat) : LabelStep → Option LabelledPlane
  | .plane l operationId => s.onPlane l operationId
  | .outbox step labelled operationId => s.onOutbox maxAttempts step labelled operationId

end LabelledPlane

/-- The runs of the control plane and its outbox. -/
def labelledPlane (maxAttempts : Nat) : System LabelledPlane LabelStep :=
  .ofFun ⟨Database.empty key, .initial⟩ fun s => s.next maxAttempts

end Horizon
