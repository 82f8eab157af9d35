import Horizon.Review.Decisions
import Horizon.Library.System

/-!
# Review gates

The steps of `integrations/connectors.py` that write Forge items, reviews and gates: a
synchronisation records what the Forge shows, and an operation that was delivered is settled
with what the remote side answered.  An approval by the maintainer opens the gate of an item
for the head it approves (`_activate_gate`); a changed head or target closes it
(`_invalidate_gate`).

A payload was prepared when its operation was queued and is settled later, so it is arbitrary
here, as are the answers of the remote side.  Labels, events and artifacts that a settlement
also writes are left out.
-/

namespace Horizon.Forge

/-- `_item_values`: what the Forge shows of an item. -/
structure Values where
  remoteNumber : Nat
  kind : ItemKind
  status : ItemStatus
  headCommitOid : Option Id
  targetBranch : Option String

/-- The item with the values observed. -/
def Item.observed (item : Item) (values : Values) : Item :=
  { item with
    remoteNumber := values.remoteNumber
    kind := values.kind
    status := values.status
    headCommitOid := values.headCommitOid
    targetBranch := values.targetBranch }

/-- The row of an item that is observed for the first time. -/
def Values.item (values : Values) (id repositoryId : Id) (originRunId : Option Id)
    (reviewPhase : Option PhaseKind) : Item where
  id := id
  repositoryId := repositoryId
  remoteNumber := values.remoteNumber
  kind := values.kind
  originRunId := originRunId
  reviewPhase := reviewPhase
  targetBranch := values.targetBranch
  status := values.status
  headCommitOid := values.headCommitOid

/-- What the remote side answers to a review. -/
structure RemoteReview where
  id : Id
  userId : Option Id
  commitId : Option Id
  /-- The verdict of its state, if that is known. -/
  verdict : Option Verdict
  baseOid : Option Id

/-- A delivered `forge_review` operation, with the identifiers that its settlement draws. -/
structure ReviewDelivery where
  operationId : Id
  createdAt : Instant
  payload : Payload
  remote : RemoteReview
  now : Instant
  reviewId : Id
  gateId : Id

/-- What is written. -/
inductive Step where
  /-- Records that a panel reads are changed elsewhere. -/
  | records (records : Records)
  | syncForge (repositoryId : Id) (observations : List (Values × Id))
  | classify (itemId : Id) (phase : PhaseKind)
  | forgeChange (itemId commitOid : Id)
  | forgeCreate (repositoryId originRunId : Id) (phase : PhaseKind) (values : Values) (id : Id)
  | forgeEdit (itemId : Id) (values : Values)
  | forgeMerge (itemId : Id)
  | forgeReview (delivery : ReviewDelivery)

def initial : Forge where
  records := {}
  items := .empty _
  reviews := .empty _
  deliveries := []
  gates := .empty _

variable (s : Forge) (d : ReviewDelivery) (payload : Payload) (itemId : Id)

/-! ## Items -/

/-- `change` of an item. -/
def changeItem (f : Item → Item) (hf : ∀ item, (f item).id = item.id) : Forge :=
  { s with items := s.items.modify itemId f hf }

/-- A gate without the evidence of an acceptance. -/
def Gate.closed (status : GateStatus) (gate : Gate) : Gate :=
  { gate with status := status, acceptedCommitOid := none, maintainerReviewId := none }

/-- `change` of the gate of an item. -/
def closeGate (status : GateStatus) : Forge :=
  { s with gates := s.gates.modify itemId (Gate.closed status) fun _ => rfl }

/-- `_invalidate_gate`. -/
def invalidateGate : Forge := s.closeGate itemId .stale

/-- The item recorded for what the Forge shows. -/
def recorded (repositoryId : Id) (values : Values) : Option Item :=
  s.items.rows.find? fun item => item.repositoryId = repositoryId ∧ item.kind = values.kind
    ∧ item.remoteNumber = values.remoteNumber

/-- Record a new item. -/
def addItem (item : Item) : Option Forge :=
  (s.items.insertNew item).map fun items => { s with items := items }

/-- One observation of `sync_forge`. -/
def observe (repositoryId : Id) (values : Values) (id : Id) : Option Forge :=
  match s.recorded repositoryId values with
  | none => s.addItem (values.item id repositoryId none none)
  | some old =>
    let next := s.changeItem old.id (·.observed values) fun _ => rfl
    if old.headCommitOid ≠ values.headCommitOid ∨ old.targetBranch ≠ values.targetBranch then
      some (next.invalidateGate old.id)
    else some next

/-- `sync_forge`: a batch of observations. -/
def syncForge (repositoryId : Id) : List (Values × Id) → Forge → Option Forge
  | [], s => some s
  | (values, id) :: observations, s =>
    (s.observe repositoryId values id).bind (syncForge repositoryId observations)

/-- The settlement of a `forge_change` that amends an item. -/
def settleChange (itemId commitOid : Id) : Option Forge :=
  (s.items.find? itemId).map fun _ =>
    (s.changeItem itemId (fun item => { item with headCommitOid := some commitOid })
      fun _ => rfl).invalidateGate itemId

/-- The settlement of a `forge_create`. -/
def settleCreate (repositoryId originRunId : Id) (phase : PhaseKind) (values : Values) (id : Id) :
    Option Forge :=
  match s.recorded repositoryId values with
  | none => s.addItem (values.item id repositoryId (some originRunId) (some phase))
  | some existing =>
    if (existing.originRunId ≠ none ∧ existing.originRunId ≠ some originRunId)
        ∨ (existing.reviewPhase ≠ none ∧ existing.reviewPhase ≠ some phase) then
      none
    else
      some (s.changeItem existing.id
        (fun item => { item.observed values with
          originRunId := some originRunId, reviewPhase := some phase })
        fun _ => rfl)

/-- The settlement of a `forge_edit`. -/
def settleEdit (values : Values) : Option Forge :=
  (s.items.find? itemId).map fun _ =>
    (s.changeItem itemId (·.observed values) fun _ => rfl).invalidateGate itemId

/-- The settlement of a `forge_merge`. -/
def settleMerge : Option Forge :=
  (s.items.find? itemId).map fun _ =>
    s.changeItem itemId (fun item => { item with status := .merged }) fun _ => rfl

/-- The classification of an item. -/
def classify (phase : PhaseKind) : Option Forge :=
  (s.items.find? itemId).map fun _ =>
    s.changeItem itemId (fun item => { item with reviewPhase := some phase }) fun _ => rfl

/-! ## Gates -/

/-- Close an accepted gate until another decision. -/
def suspendGate : Forge := s.closeGate itemId .pending

/-- The gate of the item of `gate`, with the other values of `gate`. -/
def Gate.replacedBy (gate g : Gate) : Gate := { gate with id := g.id, forgeItemId := g.forgeItemId }

/-- Open the gate of an item. -/
def acceptGate (gate : Gate) : Forge :=
  { s with
    gates :=
      if h : ∀ g ∈ s.gates.rows, g.forgeItemId ≠ gate.forgeItemId then s.gates.insert gate h
      else s.gates.modify gate.forgeItemId gate.replacedBy fun _ => rfl }

/-- Whether a delivered review may take an acceptance back: a reviewer's that does not
approve, or does not stem from an invocation. -/
def mayRevoke (review : Review) : Bool :=
  payload.reviewerDescriptorId.isSome && !payload.historical
    && (review.verdict == .changesRequested || review.verdict == .commented
      || review.verdict == .dismissed || payload.providerRequestId.isNone)

/-- The first part of `_activate_gate`: an accepted gate is suspended when its panel is no
longer complete. -/
def revokeGate (review : Review) : Except Error Forge :=
  match s.gates.find? payload.forgeItemId with
  | none => pure s
  | some gate =>
    if mayRevoke payload review ∧ gate.status = .accepted then do
      let item ← fetch "Forge item" Item.id s.items.rows payload.forgeItemId
      let policy ← s.records.policy gate.policyId
      let panel ← s.repositoryReviewPanel item policy none
      pure (if panel.isComplete then s else s.suspendGate payload.forgeItemId)
    else pure s

/-- Whether a delivered payload pins the policy that applies. -/
def pinsPolicy (policy : Option Policy) : Except Error Bool :=
  match payload.policyRevisionId with
  | none => pure false
  | some id => do
    let revision ← s.records.revision (some id)
    pure (policy.any fun policy => revision.reviewPolicyId == some policy.id
      && revision.objectRevision == policy.revision)

/-- Whether a delivered approval still fits its item. -/
def fits (baseChanged : Bool) (review : Review) (item : Item) : Bool :=
  !payload.historical && item.headCommitOid == some review.commitOid && item.status == .opened
    && payload.targetBranch == item.targetBranch && !baseChanged

/-- The second part of `_activate_gate`: a maintainer's approval opens the gate if the panel is
complete and nothing has changed since it was prepared. -/
def decideGate (baseChanged : Bool) (gateId : Id) (review : Review) : Except Error Forge := do
  let item ← fetch "Forge item" Item.id s.items.rows payload.forgeItemId
  let (policy, ready) ← s.reviewReadiness item (some payload)
  let pinned ← s.pinsPolicy payload policy
  let unchanged := pinned && fits payload baseChanged review item
  match policy, payload.policyRevisionId with
  | some policy, some policyRevisionId =>
    if ready && unchanged then
      pure (s.acceptGate
        { id := gateId
          forgeItemId := item.id
          policyId := policy.id
          policyRevisionId := policyRevisionId
          maintainerReviewId := some review.id
          status := .accepted
          acceptedCommitOid := some review.commitOid })
    else if unchanged && (s.gates.find? item.id).any (fun gate => gate.status == .accepted
        && gate.acceptedCommitOid == some review.commitOid) then
      pure (s.suspendGate item.id)
    else pure s
  | _, _ => pure s

/-- `_activate_gate`. -/
def activateGate (baseChanged : Bool) (gateId : Id) (review : Review) : Except Error Forge := do
  let s ← s.revokeGate payload review
  if review.verdict ≠ .approved ∨ payload.reviewerDescriptorId.isSome = true then pure s
  else s.decideGate payload baseChanged gateId review

/-! ## Reviews -/

/-- The payload with the base that the remote side saw. -/
def ReviewDelivery.verified : Payload :=
  if d.payload.reviewPlan then
    { d.payload with reviewBaseVerified := d.remote.baseOid == d.payload.expectedBaseOid }
  else d.payload

/-- Whether the base has moved since the payload was prepared. -/
def ReviewDelivery.baseChanged : Bool :=
  d.payload.expectedBaseOid.isSome && d.remote.baseOid != d.payload.expectedBaseOid

/-- The row of a review that is recorded for the first time. -/
def ReviewDelivery.review (verdict : Verdict) : Review where
  id := d.reviewId
  createdAt := d.now
  forgeItemId := d.payload.forgeItemId
  remoteId := d.remote.id
  reviewerDescriptorId := d.payload.reviewerDescriptorId
  reviewerDescriptorRevisionId := d.payload.reviewerDescriptorRevisionId
  providerRequestId := d.payload.providerRequestId
  verdict := verdict
  summary := d.payload.summary
  commitOid := d.payload.commitOid
  observedAt := d.now

/-- The operation as completed with its review. -/
def ReviewDelivery.delivered (review : Review) : Delivered where
  operationId := d.operationId
  createdAt := d.createdAt
  payload := d.verified
  reviewId := review.id

/-- The review of the remote side, if it is recorded already. -/
def previous : Option Review :=
  s.reviews.rows.find? fun row => row.forgeItemId = d.payload.forgeItemId
    ∧ row.remoteId = d.remote.id

/-- Whether the answer is by the identity that the payload names. -/
def isByIdentity : Bool :=
  match d.payload.integrationIdentityId with
  | none => d.remote.userId.isSome
  | some identityId => s.records.identities.any fun identity => identity.id == identityId
    && d.remote.userId == some identity.remoteUserId

/-- The review that an answer records. -/
def recordedReview : Option Review :=
  match d.remote.verdict with
  | none => none
  | some verdict =>
    if d.remote.commitId = some d.payload.commitOid ∧ s.isByIdentity d = true then
      some (d.review verdict)
    else none

/-- The gate is decided and the operation completed. -/
def settled (review : Review) : Option Forge :=
  match s.activateGate d.verified d.baseChanged d.gateId review with
  | .error _ => none
  | .ok next => some { next with deliveries := next.deliveries ++ [d.delivered review] }

/-- `_record_review`, in the settlement of its operation. -/
def settleReview : Option Forge :=
  match s.previous d with
  | some review => s.settled d review
  | none =>
    (s.recordedReview d).bind fun review => (s.reviews.insertNew review).bind fun reviews =>
      settled { s with reviews := reviews } d review

/-- What a step leads to; `none` if it is refused. -/
def next : Step → Option Forge
  | .records records => some { s with records := records }
  | .syncForge repositoryId observations => syncForge repositoryId observations s
  | .classify itemId phase => s.classify itemId phase
  | .forgeChange itemId commitOid => s.settleChange itemId commitOid
  | .forgeCreate repositoryId originRunId phase values id =>
    s.settleCreate repositoryId originRunId phase values id
  | .forgeEdit itemId values => s.settleEdit itemId values
  | .forgeMerge itemId => s.settleMerge itemId
  | .forgeReview delivery => s.settleReview delivery

end Forge

/-- The runs of the items of an installation. -/
def forge : System Forge Forge.Step := .ofFun Forge.initial Forge.next

end Horizon
