import Horizon.Execution.Tick

/-!
# Reviewer invocations

`review/invocations.py`: preparing a reviewer, as a native child of a maintainer
or as an assignment of its own, binding a native child to a prepared review, and
the provider reservations of native children.

Descriptors, policies and earlier owners of a review contract live in tables that
are not modelled; the environment says what they make of a request.
-/

namespace Horizon

open Transaction

/-- A request to prepare a reviewer. -/
structure ReviewerPrepare where
  parentRequestId : Id
  forgeItemId : Id
  reviewerDescriptorId : Id
  standalone : Bool

/-- What the descriptor and policy of a prepared reviewer pin. -/
structure ReviewContract where
  /-- The review already has an owner, which the request returns. -/
  existing : Bool
  harnessId : Id
  functions : List AgentFunction
  title : String
  objective : String

/-- The request named by a prepared-review label at the end of a native key. -/
def NativeId.invocationRef : NativeId → Option Id
  | .plain _ => none
  | .reviewLabel _ request => some request

/-- Whether a state reference is still the placeholder of a prepared review. -/
def StateRef.isPrepared : StateRef → Bool
  | .preparedReview _ => true
  | _ => false

namespace DB

variable (db : DB) (env : Env) (actor : Actor)

/-- `provider_limits`: the provider accounts attached to an execution's slot. -/
def accountLimits (execution : Execution) : List ResourceLimit :=
  (db.attachedLimits execution.hostId execution.harnessId).filter (·.kind == .providerAccount)

/-- The live maintainer execution behind a request. -/
def liveMaintainer : Except Error LiveExecution := do
  let live ← db.liveExecution env.now actor
  if live.assignment.role ≠ .maintainer then
    refuse .forbidden "Only the live maintainer can prepare or manage native reviewers" 403
  else pure live

/-- Whether a context is a native child. -/
def isChild (threadId : Id) : Bool := ((db .providerThread).find? threadId).any (·.kind == .child)

/-- `_capacity`: the limits a native reviewer has to reserve.  A capped objective
execution already reserved its children. -/
def reviewCapacity (execution : Execution) : Except Error (List ResourceLimit) := do
  match (db .hostHarness).find? (execution.hostId, execution.harnessId) with
  | none =>
    refuse .harnessUnavailable "The parent harness is disabled; no new reviewer may launch" 409
  | some slot =>
    if !slot.enabled then
      refuse .harnessUnavailable "The parent harness is disabled; no new reviewer may launch" 409
    else
      let active := ((db .providerRequest).rows.filter fun r => r.executionId == execution.id
        && r.status.isUnsettled && db.isChild r.providerThreadId).length
      let objective := db.isObjective execution.assignmentId
      let cap := if objective then execution.nativeCapacity else slot.maxParallelSubagents
      if cap.any (· ≤ active) then
        refuse .reviewCapacityUnavailable
          "Native reviewer capacity is occupied; reduce the batch or review directly" 409
      else if objective ∧ cap.isSome then pure []
      else
        let limits := db.accountLimits execution
        if limits.any fun l => l.circuitOpen || l.maximum.any (· ≤ db.claimedUnits l.id)
            || l.cooldownUntil.any (env.now < ·) then
          refuse .reviewCapacityUnavailable
            ("Shared provider capacity is occupied or cooling down; "
            ++ "reduce the batch or review directly") 409
        else pure limits

/-- The request and context of a prepared reviewer, owned by the live maintainer. -/
def ownedReview (requestId : Id) :
    Except Error (LiveExecution × ProviderRequest × ProviderThread) := do
  let live ← db.liveMaintainer env actor
  let request ← db.get .providerRequest requestId
  let thread ← db.get .providerThread request.providerThreadId
  if request.executionId ≠ live.execution.id
    ∨ thread.assignmentId ≠ live.execution.assignmentId then
    refuse .scopeMismatch "Reviewer belongs to another execution" 403
  else if request.reason ≠ .review ∨ thread.kind ≠ .child then
    refuse .notReviewInvocation "Request is not a prepared native reviewer" 422
  else pure (live, request, thread)

/-- The checks of `_prepare` on modelled records. -/
def validatePrepare (data : ReviewerPrepare) :
    Except Error (LiveExecution × ProviderRequest × ProviderThread) := do
  let live ← db.liveMaintainer env actor
  let parent ← db.get .providerRequest data.parentRequestId
  let thread ← db.get .providerThread parent.providerThreadId
  if parent.executionId ≠ live.execution.id ∨ thread.kind ≠ .primary
      ∨ (parent.status ≠ .submitted ∧ parent.status ≠ .running) then
    refuse .invalidReviewParent "Reviewer requires this maintainer's active primary request" 422
  else
    db.requireSameProject live.projectId (.forgeItem data.forgeItemId)
    let item ← db.get .forgeItem data.forgeItemId
    if item.status ≠ .opened then
      refuse .forgeItemClosed "Review preparation requires an open Forge item" 409
    else pure (live, parent, thread)

end DB

variable (env : Env)
  (execution : Execution) (request : ProviderRequest) (actor : Actor) (data : ReviewerPrepare)

/-- Reserve one unit of a limit for a native child. -/
def reserveChild (executionId requestId : Id) (limit : ResourceLimit) : Tx Unit := do
  let db ← get
  let _ ← create .resourceClaim
    { id := env.uuid ((db .resourceClaim).rows.map (·.id)), resourceLimitId := limit.id, executionId
      providerRequestId := some requestId, units := 1, releasedAt := none }

/-- A child context under a parent one. -/
def createChild (parent : ProviderThread) (parentRequestId : Id) (stateRef : StateRef)
    (native : Option NativeId) (status : ThreadStatus) : Tx ProviderThread := do
  let db ← get
  create .providerThread
    { id := env.uuid ((db .providerThread).rows.map (·.id)), revision := 1, updatedAt := env.now
      assignmentId := parent.assignmentId
      number :=
        nextNumber (·.number) (·.assignmentId == parent.assignmentId) (db .providerThread).rows
      kind := .child, parentRequestId := some parentRequestId, workspaceId := parent.workspaceId
      label := none, description := none, harnessId := parent.harnessId, adapter := parent.adapter
      providerThreadId := native, providerStateRef := stateRef, predecessorId := none, status }

/-- Prepare a native reviewer: its context, request and reservations. -/
def prepareNative (execution : Execution) (parent : ProviderRequest)
    (thread : ProviderThread) : Tx Unit := do
  let limits ← query fun db => db.reviewCapacity env execution
  let db ← get
  let requestId := env.uuid ((db .providerRequest).rows.map (·.id))
  let child ← createChild env thread parent.id (.preparedReview requestId) none .creating
  let request ← create .providerRequest
    { id := requestId, createdAt := env.now, providerThreadId := child.id,
      executionId := execution.id
      number := 1, reason := .review, reviewerDescriptorId := some data.reviewerDescriptorId
      providerTurnId := none, nativeBackground := none, status := .pending, submittedAt := none
      startedAt := none, finishedAt := none, failure := none }
  each (reserveChild env execution.id request.id) limits
  let _ ← createObligation env execution.assignmentId (some execution.id) .review
    "Publish the reviewer's findings and verify delivery."

/-- Prepare a reviewer assignment on a mission of its own. -/
def prepareAssignment (contract : ReviewContract) (live : LiveExecution) : Tx Unit := do
  let delegator ← getRecord .assignment live.execution.assignmentId
  let parent ← getRecord .mission delegator.missionId
  let row ← mission env actor
    { projectId := live.projectId, parentId := some parent.id
      expectedParentRevision := some parent.revision
      acceptanceCriteria := ["Deliver an exact-head reviewer assessment and verified Forge receipt"]
      delegationNote := some "Independently assess this PR against one pinned specialist rubric"
      roadmapDocumentId := parent.roadmapDocumentId, title := contract.title
      objective := contract.objective }
  let _ ← assignment env actor
    { runId := delegator.runId, missionId := row.id, parentId := some delegator.id
      reviewerDescriptorId := some data.reviewerDescriptorId, functions := contract.functions
      harnessId := some contract.harnessId } none true true
  let _ ← createObligation env delegator.id (some live.execution.id) .review
    "Publish the reviewer assignment's findings on the PR and verify delivery."

/-- `_prepare`, given what the unmodelled review tables make of the request. -/
def prepareReview (contract : Except Error ReviewContract) : Tx Unit := do
  let (live, parent, thread) ← query fun db => db.validatePrepare env actor data
  let contract ← query fun _ => contract
  if contract.existing then pure ()
  else if data.standalone then prepareAssignment env actor data contract live
  else prepareNative env data live.execution parent thread

/-! ## Binding native children -/

/-- `_bind_observed_child`: a duplicate observation of a pending review is merged
into it. -/
def bindObservedChild (prepared : ProviderRequest) (placeholder : ProviderThread)
    (observed : ProviderThread) (native : Option NativeId) (invocation : Option NativeId) :
    Tx (ProviderThread × ProviderRequest) := do
  let db ← get
  let conflict : Tx (ProviderThread × ProviderRequest) :=
    raise (.domain .reviewIdentityConflict ("Native child does not match one active "
      ++ "unregistered invocation of this pending review in the same execution and parent request; "
      ++ "preserve its history and reconcile explicitly") 409)
  match (db .providerRequest).rows.filter (·.providerThreadId == observed.id) with
  | [original] =>
    if placeholder.providerStateRef = .preparedReview prepared.id ∧ prepared.status = .pending
        ∧ prepared.providerTurnId.isNone ∧ observed.kind = .child
        ∧ observed.providerThreadId = native
        ∧ observed.parentRequestId = placeholder.parentRequestId
        ∧ observed.workspaceId = placeholder.workspaceId
        ∧ observed.harnessId = placeholder.harnessId
        ∧ original.executionId = execution.id ∧ original.reason = .continuation
        ∧ original.status = .running ∧ original.reviewerDescriptorId.isNone
        ∧ prepared.createdAt ≤ original.createdAt
        ∧ invocation.all (some · = original.providerTurnId) then
      let _ ← change env .providerRequest original.id none fun r =>
        { r with
          status := .interrupted, finishedAt := some env.now
          failure := some ⟨.execution, .other "review_binding_reconciled",
            "Duplicate native observation tracking reconciled into the prepared review"⟩ }
      releaseChildClaims env original.id env.now
      let request ← change env .providerRequest prepared.id none fun r =>
        { r with status := original.status, submittedAt := original.submittedAt
                 startedAt := original.startedAt, providerTurnId := original.providerTurnId
                 nativeBackground := original.nativeBackground }
      let _ ← change env .providerThread observed.id none fun t =>
        { t with status := .closed, providerThreadId := none
                 providerStateRef := .reconciledReview placeholder.id }
      let child ← change env .providerThread placeholder.id none fun t =>
        { t with label := some "hz_review" }
      pure (child, request)
    else conflict
  | _ => conflict

/-- The checks of `bind_native`. -/
def DB.validateBinding (db : DB) (execution : Execution) (parent : ProviderThread) (requestId : Id)
    (adapter : Adapter) (native : NativeId) : Except Error (ProviderRequest × ProviderThread) := do
  if adapter = .codexExec ∧ native.invocationRef.isSome then
    refuse .invalidArguments ("native_key must be the actual child ID returned by spawn_agent "
      ++ "(receiver_thread_id), not the hz_review task label.") 422
  else
    let request ← db.get .providerRequest requestId
    let child ← db.get .providerThread request.providerThreadId
    let parentRequest ← db.get .providerRequest (child.parentRequestId.getD 0)
    let ref := StateRef.nativeChild parent.id adapter native
    let nativeId := if adapter = .codexExec then some native else none
    if request.executionId ≠ execution.id ∨ request.reason ≠ .review
        ∨ parentRequest.providerThreadId ≠ parent.id then
      refuse .scopeMismatch "Native review binding belongs to another request" 422
    else if child.providerStateRef ≠ .preparedReview requestId
        ∧ (child.providerStateRef ≠ ref ∨ child.providerThreadId ≠ nativeId) then
      refuse .reviewIdentityChanged
        "Review invocation is already attached to another native child" 409
    else if ¬ request.status.isUnsettled ∧ child.providerStateRef.isPrepared then
      refuse .reviewCancelled "An unlaunched cancelled reviewer cannot be attached" 409
    else pure (request, child)

/-- The review a native observation is bound to: the prepared one, merged with an
observation of the same child that was recorded before. -/
def mergeObserved (child : ProviderThread)
    (ref : StateRef) (nativeId invocation : Option NativeId) :
    Tx (ProviderThread × ProviderRequest) := do
  let db ← get
  match (db .providerThread).rows.filter fun t =>
      t.assignmentId == child.assignmentId && t.id != child.id
        && (t.providerStateRef == ref || (nativeId.isSome && t.providerThreadId == nativeId)) with
  | [] => pure (child, request)
  | [other] => bindObservedChild env execution request child other nativeId invocation
  | _ =>
    raise (.domain .reviewIdentityConflict
      "Native child identity has multiple observed records; reconcile explicitly" 409)

/-- Record the native identity of a review on its context. -/
def identifyReview (child : ProviderThread) (ref : StateRef)
    (nativeId : Option NativeId) : Tx Unit := do
  if child.providerStateRef ≠ ref then
    let _ ← change env .providerThread child.id none fun t =>
      { t with providerStateRef := ref, providerThreadId := nativeId, status := .available }

/-- `bind_native`: attach a native observation to an authorized invocation. -/
def bindNative (parent : ProviderThread) (requestId : Id) (adapter : Adapter)
    (native : NativeId) (invocation : Option NativeId) (background : Option Bool) : Tx Unit := do
  let (request, child) ← query fun db =>
    db.validateBinding execution parent requestId adapter native
  let ref := StateRef.nativeChild parent.id adapter native
  let nativeId := if adapter = .codexExec then some native else none
  let (child, request) ← mergeObserved env execution request child ref nativeId invocation
  identifyReview env child ref nativeId
  if invocation.isSome ∧ request.providerTurnId.isSome ∧ request.providerTurnId ≠ invocation then
    raise (.domain .reviewIdentityChanged
      "Review invocation is already bound to another native call" 409)
  else
    let _ ← change env .providerRequest request.id none fun r =>
      { r with
        status := if request.status = .pending then .submitted else r.status
        submittedAt := if request.status = .pending then some env.now else r.submittedAt
        providerTurnId := request.providerTurnId.orElse fun _ => invocation
        nativeBackground := request.nativeBackground.orElse fun _ => background }

/-- `attach`. -/
def attachReview (requestId : Id) (native : NativeId) (invocation : Option NativeId)
    (background : Option Bool) : Tx Unit := do
  let (live, request, thread) ← query fun db => db.ownedReview env actor requestId
  let parent ← getRecord .providerRequest (thread.parentRequestId.getD 0)
  let parentThread ← getRecord .providerThread parent.providerThreadId
  bindNative env live.execution parentThread request.id thread.adapter native invocation background

/-- `cancel`: an unlaunched reviewer ends at once, a launched one becomes uncertain. -/
def cancelReview (requestId : Id) (note : String) : Tx Unit := do
  let (_, request, thread) ← query fun db => db.ownedReview env actor requestId
  let failure : Failure := ⟨.execution, .other "review_cancel_requested", note⟩
  if ¬ request.status.isUnsettled then pure ()
  else if request.status = .pending ∧ thread.providerStateRef.isPrepared then
    releaseChildClaims env request.id env.now
    let _ ← change env .providerThread thread.id none fun t => { t with status := .closed }
    let _ ← change env .providerRequest request.id none fun r =>
      { r with status := .interrupted, failure := some failure, finishedAt := some env.now }
  else
    let _ ← change env .providerRequest request.id none fun r =>
      { r with status := .uncertain, failure := some failure }

/-- Reserve a limit for an observed child that does not hold it yet. -/
def reserveObserved (limit : ResourceLimit) : Tx Unit := do
  let db ← get
  if (db .resourceClaim).rows.any fun c => c.providerRequestId == some request.id
      && c.resourceLimitId == limit.id && c.releasedAt.isNone then pure ()
  else reserveChild env execution.id request.id limit

/-- `account_observed_child`: observed children consume shared provider capacity. -/
def accountObservedChild (observed : Instant) : Tx Unit := do
  if ¬ request.status.isUnsettled then releaseChildClaims env request.id observed
  else
    let item ← getRecord .assignment execution.assignmentId
    let run ← getRecord .run item.runId
    if run.orchestration = .objective ∧ execution.nativeCapacity.isSome then pure ()
    else
      let db ← get
      each (reserveObserved env execution request) (db.accountLimits execution)

end Horizon
