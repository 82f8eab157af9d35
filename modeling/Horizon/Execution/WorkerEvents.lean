import Horizon.Providers.ProviderEvents

/-!
# Worker receipts

`execution/worker_events.py`: the operations a worker replays from its journal.
Activity and publication receipts go to evidence tables that are not modelled;
their checks are kept.
-/

namespace Horizon

open Transaction

/-- The unresolved agent intents a host reports with a stop receipt. -/
structure IntentReconciliation where
  pending : Nat
  consecutiveObservations : Nat
  /-- The listed intents, as the blocker describes them. -/
  listing : String
deriving DecidableEq

/-- A stop receipt. -/
structure ExecutionFinished where
  status : ExecutionOutcome
  providerThreadId : Option NativeId := none
  failure : Option Failure := none
  reason : Option StopReason := none
  intents : Option IntentReconciliation := none
deriving DecidableEq

/-- A native stream event, as `normalize` reads it. -/
structure NativeEvent where
  requestId : Id
  adapter : Adapter
  children : List ChildObservation
  usageKeys : List NativeId
deriving DecidableEq

/-- The provider observations of a worker. -/
inductive ProviderEvent where
  | requestStarted (requestId : Id) (goal : String) (input : InputRevisions)
  | requestCompleted (requestId : Id) (completed : Bool) (failure : Option Failure)
      (providerThreadId : Option NativeId)
  | nativeEvent (event : NativeEvent)
  | other
deriving DecidableEq

/-- How far the preservation of a commit has come. -/
inductive PublicationStage where
  | discovered | verified | failed
deriving DecidableEq

/-- The payloads of worker operations. -/
inductive WorkerPayload where
  | activity
  | publication (stage : PublicationStage) (repositoryId commitOid : Id)
  | workspacePrepared (workspaceId : WorkspaceId) (headCommitOid : Id) (branchName : WorkspacePath)
  | executionFinished (receipt : ExecutionFinished)
  | providerObserved (threadId : Option Id) (event : ProviderEvent)
deriving DecidableEq

/-- A worker operation of an execution, at its epoch. -/
structure WorkerOperation where
  executionId : Id
  epoch : Nat
  occurredAt : Instant
  payload : WorkerPayload
deriving DecidableEq

section

variable (env : Env) (execution : Execution)

/-- `JOURNAL_BLOCKER_PREFIX`. -/
def journalBlockerPrefix : String := "Reconcile the local API intent journal"

/-- The journal blockers of an assignment, as the host recognises them: by the start
of their description. -/
def DB.journalBlockers (db : DB) (assignmentId : Id) : List Obligation :=
  (db .obligation).rows.filter fun o => o.assignmentId == assignmentId
    && o.createdByExecutionId.isSome && startsWith o.description journalBlockerPrefix

/-- Keep one open blocker for the unresolved intents of an assignment. -/
def openJournal (description : String) : Tx Unit := do
  let db ← get
  let rows := db.journalBlockers execution.assignmentId
  let id := ObligationId.journalBlocker execution.assignmentId
  match rows.find? (·.id == id) with
  | none =>
    let _ ← create .obligation
      { id, revision := 1, updatedAt := env.now, assignmentId := execution.assignmentId
        createdByExecutionId := some execution.id
        number :=
          nextNumber (·.number) (·.assignmentId == execution.assignmentId) (db .obligation).rows
        kind := .blocker, description, status := .opened, resolution := none }
  | some current =>
    if current.status ≠ .opened ∨ current.description ≠ description then
      let _ ← change env .obligation id none fun o =>
        { o with status := .opened, resolution := none, description := description }
  each (fun (o : Obligation) => do
    let _ ← change env .obligation o.id none fun o =>
      { o with status := .superseded
               resolution := some (.superseded
                 "The host tracks this journal in one stable recovery obligation." [id]) })
    (rows.filter fun o => o.id != id && o.status == .opened)

/-- Settle the journal blockers once the host confirms that no intent remains. -/
def closeJournal : Tx Unit := do
  let db ← get
  each (fun (o : Obligation) => do
    let _ ← change env .obligation o.id none fun o =>
      { o with status := .done
               resolution := some (.completed ("The owning host replayed the local API journal and "
                 ++ "confirmed that no pending or rejected intents remain.") []) })
    ((db.journalBlockers execution.assignmentId).filter (·.status == .opened))

/-- `reconcile_agent_journal`. -/
def reconcileAgentJournal (state : Option IntentReconciliation) (unresolved : Bool) : Tx Unit := do
  if unresolved then
    openJournal env execution (journalBlockerPrefix ++ " with horizon-pipeline agent pending."
      ++ (state.map (·.listing)).getD "")
  else if state.any (·.pending == 0) then closeJournal env execution

end

section

variable (env : Env) (execution : Execution) (receipt : ExecutionFinished)

/-- Interrupt the unsettled requests of an execution. -/
def interruptRequests (executionId : Id) (at_ : Instant) : Tx Unit :=
  updateWhere env .providerRequest (fun _ r => r.executionId == executionId && r.status.isUnsettled)
    fun r =>
    { r with status := .interrupted, finishedAt := some at_ }

/-- Whether a stop receipt reports an admission that never launched its provider. -/
def DB.prelaunchAbort (db : DB) (execution : Execution) (primary : ProviderThread)
    (receipt : ExecutionFinished) : Bool :=
  receipt.status == .yielded && primary.status == .creating
    && (receipt.reason == some .requestAdmissionNotAcknowledged
      || receipt.reason == some .executionBudgetReached)
    && !(db .providerRequest).rows.any fun r => r.providerThreadId == primary.id
      && (r.executionId != execution.id || r.startedAt.isSome || r.providerTurnId.isSome
        || r.status == .completed || r.status == .failed)

/-- What a stop receipt says about the primary context of its assignment. -/
def settleContext : Tx Unit := do
  let db ← get
  match (db.primaries execution.assignmentId).head? with
  | none => pure ()
  | some primary =>
    match receipt.providerThreadId.orElse fun _ => primary.providerThreadId with
    | some native =>
      if primary.providerThreadId.any (· ≠ native) then
        raise (.domain .contextIdentityChanged
          "Stop receipt names a different native context" 422)
      else
        let _ ← change env .providerThread primary.id none fun t =>
          { t with providerThreadId := some native, status := .available }
    | none =>
      if receipt.status ≠ .succeeded
          ∧ (db .providerRequest).rows.any (·.providerThreadId == primary.id)
          ∧ ¬ db.prelaunchAbort execution primary receipt then
        let _ ← change env .providerThread primary.id none
            (fun t => { t with status := .unavailable })
          (key_status _)

/-- The failure a stop receipt stands for when it carries none. -/
def ExecutionFinished.impliedFailure : Option Failure :=
  receipt.failure.orElse fun _ => match receipt.status with
    | .lost => some ⟨.host, .hostLost, "Provider execution did not complete"⟩
    | .failed => some ⟨.execution, .executionFailed, "Provider execution did not complete"⟩
    | _ => none

/-- Older workers reported a provider failure only with their stop receipt. -/
def backfillFailure (first : Bool) : Tx Unit := do
  let db ← get
  match receipt.failure with
  | none => pure ()
  | some failure =>
    if first ∧ receipt.status = .failed
      ∧ (failure.kind = .provider ∨ failure.kind = .transport) then
      match ((db .providerRequest).rows.filter fun r => r.executionId == execution.id
          && ((db .providerThread).find? r.providerThreadId).any (·.kind == .primary)).getLast? with
      | none => pure ()
      | some latest =>
        if latest.status = .failed ∧ latest.failure.isNone then
          let _ ← change env .providerRequest latest.id none fun r =>
              { r with failure := some failure }

/-- The outcome of an execution whose lease had already expired. -/
def observedOutcome (live : Bool) (execution : Execution) (receipt : ExecutionFinished) :
    ExecutionOutcome × Option Failure :=
  if !live && (execution.status == .starting || execution.status == .running) then
    (.lost, some ⟨.host, .leaseExpired, "Observed after execution lease expired"⟩)
  else (receipt.status, receipt.impliedFailure)

/-- Whether a stop receipt leaves agent intents unresolved. -/
def ExecutionFinished.unresolved : Bool :=
  match receipt.intents with
  | some state => state.pending != 0
  | none => receipt.reason == some .agentIntentsRequireReconciliation

/-- Reconcile the journal of a live execution; intents that stay unresolved across
executions turn its outcome into a failure. -/
def journalOutcome (live : Bool) (execution : Execution) (receipt : ExecutionFinished)
    (outcome : ExecutionOutcome × Option Failure) : Tx (ExecutionOutcome × Option Failure) := do
  if live && (receipt.intents.isSome || receipt.unresolved) then
    reconcileAgentJournal env execution receipt.intents receipt.unresolved
    let item ← getRecord .assignment execution.assignmentId
    let run ← getRecord .run item.runId
    let db ← get
    let limit := run.retryPolicy.maxNoProgressRequests
    let stalled := match receipt.intents with
      | some state => decide (limit ≤ state.consecutiveObservations)
      | none => env.obs.progressStalled db item.id limit
    if receipt.unresolved && stalled then
      pure (.failed, some ⟨.execution, .agentIntentReconciliationStalled,
        "The same local API intents remain unresolved across recovery executions."⟩)
    else pure outcome
  else pure outcome

theorem key_confirmed (env : Env) (e : Execution) :
    key .execution { e with stopConfirmedAt := some env.now } = e.id := rfl

/-- The first stop receipt of an execution confirms its stop. -/
def confirmStop : Tx Execution := do
  if execution.stopConfirmedAt.isNone then
    change env .execution execution.id none fun e => { e with stopConfirmedAt := some env.now }
  else pure execution

/-- The handling of `execution_finished`: the daemon's receipt follows the cleanup of
its process, also after central fencing. -/
def executionFinished (actor : Actor) (execution : Execution) (live : Bool) (occurredAt : Instant)
    (receipt : ExecutionFinished) : Tx Unit := do
  let first := execution.stopConfirmedAt.isNone
  let execution ← confirmStop env execution
  interruptRequests env execution.id occurredAt
  settleContext env execution receipt
  backfillFailure env execution receipt first
  let outcome ← journalOutcome env live execution receipt (observedOutcome live execution receipt)
  let _ ← finish env actor execution outcome.1 outcome.2 receipt.unresolved receipt.reason
  releaseClaims env execution.id occurredAt

end

variable (env : Env)
  (execution : Execution) (live : Bool) (thread : ProviderThread) (occurredAt : Instant)

/-- The handling of `workspace_prepared`. -/
def workspacePrepared (workspaceId : WorkspaceId)
    (headCommitOid : Id) (branchName : WorkspacePath) : Tx Unit := do
  if !live then
    raise (.domain .staleEpoch
      "A fenced execution cannot acknowledge workspace preparation" 409)
  else
    let w ← getRecord .workspace execution.workspaceId
    if workspaceId ≠ w.id ∨ w.hostId ≠ execution.hostId
        ∨ w.path ≠ .assignment execution.assignmentId
        ∨ w.branchName ≠ .assignment execution.assignmentId then
      raise (.domain .scopeMismatch
        "Workspace preparation must identify this execution's allocated worktree" 422)
    else if headCommitOid ≠ w.baseCommitOid ∨ branchName ≠ w.branchName then
      raise (.domain .workspaceSnapshotMismatch
        "Prepared workspace differs from its pinned commit or branch" 422)
    else match w.status with
      | .preparing =>
        let _ ← change env .workspace w.id none fun w =>
          { w with status := .ready, headCommitOid := some headCommitOid }
      | .ready => pure ()
      | _ =>
        raise (.domain .workspaceUnavailable
          "Workspace preparation was retired or fenced" 409)

/-- The handling of `request_started`. -/
def requestStarted (requestId : Id) (goal : String) (input : InputRevisions) : Tx Unit := do
  if !live then
    raise (.domain .staleEpoch "A fenced execution cannot submit a provider request" 409)
  else
    let w ← getRecord .workspace execution.workspaceId
    if w.status ≠ .ready then
      raise (.domain .workspaceNotReady
        "Acknowledge verified workspace preparation before starting the provider" 409)
    else if !thread.status.isLive then
      raise (.domain .contextUnavailable "Provider context is unavailable" 409)
    else if !hasText goal then
      raise (.domain .invalidInput
        "Provider input must be recorded before submission" 422)
    else
      let item ← getRecord .assignment execution.assignmentId
      let db ← get
      if input.mission.any (·.1 ≠ item.missionId) then
        raise (.domain .scopeMismatch "Provider input pins another mission" 422)
      else
        let _ ← create .providerRequest
          { id := requestId, createdAt := env.now, providerThreadId := thread.id
            executionId := execution.id
            number :=
              nextNumber (·.number) (·.providerThreadId == thread.id) (db .providerRequest).rows
            reason := if item.reviewerDescriptorId.isSome then .review
              else if thread.providerThreadId.isSome then .continuation else .assignment
            reviewerDescriptorId := item.reviewerDescriptorId, providerTurnId := none
            nativeBackground := none, status := .submitted, submittedAt := some occurredAt
            startedAt := none, finishedAt := none, failure := none, input := input }

/-- The request of a provider event, which has to belong to its execution and
context. -/
def DB.ownedRequest (db : DB) (execution : Execution) (thread : ProviderThread) (requestId : Id) :
    Except Error ProviderRequest := do
  let request ← db.get .providerRequest requestId
  if request.executionId ≠ execution.id ∨ request.providerThreadId ≠ thread.id then
    refuse .scopeMismatch "Provider result does not belong to this execution" 422
  else pure request

/-- Record the mission revision that a completed request consumed, unless a newer one is
applied. -/
def applyMissionRevision (request : ProviderRequest) (thread : ProviderThread) : Tx Unit := do
  if request.input.mission.any fun incoming => thread.applied.mission.all fun previous =>
      decide (previous.2 ≤ incoming.2) then
    let _ ← change env .providerThread thread.id none fun t =>
      { t with applied := { t.applied with mission := request.input.mission } }

/-- Record the run revision that a completed request consumed, with its roadmap snapshot. -/
def applyRunRevision (request : ProviderRequest) (thread : ProviderThread) : Tx Unit := do
  if request.input.run.any fun incoming => decide (thread.applied.run.getD 0 ≤ incoming) then
    let _ ← change env .providerThread thread.id none fun t =>
      { t with applied := { t.applied with
          run := request.input.run, roadmapSnapshotId := request.input.roadmapSnapshotId } }

/-- The handling of `request_completed`.  A settled request stays as it is. -/
def requestCompleted
    (requestId : Id) (completed : Bool) (failure : Option Failure) (native : Option NativeId) :
    Tx Unit := do
  let request ← query fun db => db.ownedRequest execution thread requestId
  if !request.status.isUnsettled then pure ()
  else
    let _ ← change env .providerRequest request.id none fun r =>
      { r with status := if completed then .completed else .failed, finishedAt := some occurredAt
               failure := if completed then none else failure }
    match native with
    | none => pure ()
    | some native =>
      if thread.providerThreadId.any (· ≠ native) then
        raise (.domain .contextIdentityChanged
          "Native context changed without explicit recovery" 422)
      else
        let _ ← change env .providerThread thread.id none fun t =>
          { t with providerThreadId := some native, status := .available }
    if completed then
      applyMissionRevision env request thread
      applyRunRevision env request thread

/-- The handling of `native_event`: the turn has started, and its children are
projected. -/
def nativeEvent (event : NativeEvent) : Tx Unit := do
  let request ← query fun db => db.ownedRequest execution thread event.requestId
  if request.status = .pending ∨ request.status = .submitted then
    let _ ← change env .providerRequest request.id none fun r =>
      { r with status := .running, startedAt := some (request.startedAt.getD occurredAt) }
  projectObservation env execution thread event.requestId event.adapter event.children
    event.usageKeys occurredAt

/-- The handling of `provider_observed`. -/
def providerObserved (threadId : Option Id) (event : ProviderEvent) : Tx Unit := do
  match threadId with
  | none =>
    raise (.domain .missingContext "Provider event needs its recorded context" 422)
  | some threadId =>
    let thread ← getRecord .providerThread threadId
    if thread.assignmentId ≠ execution.assignmentId then
      raise (.domain .scopeMismatch "Provider context belongs to another assignment" 422)
    else match event with
      | .requestStarted requestId goal input =>
        requestStarted env execution live thread occurredAt requestId goal input
      | .requestCompleted requestId completed failure native =>
        requestCompleted env execution thread occurredAt requestId completed failure native
      | .nativeEvent event => nativeEvent env execution thread occurredAt event
      | .other => pure ()

/-- `handle`: replay a worker operation.  Its execution has to belong to the host and
carry the operation's epoch. -/
def handle (actor : Actor) (operation : WorkerOperation) : Tx Unit := do
  let execution ← getRecord .execution operation.executionId
  query fun _ => DB.requireHost actor execution.hostId
  if execution.number ≠ operation.epoch then
    raise (.domain .staleEpoch "Worker epoch does not match its recorded execution" 409)
  else
    let live := (execution.status == .starting || execution.status == .running)
      && decide (env.now < execution.leaseExpiresAt)
    match operation.payload with
    | .activity => pure ()
    | .publication _ repositoryId _ =>
      let w ← getRecord .workspace execution.workspaceId
      if repositoryId ≠ w.repositoryId then
        raise (.domain .scopeMismatch
          "Worker can preserve only its assigned repository" 422)
    | .workspacePrepared workspaceId head branch =>
      workspacePrepared env execution live workspaceId head branch
    | .executionFinished receipt =>
      executionFinished env actor execution live operation.occurredAt receipt
    | .providerObserved threadId event =>
      providerObserved env execution live operation.occurredAt threadId event

end Horizon
