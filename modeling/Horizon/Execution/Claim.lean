import Horizon.Execution.Cancellation

/-!
# Admission

`Scheduler.claim` and what it rests on: the contexts an assignment retains on a
host, the slots and shared limits that are free, the workspace a session would
run in, and `start`, which writes the admission.  `heartbeat` renews the lease of
an admitted execution.

The order of the queue and the rotating scan cursor only choose among the
candidates of a poll; they are supplied by the environment.
-/

namespace Horizon

open Transaction

/-- Where an admitted session would run: in a registered workspace, or in one the
claim allocates. -/
inductive Placement where
  | existing (workspace : Workspace)
  | proposed (workspace : Workspace)

/-- The workspace of a placement. -/
def Placement.workspace : Placement → Workspace
  | .existing w | .proposed w => w

/-- What an admitted worker is told. -/
structure Grant where
  execution : Execution
  workspace : Workspace
  thread : ProviderThread
  maxParallelSubagents : Option Nat

namespace DB

variable (db : DB) (env : Env) (assignmentId hostId : Id) (item : Assignment) (id : WorkspaceId)

/-! ## Retained contexts -/

/-- The host of a workspace. -/
def workspaceHost : Option Id := ((db .workspace).find? id).map (·.hostId)

/-- The live primary contexts of an assignment. -/
def primaries (assignmentId : Id) : List ProviderThread :=
  (db .providerThread).rows.filter fun t => t.assignmentId == assignmentId && t.kind == .primary
    && t.status.isLive

/-- `retained_thread_for_host`: the latest resumable primary context on a host. -/
def retainedThreadForHost : Option ProviderThread :=
  ((db.primaries assignmentId).filter fun t => db.workspaceHost t.workspaceId == some hostId).foldl
    (fun best t => if best.all fun b => decide (b.updatedAt < t.updatedAt)
        || (b.updatedAt == t.updatedAt && decide (b.id ≤ t.id)) then some t else best) none

/-- `has_native_foreign_thread`: another host owns a context that cannot be cloned. -/
def hasNativeForeignThread : Bool :=
  (db.primaries assignmentId).any fun t => (db.workspaceHost t.workspaceId).any (· != hostId)
    && (t.status == .available || t.providerThreadId.isSome)

/-- Whether an assignment has a live execution. -/
def hasLiveExecution (assignmentId : Id) : Bool :=
  (db .execution).rows.any fun e => e.assignmentId == assignmentId && e.status.isLive

/-- The foreign prelaunch records that no execution, native context or request
stands behind any more. -/
def orphanedPrelaunchThreads : List ProviderThread :=
  if db.hasLiveExecution assignmentId
      || !(db .execution).rows.any (fun e => e.assignmentId == assignmentId
        && (e.status == .lost || e.status == .failed || e.status == .cancelled)) then []
  else (db.primaries assignmentId).filter fun t => t.status == .creating
    && (db.workspaceHost t.workspaceId).any (· != hostId) && t.providerThreadId.isNone
    && !(db .providerRequest).rows.any fun r => r.providerThreadId == t.id && r.status.isUnsettled

/-- The latest request on a context. -/
def latestRequest (threadId : Id) : Option ProviderRequest :=
  ((db .providerRequest).rows.filter (·.providerThreadId == threadId)).foldl
    (fun best r => if best.all fun b => decide (b.createdAt < r.createdAt)
        || (b.createdAt == r.createdAt && decide (b.id ≤ r.id)) then some r else best) none

/-- The native contexts of a legacy assignment whose latest turn failed. -/
def failedPrimaryContexts (run : Run) : List ProviderThread :=
  if run.orchestration = .objective ∨ item.status ≠ .pending ∨ db.hasLiveExecution item.id then []
  else (db.primaries item.id).filter fun t => t.status == .available && t.providerThreadId.isSome
    && (db.latestRequest t.id).any (·.status == .failed)

/-! ## Slots and limits -/

/-- The limits attached to a host's harness. -/
def attachedLimits (hostId harnessId : Id) : List ResourceLimit :=
  (db .resourceLimit).rows.filter fun l => db.has .hostHarnessLimit (hostId, harnessId, l.id)

/-- Whether a host accepts work: enabled, without reported pressure, and seen lately. -/
def hostHealthy (hostId : Id) : Bool :=
  ((db .host).find? hostId).any fun h => h.mode == .enabled && !h.pressure
    && h.heartbeatAt.any fun t => decide (env.now < t + env.config.hostStaleSeconds)

/-- `capacity`: the healthy enabled slots of some hosts, without those whose limits
are cooling down or open. -/
def capacity (hostIds : List Id) : List Slot :=
  (((db .hostHarness).rows.filter fun h => hostIds.contains h.hostId && h.enabled
    && db.hostHealthy env h.hostId && ((db .harness).find? h.harnessId).any (·.enabled)).map
    fun h =>
      { hostId := h.hostId, harnessId := h.harnessId, executionSlots := h.executionSlots
        maxParallelSubagents := h.maxParallelSubagents
        limits := db.attachedLimits h.hostId h.harnessId : Slot }).filter fun slot =>
    slot.limits.all fun l => !l.circuitOpen && l.cooldownUntil.all (· ≤ env.now)

/-- `limits_available`: every limit admits one more unit. -/
def limitsAvailable (limits : List ResourceLimit) : Bool :=
  limits.all fun l => !l.circuitOpen && l.maximum.all (db.claimedUnits l.id < ·)

/-! ## Workspaces -/

/-- `workspace_preparation`: a host can prepare the worktree of an assignment from
another ready workspace of the repository. -/
def workspacePreparation (assignmentId : Id) (w : Workspace) : Bool :=
  ((db .host).find? w.hostId).any (·.canPrepareWorkspace) && w.status == .preparing
    && w.path == .assignment assignmentId && w.branchName == .assignment assignmentId
    && (db .workspace).rows.any fun source => source.hostId == w.hostId
      && source.repositoryId == w.repositoryId && source.projectId == w.projectId
      && source.status == .ready && source.id != w.id

/-- `retained_workspaces`: a live session keeps its context there. -/
def workspaceRetained : Bool :=
  (db .providerThread).rows.any fun t =>
    t.workspaceId == id && t.kind == .primary && t.status.isLive
    && ((db .assignment).find? t.assignmentId).any (·.status.isLive)

/-- Whether a busy execution occupies a workspace. -/
def workspaceBusy : Bool :=
  (db .execution).rows.any fun e => e.workspaceId == id && db.executionBusy env.now e

/-- Whether a repository holds project workspaces. -/
def isWorkspaceRepository (repositoryId : Id) : Bool :=
  ((db .repository).find? repositoryId).any (·.purpose == .workspace)

/-- The workspace a claim would allocate on a host that can prepare one. -/
def proposedWorkspace (hostId projectId : Id) : Except Error (Option Placement) := do
  let run ← db.get .run item.runId
  let sources := (db .workspace).rows.filter fun w => w.hostId == hostId && w.projectId == projectId
    && w.status == .ready && db.isWorkspaceRepository w.repositoryId
  let propose (source : Workspace) (base : Id) : Placement :=
    .proposed { id := .allocated item.id hostId, projectId := source.projectId, hostId
                repositoryId := source.repositoryId, path := .assignment item.id
                branchName := .assignment item.id, baseCommitOid := base, headCommitOid := none
                status := .preparing }
  match run.phase with
  | .postprocessing pinnedId _ commit =>
    let pinned ← db.get .workspace pinnedId
    pure ((sources.find? (·.repositoryId == pinned.repositoryId)).map (propose · commit))
  | _ => pure (sources.head?.map fun source =>
      propose source (source.headCommitOid.getD source.baseCommitOid))

/-- `available_workspace`: the workspace an assignment may use on a host.  A retained
context keeps its own workspace. -/
def availableWorkspace (hostId : Id) : Except Error (Option Placement) := do
  if (db.latestPrimary item.id).any (! ·.status.isLive) then pure none
  else
    let host ← db.get .host hostId
    let projectId ← db.projectOfAssignment item.id
    let free := (db .workspace).rows.filter fun w => w.hostId == hostId && w.projectId == projectId
      && !db.workspaceBusy env w.id
    match db.retainedThreadForHost item.id hostId with
    | some previous =>
      pure ((free.find? fun w => w.id == previous.workspaceId).bind fun w =>
        if w.status = .ready ∨ db.workspacePreparation item.id w then some (.existing w) else none)
    | none =>
      if db.hasNativeForeignThread item.id hostId then pure none
      else
        let ready := free.filter fun w =>
          db.isWorkspaceRepository w.repositoryId && w.status == .ready
        match ready.find? (fun w => !db.workspaceRetained w.id), host.canPrepareWorkspace with
        | some w, _ => pure (some (.existing w))
        | none, false => pure (ready.head?.map .existing)
        | none, true => db.proposedWorkspace item hostId projectId

end DB

variable (env : Env) (item : Assignment) (db : DB) (hostId : Id)

theorem key_status (status : ThreadStatus) (t : ProviderThread) :
    key .providerThread { t with status } = t.id := rfl

/-- Give up a primary context. -/
def retireThread (t : ProviderThread) : Tx Unit := do
  let _ ← change env .providerThread t.id none fun t => { t with status := .unavailable }

/-- `retire_orphaned_prelaunch_threads`. -/
def retireOrphanedPrelaunchThreads (assignmentId hostId : Id) : Tx Unit := do
  let db ← get
  each (retireThread env) (db.orphanedPrelaunchThreads assignmentId hostId)

/-- `retire_failed_primary_contexts`. -/
def retireFailedPrimaryContexts (assignmentId : Id) : Tx Unit := do
  let item ← getRecord .assignment assignmentId
  let run ← getRecord .run item.runId
  let db ← get
  each (retireThread env) (db.failedPrimaryContexts item run)

/-- Reserve the shared limits of a slot for an admitted execution. -/
def reserve (executionId : Id) (units : Nat) (limit : ResourceLimit) : Tx Unit := do
  let db ← get
  let _ ← create .resourceClaim
    { id := env.uuid ((db .resourceClaim).rows.map (·.id)), resourceLimitId := limit.id, executionId
      providerRequestId := none, units, releasedAt := none }

/-- The primary context of an admitted session: the retained one, or a new one
pinned to the harness. -/
def primaryContext (harness : Harness) (workspaceId : WorkspaceId)
    (retained : Option ProviderThread) : Tx ProviderThread := do
  match retained with
  | some thread => pure thread
  | none =>
    let db ← get
    let pinned := if item.reviewerDescriptorId.isSome then env.obs.reviewHarness db item
      else (harness.id, harness.adapter)
    create .providerThread
      { id := env.uuid ((db .providerThread).rows.map (·.id)), revision := 1, updatedAt := env.now
        assignmentId := item.id
        number := nextNumber (·.number) (·.assignmentId == item.id) (db .providerThread).rows
        kind := .primary, parentRequestId := none, workspaceId, label := none, description := none
        harnessId := pinned.1, adapter := pinned.2, providerThreadId := none
        providerStateRef := .assignment item.id, predecessorId := none, status := .creating }

/-- The workspace of a placement, stored when the claim allocates it. -/
def placed : Placement → Tx Workspace
  | .existing w => pure w
  | .proposed w => create .workspace w

/-- The execution an admission records. -/
def admission (item : Assignment) (hostId harnessId : Id) (workspaceId : WorkspaceId)
    (reserved : Option Nat) : Execution :=
  { id := env.uuid ((db .execution).rows.map (·.id)), revision := 1, assignmentId := item.id
    number := nextNumber (·.number) (·.assignmentId == item.id) (db .execution).rows
    hostId, workspaceId, harnessId, nativeCapacity := reserved, status := .running
    leaseExpiresAt := env.now + env.config.leaseSeconds, heartbeatAt := some env.now
    startedAt := some env.now, finishedAt := none, stopConfirmedAt := none, failure := none }

/-- The recurrences that an admission moves on: the planner of an objective, and the
watch of a root maintainer. -/
def admitOwner (run : Run) : Tx Assignment := do
  if run.orchestration = .objective then
    let row ← admitted env item run
    rootAdmitted env row
    pure row
  else
    rootAdmitted env item
    pure item

/-- `Scheduler.start`: write an admission. -/
def start (run : Run) (slot : Slot) (placement : Placement) : Tx Grant := do
  let children ← query fun db => db.nativeCapacity env item run slot
  let reserved := if run.orchestration = .objective then children else some 0
  let item ← admitOwner env item run
  let workspace ← placed placement
  let _ ← getRecord .mission item.missionId
  let harness ← getRecord .harness slot.harnessId
  let db ← get
  let retained := db.retainedThreadForHost item.id slot.hostId
  let execution ← create .execution
      (admission env db item slot.hostId harness.id workspace.id reserved)
  each (reserve env execution.id (1 + reserved.getD 0)) slot.limits
  let _ ← change env .assignment item.id none fun a =>
    { a with status := .running, startedAt := some (item.startedAt.getD env.now), retryAt := none
             finishedAt := none, statusNote := none, checkpointRequestedAt := none }
  let thread ← primaryContext env item harness workspace.id retained
  let db ← get
  let _ ← create .principal
    { id := env.uuid ((db .principal).rows.map (·.id)), kind := .agent
      executionId := some execution.id, scheduler := false }
  pure { execution, workspace, thread, maxParallelSubagents := children }

/-! ## Polling -/

/-- The queued candidates of a host, of one profile. -/
def DB.candidates (supervisory : Bool) : List Assignment :=
  (db .assignment).rows.filter fun a => a.status == .pending
    && a.notBefore.all (· ≤ env.now) && a.retryAt.all (· ≤ env.now) && a.expiresAt.all (env.now < ·)
    && (a.functions.contains .orchestrator == supervisory)
    && ((db .runHost).find? (a.runId, hostId)).any (·.enabled)
    && ((db .run).find? a.runId).any fun r => (r.status == .active || r.status == .draining)
      && (r.orchestration == .legacy || r.pendingPhase.all (·.ownerSessionId == some a.id))

/-- Whether the latest admission on a host was not a supervisor's. -/
def DB.supervisorTurn : Bool :=
  (((db .execution).rows.filter (·.hostId == hostId)).getLast?.bind fun e =>
    (db .assignment).find? e.assignmentId).all (! ·.functions.contains .orchestrator)

/-- Whether a queued planner has to wait for the active one. -/
def DB.plannerWaits (item : Assignment) : Bool :=
  item.recurrenceKey == some (.plannerNext item.runId)
    && (db .assignment).rows.any fun a => a.recurrenceKey == some (.plannerActive item.runId)
      && a.status.isLive

/-- Admit a ready candidate on one slot, if the slot, its limits and a workspace
are free. -/
def offerSlot (item : Assignment) (run : Run) (slot : Slot) : Tx (Option Grant) := do
  let blocked ← query fun db => db.blocker env item run (some slot)
  if blocked.isSome || item.harnessId.any (· != slot.harnessId) then pure none
  else
    retireOrphanedPrelaunchThreads env item.id hostId
    retireFailedPrimaryContexts env item.id
    let db ← get
    let previous := db.retainedThreadForHost item.id hostId
    if previous.any (·.harnessId != slot.harnessId)
        || decide (slot.executionSlots ≤ db.busyWeight env.now (DB.onSlot hostId slot.harnessId))
        || !db.limitsAvailable slot.limits then pure none
    else
      match ← query fun db => db.availableWorkspace env item hostId with
      | none => pure none
      | some placement =>
        if previous.isNone && env.obs.prefersOtherHost db item placement.workspace.id then pure none
        else some <$> start env item run slot placement

/-- Offer a candidate the free slots of a host. -/
def offer (slots : List Slot) (item : Assignment) : Tx (Option Grant) := do
  let ready ← query fun db => db.readiness env item
  let db ← get
  if ready ≠ .true ∨ ¬ (db.unsettledRequests item.id).isEmpty then pure none
  else
    let run ← getRecord .run item.runId
    let blocked ← query fun db => db.blocker env item run none
    if blocked.isSome || db.plannerWaits item then pure none
    else firstSome (offerSlot env hostId item run) slots

/-- Scan the queued candidates of one profile. -/
def scan (slots : List Slot) (supervisory : Bool) : Tx (Option Grant) := do
  let db ← get
  firstSome (offer env hostId slots)
    (env.page db hostId supervisory (db.candidates env hostId supervisory))

/-- `Scheduler.claim`: admit one ready owner on an enabled host. -/
def claim (actor : Actor) (hostId : Id) (harnessIds : List Id) : Tx (Option Grant) := do
  query fun _ => DB.requireHost actor hostId
  let host ← getRecord .host hostId
  if host.mode ≠ .enabled then pure none
  else
    let _ ← change env .host hostId none fun h => { h with heartbeatAt := some env.now }
    if env.obs.storagePaused then pure none
    else
      let db ← get
      let slots := (db.capacity env [hostId]).filter fun s => harnessIds.contains s.harnessId
      let turn := db.supervisorTurn hostId
      match ← scan env hostId slots turn with
      | some grant => pure (some grant)
      | none => scan env hostId slots (!turn)

/-! ## Leases -/

/-- What a heartbeat tells the worker. -/
structure Heartbeat where
  stop : Bool
  continueRequest : Bool
  yieldRequest : Bool

/-- The requests on the primary contexts of an assignment, latest last. -/
def DB.primaryRequests (assignmentId : Id) : List ProviderRequest :=
  (db .providerRequest).rows.filter fun r =>
    ((db .providerThread).find? r.providerThreadId).any fun t =>
    t.assignmentId == assignmentId && t.kind == .primary

/-- `Scheduler.heartbeat`: renew a valid lease, unless the session has to stop. -/
def heartbeat (actor : Actor) (executionId : Id) (epoch : Nat) : Tx Heartbeat := do
  let execution ← getRecord .execution executionId
  query fun _ => DB.requireHost actor execution.hostId
  if execution.number ≠ epoch ∨ ¬ execution.status.isLive ∨ execution.leaseExpiresAt ≤ env.now then
    raise (.domain .staleEpoch "Execution lease is no longer valid" 409)
  else
    let item ← getRecord .assignment execution.assignmentId
    let run ← getRecord .run item.runId
    let _ ← change env .host execution.hostId none fun h => { h with heartbeatAt := some env.now }
    if execution.status = .stopping ∨ item.status = .stopping ∨ run.status = .stopping
        ∨ run.status = .cancelled ∨ item.expiresAt.any (· ≤ env.now) then
      pure { stop := true, continueRequest := false, yieldRequest := false }
    else
      let _ ← change env .execution executionId none fun e =>
        { e with heartbeatAt := some env.now, leaseExpiresAt := env.now + env.config.leaseSeconds }
      let retry ← query fun _ => retryPolicy run item
      let findings ← query fun db => db.completionFindings env item.id
      let db ← get
      let answered := (db.primaryRequests item.id).getLast?.any (·.status == .completed)
      let continuing := (run.orchestration == .objective || item.role != .maintainer) && answered
        && !findings.isEmpty
      let stalled := env.obs.progressStalled db item.id retry.maxNoProgressRequests
      let checkpoint := !findings.isEmpty && item.checkpointRequestedAt.isSome && answered
        && (db.settlementFindings env item.id false).isEmpty
      pure { stop := false, continueRequest := continuing && !stalled && !checkpoint
             yieldRequest := checkpoint || (continuing && stalled) }

end Horizon
