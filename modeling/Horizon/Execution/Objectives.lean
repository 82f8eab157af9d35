import Horizon.Missions.Service

/-!
# Objective runs

`execution/objectives.py`: the single bounded planner recurrence of an objective
run, maintenance requests, the acceptance and advance of phases, and how an
ended execution settles its durable session.  Launching and reconciling runs
need the scheduler and come later.
-/

namespace Horizon

open Transaction

section

variable (env : Env) (run : Run) (rule : Automation)

/-- `child_mission`: a bounded mission under the root of the objective. -/
def childMission (title objective : String) (criteria : List String) : Tx Mission := do
  let parent ← getRecord .mission run.missionId
  let actor ← systemActor env
  mission env actor
    { projectId := parent.projectId, parentId := some parent.id
      expectedParentRevision := some parent.revision, roadmapDocumentId := run.objectiveId
      title, objective, acceptanceCriteria := criteria
      delegationNote := some "Delegated by the objective to a bounded session." }

/-- The data of the next planning pass of a run. -/
def plannerData : AssignmentCreate :=
  { runId := run.id, missionId := run.missionId, functions := [.planner], category := some .work
    startCondition := rule.startCondition }

/-- The pause a planner inherits from its rule. -/
def plannerPause : Option String :=
  if rule.enabled then none
  else some ("Planner automation paused: " ++ rule.pauseReason.getD "idle")

/-- `ensure_successor`: keep one queued planner.  A full queue is not an error:
admission backpressure comes before creating a child mission. -/
def ensureSuccessor : Tx (Option Assignment) := do
  if run.status ≠ .active then pure none
  else
    let db ← get
    match (db .assignment).rows.find? fun a =>
        a.recurrenceKey == some (.plannerNext run.id) && a.status.isLive with
    | some found => pure (some found)
    | none =>
      match db.validateEnqueue run (plannerData run rule) with
      | .error (.domain .queueFull _ _) => pure none
      | .error e => raise e
      | .ok _ =>
        let mission ← childMission env run "Plan the next useful work"
          "Plan the next bounded unit of useful work for this objective."
          ["The planning pass is accounted for with concrete owners or recorded waits."]
        let actor ← systemActor env
        let row ← assignment env actor
          { plannerData run rule with missionId := mission.id, notBefore := rule.notBefore }
          (some rule.id) true false
        let row ← change env .assignment row.id none fun a =>
          { a with recurrenceKey := some (.plannerNext run.id), pauseReason := plannerPause rule }
        pure (some row)

/-- `admitted`: an admitted planner gives up the queued key for the active one. -/
def admitted (item : Assignment) (run : Run) : Tx Assignment := do
  let db ← get
  match item.automationId.bind (db .automation).find? with
  | none => pure item
  | some rule =>
    if rule.name ≠ .objectivePlanner then pure item
    else
      let row ← change env .assignment item.id none fun a =>
        { a with recurrenceKey := some (.plannerActive run.id) }
      let _ ← ensureSuccessor env run rule
      pure row

/-- Whether a session closes its own bounded mission when it completes. -/
def RecurrenceKey.isMaintenance : RecurrenceKey → Bool
  | .review _ | .maintenance _ _ => true
  | .plannerNext _ | .plannerActive _ => false

/-- Close a mission. -/
def closeMission (id : Id) (status : MissionStatus) (note : String) : Tx Mission :=
  change env .mission id none fun m =>
    { m with status := status, closedAt := some env.now, closureNote := some note }

/-- The planner rule after a completed pass: unchanged evidence backs it off and
finally idles it, unless it was paused explicitly. -/
def settlePlanner : Tx Automation := do
  let db ← get
  let observed := env.obs.objectiveFrontier db run
  let unchanged := if some observed = rule.frontierHash then rule.noProgressCount + 1 else 0
  let delay := min env.config.plannerMaxIdleSeconds
    (env.config.plannerMinIntervalSeconds * 2 ^ min unchanged 16)
  let manualPause := rule.pauseReason.any (· ≠ "idle")
  let enabled := !manualPause && decide (unchanged < env.config.plannerMaxUnchangedPasses)
  let pauseReason := if manualPause then rule.pauseReason else if enabled then none else some "idle"
  change env .automation rule.id none fun a =>
    { a with frontierHash := some observed, noProgressCount := unchanged, enabled := enabled
             pauseReason := pauseReason, notBefore := some (env.now + delay) }

/-- `completed`: a completed session closes its bounded mission, and a planner
settles its rule and queues its successor. -/
def completed (item : Assignment) (run : Run) : Tx Unit := do
  if item.recurrenceKey.any RecurrenceKey.isMaintenance then
    let mission ← getRecord .mission item.missionId
    query fun db => db.ensureClosureAllowed mission false
    let _ ← closeMission env mission.id .completed
      "Review generation settled; unresolved work remains owned by the objective."
  else
    let db ← get
    match item.automationId.bind (db .automation).find? with
    | none => pure ()
    | some rule =>
      if rule.name ≠ .objectivePlanner then pure ()
      else
        let rule ← settlePlanner env run rule
        match ← ensureSuccessor env run rule with
        | none => pure ()
        | some successor =>
          let _ ← change env .assignment successor.id none fun a =>
            { a with notBefore := rule.notBefore, pauseReason := plannerPause rule }
        let mission ← getRecord .mission item.missionId
        let db ← get
        if (db.openChildren mission.id).isEmpty then
          let _ ← closeMission env mission.id .completed
            "Bounded planning pass accounted for; objective remains open."

/-- `request_maintenance`: ask for a bounded privileged decision.  `digest` is the
hash of the request, so that a repeated request finds its session. -/
def requestMaintenance (actor : Actor) (run : Run) (note : String) (evidence : List ObjectRef)
    (digest : Id) : Tx Assignment := do
  if run.orchestration ≠ .objective ∨ run.status ≠ .active ∨ run.pendingPhase.isSome then
    raise (.domain .objectiveNotActive "Maintenance requests need an active objective" 409)
  else
    query fun db => do
      if actor.kind = .agent then
        let live ← db.liveExecution env.now actor
        if live.assignment.runId ≠ run.id then
          refuse .scopeMismatch "Request maintenance only in your objective" 403
      let projectId ← db.projectOfRun run.id
      for ref in evidence do
        db.requireSameProject projectId ref
    let db ← get
    let key := RecurrenceKey.maintenance run.id digest
    match ((db .assignment).rows.filter fun a => a.recurrenceKey == some key).getLast? with
    | some existing => pure existing
    | none =>
      let data : AssignmentCreate :=
        { runId := run.id, missionId := run.missionId, role := .maintainer
          category := some .maintenance }
      let _ ← query fun db => db.validateEnqueue run data
      let mission ← childMission env run "Decide a maintenance request" note
        ["The request has an attributable decision and any repair has a durable owner."]
      let system ← systemActor env
      let row ← assignment env system { data with missionId := mission.id } none true false
      change env .assignment row.id none fun a => { a with recurrenceKey := some key }

end

/-! ## Phases -/

namespace DB

variable (db : DB) (env : Env)

/-- The next phase inferred when the acceptance does not give one. -/
def inferNextPhase (run : Run) (projectId : Id) (kind : PhaseKind) : Except Error RunPhase := do
  match kind with
  | .preprocessing => pure (.preprocessing (run.objectiveId.getD 0))
  | .formalization =>
    let project ← db.get .project projectId
    if project.workflow = .graph then pure (.formalization none)
    else
      let document ← db.get .document (run.objectiveId.getD 0)
      match ((db .roadmapSnapshot).rows.filter fun s => s.roadmapDocumentId == document.id
          && s.frozen && s.sourceCommitOid == document.sourceCommitOid).getLast? with
      | some snapshot =>
        if env.obs.baselineAccepted db snapshot.id then pure (.formalization (some snapshot.id))
        else refuse .baselineRequired "The roadmap snapshot is not an accepted baseline" 409
      | none =>
        refuse .baselineRequired
          "Accept the verified current roadmap baseline before proof work" 409
  | .postprocessing =>
    let targets := (db .repository).rows.filter fun r => r.projectId == projectId
      && r.purpose == .library && r.archivedAt.isNone
    let source :=
      ((db .workspace).rows.filter fun w => w.projectId == projectId && w.status == .ready
      && ((db .repository).find? w.repositoryId).any (·.purpose == .workspace)).getLast?
    match targets, source with
    | [target], some w =>
      pure (.postprocessing w.id target.id (w.headCommitOid.getD w.baseCommitOid))
    | _, _ =>
      refuse .phaseInputsRequired
        "Select an exact source workspace/commit and destination library" 409

/-- The inputs of the next phase stay inside the project and the objective. -/
def validateNextPhase (run : Run) (projectId : Id) : RunPhase → Except Error Unit
  | .preprocessing documentId => do
    let document ← sameProject Document.projectId (db.get .document documentId) projectId
    if document.kind ≠ .roadmap ∨ some document.id ≠ run.objectiveId then
      refuse .objectiveMismatch "The next phase must retain the same roadmap objective" 422
    else pure ()
  | .formalization (some snapshotId) => do
    let baseline ← sameProject RoadmapSnapshot.projectId
        (db.get .roadmapSnapshot snapshotId) projectId
    if !env.obs.baselineAccepted db baseline.id then
      refuse .baselineRequired "The roadmap snapshot is not an accepted baseline" 409
    else if some baseline.roadmapDocumentId ≠ run.objectiveId then
      refuse .objectiveMismatch "The next baseline belongs to another objective" 422
    else pure ()
  | .formalization none => do
    let project ← db.get .project projectId
    if project.workflow ≠ .graph then
      refuse .baselineRequired "This compatibility workflow requires a roadmap snapshot" 422
    else pure ()
  | .postprocessing source target commit => do
    let workspace ← sameProject Workspace.projectId (db.get .workspace source) projectId
    let repository ← sameProject Repository.projectId (db.get .repository target) projectId
    if repository.purpose ≠ .library ∨ workspace.status ≠ .ready
        ∨ (workspace.headCommitOid ≠ some commit ∧ workspace.baseCommitOid ≠ commit) then
      refuse .invalidPhaseInput "Postprocessing requires verified source and a library" 422
    else pure ()

/-- The session an agent accepts a phase from. -/
def acceptingSession (actor : Actor) (run : Run) : Except Error (Option Id) := do
  if actor.kind ≠ .agent then pure none
  else
    let live ← db.liveExecution env.now actor
    if live.assignment.runId ≠ run.id then
      refuse .scopeMismatch "Accept only the current objective" 403
    else pure (some live.assignment.id)

/-- The checks of `accept_phase`: the accepting session and the next phase. -/
def validateAcceptance (actor : Actor) (run : Run) (evidence : List ObjectRef)
    (nextPhase : Option RunPhase) : Except Error (Option Id × Option RunPhase) := do
  if run.orchestration ≠ .objective ∨ run.status ≠ .active ∨ run.pendingPhase.isSome then
    refuse .phaseNotActive "Accept one active objective phase at a time" 409
  else
    let projectId ← db.projectOfRun run.id
    let session ← db.acceptingSession env actor run
    for ref in evidence do
      db.requireSameProject projectId ref
    if (db .assignment).rows.any fun a => a.runId == run.id && a.status.isLive
        && a.recurrenceKey != some (.plannerNext run.id) && some a.id != session then
      refuse .phaseWorkActive
        "Account for other unfinished sessions before accepting this phase" 409
    else
      let nextKind := run.requestedPhases[run.phaseHistory.length + 1]?
      if nextPhase.any (some ·.kind ≠ nextKind) then
        refuse .phaseOrder "The next phase must match the requested objective sequence" 422
      else
        let phase ← match nextPhase, nextKind with
          | some phase, _ => pure (some phase)
          | none, some kind => some <$> db.inferNextPhase env run projectId kind
          | none, none => pure none
        match phase with
        | some phase => db.validateNextPhase env run projectId phase
        | none => pure ()
        pure (session, phase)

end DB

section

variable (env : Env)

/-- Cancel the unstarted planner superseded by an accepted phase, with its
mission. -/
def supersedePlanner (item : Assignment) : Tx Unit := do
  let _ ← change env .assignment item.id none fun a =>
    { a with status := .cancelled, finishedAt := some env.now
             statusNote := some "Phase accepted; successor superseded" }
  let _ ← closeMission env item.missionId .cancelled
    "Unstarted planning pass superseded by phase acceptance"

/-- `accept_phase`: record the decision before changing phase inputs. -/
def acceptPhase (actor : Actor) (run : Run) (note : String) (evidence : List ObjectRef)
    (nextPhase : Option RunPhase) : Tx Run := do
  let (session, phase) ← query fun db =>
    db.validateAcceptance env actor run evidence nextPhase
  let row ← change env .run run.id (some run.revision) fun r =>
    { r with phaseHistory := run.phaseHistory ++ [(run.phase, note)]
             pendingPhase := some ⟨phase, session⟩
             status := if run.autoAdvance then .active else .paused
             statusNote :=
               some "Phase accepted; waiting for current session and deliveries to settle" }
  let db ← get
  each (supersedePlanner env) ((db .assignment).rows.filter fun a =>
    a.recurrenceKey == some (.plannerNext run.id) && a.status == .pending)
  pure row

/-- `advance`: enter the accepted phase once the run has settled. -/
def advance (run : Run) : Tx Unit := do
  let db ← get
  let unsettled := (db .assignment).rows.any (fun a => a.runId == run.id
      && (a.status.isLive || env.obs.pendingDeliveries db a.id))
    || (db .execution).rows.any fun e => db.executionBusy env.now e
      && ((db .assignment).find? e.assignmentId).any (·.runId == run.id)
  match unsettled, run.pendingPhase with
  | true, _ => pure ()
  | false, none => pure ()
  | false, some ⟨none, _⟩ =>
    let root ← getRecord .mission run.missionId
    match db.ensureClosureAllowed root false with
    | .error _ => pure ()
    | .ok _ =>
      let _ ← closeMission env root.id .completed ((run.phaseHistory.getLast?.map (·.2)).getD "")
      let _ ← change env .run run.id none fun r =>
        { r with pendingPhase := none, status := .draining
                 statusNote := some "Requested phases accepted; settling objective" }
  | false, some ⟨some phase, _⟩ =>
    let row ← change env .run run.id none fun r =>
      { r with phase := phase, pendingPhase := none
               adoptedRoadmapSnapshotId := match phase with
                 | .formalization snapshot => snapshot
                 | _ => none
               statusNote := some "Accepted next phase; planner owns the next bounded decision" }
    let db ← get
    match (db .automation).rows.find? fun a => a.runId == run.id && a.name == .objectivePlanner with
    | none => raise (.integrity .automation)
    | some rule =>
      let rule ← change env .automation rule.id none fun a =>
        { a with enabled := true, pauseReason := none, noProgressCount := 0, notBefore := none
                 frontierHash := some (env.obs.objectiveFrontier db row) }
      let _ ← ensureSuccessor env row rule

end

/-! ## Settling an ended execution -/

/-- How an ended execution leaves its assignment.  An outer `none` keeps the
column. -/
structure Outcome where
  status : AssignmentStatus
  finishedAt : Option Instant
  retryAt : Option Instant := none
  pauseReason : Option (Option String) := none
  notBefore : Option (Option Instant) := none
  checkpointRequestedAt : Option (Option Instant) := none
  startCondition : Option (Option Condition) := none
  statusNote : Option (Option String) := none
  recoveryAttempts : Option Nat := none

/-- Write an outcome to an assignment. -/
def Outcome.apply (o : Outcome) (a : Assignment) : Assignment :=
  { a with
    status := o.status
    finishedAt := o.finishedAt
    retryAt := o.retryAt
    pauseReason := o.pauseReason.getD a.pauseReason
    notBefore := o.notBefore.getD a.notBefore
    checkpointRequestedAt := o.checkpointRequestedAt.getD a.checkpointRequestedAt
    startCondition := o.startCondition.getD a.startCondition
    statusNote := o.statusNote.getD a.statusNote
    recoveryAttempts := o.recoveryAttempts.getD a.recoveryAttempts }

/-- The outcomes a worker reports, and the one the watchdog records. -/
inductive ExecutionOutcome where
  | succeeded | failed | cancelled | lost | yielded
deriving DecidableEq

/-- Why a worker ended an execution. -/
inductive StopReason where
  | executionBudgetReached | requestBudgetReached | requestAdmissionNotAcknowledged
  | agentIntentsRequireReconciliation
  | other (text : String)
deriving DecidableEq

/-- `TRANSIENT_CODES`. -/
def FailureCode.isTransient : FailureCode → Bool
  | .connectionError | .rateLimited | .providerOverloaded | .timeout | .hostLost | .leaseExpired
  | .localOperationTimeout | .localExecutionUnavailable | .requestDeadline => true
  | _ => false

/-- The exponential backoff of a retry policy. -/
def RetryPolicy.delay (p : RetryPolicy) (attempts : Nat) : Nat :=
  min p.maxDelaySeconds (p.initialDelaySeconds * 2 ^ min (attempts - 1) 20)

/-- The retry policy of an assignment: its category's, or its run's. -/
def retryPolicy (run : Run) (item : Assignment) : Except Error RetryPolicy := do
  let settings ← policy run (category item)
  pure ((settings.map QueuePolicy.retryPolicy).getD run.retryPolicy)

namespace DB

variable (db : DB) (env : Env)

/-- The status of the latest primary context of an assignment. -/
def latestPrimary (assignmentId : Id) : Option ProviderThread :=
  ((db .providerThread).rows.filter fun t =>
    t.assignmentId == assignmentId && t.kind == .primary).foldl
    (fun best t => if best.all (·.number ≤ t.number) then some t else best) none

/-- The outcome of a failed or lost objective execution: the session is kept,
retried after a transient failure and paused otherwise. -/
def failureOutcome (item : Assignment) (retry : RetryPolicy) (failure : Option Failure) : Outcome :=
  let attempts := item.recoveryAttempts + 1
  let code := (failure.map Failure.code).getD .executionFailed
  let base : Outcome := { status := .pending, finishedAt := none, pauseReason := some none
                          recoveryAttempts := some attempts }
  if (db.latestPrimary item.id).any (·.status == .unavailable) then
    { base with
      pauseReason :=
        some (some ("Native context is unavailable; recover_context requires a diagnosis "
        ++ "and confirmed physical stop"))
      statusNote := some (some "Session and retry history preserved") }
  else if code.isTransient ∧ attempts ≤ retry.maxRecoveryAttempts then
    { base with
      retryAt := some (env.now + env.jitter (retry.delay attempts))
      statusNote := some (some ("Resume this session; recovery attempt " ++ toString attempts)) }
  else
    { base with
      pauseReason := some (some ((failure.map Failure.message).getD
        "Recovery limit reached; diagnose before resuming"))
      statusNote := some (some "Session preserved; automatic recovery paused") }

/-- `finish_values`: settle an execution of an objective run without replacing
its durable session or retry ledger. -/
def finishValues (item : Assignment) (run : Run) (status : ExecutionOutcome)
    (failure : Option Failure)
    (stopping : Bool) (reason : Option StopReason) (journalPending : Bool) :
    Except Error Outcome := do
  let retry ← retryPolicy run item
  let base : Outcome := { status := .pending, finishedAt := none, pauseReason := some none }
  if stopping ∨ status = .cancelled then
    pure { base with status := .cancelled, finishedAt := some env.now }
  else if status ≠ .succeeded ∧ status ≠ .yielded then
    pure (db.failureOutcome env item retry failure)
  else if journalPending then
    pure { base with notBefore := some (some (env.now + 60))
                     statusNote := some (some "Waiting to reconcile original API intents") }
  else if env.obs.pendingDeliveries db item.id then
    pure { base with checkpointRequestedAt := some (some env.now)
                     statusNote := some (some
                       "Waiting for durable delivery; retained session will resume") }
  else
    let findings ← db.completionFindings env item.id
    if findings.isEmpty then
      pure { base with
        status := .completed, finishedAt := some env.now, checkpointRequestedAt := some none
        startCondition := some none, notBefore := some none
        statusNote := some (some "Bounded session accounted for; mission acceptance is separate") }
    else if reason = some .executionBudgetReached ∨ reason = some .requestBudgetReached then
      pure { base with pauseReason := some (some
        "Execution budget reached; preserved work requires a recorded recovery decision") }
    else if item.checkpointRequestedAt.isSome ∧ env.obs.eventReadiness db item = .false then
      pure { base with statusNote := some (some
        "Waiting for the recorded event, including failed/cancelled outcomes") }
    else if env.obs.progressStalled db item.id retry.maxNoProgressRequests then
      pure { base with
        pauseReason := some (some "Repeated continuations have not accounted for outstanding work")
        statusNote := some (some ("; ".intercalate findings)) }
    else
      pure { base with notBefore := some (some (env.now + retry.initialDelaySeconds))
                       statusNote := some (some ("; ".intercalate findings)) }

end DB

end Horizon
