import Horizon.Execution.Claim

/-!
# Launching runs

`Scheduler.run` and `objectives.launch`: the checks and writes that create a run,
its hosts and its recurring rule.  Objective runs get one planner, legacy runs one
root maintainer; the orchestrated profile is refused for new runs.
-/

namespace Horizon

open Transaction

/-- The data of a new run. -/
structure RunCreate where
  missionId : Option Id := none
  objectiveId : Option Id := none
  phase : Option RunPhase := none
  /-- Whether the launched phase asks for the retired supervisor profile. -/
  orchestrated : Bool := false
  hostIds : List Id := []
  orchestration : Orchestration := .objective
  queuePolicies : List (Category × QueuePolicy)
  requestedPhases : List PhaseKind := []
  autoAdvance : Bool := true
  maxAssignments : Option Nat := none
  tokenBudget : Option Nat := none
  expiresAt : Option Instant := none
  retryPolicy : RetryPolicy

/-- `RunCreate.valid_objective`: the contract of a launch request. -/
def RunCreate.isValid (data : RunCreate) : Bool :=
  (data.missionId.isSome || data.objectiveId.isSome)
    && (data.orchestration == .objective || (data.missionId.isSome && data.phase.isSome
      && !data.hostIds.isEmpty && data.phase != some (.formalization none)))
    && (data.queuePolicies.lookup .work).any (·.role == .worker)
    && (data.queuePolicies.lookup .maintenance).any (·.role == .maintainer)
    && decide data.requestedPhases.Nodup

/-- `two_usable_slots`: two concrete allocations, accounting for shared limits. -/
def twoUsableSlots (slots : List Slot) : Bool :=
  (slots.tails.flatMap fun rest => match rest with
    | [] => []
    | first :: others => (first, true) :: others.map (·, false) |>.map fun second =>
      (first, second)).any
    fun (first, second, same) =>
      (!same || decide (2 ≤ first.executionSlots))
        && (first.limits ++ second.limits).all fun l =>
          l.maximum.all fun maximum =>
            ((first.limits ++ second.limits).filter (·.id == l.id)).length ≤ maximum

namespace DB

variable (db : DB) (env : Env)

/-- The document a legacy run's phase works from. -/
def phaseDocument : RunPhase → Except Error (Option Id)
  | .preprocessing documentId => pure (some documentId)
  | .formalization (some snapshotId) => do
    let snapshot ← db.get .roadmapSnapshot snapshotId
    pure (some snapshot.roadmapDocumentId)
  | _ => pure none

/-- A legacy launch respects the objectives that are already owned. -/
def validateLegacyOwnership (mission : Mission) (phase : RunPhase) : Except Error Unit := do
  let documents := mission.roadmapDocumentId.toList ++ (← db.phaseDocument phase).toList
  if (db .run).rows.any fun r => r.orchestration == .objective && r.status.isLive
      && r.objectiveId.any documents.contains then
    refuse .objectiveAlreadyActive
      "Settle the existing objective before launching legacy orchestration" 409
  else pure ()

/-- `matching_policy`: at most one review policy, and one for a legacy run. -/
def matchingPolicy (repositoryId : Id) (kind : PhaseKind) (required : Bool) : Except Error Unit :=
  let count := env.obs.reviewPolicies db repositoryId kind
  if 1 < count then
    refuse .ambiguousReviewPolicy "Repository and phase match multiple review policies" 409
  else if required ∧ count = 0 then
    refuse .missingReviewPolicy "Protected repository needs a review policy for this phase" 409
  else pure ()

/-- The inputs of a launched phase: the document it works from, if any. -/
def validatePhase (data : RunCreate) (mission : Mission) (phase : RunPhase) :
    Except Error (Option Document) := do
  let projectId := mission.projectId
  let required := data.orchestration = .legacy
  match phase with
  | .preprocessing documentId =>
    let document ← sameProject Document.projectId (db.get .document documentId) projectId
    if document.kind ≠ .roadmap then
      refuse .invalidPhaseInput "Preprocessing requires a roadmap document" 422
    else
      db.matchingPolicy env document.sourceRepositoryId phase.kind required
      pure (some document)
  | .formalization (some snapshotId) =>
    let snapshot ← sameProject RoadmapSnapshot.projectId
        (db.get .roadmapSnapshot snapshotId) projectId
    if !env.obs.baselineAccepted db snapshot.id then
      refuse .baselineRequired "The roadmap snapshot is not an accepted baseline" 409
    else
      let document ← db.get .document snapshot.roadmapDocumentId
      db.matchingPolicy env document.sourceRepositoryId phase.kind required
      pure (some document)
  | .formalization none =>
    let project ← db.get .project projectId
    if data.orchestration ≠ .objective ∨ project.workflow ≠ .graph then
      refuse .baselineRequired "This compatibility workflow requires a roadmap snapshot" 422
    else
      let document ← sameProject Document.projectId
        (db.get .document ((data.objectiveId.orElse fun _ => mission.roadmapDocumentId).getD 0))
        projectId
      if document.kind ≠ .roadmap then
        refuse .invalidObjective "Formalization requires a roadmap objective" 422
      else
        db.matchingPolicy env document.sourceRepositoryId phase.kind required
        pure (some document)
  | .postprocessing source target commit =>
    let workspace ← sameProject Workspace.projectId (db.get .workspace source) projectId
    let repository ← sameProject Repository.projectId (db.get .repository target) projectId
    if workspace.status ≠ .ready ∨ repository.purpose ≠ .library then
      refuse .invalidPhaseInput "Postprocessing requires a ready workspace and a library target" 422
    else if workspace.headCommitOid ≠ some commit ∧ workspace.baseCommitOid ≠ commit then
      refuse .sourceUnverified "Register a workspace verified at the requested source commit" 422
    else
      db.matchingPolicy env repository.id phase.kind required
      pure none

/-- The checks of `Scheduler.run`. -/
def validateRun (actor : Actor) (data : RunCreate) (missionId : Id) (phase : RunPhase) :
    Except Error Mission := do
  let mission ← db.get .mission missionId
  db.requireProject env.now actor mission.projectId .maintainer
  if mission.status ≠ .opened then
    refuse .missionClosed "An active run requires an open mission" 409
  if data.orchestration = .legacy then db.validateLegacyOwnership mission phase
  let slots := db.capacity env data.hostIds
  if slots.isEmpty ∨ (data.orchestration = .legacy ∧ ¬ twoUsableSlots slots) then
    refuse .insufficientCapacity "At least two compatible, healthy shared slots are required" 409
  let document ← db.validatePhase env data mission phase
  let project ← db.get .project mission.projectId
  if project.workflow = .milestones ∧ document.any (some ·.id ≠ mission.roadmapDocumentId) then
    refuse .objectiveMismatch "Link the mission to the selected milestone objective" 422
  pure mission

end DB

variable (env : Env) (db : DB) (actor : Actor) (data : RunCreate)

/-- The snapshot a phase pins. -/
def RunPhase.baseline : RunPhase → Option Id
  | .formalization snapshot => snapshot
  | _ => none

/-- `Scheduler.run`, on a request whose mission and phase are known: create the run
with its hosts and, for a legacy run, its root maintainer. -/
def run (missionId : Id) (phase : RunPhase) (condition : Option Condition) : Tx Run := do
  let mission ← query fun db => db.validateRun env actor data missionId phase
  let db ← get
  let row ← create .run
    { id := env.uuid ((db .run).rows.map (·.id)), revision := 1, missionId := mission.id, phase
      objectiveId := data.objectiveId, orchestration := data.orchestration
      queuePolicies := data.queuePolicies, requestedPhases := data.requestedPhases
      phaseHistory := [], pendingPhase := none, autoAdvance := data.autoAdvance
      adoptedRoadmapSnapshotId := phase.baseline, status := .active, statusNote := none
      finishedAt := none, maxAssignments := data.maxAssignments, tokenBudget := data.tokenBudget
      expiresAt := data.expiresAt, retryPolicy := data.retryPolicy }
  each (fun hostId => do let _ ← create .runHost ⟨row.id, hostId, true⟩) data.hostIds.dedup
  if data.orchestration = .legacy then
    let db ← get
    let rule ← create .automation
      { id := env.uuid ((db .automation).rows.map (·.id)), revision := 1, updatedAt := env.now
        runId := row.id, name := .rootMaintainer, missionId := mission.id, frontierHash := none
        pauseReason := none, role := .maintainer, functions := [], enabled := true
        startCondition := condition, notBefore := none, cooldownSeconds := 15
        noProgressCount := 0 }
    let _ ← replenish env actor rule
  pure row

/-! ## Objective launches -/

/-- The objective a launch is about. -/
def DB.launchObjective : Except Error Id := do
  let linked ← match data.missionId with
    | some missionId => Mission.roadmapDocumentId <$> db.get .mission missionId
    | none => pure none
  let fromPhase := match data.phase with
    | some (.preprocessing documentId) => some documentId
    | _ => none
  match (data.objectiveId.orElse fun _ => linked).orElse fun _ => fromPhase with
  | some id => pure id
  | none => refuse .objectiveRequired "Select the versioned roadmap objective" 422

/-- An objective has one live run, of either orchestration. -/
def DB.validateObjective (objectiveId : Id) : Except Error Document := do
  let document ← db.get .document objectiveId
  db.requireProject env.now actor document.projectId .maintainer
  if document.kind ≠ .roadmap then
    refuse .invalidObjective "An objective is a versioned roadmap Markdown document" 422
  if (db .run).rows.any fun r => r.objectiveId == some objectiveId && r.orchestration == .objective
      && r.status.isLive then
    refuse .objectiveAlreadyActive
      "Resume the existing objective instead of launching duplicate owners" 409
  if (db .run).rows.any fun r => r.orchestration == .legacy && r.status.isLive
      && (((db .mission).find? r.missionId).any (·.roadmapDocumentId == some objectiveId)
        || r.phase == .preprocessing objectiveId
        || (r.adoptedRoadmapSnapshotId.bind (db .roadmapSnapshot).find?).any
          (·.roadmapDocumentId == objectiveId)) then
    refuse .legacyObjectiveActive
      "Settle the existing legacy objective before switching orchestration" 409
  pure document

/-- The root mission of a launch, created when none is given. -/
def rootMission (document : Document) : Tx Mission := do
  match data.missionId with
  | some missionId =>
    query fun db =>
      DB.sameProject Mission.projectId (db.get .mission missionId) document.projectId
  | none =>
    mission env actor
      { projectId := document.projectId, roadmapDocumentId := some document.id
        title := document.title, objective := "Deliver the roadmap objective."
        acceptanceCriteria := ["The roadmap objective is delivered."], maxOpenChildren := 128 }

/-- Give a slot without a provider account the automatic outage guard of its
credential. -/
def guardSlot (slot : HostHarness) : Tx Unit := do
  let db ← get
  if (db.attachedLimits slot.hostId slot.harnessId).any (·.kind == .providerAccount) then pure ()
  else
    let account ← match (db .resourceLimit).rows.find? fun l =>
        l.kind == .providerAccount && l.slug == slot.credentialRef with
      | some account => pure account
      | none =>
        create .resourceLimit
          { id := env.uuid ((db .resourceLimit).rows.map (·.id)), kind := .providerAccount
            slug := slot.credentialRef, maxConcurrent := none, cooldownUntil := none
            failureCount := 0, circuitOpen := false }
    let _ ← create .hostHarnessLimit ⟨slot.hostId, slot.harnessId, account.id⟩

/-- The phases of an objective, when the launch does not list them. -/
def DB.objectivePhases (projectId : Id) (phase : RunPhase) : Except Error (List PhaseKind) :=
  let phases := if !data.requestedPhases.isEmpty then data.requestedPhases
    else if data.phase.isSome then [phase.kind]
    else [phase.kind, .formalization] ++ (if (db .repository).rows.any fun r =>
        r.projectId == projectId && r.purpose == .library then [.postprocessing] else [])
  if phases.head? ≠ some phase.kind then
    refuse .phaseOrder "requested_phases must start with the launched phase" 422
  else pure phases

/-- A launched phase stays inside the objective. -/
def DB.validateLaunchPhase (objectiveId projectId : Id) (phase : Option RunPhase) :
    Except Error Unit := do
  match phase with
  | some (.formalization (some snapshotId)) =>
    let baseline ← sameProject RoadmapSnapshot.projectId
        (db.get .roadmapSnapshot snapshotId) projectId
    if baseline.roadmapDocumentId ≠ objectiveId then
      refuse .objectiveMismatch "The baseline belongs to another objective" 422
  | _ => pure ()

/-- The protected repositories of a project match at most one review policy for
each phase; a missing one is created, in a table that is not modelled. -/
def DB.validatePolicies (projectId : Id) (phases : List PhaseKind) : Except Error Unit := do
  for target in (db .repository).rows.filter fun r => r.projectId == projectId
      && (r.purpose == .knowledge || r.purpose == .library) && r.archivedAt.isNone do
    for kind in phases do
      db.matchingPolicy env target.id kind false

/-- `objectives.launch`: resolve an objective-only launch, and queue its planner. -/
def launch (actor : Actor) (data : RunCreate) : Tx Run := do
  let (objectiveId, document) ← query fun db => do
    let objectiveId ← db.launchObjective data
    pure (objectiveId, ← db.validateObjective env actor objectiveId)
  let root ← rootMission env actor data document
  if root.roadmapDocumentId.any (· ≠ objectiveId) then
    raise (.domain .objectiveMismatch "The mission belongs to another objective" 422)
  else
    query fun db => db.validateLaunchPhase objectiveId document.projectId data.phase
    let db ← get
    let hosts := if !data.hostIds.isEmpty then data.hostIds
      else ((db .host).rows.filter (·.mode == .enabled)).map (·.id)
    each (guardSlot env)
      ((db .hostHarness).rows.filter fun h => hosts.contains h.hostId && h.enabled)
    let phase := data.phase.getD (.preprocessing objectiveId)
    if (match phase with
        | .preprocessing documentId => decide (documentId ≠ objectiveId)
        | _ => false) then
      raise (.domain .objectiveMismatch
        "The phase and launch must identify the same objective" 422)
    else
      let phases ← query fun db => db.objectivePhases data document.projectId phase
      query fun db => db.validatePolicies env document.projectId phases
      let row ← run env actor { data with objectiveId := some objectiveId, hostIds := hosts
                                          requestedPhases := phases } root.id phase none
      let db ← get
      let rule ← create .automation
        { id := env.uuid ((db .automation).rows.map (·.id)), revision := 1, updatedAt := env.now
          runId := row.id, name := .objectivePlanner, missionId := root.id
          frontierHash := some (env.obs.objectiveFrontier db row), pauseReason := none
          role := .worker, functions := [.planner], enabled := true, startCondition := none
          notBefore := none, cooldownSeconds := env.config.plannerMinIntervalSeconds
          noProgressCount := 0 }
      let _ ← ensureSuccessor env row rule
      getRecord .run row.id

/-- `Scheduler.run` as the API calls it: a valid request of either orchestration.
`condition` is the start condition of a legacy root maintainer. -/
def startRun (condition : Option Condition) : Tx Run := do
  if !data.isValid then
    raise (.domain .invalidInput "The launch request breaks its contract" 422)
  else if data.orchestrated then
    raise (.domain .retiredOrchestrator ("New runs use worker/planner and maintainer "
      ++ "missions; the separate orchestrator is retired") 422)
  else match data.orchestration, data.missionId, data.phase with
    | .objective, _, _ => launch env actor data
    | .legacy, some missionId, some phase => run env actor data missionId phase condition
    | .legacy, _, _ =>
      raise (.domain .invalidInput "The launch request breaks its contract" 422)

end Horizon
