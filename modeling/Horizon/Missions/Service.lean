import Horizon.Missions.MissionTree
import Horizon.Missions.Conditions
import Horizon.Execution.QueuePolicies

/-!
# Missions, assignments and obligations

`missions/service.py`: creating and revising missions, queueing assignments,
recording and resolving obligations, and the findings that keep a session open.
The checks of an operation are a pure function of the database; its writes
follow them.  Goal updates and subscriptions go to tables that are not modelled.
-/

namespace Horizon

open Transaction

/-! ## Missions -/

/-- The data of a new mission. -/
structure MissionCreate where
  projectId : Id
  parentId : Option Id := none
  expectedParentRevision : Option Nat := none
  roadmapDocumentId : Option Id := none
  title : String
  objective : String
  acceptanceCriteria : List String := []
  delegationNote : Option String := none
  scope : Option MissionScope := none
  maxOpenChildren : Nat := 8
  nodeIds : List Id := []
  documentIds : List Id := []

/-- A revision of a mission.  An outer `none` is a field left unset. -/
structure MissionUpdate where
  expectedRevision : Nat
  parentId : Option (Option Id) := none
  expectedParentRevision : Option Nat := none
  title : Option String := none
  objective : Option String := none
  acceptanceCriteria : Option (List String) := none
  delegationNote : Option (Option String) := none
  scope : Option MissionScope := none
  maxOpenChildren : Option Nat := none
  roadmapDocumentId : Option (Option Id) := none

namespace DB

variable (db : DB)

/-- A mission's roadmap must be a roadmap document of the project. -/
def validateRoadmap (projectId : Id) (documentId : Option Id) (message : String) :
    Except Error Unit := do
  match documentId with
  | none => pure ()
  | some id =>
    let document ← sameProject Document.projectId (db.get .document id) projectId
    if document.kind ≠ .roadmap then refuse .invalidRoadmap message 422 else pure ()

/-- The effective scope of a new mission. -/
def delegatedScope (parent : Option Mission) (data : MissionCreate) : Except Error MissionScope :=
  match parent with
  | some parent => validateChild parent data.scope data.acceptanceCriteria data.delegationNote
  | none => pure (normalizedScope (data.scope.getD .empty))

/-- Delegating under a mission needs authority over it. -/
def authorizeDelegation (now : Instant) (actor : Actor) (parent : Option Mission) :
    Except Error Unit := do
  match parent with
  | some parent => let _ ← db.requireMissionAuthority now actor parent.id
  | none => pure ()

/-- The checks of `Service.mission`: the parent and the effective scope. -/
def validateMission (now : Instant) (actor : Actor) (data : MissionCreate) :
    Except Error (Option Mission × MissionScope) := do
  db.requireProject now actor data.projectId .worker
  if actor.kind = .agent ∧ data.parentId.isNone then
    refuse .forbidden "Agent sessions may only create missions under their owned mission" 403
  else
    let parent ← db.parentForChild data.projectId data.parentId data.expectedParentRevision
    let scope ← delegatedScope parent data
    db.validateScopeReferences data.projectId scope
    validateScopeLinks scope data.nodeIds data.documentIds
    db.authorizeDelegation now actor parent
    db.validateRoadmap data.projectId data.roadmapDocumentId
      "Mission roadmap must reference a roadmap document"
    for node in data.nodeIds do
      let _ ← sameProject Node.projectId (db.get .node node) data.projectId
    for document in data.documentIds do
      let _ ← sameProject Document.projectId (db.get .document document) data.projectId
    pure (parent, scope)

end DB

/-- `bump_parent`, where there is a parent. -/
def bumpIfAny (env : Env) (parent : Option Mission) : Tx Unit := do
  match parent with
  | some parent => let _ ← bumpParent env parent
  | none => pure ()

/-- `Service.mission`: create a mission, under an open parent or at the root. -/
def mission (env : Env) (actor : Actor) (data : MissionCreate) : Tx Mission := do
  let db ← get
  let (parent, scope) ← query fun db => db.validateMission env.now actor data
  let row ← create .mission
    { id := env.uuid ((db .mission).rows.map (·.id)), revision := 1, projectId := data.projectId,
      number := nextNumber (·.number) (·.projectId == data.projectId) (db .mission).rows,
      parentId := data.parentId, roadmapDocumentId := data.roadmapDocumentId, title := data.title,
      objective := data.objective, status := .opened, acceptanceCriteria := data.acceptanceCriteria,
      delegationNote := data.delegationNote, scope := scope,
      maxOpenChildren := data.maxOpenChildren, closedAt := none, closureNote := none }
  each (fun id => do let _ ← create .missionNode ⟨row.id, id⟩) data.nodeIds.dedup
  each (fun id => do let _ ← create .missionDocument ⟨row.id, id⟩) data.documentIds.dedup
  bumpIfAny env parent
  pure row

/-- What a checked mission update writes. -/
structure MissionRevision where
  old : Mission
  new : Mission
  oldParent : Option Mission
  parent : Option Mission
  parentChanged : Bool

namespace DB

variable (db : DB) (now : Instant) (actor : Actor) (old : Mission)

/-- An agent cannot move the mission its own authority is rooted at. -/
def forbidOwnMove : Except Error Unit := do
  if actor.kind ≠ .agent then pure ()
  else
    let live ← db.liveExecution now actor
    if live.assignment.missionId = old.id then
      refuse .forbidden "A session cannot move its own authority root" 403
    else pure ()

/-- An agent moves a mission only under one it has authority over. -/
def authorizeParent (parent : Option Mission) : Except Error Unit := do
  match parent with
  | some parent => let _ ← db.requireMissionAuthority now actor parent.id
  | none =>
    if actor.kind = .agent then
      refuse .forbidden "An agent cannot detach a mission from its delegated tree" 403
    else pure ()

/-- Where an update places a mission: its current parent, or the checked new one. -/
def validatePlacement (data : MissionUpdate)
    (oldParent : Option Mission) : Except Error (Option Mission) := do
  if data.parentId.any (· ≠ old.parentId) then
    db.forbidOwnMove now actor old
    db.validateReparent old.id (data.parentId.getD none)
    let parent ← db.parentForChild old.projectId (data.parentId.getD none)
        data.expectedParentRevision
    db.authorizeParent now actor parent
    pure parent
  else if data.expectedParentRevision.isSome then
    refuse .invalidParentRevision "The parent revision is only supplied when moving a mission" 422
  else pure oldParent

/-- Workers of an objective may add acceptance criteria, not drop them. -/
def validateCriteria (data : MissionUpdate) : Except Error Unit := do
  if actor.kind ≠ .agent ∨ data.acceptanceCriteria.isNone then pure ()
  else
    let live ← db.liveExecution now actor
    let run ← db.get .run live.assignment.runId
    if run.orchestration = .objective ∧ live.assignment.role ≠ .maintainer
        ∧ ¬ old.acceptanceCriteria.all (data.acceptanceCriteria.getD []).contains then
      refuse .acceptanceDecisionRequired ("Workers may add criteria; removing or replacing "
        ++ "required outcomes needs a maintainer decision") 403
    else pure ()

/-- A scope revision keeps the linked records and every direct child inside it. -/
def validateScopeRevision (id : Id) (data : MissionUpdate) (scope : MissionScope) :
    Except Error Unit := do
  if data.scope.isNone then pure ()
  else
    validateScopeLinks scope
      (((db .missionNode).rows.filter (·.missionId == id)).map (·.nodeId))
      (((db .missionDocument).rows.filter (·.missionId == id)).map (·.documentId))
    if (db .mission).rows.any fun m => m.parentId == some id && !scopeContains scope m.scope then
      refuse .childScopeConflict "The narrowed scope excludes an existing child mission" 409
    else pure ()

/-- A lowered child budget still covers the open children. -/
def validateBudget (id : Id) (data : MissionUpdate) : Except Error Unit :=
  if data.maxOpenChildren.any (· < (db.openChildren id).length) then
    refuse .childBudgetConflict "The child budget is below the existing open child count" 409
  else pure ()

/-- The parent of a mission, if it has one. -/
def parentOf (m : Mission) : Except Error (Option Mission) :=
  match m.parentId with
  | some parent => some <$> db.get .mission parent
  | none => pure none

/-- The scope a mission has under a parent. -/
def scopeUnder (parent : Option Mission) (scope : MissionScope) (criteria : List String)
    (note : Option String) : Except Error MissionScope :=
  match parent with
  | some parent => validateChild parent (some scope) criteria note
  | none => pure scope

/-- The checks of `Service.update_mission`. -/
def validateMissionUpdate (id : Id) (data : MissionUpdate) : Except Error MissionRevision := do
  let old ← db.get .mission id
  db.requireProject now actor old.projectId .worker
  let _ ← db.requireMissionAuthority now actor id
  if old.revision ≠ data.expectedRevision then
    refuse .revisionConflict "The record changed; refresh and retry" 409
  else if old.status ≠ .opened then
    refuse .missionClosed "Reopen a mission explicitly before editing its contract" 409
  else
    db.validateCriteria now actor old data
    let oldParent ← db.parentOf old
    let parent ← db.validatePlacement now actor old data oldParent
    db.validateScopeReferences old.projectId (normalizedScope (data.scope.getD old.scope))
    let scope ← scopeUnder parent (normalizedScope (data.scope.getD old.scope))
      (data.acceptanceCriteria.getD old.acceptanceCriteria)
      (data.delegationNote.getD old.delegationNote)
    db.validateScopeRevision id data scope
    db.validateBudget id data
    db.validateRoadmap old.projectId (data.roadmapDocumentId.getD none)
      "Expected a roadmap document"
    pure
      { old, oldParent, parent
        parentChanged := data.parentId.any (· ≠ old.parentId)
        new :=
        { old with
          parentId := data.parentId.getD old.parentId
          title := data.title.getD old.title
          objective := data.objective.getD old.objective
          acceptanceCriteria := data.acceptanceCriteria.getD old.acceptanceCriteria
          delegationNote := data.delegationNote.getD old.delegationNote
          scope := if data.scope.isSome then scope else old.scope
          maxOpenChildren := data.maxOpenChildren.getD old.maxOpenChildren
          roadmapDocumentId := data.roadmapDocumentId.getD old.roadmapDocumentId } }

end DB

/-- `Service.update_mission`: revise an open mission.  A patch that changes
nothing keeps the current revision. -/
def updateMission (env : Env) (actor : Actor) (id : Id) (data : MissionUpdate) : Tx Mission := do
  let r ← query fun db => db.validateMissionUpdate env.now actor id data
  if r.new = r.old then pure r.old
  else
    let row ← change env .mission id (some data.expectedRevision) fun m =>
      { m with
        parentId := r.new.parentId
        title := r.new.title
        objective := r.new.objective
        acceptanceCriteria := r.new.acceptanceCriteria
        delegationNote := r.new.delegationNote
        scope := r.new.scope
        maxOpenChildren := r.new.maxOpenChildren
        roadmapDocumentId := r.new.roadmapDocumentId }
    if r.parentChanged then
      bumpIfAny env r.oldParent
      bumpIfAny env r.parent
      pure row
    else pure row

/-! ## Assignments -/

/-- The words of a text: `" ".join(text.split())` up to spacing. -/
def words (s : String) : List (List Char) :=
  (s.toList.splitOnP Char.isWhitespace).filter (! ·.isEmpty)

/-- The functions of the pinned catalog. -/
def AgentFunction.isKnown : AgentFunction → Bool
  | .unknown _ => false
  | _ => true

/-- Whether an automation is the objective planner of its run. -/
def DB.isPlannerRule (db : DB) (automationId : Option Id) : Bool :=
  automationId.bind (db .automation).find? |>.any (·.name == .objectivePlanner)

namespace DB

variable (db : DB)
  (now : Instant) (actor : Actor) (run : Run) (mission : Mission) (data : AssignmentCreate)

/-- The run has to accept the new assignment's profile. -/
def validateRunProfile (repair : Bool) : Except Error Unit :=
  if run.status ≠ .active ∧ ¬ (repair ∧ run.status = .draining) then
    refuse .runNotActive "New assignments require an active run" 409
  else if run.orchestration = .objective ∧ data.functions.contains .orchestrator then
    refuse .objectiveProfileManaged
      "Objective runs use one bounded planner and item-specific maintenance" 422
  else if data.functions.contains .orchestrator then
    refuse .retiredOrchestrator
      "The orchestrator profile is available only to already-persisted legacy runs" 422
  else if run.pendingPhase.isSome then
    refuse .phaseSettling "The accepted phase is settling; new work waits for the next phase" 409
  else pure ()

/-- A session queues work on a different and narrower mission than its own. -/
def validateAgentMission : Except Error Unit := do
  if actor.kind ≠ .agent then pure ()
  else
    let live ← db.liveExecution now actor
    if live.assignment.missionId = mission.id then
      refuse .childMissionRequired
        "Continue your session; a queued session needs a different, bounded mission" 422
    else
      let own ← db.get .mission live.assignment.missionId
      if run.orchestration = .objective ∧ words mission.objective = words own.objective then
        refuse .unchangedMission
          "A renamed mission cannot replace your unchanged goal; narrow the delegated outcome" 422
      else pure ()

/-- An assignment is delegated by an assignment of its run, within its mission. -/
def validateDelegator (internal : Bool) : Except Error Unit := do
  match data.parentId with
  | none =>
    if actor.kind = .agent ∧ ¬ internal then
      refuse .delegatorRequired "Agent delegation requires the current parent assignment" 422
    else pure ()
  | some parentId =>
    let delegator ← db.get .assignment parentId
    if delegator.runId ≠ data.runId then
      refuse .scopeMismatch "Delegator must belong to the same run" 422
    else
      if actor.kind = .agent then
        let live ← db.liveExecution now actor
        if live.execution.assignmentId ≠ parentId then
          refuse .forbidden "Agents may only delegate from their own assignment" 403
        let _ ← db.requireMissionAuthority now actor data.missionId
      let root := if run.orchestration = .objective ∧ db.isPlannerRule delegator.automationId
        then run.missionId else delegator.missionId
      if !db.containsMission root mission.id then
        refuse .scopeMismatch "Delegated mission must be within the parent assignment mission" 422
      else if actor.kind = .agent ∧ mission.id = delegator.missionId then
        refuse .childMissionRequired
          "Create a narrower child mission before delegating an assignment" 422
      else pure ()

/-- A non-root mission has one live owner for each role of a run. -/
def validateOwnership : Except Error Unit :=
  if !db.containsMission run.missionId mission.id then
    refuse .scopeMismatch "Assignments must belong to the run's mission tree" 422
  else if mission.parentId.isSome && (db .assignment).rows.any fun a => a.runId == data.runId
      && a.missionId == data.missionId && a.role == data.role && a.status.isLive then
    refuse .missionAlreadyOwned "This mission already has an active assignment for that role" 409
  else pure ()

/-- Queueing a maintainer or a repair needs a maintainer's grant. -/
def requireQueueing (projectId : Id) (maintaining : Bool) : Except Error Unit :=
  if maintaining then db.requireProject now actor projectId .maintainer else pure ()

/-- The checks of `Service.assignment`. -/
def validateAssignment
    (internal repair : Bool) : Except Error (Mission × Category × Option Id) := do
  let run ← db.get .run data.runId
  let projectId ← db.projectOfRun data.runId
  db.requireProject now actor projectId .worker
  db.requireQueueing now actor projectId ((data.role = .maintainer ∧ ¬ internal) ∨ repair)
  validateRunProfile run data repair
  let mission ← sameProject Mission.projectId (db.get .mission data.missionId) projectId
  db.validateAgentMission now actor run mission
  refuseIf (mission.status ≠ .opened
      ∧ ¬ (repair ∧ mission.status = .completed ∧ run.status = .draining))
    .missionClosed "Assignments require an open mission" 409
  db.validateDelegator now actor run mission data internal
  db.validateOwnership run mission data
  refuseIf (!data.functions.all AgentFunction.isKnown)
    .unknownFunction "Functions must exist in the pinned catalog" 422
  refuseIf (data.reviewerDescriptorId.isSome ∧ ¬ internal)
    .reviewManifestRequired "Prepare reviewer assignments through /api/v3/reviewer-assignments" 422
  db.validateCondition projectId data.startCondition none
  let (category, harness) ← db.validateEnqueue run data
  pure (mission, category, harness)

/-- The obligation every new assignment starts with. -/
def rootObligation (automationId : Option Id) : ObligationKind × String :=
  if data.functions.contains .orchestrator then
    (.decision, "Account for one bounded Horizon health and queue-consistency episode.")
  else if data.functions.contains .planner then
    (.decision, "Account for one bounded planning pass: identify concrete unowned work "
      ++ "or preserve existing owners and their wake conditions.")
  else if (automationId.bind (db .automation).find?).any (·.name == .rootMaintainer) then
    (.decision,
      "Account for this bounded maintenance pass with evidence: plan or repair concrete work, "
      ++ "review delivered results, preserve an existing owner and its event wait, "
      ++ "or record phase completion.")
  else (.deliverable, mission.objective)

/-- The identifiers drawn for recorded obligations. -/
def recordedObligations : List Id :=
  (db .obligation).rows.filterMap fun o => match o.id with
    | .recorded id => some id
    | .journalBlocker _ => none

end DB

/-- Record a new open obligation of an assignment. -/
def createObligation (env : Env) (assignmentId : Id) (executionId : Option Id)
    (kind : ObligationKind) (description : String) : Tx Obligation := do
  let db ← get
  create .obligation
    { id := .recorded (env.uuid db.recordedObligations), revision := 1, updatedAt := env.now,
      assignmentId, createdByExecutionId := executionId,
      number := nextNumber (·.number) (·.assignmentId == assignmentId) (db .obligation).rows,
      kind, description, status := .opened, resolution := none }

/-- `Service.assignment`: queue an attempt on a mission of the run's tree. -/
def assignment (env : Env) (actor : Actor) (data : AssignmentCreate) (automationId : Option Id)
    (internal repair : Bool) : Tx Assignment := do
  let db ← get
  let (mission, category, harness) ← query fun db =>
    db.validateAssignment env.now actor data internal repair
  let siblings := (db .assignment).rows.filter (·.runId == data.runId)
  let row ← create .assignment
    { id := env.uuid ((db .assignment).rows.map (·.id)), revision := 1, createdAt := env.now,
      runId := data.runId,
      number := nextNumber (·.number) (·.runId == data.runId) (db .assignment).rows,
      missionId := data.missionId, category := some category, recurrenceKey := none,
      pauseReason := none, parentId := data.parentId, automationId,
      reviewerDescriptorId := data.reviewerDescriptorId, role := data.role,
      functions := data.functions, harnessId := harness, status := .pending, statusNote := none,
      queueRank := (siblings.map (·.queueRank)).max?.getD 0 + 1024,
      notBefore := data.notBefore, expiresAt := data.expiresAt,
      startCondition := data.startCondition,
      checkpointRequestedAt := none, retryAt := none, startedAt := none, finishedAt := none,
      recoveryAttempts := 0 }
  let (kind, description) := db.rootObligation mission data automationId
  let _ ← createObligation env row.id none kind description
  pure row

/-! ## Obligations -/

namespace DB

variable (db : DB)

/-- The statuses of a settled assignment. -/
def isTerminal (status : AssignmentStatus) : Bool := !status.isLive

/-- `require_ledger_owner`: an agent changes its own ledger; a maintainer may
also repair the ledger of a settled assignment. -/
def requireLedgerOwner (now : Instant) (actor : Actor) (assignmentId : Id) (allowSettled : Bool) :
    Except Error Unit := do
  let projectId ← db.projectOfAssignment assignmentId
  db.requireProject now actor projectId .worker
  if actor.kind ≠ .agent then pure ()
  else
    let live ← db.liveExecution now actor
    if live.execution.assignmentId = assignmentId then pure ()
    else
      let item ← db.get .assignment assignmentId
      if allowSettled ∧ isTerminal item.status then
        db.requireProject now actor projectId .maintainer
      else refuse .forbidden "An agent can change only its own obligation ledger" 403

/-- A follow-up owner must be able to take the obligation over. -/
def validateTarget (old : Obligation) (projectId : Id) (isRecovery scheduled : Bool) (target : Id) :
    Except Error Unit := do
  db.requireSameProject projectId (.assignment target)
  let owner ← db.get .assignment target
  if owner.id = old.assignmentId then
    refuse .selfDelegation "An obligation needs an independent follow-up owner" 422
  else if owner.status = .failed ∨ owner.status = .cancelled then
    refuse .unavailableOwner "Follow-up owner is failed or cancelled" 422
  else if isRecovery ∧ owner.status = .completed then
    refuse .unavailableOwner "Recovery follow-up needs an unfinished owner" 422
  else if scheduled ∧ owner.status ≠ .pending then
    refuse .invalidSchedule "Scheduled handling needs a pending assignment" 422
  else pure ()

/-- Recovery decisions need evidence or a concrete replacement. -/
def validateRecovery (isRecovery : Bool) : Resolution → Except Error Unit
  | .completed _ [] =>
    if isRecovery then refuse .coordinationEvidenceRequired
      ("Link the repaired work, owned queue action, or event-conditioned automation before closing "
        ++ "recovery") 422
    else pure ()
  | .superseded _ [] =>
    if isRecovery then refuse .coordinationOwnerRequired
      "Recovery needs a concrete replacement obligation" 422
    else pure ()
  | _ => pure ()

/-- The delegation edges of a project's obligations, with one resolution replaced. -/
def resolutionEdges {α : Type} (projectId : Id) (id : ObligationId) (resolution : Resolution)
    (edge : Obligation → Resolution → α) : List α :=
  (db .obligation).rows.filterMap fun o =>
    if ¬ (((db .assignment).find? o.assignmentId).bind fun a => (db .mission).find? a.missionId).any
        (·.projectId == projectId) then none
    else if o.id = id then some (edge o resolution)
    else o.resolution.map (edge o)

/-- The checks of `Service.resolve_obligation`. -/
def validateResolution (now : Instant) (actor : Actor) (id : ObligationId)
    (resolution : Resolution) : Except Error Unit := do
  let old ← db.get .obligation id
  db.requireLedgerOwner now actor old.assignmentId true
  let projectId ← db.projectOfAssignment old.assignmentId
  let isRecovery := (db .runCoordination).rows.any (·.auditObligationId == some id)
  validateRecovery isRecovery resolution
  for target in resolution.targets do
    db.validateTarget old projectId isRecovery (resolution matches .scheduled _ _) target
  for replacement in resolution.replacements do
    db.requireSameProject projectId (.obligation replacement)
    refuseIf (replacement = id) .selfDelegation "An obligation cannot replace itself" 422
  for evidence in resolution.evidence do
    db.requireSameProject projectId evidence
  rejectCycle (db.resolutionEdges projectId id resolution fun o r => (o.assignmentId, r.targets))
  rejectCycle (db.resolutionEdges projectId id resolution fun o r => (o.id, r.replacements))

end DB

/-- `Service.resolve_obligation`: account for an open or settled obligation. -/
def resolveObligation (env : Env) (actor : Actor) (id : ObligationId) (expectedRevision : Nat)
    (resolution : Resolution) : Tx Obligation := do
  query fun db => db.validateResolution env.now actor id resolution
  change env .obligation id (some expectedRevision) fun o =>
    { o with status := resolution.status, resolution := some resolution }

/-- `Service.obligation`: record a new obligation of an unsettled assignment. -/
def obligation (env : Env) (actor : Actor) (assignmentId : Id) (executionId : Option Id)
    (kind : ObligationKind) (description : String) : Tx Obligation := do
  let recorder ← query fun db => do
    db.requireLedgerOwner env.now actor assignmentId false
    let item ← db.get .assignment assignmentId
    if DB.isTerminal item.status then
      refuse .assignmentSettled "Reopen the assignment before editing its ledger" 409
    else if actor.kind = .agent then
      let live ← db.liveExecution env.now actor
      pure (some live.execution.id)
    else
      match executionId with
      | none => pure none
      | some executionId =>
        let execution ← db.get .execution executionId
        if execution.assignmentId ≠ assignmentId then
          refuse .scopeMismatch "Execution belongs to another ledger" 422
        else pure (some executionId)
  createObligation env assignmentId recorder kind description

/-! ## Readiness and findings -/

namespace DB

variable (db : DB) (env : Env) (assignmentId : Id)

/-- Whether the recurring rule of an assignment, if any, holds it back. -/
def recurrenceHeld (row : Assignment) : Except Error Bool :=
  match row.automationId with
  | none => pure false
  | some id => do
    let rule ← db.get .automation id
    pure (!rule.enabled || env.obs.recurrenceBlocked db row rule)

/-- `Service.readiness`: whether a pending assignment may be admitted now. -/
def readiness (row : Assignment) : Except Error Truth := do
  if row.status ≠ .pending ∨ row.pauseReason.isSome ∨ row.expiresAt.any (· ≤ env.now)
      ∨ env.obs.awaitsDelivery db row then pure .false
  else
    let run ← db.get .run row.runId
    if ¬ (run.status = .active ∨ (run.status = .draining ∧ row.automationId.isNone)) then
      pure .false
    else
      let held ← db.recurrenceHeld env row
      if held || (env.obs.runLimit db run row).isSome || row.notBefore.any (env.now < ·)
          || row.retryAt.any (env.now < ·) then pure .false
      else pure (env.obs.conditionReadiness db row)

/-- The unsettled requests on the contexts of an assignment. -/
def unsettledRequests : List ProviderRequest :=
  (db .providerRequest).rows.filter fun r => r.status.isUnsettled
    && ((db .providerThread).find? r.providerThreadId).any (·.assignmentId == assignmentId)

/-- `settlement_findings`. -/
def settlementFindings (includePending : Bool) : List String :=
  let unsettled := (db.unsettledRequests assignmentId).length
  (if unsettled = 0 then [] else
    ["Reconcile " ++ toString unsettled ++ " outstanding provider requests before completion."])
    ++ env.obs.settlementNotices db assignmentId includePending

/-- The open obligations an assignment has to account for.  The host settles the
generated record of an orchestration episode. -/
def openObligations (item : Assignment) : List Obligation :=
  (db .obligation).rows.filter fun o => o.assignmentId == item.id && o.status == .opened
    && !(item.functions.contains .orchestrator && o.number == 1 && o.createdByExecutionId.isNone)

/-- Whether an assignment handed its whole mission to one unfinished assignment. -/
def unchangedHandoff (item : Assignment) : Bool :=
  (db .obligation).rows.any fun o => o.assignmentId == item.id && o.number == 1
    && o.status == .handled
    && (match (o.resolution.map Resolution.targets).getD [] with
      | [] => false
      | target :: rest => rest.all (· == target)
        && ((db .assignment).find? target).any fun other =>
          (other.status == .pending || other.status == .running) && item.role == other.role
            && (item.missionId == other.missionId
              || ((db .mission).find? item.missionId).map (words ·.objective)
                == ((db .mission).find? other.missionId).map (words ·.objective)))

/-- `completion_findings`: what still keeps a session open. -/
def completionFindings : Except Error (List String) := do
  let item ← db.get .assignment assignmentId
  let undecided := (db .reviewDemand).rows.any fun d => d.assignmentId == some assignmentId
    && decide (d.handledGeneration < d.ownerGeneration)
  let openCount := (db.openObligations item).length
  pure ((if undecided then
      ["Deliver the review decision and settle_review for this session's assigned generation."]
      else [])
    ++ (if openCount = 0 then [] else ["Account for the " ++ toString openCount
      ++ " open obligations by doing the work or recording durable handling."])
    ++ (if db.unchangedHandoff item then
      ["The mission was handed unchanged to one unfinished assignment. "
      ++ "Continue this context, narrow the delegated mission while retaining your own work, "
      ++ "or decompose the work into independent scopes. Publish your bounded deliverable "
      ++ "and give dependent follow-up work its own scoped queued owner."] else [])
    ++ db.settlementFindings env assignmentId true)

end DB

end Horizon
