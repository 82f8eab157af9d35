import Horizon.Projects.Catalog
import Horizon.Execution.Launch

/-!
# Lifecycle commands

`commands.py`: one authorized lifecycle decision on a record, at its expected
revision.  The commands on deliveries, publications and subscriptions go to tables
that are not modelled.  Forge items, workspaces and limits are modelled without their
revision, so commands on them do not check it.
-/

namespace Horizon

open Transaction

/-- The semantic decisions on a mission. -/
inductive MissionCommand where
  | complete | cancel | reopen

/-- `update_assignment`.  An outer `none` is a field left unset. -/
structure AssignmentUpdate where
  notBefore : Option (Option Instant) := none
  expiresAt : Option (Option Instant) := none
  startCondition : Option (Option Condition) := none
  functions : Option (List AgentFunction) := none

/-- `defer_automation`.  An outer `none` is a field left unset. -/
structure AutomationDeferral where
  notBefore : Option (Option Instant) := none
  startCondition : Option (Option Condition) := none
  cooldownSeconds : Option Nat := none
  enabled : Option Bool := none
  noProgress : Option Bool := none

/-- The commands, each with its target and arguments. -/
inductive Command where
  | mission (command : MissionCommand) (id : Id) (note : String)
  | run (command : RunCommand) (id : Id) (note : Option String)
  | acceptPhase (id : Id) (note : String) (evidence : List ObjectRef) (nextPhase : Option RunPhase)
  | requestMaintenance (id : Id) (note : String) (evidence : List ObjectRef) (digest : Id)
  | setRunBudget (id : Id) (maxAssignments : Option Nat)
  | extendRunBudget (id : Id) (additionalAssignments : Nat)
  | queueRepair (id : Id) (data : AssignmentCreate) (note : String)
  | adoptRoadmapSnapshot (id snapshotId : Id)
  | cancelAssignment (id : Id) (note : Option String)
  | retryAssignment (id : Id)
  | resumeAssignment (id : Id) (note : String)
  | resumeSession (id : Id) (note : String)
  | checkpointAssignment (id : Id) (notBefore : Option Instant) (startCondition : Option Condition)
      (note : String)
  | updateAssignment (id : Id) (data : AssignmentUpdate)
  | move (id otherId : Id) (after : Bool)
  | deferAutomation (id : Id) (data : AutomationDeferral)
  | confirmHostStopped (id : Id) (machineFenced : Bool) (note evidence : String)
  | recoverContext (id : Id) (note : String)
  | commentObligation (id : ObligationId)
  | editObligation (id : ObligationId) (description : String) (kind : Option ObligationKind)
  | reopenObligation (id : ObligationId) (note : String)
  | requestReview (id : Id) (note : String) (runId : Option Id)
  | settleReview (id : Id) (generation : Nat) (note : String)
  | resetCircuit (id : Id) (note : String)
  | retireWorkspace (id : WorkspaceId)

/-! ## Contracts -/

/-- A text: nonblank, without a NUL. -/
def isText (text : String) : Bool := hasText text && !text.toList.contains '\x00'

/-- A positive integer that the database holds. -/
def isPositive (n : Nat) : Bool := decide (0 < n ∧ n < 2 ^ 63)

/-- The window and the functions of an assignment. -/
def isWindow (notBefore expiresAt : Option Instant) (functions : List AgentFunction) : Bool :=
  (notBefore.all fun start => expiresAt.all fun stop => decide (start < stop))
    && decide functions.Nodup

/-- `COMMAND_ARGS`: whether the arguments of a command match its contract. -/
def Command.matchesContract : Command → Bool
  | .run _ _ note | .cancelAssignment _ note => note.all isText
  | .acceptPhase _ _ evidence _ | .requestMaintenance _ _ evidence _ =>
    decide (1 ≤ evidence.length ∧ evidence.length ≤ 32)
  | .setRunBudget _ maxAssignments => maxAssignments.all isPositive
  | .extendRunBudget _ additional => isPositive additional
  | .queueRepair _ data _ => isWindow data.notBefore data.expiresAt data.functions
  | .checkpointAssignment _ _ _ note => isText note
  | .deferAutomation _ data => data.cooldownSeconds.all isPositive
  | .confirmHostStopped _ _ _ evidence => isText evidence
  | .editObligation _ description _ => isText description
  | .settleReview _ generation _ => isPositive generation
  | .mission .. | .adoptRoadmapSnapshot .. | .retryAssignment _ | .resumeAssignment ..
  | .resumeSession .. | .updateAssignment .. | .move .. | .recoverContext .. | .commentObligation _
  | .reopenObligation .. | .requestReview .. | .resetCircuit .. | .retireWorkspace _ => true

/-! ## The target of a command -/

/-- A command acts on the revision it was decided on. -/
def expectRevision (current expected : Nat) : Except Error Unit :=
  if current = expected then pure ()
  else refuse .revisionConflict "The record changed; refresh and retry" 409

/-- A decision without a text is refused. -/
def requireNote (note : String) (code : ErrorCode) (message : String) : Except Error Unit :=
  if hasText note then pure () else refuse code message 422

namespace DB

variable (db : DB) (env : Env) (actor : Actor) (id : Id) (expected : Nat)

/-- The run a command acts on. -/
def targetRun (role : GrantRole) : Except Error Run := do
  let run ← db.get .run id
  db.requireProject env.now actor (← db.projectOfRun id) role
  expectRevision run.revision expected
  pure run

/-- The assignment a command acts on. -/
def targetAssignment : Except Error Assignment := do
  let item ← db.get .assignment id
  db.requireProject env.now actor (← db.projectOfAssignment id) .worker
  db.requireAssignmentAuthority env.now actor item
  expectRevision item.revision expected
  pure item

/-- The rule a command acts on: an agent's is of its run and delegated tree. -/
def targetAutomation : Except Error Automation := do
  let rule ← db.get .automation id
  db.requireProject env.now actor (← db.projectOfRun rule.runId) .worker
  if actor.kind = .agent then
    let live ← db.liveExecution env.now actor
    if live.assignment.runId ≠ rule.runId then
      refuse .forbidden "The automation belongs to another run" 403
    let _ ← db.requireMissionAuthority env.now actor rule.missionId
  expectRevision rule.revision expected
  pure rule

/-- The mission a command acts on. -/
def targetMission : Except Error Mission := do
  let mission ← db.get .mission id
  db.requireProject env.now actor mission.projectId .worker
  expectRevision mission.revision expected
  pure mission

/-- The execution a command acts on. -/
def targetExecution : Except Error Execution := do
  let execution ← db.get .execution id
  db.requireProject env.now actor (← db.projectOfAssignment execution.assignmentId) .worker
  expectRevision execution.revision expected
  pure execution

/-- The context a command acts on. -/
def targetThread : Except Error ProviderThread := do
  let thread ← db.get .providerThread id
  db.requireProject env.now actor (← db.projectOfAssignment thread.assignmentId) .worker
  expectRevision thread.revision expected
  pure thread

/-- The obligation a command acts on, in its owner's ledger. -/
def targetObligation (id : ObligationId) (expected : Nat) : Except Error Obligation := do
  let o ← db.get .obligation id
  db.requireProject env.now actor (← db.projectOfAssignment o.assignmentId) .worker
  expectRevision o.revision expected
  db.requireLedgerOwner env.now actor o.assignmentId false
  pure o

end DB

section

/-! ## Missions -/

variable (env : Env)

/-- A mission is reopened under an open parent with child budget left. -/
def DB.validateReopening (db : DB) (mission : Mission) (parent : Option Mission) :
    Except Error Unit :=
  if mission.status = .opened then
    refuse .missionOpen "Only a settled mission can be reopened" 409
  else match parent with
    | none => pure ()
    | some parent =>
      if parent.status ≠ .opened then
        refuse .parentClosed "Reopen the parent mission first" 409
      else if parent.maxOpenChildren
          ≤ ((db.openChildren parent.id).filter (·.id != mission.id)).length then
        refuse .childBudgetExhausted "The mission child budget is exhausted" 409
      else pure ()

/-- An open mission is closed once nothing below it is open. -/
def DB.validateClosing (db : DB) (mission : Mission) (cancel : Bool) : Except Error Unit :=
  if mission.status ≠ .opened then
    refuse .missionSettled (if cancel then "Only an open mission can be cancelled"
      else "Only an open mission can be completed") 409
  else db.ensureClosureAllowed mission cancel

/-- The checks of a mission command: the mission and its parent. -/
def DB.validateMissionCommand (db : DB) (actor : Actor) (command : MissionCommand) (id : Id)
    (expected : Nat) (note : String) : Except Error (Mission × Option Mission) := do
  let mission ← db.targetMission env actor id expected
  requireNote note .invalidDecision "Semantic mission decisions need an explanation"
  let _ ← db.requireMissionAuthority env.now actor id
  let parent ← db.parentOf mission
  match command with
  | .complete => db.validateClosing mission false
  | .cancel => db.validateClosing mission true
  | .reopen => db.validateReopening mission parent
  pure (mission, parent)

/-- What a mission command makes of its mission. -/
def MissionCommand.apply (now : Instant) (note : String) (m : Mission) : MissionCommand → Mission
  | .complete => { m with status := .completed, closedAt := some now, closureNote := some note }
  | .cancel => { m with status := .cancelled, closedAt := some now, closureNote := some note }
  | .reopen => { m with status := .opened, closedAt := none, closureNote := none }

/-- A semantic decision on a mission. -/
def missionCommand (actor : Actor) (command : MissionCommand) (id : Id) (expected : Nat)
    (note : String) : Tx Unit := do
  let (_, parent) ← query fun db =>
    db.validateMissionCommand env actor command id expected note
  let _ ← change env .mission id (some expected) (fun m => command.apply env.now note m)
    fun m => by cases command <;> rfl
  bumpIfAny env parent

end

section

/-! ## Runs -/

variable (env : Env) (actor : Actor) (id : Id) (expected : Nat)

/-- The admission budget of an active or paused run. -/
def DB.validateBudgetChange (db : DB) (actor : Actor) (run : Run) (message : String) :
    Except Error Unit := do
  db.requireAdmin actor
  if run.status ≠ .active ∧ run.status ≠ .paused then refuse .invalidTransition message 409

/-- `set_run_budget`. -/
def setRunBudget (maxAssignments : Option Nat) : Tx Unit := do
  let run ← query fun db => db.targetRun env actor id expected .maintainer
  query fun db => db.validateBudgetChange actor run
    "Only active or paused runs can change their admission budget"
  let _ ← change env .run id (some expected) fun r => { r with maxAssignments := maxAssignments }

/-- `extend_run_budget`. -/
def extendRunBudget (expected additional : Nat) : Tx Unit := do
  let run ← query fun db => db.targetRun env actor id expected .maintainer
  query fun db => db.validateBudgetChange actor run
    "Only active or paused runs can extend their admission budget"
  match run.maxAssignments with
  | none =>
    raise (.domain .unlimitedRun
      "This run already has unlimited assignment admissions" 422)
  | some current =>
    let _ ← change env .run id (some expected) fun r =>
      { r with maxAssignments := some (current + additional) }

/-- `queue_repair`: a draining run admits an explained repair. -/
def queueRepair (data : AssignmentCreate) (note : String) : Tx Unit := do
  let run ← query fun db => db.targetRun env actor id expected .maintainer
  if run.status ≠ .draining ∨ ¬ hasText note then
    raise (.domain .invalidRepair
      "Repair admission requires a draining run and an explanation" 422)
  else if data.runId ≠ id then
    raise (.domain .scopeMismatch "Repair must belong to this run" 422)
  else
    let _ ← assignment env actor data none false true

/-- The document a formalization run keeps. -/
def DB.adoptedDocument (db : DB) (run : Run) : Except Error (Option Id) := do
  match run.adoptedRoadmapSnapshotId with
  | some snapshotId =>
    let snapshot ← db.get .roadmapSnapshot snapshotId
    pure (some snapshot.roadmapDocumentId)
  | none =>
    match run.objectiveId with
    | some objectiveId => pure (some objectiveId)
    | none => Mission.roadmapDocumentId <$> db.get .mission run.missionId

/-- `adopt_roadmap_snapshot`.  Goal updates are not modelled. -/
def adoptRoadmapSnapshot (snapshotId : Id) : Tx Unit := do
  let baseline ← query fun db => do
    let run ← db.targetRun env actor id expected .maintainer
    let projectId ← db.projectOfRun id
    let baseline ← DB.sameProject RoadmapSnapshot.projectId (db.get .roadmapSnapshot snapshotId)
      projectId
    if !env.obs.baselineAccepted db baseline.id then
      refuse .baselineRequired "The roadmap snapshot is not an accepted baseline" 409
    if run.phase.kind ≠ .formalization then
      refuse .invalidBaseline "This run does not consume a roadmap baseline" 409
    if some baseline.roadmapDocumentId ≠ (← db.adoptedDocument run) then
      refuse .invalidBaseline "Adoption must keep the run's roadmap document" 422
    pure baseline
  let _ ← change env .run id (some expected) fun r =>
    { r with adoptedRoadmapSnapshotId := some baseline.id }

end

section

/-! ## Assignments -/

variable (env : Env) (actor : Actor) (id : Id) (expected : Nat)

/-- `restore_recurring_assignment`: an explicit retry resumes its recurrence, but never
duplicates a successor. -/
def restoreRecurringAssignment (item : Assignment) : Tx Unit := do
  match item.automationId with
  | none => pure ()
  | some ruleId =>
    let rule ← getRecord .automation ruleId
    let db ← get
    if (db .assignment).rows.any fun a => a.automationId == some rule.id && a.id != item.id
        && a.status.isLive then
      raise (.domain .activeSuccessor
        "Settle the recurring successor before resuming its previous context" 409)
    else if !rule.enabled then
      let _ ← change env .automation rule.id (some rule.revision) fun a =>
          { a with enabled := true }

/-- Work is recovered in a run that still admits it. -/
def DB.requireOpenRun (run : Run) : Except Error Unit :=
  if run.status = .active ∨ run.status = .paused then pure ()
  else refuse .runNotActive "Resume the run before recovering this context" 409

/-- `retry_assignment`. -/
def retryAssignment : Tx Unit := do
  let item ← query fun db => do
    let item ← db.targetAssignment env actor id expected
    if item.status ≠ .failed then
      refuse .invalidTransition "Only a failed assignment can be retried" 409
    let run ← db.get .run item.runId
    DB.requireOpenRun run
    if run.orchestration = .objective then
      refuse .sessionPreserved
        "Use resume_session with a diagnosis; retry accounting is persistent" 409
    pure item
  restoreRecurringAssignment env item
  let _ ← change env .assignment id (some expected) fun a =>
    { a with status := .pending, finishedAt := none, retryAt := none, recoveryAttempts := 0
             statusNote := some "Explicit recovery requested" }

/-- Whether the workspace of a retained context is owned by another unfinished session. -/
def DB.workspaceReassigned (db : DB) (assignmentId : Id) : Bool :=
  (db.primaries assignmentId).head?.any fun retained => (db .providerThread).rows.any fun t =>
    t.workspaceId == retained.workspaceId && t.kind == .primary && t.status.isLive
      && t.assignmentId != assignmentId
      && ((db .assignment).find? t.assignmentId).any (·.status.isLive)

/-- `resume_assignment`: an administrator resumes a settled legacy assignment. -/
def resumeAssignment (note : String) : Tx Unit := do
  let item ← query fun db => do
    let item ← db.targetAssignment env actor id expected
    let run ← db.get .run item.runId
    if run.orchestration = .objective then
      refuse .sessionSettled
        ("Completed sessions stay settled; use a distinct bounded mission for new "
        ++ "work or resume_session for suspended work") 409
    db.requireAdmin actor
    if item.status ≠ .completed ∧ item.status ≠ .failed then
      refuse .invalidTransition "Only a settled assignment can be explicitly resumed" 409
    DB.requireOpenRun run
    if db.workspaceReassigned id then
      refuse .workspaceReassigned
        ("This retained workspace is owned by another unfinished session; "
        ++ "relocate the retained context to a verified independent workspace before resuming") 409
    pure item
  restoreRecurringAssignment env item
  let _ ← change env .assignment id (some expected) fun a =>
    { a with status := .pending, finishedAt := none, notBefore := none, startCondition := none
             checkpointRequestedAt := none, retryAt := none, statusNote := some note }

/-- `resume_session`: a recorded repair grants a paused session a new bounded attempt. -/
def resumeSession (note : String) : Tx Unit := do
  query fun db => do
    requireNote note .decisionRequired "Record the diagnosis or decision before continuing"
    let item ← db.targetAssignment env actor id expected
    db.requireProject env.now actor (← db.projectOfAssignment id) .maintainer
    if item.status ≠ .pending ∨ item.pauseReason.isNone then
      refuse .sessionNotPaused "Resume an existing paused session; do not queue a replacement" 409
    let run ← db.get .run item.runId
    if run.status ≠ .active then
      refuse .runNotActive "Resume the objective before its session" 409
  let _ ← change env .assignment id (some expected) fun a =>
    { a with pauseReason := none, retryAt := none, notBefore := none, statusNote := some note }

/-- The contract of an assignment's window and functions. -/
def validWindow (notBefore expiresAt : Option Instant) (functions : List AgentFunction) :
    Except Error Unit :=
  if isWindow notBefore expiresAt functions then pure ()
  else refuse .invalidArguments "Command arguments do not match the contract" 422

/-- `checkpoint_assignment`: a running session asks to continue later. -/
def checkpointAssignment (notBefore : Option Instant)
    (startCondition : Option Condition) (note : String) : Tx Unit := do
  query fun db => do
    let item ← db.targetAssignment env actor id expected
    if item.status ≠ .running then
      refuse .notRunning "Only a running assignment can request a checkpoint" 409
    if actor.kind = .agent then
      let live ← db.liveExecution env.now actor
      if live.execution.assignmentId ≠ id then
        refuse .forbidden "Agents may checkpoint only their own assignment" 403
    db.validateCondition (← db.projectOfAssignment id) startCondition (some id)
    validWindow notBefore item.expiresAt item.functions
  let _ ← change env .assignment id (some expected) fun a =>
    { a with checkpointRequestedAt := some env.now, notBefore := notBefore
             startCondition := startCondition, statusNote := some note }

/-- `update_assignment`: edit the schedule of a queued assignment. -/
def updateAssignment (data : AssignmentUpdate) : Tx Unit := do
  query fun db => do
    let item ← db.targetAssignment env actor id expected
    if item.status ≠ .pending then
      refuse .notPending "Edit scheduling at a checkpoint while the assignment is pending" 409
    let functions := data.functions.getD item.functions
    validWindow (data.notBefore.getD item.notBefore) (data.expiresAt.getD item.expiresAt) functions
    if !functions.all AgentFunction.isKnown then
      refuse .unknownFunction "Functions must exist in the pinned catalog" 422
    db.validateCondition (← db.projectOfAssignment id)
      (data.startCondition.getD item.startCondition) (some id)
  let _ ← change env .assignment id (some expected) fun a =>
    { a with notBefore := data.notBefore.getD a.notBefore
             expiresAt := data.expiresAt.getD a.expiresAt
             startCondition := data.startCondition.getD a.startCondition
             functions := data.functions.getD a.functions }

/-- The identifiers of a queue, in queue order. -/
def DB.queueOrder (db : DB) (runId : Id) : List Id :=
  ((((db .assignment).rows.filter fun a => a.runId == runId && a.status == .pending).map fun a =>
    (a.queueRank, a.id)).mergeSort fun a b =>
      decide (a.1 < b.1) || (a.1 == b.1 && decide (a.2 ≤ b.2))).map Prod.snd

/-- A queue with one assignment moved next to another. -/
def moved (order : List Id) (id otherId : Id) (after : Bool) : List Id :=
  (order.filter (· != id)).flatMap fun other =>
    if other = otherId then (if after then [other, id] else [id, other]) else [other]

/-- `move_before` and `move_after`. -/
def moveAssignment (otherId : Id) (after : Bool) : Tx Unit := do
  let item ← query fun db => do
    let item ← db.targetAssignment env actor id expected
    if item.status ≠ .pending then
      refuse .notPending "Only pending assignments can move in the queue" 409
    let target ← db.get .assignment otherId
    if target.runId ≠ item.runId ∨ target.status ≠ .pending ∨ target.id = id then
      refuse .invalidNeighbor
        "Queue neighbor must be another pending assignment in the same run" 422
    db.requireAssignmentAuthority env.now actor target
    pure item
  let db ← get
  each (fun entry => do
    let _ ← change env .assignment entry.1 none fun a =>
      { a with queueRank := ((entry.2 : Nat) + 1 : Int) * 1024 })
    (moved (db.queueOrder item.runId) id otherId after).zipIdx

end

section

/-! ## Automations -/

variable (env : Env) (data : AutomationDeferral) (actor : Actor) (rule : Automation)

/-- The rule after a deferral. -/
def AutomationDeferral.apply (objective : Bool) (a : Automation) : Automation :=
  let count := a.noProgressCount + 1
  let fallback := env.now + min 3600 (a.cooldownSeconds * 2 ^ min count 8)
  let notBefore := data.notBefore.getD a.notBefore
  { a with
    startCondition := data.startCondition.getD a.startCondition
    cooldownSeconds := data.cooldownSeconds.getD a.cooldownSeconds
    enabled := data.enabled.getD a.enabled
    pauseReason := match objective, data.enabled with
      | true, some true => none
      | true, some false => some "operator"
      | _, _ => a.pauseReason
    noProgressCount := match data.noProgress with
      | some true => count
      | some false => 0
      | none => a.noProgressCount
    notBefore := if data.noProgress = some true then some (max fallback (notBefore.getD fallback))
      else notBefore }

/-- The queued occurrences of a rule. -/
def DB.queuedOccurrences (db : DB) (ruleId : Id) : List Assignment :=
  (db .assignment).rows.filter fun a => a.automationId == some ruleId && a.status == .pending

/-- The queued occurrences of a deferred rule follow its schedule. -/
def reschedule (item : Assignment) : Tx Unit := do
  let _ ← change env .assignment item.id none fun a =>
    { a with startCondition := if data.startCondition.isSome then rule.startCondition
               else a.startCondition
             notBefore :=
               if data.notBefore.isSome || data.noProgress == some true then rule.notBefore
               else a.notBefore }

/-- Enabling a dormant rule admits its single recurrence immediately. -/
def enableRule : Tx Unit := do
  let run ← getRecord .run rule.runId
  if run.orchestration = .objective then
    match ← ensureSuccessor env run rule with
    | none => pure ()
    | some successor =>
      let _ ← change env .assignment successor.id none fun a => { a with pauseReason := none }
  else
    let _ ← replenish env actor rule

/-- The queued occurrences of a rule after a deferral of its schedule. -/
def rescheduleOccurrences : Tx Unit := do
  let db ← get
  if data.startCondition.isSome || data.notBefore.isSome || data.noProgress == some true then
    each (reschedule env data rule) (db.queuedOccurrences rule.id)
  else pure ()

/-- The queued occurrences of a rule after it is enabled or disabled. -/
def switchOccurrences (data : AutomationDeferral) (old rule : Automation)
    (objective : Bool) : Tx Unit :=
  if data.enabled = some true ∧ ¬ old.enabled then enableRule env actor rule
  else if data.enabled = some false ∧ objective then
    updateWhere env .assignment (fun _ a => a.automationId == some rule.id && a.status == .pending)
      fun a => { a with pauseReason := some "Planner automation paused explicitly" }
  else pure ()

/-- `defer_automation`. -/
def deferAutomation (id : Id) (expected : Nat) (data : AutomationDeferral) : Tx Unit := do
  let (old, run) ← query fun db => do
    let rule ← db.targetAutomation env actor id expected
    let projectId ← db.projectOfRun rule.runId
    let condition := data.startCondition.getD rule.startCondition
    db.validateCondition projectId condition none
    if data.startCondition.isSome then
      for item in db.queuedOccurrences id do
        db.validateCondition projectId condition (some item.id)
    pure (rule, ← db.get .run rule.runId)
  let objective := run.orchestration == .objective
  let rule ← change env .automation id (some expected) fun a => data.apply env objective a
  rescheduleOccurrences env data rule
  switchOccurrences env actor data old rule objective

/-- The data of a new automation. -/
structure AutomationCreate where
  runId : Id
  name : AutomationName
  missionId : Id
  role : Role := .worker
  functions : List AgentFunction := []
  startCondition : Option Condition := none
  notBefore : Option Instant := none
  cooldownSeconds : Nat := 60

/-- The checks of a new automation: it recurs in an active legacy run, on an open mission
of the run's tree. -/
def DB.validateAutomation (db : DB) (actor : Actor) (data : AutomationCreate) :
    Except Error Unit := do
  let projectId ← db.projectOfRun data.runId
  db.requireProject env.now actor projectId .maintainer
  let run ← db.get .run data.runId
  if run.orchestration = .objective then
    refuse .objectiveAutomationManaged "Objective planner and review demand own recurrence" 409
  if actor.kind = .agent then
    let live ← db.liveExecution env.now actor
    if live.assignment.missionId = data.missionId then
      refuse .childMissionRequired "An automation cannot queue the agent's own mission" 422
  let mission ← db.requireMissionAuthority env.now actor data.missionId
  if mission.projectId ≠ projectId then
    refuse .scopeMismatch "Automation run and mission must belong to the same project" 422
  if actor.kind = .agent then
    let live ← db.liveExecution env.now actor
    if live.assignment.runId ≠ run.id then
      refuse .forbidden "The automation belongs to another run" 403
  if run.status ≠ .active then refuse .runNotActive "Automations require an active run" 409
  if mission.status ≠ .opened then refuse .missionClosed "Automations require an open mission" 409
  if !db.containsMission run.missionId mission.id then
    refuse .scopeMismatch "Automation mission must belong to the run's mission tree" 422
  db.validateCondition projectId data.startCondition none

/-- `POST /records/automation`. -/
def createAutomation (data : AutomationCreate) : Tx Unit := do
  query fun db => db.validateAutomation env actor data
  let db ← get
  let rule ← create .automation
    { id := env.uuid ((db .automation).rows.map (·.id)), revision := 1, updatedAt := env.now
      runId := data.runId, name := data.name, missionId := data.missionId, frontierHash := none
      pauseReason := none, role := data.role, functions := data.functions, enabled := true
      startCondition := data.startCondition, notBefore := data.notBefore
      cooldownSeconds := data.cooldownSeconds, noProgressCount := 0 }
  let _ ← replenish env actor rule

end

section

/-! ## Executions, contexts and workspaces -/

variable (env : Env) (actor : Actor)

/-- Give up the prelaunch contexts of an assignment that a fenced execution submitted
requests on. -/
def retirePrelaunchContexts (execution : Execution) : Tx Unit :=
  updateWhere env .providerThread (fun db t => t.assignmentId == execution.assignmentId
    && t.kind == .primary && t.providerThreadId.isNone && t.status.isLive
    && (db .providerRequest).rows.any fun r => r.executionId == execution.id
      && r.providerThreadId == t.id) (fun t => { t with status := .unavailable }) (key_status _)

/-- `confirm_host_stopped`: an operator confirms that a lost execution was fenced. -/
def confirmHostStopped (id : Id) (expected : Nat) (machineFenced : Bool)
    (note evidence : String) : Tx Unit := do
  let execution ← query fun db => do
    let execution ← db.targetExecution env actor id expected
    db.requireAdmin actor
    if ¬ machineFenced ∨ ¬ hasText note ∨ ¬ hasText evidence then
      refuse .physicalFencingRequired
        "Confirm the physical host or process was fenced and record evidence" 422
    if (execution.status ≠ .lost ∧ execution.status ≠ .cancelled)
        ∨ execution.stopConfirmedAt.isSome then
      refuse .invalidStopConfirmation "Only an unconfirmed lost execution can be reconciled" 409
    pure execution
  let _ ← change env .execution id (some expected)
    (fun e => { e with stopConfirmedAt := some env.now }) (key_confirmed env)
  interruptRequests env id env.now
  releaseClaims env id env.now
  retirePrelaunchContexts env execution

/-- The checks of `recover_context`: the assignment of a replaceable primary context. -/
def DB.validateRecoverContext (db : DB) (actor : Actor) (id : Id) (expected : Nat) (note : String) :
    Except Error (ProviderThread × Assignment × Run) := do
  let thread ← db.targetThread env actor id expected
  db.requireProject env.now actor (← db.projectOfAssignment thread.assignmentId) .maintainer
  if ¬ hasText note ∨ thread.kind ≠ .primary then
    refuse .invalidRecovery "Primary context recovery needs an explanation" 422
  let item ← db.get .assignment thread.assignmentId
  let run ← db.get .run item.runId
  if run.orchestration = .objective ∧ db.hasUnconfirmed item.id then
    refuse .physicalStopUnconfirmed ("Confirm the original process stopped before replacing an "
      ++ "unusable native context") 409
  if (item.status ≠ .pending ∧ item.status ≠ .failed) ∨ db.hasLiveExecution item.id then
    refuse .executionActive
      "Stop and reconcile the previous execution before replacing its context" 409
  if (db .providerThread).rows.any (·.predecessorId == some id) then
    refuse .contextReplaced "This context already has a replacement" 409
  if ¬ (db.unsettledRequests item.id).isEmpty then
    refuse .requestUnsettled "Reconcile outstanding requests before replacing their context" 409
  pure (thread, item, run)

/-- `recover_context`: replace an unusable primary context. -/
def recoverContext (id : Id) (expected : Nat) (note : String) : Tx Unit := do
  let (thread, item, run) ← query fun db =>
    db.validateRecoverContext env actor id expected note
  let _ ← change env .providerThread id (some expected) (fun t => { t with status := .closed })
    (key_status _)
  let db ← get
  let _ ← create .providerThread
    { id := env.uuid ((db .providerThread).rows.map (·.id)), revision := 1, updatedAt := env.now
      assignmentId := item.id
      number := nextNumber (·.number) (·.assignmentId == item.id) (db .providerThread).rows
      kind := .primary, parentRequestId := none, workspaceId := thread.workspaceId, label := none
      description := none, harnessId := thread.harnessId, adapter := thread.adapter
      providerThreadId := none, providerStateRef := .recovered thread.id
      predecessorId := some thread.id, status := .creating }
  let objective := run.orchestration == .objective
  let _ ← change env .assignment item.id none fun a =>
    { a with status := .pending, finishedAt := none, retryAt := none
             pauseReason := if objective then none else a.pauseReason
             recoveryAttempts := if objective then a.recoveryAttempts else 0
             statusNote := some "Provider context explicitly replaced; source and ledger retained" }

/-- Whether live or suspended owners, unresolved work or pinned inputs keep a workspace. -/
def DB.workspaceHeld (db : DB) (id : WorkspaceId) : Bool :=
  let owned (assignmentId : Id) : Bool := (db .providerThread).rows.any fun t =>
    t.workspaceId == id && t.assignmentId == assignmentId
  (db .assignment).rows.any (fun a => owned a.id
      && (a.status.isLive || env.obs.pendingDeliveries db a.id || env.obs.unpublished db a.id))
    || (db .execution).rows.any (fun e => e.workspaceId == id && e.stopConfirmedAt.isNone)
    || (db .obligation).rows.any (fun o => owned o.assignmentId && o.status == .opened)
    || (db .run).rows.any fun r => r.status.isLive && (match r.phase with
      | .postprocessing source _ _ => source == id
      | _ => false)

/-- `retire`: a settled managed workspace is given up for deletion. -/
def retireWorkspace (id : WorkspaceId) : Tx Unit := do
  query fun db => do
    let w ← db.get .workspace id
    db.requireProject env.now actor w.projectId .worker
    db.requireProject env.now actor w.projectId .maintainer
    if !(w.path matches .assignment _) then
      refuse .workspaceNotManaged
        "Only generated assignment workspaces can be retired for deletion" 422
    if w.status ≠ .ready then refuse .workspaceNotReady "Retire a settled ready workspace" 409
    if db.workspaceHeld env id then
      refuse .workspaceRetained ("Live or suspended owners, unresolved work, pinned inputs and "
        ++ "unpublished sources must be preserved") 409
  updateWhere env .providerThread (fun _ t => t.workspaceId == id && t.status.isLive)
    (fun t => { t with status := .unavailable }) (key_status _)
  let _ ← change env .workspace id none fun w => { w with status := .retired }

/-- `reset_circuit`. -/
def resetCircuit (id : Id) (note : String) : Tx Unit := do
  query fun db => do
    requireNote note .decisionRequired "Record the diagnosis or decision before continuing"
    db.requireAdmin actor
  let _ ← change env .resourceLimit id none fun l =>
    { l with circuitOpen := false, failureCount := 0, cooldownUntil := none }

end

section

/-! ## Obligations -/

variable (env : Env) (actor : Actor) (id : ObligationId) (expected : Nat)

/-- `comment_obligation`.  Comments are not modelled; recording one is a revision. -/
def commentObligation : Tx Unit := do
  let _ ← query fun db => db.targetObligation env actor id expected
  let _ ← change env .obligation id (some expected) fun o => o

/-- `edit_obligation`. -/
def editObligation (description : String) (kind : Option ObligationKind) : Tx Unit := do
  let o ← query fun db => db.targetObligation env actor id expected
  if o.status ≠ .opened then
    raise (.domain .obligationSettled
      "Reopen a settled obligation before editing it" 409)
  else
    let _ ← change env .obligation id (some expected) fun o =>
      { o with description := description, kind := kind.getD o.kind }

/-- `reopen_obligation`. -/
def reopenObligation (note : String) : Tx Unit := do
  query fun db => do
    let _ ← db.targetObligation env actor id expected
    requireNote note .missingNote "Reopening an obligation requires an explanation"
  let _ ← change env .obligation id (some expected)
    (fun o => { o with status := .opened, resolution := none }) key_reopened

end

/-! ## Dispatch -/

variable (env : Env) (actor : Actor)

/-- Check a recorded decision, then act on the run it targets. -/
def onRun (id : Id) (expected : Nat) (role : GrantRole) (f : Run → Tx Unit) : Tx Unit := do
  let run ← query fun db => db.targetRun env actor id expected role
  f run

/-- The decisions that need a recorded text before anything else is checked. -/
def requireDecision (note : String) : Tx Unit :=
  query fun _ =>
    requireNote note .decisionRequired "Record the diagnosis or decision before continuing"

/-- Apply a command whose arguments match its contract. -/
def dispatch (expected : Nat) : Command → Tx Unit
  | .mission command id note => missionCommand env actor command id expected note
  | .run command id note =>
    onRun env actor id expected .maintainer fun run => do
      let _ ← runCommand env actor command run note
  | .acceptPhase id note evidence nextPhase => do
    requireDecision note
    onRun env actor id expected .maintainer fun run => do
      let _ ← acceptPhase env actor run note evidence nextPhase
  | .requestMaintenance id note evidence digest => do
    requireDecision note
    onRun env actor id expected .worker fun run => do
      let _ ← requestMaintenance env actor run note evidence digest
  | .setRunBudget id maxAssignments => setRunBudget env actor id expected maxAssignments
  | .extendRunBudget id additional => extendRunBudget env actor id expected additional
  | .queueRepair id data note => queueRepair env actor id expected data note
  | .adoptRoadmapSnapshot id snapshotId => adoptRoadmapSnapshot env actor id expected snapshotId
  | .cancelAssignment id note => do
    let item ← query fun db => db.targetAssignment env actor id expected
    let _ ← cancel env item (note.getD "Cancelled by an authorized user") true true
  | .retryAssignment id => retryAssignment env actor id expected
  | .resumeAssignment id note => resumeAssignment env actor id expected note
  | .resumeSession id note => resumeSession env actor id expected note
  | .checkpointAssignment id notBefore condition note =>
    checkpointAssignment env actor id expected notBefore condition note
  | .updateAssignment id data => updateAssignment env actor id expected data
  | .move id otherId after => moveAssignment env actor id expected otherId after
  | .deferAutomation id data => deferAutomation env actor id expected data
  | .confirmHostStopped id machineFenced note evidence =>
    confirmHostStopped env actor id expected machineFenced note evidence
  | .recoverContext id note => recoverContext env actor id expected note
  | .commentObligation id => commentObligation env actor id expected
  | .editObligation id description kind => editObligation env actor id expected description kind
  | .reopenObligation id note => reopenObligation env actor id expected note
  | .requestReview id note runId => do
    let _ ← request env actor id note runId
  | .settleReview id generation note => do
    requireDecision note
    settle env actor id generation
  | .resetCircuit id note => resetCircuit env actor id note
  | .retireWorkspace id => retireWorkspace env actor id

/-- `execute`: apply one authorized lifecycle decision at its expected revision. -/
def execute (expected : Nat) (c : Command) : Tx Unit :=
  if !c.matchesContract then
    raise (.domain .invalidArguments "Command arguments do not match the contract" 422)
  else dispatch env actor expected c

theorem dispatch_of_execute {env : Env} {actor : Actor} {expected : Nat} {c : Command} {s s' : DB}
    (h : execute env actor expected c s = .ok ((), s')) :
    dispatch env actor expected c s = .ok ((), s') := by
  rw [execute] at h
  split at h
  · cases h
  · exact h

/-- `classify`: assign a Forge item to a phase with a review policy. -/
def classify (id : Id) (phase : PhaseKind) : Tx Unit := do
  query fun db => do
    db.requireProject env.now actor (← db.projectOf (.forgeItem id)) .maintainer
    let item ← db.get .forgeItem id
    db.matchingPolicy env item.repositoryId phase true
  let _ ← change env .forgeItem id none fun i => { i with reviewPhase := some phase }

end Horizon
