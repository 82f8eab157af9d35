import Horizon.Persistence.Consistency
import Horizon.Missions.MissionTree
import Horizon.Execution.QueuePolicies

/-!
# The kinds of writes

Every write of the control plane is of one kind, its `Event`.  The event fixes the table,
says what a new row looks like (`Event.Inserts`) and what may become of a stored one
(`Event.Changes`), with the checks that were made against the database the write starts
from.
-/

namespace Horizon

variable {a a' a'' : Assignment} {ev : Event}

/-! ## Guards -/

namespace DB

variable (s : DB) (m : Mission)

/-- The parent of a mission, if any, is open. -/
def parentOpen : Bool :=
  m.parentId.all fun p => ((s .mission).find? p).any (·.status == .opened)

/-- The parent of a mission, if any, has room for it among its open children. -/
def roomLeft : Bool :=
  m.parentId.all fun p => ((s .mission).find? p).any fun parent =>
    decide (((s.openChildren p).filter (·.id != m.id)).length < parent.maxOpenChildren)

/-- The scope of a mission stays inside the scope of its parent. -/
def withinParent : Bool :=
  m.parentId.all fun p => ((s .mission).find? p).any fun parent =>
    scopeContains parent.scope m.scope

/-- The weight reserved by the objective executions whose stop is unconfirmed. -/
def reservedWeight (p : Execution → Bool) : Nat :=
  total Execution.weight
    (fun e => p e && (e.stopConfirmedAt.isNone && s.isObjective e.assignmentId)) (s .execution).rows

/-- A mission that is not delegated from another one. -/
def isRoot (missionId : Id) : Bool := ((s .mission).find? missionId).all (·.parentId.isNone)

/-- No other live assignment owns the mission of an assignment, in its run and role. -/
def soleOwner (a : Assignment) : Bool :=
  (s .assignment).rows.all fun b => b.id == a.id
    || !(b.runId == a.runId && b.missionId == a.missionId && b.role == a.role && b.status.isLive)

/-- A mission has one owner in each run and role. -/
def solelyOwned (missionId : Id) : Bool :=
  (s .assignment).rows.all fun a => a.missionId != missionId || !a.status.isLive || s.soleOwner a

/-- A referenced assignment or obligation is stored. -/
def refStored : ObjectRef → Bool
  | .assignment id => s.has .assignment id
  | .obligation id => s.has .obligation id
  | _ => true

/-- The assignments and obligations a start condition names are stored. -/
def namesStored (condition : Option Condition) : Bool :=
  ((condition.map Condition.references).getD []).all s.refStored

/-- A run without live assignments, busy executions and pending deliveries. -/
def phaseSettled (env : Env) (runId : Id) : Bool :=
  !((s .assignment).rows.any (fun a => a.runId == runId
      && (a.status.isLive || env.obs.pendingDeliveries s a.id))
    || (s .execution).rows.any fun e => s.executionBusy env.now e
      && ((s .assignment).find? e.assignmentId).any (·.runId == runId))

end DB

/-- A mission keeps its identity, its place and its contract. -/
structure Mission.SameContract (m m' : Mission) : Prop where
  projectId : m'.projectId = m.projectId
  parentId : m'.parentId = m.parentId
  scope : m'.scope = m.scope
  maxOpenChildren : m'.maxOpenChildren = m.maxOpenChildren

/-- A revision of an open mission, checked against its new parent and its children. -/
structure Mission.Revised (s : DB) (m m' : Mission) : Prop where
  id : m'.id = m.id
  projectId : m'.projectId = m.projectId
  opened : m.status = .opened
  status : m'.status = m.status
  placed : m'.parentId = m.parentId ∨ (s.parentOpen m' ∧ s.roomLeft m'
    ∧ m'.parentId.all (! s.containsMission m.id ·))
  within : s.withinParent m'
  covers : m'.scope = m.scope ∨ ∀ child ∈ s .mission, child.parentId = some m.id →
    scopeContains m'.scope child.scope
  budget : m'.maxOpenChildren = m.maxOpenChildren
    ∨ (s.openChildren m.id).length ≤ m'.maxOpenChildren

/-- Revising the rest of a mission makes no difference. -/
theorem Mission.Revised.congr {s : DB} {m m' m'' : Mission} (h : m.Revised s m')
    (hid : m''.id = m'.id) (hc : m'.SameContract m'') (hs : m''.status = m'.status) :
    m.Revised s m'' where
  id := hid.trans h.id
  projectId := hc.projectId.trans h.projectId
  opened := h.opened
  status := hs.trans h.status
  placed := by
    simpa only [DB.parentOpen, DB.roomLeft, hid, hc.parentId] using h.placed
  within := by simpa only [DB.withinParent, hc.parentId, hc.scope] using h.within
  covers := by simpa only [hc.scope] using h.covers
  budget := by simpa only [hc.maxOpenChildren] using h.budget

/-- An assignment stays an attempt on the same mission, in the same queue. -/
structure Assignment.SameWork (a a' : Assignment) : Prop where
  runId : a'.runId = a.runId
  missionId : a'.missionId = a.missionId
  category : a'.category = a.category
  role : a'.role = a.role
  automationId : a'.automationId = a.automationId

theorem Assignment.SameWork.refl (a : Assignment) : a.SameWork a := ⟨rfl, rfl, rfl, rfl, rfl⟩

theorem Assignment.SameWork.trans (h : a.SameWork a') (h' : a'.SameWork a'') : a.SameWork a'' :=
  ⟨h'.runId.trans h.runId, h'.missionId.trans h.missionId, h'.category.trans h.category,
    h'.role.trans h.role, h'.automationId.trans h.automationId⟩

/-- An assignment stays the same work, in the same status. -/
def Assignment.SameStatus (a a' : Assignment) : Prop := a.SameWork a' ∧ a'.status = a.status

instance : Std.Refl Assignment.SameStatus := ⟨fun a => ⟨.refl a, rfl⟩⟩

theorem Assignment.SameStatus.trans (h : a.SameStatus a') (h' : a'.SameStatus a'') :
    a.SameStatus a'' :=
  ⟨h.1.trans h'.1, h'.2.trans h.2⟩

/-- An assignment that stays the same work stays in its category. -/
theorem Assignment.SameWork.category_eq (h : a.SameWork a') :
    Horizon.category a' = Horizon.category a := by
  rw [Horizon.category, Horizon.category, h.category, h.role]

/-- The statuses of an assignment that did not finish its work. -/
def AssignmentStatus.isLost : AssignmentStatus → Bool
  | .failed | .cancelled => true
  | _ => false

/-- The statuses of an assignment that an execution works on. -/
def AssignmentStatus.isActive : AssignmentStatus → Bool
  | .running | .stopping => true
  | _ => false

theorem AssignmentStatus.isLive_of_isActive {status : AssignmentStatus}
    (h : status.isActive) : status.isLive := by
  cases status <;> first | rfl | cases h

/-- An assignment keeps its functions, its recurrence, its recovery ledger and its waits, or
gives its waits up. -/
structure Assignment.SameLedger (a a' : Assignment) : Prop where
  functions : a'.functions = a.functions
  recurrenceKey : a'.recurrenceKey = a.recurrenceKey
  recoveryAttempts : a'.recoveryAttempts = a.recoveryAttempts
  retryAt : a'.retryAt = a.retryAt ∨ a'.retryAt = none
  startCondition : a'.startCondition = a.startCondition ∨ a'.startCondition = none

/-- The key of the queued planner of a run. -/
def RecurrenceKey.isNext : RecurrenceKey → Bool
  | .plannerNext _ => true
  | _ => false

/-- The keys of the planners of a run. -/
def RecurrenceKey.isPlanner : RecurrenceKey → Bool
  | .plannerNext _ | .plannerActive _ => true
  | _ => false

/-- A pause ends by itself only for a queued planner, which has not run yet. -/
def Assignment.KeepsPause (a a' : Assignment) : Prop :=
  a.pauseReason.isSome → a'.pauseReason.isSome
    ∨ a.recurrenceKey.any RecurrenceKey.isNext

/-- Whether a run is an objective run. -/
def DB.isObjectiveRun (s : DB) (runId : Id) : Bool :=
  ((s .run).find? runId).any (·.orchestration == .objective)

/-- A rule is the planner of an objective run. -/
def DB.isPlanner (s : DB) (automationId : Option Id) (runId : Id) : Bool :=
  (automationId.bind (s .automation).find?).any (fun rule => rule.name == .objectivePlanner
    && rule.runId == runId) && s.isObjectiveRun runId

/-- What the checks of the queue leave room for. -/
structure Assignment.Queued (s : DB) (a : Assignment) : Prop where
  status : a.status = .pending
  functions : a.functions.contains .orchestrator = false
  category : a.category.isSome
  policy : ∀ run, (s .run).find? a.runId = some run → run.orchestration = .objective →
    ∃ settings, run.queuePolicies.lookup (Horizon.category a) = some settings
      ∧ settings.role = a.role
  recurrenceKey : a.recurrenceKey = none
  recoveryAttempts : a.recoveryAttempts = 0
  retryAt : a.retryAt = none
  names : s.namesStored a.startCondition
  owner : s.isRoot a.missionId ∨ s.soleOwner a
  rule : ∀ rule, a.automationId.bind (s .automation).find? = some rule → rule.runId = a.runId
  planner : s.isPlanner a.automationId a.runId → ∀ b ∈ s .assignment, b.missionId ≠ a.missionId

/-- A keyed assignment: a queued one that no execution worked on gets any key, and the
planner of an objective the active one. -/
structure Assignment.Keyed (s : DB) (key : RecurrenceKey) (a a' : Assignment) : Prop where
  status : a'.status = a.status
  functions : a'.functions = a.functions
  recoveryAttempts : a'.recoveryAttempts = a.recoveryAttempts
  retryAt : a'.retryAt = a.retryAt
  startCondition : a'.startCondition = a.startCondition
  recurrenceKey : a'.recurrenceKey = some key
  unstarted : (a.recurrenceKey = none ∧ ∀ e ∈ s .execution, e.assignmentId ≠ a.id)
    ∨ (key.isPlanner ∧ key.isNext = false ∧ a'.pauseReason = a.pauseReason)
  planner : key.isPlanner → s.isPlanner a.automationId a.runId
  unruled : ∀ item, key = .review item → a.automationId = none

/-- A run keeps its mission, its orchestration and its policies. -/
structure Run.SameSetup (r r' : Run) : Prop where
  missionId : r'.missionId = r.missionId
  orchestration : r'.orchestration = r.orchestration
  queuePolicies : r'.queuePolicies = r.queuePolicies

/-- The statuses of a run that goes through its phases. -/
def RunStatus.isOpen : RunStatus → Bool
  | .active | .paused => true
  | _ => false

/-- A run stays in its phase, and is not taken up again. -/
structure Run.SamePhase (r r' : Run) : Prop where
  phase : r'.phase = r.phase
  requestedPhases : r'.requestedPhases = r.requestedPhases
  phaseHistory : r'.phaseHistory = r.phaseHistory
  pendingPhase : r'.pendingPhase = r.pendingPhase
  isOpen : r'.status.isOpen → r.status.isOpen

/-- The accepted phase of an active run joins its history, and the next requested phase
is pending. -/
structure Run.PhaseAccepted (r r' : Run) : Prop where
  active : r.status = .active
  idle : r.pendingPhase = none
  phase : r'.phase = r.phase
  requestedPhases : r'.requestedPhases = r.requestedPhases
  phaseHistory : ∃ note, r'.phaseHistory = r.phaseHistory ++ [(r.phase, note)]
  pendingPhase : ∃ p, r'.pendingPhase = some p
    ∧ p.next.map RunPhase.kind = r.requestedPhases[r.phaseHistory.length + 1]?

/-- The pending phase of a run becomes its phase, or ends it. -/
structure Run.PhaseAdvanced (r r' : Run) : Prop where
  requestedPhases : r'.requestedPhases = r.requestedPhases
  phaseHistory : r'.phaseHistory = r.phaseHistory
  settled : r'.pendingPhase = none
  phase : (∃ owner, r.pendingPhase = some ⟨some r'.phase, owner⟩)
    ∨ ((∃ owner, r.pendingPhase = some ⟨none, owner⟩) ∧ r'.phase = r.phase
      ∧ r'.status.isOpen = false)

/-- A rule stays the same recurrence of its run. -/
structure Automation.SameRule (a a' : Automation) : Prop where
  runId : a'.runId = a.runId
  name : a'.name = a.name

/-- A rule is paused by a decision, not by idling. -/
def Automation.isPaused (a : Automation) : Bool := !a.enabled && a.pauseReason.any (· != "idle")

/-- The statuses of an execution that ended without a result. -/
def ExecutionStatus.hasFailed : ExecutionStatus → Bool
  | .failed | .lost => true
  | _ => false

/-- An execution keeps where and for what it was admitted. -/
structure Execution.SameAdmission (e e' : Execution) : Prop where
  assignmentId : e'.assignmentId = e.assignmentId
  hostId : e'.hostId = e.hostId
  workspaceId : e'.workspaceId = e.workspaceId
  harnessId : e'.harnessId = e.harnessId
  nativeCapacity : e'.nativeCapacity = e.nativeCapacity
  startedAt : e'.startedAt = e.startedAt
  revived : e'.status.isLive → e.status.isLive

theorem Execution.SameAdmission.trans {e e' e'' : Execution} (h : e.SameAdmission e')
    (h' : e'.SameAdmission e'') : e.SameAdmission e'' :=
  ⟨h'.assignmentId.trans h.assignmentId, h'.hostId.trans h.hostId,
    h'.workspaceId.trans h.workspaceId, h'.harnessId.trans h.harnessId,
    h'.nativeCapacity.trans h.nativeCapacity, h'.startedAt.trans h.startedAt,
    fun hl => h.revived (h'.revived hl)⟩

/-- What the checks of an admission leave room for. -/
structure Execution.Admitted (s : DB) (row : Execution) : Prop where
  unconfirmed : row.stopConfirmedAt = none
  running : row.status = .running
  owned : ∀ a, (s .assignment).find? row.assignmentId = some a → a.status.isActive
  unkeyed : ∀ a, (s .assignment).find? row.assignmentId = some a →
    a.recurrenceKey.any RecurrenceKey.isNext = false
  enabled : ∀ a rule, (s .assignment).find? row.assignmentId = some a →
    a.automationId.bind (s .automation).find? = some rule → rule.enabled
  limits : ∀ l ∈ s .resourceLimit,
    s.has .hostHarnessLimit (row.hostId, row.harnessId, l.id) →
      l.circuitOpen = false ∧ l.maximum.all (s.claimedUnits l.id + row.weight ≤ ·)
  exclusive : ∀ e ∈ s .execution, e.stopConfirmedAt = none → s.isObjective e.assignmentId →
    e.workspaceId ≠ row.workspaceId
  slots : ∀ h, (s .hostHarness).find? (row.hostId, row.harnessId) = some h →
    s.reservedWeight (DB.onSlot row.hostId row.harnessId) + row.weight ≤ h.executionSlots
  category : ∀ a run settings, (s .assignment).find? row.assignmentId = some a →
    (s .run).find? a.runId = some run → run.orchestration = .objective →
    run.queuePolicies.lookup (Horizon.category a) = some settings →
    s.reservedWeight (s.inCategory run.id (Horizon.category a)) + row.weight ≤ settings.slots
  worker : ∀ a run settings h, (s .assignment).find? row.assignmentId = some a →
    (s .run).find? a.runId = some run → run.orchestration = .objective →
    run.queuePolicies.lookup (Horizon.category a) = some settings → settings.role = .worker →
    a.role = .worker → (s .hostHarness).find? (row.hostId, row.harnessId) = some h →
    s.reservedWeight (s.isWorkerOn row.hostId row.harnessId) + row.weight
      ≤ max 1 (h.executionSlots - reservedSlots run)

/-- A claim is only ever released, once. -/
structure ResourceClaim.Released (c c' : ResourceClaim) : Prop where
  resourceLimitId : c'.resourceLimitId = c.resourceLimitId
  executionId : c'.executionId = c.executionId
  providerRequestId : c'.providerRequestId = c.providerRequestId
  units : c'.units = c.units
  before : c.releasedAt = none
  after : c'.releasedAt.isSome

/-- A limit keeps its record of failures. -/
structure ResourceLimit.SameBackOff (l l' : ResourceLimit) : Prop where
  failureCount : l'.failureCount = l.failureCount
  cooldownUntil : l'.cooldownUntil = l.cooldownUntil
  circuitOpen : l'.circuitOpen = l.circuitOpen

/-- A failure prolongs the cooldown of a limit, and may open its circuit. -/
structure ResourceLimit.BackedOff (l l' : ResourceLimit) : Prop where
  failureCount : l'.failureCount = l.failureCount + 1
  cooldownUntil : ∃ t, l'.cooldownUntil = some t ∧ l.cooldownUntil.all (· ≤ t)
  circuitOpen : l.circuitOpen → l'.circuitOpen

/-- An execution that started after the cooldown of a limit clears it. -/
structure ResourceLimit.Cleared (e : Execution) (l l' : ResourceLimit) : Prop where
  failureCount : l'.failureCount = 0
  cooldownUntil : l'.cooldownUntil = none
  closed : l.circuitOpen = false
  circuitOpen : l'.circuitOpen = false
  healthy : l.cooldownUntil.all (fun t => e.startedAt.any (t ≤ ·))

/-- A Forge item keeps what a review looks at. -/
structure ForgeItem.SameState (i i' : ForgeItem) : Prop where
  status : i'.status = i.status
  awaitingReview : i'.awaitingReview = i.awaitingReview
  fingerprint : i'.fingerprint = i.fingerprint

theorem ForgeItem.SameState.refl (i : ForgeItem) : i.SameState i := ⟨rfl, rfl, rfl⟩

theorem ForgeItem.SameState.trans {i i' i'' : ForgeItem} (h : i.SameState i')
    (h' : i'.SameState i'') : i.SameState i'' :=
  ⟨h'.status.trans h.status, h'.awaitingReview.trans h.awaitingReview,
    h'.fingerprint.trans h.fingerprint⟩

/-- A generation of review begins with an open item. -/
structure ReviewDemand.Opened (item : ForgeItem) (d : ReviewDemand) : Prop where
  opened : item.status = .opened
  generation : d.generation = 1
  handledGeneration : d.handledGeneration = 0
  ownerGeneration : d.ownerGeneration = 0
  assignmentId : d.assignmentId = none
  attention : d.attention

/-- What an observation of an item makes of its demand. -/
structure ReviewDemand.Observed (item : ForgeItem) (explicit : Bool)
    (d d' : ReviewDemand) : Prop where
  generation : d'.generation = d.generation ∨ (d'.generation = d.generation + 1
    ∧ item.status = .opened
    ∧ (explicit ∨ item.awaitingReview ∨ d.handledGeneration < d.generation))
  handledGeneration : d'.handledGeneration
    = if item.status = .opened then d.handledGeneration else d.generation
  owner : (d'.assignmentId = d.assignmentId ∧ d'.ownerGeneration = d.ownerGeneration)
    ∨ (d'.assignmentId = none ∧ d'.ownerGeneration = 0)
  attention : item.status = .opened → d'.handledGeneration < d'.generation → d'.attention

/-- The follow-up owners an obligation names. -/
def Obligation.targets (o : Obligation) : List Id := (o.resolution.map Resolution.targets).getD []

/-- Whether an assignment did not finish its work. -/
def DB.isLost (s : DB) (id : Id) : Bool := ((s .assignment).find? id).any (·.status.isLost)

/-! ## Events -/

/-- The tables whose writes are all of a tracked kind. -/
def TableName.isTracked : TableName → Bool
  | .mission | .run | .automation | .assignment | .execution | .obligation | .hostHarness
  | .hostHarnessLimit | .resourceLimit | .resourceClaim | .forgeItem | .reviewDemand => true
  | _ => false

/-- The kinds of writes.  A flag says whether a check was made that a kind of write can
also leave out. -/
inductive Event where
  | missionCreated
  | missionRevised (id : Id) (solelyOwned : Bool)
  | missionTouched
  | missionOpened (id : Id) (parentOpen roomLeft : Bool)
  | missionClosed (id : Id) (childless : Bool)
  | runCreated (orchestration : Orchestration)
  | runChanged
  | runReopened (id : Id)
  | phaseAccepted (id : Id)
  | phaseAdvanced (env : Env) (id : Id)
  | ruleCreated
  | ruleChanged (id : Id)
  | rulesDisabled
  | ruleEnabled (id : Id)
  | ruleRestarted (id runId : Id)
  | assignmentQueued
  | assignmentChanged
  | assignmentKeyed (key : RecurrenceKey)
  | assignmentConditioned (id : Id) (condition : Option Condition)
    (functions : Option (List AgentFunction))
  | assignmentResumed (id : Id)
  | assignmentRevived (id : Id) (soleOwner waits : Bool)
  | assignmentAdmitted (id : Id)
  | assignmentLost (id : Id)
  | assignmentSettled (id : Id)
  | executionAdmitted
  | executionChanged
  | executionEnded (id : Id)
  | stopConfirmed (id : Id) (ended : Bool)
  | claimAdmitted
  | claimAttached
  | childClaimed
  | claimReleased
  | childReleased
  | obligationRecorded
  | obligationChanged
  | obligationReopened (id : ObligationId)
  | slotCreated
  | slotChanged
  | slotConfigured
  | limitAttached
  | limitDetached
  | limitRegistered
  | limitTuned
  | limitBackedOff (id : Id)
  | limitCleared (id executionId : Id)
  | limitReset (id : Id)
  | itemRecorded
  | itemSynced (id : Id)
  | itemPhased
  | demandOpened (requested : Option Id)
  | demandObserved (requested : Option Id)
  | demandAssigned
  | demandSettled (itemId : Id) (generation : Nat)
  | other (t : TableName) (untracked : t.isTracked = false)

namespace Event

/-- The table an event writes. -/
abbrev table : Event → TableName
  | .missionCreated | .missionRevised _ _ | .missionTouched | .missionOpened _ _ _
  | .missionClosed _ _ => .mission
  | .runCreated _ | .runChanged | .runReopened _ | .phaseAccepted _ | .phaseAdvanced _ _ => .run
  | .ruleCreated | .ruleChanged _ | .rulesDisabled | .ruleEnabled _ | .ruleRestarted _ _ =>
    .automation
  | .assignmentQueued | .assignmentChanged | .assignmentKeyed _ | .assignmentConditioned _ _ _
  | .assignmentResumed _ | .assignmentRevived _ _ _ | .assignmentAdmitted _ | .assignmentLost _
  | .assignmentSettled _ => .assignment
  | .executionAdmitted | .executionChanged | .executionEnded _ | .stopConfirmed _ _ => .execution
  | .claimAdmitted | .claimAttached | .childClaimed | .claimReleased | .childReleased =>
    .resourceClaim
  | .obligationRecorded | .obligationChanged | .obligationReopened _ => .obligation
  | .slotCreated | .slotChanged | .slotConfigured => .hostHarness
  | .limitAttached | .limitDetached => .hostHarnessLimit
  | .limitRegistered | .limitTuned | .limitBackedOff _ | .limitCleared _ _ | .limitReset _ =>
    .resourceLimit
  | .itemRecorded | .itemSynced _ | .itemPhased => .forgeItem
  | .demandOpened _ | .demandObserved _ | .demandAssigned | .demandSettled _ _ => .reviewDemand
  | .other t _ => t

/-- The rows an event may insert. -/
def Inserts : (ev : Event) → DB → Row ev.table → Prop
  | .missionCreated, s, m =>
    m.status = .opened ∧ s.parentOpen m ∧ s.roomLeft m ∧ s.withinParent m
  | .runCreated orchestration, _, r =>
    r.orchestration = orchestration ∧ r.phaseHistory = [] ∧ r.pendingPhase = none
      ∧ (orchestration = .objective → r.requestedPhases.head? = some r.phase.kind)
  | .ruleCreated, s, a => s.isObjectiveRun a.runId → a.name = .objectivePlanner
  | .assignmentQueued, s, a => a.Queued s
  | .executionAdmitted, s, e => e.Admitted s
  | .claimAdmitted, s, c =>
    c.releasedAt = none ∧ c.providerRequestId = none
      ∧ (∀ e, (s .execution).find? c.executionId = some e → e.stopConfirmedAt = none)
      ∧ ∀ l, (s .resourceLimit).find? c.resourceLimitId = some l →
        l.maximum.all (s.claimedUnits l.id + c.units ≤ ·)
  | .claimAttached, s, c =>
    c.releasedAt = none
      ∧ ∀ e, (s .execution).find? c.executionId = some e → e.stopConfirmedAt = none
  | .childClaimed, _, c => c.providerRequestId.isSome
  | .obligationRecorded, _, o => o.status = .opened
  | .slotCreated, _, _ | .limitAttached, _, _ => True
  | .limitRegistered, _, l =>
    l.failureCount = 0 ∧ l.cooldownUntil = none ∧ l.circuitOpen = false
  | .itemRecorded, _, _ => True
  | .demandOpened requested, s, d =>
    (∀ id, requested = some id → d.forgeItemId = id)
      ∧ ∃ item, (s .forgeItem).find? d.forgeItemId = some item ∧ d.Opened item
        ∧ (requested = none → item.awaitingReview)
  | .other _ _, _, _ => True
  | _, _, _ => False

/-- What an event may make of a stored row. -/
def Changes : (ev : Event) → DB → Row ev.table → Row ev.table → Prop
  | .missionRevised id solelyOwned, s, m, m' =>
    m.Revised s m' ∧ m.id = id
      ∧ (solelyOwned → m.parentId.isSome ∨ m'.parentId = none
        ∨ s.solelyOwned m.id)
  | .missionTouched, _, m, m' => m.SameContract m' ∧ m'.status = m.status
  | .missionOpened id parentOpen roomLeft, s, m, m' =>
    m.SameContract m' ∧ m.id = id ∧ m'.status = .opened
      ∧ (parentOpen → m.status = .opened ∨ s.parentOpen m)
      ∧ (roomLeft → m.status = .opened ∨ s.roomLeft m)
  | .missionClosed id childless, s, m, m' =>
    m.SameContract m' ∧ m.id = id ∧ m'.status ≠ .opened
      ∧ (childless → s.openChildren m.id = [])
  | .runChanged, _, r, r' => r.SameSetup r' ∧ r.SamePhase r'
  | .runReopened id, _, r, r' => r.SameSetup r' ∧ r.id = id
  | .phaseAccepted id, _, r, r' => r.SameSetup r' ∧ r.id = id ∧ r.PhaseAccepted r'
  | .phaseAdvanced env id, s, r, r' =>
    r.SameSetup r' ∧ r.id = id ∧ r.PhaseAdvanced r'
      ∧ (r'.phase = r.phase ∨ s.phaseSettled env id)
  | .ruleChanged id, s, a, a' =>
    a.SameRule a' ∧ a.id = id
      ∧ (s.isObjectiveRun a.runId → a.isPaused → a'.isPaused)
  | .rulesDisabled, _, a, a' =>
    a.SameRule a' ∧ a'.enabled = false ∧ a'.pauseReason = a.pauseReason
  | .ruleEnabled id, _, a, a' => a.SameRule a' ∧ a.id = id
  | .ruleRestarted id runId, _, a, a' => a.SameRule a' ∧ a.id = id ∧ a.runId = runId
  | .assignmentChanged, _, a, a' =>
    a.SameWork a' ∧ a.SameLedger a' ∧ a'.status = a.status ∧ a.KeepsPause a'
  | .assignmentKeyed key, s, a, a' => a.SameWork a' ∧ a.Keyed s key a'
  | .assignmentConditioned id condition functions, s, a, a' =>
    a.SameWork a' ∧ a.id = id ∧ a'.status = a.status ∧ a'.functions = functions.getD a.functions
      ∧ a'.recurrenceKey = a.recurrenceKey ∧ a'.recoveryAttempts = a.recoveryAttempts
      ∧ a'.retryAt = a.retryAt ∧ a'.pauseReason = a.pauseReason ∧ a'.startCondition = condition
      ∧ s.namesStored condition
  | .assignmentResumed id, _, a, a' =>
    a.SameWork a' ∧ a.id = id ∧ a.SameLedger a' ∧ a'.status = a.status
  | .assignmentRevived id soleOwner waits, s, a, a' =>
    a.SameWork a' ∧ a.id = id ∧ a'.functions = a.functions ∧ a'.recurrenceKey = a.recurrenceKey
      ∧ a'.status = .pending ∧ a.status.isActive = false
      ∧ a'.startCondition = (if waits then a.startCondition else none)
      ∧ (s.isObjectiveRun a.runId →
        a'.recoveryAttempts = a.recoveryAttempts ∧ a'.retryAt = none)
      ∧ (soleOwner → a.status.isLive ∨ s.isRoot a.missionId
        ∨ s.soleOwner a)
  | .assignmentAdmitted id, s, a, a' =>
    a.SameWork a' ∧ a.id = id ∧ a.SameLedger a' ∧ a.status = .pending ∧ a'.status = .running
      ∧ a.pauseReason = none ∧ a'.pauseReason = none
      ∧ ∀ rule, a.automationId.bind (s .automation).find? = some rule → rule.enabled
  | .assignmentLost id, _, a, a' =>
    a.SameWork a' ∧ a.id = id ∧ a.SameLedger a' ∧ a'.pauseReason = a.pauseReason
      ∧ a.status.isLive
      ∧ a'.status = if a.status.isActive then .stopping else .cancelled
  | .assignmentSettled id, s, a, a' =>
    a.SameWork a' ∧ a.id = id ∧ a'.functions = a.functions ∧ a'.recurrenceKey = a.recurrenceKey
      ∧ (a'.startCondition = a.startCondition ∨ a'.startCondition = none)
      ∧ a.status.isActive ∧ a'.status.isActive = false
      ∧ (a.status = .stopping → a'.status = .cancelled)
      ∧ ∀ e ∈ s .execution, e.assignmentId = id → e.status.isLive = false
  | .executionChanged, _, e, e' =>
    e.SameAdmission e' ∧ e'.stopConfirmedAt = e.stopConfirmedAt
      ∧ e'.status.isLive = e.status.isLive ∧ e'.status.hasFailed = e.status.hasFailed
  | .executionEnded id, _, e, e' =>
    e.SameAdmission e' ∧ e.id = id ∧ e'.stopConfirmedAt = e.stopConfirmedAt
  | .stopConfirmed id ended, _, e, e' =>
    e.SameAdmission e' ∧ e.id = id ∧ e'.stopConfirmedAt.isSome
      ∧ (ended = false → e'.status = e.status)
  | .claimReleased, s, c, c' =>
    c.Released c' ∧ ∀ e, (s .execution).find? c.executionId = some e → e.stopConfirmedAt.isSome
  | .childReleased, _, c, c' => c.Released c' ∧ c.providerRequestId.isSome
  | .obligationChanged, s, o, o' =>
    o'.assignmentId = o.assignmentId ∧ (o'.status = .opened → o.status = .opened)
      ∧ (o'.status = .handled → (o.status = .handled ∧ o'.targets = o.targets)
        ∨ ∀ id ∈ o'.targets, s.isLost id = false)
  | .obligationReopened id, _, o, o' =>
    o'.assignmentId = o.assignmentId ∧ o.id = id ∧ o'.status = .opened
  | .slotChanged, _, h, h' => h'.executionSlots = h.executionSlots
  | .slotConfigured, _, _, _ => True
  | .limitTuned, _, l, l' => l.SameBackOff l'
  | .limitBackedOff id, _, l, l' => l.id = id ∧ l.BackedOff l'
  | .limitCleared id executionId, s, l, l' =>
    l.id = id ∧ ∃ e, (s .execution).find? executionId = some e ∧ l.Cleared e l'
  | .limitReset id, _, l, l' =>
    l.id = id ∧ l'.failureCount = 0 ∧ l'.cooldownUntil = none ∧ l'.circuitOpen = false
  | .itemSynced id, _, i, _ => i.id = id
  | .itemPhased, _, i, i' => i.SameState i'
  | .demandObserved requested, s, d, d' =>
    (∀ id, requested = some id → d.forgeItemId = id)
      ∧ ∃ item, (s .forgeItem).find? d.forgeItemId = some item ∧ d.Observed item requested.isSome d'
  | .demandAssigned, s, d, d' =>
    (∃ a, (s .assignment).find? a.id = some a ∧ a.recurrenceKey = some (.review d.forgeItemId)
        ∧ d'.assignmentId = some a.id)
      ∧ d'.ownerGeneration = d.generation ∧ d'.generation = d.generation
      ∧ d'.handledGeneration = d.handledGeneration ∧ d'.attention = d.attention
  | .demandSettled itemId generation, _, d, d' =>
    d.forgeItemId = itemId ∧ generation ≤ d.generation
      ∧ d' = { d with handledGeneration := max generation d.handledGeneration }
  | .other _ _, _, _, _ => True
  | _, _, _, _ => False

/-- The writes that create a mission. -/
def isDelegating : Event → Bool
  | .missionCreated | .missionTouched | .other .missionNode _ | .other .missionDocument _
  | .other .principal _ | .other .systemGrant _ => true
  | _ => false

/-- The writes that queue and account for work: they admit, stop and release nothing. -/
def isQueueing : Event → Bool
  | .missionCreated | .missionTouched | .missionClosed _ true | .runChanged | .assignmentQueued
  | .assignmentChanged | .assignmentKeyed _ | .obligationRecorded | .obligationChanged
  | .other .missionNode _ | .other .missionDocument _ | .other .runCoordination _
  | .other .principal _ | .other .systemGrant _ => true
  | _ => false

/-- The writes that every operation may make.  They admit and end no execution, confirm no
stop, revive and cancel no assignment, move no run to another phase, place and open no
mission but under a checked parent, and configure no capacity. -/
def isRoutine : Event → Bool
  | .missionRevised _ _ | .missionOpened _ _ _ | .missionClosed _ false | .runCreated _
  | .runReopened _ | .phaseAccepted _ | .phaseAdvanced _ _ | .ruleEnabled _ | .ruleRestarted _ _
  | .assignmentConditioned _ _ _ | .assignmentResumed _ | .assignmentRevived _ _ _
  | .assignmentAdmitted _ | .assignmentLost _ | .assignmentSettled _ | .executionAdmitted
  | .executionEnded _ | .stopConfirmed _ _ | .claimAdmitted | .claimAttached | .obligationReopened _
  | .slotCreated | .slotConfigured | .limitAttached | .limitDetached | .limitBackedOff _
  | .limitCleared _ _ | .limitReset _ | .itemRecorded | .itemSynced _ | .demandOpened (some _)
  | .demandObserved (some _) | .demandSettled _ _ => false
  | _ => true

/-- The writes that end work: an execution ends, its assignment is settled or lost, its
account backs off, and what relied on it is open again. -/
def isSettling : Event → Bool
  | .assignmentLost _ | .assignmentSettled _ | .executionEnded _ | .obligationReopened _
  | .limitBackedOff _ | .limitCleared _ _ => true
  | _ => false

/-- The writes that move an assignment to another status. -/
def moves (id : Id) : Event → Bool
  | .assignmentRevived id' _ _ | .assignmentAdmitted id' | .assignmentLost id'
  | .assignmentSettled id' => id' == id
  | _ => false

theorem moves_of_isRoutine (h : ev.isRoutine) (id : Id) : ev.moves id = false := by
  cases ev with
  | assignmentRevived | assignmentAdmitted | assignmentLost | assignmentSettled => cases h
  | _ => rfl

theorem table_ne_of_isDelegating (h : ev.isDelegating) : ev.table ≠ .assignment := by
  intro ht
  cases ev with
  | other t hu => cases ht; cases hu
  | _ => first | cases h; done | cases ht

/-- Queueing writes neither rules, executions nor limits. -/
theorem table_ne_of_isQueueing (h : ev.isQueueing) :
    ev.table ≠ .automation ∧ ev.table ≠ .execution ∧ ev.table ≠ .resourceLimit := by
  refine ⟨?_, ?_, ?_⟩ <;> intro ht <;> cases ev with
  | other t hu => cases ht; cases hu
  | _ => first | cases h; done | cases ht

theorem isQueueing_of_isDelegating (h : ev.isDelegating) : ev.isQueueing := by
  cases ev with
  | other t _ => cases t <;> first | rfl | cases h
  | _ => first | rfl | cases h

theorem isRoutine_of_isQueueing (h : ev.isQueueing) : ev.isRoutine := by
  cases ev with
  | missionClosed id childless => cases childless <;> first | rfl | cases h
  | _ => first | rfl | cases h

end Event

end Horizon
