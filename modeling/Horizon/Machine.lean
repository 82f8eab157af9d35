import Horizon.Commands
import Horizon.Library.System

/-!
# The control plane as a transition system

Every API operation of the control plane, each one a transaction.  A label of the
system says who asks for which operation in which environment; an operation that raises
leaves no step.  An installation starts with an empty database.
-/

namespace Horizon

open Database

/-- The operations of the API and of the scheduler. -/
inductive Operation where
  | createAdmin
  | project (workflow : Workflow)
  | grantAccess (kind : PrincipalKind) (projectId : Id) (role : GrantRole)
  | createCatalog (record : CatalogRecord)
  | updateCatalog (update : CatalogUpdate)
  | configureHostHarness (row : HostHarness) (limitIds : List Id)
  | hostHeartbeat (hostId : Id) (health : HostHealth)
  | syncItem (item : ForgeItem)
  | classify (itemId : Id) (phase : PhaseKind)
  | mission (data : MissionCreate)
  | updateMission (id : Id) (data : MissionUpdate)
  | startRun (data : RunCreate) (condition : Option Condition)
  | assignment (data : AssignmentCreate)
  | automation (data : AutomationCreate)
  | obligation (assignmentId : Id) (executionId : Option Id) (kind : ObligationKind)
      (description : String)
  | resolveObligation (id : ObligationId) (expectedRevision : Nat) (resolution : Resolution)
  | command (expectedRevision : Nat) (command : Command)
  | prepareReview (data : ReviewerPrepare) (contract : Except Error ReviewContract)
  | attachReview (requestId : Id) (native : NativeId) (invocation : Option NativeId)
      (background : Option Bool)
  | cancelReview (requestId : Id) (note : String)
  | claim (hostId : Id) (harnessIds : List Id)
  | heartbeat (executionId : Id) (epoch : Nat)
  | handle (operation : WorkerOperation)
  | tick

/-- Run an operation for its effect. -/
def Operation.run (env : Env) (actor : Actor) : Operation → Tx Unit
  | .createAdmin => do let _ ← Horizon.createAdmin env
  | .project workflow => do let _ ← Horizon.project env actor workflow
  | .grantAccess kind projectId role => Horizon.grantAccess env kind projectId role
  | .createCatalog record => Horizon.createCatalog env actor record
  | .updateCatalog update => Horizon.updateCatalog env actor update
  | .configureHostHarness row limitIds => Horizon.configureHostHarness env actor row limitIds
  | .hostHeartbeat hostId health => Horizon.hostHeartbeat env actor hostId health
  | .syncItem item => Horizon.syncItem env item
  | .classify itemId phase => Horizon.classify env actor itemId phase
  | .mission data => do let _ ← Horizon.mission env actor data
  | .updateMission id data => do let _ ← Horizon.updateMission env actor id data
  | .startRun data condition => do let _ ← Horizon.startRun env actor data condition
  | .assignment data => do let _ ← Horizon.assignment env actor data none false false
  | .automation data => Horizon.createAutomation env actor data
  | .obligation assignmentId executionId kind description => do
    let _ ← Horizon.obligation env actor assignmentId executionId kind description
  | .resolveObligation id expectedRevision resolution => do
    let _ ← Horizon.resolveObligation env actor id expectedRevision resolution
  | .command expectedRevision c => execute env actor expectedRevision c
  | .prepareReview data contract => Horizon.prepareReview env actor data contract
  | .attachReview requestId native invocation background =>
    Horizon.attachReview env actor requestId native invocation background
  | .cancelReview requestId note => Horizon.cancelReview env actor requestId note
  | .claim hostId harnessIds => do let _ ← Horizon.claim env actor hostId harnessIds
  | .heartbeat executionId epoch => do let _ ← Horizon.heartbeat env actor executionId epoch
  | .handle operation => Horizon.handle env actor operation
  | .tick => Horizon.tick env

/-- An operation, who asks for it, and in which environment. -/
structure Label where
  env : Env
  actor : Actor
  operation : Operation

/-- The transaction of a label. -/
def Label.run (l : Label) : Tx Unit := l.operation.run l.env l.actor

/-- The control plane. -/
def controlPlane : System DB Label where
  init s := s = empty key
  step s l s' := l.run s = .ok ((), s')

/-- Run operations one after the other, each under a guard.  A refused operation and one
outside the guard end the run without a result. -/
def replayBy (guard : DB → Label → Bool) : List Label → DB → Option DB
  | [], s => some s
  | l :: ls, s => if guard s l then
      match l.run s with
      | .ok (_, s') => replayBy guard ls s'
      | .error _ => none
    else none

/-- A replay under a guard is a run of guarded steps. -/
theorem replayBy_runs {guard : DB → Label → Bool} {ls : List Label} {s s' : DB}
    (h : replayBy guard ls s = some s') : controlPlane.RunsBy (guard · ·) s s' := by
  induction ls generalizing s with
  | nil => cases h; exact .refl
  | cons l ls ih =>
    rw [replayBy] at h
    split at h
    · cases hl : l.run s with
      | error e => rw [hl] at h; cases h
      | ok r =>
        rw [hl] at h
        exact .head ‹_› hl (ih h)
    · cases h

/-- The state a run of a new installation under a guard ends in, if it gets there. -/
def outcomeBy (guard : DB → Label → Bool) (ls : List Label) : DB :=
  (replayBy guard ls (empty key)).getD (empty key)

theorem outcomeBy_reachable (guard : DB → Label → Bool) (ls : List Label) :
    controlPlane.ReachableBy (guard · ·) (outcomeBy guard ls) := by
  rw [outcomeBy]
  cases h : replayBy guard ls (empty key) with
  | none => exact .init rfl
  | some s => exact (replayBy_runs h).reachable (.init rfl)

/-- The state a run under a guard goes on to, if it gets there. -/
def continuedBy (guard : DB → Label → Bool) (ls : List Label) (s : DB) : DB :=
  (replayBy guard ls s).getD s

theorem continuedBy_runs (guard : DB → Label → Bool) (ls : List Label) (s : DB) :
    controlPlane.RunsBy (guard · ·) s (continuedBy guard ls s) := by
  rw [continuedBy]
  cases h : replayBy guard ls s with
  | none => exact .refl
  | some s' => exact replayBy_runs h

/-- The state a run of a new installation ends in, if it gets there. -/
def outcome : List Label → DB := outcomeBy fun _ _ => true

theorem outcome_reachable (ls : List Label) : controlPlane.Reachable (outcome ls) :=
  (outcomeBy_reachable _ ls).reachable

/-! ## A small installation

One project with an administrator, a host and a harness with four slots, in an
environment where every unmodelled reading is quiet.  Runs that show what can happen
start from it. -/

namespace Installation

/-- The next identifier that is not used yet. -/
def fresh (used : List Nat) : Nat := used.foldr (fun id next => max (id + 1) next) 1

theorem lt_fresh {used : List Nat} {id : Nat} (h : id ∈ used) : id < fresh used := by
  induction used with
  | nil => cases h
  | cons _ used ih =>
    rw [fresh, List.foldr_cons]
    rcases List.mem_cons.mp h with rfl | h
    · omega
    · have := ih h
      rw [fresh] at this
      omega

/-- Nothing is ready later, blocked, pending or undelivered. -/
def quiet : Observations where
  conditionReadiness _ _ := .true
  eventReadiness _ _ := .true
  recurrenceBlocked _ _ _ := false
  runLimit _ _ _ := none
  awaitsDelivery _ _ := false
  pendingDeliveries _ _ := false
  settlementNotices _ _ _ := []
  progressStalled _ _ _ := false
  verifiedPublication _ _ := false
  unpublished _ _ := false
  undelivered _ _ := false
  categoryUsage _ _ _ := some 0
  objectiveFrontier _ _ := 0
  coordinationFrontier _ _ := 0
  baselineAccepted _ _ := true
  defaultCondition _ := true
  previousCondition _ _ := none
  ruleReadiness _ _ := true
  maintenanceBlocked _ _ := false
  maintainerAdmission _ := true
  storagePaused := false
  idleRecheck _ _ := false
  followUpAttention _ _ := false
  followUpNote _ _ := ""
  recoveryDue _ _ := false
  reviewHarness _ _ := (1, .codexExec)
  prefersOtherHost _ _ _ := false
  reviewPolicies _ _ _ := 1
  admissionBlocked _ _ := false
  timeGateClosed _ _ := false

/-- The environment of an operation at a given time. -/
def env (now : Instant) : Env where
  now := now
  uuid := fresh
  uuid_fresh _ h := lt_irrefl _ (lt_fresh h)
  jitter n := n
  config :=
    { leaseSeconds := 60, hostStaleSeconds := 1000, plannerMinIntervalSeconds := 10
      plannerMaxIdleSeconds := 100, plannerMaxUnchangedPasses := 3
      automationIdleRecheckSeconds := 0 }
  obs := quiet
  page _ _ _ items := items
  page_subset _ _ _ _ := List.Subset.refl _
  reviewPage _ _ items := items
  reviewPage_subset _ _ _ := List.Subset.refl _

def admin : Actor := ⟨1, .human, none, none, .apiKey⟩
def host : Actor := ⟨100, .host, some 1, none, .hostKey⟩

/-- An operation of the administrator. -/
def byAdmin (now : Instant) (operation : Operation) : Label := ⟨env now, admin, operation⟩

/-- An operation of the host. -/
def byHost (now : Instant) (operation : Operation) : Label := ⟨env now, host, operation⟩

def retryPolicy : RetryPolicy := ⟨3, 10, 100, 3⟩

/-- The request for a run on a mission. -/
def runOn (missionId : Option Id) : RunCreate where
  objectiveId := some 1
  missionId := missionId
  hostIds := [1]
  queuePolicies := [(.work, ⟨.worker, 4, 10, none, none, 0, none, retryPolicy⟩),
    (.maintenance, ⟨.maintainer, 2, 10, none, none, 1, none, retryPolicy⟩)]
  retryPolicy := retryPolicy

/-- The request for a legacy run on a mission. -/
def legacyOn (missionId : Id) : RunCreate :=
  { runOn (some missionId) with
    orchestration := .legacy, phase := some (.preprocessing 1), objectiveId := none }

/-- A mission delegated from another one. -/
def missionUnder (parentId : Id) (revision : Nat) : Operation :=
  .mission { projectId := 1, parentId := some parentId, expectedParentRevision := some revision
             title := "Child", objective := "Child", acceptanceCriteria := ["Done"]
             delegationNote := some "Delegated" }

/-- Setting the installation up. -/
def setup : List Label :=
  [ byAdmin 1 .createAdmin
  , byAdmin 1 (.project .graph)
  , byAdmin 1 (.createCatalog (.repository ⟨1, 1, .knowledge, none⟩))
  , byAdmin 1 (.createCatalog (.repository ⟨2, 1, .workspace, none⟩))
  , byAdmin 1 (.createCatalog (.document ⟨1, 1, .roadmap, "Roadmap", 1, 7⟩))
  , byAdmin 1 (.createCatalog (.host ⟨1, .enabled, false, true, some 1⟩))
  , byAdmin 1 (.createCatalog (.harness ⟨1, .codexExec, true⟩))
  , byAdmin 1 (.createCatalog (.hostHarness ⟨1, 1, true, 4, some 2, 5⟩ []))
  , byAdmin 1 (.createCatalog (.workspace 1
      ⟨.registered 1, 1, 1, 2, .other 1, .other 1, 7, none, .ready⟩))
  , byAdmin 2 (.mission { projectId := 1, title := "Root", objective := "Root" }) ]

/-- The receipt of an execution that failed for good. -/
def failed (executionId now : Id) : Operation :=
  .handle ⟨executionId, 1, now, .executionFinished
    { status := .failed, failure := some ⟨.execution, .executionFailed, "Failed"⟩ }⟩

/-- A run on the root mission, and the admission of its first planner. -/
def admitted : List Label :=
  setup ++ [byAdmin 2 (.startRun (runOn (some 1)) none), byHost 20 (.claim 1 [1])]

/-- A second execution, of a worker in an allocated workspace. -/
def busy : List Label := Installation.admitted ++
  [ byAdmin 21 (missionUnder 1 3)
  , byAdmin 21 (.assignment { runId := 1, missionId := 4 })
  , byHost 22 (.claim 1 [1]) ]

end Installation

end Horizon
