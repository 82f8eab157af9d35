import Horizon.Auth
import Horizon.Library.Totals

/-!
# Category budgets over shared capacity

`execution/queue_policies.py`, with the occupancy predicate
`Scheduler.execution_busy_condition` it is parameterised by: which executions
hold capacity, what they weigh, when a queue category or a host is full, and
how many native children an admitted session may reserve.
-/

namespace Horizon

/-- The data of a new assignment. -/
structure AssignmentCreate where
  runId : Id
  missionId : Id
  parentId : Option Id := none
  reviewerDescriptorId : Option Id := none
  role : Role := .worker
  category : Option Category := none
  functions : List AgentFunction := []
  harnessId : Option Id := none
  notBefore : Option Instant := none
  expiresAt : Option Instant := none
  startCondition : Option Condition := none

/-- A schedulable slot: a host's harness and the limits attached to it. -/
structure Slot where
  hostId : Id
  harnessId : Id
  executionSlots : Nat
  maxParallelSubagents : Option Nat
  limits : List ResourceLimit

/-- The text of a category. -/
def Category.slug : Category → String
  | .work => "work"
  | .maintenance => "maintenance"
  | .custom slug => slug

/-- The category of a role without an explicit one. -/
def Role.category : Role → Category
  | .maintainer => .maintenance
  | .worker => .work

/-- `category`. -/
def category (item : Assignment) : Category := item.category.getD item.role.category

/-- `policy`: the policy of a category of an objective run. -/
def policy (run : Run) (name : Category) : Except Error (Option QueuePolicy) :=
  if run.orchestration ≠ .objective then pure none
  else match run.queuePolicies.lookup name with
    | some settings => pure (some settings)
    | none => refuse .unknownCategory "Queue category is not registered for this objective" 422

/-- Host slots that workers leave to maintenance. -/
def reservedSlots (run : Run) : Nat :=
  ((run.queuePolicies.filter fun p => p.2.role == .maintainer).map (·.2.reservedSlots)).foldl max 0

/-- What an execution weighs: itself and the native children it reserved. -/
def Execution.weight (e : Execution) : Nat := 1 + e.nativeCapacity.getD 0

/-- The most units that may be claimed on a limit.  After a provider outage one
request is admitted as a probe. -/
def ResourceLimit.maximum (l : ResourceLimit) : Option Nat :=
  if l.failureCount ≠ 0 then some 1 else l.maxConcurrent

namespace DB

variable (db : DB)

/-- Whether an assignment belongs to an objective run. -/
def isObjective (assignmentId : Id) : Bool :=
  (db .assignment).find? assignmentId |>.bind (fun a => (db .run).find? a.runId)
    |>.any (·.orchestration == .objective)

/-- Whether a request of the execution has no recorded outcome. -/
def hasUnsettledRequest (executionId : Id) : Bool :=
  (db .providerRequest).rows.any fun r => r.executionId == executionId && r.status.isUnsettled

/-- The grace period of a lost legacy execution, in seconds. -/
def graceSeconds : Nat := 300

/-- `execution_busy_condition`.  An objective session keeps its reservation until
its physical stop is confirmed; a legacy one for a grace period. -/
def executionBusy (now : Instant) (e : Execution) : Bool :=
  e.status.isLive
    || (!e.status.isLive && e.stopConfirmedAt.isNone
      && (db.isObjective e.assignmentId
        || (e.finishedAt.orElse fun _ => e.startedAt).any fun t => decide (now < t + graceSeconds)))
    || db.hasUnsettledRequest e.id

/-- The total weight of the busy executions satisfying a predicate. -/
def busyWeight (now : Instant) (p : Execution → Bool) : Nat :=
  total Execution.weight (fun e => p e && db.executionBusy now e) (db .execution).rows

/-- Whether an execution belongs to a category of a run. -/
def inCategory (runId : Id) (name : Category) (e : Execution) : Bool :=
  (db .assignment).find? e.assignmentId |>.any fun a => a.runId == runId && a.category == some name

/-- Whether an execution is a worker's, on a given host and harness. -/
def isWorkerOn (hostId harnessId : Id) (e : Execution) : Bool :=
  e.hostId == hostId && e.harnessId == harnessId
    && ((db .assignment).find? e.assignmentId).any (·.role == .worker)

/-- Whether an execution occupies a given host and harness. -/
def onSlot (hostId harnessId : Id) (e : Execution) : Bool :=
  e.hostId == hostId && e.harnessId == harnessId

/-- The unreleased units claimed on a limit. -/
def claimedUnits (limitId : Id) : Nat :=
  total ResourceClaim.units (fun c => c.resourceLimitId == limitId && c.releasedAt.isNone)
    (db .resourceClaim).rows

/-- `validate_enqueue`: the category and harness of a new assignment. -/
def validateEnqueue (run : Run) (data : AssignmentCreate) :
    Except Error (Category × Option Id) := do
  let name := data.category.getD data.role.category
  match ← policy run name with
  | none => pure (name, data.harnessId)
  | some settings =>
    if settings.role ≠ data.role then
      refuse .categoryRoleMismatch "Queue category cannot change permission role" 422
    else
      let queued := ((db .assignment).rows.filter fun a =>
        a.runId == run.id && a.category == some name && a.status == .pending).length
      if settings.maxPending ≤ queued then
        refuse .queueFull
          "Category queue is full; preserve demand and retry after capacity changes" 409
      else pure (name, data.harnessId.orElse fun _ => settings.harnessId)

/-- `blocker`: why a category, or a host's worker share, admits nothing now. -/
def blocker (env : Env) (item : Assignment) (run : Run) (slot : Option Slot) :
    Except Error (Option String) := do
  match item.pauseReason with
  | some reason => pure (some ("Session paused: " ++ reason))
  | none =>
    match ← policy run (category item) with
    | none => pure none
    | some settings =>
      let busy := db.busyWeight env.now (db.inCategory run.id (category item))
      let admitted := ((db .assignment).rows.filter fun a => a.runId == run.id
        && a.category == some (category item) && a.startedAt.isSome).length
      let usage := env.obs.categoryUsage db run (category item)
      let name := (category item).slug
      if settings.slots ≤ busy then
        pure (some (name ++ " category slots occupied (" ++ toString busy ++ "/"
          ++ toString settings.slots ++ ")"))
      else if item.startedAt.isNone && settings.maxSessions.any (· ≤ admitted) then
        pure (some (name ++ " category session budget reached"))
      else if settings.tokenBudget.isSome && usage.isNone then
        pure (some (name ++ " category usage needs reconciliation"))
      else if settings.tokenBudget.any (· ≤ usage.getD 0) then
        pure (some (name ++ " category token budget reached"))
      else match slot with
        | none => pure none
        | some slot =>
          if settings.role == .worker
              && decide (max 1 (slot.executionSlots - reservedSlots run)
                ≤ db.busyWeight env.now (db.isWorkerOn slot.hostId slot.harnessId)) then
            pure (some "Host capacity reserved for maintenance")
          else pure none

/-- What is left of a category and of a host for native children. -/
def headroom (env : Env) (item : Assignment) (run : Run) (slot : Slot) (settings : QueuePolicy)
    (parallel : Nat) : Int :=
  let used := db.busyWeight env.now (db.inCategory run.id (category item))
  let hostUsed := db.busyWeight env.now (onSlot slot.hostId slot.harnessId)
  let reserve := if item.role = .worker then reservedSlots run else 0
  min parallel (min (settings.slots - used - 1)
    ((max 1 (slot.executionSlots - reserve) : Nat) - hostUsed - 1))

/-- What is left of a limit for native children, when the limit has a maximum. -/
def limitHeadroom (count : Int) (limit : ResourceLimit) : Int :=
  match limit.maximum with
  | none => count
  | some maximum => min count (maximum - db.claimedUnits limit.id - 1)

/-- `native_capacity`: the native children an admitted session may reserve; `none`
imposes no cap. -/
def nativeCapacity (env : Env) (item : Assignment) (run : Run) (slot : Slot) :
    Except Error (Option Nat) := do
  match slot.maxParallelSubagents with
  | none => pure none
  | some parallel =>
    match ← policy run (category item) with
    | none => pure (some parallel)
    | some settings =>
      if item.functions.contains .planner then pure (some 0)
      else pure (some
        (slot.limits.foldl db.limitHeadroom
          (db.headroom env item run slot settings parallel)).toNat)

end DB

end Horizon
