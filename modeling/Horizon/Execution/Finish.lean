import Horizon.Execution.Cancellation

/-!
# Finishing an execution

`Scheduler.finish`: fence an execution, account for the provider limits it
used, release its reservations once its physical stop is confirmed, and settle
its assignment.  Objective sessions are settled by `finish_values`; legacy ones
by recorded maintenance handoffs.
-/

namespace Horizon

open Transaction

/-- The status a reported outcome gives an execution. -/
def ExecutionOutcome.status (stopping : Bool) : ExecutionOutcome → ExecutionStatus
  | .cancelled => .cancelled
  | .succeeded | .yielded => if stopping then .cancelled else .succeeded
  | .failed => if stopping then .cancelled else .failed
  | .lost => if stopping then .cancelled else .lost

/-- Older workers classified their own execution budget as a network timeout. -/
def normalizeFailure (failure : Failure) : Failure :=
  if failure.code = .timeout
      ∧ failure.message = "Provider request exceeded its execution deadline" then
    { failure with kind := .execution, code := .requestDeadline }
  else failure

/-- The failures that back off a shared provider account. -/
def FailureCode.isProviderOutage : FailureCode → Bool
  | .rateLimited | .providerOverloaded | .connectionError | .timeout => true
  | _ => false

/-- `CONFIGURATION_CODES`. -/
def FailureCode.isConfiguration : FailureCode → Bool
  | .authenticationFailed | .invalidConfiguration | .storageFull | .providerMissing => true
  | _ => false

/-- The provider accounts an execution holds claims on. -/
def DB.providerLimits (db : DB) (executionId : Id) : List ResourceLimit :=
  (db .resourceLimit).rows.filter fun l => l.kind == .providerAccount
    && (db .resourceClaim).rows.any fun c => c.executionId == executionId && c.releasedAt.isNone
      && c.resourceLimitId == l.id

variable (env : Env) (item : Assignment) (execution : Execution)

/-- Back off a provider account after a failure; an objective run opens its
circuit after repeated failures. -/
def backOff (run : Run) (policy : RetryPolicy) (limit : ResourceLimit) : Tx Unit := do
  let failures := limit.failureCount + 1
  let til := env.now + env.jitter (policy.delay failures)
  let _ ← change env .resourceLimit limit.id none fun l =>
    { l with failureCount := failures
             cooldownUntil := some (max til (limit.cooldownUntil.getD til))
             circuitOpen := l.circuitOpen
               || (run.orchestration == .objective
                 && decide (policy.maxRecoveryAttempts < failures)) }

/-- A healthy execution clears the backoff it started after. -/
def clearBackOff (limit : ResourceLimit) : Tx Unit := do
  if !limit.circuitOpen && (limit.cooldownUntil.all fun t => execution.startedAt.any (t ≤ ·)) then
    let _ ← change env .resourceLimit limit.id none fun l =>
      { l with failureCount := 0, cooldownUntil := none }

/-- Account for the provider limits of an ended execution. -/
def accountLimits (item : Assignment) (run : Run) (status : ExecutionOutcome)
    (failure : Option Failure) : Tx Unit := do
  let db ← get
  let limits := db.providerLimits execution.id
  if failure.any (·.code.isProviderOutage) then
    if limits.isEmpty then pure ()
    else
      let policy ← query fun _ => retryPolicy run item
      each (backOff env run policy) limits
  else if status = .succeeded ∨ status = .yielded then
    if (db .providerRequest).rows.any fun r =>
      r.executionId == execution.id && r.status == .completed then
      each (clearBackOff env execution) limits

theorem key_released (at_ : Instant) (c : ResourceClaim) :
    key .resourceClaim { c with releasedAt := some at_ } = c.id := rfl

/-- Release the unreleased claims of an execution. -/
def releaseClaims (executionId : Id) (at_ : Instant) : Tx Unit :=
  updateWhere env .resourceClaim (fun _ c => c.executionId == executionId && c.releasedAt.isNone)
    fun c =>
    { c with releasedAt := some at_ }

/-! ## Legacy settlement -/

/-- The planner that takes over the findings of a legacy assignment. -/
def DB.planningOwner (db : DB) (item : Assignment) (status : AssignmentStatus) :
    Option Assignment :=
  firstByRank ((db .assignment).rows.filter fun a => a.runId == item.runId && a.role == .worker
    && a.id != item.id && a.functions.contains .planner && a.status == status
    && a.automationId.all fun id => ((db .automation).find? id).any (·.enabled))

/-- The owner a legacy assignment hands its findings to. -/
def handoffOwner : Tx (Option Assignment) := do
  let db ← get
  if (db.rootRule item.runId).isSome then rootMaintenanceOwner env item
  else pure ((db.planningOwner item .pending).orElse fun _ => db.planningOwner item .running)

/-- `_handoff_worker_findings`: a maintenance owner takes over open obligations. -/
def handoffWorkerFindings (findings : List String) : Tx Bool := do
  match ← handoffOwner env item with
  | none => pure false
  | some owner =>
    let handoff ← createObligation env owner.id none .decision ("; ".intercalate findings)
    let actor ← systemActor env
    let db ← get
    each (fun (o : Obligation) => do
      let _ ← resolveObligation env actor o.id o.revision (.superseded
        "Original findings retained; the linked coordination obligation owns follow-up."
        [handoff.id]))
      ((db .obligation).rows.filter fun o => o.assignmentId == item.id && o.status == .opened)
    pure true

/-- Settle a bounded delivery: completed when its findings have an owner. -/
def handedOff (unowned delivered quiet : Option String) : Tx Outcome := do
  let findings ← query fun db => db.completionFindings env item.id
  let owned ← if findings.isEmpty then pure true else handoffWorkerFindings env item findings
  let base : Outcome :=
    { status := .completed, finishedAt := some env.now, checkpointRequestedAt := some none
      startCondition := some none, notBefore := some none }
  if owned then
    pure { base with statusNote := some (if findings.isEmpty then quiet else delivered) }
  else
    pure { base with status := .pending, finishedAt := none, notBefore := some (some (env.now + 60))
                     statusNote := some unowned }

/-- The outcome of a failed or lost legacy execution. -/
def legacyFailure (item : Assignment) (run : Run) (failure : Option Failure) : Tx Outcome := do
  let recoveries := item.recoveryAttempts + 1
  let code := (failure.map Failure.code).getD .executionFailed
  let recoverable := run.status = .active ∨ run.status = .draining
  if code.isConfiguration then
    updateWhere env .hostHarness (fun _ h => h.hostId == execution.hostId
      && h.harnessId == execution.harnessId) fun h => { h with enabled := false }
    pure { status := .pending, finishedAt := none
           statusNote := some (some "Harness disabled pending configuration or storage repair") }
  else if code = .requestDeadline ∧ item.automationId.isSome ∧ recoverable then
    pure { status := .failed, finishedAt := some env.now, recoveryAttempts := some recoveries
           statusNote := some (some ((failure.map Failure.message).getD
             "Automated execution exceeded its provider deadline; operator review required")) }
  else if code.isTransient ∧ recoveries ≤ run.retryPolicy.maxRecoveryAttempts ∧ recoverable then
    pure { status := .pending, finishedAt := none, recoveryAttempts := some recoveries
           retryAt := some (env.now + env.jitter (run.retryPolicy.delay recoveries))
           statusNote := some (some "Recoverable failure; preserved context will resume") }
  else
    pure { status := .failed, finishedAt := some env.now, recoveryAttempts := some recoveries
           statusNote := some (some ((failure.map Failure.message).getD "Execution failed")) }

/-- The outcome of a legacy execution that yielded or succeeded, in the order the
scheduler tries its cases. -/
def legacySuccess (run : Run) (yielded rootMaintainer journalPending : Bool)
    (reason : Option StopReason) : Tx Outcome := do
  let db ← get
  let findings ← query fun db => db.completionFindings env item.id
  let settled := (db.settlementFindings env item.id false).isEmpty
  let done : Outcome :=
    { status := .completed, finishedAt := some env.now, checkpointRequestedAt := some none
      startCondition := some none, notBefore := some none }
  if yielded ∧ (reason = some .executionBudgetReached ∨ reason = some .requestBudgetReached) then
    if journalPending ∨ ¬ findings.isEmpty then
      pure { done with
        status := .failed
        statusNote :=
          some (some ("Execution episode budget exhausted; preserved work requires explicit "
          ++ "replanning or recovery")) }
    else pure { done with statusNote := some (some "Bounded deliverable complete") }
  else if journalPending then
    pure { status := .pending, finishedAt := none, notBefore := some (some (env.now + 60))
           statusNote := some (some
             "Local API intent reconciliation remains outstanding; preserved context will resume") }
  else if env.obs.pendingDeliveries db item.id then
    pure { status := .pending, finishedAt := none, checkpointRequestedAt := some (some env.now)
           statusNote := some (some "Checkpointed; waiting for durable Forge or Zulip delivery") }
  else if item.role = .worker ∧ ¬ item.functions.contains .planner
    ∧ item.checkpointRequestedAt.isNone
      ∧ settled ∧ env.obs.verifiedPublication db item.id then
    handedOff env item (some "Unresolved work has no live maintenance owner; recovery required")
      (some "Published bounded deliverable; follow-up has a maintenance owner") none
  else if item.functions.contains .orchestrator ∧ settled then
    if findings.isEmpty then
      pure { done with statusNote := some (some "Bounded orchestration episode complete") }
    else
      pure { done with status := .failed, statusNote := some (some ("; ".intercalate findings)) }
  else if item.role = .maintainer ∧ ¬ rootMaintainer ∧ item.checkpointRequestedAt.isNone
    ∧ settled then
    handedOff env item (some "Unresolved review has no live maintenance owner; recovery required")
      (some "Bounded review complete; unresolved work has a maintenance owner")
      (some "Bounded maintainer batch complete")
  else if findings.isEmpty then pure { done with statusNote := some none }
  else if item.checkpointRequestedAt.isSome ∧ settled ∧ env.obs.eventReadiness db item = .false then
    pure { status := .pending, finishedAt := none
           statusNote := some (some (item.statusNote.getD "Checkpointed for external event")) }
  else if env.obs.progressStalled db item.id run.retryPolicy.maxNoProgressRequests then
    pure { status := .failed, finishedAt := some env.now, checkpointRequestedAt := some none
           statusNote := some (some
             "Continuation limit reached without accounted progress; reconsideration required") }
  else if item.checkpointRequestedAt.isSome then
    pure { status := .pending, finishedAt := none
           statusNote := some (some (item.statusNote.getD "Checkpointed for continuation")) }
  else
    pure { status := .pending, finishedAt := none, notBefore := some (some (env.now + 60))
           statusNote := some (some (if yielded then "Checkpointed; waiting before continuing"
             else "; ".intercalate findings)) }

/-- How a legacy execution leaves its assignment. -/
def legacyOutcome (item : Assignment) (run : Run) (status : ExecutionOutcome)
    (failure : Option Failure) (stopping rootMaintainer journalPending : Bool)
    (reason : Option StopReason) : Tx Outcome := do
  if stopping ∨ status = .cancelled then
    pure { status := .cancelled, finishedAt := some env.now }
  else match status with
    | .yielded => legacySuccess env item run true rootMaintainer journalPending reason
    | .succeeded => legacySuccess env item run false rootMaintainer journalPending reason
    | _ => legacyFailure env execution item run failure

/-- The host settles the generated record of a completed orchestration episode. -/
def settleEpisode : Tx Unit := do
  let db ← get
  match (db .obligation).rows.find? fun o => o.assignmentId == item.id && o.number == 1
      && o.createdByExecutionId.isNone && o.status == .opened with
  | none => pure ()
  | some root =>
    let actor ← systemActor env
    let _ ← resolveObligation env actor root.id root.revision (.completed
      ("The host completed this bounded control episode. This administrative record does not "
        ++ "complete or accept the mathematical mission.") [.assignment item.id])

/-- Transfer the unfinished ledger of a maintainer batch to its successor. -/
def transferLedger (item successor : Assignment) : Tx Unit := do
  let actor ← systemActor env
  let db ← get
  each (fun (o : Obligation) => do
    let _ ← resolveObligation env actor o.id o.revision (.scheduled
      ("Fresh maintainer batch A" ++ toString successor.number ++ " owns this follow-up.")
      successor.id))
    ((db .obligation).rows.filter fun o => o.assignmentId == item.id && o.status == .opened)

/-- Drain a run whose root maintainer recorded semantic completion. -/
def drainCompleted : Tx Unit := do
  let mission ← getRecord .mission item.missionId
  let run ← getRecord .run item.runId
  if mission.status = .completed ∧ run.status = .active then
    let actor ← systemActor env
    let _ ← runCommand env actor .drain run (some
      "Root maintainer recorded semantic completion; settle remaining execution and delivery")

/-- The recurrence of a settled legacy occurrence: a failure breaks the circuit,
a completion queues the next batch. -/
def recur (item row : Assignment) (ruleId : Id) : Tx Unit := do
  let rule ← getRecord .automation ruleId
  let rootMaintainer := rule.name = .rootMaintainer
  if row.status = .failed ∨ row.status = .cancelled then
    if rootMaintainer then
      let actor ← systemActor env
      let _ ← replenish env actor rule
    else
      let _ ← change env .automation rule.id none
          (fun a => { a with enabled := false }) key_disabled
  else if row.status = .completed then
    if rootMaintainer then drainCompleted env item
    let delay := env.now + rule.cooldownSeconds
    let rule ← change env .automation rule.id none fun a =>
      { a with notBefore := some (max delay (rule.notBefore.getD delay)) }
    let actor ← systemActor env
    match ← replenish env actor rule with
    | some successor => if item.role = .maintainer then transferLedger env item successor
    | none => pure ()

/-- What follows the settlement of a legacy assignment. -/
def afterLegacy (item row : Assignment) : Tx Unit := do
  if row.status = .completed ∧ item.functions.contains .orchestrator then settleEpisode env item
  if row.status = .failed ∨ row.status = .cancelled then reconsider env row
  match item.automationId with
  | some ruleId => recur env item row ruleId
  | none => pure ()

/-! ## The lifecycle -/

/-- `Scheduler.finish`.  Host confirmation releases physical reservations; the
watchdog's lease loss preserves them. -/
def finish (actor : Actor) (execution : Execution) (status : ExecutionOutcome)
    (failure : Option Failure) (journalPending : Bool) (reason : Option StopReason) :
    Tx Assignment := do
  let failure := failure.map normalizeFailure
  let item ← getRecord .assignment execution.assignmentId
  let run ← getRecord .run item.runId
  let db ← get
  let rootMaintainer :=
    (item.automationId.bind (db .automation).find?).any (·.name == .rootMaintainer)
  if !execution.status.isLive then pure item
  else
    let stopping := item.status == .stopping || run.status == .stopping || run.status == .cancelled
    let confirmed := if actor.kind = .host ∧ status ≠ .lost then some env.now
      else execution.stopConfirmedAt
    let _ ← change env .execution execution.id none fun e =>
      { e with status := status.status stopping, finishedAt := some env.now
               leaseExpiresAt := env.now, failure := failure, stopConfirmedAt := confirmed }
    accountLimits env execution item run status failure
    if confirmed.isSome then releaseClaims env execution.id env.now
    let outcome ← match run.orchestration with
      | .objective =>
        query fun db =>
          db.finishValues env item run status failure stopping reason journalPending
      | .legacy =>
        legacyOutcome env execution item run status failure stopping rootMaintainer
          journalPending reason
    let row ← change env .assignment item.id none outcome.apply
    if run.orchestration = .objective then
      if row.status = .completed then completed env row run
    else afterLegacy env item row
    pure row

end Horizon
