import Horizon.Execution.Finish
import Horizon.Execution.Claim
import Horizon.Review.Demand

/-!
# The scheduler tick

`Scheduler.tick`: settle the requests of stopped executions, recover expired
leases, expire assignments, settle stopping and draining runs, and reconcile the
recurring work of legacy and objective runs.
-/

namespace Horizon

open Transaction

variable (env : Env) (actor : Actor) (db : DB) (run : Run) (rule : Automation)

/-- The most rows one sweep looks at. -/
def claimScanLimit : Nat := 512

/-- `release_child_claims`. -/
def releaseChildClaims (requestId : Id) (at_ : Instant) : Tx Unit :=
  updateWhere env .resourceClaim
    (fun _ c => c.providerRequestId == some requestId && c.releasedAt.isNone)
    (fun c => { c with releasedAt := some at_ }) (key_released at_)

/-- A confirmed stop ends an invocation whose final event was lost. -/
def settleStopped (request : ProviderRequest) : Tx Unit := do
  let _ ← change env .providerRequest request.id none fun r =>
    { r with
      status := .interrupted, finishedAt := some env.now
      failure := some ⟨.execution, .executionStopConfirmed,
        "Host confirmed execution stopped; no terminal invocation event was recorded"⟩ }
  releaseChildClaims env request.id env.now

/-- The unsettled requests of executions that are known to have stopped. -/
def DB.stoppedRequests : List ProviderRequest :=
  ((db .providerRequest).rows.filter fun r => r.status.isUnsettled
    && ((db .execution).find? r.executionId).any fun e =>
    !e.status.isLive && e.stopConfirmedAt.isSome).take 100

/-- Fence an execution whose lease expired.  Its claims and workspace stay reserved. -/
def recoverLease (execution : Execution) : Tx Unit := do
  updateWhere env .providerRequest (fun _ r => r.executionId == execution.id
    && (r.status == .pending || r.status == .submitted || r.status == .running)) fun r =>
      { r with status := .uncertain }
  let _ ← finish env actor execution .lost
    (some ⟨.host, .leaseExpired, "Worker lease expired; previous ownership is fenced"⟩) false none

/-- Cancel an assignment whose window has passed. -/
def expire (item : Assignment) : Tx Unit := do
  let _ ← cancel env item "Assignment start/end window expired" true true

/-- A stopping run without live work is cancelled. -/
def settleStopping : Tx Unit := do
  let db ← get
  if (db .assignment).rows.any fun a => a.runId == run.id && a.status.isLive then pure ()
  else
    let _ ← change env .run run.id none fun r =>
      { r with status := .cancelled, finishedAt := some env.now }

/-- Whether a refused completion leaves a draining run for a later tick. -/
def Error.isUnsettled : Error → Bool
  | .domain .missionOpen _ _ | .domain .runUnsettled _ _ => true
  | _ => false

/-- Complete a draining run once everything it owns has settled. -/
def settleDraining : Tx Unit := do
  let _ ← savepoint Error.isUnsettled
    (runCommand env actor .complete run (some "Draining work and external deliveries have settled"))

/-! ## Legacy recurrence -/

/-- The recurring batches whose retained provider context is gone. -/
def DB.unusableMaintainers : List Assignment :=
  ((db .assignment).rows.filter fun a => a.role == .maintainer && a.automationId.isSome
    && a.status == .pending
    && ((db .run).find? a.runId).any (fun r => r.status == .active && r.orchestration == .legacy)
    && (db.latestPrimary a.id).any (! ·.status.isLive)
    && (db.unsettledRequests a.id).isEmpty).take claimScanLimit

/-- The queued occurrences of legacy rules with a context that was never launched. -/
def DB.prelaunchCandidates : List (ProviderThread × Assignment × Id) :=
  ((db .assignment).rows.flatMap fun a =>
    if a.status == .pending && a.automationId.isSome
        && ((db .run).find? a.runId).any (·.orchestration == .legacy) then
      (db .providerThread).rows.filterMap fun t =>
        if t.assignmentId == a.id && t.kind == .primary && t.status == .creating then
          (db.workspaceHost t.workspaceId).bind fun host =>
            if ((db .runHost).find? (a.runId, host)).any (·.enabled) then some (t, a, host)
            else none
        else none
    else []).take claimScanLimit

/-- Cancel a stale prelaunch entry so that its rule can create a fresh placement.
Its own lost execution keeps it for lease recovery. -/
def retirePrelaunch (entry : ProviderThread × Assignment × Id) : Tx Unit := do
  let (thread, item, hostId) := entry
  let db ← get
  let occupant := (db .execution).rows.find? fun e => e.workspaceId == thread.workspaceId
    && db.executionBusy env.now e
  if occupant.any (·.assignmentId == item.id) then pure ()
  else if !(db.capacity env [hostId]).isEmpty && occupant.isNone then pure ()
  else
    let row ← getRecord .assignment item.id
    let _ ← cancel env row
      "Pre-launch context is stale or its workspace is occupied; retry with fresh placement"
      false false

/-- `retire_unusable_maintainers`. -/
def retireUnusableMaintainers : Tx Unit := do
  let db ← get
  each (fun item => do
    let _ ← cancel env item
      "Retained maintainer context is unavailable; a fresh bounded batch will replace it"
      false false)
    db.unusableMaintainers
  let db ← get
  each (retirePrelaunch env) db.prelaunchCandidates

/-- The enabled rules of active legacy runs. -/
def DB.legacyRules : List Automation :=
  (db .automation).rows.filter fun a => a.enabled
    && ((db .run).find? a.runId).any fun r => r.status == .active && r.orchestration == .legacy

/-- Whether a rule has a live occurrence. -/
def DB.ruleActive : Bool :=
  (db .assignment).rows.any fun a => a.automationId == some rule.id && a.status.isLive

/-- `replenish_planners`, for one rule. -/
def replenishPlanner : Tx Unit := do
  let db ← get
  if rule.functions.contains .orchestrator || db.ruleActive rule
      || rule.notBefore.any (env.now < ·) then pure ()
  else
    let _ ← replenish env actor rule

/-- `replenish_maintainers`, which stops after sixteen new batches. -/
def replenishMaintainers (actor : Actor) : Nat → List Automation → Tx Unit
  | _, [] => pure ()
  | 0, _ => pure ()
  | budget + 1, rule :: rules => do
    match ← replenish env actor rule with
    | some _ => replenishMaintainers actor budget rules
    | none => replenishMaintainers actor (budget + 1) rules

/-- `replenish_orchestrators`, for one rule. -/
def replenishOrchestrator : Tx Unit := do
  let db ← get
  let latest := (((db .assignment).rows.filter fun a => a.automationId == some rule.id).filterMap
    (·.finishedAt)).max?
  if db.ruleActive rule || latest.any (env.now < · + max 1 rule.cooldownSeconds) then pure ()
  else
    let _ ← replenish env actor rule

/-- The three replenishment sweeps over legacy rules. -/
def replenishLegacy : Tx Unit := do
  let db ← get
  each (replenishPlanner env actor)
    (db.legacyRules.filter fun r => r.role == .worker && r.functions.contains .planner)
  let db ← get
  replenishMaintainers env actor 16
    (db.legacyRules.filter fun r => r.role == .maintainer && !r.functions.contains .orchestrator)
  let db ← get
  each (replenishOrchestrator env actor)
    (db.legacyRules.filter fun r => r.functions.contains .orchestrator)

/-! ## Coordination recovery of runs without a root maintainer -/

/-- The prefix of a coordination note. -/
def notePrefix : String := "Coordination: "

/-- Refresh the watch of a run; `none` when nothing is due yet. -/
def refreshWatch : Tx (Option RunCoordination) := do
  let db ← get
  let observed := env.obs.coordinationFrontier db run.id
  match (db .runCoordination).find? run.id with
  | none =>
    let _ ← create .runCoordination
      { runId := run.id, frontierHash := observed, lastProgressAt := env.now, checkedAt := env.now
        auditObligationId := none, auditFrontierHash := none }
    pure none
  | some watch =>
    if env.now < watch.checkedAt + 60 then pure none
    else
      let progressed := observed ≠ watch.frontierHash
      if progressed ∧ run.statusNote.any (startsWith · notePrefix) then
        let _ ← change env .run run.id none (fun r => { r with statusNote := none }) key_unnoted
      let refresh (w : RunCoordination) : RunCoordination :=
        { w with frontierHash := observed, checkedAt := env.now
                 lastProgressAt := if progressed then env.now else w.lastProgressAt }
      updateWhere env .runCoordination (fun _ w => w.runId == run.id) refresh
      pure (some (refresh watch))

/-- The planner that may own a recovery decision. -/
def recoveryCandidate (audit : Option Obligation) (attention : Bool) : Tx (Option Assignment) := do
  let db ← get
  match (db .automation).rows.find? fun r => r.runId == run.id && r.enabled
      && r.functions.contains .planner && r.role == .worker with
  | none => pure none
  | some rule =>
    if rule.notBefore.any (env.now < ·) then pure none
    else
      let candidates := (db .assignment).rows.filter fun a =>
        a.automationId == some rule.id && a.status.isLive
      let current := candidates.find? fun a => audit.any (·.assignmentId == a.id)
      if candidates.any (·.status != .pending) && !(attention && current.isSome) then pure none
      else match current.orElse fun _ => firstByRank candidates with
        | some candidate => pure (some candidate)
        | none => replenish env actor rule

/-- Whether a candidate may take a recovery decision now: a running owner may, a
queued one when nothing but its condition holds it back. -/
def DB.recoveryReady (candidate : Assignment) (attention : Bool) : Except Error Bool := do
  if env.obs.timeGateClosed candidate.startCondition env.now then pure false
  else if attention ∧ candidate.status = .running then pure true
  else
    let probe := { candidate with startCondition := none }
    let ready ← db.readiness env probe
    pure (ready = .true && !env.obs.admissionBlocked db probe)

/-- Give a candidate the recovery decision of a run. -/
def assignRecovery (candidate : Assignment) (audit : Option Obligation) : Tx Unit := do
  let db ← get
  let observed := env.obs.coordinationFrontier db run.id
  let new ← createObligation env candidate.id none .decision
    "Coordination recovery: decide how the run makes progress again."
  match audit with
  | some audit =>
    if audit.status = .opened then
      let _ ← change env .obligation audit.id none fun o =>
        { o with
          status := .handled
          resolution := some (.scheduled
            "Recovery owner ended; this planner inherits the unresolved decision." candidate.id) }
  | none => pure ()
  updateWhere env .runCoordination (fun _ w => w.runId == run.id) fun w =>
    { w with auditObligationId := some new.id, auditFrontierHash := some observed }
  let note := notePrefix ++ "recovery assigned to A" ++ toString candidate.number
  let ranks := ((db .assignment).rows.filter fun a => a.runId == run.id && a.status == .pending).map
    (·.queueRank)
  let _ ← change env .assignment candidate.id none fun a =>
    { a with startCondition := none, queueRank := ranks.min?.getD 0 - 1024,
             statusNote := some note }
  if run.statusNote.all fun n => n = "" || startsWith n notePrefix then
    let _ ← change env .run run.id none fun r => { r with statusNote := some note }

/-- `coordination_memory.reconcile`, for one run. -/
def reconcileCoordination : Tx Unit := do
  match ← refreshWatch env run with
  | none => pure ()
  | some watch =>
    let db ← get
    let audit := watch.auditObligationId.bind (db .obligation).find?
    let owned := audit.any fun o => o.status == .opened
      && ((db .assignment).find? o.assignmentId).any (·.status.isLive)
    if owned then pure ()
    else
      let attention := env.obs.followUpAttention db run.id
      let considered := audit.any (·.status != .opened)
        && watch.auditFrontierHash == some watch.frontierHash
      if considered then
        let run ← getRecord .run run.id
        let note := notePrefix ++ env.obs.followUpNote db run.id
        if run.statusNote ≠ some note
            ∧ run.statusNote.all (fun n => n = "" || startsWith n notePrefix) then
          let _ ← change env .run run.id none fun r => { r with statusNote := some note }
      if considered && !attention then pure ()
      else if !attention && !audit.any (·.status == .opened)
        && !env.obs.recoveryDue db run.id then pure ()
      else match ← recoveryCandidate env actor run audit attention with
        | none => pure ()
        | some candidate =>
          if ← query fun db => db.recoveryReady env candidate attention then
            let run ← getRecord .run run.id
            assignRecovery env run candidate audit

/-- The active legacy runs without a root maintainer. -/
def DB.rootlessRuns : List Run :=
  (db .run).rows.filter fun r => r.status == .active && r.orchestration == .legacy
    && (db.rootRule r.id).isNone

/-- `refill.recheck`, for one queued planner. -/
def recheckIdle (item : Assignment) : Tx Unit := do
  let db ← get
  if !env.obs.idleRecheck db item then pure ()
  else
    let note :=
      "Idle queue recheck: usable capacity exists and no queued session can currently use it."
    let row ← change env .assignment item.id none fun a =>
      { a with startCondition := none, statusNote := some note }
    let _ ← createObligation env row.id none .decision note
    match item.automationId with
    | some ruleId =>
      let _ ← change env .automation ruleId none fun a => { a with noProgressCount := 1 }
    | none => pure ()

/-- The queued planners of active legacy runs. -/
def DB.idlePlanners : List Assignment :=
  (db .assignment).rows.filter fun a => a.status == .pending && a.role == .worker
    && a.functions.contains .planner
    && ((db .run).find? a.runId).any (fun r => r.status == .active && r.orchestration == .legacy)
    && (a.automationId.bind (db .automation).find?).any (·.enabled)

/-! ## Objective recurrence -/

/-- Wake an idle planner whose frontier changed.  An explicit pause is kept. -/
def wakePlanner : Tx Automation := do
  let db ← get
  let observed := env.obs.objectiveFrontier db run
  if some observed ≠ rule.frontierHash ∧ rule.pauseReason.all (· = "idle") then
    let rule ← change env .automation rule.id none fun a =>
      { a with frontierHash := some observed, noProgressCount := 0, enabled := true
               pauseReason := none, notBefore := none }
    updateWhere env .assignment (fun _ a => a.recurrenceKey == some (.plannerNext run.id)
      && a.status == .pending) fun a => { a with pauseReason := none, notBefore := none }
    pure rule
  else pure rule

/-- `objectives.reconcile`, for one planner rule. -/
def reconcileObjective : Tx Unit := do
  let run ← getRecord .run rule.runId
  if run.pendingPhase.isSome then advance env run
  else
    let rule ← wakePlanner env run rule
    let _ ← ensureSuccessor env run rule

/-- The planner rules of active objective runs. -/
def DB.plannerRules : List Automation :=
  (db .automation).rows.filter fun a => a.name == .objectivePlanner
    && ((db .run).find? a.runId).any fun r => r.orchestration == .objective && r.status == .active

/-! ## The tick -/

/-- The executions whose lease has expired. -/
def DB.expiredLeases : List Execution :=
  (db .execution).rows.filter fun e => e.status.isLive && decide (e.leaseExpiresAt ≤ env.now)

/-- The unfinished assignments whose window has passed. -/
def DB.expiredAssignments : List Assignment :=
  (db .assignment).rows.filter fun a => (a.status == .pending || a.status == .running)
    && a.expiresAt.any (· ≤ env.now)

/-- Settle what has stopped, expired or drained. -/
def settleSweep : Tx Unit := do
  let db ← get
  each (settleStopped env) db.stoppedRequests
  let db ← get
  each (recoverLease env actor) (db.expiredLeases env)
  let db ← get
  each (expire env) (db.expiredAssignments env)
  let db ← get
  each (settleStopping env) ((db .run).rows.filter (·.status == .stopping))
  let db ← get
  each (settleDraining env actor) ((db .run).rows.filter (·.status == .draining))

/-- Reconcile the recurring work of legacy runs. -/
def legacySweep : Tx Unit := do
  retireUnusableMaintainers env
  replenishLegacy env actor
  let db ← get
  each (reconcileCoordination env actor) db.rootlessRuns
  let db ← get
  if env.config.automationIdleRecheckSeconds ≠ 0 then
    each (recheckIdle env) db.idlePlanners

/-- Reconcile the recurring work of objective runs. -/
def objectiveSweep : Tx Unit := do
  let db ← get
  each (reconcileObjective env) db.plannerRules
  reconcileDemand env

/-- `Scheduler.tick`. -/
def tick : Tx Unit := do
  let actor ← systemActor env
  settleSweep env actor
  legacySweep env actor
  objectiveSweep env

end Horizon
