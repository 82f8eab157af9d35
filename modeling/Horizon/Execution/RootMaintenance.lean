import Horizon.Missions.Service

/-!
# Root maintenance of legacy runs

`execution/root_maintenance.py` and `Scheduler.replenish`: the single
evidence-driven maintainer of a legacy run, its recovery decisions, and the
replenishment of recurring work.  Objective runs have their own recurrence.
-/

namespace Horizon

/-- The prefix of the status note of a run whose maintenance is blocked. -/
def blockedPrefix : String := "Maintenance blocked: "

/-- `text.startswith(start)`. -/
def startsWith (text start : String) : Bool := start.toList.isPrefixOf text.toList

namespace DB

variable (db : DB)

/-- `rule`: the root maintainer of a run. -/
def rootRule (runId : Id) : Option Automation :=
  (db .automation).rows.find? fun a => a.runId == runId && a.name == .rootMaintainer

/-- The latest assignment of a rule, by number. -/
def latestOf (automationId : Id) : Option Assignment :=
  ((db .assignment).rows.filter fun a => a.automationId == some automationId).foldl
    (fun best a => if best.all (·.number ≤ a.number) then some a else best) none

/-- The condition of a rule was recorded and consumed by the preceding pass. -/
def conditionConsumed (env : Env) (rule : Automation) : Bool :=
  (env.obs.previousCondition db rule).isSome
    && env.obs.previousCondition db rule == rule.startCondition

/-- `recovery_cause`: why a run has lost its owner, without treating a declared
wait as a failure. -/
def recoveryCause (env : Env) (rule : Automation) : Option String :=
  match db.latestOf rule.id with
  | none => none
  | some latest =>
    if latest.status = .failed ∨ latest.status = .cancelled then
      some ("Root maintainer A" ++ toString latest.number ++ " "
        ++ (if latest.status = .failed then "failed" else "cancelled") ++ ": "
        ++ latest.statusNote.getD "Inspect its preserved work and execution failure")
    else if latest.status ≠ .completed then none
    else if rule.startCondition.isSome && !env.obs.defaultCondition rule.startCondition
        && (!db.conditionConsumed env rule || !env.obs.ruleReadiness db rule) then none
    else
      let active := (db .assignment).rows.any fun a => a.runId == rule.runId
        && a.automationId != some rule.id && a.status.isLive
      let unchanged := ((db .runCoordination).find? rule.runId).any fun w =>
        env.obs.coordinationFrontier db rule.runId == w.frontierHash
      if !active && unchanged then
        some
          ("The root maintainer finished while the mission remains open, with no follow-up owner "
          ++ "or explicit event wait")
      else none

/-- Whether a completed audit still authorizes one replacement owner. -/
def auditAuthorizes (env : Env) (rule : Automation) (watch : RunCoordination) : Bool :=
  env.obs.defaultCondition rule.startCondition
    && (watch.auditObligationId.bind (db .obligation).find?).any fun audit =>
      (db.latestOf rule.id).any (·.id == audit.assignmentId)
        && (audit.status == .done || audit.status == .handled) && audit.resolution.isSome

end DB

variable (env : Env) (rule : Automation) (item : Assignment)

/-- `recovery_available`: whether an unchanged frontier still allows recovery.  A
refusal is recorded on the run. -/
def recoveryAvailable (cause : Option String) : Tx Bool := do
  let db ← get
  match cause, (db .runCoordination).find? rule.runId with
  | none, _ => pure true
  | some _, none => pure true
  | some cause, some watch =>
    if watch.auditFrontierHash ≠ some (env.obs.coordinationFrontier db rule.runId) then pure true
    else if db.auditAuthorizes env rule watch then pure true
    else
      let note :=
        blockedPrefix ++ cause ++ ". Recovery already considered this unchanged evidence. "
        ++ "Inspect the recovery decision and repair the cause; a new substantive result or "
        ++ "explicit operator recovery can resume work."
      let run ← getRecord .run rule.runId
      if run.statusNote ≠ some note
        ∧ run.statusNote.all (fun n => n = "" || startsWith n blockedPrefix) then
        let _ ← change env .run run.id none fun r => { r with statusNote := some note }
        pure false
      else pure false

/-- Record the recovery audit of a run. -/
def recordAudit (runId : Id) (audit : ObligationId) : Tx Unit := do
  let db ← get
  let observed := env.obs.coordinationFrontier db runId
  match (db .runCoordination).find? runId with
  | some _ =>
    updateWhere env .runCoordination (fun _ w => w.runId == runId) fun w =>
      { w with auditObligationId := some audit, auditFrontierHash := some observed
               checkedAt := env.now }
  | none =>
    let _ ← create .runCoordination
      { runId, frontierHash := observed, lastProgressAt := env.now, checkedAt := env.now,
        auditObligationId := some audit, auditFrontierHash := some observed }

/-- `attach_recovery`: a recovery pass owns an explicit decision. -/
def attachRecovery (cause : Option String) : Tx Unit := do
  match cause with
  | none => pure ()
  | some cause =>
    let row ← createObligation env item.id none .decision cause
    recordAudit env item.runId row.id

/-- Why a pending owner of a run cannot start: `none` when it can, or when it is
only waiting for infrastructure. -/
def DB.ownerIssue (db : DB) (owner : Assignment) : Except Error (Option (Option String)) := do
  let label := "A" ++ toString owner.number ++ ": "
  match ← db.readiness env owner with
  | .true =>
    let previous := ((db .providerThread).rows.filter fun t =>
      t.assignmentId == owner.id && t.kind == .primary).getLast?
    if previous.any (! ·.status.isLive) then
      pure (some (some (label ++ "retained context is unavailable")))
    else match (previous.map (·.harnessId)).orElse fun _ => owner.harnessId with
      | none => pure none
      | some harnessId =>
        let configured := (db .hostHarness).rows.any fun h => h.harnessId == harnessId && h.enabled
          && ((db .harness).find? harnessId).any (·.enabled)
          && ((db .runHost).find? (owner.runId, h.hostId)).any (·.enabled)
        if configured then pure none
        else pure (some (some (label ++ "no enabled run host provides its requested harness")))
  | .unknown => pure (some (some (label ++ "its start condition is unknown")))
  | .false => pure (some none)

/-- `inspect_pending`: reuse the waiting root for an observed queue failure. -/
def inspectPending : Tx Unit := do
  let db ← get
  if item.startedAt.isSome || !env.obs.defaultCondition item.startCondition then pure ()
  else match (db .runCoordination).find? item.runId with
    | none => pure ()
    | some watch =>
      let audited := (watch.auditObligationId.bind (db .obligation).find?).any fun o =>
        o.assignmentId == item.id && o.status == .opened
      let owners := (db .assignment).rows.filter fun a =>
        a.runId == item.runId && a.id != item.id && a.status.isLive
      if env.obs.coordinationFrontier db item.runId ≠ watch.frontierHash || audited
          || owners.isEmpty || owners.any (·.status != .pending) then pure ()
      else
        let findings ← Transaction.query fun db => owners.mapM fun owner => db.ownerIssue env owner
        -- An owner that only waits for infrastructure ends the inspection.
        if findings.any (·.isNone) then pure ()
        else match findings.filterMap Option.join with
          | [] => pure ()
          | issues =>
            let cause := "No productive owner can start; " ++ "; ".intercalate (issues.take 8)
            if ← recoveryAvailable env rule (some cause) then attachRecovery env item (some cause)
            else pure ()

theorem key_unnoted (r : Run) : key .run { r with statusNote := none } = r.id := rfl

/-- `root_maintenance.admitted`: an admitted root pass starts a new watch. -/
def rootAdmitted : Tx Unit := do
  let db ← get
  match item.automationId.bind (db .automation).find? with
  | none => pure ()
  | some rule =>
    if rule.name ≠ .rootMaintainer then pure ()
    else
      let observed := env.obs.coordinationFrontier db item.runId
      match (db .runCoordination).find? item.runId with
      | some _ =>
        updateWhere env .runCoordination (fun _ w => w.runId == item.runId) fun w =>
          { w with frontierHash := observed, checkedAt := env.now
                   lastProgressAt :=
                     if w.frontierHash = observed then w.lastProgressAt else env.now }
      | none =>
        let _ ← create .runCoordination
          { runId := item.runId, frontierHash := observed, lastProgressAt := env.now,
            checkedAt := env.now, auditObligationId := none, auditFrontierHash := none }
      let run ← getRecord .run item.runId
      if run.statusNote.any (startsWith · blockedPrefix) then
        let _ ← change env .run run.id none fun r => { r with statusNote := none }

/-! ## Replenishment -/

/-- The recovery a root maintainer is replenished for: `none` when the rule is
held back. -/
def rootRecovery : Tx (Option (Option String)) := do
  if rule.name ≠ .rootMaintainer then pure (some none)
  else
    let mission ← getRecord .mission rule.missionId
    if mission.status ≠ .opened then pure none
    else
      let db ← get
      let cause := db.recoveryCause env rule
      if ← recoveryAvailable env rule cause then pure (some cause) else pure none

/-- `Scheduler.replenish`: queue the next occurrence of a recurring rule. -/
def replenish (actor : Actor) (rule : Automation) : Tx (Option Assignment) := do
  let run ← getRecord .run rule.runId
  if run.orchestration = .objective then
    Transaction.raise (.domain .objectiveAutomationManaged
      "Use objective planner/review demand instead of a competing automation" 409)
  else if !rule.enabled || run.status != .active then pure none
  else
    let db ← get
    let owned := (db .assignment).rows.filter fun a => a.automationId == some rule.id
    let active := owned.any fun a => a.status == .running || a.status == .stopping
    match owned.find? (·.status == .pending) with
    | some waiting =>
      if !active && rule.name == .rootMaintainer then inspectPending env rule waiting
      pure none
    | none =>
      if active then pure none
      else match ← rootRecovery env rule with
        | none => pure none
        | some recovery =>
          let db ← get
          if env.obs.maintenanceBlocked db rule then pure none
          else if rule.role == .maintainer && !rule.functions.contains .orchestrator
              && !env.obs.maintainerAdmission db then pure none
          else
            let row ← assignment env actor
              { runId := rule.runId, missionId := rule.missionId, role := rule.role,
                functions := rule.functions, notBefore := rule.notBefore,
                startCondition := if recovery.isSome then none else rule.startCondition }
              (some rule.id) true false
            attachRecovery env row recovery
            pure (some row)

end Horizon
