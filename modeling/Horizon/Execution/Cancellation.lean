import Horizon.Execution.RootMaintenance
import Horizon.Execution.Objectives

/-!
# Cancellation, reconsideration and run commands

`Scheduler.cancel` and `Scheduler.reconsider`, and the run commands of
`commands.py` that cancel or restart the work of a whole run.
-/

namespace Horizon

open Transaction

/-- The first assignment of a queue. -/
def firstByRank (items : List Assignment) : Option Assignment :=
  items.foldl (fun best a => if best.any (·.queueRank ≤ a.queueRank) then best else some a) none

section

variable (env : Env) (item : Assignment)

/-- `root_maintenance_owner`: the live owner of the root rule, or a new one. -/
def rootMaintenanceOwner : Tx (Option Assignment) := do
  let db ← get
  match db.rootRule item.runId with
  | none => pure none
  | some rule =>
    if !rule.enabled || item.automationId == some rule.id then pure none
    else match firstByRank ((db .assignment).rows.filter fun a =>
        a.automationId == some rule.id && (a.status == .pending || a.status == .running)) with
      | some owner => pure (some owner)
      | none =>
        let actor ← systemActor env
        replenish env actor rule

/-- The owner that has to reconsider the work of a failed or cancelled assignment. -/
def reconsideringOwner : Tx (Option Assignment) := do
  let db ← get
  if (db.rootRule item.runId).isSome then rootMaintenanceOwner env item
  else pure (firstByRank ((db .assignment).rows.filter fun a => a.runId == item.runId
    && a.id != item.id && a.functions.contains .planner
    && (a.status == .pending || a.status == .running)))

/-- Whether a handled obligation relies on an assignment. -/
def Obligation.reliesOn (o : Obligation) (assignmentId : Id) : Bool :=
  o.status == .handled && (o.resolution.map Resolution.targets).any (·.contains assignmentId)

theorem key_reopened (o : Obligation) :
    key .obligation { o with status := .opened, resolution := none } = o.id := rfl

/-- Reopen an obligation. -/
def reopen (o : Obligation) : Tx Unit := do
  let _ ← change env .obligation o.id none fun o => { o with status := .opened, resolution := none }

/-- `reconsider`: failed delegations reopen their accounting instead of silently
remaining handled. -/
def reconsider : Tx Unit := do
  let rooted := ((← get).rootRule item.runId).isSome
  match ← reconsideringOwner env item with
  | some owner =>
    let _ ← createObligation env owner.id none .decision
      ("Reconsider A" ++ toString item.number ++ ", which did not finish its work.")
  | none =>
    if item.startedAt.isSome && !rooted then
      let _ ← createObligation env item.id none .blocker
        "No live planner owns the reconsideration of this work."
  let db ← get
  each (reopen env) ((db .obligation).rows.filter (·.reliesOn item.id))

/-- Disable the rule of a cancelled occurrence. -/
def disableRule : Tx Unit := do
  match item.automationId with
  | none => pure ()
  | some id =>
    let run ← getRecord .run item.runId
    let _ ← change env .automation id none fun a =>
      { a with enabled := false
               pauseReason := if run.orchestration = .objective then some "cancelled" else none }
    if run.orchestration = .objective then
      updateWhere env .assignment (fun _ a => a.automationId == some id && a.status == .pending)
        fun a =>
        { a with pauseReason := some "Planner automation cancelled explicitly" }

/-- `Scheduler.cancel`: a running session is asked to stop, a queued one is
cancelled at once. -/
def cancel (reason : String) (disableAutomation reconsidering : Bool) : Tx Assignment := do
  if !item.status.isLive then pure item
  else
    let stopping := item.status == .running || item.status == .stopping
    let row ← change env .assignment item.id none fun a =>
      { a with status := if stopping then .stopping else .cancelled, statusNote := some reason
               finishedAt := if stopping then none else some env.now }
    updateWhere env .execution (fun _ e => e.assignmentId == item.id
      && (e.status == .starting || e.status == .running)) fun e => { e with status := .stopping }
    if disableAutomation then disableRule env item
    if !stopping && reconsidering then reconsider env row
    pure row

end

/-! ## Run commands -/

/-- The commands that move a run between its statuses. -/
inductive RunCommand where
  | pause | resume | drain | complete | cancel | reopen
deriving DecidableEq

/-- The status a run command leads to, from the statuses it applies to. -/
def RunCommand.target : RunCommand → RunStatus → Except Error RunStatus
  | .cancel, .cancelled | .cancel, .completed => refuse .runSettled "Run is already settled" 409
  | .cancel, _ => pure .stopping
  | .pause, .active => pure .paused
  | .resume, .paused => pure .active
  | .drain, .active => pure .draining
  | .complete, .draining => pure .completed
  | .reopen, .draining | .reopen, .completed => pure .active
  | _, _ => refuse .invalidTransition "Run cannot make this status transition" 409

namespace DB

variable (db : DB) (env : Env)

/-- Whether work, physical stops, publications or deliveries of a run are
outstanding. -/
def runUnsettled (runId : Id) : Bool :=
  (db .assignment).rows.any (fun a => a.runId == runId && a.status.isLive)
    || (db .obligation).rows.any (fun o => o.status == .opened
      && ((db .assignment).find? o.assignmentId).any fun a => a.runId == runId
        && (a.automationId.isNone || a.startedAt.isSome))
    || (db .execution).rows.any (fun e => e.stopConfirmedAt.isNone
      && ((db .assignment).find? e.assignmentId).any (·.runId == runId))
    || env.obs.undelivered db runId

/-- The checks of a run command. -/
def validateRunCommand (actor : Actor) (command : RunCommand) (run : Run) :
    Except Error RunStatus := do
  let status ← command.target run.status
  if command = .resume ∧ run.pendingPhase.isSome ∧ ¬ run.autoAdvance ∧ actor.kind = .agent then
    refuse .humanApprovalRequired
      "This objective is configured to pause for human phase approval" 403
  else
    let mission ← db.get .mission run.missionId
    if (command = .drain ∨ command = .complete) ∧ mission.status ≠ .completed then
      refuse .missionOpen "Record the semantic mission-completion decision first" 409
    else if command = .complete ∧ db.runUnsettled env run.id then
      refuse .runUnsettled
        ("Work, physical execution stops, publication and external deliveries must "
        ++ "settle before run completion") 409
    else pure status

end DB

variable (env : Env) (actor : Actor) (run : Run)

/-- Restart the recurrence of a reopened run. -/
def restartRule (rule : Automation) : Tx Unit := do
  if run.orchestration = .objective then
    let _ ← ensureSuccessor env run rule
  else
    let _ ← replenish env actor rule

/-- Reopen the mission of a run. -/
def reopenMissionOf : Tx Mission :=
  change env .mission run.missionId none fun m =>
    { m with status := .opened, closedAt := none, closureNote := none }

/-- Reopen the mission of a run and restart its enabled rules. -/
def reopenWork : Tx Unit := do
  let _ ← reopenMissionOf env run
  let db ← get
  each (restartRule env actor run)
    ((db .automation).rows.filter fun a => a.runId == run.id && a.enabled)

theorem key_disabled (a : Automation) : key .automation { a with enabled := false } = a.id := rfl

/-- Stop the work of a cancelled run, or the queued recurrences of a draining one. -/
def stopWork (draining : Bool) : Tx Unit := do
  if !draining then
    updateWhere env .automation (fun _ a => a.runId == run.id) fun a => { a with enabled := false }
  let db ← get
  let items := (db .assignment).rows.filter fun a => a.runId == run.id
    && (if draining then a.status == .pending && a.automationId.isSome
      else a.status == .pending || a.status == .running)
  each (fun item => do
    let _ ← cancel env item (if draining then "Run is draining" else "Run is stopping")
      (!draining) (!draining)) items

/-- A run command of `commands.execute`, on the run it was checked against. -/
def runCommand (command : RunCommand) (run : Run) (note : Option String) : Tx Run := do
  let status ← query fun db => db.validateRunCommand env actor command run
  let row ← change env .run run.id (some run.revision) fun r =>
    { r with status := status, statusNote := note
             finishedAt := if status = .completed then some env.now else none }
  if command = .reopen then reopenWork env actor row
  if status = .stopping ∨ status = .draining then stopWork env row (status = .draining)
  pure row

end Horizon
