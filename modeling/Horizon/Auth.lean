import Horizon.Persistence.Records

/-!
# Scoped authorization

`auth.py`: the authenticated actor, the authority an execution lease gives it,
and the project and host checks that guard every mutation.
-/

namespace Horizon

/-- An authenticated identity.  Project access and execution liveness are
rechecked by every operation. -/
structure Actor where
  id : Id
  kind : PrincipalKind
  hostId : Option Id
  executionId : Option Id
  credentialKind : CredentialKind

/-- The cumulative order of project roles. -/
def GrantRole.order : GrantRole → Nat
  | .viewer => 0
  | .worker => 1
  | .maintainer => 2

/-- The project role an assignment's role stands for. -/
def Role.grant : Role → GrantRole
  | .worker => .worker
  | .maintainer => .maintainer

/-- What a live execution credential gives access to. -/
structure LiveExecution where
  execution : Execution
  assignment : Assignment
  projectId : Id

namespace DB

variable (db : DB) (actor : Actor)

/-- `project_of` a run: the project of its mission. -/
def projectOfRun (runId : Id) : Except Error Id := do
  let run ← db.get .run runId
  let mission ← db.get .mission run.missionId
  pure mission.projectId

/-- `project_of` an assignment. -/
def projectOfAssignment (assignmentId : Id) : Except Error Id := do
  let item ← db.get .assignment assignmentId
  db.projectOfRun item.runId

/-- `project_of` a referenced record. -/
def projectOf : ObjectRef → Except Error Id
  | .project id => Project.id <$> db.get .project id
  | .mission id => Mission.projectId <$> db.get .mission id
  | .run id => db.projectOfRun id
  | .assignment id => db.projectOfAssignment id
  | .obligation id => do
    let row ← db.get .obligation id
    db.projectOfAssignment row.assignmentId
  | .node id => Node.projectId <$> db.get .node id
  | .document id => Document.projectId <$> db.get .document id
  | .repository id => Repository.projectId <$> db.get .repository id
  | .forgeItem id => do
    let item ← db.get .forgeItem id
    Repository.projectId <$> db.get .repository item.repositoryId
  | .external projectId => pure projectId

/-- `same_project` of a referenced record. -/
def requireSameProject (projectId : Id) (ref : ObjectRef) : Except Error Unit := do
  if (← db.projectOf ref) = projectId then pure ()
  else refuse .scopeMismatch "Referenced records must belong to the same project" 422

/-- `same_project`: a referenced record must belong to the project. -/
def sameProject {α : Type} (project : α → Id) (record : Except Error α) (projectId : Id) :
    Except Error α := do
  let row ← record
  if project row = projectId then pure row
  else refuse .scopeMismatch "Referenced records must belong to the same project" 422

/-- `is_admin`. -/
def isAdmin : Bool :=
  (actor.kind == .human || actor.kind == .service) && db.has .systemGrant actor.id

/-- `require_admin`. -/
def requireAdmin : Except Error Unit :=
  if db.isAdmin actor then pure ()
  else refuse .forbidden "Installation administrator permission is required" 403

/-- `live_execution`: the lease-backed authority of an agent. -/
def liveExecution (now : Instant) (actor : Actor) : Except Error LiveExecution := do
  if actor.kind != .agent || actor.credentialKind != .executionToken then
    refuse .forbidden "An active execution credential is required" 403
  else
    let stale := refuse .staleEpoch "Execution authority has expired or been cancelled" 409
    let some execution := actor.executionId.bind (db .execution).find? | stale
    let some assignment := (db .assignment).find? execution.assignmentId | stale
    let some run := (db .run).find? assignment.runId | stale
    let some mission := (db .mission).find? run.missionId | stale
    if (execution.status == .starting || execution.status == .running)
        && decide (now < execution.leaseExpiresAt) && assignment.status == .running
        && (run.status == .active || run.status == .paused || run.status == .draining) then
      pure ⟨execution, assignment, mission.projectId⟩
    else stale

/-- `require_project`. -/
def requireProject (now : Instant) (actor : Actor) (projectId : Id) (role : GrantRole) :
    Except Error Unit := do
  let denied := refuse .forbidden "The credential does not grant this project operation" 403
  if db.isAdmin actor then pure ()
  else match actor.kind with
    | .agent =>
      let live ← db.liveExecution now actor
      if live.projectId = projectId ∧ role.order ≤ live.assignment.role.grant.order then pure ()
      else denied
    | .human | .service =>
      match (db .projectGrant).find? (actor.id, projectId) with
      | some grant => if role.order ≤ grant.role.order then pure () else denied
      | none => denied
    | .host => denied

/-- `require_host`: exactly this host's key. -/
def requireHost (hostId : Id) : Except Error Unit :=
  if actor.kind = .host ∧ actor.credentialKind = .hostKey ∧ actor.hostId = some hostId then pure ()
  else refuse .forbidden "This host credential cannot operate another host" 403

end DB

/-- `system_actor`: the scheduler's own identity, created on first use. -/
def systemActor (env : Env) : Tx Actor := do
  let db ← get
  match (db .principal).rows.find? fun p => p.kind = .service && p.scheduler with
  | some p => pure ⟨p.id, .service, none, none, .internal⟩
  | none =>
    let p ← create .principal
      { id := env.uuid ((db .principal).rows.map (·.id)), kind := .service, executionId := none,
        scheduler := true }
    let _ ← create .systemGrant { principalId := p.id }
    pure ⟨p.id, .service, none, none, .internal⟩

end Horizon
