import Horizon.Execution.WorkerEvents

/-!
# The catalog

`projects/catalog.py` and the administrative writes around it: projects, sources,
hosts, harnesses, limits and workspaces, the reconfiguration of a host's harness
with the reservations that follow it, and the mirrored Forge items.
-/

namespace Horizon

open Transaction

/-- The records created through the catalog. -/
inductive CatalogRecord where
  | document (row : Document)
  | node (row : Node)
  | repository (row : Repository)
  | roadmapSnapshot (row : RoadmapSnapshot)
  | workspace (id : Id) (row : Workspace)
  | host (row : Host)
  | harness (row : Harness)
  | resourceLimit (id : Id) (kind : LimitKind) (slug : Id) (maxConcurrent : Option Nat)
  | hostHarness (row : HostHarness) (limitIds : List Id)

/-- The updates the catalog allows: identity and ownership change through lifecycle
commands only. -/
inductive CatalogUpdate where
  | projectWorkflow (id : Id) (workflow : Workflow)
  | document (id : Id) (title : String) (sourceRepositoryId sourceCommitOid : Id)
  | hostMode (id : Id) (mode : HostMode)
  | harness (id : Id) (enabled : Bool)
  | workspace (id : WorkspaceId) (branchName : WorkspacePath) (headCommitOid : Option Id)
      (status : WorkspaceStatus)
  | resourceLimit (id : Id) (maxConcurrent : Option Nat)

/-- What a host reports with its heartbeat. -/
structure HostHealth where
  pressure : Bool
  canPrepareWorkspace : Bool

variable (env : Env) (actor : Actor)

/-- `create-admin`: the first administrator of an installation. -/
def createAdmin : Tx Principal := do
  let db ← get
  let p ← create .principal
    { id := env.uuid ((db .principal).rows.map (·.id)), kind := .human, executionId := none
      scheduler := false }
  let _ ← create .systemGrant { principalId := p.id }
  pure p

/-- `Service.project`. -/
def project (workflow : Workflow) : Tx Project := do
  query fun db => db.requireAdmin actor
  let db ← get
  create .project { id := env.uuid ((db .project).rows.map (·.id)), workflow }

/-- `create_catalog`. -/
def createCatalog : CatalogRecord → Tx Unit
  | .document row => do
    query fun db => db.requireProject env.now actor row.projectId .worker
    let _ ← create .document row
  | .node row => do
    query fun db => db.requireProject env.now actor row.projectId .worker
    let _ ← create .node row
  | .repository row => do
    query fun db => db.requireProject env.now actor row.projectId .maintainer
    let _ ← create .repository row
  | .roadmapSnapshot row => do
    query fun db => db.requireProject env.now actor row.projectId .maintainer
    let _ ← create .roadmapSnapshot row
  | .workspace id row => do
    query fun db => db.requireProject env.now actor row.projectId .maintainer
    let _ ← create .workspace { row with id := .registered id }
  | .host row => do
    query fun db => db.requireAdmin actor
    let _ ← create .host row
  | .harness row => do
    query fun db => db.requireAdmin actor
    let _ ← create .harness row
  | .resourceLimit id kind slug maxConcurrent => do
    query fun db => db.requireAdmin actor
    let _ ← create .resourceLimit
      { id, kind, slug, maxConcurrent, cooldownUntil := none, failureCount := 0
        circuitOpen := false }
  | .hostHarness row limitIds => do
    query fun db => db.requireAdmin actor
    let _ ← create .hostHarness row
    each (fun limitId => do
      let _ ← create .hostHarnessLimit ⟨row.hostId, row.harnessId, limitId⟩) limitIds.dedup

/-- `update_catalog`. -/
def updateCatalog : CatalogUpdate → Tx Unit
  | .projectWorkflow id workflow => do
    query fun db => do
      db.requireProject env.now actor id .maintainer
      if actor.kind ≠ .human ∨ (db .run).rows.any fun r => r.status.isLive
          && ((db .mission).find? r.missionId).any (·.projectId == id) then
        refuse .forbidden "Finish active runs before changing the project workflow" 409
    let _ ← change env .project id none fun p => { p with workflow := workflow }
  | .document id title repositoryId commitOid => do
    let document ← getRecord .document id
    query fun db => db.requireProject env.now actor document.projectId .worker
    let _ ← change env .document id none fun d =>
      { d with title := title, sourceRepositoryId := repositoryId, sourceCommitOid := commitOid }
  | .hostMode id mode => do
    query fun db => db.requireAdmin actor
    let _ ← change env .host id none fun h => { h with mode := mode }
  | .harness id enabled => do
    query fun db => db.requireAdmin actor
    let _ ← change env .harness id none fun h => { h with enabled := enabled }
  | .workspace id branchName headCommitOid status => do
    let w ← getRecord .workspace id
    query fun db => db.requireProject env.now actor w.projectId .maintainer
    if w.status = .retired then
      raise (.domain .workspaceUnavailable
        "Retired workspaces are terminal; register a new independent checkout" 409)
    else
      let _ ← change env .workspace id none fun w =>
        { w with branchName := branchName, headCommitOid := headCommitOid, status := status }
  | .resourceLimit id maxConcurrent => do
    query fun db => db.requireAdmin actor
    let _ ← change env .resourceLimit id none fun l => { l with maxConcurrent := maxConcurrent }

/-! ## Reconfiguring a slot -/

/-- The executions of a slot whose stop is unconfirmed. -/
def DB.unconfirmedOn (db : DB) (hostId harnessId : Id) : List Execution :=
  (db .execution).rows.filter fun e => e.hostId == hostId && e.harnessId == harnessId
    && e.stopConfirmedAt.isNone

/-- The reservations a newly attached limit has to account for: the executions of the
slot and, on a provider account, their active native children. -/
def DB.occupancy (db : DB) (hostId harnessId : Id) (limit : ResourceLimit) :
    List (Id × Option Id) :=
  let executions := (db.unconfirmedOn hostId harnessId).map (·.id)
  executions.map (·, none) ++ (if limit.kind = .providerAccount then
      ((db .providerRequest).rows.filter fun r => executions.contains r.executionId
        && r.status.isUnsettled && db.isChild r.providerThreadId).map fun r =>
        (r.executionId, some r.id)
    else [])

/-- Claim one unit of a limit for a reservation that does not hold it yet. -/
def claimOccupancy (limitId : Id) (reservation : Id × Option Id) : Tx Unit := do
  let db ← get
  if (db .resourceClaim).rows.any fun c => c.resourceLimitId == limitId
      && c.executionId == reservation.1 && c.providerRequestId == reservation.2
      && c.releasedAt.isNone then pure ()
  else
    let _ ← create .resourceClaim
      { id := env.uuid ((db .resourceClaim).rows.map (·.id)), resourceLimitId := limitId
        executionId := reservation.1, providerRequestId := reservation.2, units := 1
        releasedAt := none }

/-- `_claim_attached_limits`, for one limit. -/
def claimAttachedLimit (hostId harnessId : Id) (limit : ResourceLimit) : Tx Unit := do
  let db ← get
  each (claimOccupancy env limit.id) (db.occupancy hostId harnessId limit)

/-- `configure_host_harness`: change a slot and its limits.  Detaching a limit never
releases a reservation. -/
def configureHostHarness (row : HostHarness) (limitIds : List Id) : Tx Unit := do
  let limits ← query fun db => do
    db.requireAdmin actor
    let _ ← db.get .hostHarness (row.hostId, row.harnessId)
    limitIds.dedup.mapM fun id => db.get .resourceLimit id
  let db ← get
  let previous := (db.attachedLimits row.hostId row.harnessId).map (·.id)
  let _ ← change env .hostHarness (row.hostId, row.harnessId) none fun h =>
    { row with hostId := h.hostId, harnessId := h.harnessId }
  deleteWhere .hostHarnessLimit fun l => l.hostId == row.hostId && l.harnessId == row.harnessId
  each (fun limitId => do
    let _ ← create .hostHarnessLimit ⟨row.hostId, row.harnessId, limitId⟩) limitIds.dedup
  each (claimAttachedLimit env row.hostId row.harnessId)
    (limits.filter fun l => !previous.contains l.id)

/-! ## Hosts and the Forge mirror -/

/-- The heartbeat of a host. -/
def hostHeartbeat (hostId : Id) (health : HostHealth) : Tx Unit := do
  query fun _ => DB.requireHost actor hostId
  let _ ← change env .host hostId none fun h =>
    { h with heartbeatAt := some env.now, pressure := health.pressure
             canPrepareWorkspace := health.canPrepareWorkspace }

/-- A connector records what it sees of a Forge item. -/
def syncItem (item : ForgeItem) : Tx Unit := do
  let db ← get
  match (db .forgeItem).find? item.id with
  | none =>
    let _ ← create .forgeItem item
  | some _ =>
    let _ ← change env .forgeItem item.id none fun i =>
      { i with status := item.status, awaitingReview := item.awaitingReview
               fingerprint := item.fingerprint, originRunId := item.originRunId }

/-- A principal other than the scheduler and the agents, with a project role. -/
def grantAccess (kind : PrincipalKind) (projectId : Id) (role : GrantRole) : Tx Unit := do
  let db ← get
  let p ← create .principal
    { id := env.uuid ((db .principal).rows.map (·.id)), kind, executionId := none
      scheduler := false }
  let _ ← create .projectGrant ⟨p.id, projectId, role⟩

end Horizon
