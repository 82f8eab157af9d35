import Horizon.Execution.Cancellation

/-!
# Review demand

`review/demand.py`: one durable maintenance owner for each Forge item, with
coalesced review generations.  Label deliveries go through the outbox, which is
not modelled.
-/

namespace Horizon

open Transaction

namespace DB

variable (db : DB)

/-- Whether an execution of an assignment has an unconfirmed stop. -/
def hasUnconfirmed (assignmentId : Id) : Bool :=
  (db .execution).rows.any fun e => e.assignmentId == assignmentId && e.stopConfirmedAt.isNone

/-- Whether the demand of an item is still held by another run. -/
def demandHeld (old : ReviewDemand) (run : Run) : Except Error Bool := do
  if old.runId = run.id then pure false
  else
    let previous ← db.get .run old.runId
    pure (previous.status.isLive || old.assignmentId.any db.hasUnconfirmed)

/-- The number of active objective runs of a project. -/
def activeObjectives (projectId : Id) : Nat :=
  ((db .run).rows.filter fun r => r.orchestration == .objective && r.status == .active
    && ((db .mission).find? r.missionId).any (·.projectId == projectId)).length

/-- The items whose review an active objective run looks after. -/
def reviewCandidates (run : Run) (projectId : Id) : List ForgeItem :=
  (db .forgeItem).rows.filter fun item =>
    ((db .repository).find? item.repositoryId).any (fun repo => repo.projectId == projectId
      && (repo.purpose == .knowledge || repo.purpose == .library))
    && ((db.activeObjectives projectId == 1 && item.originRunId.isNone && item.awaitingReview
        && item.reviewPhase.all (· == run.phase.kind))
      || item.originRunId == some run.id
      || ((db .reviewDemand).find? item.id).any (·.runId == run.id))

/-- Whether the owner of an unhandled generation keeps it.  A failed owner retains
its circuit state; a cancelled one blocks until its process is known to be gone. -/
def ownerRetained (demand : ReviewDemand) (owner : Assignment) : Bool :=
  match owner.status with
  | .pending | .running | .stopping | .failed => true
  | .completed => decide (demand.generation ≤ demand.ownerGeneration)
  | .cancelled => decide (demand.handledGeneration < demand.ownerGeneration)
    || decide (demand.generation ≤ demand.ownerGeneration) || db.hasUnconfirmed owner.id

end DB

variable (env : Env) (run : Run) (item : ForgeItem)

/-- The demand of an item after an observation that finds it recorded. -/
def ReviewDemand.observed (old : ReviewDemand) (run : Run) (item : ForgeItem) (explicit : Bool) :
    ReviewDemand :=
  let isOpen := item.status == .opened
  let unhandled := decide (old.handledGeneration < old.generation)
  let attention := isOpen && (explicit || item.awaitingReview || unhandled)
  let renewed := attention && (explicit || item.fingerprint != old.fingerprint
    || (!old.observedLabel && item.awaitingReview))
  let attention := isOpen && (renewed || unhandled)
  let moved := attention && old.runId != run.id
  { old with
    attention := attention
    observedLabel := item.awaitingReview
    handledGeneration := if isOpen then old.handledGeneration else old.generation
    runId := if moved || renewed then run.id else old.runId
    assignmentId := if moved then none else old.assignmentId
    ownerGeneration := if moved then 0 else old.ownerGeneration
    generation := if renewed then old.generation + 1 else old.generation
    fingerprint := if renewed then item.fingerprint else old.fingerprint }

/-- `observe`: record what is known of an item; `none` when there is no demand, or
another run still holds it. -/
def observe (explicit : Bool) : Tx (Option ReviewDemand) := do
  let db ← get
  match (db .reviewDemand).find? item.id with
  | none =>
    if item.status = .opened ∧ (explicit ∨ item.awaitingReview) then
      some <$> create .reviewDemand
        { forgeItemId := item.id, runId := run.id, assignmentId := none
          fingerprint := item.fingerprint, generation := 1, ownerGeneration := 0
          handledGeneration := 0, attention := true, observedLabel := item.awaitingReview }
    else pure none
  | some old =>
    if ← query fun db => db.demandHeld old run then pure none
    else
      updateWhere env .reviewDemand (fun _ d => d.forgeItemId == item.id) fun d =>
        { old.observed run item explicit with forgeItemId := d.forgeItemId }
      pure (some (old.observed run item explicit))

/-- `request`: ask for a review of an open item in an active objective. -/
def request (actor : Actor) (itemId : Id) (note : String) (runId : Option Id) :
    Tx ReviewDemand := do
  let (item, run) ← query fun db => do
    let item ← db.get .forgeItem itemId
    let projectId ← db.projectOf (.forgeItem itemId)
    db.requireProject env.now actor projectId .worker
    let live ← if actor.kind = .agent then some <$> db.liveExecution env.now actor else pure none
    match (runId.orElse fun _ => live.map (·.assignment.runId)).orElse fun _ =>
      item.originRunId with
    | none => refuse .reviewOriginRequired "Select run_id for this human-created review request" 422
    | some runId =>
      let run ← db.get .run runId
      let repository ← db.get .repository item.repositoryId
      if (← db.projectOfRun runId) ≠ projectId
          ∨ (repository.purpose ≠ .knowledge ∧ repository.purpose ≠ .library) then
        refuse .scopeMismatch "Review requires a roadmap or library in this objective's project" 403
      match item.originRunId with
      | some originId =>
        let origin ← db.get .run originId
        if originId ≠ run.id ∧ origin.status.isLive then
          refuse .scopeMismatch "The item belongs to another live objective" 403
      | none => pure ()
      if run.orchestration ≠ .objective ∨ run.status ≠ .active ∨ item.status ≠ .opened then
        refuse .reviewNotActive "Review requests need an open item and active objective" 409
      if live.any (·.assignment.runId ≠ run.id) then
        refuse .scopeMismatch "The item belongs to another objective" 403
      if ((db .reviewDemand).find? itemId).any (·.fingerprint == item.fingerprint)
        ∧ ¬ hasText note then
        refuse .reviewReasonRequired
          "Same-head review requests need the new evidence or decision required" 422
      pure (item, run)
  match ← observe env run item true with
  | some demand => pure demand
  | none =>
    raise (.domain .reviewOwnerRetained
      "Settle the previous objective and confirm its review owner's physical stop" 409)

/-- Cancel the live owner of a closed item. -/
def cancelOwner (demand : ReviewDemand) (item : ForgeItem) : Tx Unit := do
  match demand.assignmentId with
  | none => pure ()
  | some ownerId =>
    if item.status ≠ .opened then
      let owner ← getRecord .assignment ownerId
      let _ ← cancel env owner "Review item closed; request settled without a new review decision"
        true true

/-- Queue a maintenance owner for an unhandled generation.  A full queue ends the
scan of the run: the result is `some` exactly then. -/
def assignOwner (demand : ReviewDemand) : Tx (Option Unit) := do
  let db ← get
  let data : AssignmentCreate :=
    { runId := run.id, missionId := run.missionId, role := .maintainer,
      category := some .maintenance }
  match db.validateEnqueue run data with
  | .error (.domain .queueFull _ _) => pure (some ())
  | .error e => raise e
  | .ok _ =>
    let mission ← childMission env run "Review an item" "Decide the requested review generation."
      ["The item has an attributable decision and any repair has a durable owner."]
    let actor ← systemActor env
    let row ← assignment env actor { data with missionId := mission.id } none true false
    let _ ← change env .assignment row.id none fun a =>
      { a with recurrenceKey := some (.review item.id) }
    updateWhere env .reviewDemand (fun _ d => d.forgeItemId == item.id) fun d =>
      { d with assignmentId := some row.id, ownerGeneration := demand.generation }
    pure none

/-- Reconcile one item of a run. -/
def reconcileItem : Tx (Option Unit) := do
  let item ← match item.reviewPhase with
    | some _ => pure item
    | none => change env .forgeItem item.id none fun i =>
      { i with reviewPhase := some run.phase.kind }
  match ← observe env run item false with
  | none => pure none
  | some demand =>
    cancelOwner env demand item
    if demand.generation ≤ demand.handledGeneration ∨ item.status ≠ .opened then pure none
    else
      let owner ← match demand.assignmentId with
        | some ownerId => some <$> getRecord .assignment ownerId
        | none => pure none
      let db ← get
      if owner.any (db.ownerRetained demand) then pure none
      else assignOwner env run item demand

/-- Reconcile the review demand of one active objective run. -/
def reconcileReviews : Tx Unit := do
  if run.pendingPhase.isSome then pure ()
  else
    let root ← getRecord .mission run.missionId
    let db ← get
    let _ ← firstSome (reconcileItem env run)
      (env.reviewPage db run.id (db.reviewCandidates run root.projectId))

/-- `demand.reconcile`. -/
def reconcileDemand : Tx Unit := do
  let db ← get
  each (reconcileReviews env)
    ((db .run).rows.filter fun r => r.orchestration == .objective && r.status == .active)

theorem key_handled (generation : Nat) (d : ReviewDemand) : key .reviewDemand
    { d with handledGeneration := max generation d.handledGeneration } = d.forgeItemId := rfl

/-- `settle`: record the decision of a review generation. -/
def settle (actor : Actor) (itemId : Id) (generation : Nat) : Tx Unit := do
  query fun db => do
    let projectId ← db.projectOf (.forgeItem itemId)
    db.requireProject env.now actor projectId .maintainer
    match (db .reviewDemand).find? itemId with
    | none => refuse .reviewGenerationChanged "Refresh the review demand before settling it" 409
    | some demand =>
      if demand.generation < generation then
        refuse .reviewGenerationChanged "Refresh the review demand before settling it" 409
      else if actor.kind = .agent then
        let live ← db.liveExecution env.now actor
        if some live.execution.assignmentId ≠ demand.assignmentId then
          refuse .reviewOwnerRequired "Only the current maintenance owner may settle this round" 403
        else if generation ≠ demand.ownerGeneration then
          refuse .reviewGenerationChanged "Settle only the generation assigned to this session" 409
        else pure ()
      else pure ()
  updateWhere env .reviewDemand (fun _ d => d.forgeItemId == itemId) fun d =>
    { d with handledGeneration := max generation d.handledGeneration }

end Horizon
