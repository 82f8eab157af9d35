import Horizon.Environment
import Horizon.Library.Transaction

/-!
# Record primitives

`persistence/records.py`: reading a row, creating one, and changing one at an
expected revision.  A write that breaks a database constraint raises an
integrity error; every raised error rolls the transaction back.

Every update records a revision, through `change` or through the `touch_revision`
trigger.  `snapshot` and `emit` append business revisions and events, which no modelled
function reads back, and are left out.
-/

namespace Horizon

variable {Q : Unit → DB → Prop} {t' : TableName} {expected : Option Nat} {c : Prop}
  {code : ErrorCode} {α : Type} {message : String}

/-- The codes of `DomainError`. -/
inductive ErrorCode where
  | notFound | revisionConflict | scopeMismatch | forbidden | staleEpoch
  | parentClosed | parentRevisionRequired | invalidParentRevision | childBudgetExhausted
  | scopeWidening | acceptanceCriteriaRequired | delegationNoteRequired | missionCycle
  | scopeLinkMismatch | invalidRoadmap | missionClosed | acceptanceDecisionRequired
  | childScopeConflict | childBudgetConflict | openChildren | activeAssignments
  | missionSettled | missionOpen | invalidDecision
  | runNotActive | objectiveProfileManaged | retiredOrchestrator | phaseSettling
  | childMissionRequired | unchangedMission | delegatorRequired | missionAlreadyOwned
  | unknownFunction | reviewManifestRequired | unknownCategory | categoryRoleMismatch | queueFull
  | objectiveRequired | invalidObjective | objectiveAlreadyActive | legacyObjectiveActive
  | objectiveMismatch | phaseOrder | insufficientCapacity | invalidPhaseInput | baselineRequired
  | sourceUnverified | ambiguousReviewPolicy | missingReviewPolicy | objectiveAutomationManaged
  | phaseNotActive | phaseWorkActive | phaseInputsRequired | objectiveNotActive
  | invalidTransition | runSettled | runUnsettled | humanApprovalRequired | unlimitedRun
  | invalidRepair | invalidBaseline | decisionRequired | sessionNotPaused | sessionPreserved
  | sessionSettled | activeSuccessor | workspaceReassigned | notRunning | notPending
  | invalidNeighbor | physicalFencingRequired | invalidStopConfirmation
  | physicalStopUnconfirmed | executionActive | contextReplaced | requestUnsettled
  | invalidRecovery | assignmentSettled | obligationSettled | missingNote
  | coordinationEvidenceRequired | coordinationOwnerRequired | selfDelegation | unavailableOwner
  | invalidSchedule | dependencyCycle | reviewOriginRequired | reviewNotActive
  | reviewReasonRequired | reviewOwnerRetained | reviewGenerationChanged | reviewOwnerRequired
  | workspaceSnapshotMismatch | workspaceUnavailable | invalidOutcome | contextIdentityChanged
  | missingContext | workspaceNotReady | contextUnavailable | invalidInput | immutableFields
  | invalidReviewParent | forgeItemClosed | harnessUnavailable | reviewCapacityUnavailable
  | invalidArguments | reviewIdentityChanged | reviewCancelled | reviewIdentityConflict
  | notReviewInvocation | adapterMismatch | invalidActivity | workspaceNotManaged
  | workspaceRetained | invalidIdentifier | reviewCarryInvalid | reviewCarryStale
  | reviewCarrySuperseded
  | maintainerIdentityUnavailable | reviewGateStale | reviewPanelIncomplete

/-- Why a transaction is refused: a domain error with its message and HTTP
status, or a violated constraint of a table. -/
inductive Error where
  | domain (code : ErrorCode) (message : String) (status : Nat)
  | integrity (table : TableName)

/-- A transaction of the control plane. -/
abbrev Tx (α : Type) := Transaction DB Error α

/-- Raise a domain error. -/
def refuse {α : Type} (code : ErrorCode) (message : String) (status : Nat) : Except Error α :=
  .error (.domain code message status)

@[simp] theorem refuse_ne_ok {status : Nat} {a : α} : refuse code message status ≠ .ok a :=
  fun h => by cases h

@[simp] theorem ite_refuse_eq_ok [Decidable c] {status : Nat} {x : Except Error α} {a : α} :
    (if c then refuse code message status else x) = .ok a ↔ ¬ c ∧ x = .ok a := by
  by_cases h : c <;> simp [h]

@[simp] theorem ite_refuse_bind_eq_ok {β : Type} [Decidable c] {status : Nat}
    {f : β → Except Error α} {x : Except Error α} {a : α} :
    (if c then refuse code message status >>= f else x) = .ok a ↔ ¬ c ∧ x = .ok a := by
  by_cases h : c <;> simp [h]

/-- Raise a domain error where a condition holds. -/
def refuseIf (c : Prop) [Decidable c] (code : ErrorCode) (message : String) (status : Nat) :
    Except Error Unit :=
  if c then refuse code message status else pure ()

@[simp] theorem refuseIf_eq_ok [Decidable c] {status : Nat} {u : Unit} :
    refuseIf c code message status = .ok u ↔ ¬ c := by
  rw [refuseIf, ite_refuse_eq_ok]
  exact and_iff_left rfl

/-! ## Database constraints -/

/-- The statuses of an execution that holds its lease. -/
def ExecutionStatus.isLive : ExecutionStatus → Bool
  | .starting | .running | .stopping => true
  | .succeeded | .failed | .cancelled | .lost => false

/-- The statuses of an assignment that still owns its work. -/
def AssignmentStatus.isLive : AssignmentStatus → Bool
  | .pending | .running | .stopping => true
  | .completed | .failed | .cancelled => false

/-- The statuses of a run that has not settled. -/
def RunStatus.isLive : RunStatus → Bool
  | .active | .paused | .draining | .stopping => true
  | .completed | .cancelled => false

/-- The statuses of a provider context that can be resumed. -/
def ThreadStatus.isLive : ThreadStatus → Bool
  | .creating | .available => true
  | .unavailable | .closed => false

/-- The statuses of a provider request whose outcome is not recorded. -/
def RequestStatus.isUnsettled : RequestStatus → Bool
  | .pending | .submitted | .running | .uncertain => true
  | .completed | .failed | .interrupted => false

/-- The status that goes with a resolution. -/
def Resolution.status : Resolution → ObligationStatus
  | .completed _ _ => .done
  | .delegated _ _ | .scheduled _ _ | .reconsider _ _ _ => .handled
  | .superseded _ _ => .superseded

/-- The follow-up owners a resolution names. -/
def Resolution.targets : Resolution → List Id
  | .delegated _ ids => ids
  | .scheduled _ id | .reconsider _ id _ => [id]
  | .completed _ _ | .superseded _ _ => []

/-- The obligations that replace a superseded one. -/
def Resolution.replacements : Resolution → List ObligationId
  | .superseded _ ids => ids
  | _ => []

/-- The evidence a resolution links. -/
def Resolution.evidence : Resolution → List ObjectRef
  | .completed _ evidence | .reconsider _ _ evidence => evidence
  | _ => []

/-- Whether a key is present, as a foreign key demands. -/
def DB.has (db : DB) (t : TableName) (k : Key t) : Bool := ((db t).find? k).isSome

/-- The foreign-key and check constraints of a stored row. -/
def wellFormed : (t : TableName) → DB → Row t → Bool
  | .mission, db, m =>
    db.has .project m.projectId && m.parentId.all (db.has .mission) && m.parentId != some m.id
      && decide (0 < m.maxOpenChildren)
  | .run, db, r =>
    db.has .mission r.missionId && r.maxAssignments.all (decide <| 0 < ·)
      && (match r.phase with
        | .formalization _ => r.adoptedRoadmapSnapshotId.isSome || r.orchestration == .objective
        | _ => r.adoptedRoadmapSnapshotId.isNone)
  | .automation, db, a =>
    db.has .run a.runId && db.has .mission a.missionId && decide (0 < a.cooldownSeconds)
  | .assignment, db, a =>
    db.has .run a.runId && db.has .mission a.missionId && a.automationId.all (db.has .automation)
      && a.parentId != some a.id
      && (a.notBefore.all fun start => a.expiresAt.all fun stop => decide (start < stop))
  | .execution, db, e =>
    db.has .assignment e.assignmentId && db.has .workspace e.workspaceId
      && db.has .hostHarness (e.hostId, e.harnessId)
  | .providerThread, db, t =>
    db.has .assignment t.assignmentId && db.has .workspace t.workspaceId
      && t.parentRequestId.all (db.has .providerRequest)
      && ((t.kind == .child) == t.parentRequestId.isSome) && t.predecessorId != some t.id
  | .providerRequest, db, r =>
    db.has .providerThread r.providerThreadId && db.has .execution r.executionId
  | .obligation, db, o =>
    db.has .assignment o.assignmentId
      && (match o.resolution with
        | none => o.status == .opened
        | some res => o.status == res.status)
  | .workspace, db, w => db.has .host w.hostId
  | .hostHarness, db, h =>
    db.has .host h.hostId && db.has .harness h.harnessId && decide (0 < h.executionSlots)
  | .resourceLimit, _, l =>
    l.maxConcurrent.all (decide <| 0 < ·) && (l.kind == .providerAccount || l.maxConcurrent.isSome)
  | .hostHarnessLimit, db, l =>
    db.has .hostHarness (l.hostId, l.harnessId) && db.has .resourceLimit l.resourceLimitId
  | .resourceClaim, db, c =>
    db.has .resourceLimit c.resourceLimitId && db.has .execution c.executionId
      && decide (0 < c.units)
  | .reviewDemand, _, d => decide (0 < d.generation ∧ d.handledGeneration ≤ d.generation)
  | _, _, _ => true

/-- Whether a unique index refuses to store two different rows together. -/
def conflicts : (t : TableName) → Row t → Row t → Bool
  | .run, r, r' =>
    r.objectiveId.isSome && r.objectiveId == r'.objectiveId && r.orchestration == .objective
      && r'.orchestration == .objective && r.status.isLive && r'.status.isLive
  | .automation, a, a' => a.runId == a'.runId && a.name == a'.name
  | .assignment, a, a' =>
    a.recurrenceKey.isSome && a.recurrenceKey == a'.recurrenceKey && a.status.isLive
      && a'.status.isLive
  | .execution, e, e' =>
    e.status.isLive && e'.status.isLive
      && (e.assignmentId == e'.assignmentId || e.workspaceId == e'.workspaceId)
  | .providerThread, t, t' =>
    t.assignmentId == t'.assignmentId && t.kind == .primary && t'.kind == .primary
      && t.status.isLive && t'.status.isLive
  | .providerRequest, r, r' =>
    r.providerThreadId == r'.providerThreadId && r.status.isUnsettled && r'.status.isUnsettled
  | .workspace, w, w' => w.hostId == w'.hostId && w.path == w'.path
  | .resourceLimit, l, l' => l.kind == l'.kind && l.slug == l'.slug
  | .resourceClaim, c, c' =>
    c.releasedAt.isNone && c'.releasedAt.isNone && c.resourceLimitId == c'.resourceLimitId
      && c.providerRequestId == c'.providerRequestId
      && (c.providerRequestId.isSome || c.executionId == c'.executionId)
  | .principal, p, p' => p.scheduler && p'.scheduler
  | _, _, _ => false

/-- The constraints a row has to satisfy to be stored, against the rows of the database. -/
def admissible (t : TableName) (db : DB) (row : Row t) : Bool :=
  wellFormed t db row
    && (db t).rows.all fun r => decide (key t r = key t row) || !conflicts t row r

/-- The bookkeeping of a revisioned change: the revision goes up and the change
time is recorded. -/
def touch (now : Instant) : (t : TableName) → Row t → Row t
  | .mission, r => { r with revision := r.revision + 1 }
  | .run, r => { r with revision := r.revision + 1 }
  | .automation, r => { r with revision := r.revision + 1, updatedAt := now }
  | .assignment, r => { r with revision := r.revision + 1 }
  | .execution, r => { r with revision := r.revision + 1 }
  | .providerThread, r => { r with revision := r.revision + 1, updatedAt := now }
  | .obligation, r => { r with revision := r.revision + 1, updatedAt := now }
  | _, r => r

/-- The revision of a row. -/
def revision : (t : TableName) → Row t → Nat
  | .mission, r => r.revision
  | .run, r => r.revision
  | .automation, r => r.revision
  | .assignment, r => r.revision
  | .execution, r => r.revision
  | .providerThread, r => r.revision
  | .obligation, r => r.revision
  | _, _ => 1

theorem key_touch (now : Instant) (t : TableName) (r : Row t) :
    key t (touch now t r) = key t r := by
  cases t <;> rfl

/-! ## Reading and writing records -/

/-- `get`: the record with an identifier. -/
def DB.get (db : DB) (t : TableName) (k : Key t) : Except Error (Row t) :=
  match (db t).find? k with
  | some r => .ok r
  | none => refuse .notFound "Record was not found" 404

/-- `get` inside a transaction. -/
def getRecord (t : TableName) (k : Key t) : Tx (Row t) := Transaction.query fun db => db.get t k

instance {κ ρ : Type} {key : ρ → κ} (T : Table key) (p : ρ → Prop) [DecidablePred p] :
    Decidable (∀ r ∈ T, p r) :=
  inferInstanceAs (Decidable (∀ r ∈ T.rows, p r))

/-- `create`: insert a row. -/
def create (t : TableName) (row : Row t) : Tx (Row t) := do
  let db ← get
  if h : ∀ r ∈ db t, key t r ≠ key t row then
    if admissible t db row then
      set (db.write t ((db t).insert row h))
      pure row
    else Transaction.raise (.integrity t)
  else Transaction.raise (.integrity t)

/-- `change`: update one row, recording a revision.  An expected revision that
is not the current one is a conflict. -/
def change (env : Env) (t : TableName) (k : Key t) (expected : Option Nat) (f : Row t → Row t)
    (hf : ∀ r, key t (f r) = key t r := by intro _; rfl) : Tx (Row t) := do
  let db ← get
  let old ← getRecord t k
  if expected.any (· != revision t old) then
    Transaction.raise (.domain .revisionConflict "The record changed; refresh and retry" 409)
  else if admissible t db (touch env.now t (f old)) then
    set (db.write t ((db t).updateWhere (fun r => key t r = k) (fun r => touch env.now t (f r))
      fun r => by rw [key_touch, hf]))
    pure (touch env.now t (f old))
  else Transaction.raise (.integrity t)

/-- A bulk `UPDATE ... WHERE`.  The `touch_revision` trigger of the database records
a revision of every row it updates.  The bulk updates of the code only take rows out
of the reach of a unique index. -/
def updateWhere (env : Env) (t : TableName) (p : DB → Row t → Bool) (f : Row t → Row t)
    (hf : ∀ r, key t (f r) = key t r := by intro _; rfl) : Tx Unit := do
  let db ← get
  set (db.write t ((db t).updateWhere (p db) (fun r => touch env.now t (f r))
    fun r => by rw [key_touch, hf]))

/-- A bulk `DELETE ... WHERE`. -/
def deleteWhere (t : TableName) (p : Row t → Bool) : Tx Unit := do
  let db ← get
  set (db.write t ((db t).restrict (! p ·)))

/-- `next_number`: one more than the largest number in a scope. -/
def nextNumber {ρ : Type} (number : ρ → Nat) (scope : ρ → Bool) (rows : List ρ) : Nat :=
  ((rows.filter scope).map number).foldl max 0 + 1

/-! ## Rules for the primitives -/

open Transaction

variable {f : Row t' → Row t'} {env : Env} {t : TableName} {s : DB}

@[simp] theorem get_eq_ok {db : DB} {k : Key t} {r : Row t} :
    db.get t k = .ok r ↔ (db t).find? k = some r := by
  rw [DB.get]
  cases (db t).find? k <;> simp

@[simp] theorem ensures_getRecord {k : Key t} {Q : Row t → DB → Prop} :
    Ensures (getRecord t k) s Q ↔ ∀ r, (s t).find? k = some r → Q r s := by
  rw [getRecord, ensures_query]
  exact forall_congr' fun r => imp_congr_left get_eq_ok

theorem ensures_fetch {k : Key t} {g : Row t → Tx α} {Q : α → DB → Prop}
    (hg : ∀ r, (s t).find? k = some r → Ensures (g r) s Q) : Ensures (getRecord t k >>= g) s Q :=
  ensures_bind.mpr (ensures_getRecord.mpr hg)

@[simp] theorem ensures_create {row : Row t} {Q : Row t → DB → Prop} :
    Ensures (create t row) s Q ↔ ∀ h : ∀ r ∈ s t, key t r ≠ key t row, admissible t s row →
      Q row (s.write t ((s t).insert row h)) := by
  rw [create, ensures_bind, ensures_get]
  by_cases h : ∀ r ∈ s t, key t r ≠ key t row
  · rw [dif_pos h]
    by_cases ha : admissible t s row
    · rw [if_pos ha, ensures_bind, ensures_set, ensures_pure]
      exact ⟨fun hQ _ _ => hQ, fun hQ => hQ h ha⟩
    · rw [if_neg ha]
      exact ⟨fun _ _ ha' => absurd ha' ha, fun _ => .raise⟩
  · rw [dif_neg h]
    exact ⟨fun _ h' => absurd h' h, fun _ => .raise⟩

@[simp] theorem ensures_change {k : Key t} {f : Row t → Row t} {hf : ∀ r, key t (f r) = key t r}
    {Q : Row t → DB → Prop} :
    Ensures (change env t k expected f hf) s Q ↔ ∀ old, (s t).find? k = some old →
      (∀ n ∈ expected, n = revision t old) → admissible t s (touch env.now t (f old)) →
      Q (touch env.now t (f old)) (s.write t ((s t).updateWhere (fun r => decide (key t r = k))
        (fun r => touch env.now t (f r)) fun r => by rw [key_touch, hf])) := by
  rw [change, ensures_bind, ensures_get, ensures_bind, ensures_getRecord]
  refine forall_congr' fun old => imp_congr_right fun _ => ?_
  have hexp : expected.any (· != revision t old) ↔ ¬ ∀ n ∈ expected, n = revision t old := by
    cases expected <;> simp
  by_cases he : ∀ n ∈ expected, n = revision t old
  · rw [if_neg (by rw [hexp]; exact not_not_intro he)]
    by_cases ha : admissible t s (touch env.now t (f old))
    · rw [if_pos ha, ensures_bind, ensures_set, ensures_pure]
      exact ⟨fun hQ _ _ => hQ, fun hQ => hQ he ha⟩
    · rw [if_neg ha]
      exact ⟨fun _ _ ha' => absurd ha' ha, fun _ => .raise⟩
  · rw [if_pos (hexp.mpr he)]
    exact ⟨fun _ he' => absurd he' he, fun _ => .raise⟩

@[simp] theorem ensures_updateWhere {p : DB → Row t → Bool} {f : Row t → Row t}
    {hf : ∀ r, key t (f r) = key t r} :
    Ensures (updateWhere env t p f hf) s Q ↔
      Q () (s.write t ((s t).updateWhere (p s) (fun r => touch env.now t (f r))
        fun r => by rw [key_touch, hf])) := by
  rw [updateWhere, ensures_bind, ensures_get, ensures_set]

@[simp] theorem ensures_deleteWhere {p : Row t → Bool} :
    Ensures (deleteWhere t p) s Q ↔ Q () (s.write t ((s t).restrict (! p ·))) := by
  rw [deleteWhere, ensures_bind, ensures_get, ensures_set]

/-! ### Tables left alone -/

/-- A table is left alone. -/
def SameTable (t : TableName) (s s' : DB) : Prop := s' t = s t

instance : Std.Refl (SameTable t) := ⟨fun _ => rfl⟩

instance : IsTrans DB (SameTable t) := ⟨fun _ _ _ h h' => h'.trans h⟩

/-- Every commit of a transaction leaves a table alone. -/
abbrev Leaves {α : Type} (t : TableName) (f : Tx α) : Prop := Keeps (SameTable t) f

theorem leaves_create {row : Row t'} (h : t ≠ t') : Leaves t (create t' row) := by
  intro s
  rw [ensures_create]
  exact fun _ _ => Database.write_of_ne s h _

theorem leaves_change {k : Key t'} {hf : ∀ r, key t' (f r) = key t' r} (h : t ≠ t') :
    Leaves t (change env t' k expected f hf) := by
  intro s
  rw [ensures_change]
  exact fun _ _ _ _ => Database.write_of_ne s h _

theorem leaves_updateWhere {p : DB → Row t' → Bool}
    {hf : ∀ r, key t' (f r) = key t' r} (h : t ≠ t') : Leaves t (updateWhere env t' p f hf) := by
  intro s
  rw [ensures_updateWhere]
  exact Database.write_of_ne s h _

end Horizon
