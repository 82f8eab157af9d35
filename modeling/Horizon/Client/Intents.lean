import Mathlib.Algebra.Ring.Nat
import Mathlib.Algebra.Ring.Int.Defs
import Horizon.Environment
import Mathlib.Data.List.Sort

/-!
# The intent journal of an assignment

`client.py`: before an agent sends a mutation it writes the intent to a SQLite journal that all
client processes of its assignment share.  The row holds the idempotency key, and the answer
of the server decides what becomes of it.  Every definition of this file is one transaction.

An intent is unresolved while it is `pending` or `rejected`.  `IntentJournal.Amends` says what
every transaction except an insertion does to the table: rows keep their identity, their
statuses change as given, and a row may disappear when its intent is no longer unresolved.
-/

namespace Horizon

open Table List

variable {r : Response} {row : AgentIntent} {f : AgentIntent → AgentIntent} {m : Mutation}

/-! ## Mutations and answers -/

/-- The methods that are journaled. -/
inductive MutationVerb where
  | post | patch
deriving DecidableEq

/-- A JSON body in its canonical encoding.  The two bodies that the client writes itself are
told apart from all others. -/
inductive MutationBody where
  | other (content : Id)
  | repairObligation (assignmentId intent : Id) (verb : MutationVerb) (path : List String)
      (executionId : Id)
  | repairDisposition (expectedRevision : Nat) (note : String)
deriving DecidableEq

/-- A mutating request; the stored fingerprint is a digest of it.  The path is given by the parts
between its slashes. -/
structure Mutation where
  verb : MutationVerb
  path : List String
  body : MutationBody
deriving DecidableEq

/-- The path lies in the versioned API and has no part `..`. -/
def Mutation.inApi (m : Mutation) : Bool :=
  (match m.path with
    | "" :: "api" :: "v3" :: _ :: _ => true
    | _ => false) && !m.path.contains ".."

/-- What stands under `detail` in an answer. -/
inductive ResponseDetail where
  | other
  | text (message : String)
  /-- A list of problems, each with `loc` and `type`. -/
  | problems
deriving DecidableEq

/-- The text of an answer, as far as the client looks into it. -/
inductive ResponseBody where
  /-- Not JSON. -/
  | text
  /-- JSON, but no object. -/
  | value
  /-- An object with the code of its `error` and its `detail`. -/
  | object (code : Option String) (detail : ResponseDetail)
deriving DecidableEq

/-- The `id` and `revision` of a record in an answer. -/
structure RecordRef where
  id : Id
  revision : Nat

structure Response where
  statusCode : Nat
  body : ResponseBody := .value
  /-- The text has more than 2000 characters, and is stored without its end. -/
  long : Bool := false
  record : Option RecordRef := none

/-- `RETRYABLE_OPERATION_CODES`. -/
def retryableOperationCodes : List String :=
  [ "review_capacity_unavailable", "review_identity_conflict", "provider_overloaded"
  , "rate_limited", "database_unavailable", "connection_error", "timeout" ]

/-- The codes of rejections that are raised before anything is committed. -/
def contractRejectionCodes : List String :=
  [ "validation_failed", "invalid_json", "invalid_arguments", "unknown_command", "unknown_record"
  , "not_found", "delegator_required", "dependency_cycle", "review_gate_blocked"
  , "incomplete_initial_discussion_read", "unread_messages"
  , "self_delegation", "unavailable_owner", "open_children", "child_budget_exhausted"
  , "review_resolutions_required", "review_plan_incomplete"
  , "review_resolution_independence", "review_resolution_invalid" ]

namespace ResponseBody

def errorCode : ResponseBody → Option String
  | .object code _ => code
  | _ => none

def contractRejection (body : ResponseBody) : Bool :=
  body.errorCode.any (· ∈ contractRejectionCodes)

end ResponseBody

inductive IntentStatus where
  | pending | completed | invalid | rejected | resolved
deriving DecidableEq

/-- The statuses of an intent that somebody still has to care for. -/
def IntentStatus.isUnresolved (status : IntentStatus) : Bool :=
  decide (status = .pending ∨ status = .rejected)

namespace Response

def isSuccess (r : Response) : Bool := decide (200 ≤ r.statusCode ∧ r.statusCode < 300)

def retryableOperation (r : Response) : Bool :=
  r.statusCode ∈ [408, 425, 429] || decide (500 ≤ r.statusCode)
    || r.body.errorCode.any (· ∈ retryableOperationCodes)

/-- A known rejection without effect. -/
def invalidRequest (r : Response) : Bool :=
  r.statusCode ∈ [404, 405, 409, 422] && match r.body with
    | .object _ detail =>
      r.body.contractRejection
        || decide (r.statusCode = 422 ∧ detail = .problems)
        || decide (r.statusCode = 404 ∧ detail = .text "Not Found")
        || decide (r.statusCode = 405 ∧ detail = .text "Method Not Allowed")
    | _ => false

/-- The status that an answer gives to its intent. -/
def verdict (r : Response) : IntentStatus :=
  if r.isSuccess then .completed
  else if r.invalidRequest then .invalid
  else if r.retryableOperation then .pending
  else .rejected

/-- What is read from the stored text later.  An object that is cut off is no JSON. -/
def stored (r : Response) : ResponseBody := if r.long then .text else r.body

theorem verdict_eq_completed (h : r.verdict = .completed) : r.isSuccess := by
  rw [verdict] at h
  split_ifs at h with hok
  exact hok

theorem verdict_eq_invalid (h : r.verdict = .invalid) : r.invalidRequest := by
  rw [verdict] at h
  split_ifs at h with _ hinvalid
  exact hinvalid

theorem verdict_ne_resolved : r.verdict ≠ .resolved := by
  rw [verdict]
  split_ifs <;> nofun

end Response

/-! ## The journal -/

/-- How an intent was closed by hand. -/
structure IntentResolution where
  obligationId : Id
  note : String
  resolvedByExecutionId : Id

/-- A row of `intent`. -/
structure AgentIntent where
  /-- The idempotency key. -/
  id : Id
  executionId : Id
  mutation : Mutation
  status : IntentStatus := .pending
  /-- The stored text; a transport failure leaves one that is not JSON. -/
  response : Option ResponseBody := none
  createdAt : Int
  attempts : Nat := 0
  retryAt : Option Int := none
  resolution : Option IntentResolution := none

/-- What no transaction changes in a row. -/
def AgentIntent.stamp (row : AgentIntent) : Id × Mutation × Int :=
  (row.id, row.mutation, row.createdAt)

theorem AgentIntent.stamp_eq_iff {row' : AgentIntent} :
    row.stamp = row'.stamp ↔
      row.id = row'.id ∧ row.mutation = row'.mutation ∧ row.createdAt = row'.createdAt := by
  simp [stamp]

/-- The metadata `intent_recovery`. -/
structure RecoveryMark where
  fingerprint : List (Id × IntentStatus)
  consecutiveObservations : Nat
  executionId : Id
  oldestIntentId : Id

structure IntentJournal where
  intents : Table AgentIntent.id := .empty _
  assignmentId : Option Id := none
  intentRecovery : Option RecoveryMark := none

/-- The key that a caller passes: none, the empty text or a key. -/
inductive RequestKey where
  | absent | blank
  | given (key : Id)

/-- Why a request is not sent. -/
inductive RequestError where
  /-- Outside the API, or too long. -/
  | unsupported
  | keyConflict
  | outsideReplayWindow
  | deferred
  | journalFull

namespace IntentJournal

variable (j : IntentJournal)

/-- Some intent with the key is unresolved. -/
def Unresolved (key : Id) : Prop :=
  ∃ row ∈ j.intents, row.id = key ∧ row.status.isUnresolved

/-- The pending intents of a mutation, in the order of the table. -/
def pendingOf (m : Mutation) : List AgentIntent :=
  j.intents.rows.filter fun row => decide (row.mutation = m ∧ row.status = .pending)

/-- The oldest pending intent of a mutation. -/
def oldestPending (m : Mutation) : Option AgentIntent :=
  ((j.pendingOf m).insertionSort fun r r' => r.createdAt ≤ r'.createdAt).head?

/-- Delete rows; every caller spares the unresolved ones. -/
def delete (p : AgentIntent → Bool) : IntentJournal :=
  { j with intents := j.intents.restrict fun row => row.status.isUnresolved || !p row }

/-- Of the intents that are no longer unresolved only those among the latest thousand rows stay. -/
def prune : IntentJournal :=
  let latest := (j.intents.rows.insertionSort fun r r' => r'.createdAt ≤ r.createdAt).take 1000
  j.delete fun row => !(latest.map AgentIntent.id).contains row.id

/-- Intents that are no longer unresolved are deleted after a week. -/
def expire (now : Int) : IntentJournal :=
  j.delete fun row => decide (row.createdAt < now - 7 * 86400)

/-- `INSERT OR IGNORE`. -/
def insertOrIgnore (row : AgentIntent) : IntentJournal :=
  { j with intents := (j.intents.insertNew row).getD j.intents }

/-- Change the row of a key. -/
def amend (key : Id) (f : AgentIntent → AgentIntent)
    (hf : ∀ row, (f row).id = row.id) : IntentJournal :=
  { j with intents := j.intents.modify key f hf }

/-- The key under which a mutation is sent. -/
def requestKey (m : Mutation) (key : RequestKey) (fresh : Id) : Id :=
  match key with
  | .absent => ((j.oldestPending m).map AgentIntent.id).getD fresh
  | .blank => fresh
  | .given key => key

section

variable (length : MutationBody → Nat)

def maxRequestBytes : Nat := 1024 ^ 2

/-- The part of `request` before anything is sent.  `length` is the length of an encoded body. -/
def beginRequest (j : IntentJournal) (executionId : Id) (maxOfflineSeconds : Nat) (now : Int)
    (m : Mutation) (key : RequestKey) (fresh : Id) (forceRetry : Bool) :
    Except RequestError (Id × IntentJournal) :=
  let key := j.requestKey m key fresh
  let previous := j.intents.find? key
  if !m.inApi || decide (maxRequestBytes < length m.body) then .error .unsupported
  else if previous.any (·.mutation ≠ m) then .error .keyConflict
  else if previous.any (fun row => decide (row.createdAt < now - maxOfflineSeconds)) then
    .error .outsideReplayWindow
  else if previous.any (fun row => decide (row.status = .pending)
      && row.retryAt.any (fun t => decide (t ≠ 0 ∧ now < t))) && !forceRetry then
    .error .deferred
  else
    let j := j.prune
    let pendingBytes :=
      ((j.intents.rows.filter (·.status.isUnresolved)).map (length ·.mutation.body)).sum
    if previous.isNone && decide (16 * 1024 ^ 2 < pendingBytes + length m.body) then
      .error .journalFull
    else
      .ok (key, j.insertOrIgnore { id := key, executionId, mutation := m, createdAt := now })

end

variable (j : IntentJournal)

/-- `_defer_intent_in`. -/
def deferIntentIn (now : Int) (key : Id) : Int × IntentJournal :=
  let attempts := ((j.intents.find? key).elim 0 (·.attempts)) + 1
  let retryAt := now + min 300 (2 ^ min attempts 8)
  (retryAt, j.amend key (fun row => { row with attempts, retryAt := some retryAt }) fun _ => rfl)

/-- `UPDATE intent SET status, response, retry_at`. -/
def mark (key : Id) (status : IntentStatus) (response : Option ResponseBody)
    (retryAt : Option Int) : IntentJournal :=
  j.amend key (fun row => { row with status, response, retryAt }) fun _ => rfl

/-- `_defer_intent`, after the last transport failure. -/
def deferIntent (now : Int) (key : Id) : IntentJournal :=
  let (retryAt, j) := j.deferIntentIn now key
  j.mark key .pending (some .text) (some retryAt)

/-- The part of `request` after an answer. -/
def settleIntent (now : Int) (key : Id) (r : Response) : IntentJournal :=
  let (retryAt, j) := match r.verdict with
    | .pending => let (retryAt, j) := j.deferIntentIn now key; (some retryAt, j)
    | _ => (none, j)
  (j.mark key r.verdict (if r.isSuccess then none else some r.stored) retryAt).expire now

/-- The constructor of a client: it binds the journal to its assignment, and rejections that
older clients have left for inspection become invalid. -/
def start (assignmentId : Option Id) : Option IntentJournal :=
  if assignmentId.isSome && j.assignmentId.isSome && assignmentId ≠ j.assignmentId then none
  else some { j with
    assignmentId := j.assignmentId <|> assignmentId
    intents := j.intents.updateWhere
      (fun row =>
        decide (row.status = .rejected) && row.response.any ResponseBody.contractRejection)
      (fun row => { row with status := .invalid }) fun _ => rfl }

/-- The unresolved intents by age. -/
def unresolvedIntents : List AgentIntent :=
  (j.intents.rows.filter (·.status.isUnresolved)).insertionSort fun r r' =>
    r.createdAt < r'.createdAt ∨ r.createdAt = r'.createdAt ∧ r.id ≤ r'.id

/-- `pending`. -/
def pendingIntents (limit : Nat) : List AgentIntent :=
  j.unresolvedIntents.take limit

/-- `recovery_state`. -/
def recoveryState (executionId : Id) : IntentJournal :=
  match j.unresolvedIntents with
  | [] => { j with intentRecovery := none }
  | oldest :: rest =>
    let count := match j.intentRecovery with
      | some previous =>
        if previous.oldestIntentId = oldest.id then
          previous.consecutiveObservations + if previous.executionId ≠ executionId then 1 else 0
        else 1
      | none => 1
    let mark : RecoveryMark :=
      { fingerprint := (oldest :: rest).map fun row => (row.id, row.status)
        consecutiveObservations := count
        executionId
        oldestIntentId := oldest.id }
    { j with intentRecovery := some mark }

/-- The last transaction of `resolve_intent`. -/
def closeIntent (key : Id) (resolution : IntentResolution) : IntentJournal :=
  { j with
    intents := j.intents.updateWhere
      (fun row => decide (row.id = key) && row.status.isUnresolved)
      (fun row => { row with status := .resolved, resolution := some resolution }) fun _ => rfl }

/-! ## What a transaction does to the rows -/

/-- The rows of `j'` are rows of `j` in the same order, with the same stamps and the given
statuses, and no row with an unresolved status is missing. -/
def Amends (j j' : IntentJournal) (status : AgentIntent → IntentStatus) : Prop :=
  ∃ (keep : AgentIntent → Bool) (f : AgentIntent → AgentIntent),
    j'.intents.rows = (j.intents.rows.filter keep).map f ∧
      ∀ row, (f row).stamp = row.stamp ∧ (f row).status = status row ∧
        ((status row).isUnresolved → keep row)

variable {j j' j₁ : IntentJournal} {key : Id} {status : AgentIntent → IntentStatus}

theorem Amends.origin (h : j.Amends j' status) :
    ∀ row' ∈ j'.intents, ∃ row ∈ j.intents, row'.stamp = row.stamp ∧ row'.status = status row := by
  obtain ⟨_, f, hrows, hf⟩ := h
  intro row' hrow'
  rw [mem_def, hrows] at hrow'
  obtain ⟨row, hrow, rfl⟩ := mem_map.mp hrow'
  exact ⟨row, mem_of_mem_filter hrow, (hf row).1, (hf row).2.1⟩

theorem Amends.kept (h : j.Amends j' status) (hrow : row ∈ j.intents)
    (hstatus : (status row).isUnresolved) :
    ∃ row' ∈ j'.intents, row'.stamp = row.stamp ∧ row'.status = status row := by
  obtain ⟨_, f, hrows, hf⟩ := h
  refine ⟨f row, ?_, (hf row).1, (hf row).2.1⟩
  rw [mem_def, hrows]
  exact mem_map_of_mem (mem_filter.mpr ⟨hrow, (hf row).2.2 hstatus⟩)

theorem Amends.sorted (h : j.Amends j' status)
    (hsorted : j.intents.rows.Pairwise fun r r' => r.createdAt ≤ r'.createdAt) :
    j'.intents.rows.Pairwise fun r r' => r.createdAt ≤ r'.createdAt := by
  obtain ⟨keep, f, hrows, hf⟩ := h
  have hcreated : ∀ row, (f row).createdAt = row.createdAt := fun row =>
    (AgentIntent.stamp_eq_iff.mp (hf row).1).2.2
  rw [hrows, pairwise_map]
  simp only [hcreated]
  exact hsorted.filter keep

theorem Amends.of_intents_eq (h : j'.intents = j.intents) : j.Amends j' AgentIntent.status :=
  ⟨fun _ => true, id, by simp [h], fun _ => ⟨rfl, rfl, fun _ => rfl⟩⟩

/-- Deleting rows afterwards. -/
theorem Amends.delete (h : j.Amends j₁ status) (p : AgentIntent → Bool) :
    j.Amends (j₁.delete p) status := by
  obtain ⟨keep, f, hrows, hf⟩ := h
  refine ⟨fun row => ((f row).status.isUnresolved || !p (f row)) && keep row, f, ?_, fun row => ?_⟩
  · change j₁.intents.rows.filter _ = _
    rw [hrows, filter_map, filter_filter]
    rfl
  · refine ⟨(hf row).1, (hf row).2.1, fun hstatus => ?_⟩
    simp [(hf row).2.1, (hf row).2.2 hstatus, hstatus]

theorem Amends.of_updateWhere {p : AgentIntent → Bool} (hf : ∀ row, (f row).id = row.id)
    (h : j'.intents = j.intents.updateWhere p f hf) (hstamp : ∀ row, (f row).stamp = row.stamp) :
    j.Amends j' fun row => if p row then (f row).status else row.status := by
  refine ⟨fun _ => true, fun row => if p row then f row else row, ?_, fun row =>
    ⟨?_, ?_, fun _ => rfl⟩⟩
  · rw [h, rows_updateWhere, filter_true]
  · by_cases hp : p row <;> simp [hp, hstamp]
  · by_cases hp : p row <;> simp [hp]

theorem Amends.of_amend {hf : ∀ row, (f row).id = row.id} {new : IntentStatus}
    (hstamp : ∀ row, (f row).stamp = row.stamp) (hnew : ∀ row, (f row).status = new) :
    j.Amends (j.amend key f hf) fun row => if row.id = key then new else row.status := by
  have h : j.Amends (j.amend key f hf) _ := .of_updateWhere hf rfl hstamp
  simpa only [decide_eq_true_eq, hnew] using h

theorem amend_amend {g : AgentIntent → AgentIntent} {hf : ∀ row, (f row).id = row.id}
    {hg : ∀ row, (g row).id = row.id} :
    (j.amend key f hf).amend key g hg
      = j.amend key (fun row => g (f row)) fun row => (hg _).trans (hf row) := by
  rw [amend, amend, amend, modify_modify]

theorem deferIntent_amends (now : Int) :
    j.Amends (j.deferIntent now key) fun row => if row.id = key then .pending else row.status := by
  simp only [deferIntent, deferIntentIn, mark, amend_amend]
  refine .of_amend ?_ ?_ <;> exact fun _ => rfl

theorem settleIntent_amends (now : Int) (r : Response) :
    j.Amends (j.settleIntent now key r) fun row =>
      if row.id = key then r.verdict else row.status := by
  rw [settleIntent]
  refine Amends.delete ?_ _
  split
  · simp only [deferIntentIn, mark, amend_amend]
    refine .of_amend ?_ ?_ <;> exact fun _ => rfl
  · refine .of_amend ?_ ?_ <;> exact fun _ => rfl

theorem start_amends {assignmentId : Option Id} (h : j.start assignmentId = some j') :
    j.Amends j' fun row =>
      if decide (row.status = .rejected) && row.response.any ResponseBody.contractRejection then
        .invalid
      else row.status := by
  rw [start] at h
  split at h
  · cases h
  · cases h
    exact .of_updateWhere (f := fun row => { row with status := .invalid })
      (fun _ => rfl) rfl fun _ => rfl

theorem closeIntent_amends (resolution : IntentResolution) :
    j.Amends (j.closeIntent key resolution) fun row =>
      if decide (row.id = key) && row.status.isUnresolved then .resolved else row.status :=
  .of_updateWhere (f := fun row => { row with status := .resolved, resolution := some resolution })
    (fun _ => rfl) rfl fun _ => rfl

theorem recoveryState_intents (executionId : Id) :
    (j.recoveryState executionId).intents = j.intents := by
  rw [recoveryState]
  split <;> rfl

/-! ## Beginning a request -/

theorem prune_amends : j.Amends j.prune AgentIntent.status :=
  Amends.delete (.of_intents_eq rfl) _

theorem mem_pendingOf :
    row ∈ j.pendingOf m ↔ row ∈ j.intents ∧ row.mutation = m ∧ row.status = .pending := by
  rw [pendingOf, mem_filter, decide_eq_true_eq, mem_def]

theorem mem_of_oldestPending (h : j.oldestPending m = some row) :
    row ∈ j.intents ∧ row.mutation = m ∧ row.status = .pending := by
  have hrow := mem_of_mem_head? (Option.mem_def.mpr h)
  rwa [mem_insertionSort, mem_pendingOf] at hrow

/-- A request that may be sent has pruned the journal and has its row in it. -/
theorem beginRequest_eq_ok {length : MutationBody → Nat} {executionId fresh : Id}
    {maxOfflineSeconds : Nat} {now : Int} {requested : RequestKey} {forceRetry : Bool}
    (h : j.beginRequest length executionId maxOfflineSeconds now m requested fresh forceRetry
      = .ok (key, j')) :
    key = j.requestKey m requested fresh ∧ (∀ row ∈ j.intents, row.id = key → row.mutation = m) ∧
      j' = j.prune.insertOrIgnore { id := key, executionId, mutation := m, createdAt := now } := by
  rw [beginRequest] at h
  split at h
  · cases h
  split at h
  · cases h
  rename_i hconflict
  split at h
  · cases h
  split at h
  · cases h
  dsimp only at h
  split at h
  · cases h
  cases h
  refine ⟨rfl, fun row hrow hid => ?_, rfl⟩
  by_contra hne
  refine hconflict ?_
  rw [find?_eq_some.mpr ⟨hrow, hid⟩]
  simpa using hne

end IntentJournal

end Horizon
