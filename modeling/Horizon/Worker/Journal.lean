import Horizon.Execution.WorkerEvents
import Horizon.Library.System
import Mathlib.Data.List.Sort

/-!
# The worker journal

`worker/journal.py`: the SQLite journal of a host daemon.  It keeps the operations that
the host still has to deliver, the executions it owns with their local leases, and the
claims it has sent.  Every method is one transaction on the file, so a restart of the
process changes nothing in it.

A lease deadline is a reading of the monotonic clock, which means nothing after a reboot;
the boot identity stored beside it says which clock was read.  The main result is
`lease_irrevocable`: a local lease that was held once and has failed once never holds
again, and the stored epoch of an execution never decreases.

Storage budgets appear as the refusal they lead to; the diagnostics of requests are left
out.
-/

namespace Horizon

open Transaction

/-! ## Rows -/

/-- What a worker process reads from its host. -/
structure HostClock where
  /-- `boot_identity()`. -/
  boot : Id
  /-- `time.monotonic()`. -/
  monotonic : Int
  /-- `time.time()`. -/
  wall : Int

inductive DeliveryState where
  | pending | inflight | acknowledged | blocked | recovery
deriving DecidableEq

inductive Destination where
  | api | localGit
deriving DecidableEq

/-- A row of `operations`.  Rows are kept in the order of their sequence. -/
structure JournalEntry where
  operationId : Id
  envelope : WorkerOperation
  createdAt : Int
  destination : Destination := .api
  state : DeliveryState := .pending
  attempts : Nat := 0
  retryAt : Int := 0
  claimToken : Option Id := none
  claimUntil : Option Int := none
  acknowledgedAt : Option Int := none
  error : Option String := none

/-- The status of an execution on its host. -/
inductive LocalStatus where
  | running
  | ended (outcome : ExecutionOutcome)
deriving DecidableEq

/-- A stop receipt that a checkpoint announces; its execution and epoch are those of the
checkpoint. -/
structure TerminalOperation where
  operationId : Id
  occurredAt : Instant
  receipt : ExecutionFinished

/-- What a checkpoint says about the launch of a provider. -/
structure Launch where
  workspacePath : Option WorkspacePath := none
  repositoryId : Option Id := none
  initialized : Bool := false
  requestId : Option Id := none
  containerName : Option Id := none
  /-- The session of the provider: `pid` with `process_identity`. -/
  process : Option Id := none
deriving DecidableEq

/-- A checkpoint.  The journal itself reads only `recoveryPending` and `size`; the rest is for
the daemon that wrote it. -/
structure Checkpoint extends Launch where
  recoveryPending : Bool := false
  /-- The bytes of its canonical encoding. -/
  size : Nat := 2
  terminalOperation : Option TerminalOperation := none
  recoveryRetryAt : Int := 0

/-- A row of `execution_state`. -/
structure LocalExecution where
  executionId : Id
  epoch : Nat
  bootId : Id
  deadline : Int
  status : LocalStatus
  checkpoint : Checkpoint := {}

inductive ClaimState where
  | pending | reconciled | resolved
deriving DecidableEq

/-- A row of `claim_attempts`. -/
structure ClaimAttempt where
  requestId : Id
  hostId : Id
  harnessIds : List Id
  resolutionNote : Option String := none
  state : ClaimState := .pending
  createdAt : Int

/-- A row of `provider_requests`. -/
structure LocalRequest where
  requestId : Id
  executionId : Id
  epoch : Nat
  input : String
  state : RequestStatus

/-- The kinds that the journal keeps beyond the offline horizon. -/
def WorkerPayload.isDurableEvidence : WorkerPayload → Bool
  | .publication .. | .executionFinished _ | .workspacePrepared .. => true
  | .activity | .providerObserved .. => false

def WorkerPayload.isFinish : WorkerPayload → Bool
  | .executionFinished _ => true
  | _ => false

def WorkerPayload.isDiscovery : WorkerPayload → Bool
  | .publication .discovered _ _ => true
  | _ => false

def WorkerPayload.isPublication : WorkerPayload → Bool
  | .publication .. => true
  | _ => false

/-- The tables of a journal. -/
structure Journal where
  operations : Table JournalEntry.operationId
  executions : Table LocalExecution.executionId
  claims : Table ClaimAttempt.requestId
  requests : Table LocalRequest.requestId

namespace Journal

/-- The journal of a new host. -/
def empty : Journal := ⟨.empty _, .empty _, .empty _, .empty _⟩

/-- The errors the journal raises. -/
inductive Failed where
  /-- `ValueError` and `RuntimeError`. -/
  | invalid (message : String)
  /-- `FencedExecution`. -/
  | fenced (message : String)
  /-- `JournalFull`. -/
  | full (message : String)

/-- A journal transaction. -/
abbrev Action (α : Type) := Transaction Journal Failed α

/-- `UPDATE operations SET … WHERE …`; the number of rows it changed. -/
def updateOperations (p : JournalEntry → Bool) (f : JournalEntry → JournalEntry)
    (hf : ∀ e, (f e).operationId = e.operationId) : Action Nat := do
  let j ← get
  set { j with operations := j.operations.updateWhere p f hf }
  pure (j.operations.rows.countP p)

/-- `UPDATE execution_state SET … WHERE …`; the number of rows it changed. -/
def updateExecutions (p : LocalExecution → Bool) (f : LocalExecution → LocalExecution)
    (hf : ∀ e, (f e).executionId = e.executionId) : Action Nat := do
  let j ← get
  set { j with executions := j.executions.updateWhere p f hf }
  pure (j.executions.rows.countP p)

/-- `INSERT INTO execution_state`, which fails on a stored execution. -/
def insertExecution (row : LocalExecution) : Action Unit := fun j =>
  if h : ∀ e ∈ j.executions.rows, e.executionId ≠ row.executionId then
    .ok ((), { j with executions := j.executions.insert row h })
  else .error (.invalid "UNIQUE constraint failed: execution_state.execution_id")

/-- `UPDATE claim_attempts SET … WHERE …`. -/
def updateClaims (p : ClaimAttempt → Bool) (f : ClaimAttempt → ClaimAttempt)
    (hf : ∀ c, (f c).requestId = c.requestId) : Action Unit := do
  modify fun j => { j with claims := j.claims.updateWhere p f hf }

/-! ## Delivery

The digest of an envelope is compared as the envelope itself. -/

variable (clock : HostClock) (j : Journal) (requestId : Id)

/-- `enqueue`; whether the operation is new.  `refusal` is the storage budget that a new
operation would exceed. -/
def enqueue (refusal : Option String) (operationId : Id)
    (envelope : WorkerOperation) (destination : Destination) : Action Bool := fun j =>
  match hf : j.operations.find? operationId with
  | some previous =>
    if previous.envelope ≠ envelope ∨ previous.destination ≠ destination then
      .error (.invalid "idempotency key was reused with different content")
    else .ok (false, j)
  | none =>
    match refusal with
    | some reason => .error (.full reason)
    | none =>
      let row : JournalEntry := { operationId, envelope, destination, createdAt := clock.wall }
      .ok (true, { j with operations := j.operations.insert row (Table.find?_eq_none.mp hf) })

/-- Whether an operation has been offline for longer than the journal replays it. -/
def isBeyondHorizon (horizon now : Int) (e : JournalEntry) : Bool :=
  (e.state == .pending || e.state == .inflight) && e.destination == .api
    && decide (e.createdAt < now - horizon) && !e.envelope.payload.isDurableEvidence

/-- Whether a stop receipt still has to wait: for the discovered commits of its execution,
and for a recovery that its checkpoint announces. -/
def isHeldBack (e : JournalEntry) : Bool :=
  e.envelope.payload.isFinish
    && (j.operations.rows.any (fun p => p.destination == .api && p.state != .acknowledged
          && p.envelope.payload.isDiscovery && p.envelope.executionId == e.envelope.executionId)
      || j.executions.rows.any fun x => x.executionId == e.envelope.executionId
          && x.epoch == e.envelope.epoch && x.checkpoint.recoveryPending)

/-- Whether an operation may be sent now. -/
def isDue (destination : Destination) (now : Int) (e : JournalEntry) : Bool :=
  e.destination == destination
    && (e.state == .pending && decide (e.retryAt ≤ now)
      || e.state == .inflight && e.claimUntil.any fun until_ => decide (until_ ≤ now))
    && !j.isHeldBack e

/-- `claim`: the first operation that may be sent, under a new claim token. -/
def claim (horizon now claimSeconds : Int) (destination : Destination) (token : Id) :
    Action (Option JournalEntry) := do
  let _ ← updateOperations (isBeyondHorizon horizon now) (fun e =>
    { e with state := .recovery, error := some "offline replay horizon exceeded"
             claimToken := none, claimUntil := none }) fun _ => rfl
  let j ← get
  match j.operations.rows.find? (j.isDue destination now) with
  | none => pure none
  | some row =>
    let _ ← updateOperations (·.operationId == row.operationId) (fun e =>
      { e with state := .inflight, claimToken := some token, claimUntil := some (now + claimSeconds)
               attempts := e.attempts + 1 }) fun _ => rfl
    pure (some { row with state := .inflight, claimToken := some token
                          claimUntil := some (now + claimSeconds), attempts := row.attempts + 1 })

/-- `settle`, by the holder of a claim token. -/
def settle (now : Int) (operationId token : Id) (state : DeliveryState) (retryAt : Int)
    (error : Option String) : Action Unit := do
  if state = .inflight then raise (.invalid "invalid delivery disposition")
  else
    let changed ← updateOperations
        (fun e => e.operationId == operationId && e.claimToken == some token)
      (fun e => { e with state, retryAt, error, claimToken := none, claimUntil := none
                         acknowledgedAt := if state = .acknowledged then some now else none })
      fun _ => rfl
    if changed ≠ 1 then raise (.fenced "delivery claim was superseded")

/-- `renew_delivery`. -/
def renewDelivery (now seconds : Int) (operationId token : Id) : Action Bool := do
  let changed ← updateOperations
      (fun e => e.operationId == operationId && e.claimToken == some token
    && e.state == .inflight) (fun e => { e with claimUntil := some (now + seconds) }) fun _ => rfl
  pure (changed == 1)

/-- `retry_publication`. -/
def retryPublication (operationId : Id) (note : Option String) : Action Unit := do
  if note.any fun note => decide (¬ (1 ≤ (strip note).length ∧ (strip note).length ≤ 1000)) then
    raise (.invalid "retry note must contain 1..1000 characters")
  else
    let j ← get
    match j.operations.find? operationId with
    | none => refused
    | some row =>
      if (row.destination = .localGit ∨ row.envelope.payload.isPublication)
          ∧ (row.state = .blocked ∨ row.state = .recovery) then
        let _ ← updateOperations (·.operationId == operationId) (fun e =>
          { e with state := .pending, retryAt := 0
                   error := note.map fun note => "retry_requested: " ++ strip note
                   claimToken := none, claimUntil := none }) fun _ => rfl
      else refused
where
  refused : Action Unit :=
    raise (.invalid "only blocked publication jobs or evidence receipts can be retried")

/-- `compact`: forget acknowledged operations, except the stop receipts of requests whose
diagnostics are still there. -/
def compact (acknowledgedBefore : Int) (hasDiagnostics : LocalRequest → Bool) : Action Unit := do
  modify fun j => { j with operations := j.operations.restrict fun e =>
    !(e.state == .acknowledged && e.acknowledgedAt.any
      (fun at_ => decide (at_ < acknowledgedBefore))
      && !(e.envelope.payload.isFinish && j.requests.rows.any fun r =>
        r.executionId == e.envelope.executionId && r.epoch == e.envelope.epoch
          && hasDiagnostics r)) }

/-! ## Leases -/

/-- `grant_lease`: a new epoch, or the renewal of a lease that still holds. -/
def grantLease (executionId : Id) (epoch : Nat) (seconds : Int) : Action Unit := do
  if epoch < 1 ∨ seconds ≤ 0 then raise (.invalid "invalid lease")
  else
    let j ← get
    let deadline := clock.monotonic + seconds
    match j.executions.find? executionId with
    | none =>
      insertExecution { executionId, epoch, deadline, bootId := clock.boot, status := .running }
    | some old =>
      if epoch < old.epoch ∨ (epoch = old.epoch ∧ old.status ≠ .running) then
        raise (.fenced "cannot renew a fenced execution")
      else if epoch = old.epoch ∧ (old.bootId ≠ clock.boot ∨ old.deadline ≤ clock.monotonic) then
        raise (.fenced "expired local ownership requires a new execution epoch")
      else
        let _ ← updateExecutions (·.executionId == executionId) (fun e =>
          { e with epoch, deadline, bootId := clock.boot, status := .running
                   checkpoint := if e.epoch < epoch then {} else e.checkpoint }) fun _ => rfl

/-- `assert_lease`. -/
def assertLease (clock : HostClock) (executionId : Id) (epoch : Nat) : Except Failed Unit :=
  match j.executions.find? executionId with
  | none => .error (.fenced "execution lease is absent, expired, or superseded")
  | some row =>
    if row.epoch ≠ epoch ∨ row.bootId ≠ clock.boot ∨ row.status ≠ .running
        ∨ row.deadline ≤ clock.monotonic then
      .error (.fenced "execution lease is absent, expired, or superseded")
    else .ok ()

/-- `checkpoint`. -/
def checkpoint (executionId : Id) (epoch : Nat) (value : Checkpoint) : Action Unit := do
  if 65536 < value.size then raise (.invalid "checkpoint too large")
  else
    let changed ← updateExecutions (fun e => e.executionId == executionId && e.epoch == epoch)
      (fun e => { e with checkpoint := value }) fun _ => rfl
    if changed = 0 then raise (.fenced "checkpoint belongs to a superseded execution")

/-- `fence`. -/
def fence (executionId : Id) (epoch : Nat) (outcome : ExecutionOutcome) : Action Unit := do
  let _ ← updateExecutions (fun e => e.executionId == executionId && e.epoch == epoch)
    (fun e => { e with status := .ended outcome }) fun _ => rfl

/-! ## Claims -/

/-- `pending_claim`. -/
def pendingClaim : Option ClaimAttempt := j.claims.rows.find? (·.state == .pending)

/-- `claim_attempt`: the claim that is still unanswered, or a new one. -/
def claimAttempt (horizon : Int) (identifier hostId : Id) (harnessIds : List Id) :
    Action ClaimAttempt := fun j =>
  match j.pendingClaim with
  | some old =>
    if old.createdAt < clock.wall - horizon then
      .error (.invalid
        "Pending claim exceeds replay horizon; reconcile host executions before admitting work")
    else .ok (old, j)
  | none =>
    let row : ClaimAttempt :=
      { requestId := identifier, hostId, harnessIds := harnessIds.mergeSort (· ≤ ·),
        createdAt := clock.wall }
    if h : ∀ c ∈ j.claims.rows, c.requestId ≠ row.requestId then
      .ok (row, { j with claims := j.claims.insert row h })
    else .error (.invalid "UNIQUE constraint failed: claim_attempts.request_id")

/-- `abandon_claim`. -/
def abandonClaim (note : String) : Action Unit := do
  if !hasText note || decide (16000 < note.length) then
    raise (.invalid "claim reconciliation requires an operator note")
  else
    let j ← get
    if j.claims.rows.any fun c => c.requestId == requestId && c.state == .pending then
      updateClaims (·.requestId == requestId) (fun c =>
        { c with state := .reconciled, resolutionNote := some note }) fun _ => rfl
    else raise (.invalid "claim is no longer pending")

/-- The requests of the last thousand claims. -/
def recentClaims : List Id :=
  ((j.claims.rows.mergeSort fun c d => decide (d.createdAt ≤ c.createdAt)).take 1000).map
    (·.requestId)

/-- Store the ownership that a claim was answered with, unless the execution is known. -/
def storeOwnership (epoch : Nat) (seconds : Int) : Option Id → Action Bool
  | none => pure false
  | some executionId => do
    let j ← get
    if (j.executions.find? executionId).isNone then
      insertExecution
        { executionId, epoch, bootId := clock.boot, deadline := clock.monotonic + max 0 seconds
          status := if 0 < seconds then .running else .ended .lost }
      pure true
    else pure false

/-- `resolve_claim`: consume an unanswered claim; whether its execution is new here. -/
def resolveClaim (executionId : Option Id) (epoch : Nat) (seconds : Int) : Action Bool := do
  let j ← get
  if j.claims.rows.any fun c => c.requestId == requestId && c.state == .pending then
    let isFresh ← storeOwnership clock epoch seconds executionId
    updateClaims (·.requestId == requestId) (fun c => { c with state := .resolved }) fun _ => rfl
    modify fun j => { j with claims := j.claims.restrict fun c =>
      !(c.state == .resolved && !j.recentClaims.contains c.requestId) }
    pure isFresh
  else pure false

/-! ## Provider requests -/

/-- `begin_request`: record a request under a lease that holds; whether it is new. -/
def beginRequest (requestId executionId : Id) (epoch : Nat) (prompt : String) : Action Bool := do
  query fun j => j.assertLease clock executionId epoch
  fun j => match hf : j.requests.find? requestId with
    | some old =>
      if old.input ≠ prompt ∨ old.executionId ≠ executionId ∨ old.epoch ≠ epoch then
        .error (.invalid "provider request identity reused")
      else .ok (false, j)
    | none =>
      let row : LocalRequest :=
        { requestId, executionId, epoch, input := prompt, state := .uncertain }
      .ok (true, { j with requests := j.requests.insert row (Table.find?_eq_none.mp hf) })

/-- `finish_request`. -/
def finishRequest (state : RequestStatus) : Action Unit := do
  if state = .completed ∨ state = .failed ∨ state = .interrupted ∨ state = .uncertain then
    modify fun j =>
      { j with
        requests := j.requests.updateWhere (·.requestId == requestId) (fun r => { r with state })
          fun _ => rfl }
  else raise (.invalid "invalid provider request state")

end Journal

end Horizon
