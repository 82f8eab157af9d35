import Horizon.Worker.Checkout
import Horizon.Worker.Leases

/-!
# The worker daemon

`worker/daemon.py` and the process supervision of `worker/provider.py`: the lanes that
claim executions and run their providers, the recovery passes that settle what an earlier
daemon or a failed cleanup has left, and the crashes of the daemon in between.

A lane is a thread of the daemon that works on one execution.  Its phase says which
statement of `run_once`, `execute` or `_execute` comes next; a step of it is at most one
journal transaction (`Write`) and a change of phase (`Move`), so that a crash can fall
between any two transactions.  What the journal stores survives a crash, and so do the
sessions and containers of providers; lanes, the recovery pass and the file locks do not.

An error that a statement raises is a step of its own, which writes nothing.
-/

namespace Horizon

/-! ## Lanes -/

/-- A lock file under `workspace-locks`. -/
inductive LockName where
  | workspace (path : WorkspacePath)
  | execution (id : Id)
deriving DecidableEq

/-- What an attempt to stop a provider session came to. -/
inductive SessionStop where
  | confirmed
  /-- `PhysicalStopUnconfirmed`. -/
  | unconfirmed
  /-- Any other error. -/
  | failed

/-- Where an execution is given up before its provider is launched. -/
inductive GivenUp where
  | runOnce
  | execute
  /-- The error handler of `execute`, with the checkpoint that it has read. -/
  | handler (checkpoint : Checkpoint)

/-- The last snapshot of an execution. -/
inductive Preservation where
  | due | done | failed
deriving DecidableEq

/-- Where a lane stands.  `checkpoint` is the dictionary of `_execute`, `saved` the copy that
`ProcessSupervisor.run` keeps. -/
inductive Phase where
  /-- The claim was answered after its lease had run out. -/
  | expired
  /-- `run_once` validates the grant and prepares its workspace. -/
  | claimed
  /-- The execution is fenced, and its stop receipt comes next. -/
  | refused (outcome : ExecutionOutcome) (by_ : GivenUp)
  /-- The handler of `execute` clears the recovery flag. -/
  | clearing (checkpoint : Checkpoint)
  /-- No other execution had work pending in the workspace. -/
  | checked
  /-- The workspace is locked. -/
  | entered
  /-- Between requests. -/
  | working (checkpoint : Checkpoint)
  | begun (checkpoint saved : Checkpoint)
  | saved (checkpoint saved : Checkpoint)
  /-- The process waits at its gate. -/
  | spawned (checkpoint saved : Checkpoint)
  | recorded (checkpoint saved : Checkpoint)
  | running (checkpoint saved : Checkpoint)
  /-- The session has stopped, and its request ends normally. -/
  | returning (checkpoint saved : Checkpoint)
  /-- The container is to be removed. -/
  | leaving (checkpoint : Checkpoint) (returned cleanupFailed : Bool)
  /-- The `finally` block of `_execute`. -/
  | closing (outcome : ExecutionOutcome) (checkpoint : Checkpoint) (cleanupFailed : Bool)
      (preservation : Preservation)
  /-- The final snapshot, with the commits that it has still to record. -/
  | preserving (outcome : ExecutionOutcome) (checkpoint : Checkpoint) (commits : List Id)
  /-- The execution is fenced, and stays marked for recovery. -/
  | deferring (checkpoint : Checkpoint)
  | sealing (outcome : ExecutionOutcome) (checkpoint : Checkpoint) (preserved : Bool)
  | sealed (checkpoint : Checkpoint) (terminal : TerminalOperation) (preserved : Bool)
  | receipted (checkpoint : Checkpoint) (preserved : Bool)
  /-- An error has left `execute` or `_execute`. -/
  | raised

/-- Whether a lane holds the lock of its workspace. -/
def Phase.holdsLock : Phase → Bool
  | expired | claimed | clearing _ | checked | raised => false
  | refused _ .execute => true
  | refused _ .runOnce | refused _ (.handler _) => false
  | _ => true

/-- Whether the renewal thread of `_execute` is at work. -/
def Phase.isRenewing : Phase → Bool
  | .working _ | .begun .. | .saved .. | .spawned .. | .recorded .. | .running .. | .returning ..
  | .leaving .. | .closing .. | .preserving .. => true
  | _ => false

/-- A lane with the grant it works on. -/
structure Lane where
  executionId : Id
  epoch : Nat
  workspace : WorkspacePath
  repositoryId : Id
  phase : Phase

/-! ## Recovery passes -/

/-- The status that a recovered execution ends with. -/
def LocalStatus.recovered : LocalStatus → ExecutionOutcome
  | .running => .lost
  | .ended outcome => outcome

/-- Where `_recover_execution` stands. -/
inductive Stage where
  | locked
  /-- The row was read again. -/
  | halting (checkpoint : Checkpoint) (outcome : ExecutionOutcome)
  | haltingContainer (checkpoint : Checkpoint) (outcome : ExecutionOutcome)
  | halted (checkpoint : Checkpoint) (outcome : ExecutionOutcome)
  | fenced (checkpoint : Checkpoint) (outcome : ExecutionOutcome)
  | preserving (checkpoint : Checkpoint) (outcome : ExecutionOutcome) (commits : List Id)
  | preserved (checkpoint : Checkpoint) (outcome : ExecutionOutcome)
  | recorded (checkpoint : Checkpoint) (terminal : TerminalOperation)
  | enqueued (checkpoint : Checkpoint)

/-- A pass of `_recover`: the rows it has still to visit, as they were when it began. -/
structure RecoveryPass where
  rows : List LocalExecution
  includeRunning : Bool
  /-- The lock it holds and the stage it is in, while it recovers the first of its rows. -/
  stage : Option (LockName × Stage) := none

/-- A pass after a step in the recovery of its first row. -/
def RecoveryPass.after (row : LocalExecution) (rows : List LocalExecution) (includeRunning : Bool)
    (name : LockName) : Option Stage → RecoveryPass
  | some stage => ⟨row :: rows, includeRunning, some (name, stage)⟩
  | none => ⟨rows, includeRunning, none⟩

/-! ## Moves -/

/-- What a step writes to the journal, about one execution. -/
inductive Write where
  | nothing
  | checkpoint (value : Checkpoint)
  | fence (outcome : ExecutionOutcome)
  | renew (seconds : Int)
  | begin (requestId : Id) (prompt : String)
  | receipt (terminal : TerminalOperation)
  /-- `_record_commit`.  A commit that was recorded before is found under its key. -/
  | discovery (repositoryId commit operationId : Id) (occurredAt : Instant)

/-- The operation of a stop receipt. -/
def TerminalOperation.envelope (terminal : TerminalOperation) (executionId : Id) (epoch : Nat) :
    WorkerOperation :=
  ⟨executionId, epoch, terminal.occurredAt, .executionFinished terminal.receipt⟩

/-- The transaction of a write. -/
def Write.action (clock : HostClock) (executionId : Id) (epoch : Nat) : Write → Journal.Action Unit
  | nothing => pure ()
  | checkpoint value => Journal.checkpoint executionId epoch value
  | fence outcome => Journal.fence executionId epoch outcome
  | renew seconds => Journal.grantLease clock executionId epoch seconds
  | begin requestId prompt => do
    let isNew ← Journal.beginRequest clock requestId executionId epoch prompt
    if !isNew then
      Transaction.raise (.fenced "provider submission is uncertain; reconcile before continuing")
  | receipt terminal => do
    let _ ← Journal.enqueue clock none terminal.operationId
        (terminal.envelope executionId epoch) .api
  | discovery repositoryId commit operationId occurredAt => do
    let _ ← Journal.enqueue clock none operationId
      ⟨executionId, epoch, occurredAt, .publication .discovered repositoryId commit⟩ .api

def Write.isReceipt : Write → Bool
  | receipt _ => true
  | _ => false

/-- The stop receipts that a write enqueues. -/
def Write.receipts (executionId : Id) (epoch : Nat) (w : Write) : List (Id × Nat) :=
  if w.isReceipt then [(executionId, epoch)] else []

/-- What a step does to the provider of an execution. -/
inductive ProviderChange where
  | unchanged
  /-- The gate opens. -/
  | released (launch : Launch)
  | sessionStopped (process : Option Id)
  | containerRemoved (name : Option Id)

/-- A step of a lane. -/
structure Move where
  write : Write := .nothing
  /-- Where the lane goes on, unless it ends. -/
  phase : Option Phase
  providers : ProviderChange := .unchanged

/-- A step of a recovery. -/
structure PassMove where
  write : Write := .nothing
  /-- Where the recovery goes on, unless it ends. -/
  stage : Option Stage
  providers : ProviderChange := .unchanged

/-! ## The daemon -/

/-- A session or a container that the daemon has started for an execution. -/
structure Provider where
  executionId : Id
  workspace : WorkspacePath
  name : Id
deriving DecidableEq

/-- The providers that a name stands for. -/
def Provider.isOf (executionId : Id) (name : Option Id) (p : Provider) : Bool :=
  p.executionId == executionId && some p.name == name

structure Daemon where
  journal : Journal
  clock : HostClock
  /-- Whether `serve` has still to finish its first recovery pass. -/
  starting : Bool
  lanes : Table Lane.executionId
  pass : Option RecoveryPass
  /-- The provider sessions that were not confirmed to have stopped. -/
  sessions : List Provider
  /-- The containers that were not confirmed to be removed. -/
  containers : List Provider
  checkouts : WorkspacePath → Checkout
  /-- What the provider of an execution has left in its checkout. -/
  finals : Id → Option Checkout
  /-- The executions, with their epochs, whose stop receipts were enqueued. -/
  receipts : List (Id × Nat)
  /-- The operations that were acknowledged. -/
  acknowledged : List WorkerOperation

/-- The steps of a lane. -/
inductive LaneStep where
  | recordPreparation (process : Option Id)
  | prepared
  | refuse (outcome : ExecutionOutcome)
  | emit (terminal : TerminalOperation)
  | emitFails
  | check
  | lock
  | flag
  | initialise
  | nameContainer (name : Id)
  | begin (requestId : Id) (prompt : String)
  | save
  | spawn (process : Id)
  | recordProcess
  | release
  | observe
  | stop (result : SessionStop) (returned : Bool)
  | settle
  | interrupt
  | stopContainer (removed : Bool) (outcome : ExecutionOutcome)
  | close (outcome : ExecutionOutcome) (preserved : Bool)
  | abort (outcome : ExecutionOutcome) (cleanupFailed : Bool)
  | snapshot (staged dirty : Id) (tips : List Id)
  | discover (operationId : Id) (occurredAt : Instant)
  | snapshotted
  | snapshotFails
  | fenceLost
  | defer
  | seal
  | announce (terminal : TerminalOperation) (retryAt : Int)
  | enqueue
  | clear
  | leave
  | raise
  | handle
  | abandon
  | renew (seconds : Int)
  | fence

/-- The steps of a recovery pass. -/
inductive PassStep where
  | start
  | skip
  | take
  | read
  | haltSession
  | haltContainer
  | fence
  | snapshot (staged dirty : Id) (tips : List Id)
  | discover (operationId : Id) (occurredAt : Instant)
  | preserved
  | defer (retryAt : Int)
  | announce (operationId : Id) (occurredAt : Instant) (receipt : ExecutionFinished)
  | enqueue
  | clear
  /-- An error that `_recover` handles. -/
  | fail (retryAt : Int)
  /-- `JournalFull`, or an error of the database. -/
  | abort
  | finish

inductive DaemonStep where
  /-- Deliveries, and whatever else leaves the executions alone. -/
  | journal (step : HostStep)
  | advance (elapsed : Nat) (wall : Int)
  /-- An answer to a claim. -/
  | resolve (requestId executionId : Id) (epoch : Nat) (seconds : Int) (workspace : WorkspacePath)
      (repositoryId : Id)
  | lane (executionId : Id) (step : LaneStep)
  | pass (step : PassStep)
  /-- A provider writes to its checkout. -/
  | edit (provider : Provider) (checkout : Checkout)
  /-- The daemon stops, whatever it is doing, and starts again. -/
  | crash

/-- Whether a step leaves the executions alone, and enqueues no stop receipt. -/
def HostStep.sparesExecutions : HostStep → Bool
  | enqueue _ _ envelope _ => !envelope.payload.isFinish
  | claim .. | settle .. | renewDelivery .. | retryPublication .. | compact .. => true
  | claimAttempt .. | abandonClaim .. | finishRequest .. => true
  | _ => false

/-- Whether a checkpoint says that something was launched under it. -/
def Launch.isBound (launch : Launch) : Bool :=
  launch.initialized || launch.requestId.isSome || launch.containerName.isSome

namespace Daemon

variable (s : Daemon)

/-- The stored row of an execution. -/
def stored (id : Id) : Option LocalExecution := s.journal.executions.find? id

/-- The lane that works on an execution. -/
def lane (id : Id) : Option Lane := s.lanes.find? id

/-- `assert_lease` succeeds. -/
def holdsLease (id : Id) (epoch : Nat) : Bool :=
  (s.journal.assertLease s.clock id epoch).isOk

/-- Whether a lock file is locked. -/
def isLocked (name : LockName) : Bool :=
  s.lanes.rows.any (fun l => l.phase.holdsLock && LockName.workspace l.workspace == name)
    || s.pass.any fun p => p.stage.any (·.1 == name)

/-- Whether another execution has preservation or cleanup pending in a workspace. -/
def hasPending (executionId : Id) (workspace : WorkspacePath) : Bool :=
  s.journal.executions.rows.any fun row => row.executionId != executionId
    && row.checkpoint.recoveryPending && row.checkpoint.workspacePath == some workspace

/-! ### Lanes -/

/-- The checkpoint that `_execute` closes with: what is stored, with its own values on top. -/
def persisted (row : LocalExecution) (checkpoint : Checkpoint) : Checkpoint :=
  { checkpoint with
    initialized := checkpoint.initialized || row.checkpoint.initialized
    requestId := checkpoint.requestId <|> row.checkpoint.requestId
    containerName := checkpoint.containerName <|> row.checkpoint.containerName
    process := checkpoint.process <|> row.checkpoint.process
    terminalOperation := row.checkpoint.terminalOperation
    recoveryRetryAt := row.checkpoint.recoveryRetryAt }

section

variable (treeOf : Id → Tree) (s : Daemon) (l : Lane)

/-- Enter the `finally` block of `_execute`. -/
def close (outcome : ExecutionOutcome) (checkpoint : Checkpoint) (cleanupFailed : Bool)
    (preservation : Preservation) (providers : ProviderChange) : Option Move :=
  (s.stored l.executionId).map fun row =>
    { phase := some (.closing outcome (persisted row checkpoint) cleanupFailed preservation),
      providers }

/-- A lane on its way to the workspace, and one that gives an execution up. -/
def approach : LaneStep → Phase → Option Move
  | .recordPreparation process, .claimed =>
    some { write := .checkpoint { recoveryPending := process.isSome, process },
           phase := some .claimed }
  | .prepared, .claimed => some { write := .checkpoint {}, phase := some .claimed }
  | .refuse outcome, .claimed =>
    some { write := .fence outcome, phase := some (.refused outcome .runOnce) }
  | .refuse outcome, .entered =>
    some { write := .fence outcome, phase := some (.refused outcome .execute) }
  | .emit terminal, .expired =>
    some { write := .receipt { terminal with receipt := { terminal.receipt with status := .lost } }
           phase := none }
  | .emit terminal, .refused outcome by_ =>
    some { write := .receipt { terminal with
      receipt := { terminal.receipt with status := outcome } }
           phase := match by_ with
            | .handler checkpoint => some (.clearing checkpoint)
            | _ => none }
  | .emitFails, .expired => some { phase := none }
  | .emitFails, .refused _ by_ =>
    -- An error within `_execute` reaches the handler of `execute`.
    some { phase := match by_ with
            | .execute => some .raised
            | _ => none }
  | .check, .claimed =>
    some { phase := some (if s.hasPending l.executionId l.workspace then .raised else .checked) }
  | .lock, .checked =>
    some { phase := some (if s.isLocked (.workspace l.workspace) then .raised else .entered) }
  | .raise, .claimed | .raise, .checked | .raise, .entered => some { phase := some .raised }
  | .handle, .raised =>
    (s.stored l.executionId).map fun row =>
      if row.checkpoint.isBound then { phase := none }
      else { write := .fence .failed, phase := some (.refused .failed (.handler row.checkpoint)) }
  | .abandon, .raised => some { phase := none }
  | .clear, .clearing checkpoint =>
    some { write := .checkpoint { checkpoint with recoveryPending := false }, phase := none }
  | _, _ => none

/-- A lane that runs its requests. -/
def supervise : LaneStep → Phase → Option Move
  | .flag, .entered =>
    let checkpoint : Checkpoint :=
      { workspacePath := some l.workspace, repositoryId := some l.repositoryId,
        recoveryPending := true }
    some { write := .checkpoint checkpoint, phase := some (.working checkpoint) }
  | .initialise, .working checkpoint =>
    let checkpoint := { checkpoint with initialized := true }
    some { write := .checkpoint checkpoint, phase := some (.working checkpoint) }
  | .nameContainer name, .working checkpoint =>
    let checkpoint := { checkpoint with containerName := some name }
    if checkpoint.initialized then
      some { write := .checkpoint checkpoint, phase := some (.working checkpoint) }
    else none
  | .begin requestId prompt, .working checkpoint =>
    if checkpoint.initialized then
      some { write := .begin requestId prompt
             phase := some (.begun checkpoint { checkpoint with requestId := some requestId }) }
    else none
  | .save, .begun checkpoint saved =>
    some { write := .checkpoint saved, phase := some (.saved checkpoint saved) }
  | .spawn process, .saved checkpoint saved =>
    if s.holdsLease l.executionId l.epoch then
      some { phase := some (.spawned checkpoint { saved with process := some process }) }
    else none
  | .recordProcess, .spawned checkpoint saved =>
    some { write := .checkpoint saved, phase := some (.recorded checkpoint saved) }
  | .release, .recorded checkpoint saved =>
    some { phase := some (.running checkpoint saved), providers := .released saved.toLaunch }
  | .observe, .running checkpoint saved =>
    some { write := .checkpoint saved, phase := some (.running checkpoint saved) }
  | .stop .confirmed returned, .running checkpoint saved =>
    some { phase := some (if returned then .returning checkpoint saved
                          else .leaving checkpoint false false)
           providers := .sessionStopped saved.process }
  | .stop .unconfirmed _, .running checkpoint _ =>
    some { phase := some (.leaving checkpoint false true) }
  | .stop .failed _, .running checkpoint _ =>
    some { phase := some (.leaving checkpoint false false) }
  | .settle, .returning checkpoint saved =>
    some { write := .checkpoint { saved with process := none }
           phase := some (.leaving checkpoint true false) }
  | .interrupt, .returning checkpoint _ => some { phase := some (.leaving checkpoint false false) }
  | .stopContainer removed outcome, .leaving checkpoint returned cleanupFailed =>
    if checkpoint.containerName.isSome && !removed then
      s.close l outcome checkpoint true .due .unchanged
    else if returned then
      some { phase := some (.working checkpoint)
             providers := .containerRemoved checkpoint.containerName }
    else s.close l outcome checkpoint cleanupFailed .due
      (.containerRemoved checkpoint.containerName)
  | .close outcome preserved, .working checkpoint =>
    s.close l outcome checkpoint false (if preserved then .due else .failed) .unchanged
  | .abort outcome cleanupFailed, .working checkpoint
  | .abort outcome cleanupFailed, .begun checkpoint _
  | .abort outcome cleanupFailed, .saved checkpoint _
  | .abort outcome cleanupFailed, .spawned checkpoint _
  | .abort outcome cleanupFailed, .recorded checkpoint _ =>
    s.close l outcome checkpoint cleanupFailed .due .unchanged
  | .raise, .working checkpoint =>
    -- An error before the `try` block of `_execute`.
    if checkpoint.initialized then none else some { phase := some .raised }
  | _, _ => none

/-- A lane in the `finally` block of `_execute`, and the thread that renews its lease. -/
def conclude : LaneStep → Phase → Option Move
  | .snapshot staged dirty tips, .closing outcome checkpoint false .due =>
    ((s.checkouts l.workspace).snapshot treeOf staged dirty tips).map fun commits =>
      { phase := some (.preserving outcome checkpoint commits) }
  | .discover operationId occurredAt, .preserving outcome checkpoint (commit :: commits) =>
    some { write := .discovery l.repositoryId commit operationId occurredAt
           phase := some (.preserving outcome checkpoint commits) }
  | .snapshotted, .preserving outcome checkpoint [] =>
    some { phase := some (.closing outcome checkpoint false .done) }
  | .snapshotFails, .closing outcome checkpoint false .due
  | .snapshotFails, .preserving outcome checkpoint _ =>
    some { phase := some (.closing outcome checkpoint false .failed) }
  | .fenceLost, .closing _ checkpoint _ _ =>
    some { write := .fence .lost, phase := some (.deferring checkpoint) }
  | .defer, .deferring checkpoint =>
    some { write := .checkpoint { checkpoint with recoveryPending := true }, phase := some .raised }
  | .seal, .closing outcome checkpoint false .done =>
    some { write := .fence outcome, phase := some (.sealing outcome checkpoint true) }
  | .seal, .closing outcome checkpoint false .failed =>
    some { write := .fence outcome, phase := some (.sealing outcome checkpoint false) }
  | .announce terminal retryAt, .sealing outcome checkpoint preserved =>
    let terminal := { terminal with receipt := { terminal.receipt with status := outcome } }
    let checkpoint := { checkpoint with
      recoveryPending := true, process := none, terminalOperation := some terminal
      recoveryRetryAt := if preserved then 0 else retryAt }
    some { write := .checkpoint checkpoint, phase := some (.sealed checkpoint terminal preserved) }
  | .enqueue, .sealed checkpoint terminal preserved =>
    some { write := .receipt terminal, phase := some (.receipted checkpoint preserved) }
  | .clear, .receipted checkpoint true =>
    some { write := .checkpoint { checkpoint with recoveryPending := false }, phase := none }
  | .leave, .receipted _ false => some { phase := none }
  | .raise, .closing .. | .raise, .preserving .. | .raise, .deferring _ | .raise, .sealing ..
  | .raise, .sealed .. | .raise, .receipted .. => some { phase := some .raised }
  | .renew seconds, phase => some { write := .renew seconds, phase := some phase }
  | .fence, phase =>
    if phase.isRenewing then some { write := .fence .lost, phase := some phase } else none
  | _, _ => none

/-- The next move of a lane. -/
def plan (step : LaneStep) : Option Move :=
  s.approach l step l.phase <|> s.supervise l step l.phase <|> s.conclude treeOf l step l.phase

end

variable (s : Daemon) (treeOf : Id → Tree)

/-- Commit a write about an execution. -/
def commit (executionId : Id) (epoch : Nat) (write : Write) : Option Daemon :=
  match write.action s.clock executionId epoch s.journal with
  | .error _ => none
  | .ok (_, journal) =>
    some { s with journal, receipts := write.receipts executionId epoch ++ s.receipts }

/-- Start or stop the provider of an execution. -/
def change (executionId : Id) : ProviderChange → Daemon
  | .unchanged => s
  | .released launch =>
    match launch.workspacePath with
    | none => s
    | some path =>
      { s with
        sessions := s.sessions ++ launch.process.toList.map (Provider.mk executionId path)
        containers := s.containers ++ launch.containerName.toList.map (Provider.mk executionId path)
        finals := Function.update s.finals executionId (some (s.checkouts path)) }
  | .sessionStopped name =>
    { s with sessions := s.sessions.filter (!·.isOf executionId name) }
  | .containerRemoved name =>
    { s with containers := s.containers.filter (!·.isOf executionId name) }

/-- A lane goes on, or ends. -/
def goOn (id : Id) : Option Phase → Daemon
  | some phase => { s with lanes := s.lanes.modify id ({ · with phase }) fun _ => rfl }
  | none => { s with lanes := s.lanes.restrict fun l => decide (l.executionId ≠ id) }

/-- Perform a move of a lane. -/
def perform (l : Lane) (m : Move) : Option Daemon :=
  (s.commit l.executionId l.epoch m.write).map fun s =>
    (s.change l.executionId m.providers).goOn l.executionId m.phase

/-! ### Recovery passes -/

/-- Whether `_recover` goes on to recover a row. -/
def visits (includeRunning : Bool) (row : LocalExecution) : Bool :=
  (if row.status = .running then includeRunning || !s.holdsLease row.executionId row.epoch
  else row.checkpoint.recoveryPending)
    && decide (row.checkpoint.recoveryRetryAt ≤ s.clock.wall)

/-- The lock under which `_recover_execution` works. -/
def lockOf (row : LocalExecution) : LockName :=
  match row.checkpoint.workspacePath with
  | some path => .workspace path
  | none => .execution row.executionId

/-- The next move in the recovery of a row. -/
def recoverPlan (s : Daemon) (row : LocalExecution) : PassStep → Stage → Option PassMove
  | .read, .locked =>
    (s.stored row.executionId).map fun current =>
      if current.status ≠ .running ∧ current.checkpoint.recoveryPending = false then
        { stage := none }
      else { stage := some (.halting current.checkpoint current.status.recovered) }
  | .haltSession, .halting checkpoint outcome =>
    some { stage := some (.haltingContainer checkpoint outcome)
           providers := .sessionStopped checkpoint.process }
  | .haltContainer, .haltingContainer checkpoint outcome =>
    some { stage := some (.halted checkpoint outcome)
           providers := .containerRemoved checkpoint.containerName }
  | .fence, .halted checkpoint outcome =>
    some { write := .fence outcome, stage := some (.fenced checkpoint outcome) }
  | .snapshot staged dirty tips, .fenced checkpoint outcome =>
    match checkpoint.workspacePath, checkpoint.repositoryId with
    | some path, some _ =>
      ((s.checkouts path).snapshot treeOf staged dirty tips).map fun commits =>
        { stage := some (.preserving checkpoint outcome commits) }
    | _, _ => none
  | .discover operationId occurredAt, .preserving checkpoint outcome (commit :: commits) =>
    checkpoint.repositoryId.map fun repositoryId =>
      { write := .discovery repositoryId commit operationId occurredAt
        stage := some (.preserving checkpoint outcome commits) }
  | .preserved, .preserving checkpoint outcome [] =>
    some { stage := some (.preserved checkpoint outcome) }
  | .preserved, .fenced checkpoint outcome =>
    if checkpoint.workspacePath.isSome && checkpoint.repositoryId.isSome then none
    else some { stage := some (.preserved checkpoint outcome) }
  | .defer retryAt, .fenced checkpoint _ | .defer retryAt, .preserving checkpoint _ _ =>
    some { write := .checkpoint { checkpoint with recoveryPending := true,
                                                  recoveryRetryAt := retryAt }
           stage := none }
  | .announce operationId occurredAt receipt, .preserved checkpoint outcome =>
    match checkpoint.terminalOperation with
    | some terminal => some { stage := some (.recorded checkpoint terminal) }
    | none =>
      let terminal : TerminalOperation :=
        ⟨operationId, occurredAt, { receipt with status := outcome }⟩
      let checkpoint := { checkpoint with terminalOperation := some terminal }
      some { write := .checkpoint checkpoint, stage := some (.recorded checkpoint terminal) }
  | .enqueue, .recorded checkpoint terminal =>
    some { write := .receipt terminal, stage := some (.enqueued checkpoint) }
  | .clear, .enqueued checkpoint =>
    some { write := .checkpoint
             { checkpoint with recoveryPending := false, process := none, recoveryRetryAt := 0 }
           stage := none }
  | .fail retryAt, _ =>
    -- The checkpoint that is stored now is the one the pass began with.
    some { write := .checkpoint
             { row.checkpoint with recoveryPending := true, recoveryRetryAt := retryAt }
           stage := none }
  | _, _ => none

/-- Perform a move in the recovery of the first row. -/
def recover (row : LocalExecution) (rows : List LocalExecution) (includeRunning : Bool)
    (name : LockName) (m : PassMove) : Option Daemon :=
  (s.commit row.executionId row.epoch m.write).map fun s =>
    { s.change row.executionId m.providers with
      pass := some (.after row rows includeRunning name m.stage) }

/-- One step of a recovery pass. -/
def passNext (s : Daemon) : PassStep → Option RecoveryPass → Option Daemon
  | .start, none => some { s with pass := some ⟨s.journal.executions.rows, s.starting, none⟩ }
  | .abort, some _ => some { s with pass := none }
  | .finish, some ⟨[], _, none⟩ => some { s with pass := none, starting := false }
  | .skip, some ⟨row :: rows, includeRunning, none⟩ =>
    -- The row needs no recovery now, or a lane still owns its checkout.
    if s.visits includeRunning row && !s.isLocked (lockOf row) then none
    else some { s with pass := some ⟨rows, includeRunning, none⟩ }
  | .take, some ⟨row :: rows, includeRunning, none⟩ =>
    if s.visits includeRunning row && !s.isLocked (lockOf row) then
      some { s with pass := some ⟨row :: rows, includeRunning, some (lockOf row, .locked)⟩ }
    else none
  | .fail retryAt, some ⟨row :: rows, includeRunning, none⟩ =>
    if s.visits includeRunning row then
      (s.recoverPlan treeOf row (.fail retryAt) .locked).bind
        (s.recover row rows includeRunning (lockOf row))
    else none
  | step, some ⟨row :: rows, includeRunning, some (name, stage)⟩ =>
    (s.recoverPlan treeOf row step stage).bind (s.recover row rows includeRunning name)
  | _, _ => none

/-! ### Steps -/

/-- The operations that a step acknowledges. -/
def acknowledges : HostStep → List WorkerOperation
  | .settle id token .acknowledged _ _ =>
    (s.journal.operations.rows.filter fun e =>
      e.operationId == id && e.claimToken == some token && e.destination == .api).map (·.envelope)
  | _ => []

/-- One step of the daemon and of what surrounds it. -/
def next (s : Daemon) : DaemonStep → Option Daemon
  | .journal step =>
    if step.sparesExecutions then
      match step.action s.clock s.journal with
      | .ok (_, journal) =>
        some { s with journal, acknowledged := s.acknowledges step ++ s.acknowledged }
      | .error _ => none
    else none
  | .advance elapsed wall =>
    some { s with clock := { s.clock with monotonic := s.clock.monotonic + elapsed, wall } }
  | .resolve requestId executionId epoch seconds workspace repositoryId =>
    if s.starting then none
    else match Journal.resolveClaim s.clock requestId (some executionId) epoch seconds
      s.journal with
      | .ok (true, journal) =>
        (s.lanes.insertNew
          { executionId, epoch, workspace, repositoryId
            phase := if seconds ≤ 0 then .expired else .claimed }).map fun lanes =>
          { s with journal, lanes }
      | .ok (false, journal) => some { s with journal }
      | .error _ => none
  | .lane id step => (s.lane id).bind fun l => (s.plan treeOf l step).bind (s.perform l)
  | .pass step => s.passNext treeOf step s.pass
  | .edit provider checkout =>
    if provider ∈ s.sessions ++ s.containers then
      some { s with
        checkouts := Function.update s.checkouts provider.workspace checkout
        finals := Function.update s.finals provider.executionId (some checkout) }
    else none
  | .crash => some { s with lanes := .empty _, pass := none, starting := true }

/-- A daemon on a new host, with the checkouts that are already there. -/
def initial (checkouts : WorkspacePath → Checkout) : Daemon where
  journal := .empty
  clock := ⟨0, 0, 0⟩
  starting := true
  lanes := .empty _
  pass := none
  sessions := []
  containers := []
  checkouts
  finals _ := none
  receipts := []
  acknowledged := []

end Daemon

/-- The runs of a daemon. -/
def workerDaemon (treeOf : Id → Tree) (checkouts : WorkspacePath → Checkout) :
    System Daemon DaemonStep :=
  .ofFun (.initial checkouts) (Daemon.next treeOf)

end Horizon
