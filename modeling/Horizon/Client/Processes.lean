import Horizon.Client.Intents
import Horizon.Library.System

/-!
# Client processes

`client.py`: any number of client processes work on one intent journal.  Between two
transactions of a process every other process may act, a request may be answered late or not
at all, and a process may end at any point: by a crash, by an exception that nobody catches, or
because it is done.  A process runs `request`, `replay_pending` or `resolve_intent`; the two latter
send their own mutations through `request`.

The server is not modelled: any answer may come back.
-/

namespace Horizon

/-! ## Processes -/

/-- How far the sending of a request has come; a number counts the attempts made. -/
inductive Exchange where
  | ready (attempts : Nat)
  | waiting (attempts : Nat)
  | answered (response : Response)
  /-- The last attempt has failed. -/
  | unreachable

/-- A request between its first and its last transaction. -/
structure IntentCall where
  key : Id
  mutation : Mutation
  exchange : Exchange := .ready 0

/-- How a call of `request` ends. -/
inductive RequestResult where
  | ok (record : Option RecordRef)
  | deferred
  | failed

/-- The result of `replay_pending`. -/
structure ReplayReport where
  completed : List Id := []
  blocked : List Id := []
  deferred : List Id := []
  pending : Nat := 0

/-- How far `resolve_intent` has come. -/
inductive RepairStage where
  /-- The context of the assignment is to be read. -/
  | context
  | obligation
  /-- The obligation is recorded; an earlier disposition is to be looked for. -/
  | looking (obligation : RecordRef)
  | disposition (obligation : RecordRef) (body : MutationBody)
  /-- The obligation is resolved. -/
  | closing (resolved : RecordRef) (body : MutationBody)

/-- What a process does beyond a single request. -/
inductive Job where
  | none
  | replay (items : List AgentIntent) (report : ReplayReport)
  | repair (item : AgentIntent) (assignmentId : Id) (note : String) (stage : RepairStage)

structure AgentProcess where
  executionId : Id
  maxOfflineSeconds : Nat
  sending : Option IntentCall := none
  job : Job := .none
  /-- What the last `replay_pending` returned. -/
  replayed : Option ReplayReport := none

namespace ReplayReport

def add (report : ReplayReport) (key : Id) : RequestResult → ReplayReport
  | .ok _ => { report with completed := report.completed ++ [key] }
  | .deferred => { report with deferred := report.deferred ++ [key] }
  | .failed => { report with blocked := report.blocked ++ [key] }

/-- The result leaves out what has become terminal meanwhile. -/
def finish (report : ReplayReport) (unresolved : List Id) : ReplayReport :=
  { report with
    blocked := report.blocked.filter (· ∈ unresolved)
    deferred := report.deferred.filter (· ∈ unresolved)
    pending := unresolved.length }

end ReplayReport

/-- How a job goes on after a request.  An exception ends a repair. -/
def Job.resume (job : Job) (key : Id) (result : RequestResult) : Job :=
  match job with
  | .none => .none
  | .replay items report => .replay items (report.add key result)
  | .repair item assignmentId note stage =>
    match stage, result with
    | .obligation, .ok (some record) => .repair item assignmentId note (.looking record)
    | .disposition _ body, .ok (some record) =>
      .repair item assignmentId note (.closing record body)
    | _, _ => .none

/-- What the caller gets of an answer; the text of a success has to be JSON. -/
def Response.result (r : Response) : RequestResult :=
  if r.isSuccess then if r.body = .text then .failed else .ok r.record
  else if r.retryableOperation then .deferred else .failed

def RequestError.result : RequestError → RequestResult
  | .deferred => .deferred
  | _ => .failed

/-! ## Steps -/

/-- What the model does not compute: the length of an encoded body, and the keys that
`resolve_intent` derives from the key of an intent. -/
structure ClientNaming where
  length : MutationBody → Nat
  obligationKey : Id → Id
  dispositionKey : Id → Id

/-- The steps of a process. -/
inductive ProcessStep where
  /-- Call `request`; `fresh` is what `uuid4` returns. -/
  | request (mutation : Mutation) (key : RequestKey) (fresh : Id)
  | send
  | answer (response : Response)
  /-- The transport fails. -/
  | lose
  /-- The last transaction of `request`. -/
  | settle
  /-- Call `replay_pending`. -/
  | replay (limit : Nat)
  | replayNext
  | replayEnd
  /-- Call `recovery_state`. -/
  | observe
  /-- Call `resolve_intent`. -/
  | resolve (key : Id) (note : String)
  /-- The answer to `GET context`. -/
  | context (ok : Bool)
  | repairObligation
  | repairLook
  | repairDisposition
  | repairClose

inductive ClientStep where
  | tick (seconds : Nat)
  | start (p executionId : Id) (maxOfflineSeconds : Nat) (assignmentId : Option Id)
  | exit (p : Id)
  | act (p : Id) (step : ProcessStep)

/-- The journal with the processes that use it. -/
structure Clients where
  now : Int := 0
  journal : IntentJournal := {}
  processes : Id → Option AgentProcess := fun _ => none
  /-- Every key that was ever written to the journal.  No process reads this. -/
  journaled : List Id := []

namespace Clients

variable (naming : ClientNaming) (s : Clients) (p : Id) (proc : AgentProcess)

def put : Clients :=
  { s with processes := Function.update s.processes p (some proc) }

/-- Begin a request.  `refused` says how the process goes on when it is not sent. -/
def request (m : Mutation) (key : RequestKey)
    (fresh : Id) (forceRetry : Bool) (refused : RequestError → Option Job) : Option Clients :=
  match s.journal.beginRequest naming.length proc.executionId proc.maxOfflineSeconds
    s.now m key fresh
      forceRetry with
  | .ok (key, journal) =>
    some { s.put p { proc with sending := some { key, mutation := m } } with
      journal, journaled := key :: s.journaled }
  | .error e => (refused e).map fun job => s.put p { proc with job }

/-- The mutation that records an obligation for an intent. -/
def obligationMutation (item : AgentIntent) (assignmentId : Id) : Mutation where
  verb := .post
  path := ["", "api", "v3", "records", "obligation"]
  body :=
    .repairObligation assignmentId item.id item.mutation.verb item.mutation.path item.executionId

/-- The mutation that resolves an obligation. -/
def dispositionMutation (obligation : RecordRef) (body : MutationBody) : Mutation where
  verb := .post
  path := ["", "api", "v3", "obligations", toString obligation.id, "resolve"]
  body

/-- The steps of a request that was begun. -/
def exchangeStep (c : IntentCall) : ProcessStep → Option Clients
  | .send =>
    match c.exchange with
    | .ready n =>
      some (s.put p { proc with sending := some { c with exchange := .waiting (n + 1) } })
    | _ => none
  | .answer r =>
    match c.exchange with
    | .waiting _ => some (s.put p { proc with sending := some { c with exchange := .answered r } })
    | _ => none
  | .lose =>
    match c.exchange with
    | .waiting n =>
      let exchange := if n < 3 then .ready n else .unreachable
      some (s.put p { proc with sending := some { c with exchange } })
    | _ => none
  | .settle =>
    match c.exchange with
    | .answered r =>
      some { s.put p { proc with sending := none, job := proc.job.resume c.key r.result } with
        journal := s.journal.settleIntent s.now c.key r }
    | .unreachable =>
      some { s.put p { proc with sending := none, job := proc.job.resume c.key .failed } with
        journal := s.journal.deferIntent s.now c.key }
    | _ => none
  | _ => none

/-- The calls that a process without a job may make. -/
def callStep : ProcessStep → Option Clients
  | .request m key fresh =>
    if fresh ∈ s.journaled then none
    else s.request naming p proc m key fresh false fun _ => none
  | .replay limit =>
    if 1 ≤ limit ∧ limit ≤ 100 then
      some (s.put p { proc with job := .replay (s.journal.pendingIntents limit) {} })
    else none
  | .observe => some { s with journal := s.journal.recoveryState proc.executionId }
  | .resolve key note =>
    match s.journal.intents.find? key, s.journal.assignmentId with
    | some item, some assignmentId =>
      if (item.status.isUnresolved ∨ item.status = .resolved) ∧ note.length ≤ 8192
          ∧ note.toList.any (fun ch => !ch.isWhitespace) then
        some (s.put p { proc with job := .repair item assignmentId note .context })
      else none
    | _, _ => none
  | _ => none

/-- The steps of `replay_pending`. -/
def replayStep (items : List AgentIntent) (report : ReplayReport) : ProcessStep → Option Clients
  | .replayNext =>
    match items with
    | [] => none
    | item :: rest =>
      if item.status = .rejected then
        some (s.put p { proc with job := .replay rest (report.add item.id .failed) })
      else
        s.request naming p { proc with job := .replay rest report } item.mutation (.given item.id)
          item.id (item.executionId ≠ proc.executionId)
          fun e => some (.replay rest (report.add item.id e.result))
  | .replayEnd =>
    match items with
    | [] =>
      let unresolved := (s.journal.unresolvedIntents).map AgentIntent.id
      some (s.put p { proc with job := .none, replayed := some (report.finish unresolved) })
    | _ :: _ => none
  | _ => none

/-- The steps of `resolve_intent`. -/
def repairStep (item : AgentIntent) (assignmentId : Id)
    (note : String) (stage : RepairStage) (step : ProcessStep) : Option Clients :=
  match step, stage with
  | .context ok, .context =>
    let job :=
      if ok && item.status ≠ .resolved then .repair item assignmentId note .obligation else .none
    some (s.put p { proc with job })
  | .repairObligation, .obligation =>
    let key := naming.obligationKey item.id
    s.request naming p proc (obligationMutation item assignmentId) (.given key) key true
      fun _ => some .none
  | .repairLook, .looking obligation =>
    -- a disposition that was journaled before keeps its body, whatever note is given now
    let body := match s.journal.intents.find? (naming.dispositionKey item.id) with
      | some previous => previous.mutation.body
      | none => .repairDisposition obligation.revision note
    some (s.put p
      { proc with job := .repair item assignmentId note (.disposition obligation body) })
  | .repairDisposition, .disposition obligation body =>
    let key := naming.dispositionKey item.id
    s.request naming p proc (dispositionMutation obligation body) (.given key) key true
      fun _ => some .none
  | .repairClose, .closing resolved (.repairDisposition _ note) =>
    let resolution := ⟨resolved.id, note, proc.executionId⟩
    some { s.put p { proc with job := .none } with
      journal := s.journal.closeIntent item.id resolution }
  | _, _ => none

/-- A step of a process. -/
def act (step : ProcessStep) : Option Clients :=
  match proc.sending with
  | some c => s.exchangeStep p proc c step
  | none =>
    match proc.job with
    | .none => s.callStep naming p proc step
    | .replay items report => s.replayStep naming p proc items report step
    | .repair item assignmentId note stage =>
      s.repairStep naming p proc item assignmentId note stage step

def next : ClientStep → Option Clients
  | .tick seconds => some { s with now := s.now + seconds }
  | .start p executionId maxOfflineSeconds assignmentId =>
    match s.processes p with
    | some _ => none
    | none =>
      (s.journal.start assignmentId).map fun journal =>
        { s.put p { executionId, maxOfflineSeconds } with journal }
  | .exit p => some { s with processes := Function.update s.processes p none }
  | .act p step => (s.processes p).bind fun proc => s.act naming p proc step

end Clients

/-- The clients of one assignment. -/
def agentClients (naming : ClientNaming) : System Clients ClientStep :=
  System.ofFun {} (Clients.next naming)

end Horizon
