import Horizon.Persistence.Records
import Horizon.Library.System
import Mathlib.Data.List.Sort

/-!
# External deliveries

`integrations/connectors.py`: the outbox operations that connector processes deliver to
Forgejo and Zulip.  A process claims an operation under a lease, looks for what an earlier
attempt may have left on the remote side, asks for permission to write, sends a request and
settles the operation.  Any number of processes do this at once, each may stop between any
two of its steps, and a request that was sent may arrive late, be refused or get lost.

The remote side is a list of the requests it was sent.  A request that was carried out
leaves an object with the marker of its operation, which a lookup finds from then on; one
that was refused has no effect.  A change first asks for its branch, and a created item gets
its labels afterwards; those requests leave no marked object.
-/

namespace Horizon

/-! ## Operations -/

inductive DeliveryKind where
  | zulipPost | forgeLabel | forgeReview | forgeMerge | forgeCreate | forgeComment | forgeChange
  | forgeEdit
deriving DecidableEq

/-- Whether an attempt that may only reconcile does not write.  Labels and edits set a
state and are applied again. -/
def DeliveryKind.reconciles : DeliveryKind → Bool
  | .forgeLabel | .forgeEdit => false
  | .zulipPost | .forgeReview | .forgeMerge | .forgeCreate | .forgeComment | .forgeChange => true

inductive DeliveryStatus where
  | pending | running | completed | failed | uncertain | cancelled
deriving DecidableEq

/-- The statuses that make later operations of the same target wait. -/
def DeliveryStatus.blocks : DeliveryStatus → Bool
  | .pending | .running | .uncertain => true
  | .completed | .failed | .cancelled => false

/-- The parts of a payload that say where an operation goes, and what it is settled with. -/
structure DeliveryPayload where
  forgeItemId : Option Id := none
  discussionId : Option Id := none
  repositoryId : Option Id := none
  isPullRequest : Bool := false
  head : Option String := none
  /-- The generation of a label that follows the review demand of its item. -/
  reviewGeneration : Option Nat := none

/-- Where an operation goes. -/
inductive DeliveryTarget where
  | item (id : Id)
  | discussion (id : Id)
  | pull (repositoryId : Id) (head : String)
  | operation (id : Id)
  | repository (id : Id)
deriving DecidableEq

/-- A row of `outbox_operation`. -/
structure Delivery where
  id : Id
  createdAt : Instant
  kind : DeliveryKind
  payload : DeliveryPayload
  /-- Whether the key is the one of a terminal label repair. -/
  isHousekeeping : Bool := false
  status : DeliveryStatus := .pending
  retryCount : Nat := 0
  retryAt : Option Instant := none
  leaseOwner : Option Id := none
  leaseEpoch : Nat := 0
  leaseExpiresAt : Option Instant := none
  /-- The deferrals its last failure counts. -/
  deferredAttempts : Nat := 0

namespace Delivery

/-- `delivery_target`.  New commits have private operation branches; independent pull
requests and issues do not queue behind an unrelated write to their repository. -/
def target (d : Delivery) : Option DeliveryTarget :=
  match d.payload.forgeItemId, d.payload.discussionId with
  | some id, _ => some (.item id)
  | none, some id => some (.discussion id)
  | none, none =>
    if d.kind = .forgeCreate ∧ d.payload.isPullRequest then
      match d.payload.repositoryId, d.payload.head with
      | some id, some head => some (.pull id head)
      | _, _ => none
    else if d.kind = .forgeChange ∨ d.kind = .forgeCreate then some (.operation d.id)
    else d.payload.repositoryId.map .repository

/-- The order of creation. -/
def precedes (d d' : Delivery) : Bool :=
  decide (d.createdAt < d'.createdAt) || (d.createdAt == d'.createdAt && decide (d.id < d'.id))

/-- Whether an operation runs under a lease that has not expired. -/
def isLeased (now : Instant) (d : Delivery) : Bool :=
  d.status == .running && d.leaseExpiresAt.any fun expiry => decide (now < expiry)

/-- Whether a process holds the lease of an operation at an epoch. -/
def isHeldBy (now : Instant) (owner : Id) (epoch : Nat) (d : Delivery) : Bool :=
  d.leaseOwner == some owner && d.leaseEpoch == epoch
    && d.leaseExpiresAt.any fun expiry => decide (now < expiry)

/-- Whether the lease and the retry time of an operation let it be claimed. -/
def isReady (now : Instant) (d : Delivery) : Bool :=
  match d.status with
  | .pending | .uncertain => d.retryAt.all fun retryAt => decide (retryAt ≤ now)
  | .running => d.leaseExpiresAt.any fun expiry => decide (expiry ≤ now)
  | .completed | .failed | .cancelled => false

/-- The order in which ready operations are claimed: terminal label repair comes last. -/
def claimsBefore (d d' : Delivery) : Bool :=
  if d.isHousekeeping = d'.isHousekeeping then d.precedes d' || d.id == d'.id
  else !d.isHousekeeping

end Delivery

/-! ## Attempts -/

/-- `ConnectorFailure`. -/
structure ConnectorFailure where
  code : String
  transient : Bool := false
  uncertain : Bool := false
  retryAfter : Nat := 0

/-- What a writing request is for. -/
inductive RequestRole where
  /-- The operation itself: the object with its marker, a label or an edit. -/
  | effect
  /-- The branch that a change is committed on. -/
  | branch
  /-- A label of an item that was created. -/
  | label
deriving DecidableEq

/-- How far an attempt has come. -/
inductive AttemptPhase where
  /-- The operation is claimed. -/
  | claimed
  /-- The lookup found nothing; the request may be sent. -/
  | ready
  /-- The item is there; `finish` sets its labels. -/
  | found
  /-- The lease was found valid just now. -/
  | authorized (role : RequestRole)
  /-- A request is out. -/
  | awaiting (role : RequestRole) (requestId : Id)
  /-- The outcome is there. -/
  | done
  | failed (failure : ConnectorFailure)

/-- A process working on an operation it has claimed. -/
structure Attempt where
  id : Id
  owner : Id
  operationId : Id
  kind : DeliveryKind
  epoch : Nat
  /-- `_reconcile_only`. -/
  reconcileOnly : Bool
  retryCount : Nat
  deferredAttempts : Nat
  phase : AttemptPhase

namespace Attempt

/-- The failure that `dispatch_one` settles with: a label whose outcome is unknown is set
again. -/
def reported (a : Attempt) (failure : ConnectorFailure) : ConnectorFailure :=
  if a.kind = .forgeLabel ∧ failure.uncertain then
    { code := failure.code, transient := true, retryAfter := failure.retryAfter }
  else failure

/-- Where an attempt goes on when its request was carried out.  The commit of a change
follows its branch, the labels of an item its creation; after the request of a label or an
edit another one may follow. -/
def proceed (a : Attempt) (isLast : Bool) : RequestRole → AttemptPhase
  | .branch => .ready
  | .label => .found
  | .effect =>
    if a.kind = .forgeCreate then .found
    else if isLast || a.kind.reconciles then .done else .ready

/-- What an attempt has come to, once it is ready to settle. -/
def outcome (a : Attempt) : Option (Option ConnectorFailure) :=
  match a.phase with
  | .done => some none
  | .failed failure => some (some (a.reported failure))
  | .claimed | .ready | .found | .authorized _ | .awaiting .. => none

end Attempt

/-- What has become of a request. -/
inductive RequestState where
  /-- On its way. -/
  | inflight
  /-- Carried out. -/
  | applied
  /-- Explicitly refused. -/
  | refused
  /-- Lost on its way, without effect. -/
  | lost
  /-- Lost, and recorded absent by an operator since. -/
  | absent
deriving DecidableEq

/-- A writing request of an attempt, and the object it leaves when it is carried out. -/
structure RemoteRequest where
  id : Id
  operationId : Id
  kind : DeliveryKind
  role : RequestRole
  state : RequestState

/-- The outbox, the processes at work and the remote side. -/
structure Outbox where
  operations : Table Delivery.id
  attempts : Table Attempt.id
  requests : Table RemoteRequest.id
  now : Instant

namespace Outbox

/-- Where nothing has happened yet. -/
def initial : Outbox := ⟨.empty _, .empty _, .empty _, 0⟩

variable (s : Outbox) (attemptId : Id) (maxAttempts backoff : Nat) (id : Id) (d : Delivery)

/-- The remote objects that carry the marker of an operation.  Labels and edits leave
none. -/
def objects (operationId : Id) : List RemoteRequest :=
  s.requests.rows.filter fun r => r.operationId == operationId && r.state == .applied
    && (r.role == .effect && r.kind.reconciles)

/-- The branches that were made for an operation. -/
def branches (operationId : Id) : List RemoteRequest :=
  s.requests.rows.filter fun r => r.operationId == operationId && r.state == .applied
    && r.role == .branch

/-- Whether a change has its branch.  An amendment goes to the branch of its pull request. -/
def hasBranch (operationId : Id) : Bool :=
  ((s.operations.find? operationId).any fun d => d.payload.forgeItemId.isSome)
    || !(s.branches operationId).isEmpty

/-- Move an attempt to another phase. -/
def setPhase (phase : AttemptPhase) : Outbox :=
  { s with attempts := s.attempts.modify id (fun a => { a with phase }) fun _ => rfl }

/-- End an attempt. -/
def endAttempt : Outbox := { s with attempts := s.attempts.restrict (·.id != id) }

/-- Change an operation. -/
def change (f : Delivery → Delivery) (hf : ∀ d, (f d).id = d.id) : Outbox :=
  { s with operations := s.operations.modify id f hf }

/-- Record what has become of a request. -/
def setRequest (state : RequestState) : Outbox :=
  { s with requests := s.requests.modify id (fun r => { r with state }) fun _ => rfl }

/-! ## Claiming -/

/-- Whether an earlier operation of the same target is unsettled. -/
def isBlocked : Bool :=
  s.operations.rows.any fun p => p.status.blocks && (p.target.isSome && p.target == d.target)
    && p.precedes d

/-- The operation that is claimed next. -/
def nextDelivery : Option Delivery :=
  ((s.operations.rows.filter fun d => !s.isBlocked d && d.isReady s.now).insertionSort
    (Delivery.claimsBefore · ·)).head?

/-- The lease of a claimed operation. -/
def leased (owner : Id) (d : Delivery) : Delivery :=
  { d with status := .running, leaseOwner := some owner, leaseEpoch := d.leaseEpoch + 1
           leaseExpiresAt := some (s.now + 300), retryCount := d.retryCount + 1 }

/-- The attempt that a claim begins.  What was under way, or is uncertain, may only be
reconciled. -/
def claimOf (owner attemptId : Id) : Attempt :=
  { id := attemptId, owner, operationId := d.id, kind := d.kind, epoch := d.leaseEpoch + 1
    reconcileOnly := d.status == .uncertain || d.status == .running
    retryCount := d.retryCount + 1, deferredAttempts := d.deferredAttempts, phase := .claimed }

/-- `_claim_operation`. -/
def claimOperation (owner attemptId : Id) : Option Outbox := do
  let d ← s.nextDelivery
  let attempts ← s.attempts.insertNew (claimOf d owner attemptId)
  pure { s.change d.id (s.leased owner) fun _ => rfl with attempts }

/-! ## Delivering -/

/-- The failure of an attempt that may only reconcile and finds nothing.  Labels and edits are
applied again. -/
def unobserved (a : Attempt) : Option ConnectorFailure :=
  match a.kind with
  | .zulipPost => some { code := "zulip_post_outcome_uncertain", uncertain := true }
  | .forgeReview => some { code := "review_outcome_uncertain", uncertain := true }
  | .forgeMerge => some { code := "merge_outcome_uncertain", uncertain := true }
  | .forgeCreate => some { code := "forge_creation_outcome_uncertain", uncertain := true }
  | .forgeComment => some { code := "forge_comment_outcome_uncertain", uncertain := true }
  | .forgeChange =>
    if s.hasBranch a.operationId then
      some { code := "change_branch_prepared_without_commit_reauthorize_retry" }
    else some { code := "change_branch_not_observed_reauthorize_retry" }
  | .forgeLabel | .forgeEdit => none

/-- Look for what an earlier attempt has left.  A merge, a label or an edit may have been
made by someone else.  A created item that is found still gets its labels, also by an attempt
that may only reconcile. -/
def lookUp (external : Bool) : Option Outbox := do
  let a ← s.attempts.find? attemptId
  match a.phase with
  | .claimed =>
    if !(s.objects a.operationId).isEmpty
        || external && (a.kind == .forgeMerge || !a.kind.reconciles) then
      pure (s.setPhase attemptId (if a.kind = .forgeCreate then .found else .done))
    else
      match if a.reconcileOnly then s.unobserved a else none with
      | some failure => pure (s.setPhase attemptId (.failed failure))
      | none => pure (s.setPhase attemptId .ready)
  | _ => none

/-- An attempt fails on its own, by a reading request or a check: before its request, or
after the outcome is there. -/
def fail (failure : ConnectorFailure) : Option Outbox := do
  let a ← s.attempts.find? attemptId
  match a.phase with
  | .claimed | .ready | .found | .authorized _ | .done =>
    pure (s.setPhase attemptId (.failed failure))
  | .awaiting .. | .failed _ => none

/-- The requests that an attempt may send next. -/
def mayWrite (a : Attempt) (role : RequestRole) : Bool :=
  match a.phase, role with
  | .ready, .effect | .found, .label => true
  | .ready, .branch => a.kind == .forgeChange && !s.hasBranch a.operationId
  | _, _ => false

/-- `_authorize_mutation`, right before every writing request. -/
def authorizeMutation (role : RequestRole) : Option Outbox := do
  let a ← s.attempts.find? attemptId
  let d ← s.operations.find? a.operationId
  if s.mayWrite a role then
    if d.status = .running ∧ d.isHeldBy s.now a.owner a.epoch then
      pure (s.setPhase attemptId (.authorized role))
    else pure (s.setPhase attemptId (.failed { code := "delivery_fenced" }))
  else none

/-- Send the writing request. -/
def send (attemptId requestId : Id) : Option Outbox := do
  let a ← s.attempts.find? attemptId
  match a.phase with
  | .authorized role =>
    let requests ← s.requests.insertNew ⟨requestId, a.operationId, a.kind, role, .inflight⟩
    pure { s.setPhase attemptId (.awaiting role requestId) with requests }
  | _ => none

/-- The remote side carries a request out or refuses it, or the request gets lost. -/
def remote (requestId : Id) (state : RequestState) : Option Outbox := do
  let r ← s.requests.find? requestId
  if r.state = .inflight ∧ (state = .applied ∨ state = .refused ∨ state = .lost) then
    pure (s.setRequest requestId state)
  else none

/-- The answer reaches its attempt.  A label that cannot be made because it exists is no
failure. -/
def answer (isLast : Bool) : Option Outbox := do
  let a ← s.attempts.find? attemptId
  match a.phase with
  | .awaiting role requestId =>
    let r ← s.requests.find? requestId
    if r.state = .applied
        ∨ r.state = .refused ∧ isLast = false ∧ (role = .label ∨ a.kind = .forgeLabel) then
      pure (s.setPhase attemptId (a.proceed isLast role))
    else none
  | _ => none

/-- The labels of a created item are set. -/
def finish : Option Outbox := do
  let a ← s.attempts.find? attemptId
  match a.phase with
  | .found => pure (s.setPhase attemptId .done)
  | _ => none

/-- A refusal reaches its attempt. -/
def refusal (code : String) (transient : Bool) (retryAfter : Nat) : Option Outbox := do
  let a ← s.attempts.find? attemptId
  match a.phase with
  | .awaiting _ requestId =>
    let r ← s.requests.find? requestId
    match r.state with
    | .refused => pure (s.setPhase attemptId (.failed { code, transient, retryAfter }))
    | _ => none
  | _ => none

/-- No usable answer reaches the attempt in time. -/
def noAnswer (code : String) : Option Outbox := do
  let a ← s.attempts.find? attemptId
  match a.phase with
  | .awaiting .. =>
    pure (s.setPhase attemptId (.failed { code, transient := true, uncertain := true }))
  | _ => none

/-! ## Settling -/

/-- The failures that only put an operation off. -/
def isDeferral (failure : ConnectorFailure) : Bool :=
  failure.code == "discussion_not_current" || failure.code == "connector_stopping"

/-- Whether an attempt was the last one an operation gets. -/
def isExhausted (maxAttempts : Nat) (a : Attempt) (failure : ConnectorFailure) : Bool :=
  decide (maxAttempts ≤ a.retryCount) && !isDeferral failure

/-- The status after a failure.  Uncertain side effects stay visible and reconcilable; they
are never resent blindly. -/
def failedStatus (maxAttempts : Nat) (a : Attempt) (failure : ConnectorFailure) : DeliveryStatus :=
  if failure.uncertain || a.reconcileOnly then .uncertain
  else if failure.transient && !isExhausted maxAttempts a failure then .pending
  else .failed

/-- The wait before the next attempt, with a random backoff. -/
def retryDelay (a : Attempt) (failure : ConnectorFailure) : Nat :=
  let delay := max (max failure.retryAfter (if isDeferral failure then 5 else 0)) backoff
  if isExhausted maxAttempts a failure then max delay 300 else delay

/-- The operation as `_settle_operation` leaves it. -/
def settled (a : Attempt) (outcome : Option ConnectorFailure) (d : Delivery) : Delivery :=
  { d with
    status := (outcome.map (failedStatus maxAttempts a)).getD .completed
    retryAt := outcome.map fun failure => s.now + retryDelay maxAttempts backoff a failure
    deferredAttempts := if outcome.any isDeferral then a.deferredAttempts + 1 else 0
    leaseOwner := none
    leaseExpiresAt := none
    retryCount := a.retryCount - if outcome.any isDeferral then 1 else 0 }

/-- `_settle_operation`, which ends the attempt.  An attempt whose lease has expired or went
to another one changes nothing. -/
def settleOperation (attemptId : Id) : Option Outbox := do
  let a ← s.attempts.find? attemptId
  let d ← s.operations.find? a.operationId
  let outcome ← a.outcome
  if d.isHeldBy s.now a.owner a.epoch then
    pure
      ((s.change d.id (s.settled maxAttempts backoff a outcome) fun _ => rfl).endAttempt attemptId)
  else pure (s.endAttempt attemptId)

/-! ## Commands -/

/-- An operation as a command leaves it. -/
def commanded (status : DeliveryStatus) (d : Delivery) : Delivery :=
  { d with status, retryAt := none, deferredAttempts := 0, leaseOwner := none,
           leaseExpiresAt := none }

/-- `retry_delivery` and `cancel_delivery`. -/
def redirect (status : DeliveryStatus) (id : Id) : Option Outbox := do
  let d ← s.operations.find? id
  if d.status = .pending ∨ d.status = .failed then
    pure (s.change id (commanded status) fun _ => rfl)
  else none

/-- `retry_delivery`. -/
def retryDelivery : Id → Option Outbox := s.redirect .pending

/-- `cancel_delivery`. -/
def cancelDelivery : Id → Option Outbox := s.redirect .cancelled

/-- `reconcile_delivery_absent`: an administrator has found nothing on the remote side. -/
def reconcileDeliveryAbsent : Option Outbox := do
  let d ← s.operations.find? id
  if d.status = .uncertain then
    pure { s.change id (commanded .failed) fun _ => rfl with
      requests := s.requests.updateWhere (fun r => r.operationId == id && r.state == .lost)
        (fun r => { r with state := .absent }) fun _ => rfl }
  else none

/-- A new operation. -/
def queue : Option Outbox := do
  if d.status = .pending ∧ d.retryCount = 0 ∧ d.leaseEpoch = 0 ∧ d.leaseExpiresAt = none
      ∧ d.createdAt ≤ s.now then
    let operations ← s.operations.insertNew d
    pure { s with operations }
  else none

end Outbox

/-- What happens around the outbox. -/
inductive OutboxStep where
  | queue (d : Delivery)
  | claim (owner attemptId : Id)
  | lookUp (attemptId : Id) (external : Bool)
  | fail (attemptId : Id) (failure : ConnectorFailure)
  | authorize (attemptId : Id) (role : RequestRole := .effect)
  | send (attemptId requestId : Id)
  | remote (requestId : Id) (state : RequestState)
  | answer (attemptId : Id) (isLast : Bool)
  | finish (attemptId : Id)
  | refusal (attemptId : Id) (code : String) (transient : Bool) (retryAfter : Nat)
  | noAnswer (attemptId : Id) (code : String)
  | settle (backoff : Nat) (attemptId : Id)
  /-- The process of an attempt stops. -/
  | crash (attemptId : Id)
  | retry (id : Id)
  | cancel (id : Id)
  | recordAbsent (id : Id)
  | advance (elapsed : Nat)

/-- One step. -/
def Outbox.next (maxAttempts : Nat) (s : Outbox) : OutboxStep → Option Outbox
  | .queue d => s.queue d
  | .claim owner attemptId => s.claimOperation owner attemptId
  | .lookUp attemptId external => s.lookUp attemptId external
  | .fail attemptId failure => s.fail attemptId failure
  | .authorize attemptId role => s.authorizeMutation attemptId role
  | .send attemptId requestId => s.send attemptId requestId
  | .remote requestId state => s.remote requestId state
  | .answer attemptId isLast => s.answer attemptId isLast
  | .finish attemptId => s.finish attemptId
  | .refusal attemptId code transient retryAfter => s.refusal attemptId code transient retryAfter
  | .noAnswer attemptId code => s.noAnswer attemptId code
  | .settle backoff attemptId => s.settleOperation maxAttempts backoff attemptId
  | .crash attemptId => some (s.endAttempt attemptId)
  | .retry id => s.retryDelivery id
  | .cancel id => s.cancelDelivery id
  | .recordAbsent id => s.reconcileDeliveryAbsent id
  | .advance elapsed => some { s with now := s.now + elapsed }

/-- The runs of the outbox, its connector processes and the remote side. -/
def outbox (maxAttempts : Nat) : System Outbox OutboxStep :=
  .ofFun .initial (Outbox.next maxAttempts)

end Horizon
