import Horizon.Review.Invocations

/-!
# Native observations

`providers/provider_events.py`: the projection of a native stream event onto the
child contexts, requests and reservations it reports.  `normalize` has already
read the children and the usage samples off the raw event; usage records are not
modelled.
-/

namespace Horizon

open Transaction

/-- A native child as one event reports it. -/
structure ChildObservation where
  key : NativeId
  status : RequestStatus
  invocationId : Option NativeId := none
  knownOnly : Bool := false
  parentKey : Option NativeId := none
  background : Option Bool := none
  invocationRef : Option Id := none
  label : Option String := none
  description : Option String := none
  nativeId : Option NativeId := none
deriving DecidableEq

/-- Whether an error is a domain error, which a savepoint catches. -/
def Error.isDomain : Error → Bool
  | .domain _ _ _ => true
  | .integrity _ => false

namespace DB

variable (db : DB)

/-- The request of a context with the largest number. -/
def lastRequest (threadId : Id) : Option ProviderRequest :=
  ((db .providerRequest).rows.filter (·.providerThreadId == threadId)).foldl
    (fun best r => if best.all (·.number ≤ r.number) then some r else best) none

/-- The child context an observation is about, by its state reference or, for
Codex, its native identifier. -/
def observedThread (parent : ProviderThread) (adapter : Adapter) (o : ChildObservation) :
    Option ProviderThread :=
  (db .providerThread).rows.find? fun t => t.assignmentId == parent.assignmentId && t.kind == .child
    && (t.providerStateRef == .nativeChild parent.id adapter o.key
      || (adapter == .codexExec && t.providerThreadId == some (o.nativeId.getD o.key)))

/-- The context of the prepared review a known-only Codex notification is labelled
with. -/
def labelledThread (execution : Execution) (parent : ProviderThread) (o : ChildObservation) :
    Option ProviderThread :=
  o.key.invocationRef.bind fun reference =>
    ((db .providerRequest).find? reference).bind fun request =>
      ((db .providerThread).find? request.providerThreadId).bind fun t =>
        if request.executionId == execution.id && request.reason == .review && t.kind == .child
            && t.assignmentId == parent.assignmentId && t.providerThreadId.isSome
            && o.nativeId.all (some · == t.providerThreadId)
            && (t.parentRequestId.bind (db .providerRequest).find?).any (fun p =>
              p.providerThreadId == parent.id && p.executionId == execution.id) then some t
        else none

/-- The child context an observation is already recorded under. -/
def recordedThread (execution : Execution) (parent : ProviderThread) (adapter : Adapter)
    (o : ChildObservation) : Option ProviderThread :=
  (db.observedThread parent adapter o).orElse fun _ =>
    if adapter = .codexExec ∧ o.knownOnly then db.labelledThread execution parent o else none

/-- The request a child was spawned by: that of a nested parent, or the root one. -/
def spawningRequest (parent : ProviderThread) (root : ProviderRequest) (adapter : Adapter)
    (o : ChildObservation) : Except Error Id :=
  match o.parentKey.bind fun key => (db .providerThread).rows.find? fun t =>
      t.assignmentId == parent.assignmentId
        && t.providerStateRef == .nativeChild parent.id adapter key with
  | none => pure root.id
  | some nested =>
    match db.lastRequest nested.id with
    | some request => pure request.id
    | none => .error (.integrity .providerRequest)

/-- The request of a child an observation is about: the one with its native call,
or the last one. -/
def observedRequest (child : ProviderThread) (o : ChildObservation) : Option ProviderRequest :=
  (o.invocationId.bind fun invocation => (db .providerRequest).rows.find? fun r =>
    r.providerThreadId == child.id && r.providerTurnId == some invocation).orElse fun _ =>
      db.lastRequest child.id

end DB

variable (env : Env)
  (execution : Execution) (parent : ProviderThread) (child : ProviderThread) (o : ChildObservation)

/-- Bind a labelled observation to its prepared review.  A mismatch does not hide
the provider work. -/
def registerReview (adapter : Adapter) (o : ChildObservation) : Tx Unit := do
  let db ← get
  match o.invocationRef.bind (db .providerRequest).find? with
  | none => pure ()
  | some request =>
    if request.executionId = execution.id ∧ request.reason = .review then
      let _ ← savepoint Error.isDomain
        (bindNative env execution parent request.id adapter (o.nativeId.getD o.key) o.invocationId
          o.background)

/-- The recorded or newly created context of an observed child. -/
def spawnedChild (root : ProviderRequest) (adapter : Adapter)
    (o : ChildObservation) (recorded : Option ProviderThread) : Tx ProviderThread := do
  let spawnedBy ← query fun db => db.spawningRequest parent root adapter o
  match recorded with
  | some thread => pure thread
  | none =>
    createChild env parent spawnedBy (.nativeChild parent.id adapter o.key)
      (if adapter = .codexExec then some (o.nativeId.getD o.key) else none) .available

/-- A reported label and description are kept on a child. -/
def describeChild : Tx ProviderThread := do
  let label := o.label.orElse fun _ => child.label
  let description := o.description.orElse fun _ => child.description
  if label = child.label ∧ description = child.description then pure child
  else change env .providerThread child.id none fun t =>
    { t with label := label, description := description }

/-- A reported native identifier is kept on an unregistered child. -/
def identifyChild (parent child : ProviderThread) (adapter : Adapter) (o : ChildObservation) :
    Tx ProviderThread := do
  let db ← get
  let ref := StateRef.nativeChild parent.id adapter o.key
  match o.nativeId with
  | none => pure child
  | some native =>
    if (db.lastRequest child.id).any (·.reviewerDescriptorId.isSome)
        || (child.providerStateRef == ref && child.providerThreadId == some native) then pure child
    else change env .providerThread child.id none fun t =>
      { t with providerStateRef := ref, providerThreadId := some native }

/-- The request of a child, moved to the observed status. -/
def projectRequest
    (request : Option ProviderRequest) (observed : Instant) : Tx ProviderRequest := do
  let db ← get
  let fresh : Tx ProviderRequest :=
    create .providerRequest
      { id := env.uuid ((db .providerRequest).rows.map (·.id)), createdAt := env.now
        providerThreadId := child.id, executionId := execution.id
        number := nextNumber (·.number) (·.providerThreadId == child.id) (db .providerRequest).rows
        reason := .continuation, reviewerDescriptorId := none, providerTurnId := o.invocationId
        nativeBackground := o.background, status := o.status, submittedAt := some observed
        startedAt := some observed
        finishedAt := if o.status.isUnsettled then none else some observed, failure := none }
  match request with
  | none => fresh
  | some request =>
    if o.invocationId.isSome ∧ o.invocationId ≠ request.providerTurnId
        ∧ ¬ request.status.isUnsettled then fresh
    else if ¬ o.status.isUnsettled ∧ request.status.isUnsettled
        ∧ request.startedAt.all (· ≤ observed) then
      change env .providerRequest request.id none fun r =>
        { r with status := o.status, finishedAt := some observed }
    else if o.status = .running ∧ (request.status = .pending ∨ request.status = .submitted) then
      change env .providerRequest request.id none fun r =>
        { r with status := .running, startedAt := some observed
                 providerTurnId := request.providerTurnId.orElse fun _ => o.invocationId }
    else pure request

/-- Whether an observation only confirms a child it may not move: one of another
execution, or a Claude background task whose result is still to come. -/
def DB.confirmsOnly (adapter : Adapter) (o : ChildObservation)
    (request : ProviderRequest) : Option Bool :=
  if o.knownOnly ∧ request.executionId ≠ execution.id then some false
  else if adapter = .claudeExec ∧ o.knownOnly ∧ o.status = .completed
      ∧ request.nativeBackground ≠ some false then some true
  else none

/-- The request of a child an observation is about, with the reported background flag. -/
def observedTurn : Tx (Option ProviderRequest) := do
  let db ← get
  match db.observedRequest child o with
  | none => pure none
  | some request =>
    if o.background.isSome ∧ request.nativeBackground.isNone then
      some <$> change env .providerRequest request.id none fun r =>
        { r with nativeBackground := o.background }
    else pure (some request)

/-- `_child`: project one observed child.  The result says whether it was recorded. -/
def projectChild (root : ProviderRequest)
    (adapter : Adapter) (observed : Instant) (o : ChildObservation) : Tx Bool := do
  registerReview env execution parent adapter o
  let db ← get
  let recorded := db.recordedThread execution parent adapter o
  if recorded.isNone && o.knownOnly then pure false
  else
    let child ← spawnedChild env parent root adapter o recorded
    let child ← describeChild env child o
    let child ← identifyChild env parent child adapter o
    let request ← observedTurn env child o
    match request.bind (DB.confirmsOnly execution adapter o), request with
    | some false, _ => pure false
    | some true, some request =>
      accountObservedChild env execution request observed
      pure true
    | _, request =>
      let request ← projectRequest env execution child o request observed
      accountObservedChild env execution request observed
      pure true

/-- Project the children of an event; the result lists the keys that were recorded. -/
def projectChildren (execution : Execution) (parent : ProviderThread) (root : ProviderRequest)
    (adapter : Adapter) (observed : Instant) : List ChildObservation → Tx (List NativeId)
  | [] => pure []
  | o :: os => do
    let recorded ← projectChild env execution parent root adapter observed o
    let keys ← projectChildren execution parent root adapter observed os
    pure (if recorded then o.key :: keys else keys)

/-- `project_observation`: project the children of an event, and the ones its usage
samples name. -/
def projectObservation (thread : ProviderThread) (requestId : Id)
    (adapter : Adapter) (children : List ChildObservation) (usageKeys : List NativeId)
    (observed : Instant) : Tx Unit := do
  let request ← getRecord .providerRequest requestId
  if request.executionId ≠ execution.id ∨ request.providerThreadId ≠ thread.id then
    raise (.domain .scopeMismatch "Provider observation belongs to another request" 422)
  else if adapter = .codexAppServer ∨ thread.adapter ≠ adapter then
    raise (.domain .adapterMismatch "Provider observation must use the pinned adapter" 422)
  else
    let keys ← projectChildren env execution thread request adapter observed children
    each (fun key => do
      let _ ← projectChild env execution thread request adapter observed
        { key := key, status := .running }) (usageKeys.filter (!keys.contains ·))

end Horizon
