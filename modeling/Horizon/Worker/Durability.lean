import Horizon.Worker.Leases
import Horizon.Worker.Operations

/-!
# Journal durability

What a host keeps of an operation, whatever its deliverers, its compaction and the pruning
of its diagnostics do in between.  Each transaction does one of four things to the
operations (`Journal.Operates`); what every step of a run keeps follows from that.

An acknowledged operation is not claimed again for as long as the journal remembers it.
Compaction forgets it, and an operation that is then enqueued once more is delivered once
more (`acknowledged_claimed_again`).
-/

namespace Horizon

open Transaction Table List

variable {e : JournalEntry} {now retryAt seconds horizon : Int} {token id : Id} {j j' : Journal}
  {step : DiagnosedStep} {s s' : DiagnosedHost} {p : JournalEntry → Bool}
  {f : JournalEntry → JournalEntry} {error : Option String} {state : DeliveryState}
  {r : LocalRequest}
  {clock : HostClock} {epoch : Nat} {destination : Destination}

/-! ## Diagnostics -/

namespace Journal

/-- The operations of an execution under one epoch. -/
def operationsOf (j : Journal) (executionId : Id) (epoch : Nat) : List JournalEntry :=
  j.operations.rows.filter fun e =>
    e.envelope.executionId == executionId && e.envelope.epoch == epoch

/-- Whether `prune_diagnostics` removes the logs of a request: its execution has stopped and
needs no recovery, and everything the journal still holds of that epoch was acknowledged,
the stop receipt long enough ago. -/
def isPrunable (j : Journal) (tombstones : List Id) (now retention failureRetention : Int)
    (r : LocalRequest) : Bool :=
  (r.state == .completed || r.state == .failed || r.state == .interrupted)
    && !tombstones.contains r.requestId
    && j.executions.rows.any fun x => x.executionId == r.executionId && x.epoch == r.epoch
      && x.status != .running && !x.checkpoint.recoveryPending
      && (j.operationsOf r.executionId r.epoch).all (·.state == .acknowledged)
      && (j.operationsOf r.executionId r.epoch).any (·.envelope.payload.isFinish)
      && (j.operationsOf r.executionId r.epoch).all fun e => !e.envelope.payload.isFinish
        || e.acknowledgedAt.all fun at_ =>
          decide (at_ ≤ now - if x.status = .ended .succeeded then retention else failureRetention)

/-- `prune_diagnostics`: the requests whose logs are gone. -/
def pruneDiagnostics (j : Journal) (tombstones : List Id) (now retention failureRetention : Int) :
    List Id :=
  tombstones ++
    (j.requests.rows.filter (j.isPrunable tombstones now retention failureRetention)).map
    (·.requestId)

end Journal

/-- A host with `diagnostic_tombstones`, the requests whose logs are gone. -/
structure DiagnosedHost where
  host : WorkerHost
  tombstones : List Id

inductive DiagnosedStep where
  | host (step : HostStep)
  | prune (retention failureRetention : Int)

/-- A compaction asks the tombstones which logs are still there. -/
def HostStep.over (tombstones : List Id) : HostStep → HostStep
  | compact before _ => compact before fun r => !tombstones.contains r.requestId
  | step => step

namespace DiagnosedHost

abbrev journal (s : DiagnosedHost) : Journal := s.host.journal

def next (s : DiagnosedHost) : DiagnosedStep → Option DiagnosedHost
  | .host step => (s.host.next (step.over s.tombstones)).map fun host => { s with host }
  | .prune retention failureRetention =>
    some { s with tombstones :=
      s.journal.pruneDiagnostics s.tombstones s.host.clock.wall retention failureRetention }

def initial : DiagnosedHost := ⟨.initial, []⟩

end DiagnosedHost

/-- The runs of a host with its diagnostics. -/
def diagnosedHost : System DiagnosedHost DiagnosedStep := .ofFun .initial DiagnosedHost.next

abbrev DiagnosedHost.Runs : DiagnosedHost → DiagnosedHost → Prop :=
  diagnosedHost.RunsBy fun _ _ => True

/-! ## What a transaction does to the operations -/

namespace Journal

/-- No acknowledged operation is claimed. -/
def Unclaimed (j : Journal) : Prop :=
  ∀ e ∈ j.operations, e.state = .acknowledged → e.claimToken = none

/-- The four things a transaction may do to the operations; only a compaction forgets. -/
inductive Operates (compacts : Prop) (j j' : Journal) : Prop
  | reworked (h : j.Reworked j')
  | acknowledges (id : Id) (h : j.Acknowledges id j')
  | enqueues (row : JournalEntry) (hstate : row.state = .pending)
      (hrows : j'.operations.rows = j.operations.rows ++ [row])
  | forgets (hc : compacts) (p : JournalEntry → Bool)
      (hp : ∀ e ∈ j.operations, e.state ≠ .acknowledged → p e)
      (h : j'.operations = j.operations.restrict p)

variable {compacts : Prop}

theorem Operates.unclaimed (h : Operates compacts j j') (hj : j.Unclaimed) : j'.Unclaimed := by
  intro e' he' hack
  cases h with
  | reworked h => exact hj e' ((h.mem_iff hack).mp he') hack
  | acknowledges id h => exact h.unclaimed e' he' hack
  | enqueues row hstate hrows =>
    rw [mem_def, hrows, mem_append, mem_singleton] at he'
    rcases he' with he | rfl
    · exact hj e' he hack
    · cases hstate.symm.trans hack
  | forgets _ p _ h =>
    rw [h, mem_restrict] at he'
    exact hj e' he'.1 hack

/-- An operation is kept, or it was acknowledged and a compaction forgets it. -/
theorem Operates.kept_or_forgotten (h : Operates compacts j j') (he : e ∈ j.operations) :
    (∃ e' ∈ j'.operations, e.Keeps e') ∨ compacts ∧ e.state = .acknowledged := by
  cases h with
  | reworked h | acknowledges id h => exact .inl (h.retains e he)
  | enqueues row hstate hrows =>
    refine .inl ⟨e, ?_, .refl e, fun _ => rfl⟩
    rw [mem_def, hrows]
    exact mem_append_left _ he
  | forgets hc p hp h =>
    rw [h]
    by_cases hpe : p e
    · exact .inl ⟨e, mem_restrict.mpr ⟨he, hpe⟩, .refl e, fun _ => rfl⟩
    · exact .inr ⟨hc, not_not.mp fun hstate => hpe (hp e he hstate)⟩

/-- Transactions that leave the operations alone. -/
def SameOperations (j j' : Journal) : Prop := j'.operations = j.operations

instance : Std.Refl SameOperations := ⟨fun _ => rfl⟩

instance : IsTrans Journal SameOperations := ⟨fun _ _ _ h h' => h'.trans h⟩

theorem updateExecutions_sameOperations {p : LocalExecution → Bool}
    {f : LocalExecution → LocalExecution} {hf : ∀ e, (f e).executionId = e.executionId} :
    Keeps SameOperations (updateExecutions p f hf) := by
  rintro _ _ _ ⟨⟩
  rfl

theorem insertExecution_sameOperations {row : LocalExecution} :
    Keeps SameOperations (insertExecution row) := by
  intro s _ s' h
  rw [insertExecution] at h
  split at h
  · cases h; rfl
  · cases h

theorem grantLease_sameOperations : Keeps SameOperations (grantLease clock id epoch seconds) := by
  refine .guard <| .read fun j => ?_
  dsimp only
  split
  · exact insertExecution_sameOperations
  · refine .guard <| .guard ?_
    exact .done updateExecutions_sameOperations

theorem checkpoint_sameOperations {value : Checkpoint} :
    Keeps SameOperations (checkpoint id epoch value) := by
  refine .guard <|
    .bind updateExecutions_sameOperations fun _ => ?_
  exact .guard .pure

theorem resolveClaim_sameOperations {executionId : Option Id} :
    Keeps SameOperations (resolveClaim clock id executionId epoch seconds) :=
  resolveClaim_keeps (fun _ _ => rfl) fun _ _ => insertExecution_sameOperations

end Journal

/-- The steps that are not about operations. -/
def HostStep.sparesOperations : HostStep → Bool
  | enqueue .. | claim .. | settle .. | renewDelivery .. | retryPublication .. | compact .. => false
  | _ => true

theorem HostStep.action_sameOperations {step : HostStep}
    (h : step.sparesOperations) : Keeps Journal.SameOperations (step.action clock) := by
  cases step with
  | enqueue | claim | settle | renewDelivery | retryPublication | compact => cases h
  | grantLease => exact Journal.grantLease_sameOperations
  | checkpoint => exact Journal.checkpoint_sameOperations
  | fence => exact .done Journal.updateExecutions_sameOperations
  | claimAttempt => exact .done (Journal.claimAttempt_keeps fun _ _ => rfl)
  | abandonClaim => exact Journal.abandonClaim_keeps fun _ _ => rfl
  | resolveClaim => exact .done Journal.resolveClaim_sameOperations
  | beginRequest => exact .done (Journal.beginRequest_keeps fun _ _ => rfl)
  | finishRequest =>
    refine .ite (fun _ => ?_) fun _ => .raise
    rintro _ _ _ ⟨⟩
    rfl
  | advance | reboot | restart => exact .pure

/-- Every step of a host operates on its journal. -/
theorem HostStep.action_operates (hj : j.Unclaimed) (step : HostStep) :
    Ensures (step.action clock) j fun _ j' =>
      Journal.Operates (∃ before hasDiagnostics, step = .compact before hasDiagnostics) j j' := by
  cases step with
  | enqueue _ id _ _ =>
    refine ensures_bind.mpr (Journal.enqueue_cases.mono fun _ j' h => .pure ?_)
    rcases h with rfl | ⟨-, row, -, -, hstate, hrows⟩
    · exact .reworked (.of_eq rfl)
    · exact .enqueues row hstate hrows
  | claim =>
    exact ensures_bind.mpr
      (Journal.claim_reworked.mono fun _ _ h => .pure (.reworked h.1))
  | settle id _ state =>
    by_cases hstate : state = .acknowledged
    · subst hstate
      exact (Journal.settle_acknowledges hj).mono fun _ _ h => .acknowledges id h
    · exact (Journal.settle_reworked hj hstate).mono fun _ _ h => .reworked h
  | renewDelivery =>
    exact ensures_bind.mpr
      (Journal.renewDelivery_reworked.mono fun _ _ h => .pure (.reworked h))
  | retryPublication => exact Journal.retryPublication_reworked.mono fun _ _ h => .reworked h
  | compact _ _ =>
    rintro _ _ ⟨⟩
    refine .forgets ⟨_, _, rfl⟩ _ (fun e _ hstate => ?_) rfl
    simp [hstate]
  | _ =>
    exact (HostStep.action_sameOperations rfl j).mono fun _ _ h => .reworked (.of_eq h)

namespace DiagnosedHost

/-- A step of a host is a transaction of its journal, or leaves the journal alone. -/
theorem next_cases (h : s.next step = some s') :
    s'.journal = s.journal ∨ ∃ step₀ r, step = .host step₀ ∧ s'.tombstones = s.tombstones ∧
      (step₀.over s.tombstones).action s.host.clock s.journal = .ok (r, s'.journal) := by
  cases step with
  | prune => cases h; exact .inl rfl
  | host step =>
    simp only [next, WorkerHost.next, Option.map_eq_some_iff] at h
    obtain ⟨_, ⟨clock, _, rfl⟩, rfl⟩ := h
    cases hrun : (step.over s.tombstones).action s.host.clock s.journal with
    | error e => exact .inl (by simp [journal])
    | ok r => exact .inr ⟨step, r.1, rfl, rfl, by simp [journal, hrun]⟩

theorem next_operates (hs : s.journal.Unclaimed) (h : s.next step = some s') :
    Journal.Operates (∃ before hasDiagnostics, step = .host (.compact before hasDiagnostics))
      s.journal s'.journal := by
  rcases next_cases h with heq | ⟨step, r, rfl, -, hrun⟩
  · exact .reworked (.of_eq (by rw [heq]))
  · cases HostStep.action_operates hs _ _ _ hrun with
    | reworked h => exact .reworked h
    | acknowledges id h => exact .acknowledges id h
    | enqueues row hstate hrows => exact .enqueues row hstate hrows
    | forgets hc p hp h =>
      refine .forgets ?_ p hp h
      obtain ⟨before, hasDiagnostics, hc⟩ := hc
      cases step with
      | compact => exact ⟨_, _, rfl⟩
      | _ => cases hc

theorem unclaimed (hs : diagnosedHost.Reachable s) : s.journal.Unclaimed := by
  refine hs.invariant (I := fun s => s.journal.Unclaimed) ?_ fun s l s' h _ hstep => ?_
  · rintro _ rfl e he
    exact absurd he notMem_empty
  · exact (next_operates h hstep).unclaimed h

/-- An acknowledged operation stays as it is, unless the step is a compaction. -/
theorem acknowledged_kept (hs : diagnosedHost.Reachable s) (h : s.next step = some s')
    (he : e ∈ s.journal.operations) (hack : e.state = .acknowledged) :
    e ∈ s'.journal.operations ∨
      ∃ before hasDiagnostics, step = .host (.compact before hasDiagnostics) := by
  refine ((next_operates (unclaimed hs) h).kept_or_forgotten he).imp (fun hkept => ?_) And.left
  obtain ⟨e', he', hkeeps⟩ := hkept
  rwa [← hkeeps.kept hack]

end DiagnosedHost

/-! ## Claims and their tokens -/

namespace Journal

theorem updateOperations_eq {hf : ∀ e, (f e).operationId = e.operationId}
    (h : ∀ e ∈ j.operations, p e = false) : updateOperations p f hf j = .ok (0, j) := by
  have hrows : j.operations.rows.map (fun e => if p e then f e else e) = j.operations.rows := by
    refine (map_congr_left fun e he => ?_).trans (map_id _)
    rw [h e he]
    rfl
  have hcount : j.operations.rows.countP p = 0 := by
    refine countP_eq_zero.mpr fun e he hp => ?_
    rw [h e he] at hp
    cases hp
  change Except.ok (_, { j with operations := ⟨_, _⟩ }) = _
  simp only [hrows, hcount]

theorem updateOperations_mem {hf : ∀ e, (f e).operationId = e.operationId} :
    Ensures (updateOperations p f hf) j fun _ j' => ∀ e' ∈ j'.operations,
      ∃ e ∈ j.operations, (if p e then f e else e) = e' := by
  rintro _ _ ⟨⟩ e' he'
  exact (mem_updateWhere (e := hf)).mp he'

/-- The holder of a superseded claim token settles nothing. -/
theorem settle_superseded (h : ∀ e ∈ j.operations, e.operationId = id → e.claimToken ≠ some token) :
    ∃ failed, settle now id token state retryAt error j = .error failed := by
  rw [settle]
  split
  · exact ⟨_, rfl⟩
  · rw [bind_apply, updateOperations_eq fun e he => by simpa using h e he]
    exact ⟨_, rfl⟩

/-- Nor does it renew anything. -/
theorem renewDelivery_superseded
    (h : ∀ e ∈ j.operations, e.operationId = id → e.claimToken ≠ some token) :
    renewDelivery now seconds id token j = .ok (false, j) := by
  rw [renewDelivery, bind_apply, updateOperations_eq]
  · rfl
  · intro e he
    have hne := h e he
    simp only [Bool.and_eq_false_iff, beq_eq_false_iff_ne]
    exact .inl (not_and_or.mp fun hheld => hne hheld.1 hheld.2)

/-- A claim supersedes every other token of its operation. -/
theorem claim_token :
    Ensures (claim horizon now seconds destination token) j fun r j' => ∀ row, r = some row →
      ∀ e ∈ j'.operations, e.operationId = row.operationId → e.claimToken = some token := by
  rw [claim, ensures_bind]
  rintro _ _ -
  refine .read ?_
  split
  · rw [ensures_pure]
    rintro _ ⟨⟩
  · refine ensures_bind.mpr (updateOperations_mem.mono fun _ _ hmem => ?_)
    rw [ensures_pure]
    rintro _ ⟨⟩ e he hid
    obtain ⟨_, _, rfl⟩ := hmem e he
    split
    · rfl
    · rename_i hne
      rw [if_neg hne] at hid
      simp [hid] at hne

/-- Nothing that a stop receipt waits for is left. -/
structure Released (j : Journal) (envelope : WorkerOperation) : Prop where
  discovered : ∀ p ∈ j.operations, p.destination = .api → p.envelope.payload.isDiscovery →
    p.envelope.executionId = envelope.executionId → p.state = .acknowledged
  recovered : ∀ x ∈ j.executions, x.executionId = envelope.executionId → x.epoch = envelope.epoch →
    x.checkpoint.recoveryPending = false

theorem released_of_isHeldBack (hfinish : e.envelope.payload.isFinish)
    (h : j.isHeldBack e = false) : j.Released e.envelope := by
  simp only [isHeldBack, hfinish, Bool.true_and, Bool.or_eq_false_iff, any_eq_false,
    Bool.and_eq_true, beq_iff_eq, bne_iff_ne, ne_eq, not_and] at h
  constructor
  · intro p hp hdestination hdiscovery hid
    exact not_not.mp fun hstate => h.1 p hp ⟨⟨hdestination, hstate⟩, hdiscovery⟩ hid
  · intro x hx hid hepoch
    simpa using h.2 x hx ⟨hid, hepoch⟩

/-- A stop receipt is claimed only when nothing holds it back. -/
theorem claim_released :
    Ensures (claim horizon now seconds destination token) j fun r _ => ∀ row, r = some row →
      row.envelope.payload.isFinish → j.Released row.envelope := by
  rw [claim, ensures_bind]
  intro n j₁ h₁
  have hexecutions : j₁.executions = j.executions := by cases h₁; rfl
  have hreworked : j.Reworked j₁ := by
    refine updateOperations_reworked (fun e _ hp => ?_) _ _ h₁
    exact .of_ne ⟨rfl, rfl, rfl, rfl⟩ (isBeyondHorizon_state hp) (by simp)
  refine .read ?_
  cases hrow : j₁.operations.rows.find? (j₁.isDue destination now) with
  | none =>
    rw [ensures_pure]
    rintro _ ⟨⟩
  | some row =>
    rw [ensures_bind]
    rintro _ _ -
    rw [ensures_pure]
    rintro _ ⟨⟩ hfinish
    have hdue := find?_some hrow
    simp only [isDue, Bool.and_eq_true, Bool.not_eq_eq_eq_not, Bool.not_true] at hdue
    obtain ⟨hdiscovered, hrecovered⟩ := released_of_isHeldBack hfinish hdue.2
    refine ⟨fun p hp hdestination hdiscovery hid => ?_, hexecutions ▸ hrecovered⟩
    -- The sweep of the horizon acknowledges nothing.
    obtain ⟨p₁, hp₁, hr⟩ := hreworked.exists_mem hp
    have hack := hdiscovered p₁ hp₁ (hr.destination.trans hdestination)
      (hr.envelope ▸ hdiscovery) (hr.envelope ▸ hid)
    rwa [hr.not_new hack] at hack

/-! ## Evidence and age -/

/-- No evidence is moved to recovery. -/
def Unswept (j j' : Journal) : Prop :=
  ∀ e' ∈ j'.operations, e'.state = .recovery → e'.envelope.payload.isDurableEvidence →
    ∃ e ∈ j.operations, e.operationId = e'.operationId ∧ e.envelope = e'.envelope ∧
      e.state = .recovery

theorem Unswept.of_eq (h : j'.operations = j.operations) : j.Unswept j' := by
  intro e he hstate _
  exact ⟨e, h ▸ he, rfl, rfl, hstate⟩

instance : Std.Refl Unswept := ⟨fun _ => .of_eq rfl⟩

instance : IsTrans Journal Unswept where
  trans j j' j'' h h' := by
    intro e'' he'' hstate hevidence
    obtain ⟨e', he', hid', henvelope', hstate'⟩ := h' e'' he'' hstate hevidence
    obtain ⟨e, he, hid, henvelope, hstate₀⟩ := h e' he' hstate' (henvelope' ▸ hevidence)
    exact ⟨e, he, hid.trans hid', henvelope.trans henvelope', hstate₀⟩

theorem updateOperations_unswept {hf : ∀ e, (f e).operationId = e.operationId}
    (henvelope : ∀ e, (f e).envelope = e.envelope)
    (h : ∀ e, p e → e.envelope.payload.isDurableEvidence → (f e).state = .recovery →
      e.state = .recovery) : Keeps Unswept (updateOperations p f hf) := by
  intro j
  refine updateOperations_mem.mono fun _ j' hmem e' he' hstate hevidence => ?_
  obtain ⟨e, he, rfl⟩ := hmem e' he'
  by_cases hp : p e
  · rw [if_pos hp] at hstate hevidence ⊢
    exact ⟨e, he, (hf e).symm, (henvelope e).symm, h e hp (henvelope e ▸ hevidence) hstate⟩
  · rw [if_neg hp] at hstate ⊢
    exact ⟨e, he, rfl, rfl, hstate⟩

theorem claim_unswept : Keeps Unswept (claim horizon now seconds destination token) := by
  refine .bind (updateOperations_unswept (fun _ => rfl) fun e hp hevidence _ => ?_) fun _ =>
    .read fun j => ?_
  · simp [isBeyondHorizon, hevidence] at hp
  · split
    · exact .pure
    · refine .bind (updateOperations_unswept (fun _ => rfl) fun e _ _ hstate => ?_) fun _ =>
        .pure
      cases hstate

theorem retryPublication_unswept {note : Option String} :
    Keeps Unswept (retryPublication id note) := by
  refine .guard <| .read fun j => ?_
  split
  · exact .raise
  · refine .ite (fun _ => .done (updateOperations_unswept (fun _ => rfl) ?_))
      fun _ => .raise
    intro e _ _ hstate
    cases hstate

theorem renewDelivery_unswept : Keeps Unswept (renewDelivery now seconds id token) :=
  .done (updateOperations_unswept (fun _ => rfl) fun _ _ _ hstate => hstate)

theorem enqueue_unswept {refusal : Option String} {envelope : WorkerOperation} :
    Keeps Unswept (enqueue clock refusal id envelope destination) := by
  intro j
  refine enqueue_cases.mono fun _ j' h => ?_
  rcases h with rfl | ⟨-, row, -, -, hstate, hrows⟩
  · exact refl j'
  · intro e' he' hrecovery _
    rw [mem_def, hrows, mem_append, mem_singleton] at he'
    rcases he' with he | rfl
    · exact ⟨e', he, rfl, rfl, hrecovery⟩
    · cases hstate.symm.trans hrecovery

/-- A settlement moves an operation to recovery only for the holder of its claim. -/
theorem settle_recovery :
    Ensures (settle now id token state retryAt error) j fun _ j' => ∀ e' ∈ j'.operations,
      e'.state = .recovery → ∃ e ∈ j.operations, e.operationId = e'.operationId ∧
        (e.state = .recovery ∨
          state = .recovery ∧ e.operationId = id ∧ e.claimToken = some token) := by
  rw [settle]
  refine .guard fun _ => ?_
  refine ensures_bind.mpr (updateOperations_mem.mono fun _ j' hmem => ?_)
  refine .ite (fun _ => .raise) fun _ => .pure ?_
  intro e' he' hstate
  obtain ⟨e, he, rfl⟩ := hmem e' he'
  by_cases hp : (e.operationId == id && e.claimToken == some token)
  · rw [if_pos hp] at hstate ⊢
    simp only [Bool.and_eq_true, beq_iff_eq] at hp
    exact ⟨e, he, rfl, .inr ⟨hstate, hp⟩⟩
  · rw [if_neg hp] at hstate ⊢
    exact ⟨e, he, rfl, .inl hstate⟩

/-- Logs are removed only when the whole epoch was acknowledged, its stop receipt included. -/
theorem acknowledged_of_isPrunable {tombstones : List Id} {retention failureRetention : Int}
    (h : j.isPrunable tombstones now retention failureRetention r) :
    (∀ e ∈ j.operationsOf r.executionId r.epoch, e.state = .acknowledged) ∧
      ∃ e ∈ j.operationsOf r.executionId r.epoch, e.envelope.payload.isFinish := by
  simp only [isPrunable, Bool.and_eq_true, any_eq_true, all_eq_true, beq_iff_eq] at h
  obtain ⟨-, x, -, ⟨⟨-, hall⟩, hfinish⟩, -⟩ := h
  exact ⟨hall, hfinish⟩

end Journal

theorem HostStep.action_unswept {step : HostStep}
    (h : ∀ id token state retryAt error, step ≠ settle id token state retryAt error) :
    Keeps Journal.Unswept (step.action clock) := by
  cases step with
  | enqueue => exact .done Journal.enqueue_unswept
  | claim => exact .done Journal.claim_unswept
  | settle => exact absurd rfl (h _ _ _ _ _)
  | renewDelivery => exact .done Journal.renewDelivery_unswept
  | retryPublication => exact Journal.retryPublication_unswept
  | compact =>
    rintro _ _ _ ⟨⟩ e he hstate _
    exact ⟨e, (mem_restrict.mp he).1, rfl, rfl, hstate⟩
  | _ => exact (HostStep.action_sameOperations rfl).mono fun _ _ h => .of_eq h

namespace DiagnosedHost

/-- Evidence goes to recovery by the hand of its deliverer, never by its age. -/
theorem next_recovery (h : s.next step = some s') {e' : JournalEntry}
    (he : e ∈ s.journal.operations)
    (he' : e' ∈ s'.journal.operations) (hid : e'.operationId = e.operationId)
    (hevidence : e'.envelope.payload.isDurableEvidence) (hstate : e.state ≠ .recovery)
    (hstate' : e'.state = .recovery) :
    ∃ token retryAt error, step = .host (.settle e.operationId token .recovery retryAt error) ∧
      e.claimToken = some token := by
  rcases next_cases h with heq | ⟨step, r, rfl, -, hrun⟩
  · obtain rfl := s.journal.operations.eq_of_key (heq ▸ he') he hid
    exact absurd hstate' hstate
  · by_cases hsettle : ∃ id token state retryAt error, step = .settle id token state retryAt error
    · obtain ⟨id, token, state, retryAt, error, rfl⟩ := hsettle
      obtain ⟨e₀, he₀, hid₀, hcase⟩ := Journal.settle_recovery _ _ hrun e' he' hstate'
      obtain rfl := s.journal.operations.eq_of_key he₀ he (hid₀.trans hid)
      rcases hcase with hrecovery | ⟨rfl, rfl, htoken⟩
      · exact absurd hrecovery hstate
      · exact ⟨token, retryAt, error, rfl, htoken⟩
    · have hover : ∀ id token state retryAt error,
          step.over s.tombstones ≠ .settle id token state retryAt error := by
        intro id token state retryAt error heq
        refine hsettle ⟨id, token, state, retryAt, error, ?_⟩
        cases step with
        | compact => cases heq
        | _ => exact heq
      obtain ⟨e₀, he₀, hid₀, -, hrecovery⟩ :=
        HostStep.action_unswept hover _ _ _ hrun e' he' hstate' hevidence
      obtain rfl := s.journal.operations.eq_of_key he₀ he (hid₀.trans hid)
      exact absurd hrecovery hstate

/-- A request loses its logs only after its whole epoch was acknowledged. -/
theorem next_prunes (h : s.next step = some s') (hr : r ∈ s.journal.requests)
    (hlogs : r.requestId ∉ s.tombstones) (hpruned : r.requestId ∈ s'.tombstones) :
    (∀ e ∈ s.journal.operationsOf r.executionId r.epoch, e.state = .acknowledged) ∧
      ∃ e ∈ s.journal.operationsOf r.executionId r.epoch, e.envelope.payload.isFinish := by
  cases step with
  | host step =>
    simp only [next, Option.map_eq_some_iff] at h
    obtain ⟨_, -, rfl⟩ := h
    exact absurd hpruned hlogs
  | prune _ _ =>
    cases h
    rcases mem_append.mp hpruned with h | h
    · exact absurd h hlogs
    · obtain ⟨r', hr', hid⟩ := mem_map.mp h
      obtain ⟨hmem, hprunable⟩ := mem_filter.mp hr'
      obtain rfl := s.journal.requests.eq_of_key hmem hr hid
      exact Journal.acknowledged_of_isPrunable hprunable

end DiagnosedHost

/-- The journal of a host is durable, in every state of a run.  A step keeps each operation
with its content unless it was acknowledged before, and keeps an acknowledged one as it is
unless it is a compaction; what is acknowledged in the journal is not claimed.  A claim token
that is not the current one of its operation changes nothing.  Stop and publication evidence
goes to recovery only when its deliverer settles it so; a stop receipt is handed out only
when no discovered commit of its execution and no recovery is open; and logs are removed only
when the operations of their epoch, with the stop receipt, were acknowledged. -/
theorem journal_durable {s : DiagnosedHost} (hs : diagnosedHost.Reachable s) :
    (∀ step s', s.next step = some s' → ∀ e ∈ s.journal.operations,
      (∃ e' ∈ s'.journal.operations, e.SameOperation e') ∨ e.state = .acknowledged)
      ∧ (∀ step s', s.next step = some s' → ∀ e ∈ s.journal.operations, e.state = .acknowledged →
        e ∈ s'.journal.operations ∨
          ∃ before hasDiagnostics, step = .host (.compact before hasDiagnostics))
      ∧ (∀ horizon now seconds destination token row j',
        s.journal.claim horizon now seconds destination token = .ok (some row, j') →
        ∀ e ∈ s.journal.operations, e.operationId = row.operationId → e.state ≠ .acknowledged)
      ∧ (∀ horizon now seconds destination token row j',
        s.journal.claim horizon now seconds destination token = .ok (some row, j') →
        ∀ e ∈ j'.operations, e.operationId = row.operationId → e.claimToken = some token)
      ∧ (∀ id token,
        (∀ e ∈ s.journal.operations, e.operationId = id → e.claimToken ≠ some token) →
        (∀ now state retryAt error, ∃ failed,
          s.journal.settle now id token state retryAt error = .error failed) ∧
          ∀ now seconds, s.journal.renewDelivery now seconds id token = .ok (false, s.journal))
      ∧ (∀ step s', s.next step = some s' → ∀ e ∈ s.journal.operations,
        ∀ e' ∈ s'.journal.operations, e'.operationId = e.operationId →
        e'.envelope.payload.isFinish ∨ e'.envelope.payload.isPublication →
        e.state ≠ .recovery → e'.state = .recovery →
        ∃ token retryAt error, step = .host (.settle e.operationId token .recovery retryAt error) ∧
          e.claimToken = some token)
      ∧ (∀ horizon now seconds destination token row j',
        s.journal.claim horizon now seconds destination token = .ok (some row, j') →
        row.envelope.payload.isFinish → s.journal.Released row.envelope)
      ∧ ∀ step s', s.next step = some s' → ∀ r ∈ s.journal.requests,
        r.requestId ∉ s.tombstones → r.requestId ∈ s'.tombstones →
        (∀ e ∈ s.journal.operationsOf r.executionId r.epoch, e.state = .acknowledged) ∧
          ∃ e ∈ s.journal.operationsOf r.executionId r.epoch, e.envelope.payload.isFinish := by
  refine ⟨fun step s' hnext e he => ?_,
    fun step s' hnext e he hack => DiagnosedHost.acknowledged_kept hs hnext he hack,
    fun _ _ _ _ _ row _ hclaim e he hid => ?_,
    fun _ _ _ _ _ row _ hclaim => Journal.claim_token _ _ hclaim row rfl,
    fun id token hold => ⟨fun _ _ _ _ => Journal.settle_superseded hold,
      fun _ _ => Journal.renewDelivery_superseded hold⟩,
    fun step s' hnext e he e' he' hid _ => ?_,
    fun _ _ _ _ _ row _ hclaim => Journal.claim_released _ _ hclaim row rfl,
    fun step s' hnext r => DiagnosedHost.next_prunes hnext⟩
  · have hop := DiagnosedHost.next_operates (DiagnosedHost.unclaimed hs) hnext
    exact (hop.kept_or_forgotten he).imp
      (fun ⟨e', he', hkeeps⟩ => ⟨e', he', hkeeps.toSameOperation⟩) And.right
  · obtain ⟨_, he₀, hid₀, -, hstate⟩ := (Journal.claim_reworked _ _ hclaim).2 row rfl
    obtain rfl := s.journal.operations.eq_of_key he₀ he (hid₀.trans hid.symm)
    exact hstate
  · refine DiagnosedHost.next_recovery hnext he he' hid ?_
    cases hpayload : e'.envelope.payload <;>
      simp_all [WorkerPayload.isDurableEvidence, WorkerPayload.isFinish,
        WorkerPayload.isPublication]

namespace Installation

/-- A commit that was discovered under an execution. -/
def discovery : DiagnosedStep :=
  .host (.enqueue none 1 ⟨1, 1, 1, .publication .discovered 1 1⟩ .api)

/-- It is delivered and acknowledged. -/
def settled : DiagnosedHost :=
  System.replay DiagnosedHost.next (fun _ _ => true)
    [ discovery, .host (.claim 1000 60 .api 1), .host (.settle 1 1 .acknowledged 0 none) ] .initial

/-- The journal forgets it after an hour, and a scan of the repository finds it again. -/
def rediscovered : DiagnosedHost :=
  System.replay DiagnosedHost.next (fun _ _ => true)
    [ .host (.advance 7200 7200), .host (.compact 3600 fun _ => false), discovery ] settled

theorem settled_reachable : diagnosedHost.Reachable settled :=
  (System.replay_reachable _ _ _).reachable

theorem settled_runs : settled.Runs rediscovered :=
  (System.replay_runs _ _ _ _).mono fun _ _ _ => trivial

end Installation

/-- An acknowledged discovery is claimed again once the journal has forgotten it. -/
theorem acknowledged_claimed_again :
    ∃ s s', diagnosedHost.Reachable s ∧ s.Runs s' ∧
      (∃ e ∈ s.journal.operations, e.operationId = 1 ∧ e.state = .acknowledged) ∧
      ∃ row j', s'.journal.claim 10000 7200 60 .api 2 = .ok (some row, j')
      ∧ row.operationId = 1 := by
  refine ⟨Installation.settled, Installation.rediscovered, Installation.settled_reachable,
    Installation.settled_runs, ⟨_, mem_cons_self, rfl, rfl⟩, _, _, rfl, rfl⟩

/-- Only a compaction takes the acknowledged discovery out of the journal. -/
theorem journal_durable_settled :
    (∃ e ∈ Installation.settled.journal.operations, e.operationId = 1 ∧ e.state = .acknowledged) ∧
      ∀ step s', Installation.settled.next step = some s' →
        ∀ e ∈ Installation.settled.journal.operations, e.state = .acknowledged →
          e ∈ s'.journal.operations ∨
            ∃ before hasDiagnostics, step = .host (.compact before hasDiagnostics) :=
  ⟨⟨_, mem_cons_self, rfl, rfl⟩, (journal_durable Installation.settled_reachable).2.1⟩

end Horizon
