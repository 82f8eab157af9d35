import Horizon.Worker.Journal

/-!
# Local leases

A host whose clock advances, which reboots under fresh boot identities and whose daemon
restarts, while its journal is worked on.  What any journal transaction may do to the
stored executions is said once, by `Journal.Descends`; the main result,
`lease_irrevocable`, follows from it and from what the clock may do.

`grant_lease` and `assert_lease` read the clock before they wait for the journal.  A renewal
that waited past the deadline revives a lease that has failed (`lease_revived`); the result
is about runs in which renewals are in time.
-/

namespace Horizon

open Transaction Table Option

variable {token executionId id : Id} {horizon seconds now : Int} {epoch : Nat} {step : HostStep}
  {e : LocalExecution} {destination : Destination} {R : Journal → Journal → Prop} {lag : Nat}

/-! ## The host -/

/-- A journal on its host. -/
structure WorkerHost where
  journal : Journal
  clock : HostClock
  /-- The boot identities the host has had. -/
  boots : List Id

/-- The reading of the clock that was taken a while ago, under the same boot. -/
def HostClock.earlier (clock : HostClock) (lag : Nat) : HostClock :=
  { clock with monotonic := clock.monotonic - lag }

/-- What happens on a host. -/
inductive HostStep where
  | enqueue (refusal : Option String) (operationId : Id) (envelope : WorkerOperation)
      (destination : Destination)
  | claim (horizon claimSeconds : Int) (destination : Destination) (token : Id)
  | settle (operationId token : Id) (state : DeliveryState) (retryAt : Int) (error : Option String)
  | renewDelivery (seconds : Int) (operationId token : Id)
  | retryPublication (operationId : Id) (note : Option String)
  | compact (acknowledgedBefore : Int) (hasDiagnostics : LocalRequest → Bool)
  /-- The clock was read `lag` ago; then the journal was waited for. -/
  | grantLease (executionId : Id) (epoch : Nat) (seconds : Int) (lag : Nat)
  | checkpoint (executionId : Id) (epoch : Nat) (value : Checkpoint)
  | fence (executionId : Id) (epoch : Nat) (outcome : ExecutionOutcome)
  | claimAttempt (horizon : Int) (identifier hostId : Id) (harnessIds : List Id)
  | abandonClaim (requestId : Id) (note : String)
  | resolveClaim (requestId : Id) (executionId : Option Id) (epoch : Nat) (seconds : Int)
  | beginRequest (requestId executionId : Id) (epoch : Nat) (prompt : String)
  | finishRequest (requestId : Id) (state : RequestStatus)
  /-- Time passes; the wall clock may be set. -/
  | advance (elapsed : Nat) (wall : Int)
  /-- The host boots under a new identity, with its monotonic clock anywhere. -/
  | reboot (boot : Id) (monotonic wall : Int)
  /-- The daemon starts again. -/
  | restart

namespace HostStep

/-- The transaction of a step on the journal. -/
def action (clock : HostClock) : HostStep → Journal.Action Unit
  | enqueue refusal id envelope destination => do
    let _ ← Journal.enqueue clock refusal id envelope destination
  | claim horizon seconds destination token => do
    let _ ← Journal.claim horizon clock.wall seconds destination token
  | settle id token state retryAt error => Journal.settle clock.wall id token state retryAt error
  | renewDelivery seconds id token => do
    let _ ← Journal.renewDelivery clock.wall seconds id token
  | retryPublication id note => Journal.retryPublication id note
  | compact before hasDiagnostics => Journal.compact before hasDiagnostics
  | grantLease id epoch seconds lag => Journal.grantLease (clock.earlier lag) id epoch seconds
  | checkpoint id epoch value => Journal.checkpoint id epoch value
  | fence id epoch outcome => Journal.fence id epoch outcome
  | claimAttempt horizon id hostId harnessIds => do
    let _ ← Journal.claimAttempt clock horizon id hostId harnessIds
  | abandonClaim id note => Journal.abandonClaim id note
  | resolveClaim id executionId epoch seconds => do
    let _ ← Journal.resolveClaim clock id executionId epoch seconds
  | beginRequest id executionId epoch prompt => do
    let _ ← Journal.beginRequest clock id executionId epoch prompt
  | finishRequest id state => Journal.finishRequest id state
  | advance _ _ | reboot .. | restart => pure ()

/-- The clock after a step, unless it is a reboot under an identity of an earlier boot. -/
def clock (boots : List Id) (now : HostClock) : HostStep → Option HostClock
  | advance elapsed wall => some { now with monotonic := now.monotonic + elapsed, wall }
  | reboot boot monotonic wall => if boot ∈ boots then none else some ⟨boot, monotonic, wall⟩
  | _ => some now

end HostStep

/-- One step of a host.  A transaction that raises leaves the journal as it was. -/
def WorkerHost.next (h : WorkerHost) (step : HostStep) : Option WorkerHost :=
  (step.clock h.boots h.clock).map fun clock =>
    { journal := match step.action h.clock h.journal with
        | .ok (_, journal) => journal
        | .error _ => h.journal
      clock, boots := if clock.boot ∈ h.boots then h.boots else clock.boot :: h.boots }

/-- A new host. -/
def WorkerHost.initial : WorkerHost := ⟨.empty, ⟨0, 0, 0⟩, [0]⟩

/-- The runs of a host. -/
def workerHost : System WorkerHost HostStep := .ofFun .initial WorkerHost.next

namespace WorkerHost

/-- A renewal that goes by an earlier reading of the clock takes effect before the deadline
of the lease it renews. -/
def renewsInTime (h : WorkerHost) : HostStep → Bool
  | .grantLease id epoch _ lag => (h.journal.executions.find? id).all fun e =>
    e.epoch != epoch || decide (e.deadline ≤ (h.clock.earlier lag).monotonic)
      || decide (h.clock.monotonic < e.deadline)
  | _ => true

/-- A run of a host whose renewals are in time. -/
abbrev Runs : WorkerHost → WorkerHost → Prop := workerHost.RunsBy (renewsInTime · · = true)

/-- The state a run of a host ends in. -/
def after (steps : List HostStep) (h : WorkerHost) : WorkerHost :=
  System.replay WorkerHost.next renewsInTime steps h

theorem after_runs (steps : List HostStep) (h : WorkerHost) : h.Runs (h.after steps) :=
  System.replay_runs _ _ steps h

/-- Whether `assert_lease` succeeds that has read the clock `lag` ago. -/
def holdsLease (h : WorkerHost) (lag : Nat) (executionId : Id) (epoch : Nat) : Bool :=
  (h.journal.assertLease (h.clock.earlier lag) executionId epoch).isOk

end WorkerHost

/-! ## What the journal transactions write

A transaction keeps every relation that allows for changes of the tables it writes. -/

namespace Journal

variable [Std.Refl R] {clock : HostClock}

section

variable (hR : ∀ j operations, R j { j with operations })
include hR

omit [Std.Refl R] in
theorem updateOperations_keeps {p : JournalEntry → Bool} {f : JournalEntry → JournalEntry}
    {hf : ∀ e, (f e).operationId = e.operationId} : Keeps R (updateOperations p f hf) := by
  rintro j _ _ ⟨⟩
  exact hR j _

theorem enqueue_keeps {refusal : Option String} {envelope : WorkerOperation} :
    Keeps R (enqueue clock refusal id envelope destination) := by
  intro j _ j' h
  rw [enqueue] at h
  split at h
  · split at h
    · cases h
    · cases h; exact refl j
  · split at h
    · cases h
    · cases h; exact hR j _

theorem claim_keeps [IsTrans Journal R] :
    Keeps R (claim horizon now seconds destination token) := by
  refine .bind (updateOperations_keeps hR) fun _ => .read fun j => ?_
  split
  · exact .pure
  · exact .done (updateOperations_keeps hR)

theorem settle_keeps [IsTrans Journal R] {retryAt : Int} {state : DeliveryState}
    {error : Option String} : Keeps R (settle now id token state retryAt error) := by
  refine .guard <| .bind (updateOperations_keeps hR) fun _ => ?_
  exact .guard .pure

theorem retryPublication_keeps [IsTrans Journal R] {note : Option String} :
    Keeps R (retryPublication id note) := by
  refine .guard <| .read fun j => ?_
  split
  · exact .raise
  · exact .ite (fun _ => .done (updateOperations_keeps hR))
      fun _ => .raise

end

section

variable (hR : ∀ j claims, R j { j with claims })
include hR

theorem claimAttempt_keeps {hostId : Id} {harnessIds : List Id} :
    Keeps R (claimAttempt clock horizon id hostId harnessIds) := by
  intro j _ j' h
  rw [claimAttempt] at h
  split at h
  · split at h
    · cases h
    · cases h; exact refl j
  · dsimp only at h
    split at h
    · cases h; exact hR j _
    · cases h

theorem abandonClaim_keeps [IsTrans Journal R] {note : String} :
    Keeps R (abandonClaim id note) := by
  refine .guard <| .read fun j => .ite (fun _ => ?_) fun _ => .raise
  rintro j _ _ ⟨⟩
  exact hR j _

/-- The answer to a claim may store an execution, under the boot identity of its moment. -/
theorem resolveClaim_keeps [IsTrans Journal R] {executionId : Option Id}
    (hinsert : ∀ row : LocalExecution, row.bootId = clock.boot → Keeps R (insertExecution row)) :
    Keeps R (resolveClaim clock id executionId epoch seconds) := by
  refine .read fun j => .ite (fun _ => ?_) fun _ => .pure
  refine .bind ?_ fun _ => .bind ?_ fun _ => .done ?_
  · cases executionId with
    | none => exact .pure
    | some executionId =>
      refine .read fun j => .ite (fun _ => ?_) fun _ => .pure
      exact .done (hinsert _ rfl)
  all_goals
    rintro j _ _ ⟨⟩
    exact hR j _

end

theorem beginRequest_keeps [IsTrans Journal R] (hR : ∀ j requests, R j { j with requests })
    {prompt : String} : Keeps R (beginRequest clock id executionId epoch prompt) := by
  refine .ask fun _ j _ j' h => ?_
  split at h
  · split at h
    · cases h
    · cases h; exact refl j
  · cases h; exact hR j _

end Journal

/-- The steps that write executions. -/
def HostStep.writesExecutions : HostStep → Bool
  | grantLease .. | checkpoint .. | fence .. | resolveClaim .. => true
  | _ => false

theorem HostStep.action_keeps [Std.Refl R] [IsTrans Journal R]
    (hoperations : ∀ j operations, R j { j with operations })
    (hclaims : ∀ j claims, R j { j with claims })
    (hrequests : ∀ j requests, R j { j with requests })
    {clock : HostClock} (h : step.writesExecutions = false) : Keeps R (step.action clock) := by
  cases step with
  | enqueue => exact .done (Journal.enqueue_keeps hoperations)
  | claim => exact .done (Journal.claim_keeps hoperations)
  | settle => exact Journal.settle_keeps hoperations
  | renewDelivery =>
    refine .done (.bind ?_ fun _ => .pure)
    exact Journal.updateOperations_keeps hoperations
  | retryPublication => exact Journal.retryPublication_keeps hoperations
  | compact => rintro j _ _ ⟨⟩; exact hoperations j _
  | claimAttempt => exact .done (Journal.claimAttempt_keeps hclaims)
  | abandonClaim => exact Journal.abandonClaim_keeps hclaims
  | beginRequest => exact .done (Journal.beginRequest_keeps hrequests)
  | finishRequest =>
    refine .ite (fun _ => ?_) fun _ => .raise
    rintro j _ _ ⟨⟩
    exact hrequests j _
  | advance | reboot | restart => exact .pure
  | grantLease | checkpoint | fence | resolveClaim => cases h

/-! ## What a journal transaction may do to an execution -/

/-- Whether a stored execution owns its lease now. -/
def LocalExecution.Holds (clock : HostClock) (e : LocalExecution) : Prop :=
  e.bootId = clock.boot ∧ e.status = .running ∧ clock.monotonic < e.deadline

/-- The readings of the clock that are not older than `c₀`: later under the same boot, or
under one that the host did not have then. -/
def HostClock.Follows (boots : List Id) (c₀ c : HostClock) : Prop :=
  c.boot = c₀.boot ∧ c₀.monotonic ≤ c.monotonic ∨ c.boot ∉ boots

/-- `e` may become `e'`: its epoch does not decrease, and within an epoch only a lease that
holds is extended. -/
structure LocalExecution.Next (clock : HostClock) (e e' : LocalExecution) : Prop where
  epoch_le : e.epoch ≤ e'.epoch
  holds : e'.epoch = e.epoch → e.Holds clock ∨ ∀ c, e'.Holds c → e.Holds c

namespace LocalExecution.Next

variable {clock : HostClock} {e' e'' : LocalExecution}

theorem refl (e : LocalExecution) : Next clock e e := ⟨le_rfl, fun _ => .inr fun _ h => h⟩

theorem trans (h : Next clock e e') (h' : Next clock e' e'') : Next clock e e'' where
  epoch_le := h.epoch_le.trans h'.epoch_le
  holds heq := by
    have he : e'.epoch = e.epoch := le_antisymm (heq ▸ h'.epoch_le) h.epoch_le
    rcases h.holds he with hholds | hle
    · exact .inl hholds
    · exact (h'.holds (heq.trans he.symm)).imp (hle _) fun hle' c hc => hle c (hle' c hc)

end LocalExecution.Next

namespace Journal

/-- `j'` comes from `j` by transactions at one reading of the clock. -/
structure Descends (clock : HostClock) (j j' : Journal) : Prop where
  /-- Stored executions stay. -/
  kept : ∀ id e, j.executions.find? id = some e →
    ∃ e', j'.executions.find? id = some e' ∧ e.Next clock e'
  /-- A lease is granted under the boot identity of its moment. -/
  boots : ∀ e' ∈ j'.executions, e'.bootId = clock.boot ∨ ∃ e ∈ j.executions, e.bootId = e'.bootId

variable {clock : HostClock} {j j' : Journal}

theorem Descends.of_eq (h : j'.executions = j.executions) : Descends clock j j' where
  kept _ e he := ⟨e, by rw [h]; exact he, .refl e⟩
  boots e he := .inr ⟨e, by rwa [← h], rfl⟩

instance : Std.Refl (Descends clock) := ⟨fun _ => .of_eq rfl⟩

instance : IsTrans Journal (Descends clock) where
  trans j j' j'' h h' := by
    constructor
    · intro id e he
      obtain ⟨e', he', hn⟩ := h.kept id e he
      obtain ⟨e'', he'', hn'⟩ := h'.kept id e' he'
      exact ⟨e'', he'', hn.trans hn'⟩
    · intro e'' he''
      rcases h'.boots e'' he'' with hb | ⟨e', he', hb⟩
      · exact .inl hb
      · rcases h.boots e' he' with hb' | ⟨e, he, hb'⟩
        · exact .inl (hb ▸ hb')
        · exact .inr ⟨e, he, hb'.trans hb⟩

/-- Executions are rewritten one by one. -/
theorem updateExecutions_descends {p : LocalExecution → Bool} {f : LocalExecution → LocalExecution}
    {hf : ∀ e, (f e).executionId = e.executionId} {s : Journal}
    (hnext : ∀ e ∈ s.executions, p e → e.Next clock (f e))
    (hboot : ∀ e, (f e).bootId = e.bootId ∨ (f e).bootId = clock.boot) :
    Ensures (updateExecutions p f hf) s fun _ s' => Descends clock s s' := by
  simp only [updateExecutions, ensures_bind, ensures_get, ensures_set, ensures_pure]
  constructor
  · intro id e he
    refine ⟨if p e then f e else e, by rw [find?_updateWhere, he]; rfl, ?_⟩
    split
    · exact hnext e (mem_of_find? he) ‹_›
    · exact .refl e
  · intro e' he'
    obtain ⟨e, he, rfl⟩ := (mem_updateWhere (e := hf)).mp he'
    split
    · exact (hboot e).symm.imp_right fun h => ⟨e, he, h.symm⟩
    · exact .inr ⟨e, he, rfl⟩

theorem insertExecution_descends {row : LocalExecution} (hboot : row.bootId = clock.boot) :
    Keeps (Descends clock) (insertExecution row) := by
  intro s _ s' h
  rw [insertExecution] at h
  split at h
  case isFalse => cases h
  case isTrue hnew =>
    cases h
    constructor
    · intro id e he
      have hne : id ≠ row.executionId := by
        obtain ⟨hmem, hid⟩ := find?_eq_some.mp he
        exact hid ▸ hnew e hmem
      exact ⟨e, by rw [find?_insert_of_ne hne, he], .refl e⟩
    · intro e' he'
      rcases (mem_insert (h := hnew)).mp he' with he | rfl
      · exact .inr ⟨e', he, rfl⟩
      · exact .inl hboot

/-! ## The journal transactions -/

/-- A renewal in time extends a lease of its epoch only while it holds. -/
theorem grantLease_descends (hlate : ∀ e, j.executions.find? id = some e → e.epoch = epoch →
      (clock.earlier lag).monotonic < e.deadline → clock.monotonic < e.deadline) :
    Ensures (grantLease (clock.earlier lag) id epoch seconds) j fun _ j' =>
      Descends clock j j' := by
  refine .ite (fun _ => .raise) fun _ => ?_
  simp only [ensures_bind, ensures_get]
  cases hfind : j.executions.find? id with
  | none => exact insertExecution_descends rfl j
  | some old =>
    simp only [ensures_ite, ensures_bind, ensures_pure]
    refine ⟨fun _ => .raise, fun hfenced => ⟨fun _ => .raise, fun hexpired => ?_⟩⟩
    refine updateExecutions_descends (fun e he hid => ?_) fun _ => .inr rfl
    obtain rfl : e = old := by
      have := find?_eq_some.mpr ⟨he, by simpa using hid⟩
      exact some.inj (this.symm.trans hfind)
    refine ⟨by simp only; omega, fun heq => .inl ?_⟩
    have heq : epoch = e.epoch := heq
    refine ⟨?_, ?_, hlate e hfind heq.symm ?_⟩
    · exact not_not.mp fun h => hexpired ⟨heq, .inl h⟩
    · exact not_not.mp fun h => hfenced (.inr ⟨heq, h⟩)
    · exact not_le.mp fun h => hexpired ⟨heq, .inr h⟩

theorem checkpoint_descends {value : Checkpoint} :
    Keeps (Descends clock) (checkpoint id epoch value) := by
  refine .guard <| .bind (fun s => ?_) fun _ => ?_
  · exact updateExecutions_descends (fun e _ _ => ⟨le_rfl, fun _ => .inr fun _ h => h⟩) fun _ =>
      .inl rfl
  · exact .guard .pure

theorem fence_descends {outcome : ExecutionOutcome} :
    Keeps (Descends clock) (fence id epoch outcome) := by
  refine .done (fun s => ?_)
  refine updateExecutions_descends (fun e _ _ => ⟨le_rfl, fun _ => .inr fun _ h => ?_⟩) fun _ =>
    .inl rfl
  exact nomatch h.2.1

end Journal

/-- Every step of a host treats the stored executions as a transaction may, if renewals are
in time. -/
theorem WorkerHost.action_descends {h : WorkerHost} (hg : h.renewsInTime step) :
    Ensures (step.action h.clock) h.journal fun _ j' => h.journal.Descends h.clock j' := by
  cases step with
  | grantLease id epoch seconds lag =>
    refine Journal.grantLease_descends fun e he hepoch hlease => ?_
    have hlive : ¬ e.deadline ≤ (h.clock.earlier lag).monotonic := not_le.mpr hlease
    simpa [renewsInTime, he, hepoch, hlive] using hg
  | checkpoint => exact Journal.checkpoint_descends _
  | fence => exact Journal.fence_descends _
  | resolveClaim =>
    refine Keeps.done (Journal.resolveClaim_keeps (fun _ _ => .of_eq rfl) ?_) _
    exact fun _ => Journal.insertExecution_descends
  | _ =>
    exact HostStep.action_keeps (fun _ _ => .of_eq rfl) (fun _ _ => .of_eq rfl)
      (fun _ _ => .of_eq rfl) rfl _

/-! ## Runs of a host -/

namespace WorkerHost

variable {h h' : WorkerHost}

theorem holdsLease_eq_true :
    h.holdsLease lag executionId epoch ↔ ∃ e, h.journal.executions.find? executionId = some e
      ∧ e.epoch = epoch ∧ e.Holds (h.clock.earlier lag) := by
  rw [holdsLease, Journal.assertLease]
  cases hf : h.journal.executions.find? executionId with
  | none => simp [Except.isOk, Except.toBool]
  | some e =>
    simp only [some.injEq, exists_eq_left', LocalExecution.Holds]
    split
    · rename_i hc
      simp only [Except.isOk, Except.toBool, Bool.false_eq_true, false_iff]
      rintro ⟨rfl, hb, hs, hd⟩
      exact hc.elim (· rfl) fun hc => hc.elim (· hb) fun hc => hc.elim (· hs) (not_le.mpr hd)
    · rename_i hc
      simp only [not_or, not_not, not_le] at hc
      simp [Except.isOk, Except.toBool, hc.1, hc.2.1, hc.2.2.1, hc.2.2.2]

/-- The boot identities of the stored leases are known, and so is the current one. -/
structure Known (h : WorkerHost) : Prop where
  current : h.clock.boot ∈ h.boots
  stored : ∀ e ∈ h.journal.executions, e.bootId ∈ h.boots

/-- What one step of a host does: a transaction at the time of the step, after which the
clock has advanced or the host has a boot identity it never had. -/
theorem next_cases (hg : h.renewsInTime step) (hnext : h.next step = some h') :
    h.journal.Descends h.clock h'.journal ∧
      (h'.clock.boot = h.clock.boot ∧ h.clock.monotonic ≤ h'.clock.monotonic ∨
        h'.clock.boot ∉ h.boots) ∧
      h'.boots = (if h'.clock.boot ∈ h.boots then h.boots else h'.clock.boot :: h.boots) := by
  simp only [next, map_eq_some_iff] at hnext
  obtain ⟨clock, hclock, rfl⟩ := hnext
  refine ⟨?_, ?_, rfl⟩
  · dsimp only
    cases hrun : step.action h.clock h.journal with
    | error e => exact .of_eq rfl
    | ok r => exact action_descends hg _ _ hrun
  · dsimp only
    cases step with
    | advance _ wall => cases hclock; exact .inl ⟨rfl, by simp⟩
    | reboot boot monotonic wall =>
      simp only [HostStep.clock] at hclock
      split at hclock
      · cases hclock
      · cases hclock; exact .inr ‹_›
    | _ => cases hclock; exact .inl ⟨rfl, le_rfl⟩

theorem boots_subset (hnext : h.next step = some h') : h.boots ⊆ h'.boots := by
  simp only [next, map_eq_some_iff] at hnext
  obtain ⟨clock, -, rfl⟩ := hnext
  intro b hb
  dsimp only
  split
  · exact hb
  · exact List.mem_cons_of_mem _ hb

theorem Known.next (hk : h.Known) (hg : h.renewsInTime step) (hnext : h.next step = some h') :
    h'.Known := by
  obtain ⟨hdesc, -, hboots⟩ := next_cases hg hnext
  have hmono := boots_subset hnext
  constructor
  · rw [hboots]
    split
    · assumption
    · exact List.mem_cons_self
  · intro e he
    rcases hdesc.boots e he with hb | ⟨e₀, he₀, hb⟩
    · exact hb ▸ hmono hk.current
    · exact hb ▸ hmono (hk.stored e₀ he₀)

theorem known_of_reachable (hr : workerHost.ReachableBy (renewsInTime · ·) h) : h.Known := by
  refine hr.invariant ?_ fun s l s' hk hg hs => hk.next hg hs
  rintro _ rfl
  exact ⟨List.mem_singleton_self 0, fun _ he => absurd he notMem_empty⟩

/-- The ownership of an execution at an epoch has lapsed for good: no reading of the clock
that follows `c₀` finds it held. -/
structure Lapsed (boots : List Id) (c₀ : HostClock) (executionId : Id) (epoch : Nat)
    (h : WorkerHost) : Prop where
  clock : c₀.Follows boots h.clock
  known : boots ⊆ h.boots
  execution : ∃ e, h.journal.executions.find? executionId = some e ∧
    (epoch < e.epoch ∨ epoch = e.epoch ∧ ∀ c, c₀.Follows boots c → ¬ e.Holds c)

theorem Lapsed.next {boots : List Id} {c₀ : HostClock} (hl : Lapsed boots c₀ executionId epoch h)
    (hg : h.renewsInTime step) (hnext : h.next step = some h') :
    Lapsed boots c₀ executionId epoch h' := by
  obtain ⟨hdesc, hclock, -⟩ := next_cases hg hnext
  refine ⟨?_, List.Subset.trans hl.known (boots_subset hnext), ?_⟩
  · rcases hclock with ⟨hboot, hmono⟩ | hfresh
    · rw [HostClock.Follows, hboot]
      exact hl.clock.imp_left fun h => ⟨h.1, h.2.trans hmono⟩
    · exact .inr fun hb => hfresh (hl.known hb)
  · obtain ⟨e, he, hepoch⟩ := hl.execution
    obtain ⟨e', he', hle, hholds⟩ := hdesc.kept executionId e he
    refine ⟨e', he', ?_⟩
    rcases hepoch with hlt | ⟨rfl, hn⟩
    · exact .inl (hlt.trans_le hle)
    · refine hle.lt_or_eq.imp_right fun heq => ⟨heq, fun c hc hh => ?_⟩
      -- a lease that does not hold now is not extended
      rcases hholds heq.symm with hnow | hold
      · exact hn _ hl.clock hnow
      · exact hn c hc (hold c hh)

/-- A run keeps every stored execution and never decreases its epoch. -/
theorem Runs.epoch_le (hrun : h.Runs h') (hk : h.Known)
    (he : h.journal.executions.find? executionId = some e) :
    h'.Known ∧ ∃ e', h'.journal.executions.find? executionId = some e' ∧ e.epoch ≤ e'.epoch := by
  refine hrun.preserves (I := fun s : WorkerHost =>
    s.Known ∧ ∃ e', s.journal.executions.find? executionId = some e' ∧ e.epoch ≤ e'.epoch) ?_
    ⟨hk, e, he, le_rfl⟩
  rintro s l s' ⟨hk, e₁, he₁, hle⟩ hg hs
  obtain ⟨e₂, he₂, hnext⟩ := (next_cases hg hs).1.kept executionId e₁ he₁
  exact ⟨hk.next hg hs, e₂, he₂, hle.trans hnext.epoch_le⟩

end WorkerHost

/-- As long as renewals take effect in time, a lease that was held and has failed fails for
every later reading of the clock, whatever renewals, claim resolutions, reboots or restarts
come between, and the stored epoch of an execution never decreases. -/
theorem lease_irrevocable {h : WorkerHost}
    (hr : workerHost.ReachableBy (WorkerHost.renewsInTime · · = true) h) :
    (∀ lag executionId epoch h₁ lag₁ h₂ lag₂, h.holdsLease lag executionId epoch = true →
      h.Runs h₁ → h₁.holdsLease lag₁ executionId epoch = false → h₁.Runs h₂ →
      (h₂.clock.boot = h₁.clock.boot →
        (h₁.clock.earlier lag₁).monotonic ≤ (h₂.clock.earlier lag₂).monotonic) →
      h₂.holdsLease lag₂ executionId epoch = false) ∧
    ∀ executionId e h', h.journal.executions.find? executionId = some e → h.Runs h' →
      ∃ e', h'.journal.executions.find? executionId = some e' ∧ e.epoch ≤ e'.epoch := by
  have hk := WorkerHost.known_of_reachable hr
  constructor
  · intro lag executionId epoch h₁ lag₁ h₂ lag₂ hheld hrun₁ hfail hrun₂ hlater
    obtain ⟨e, he, rfl, -⟩ := WorkerHost.holdsLease_eq_true.mp hheld
    obtain ⟨hk₁, e₁, he₁, hle⟩ := hrun₁.epoch_le hk he
    -- the failed lease has lapsed, which every step keeps
    have hl₁ : WorkerHost.Lapsed h₁.boots (h₁.clock.earlier lag₁) executionId e.epoch h₁ := by
      refine ⟨.inl ⟨rfl, ?_⟩, List.Subset.refl _, e₁, he₁, hle.lt_or_eq.imp_right fun heq =>
        ⟨heq, fun c hc hh => ?_⟩⟩
      · exact Int.sub_le_self _ (Int.natCast_nonneg lag₁)
      · rcases hc with ⟨hboot, hmono⟩ | hfresh
        · have := WorkerHost.holdsLease_eq_true.mpr
            ⟨e₁, he₁, heq.symm, hh.1.trans hboot, hh.2.1, hmono.trans_lt hh.2.2⟩
          rw [hfail] at this
          cases this
        · exact hfresh (hh.1 ▸ hk₁.stored e₁ (mem_of_find? he₁))
    have hl₂ : WorkerHost.Lapsed h₁.boots (h₁.clock.earlier lag₁) executionId e.epoch h₂ :=
      hrun₂.preserves (fun _ _ _ hl hg hs => hl.next hg hs) hl₁
    rw [Bool.eq_false_iff, Ne, WorkerHost.holdsLease_eq_true]
    rintro ⟨e₂, he₂, hepoch, hh⟩
    obtain ⟨_, he₂', hlapsed⟩ := hl₂.execution
    cases he₂.symm.trans he₂'
    rcases hlapsed with hlt | ⟨-, hn⟩
    · exact hlt.ne' hepoch
    · exact hn _ (hl₂.clock.imp_left fun h => ⟨h.1, hlater h.1⟩) hh
  · intro executionId e h' he hrun
    exact (hrun.epoch_le hk he).2

/-- An expired lease stays lost: neither a renewal, nor the answer to a claim, nor a reboot
brings it back. -/
theorem lease_irrevocable_expired :
    (WorkerHost.initial.after [.grantLease 7 1 10 0]).holdsLease 0 7 1 = true ∧
      ((WorkerHost.initial.after [.grantLease 7 1 10 0]).after [.advance 20 0]).holdsLease 0 7 1
        = false ∧
      (((WorkerHost.initial.after [.grantLease 7 1 10 0]).after [.advance 20 0]).after
        [.grantLease 7 1 10 0, .claimAttempt 100 5 1 [], .resolveClaim 5 (some 7) 1 60,
          .reboot 3 0 0, .grantLease 7 1 10 0]).holdsLease 0 7 1 = false := by
  have hheld : (WorkerHost.initial.after [.grantLease 7 1 10 0]).holdsLease 0 7 1
      = true := by decide
  have hfail : ((WorkerHost.initial.after [.grantLease 7 1 10 0]).after
    [.advance 20 0]).holdsLease 0 7 1 = false := by decide
  refine ⟨hheld, hfail, (lease_irrevocable ?_).1 0 7 1 _ 0 _ 0 hheld (WorkerHost.after_runs _ _)
    hfail (WorkerHost.after_runs _ _) (by decide)⟩
  exact (WorkerHost.after_runs _ _).reachable (.init rfl)

/-- A lease of ten seconds is renewed on a reading of the clock at nine.  The renewal waits
for the journal, the lease fails at eleven, and then the renewal takes effect. -/
theorem lease_revived : ∃ h h₁ h₂ : WorkerHost, workerHost.Reachable h ∧ h.holdsLease 0 7 1 = true
    ∧ h.next (.advance 11 0) = some h₁ ∧ h₁.holdsLease 0 7 1 = false
    ∧ h₁.next (.grantLease 7 1 60 2) = some h₂ ∧ h₂.holdsLease 0 7 1 = true := by
  refine ⟨WorkerHost.initial.after [.grantLease 7 1 10 0], _, _,
    ((WorkerHost.after_runs _ _).reachable (.init rfl)).reachable, ?_, rfl, ?_, rfl, ?_⟩ <;> decide

end Horizon
