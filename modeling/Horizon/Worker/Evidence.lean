import Horizon.Worker.Durability
import Horizon.Worker.Views

/-!
# Evidence of commits

A commit of an execution is recorded once an operation that says so is in the journal of the
daemon, or was acknowledged by the control plane.  No step loses such evidence
(`Daemon.Recorded.next`): the journal forgets only what is acknowledged, and the rows that
are acknowledged are those whose acknowledgement has arrived (`Daemon.Evident`).
-/

namespace Horizon

open Transaction Table List

variable {New : JournalEntry → Prop} {j j' : Journal} {acks : List WorkerOperation}
  {p : JournalEntry → Bool} {envelope : WorkerOperation} {destination : Destination}
  {refusal : Option String} {clock : HostClock} {id token : Id}
  {now seconds horizon : Int} {epoch : Nat}
  {entry : JournalEntry}

/-- An operation that records a commit of an execution. -/
def WorkerOperation.Records (executionId commit : Id) (op : WorkerOperation) : Prop :=
  op.executionId = executionId ∧ ∃ repositoryId,
    op.payload = .publication .discovered repositoryId commit

namespace Journal

/-- What a transaction does to the rows of a journal: `acks` are the operations it
acknowledges, and `New` describes a row that it appends. -/
structure Proceeds (acks : List WorkerOperation) (New : JournalEntry → Prop)
    (j j' : Journal) : Prop where
  forward : ∀ e ∈ j.operations,
    (∃ e' ∈ j'.operations, e.SameOperation e') ∨ e.state = .acknowledged
  backward : ∀ e' ∈ j'.operations, (∃ e ∈ j.operations, e.SameOperation e' ∧
      (e'.state = .acknowledged →
        e' = e ∨ e'.claimToken = none ∧ (e.destination = .api → e.envelope ∈ acks))) ∨
    e'.state = .pending ∧ New e'

namespace Proceeds

theorem of_reworked (h : j.Reworked j') : Proceeds acks New j j' where
  forward e he := by
    obtain ⟨e', he', hr⟩ := h.exists_mem he
    exact .inl ⟨e', he', hr.toSameOperation⟩
  backward e' he' := by
    obtain ⟨e, he, hr⟩ := h.exists_of_mem he'
    exact .inl ⟨e, he, hr.toSameOperation, fun hack => .inl (hr.not_new hack)⟩

theorem of_same (h : j'.operations = j.operations) : Proceeds acks New j j' :=
  of_reworked (.of_eq h)

theorem of_forgets (hp : ∀ e ∈ j.operations, e.state ≠ .acknowledged → p e)
    (h : j'.operations = j.operations.restrict p) : Proceeds acks New j j'  where
  forward e he := by
    by_cases hpe : p e
    · refine .inl ⟨e, ?_, .refl e⟩
      rw [h]
      exact mem_restrict.mpr ⟨he, hpe⟩
    · exact .inr (not_not.mp fun hstate => hpe (hp e he hstate))
  backward e' he' := by
    rw [h] at he'
    exact .inl ⟨e', (mem_restrict.mp he').1, .refl e', fun _ => .inl rfl⟩

theorem of_enqueues {row : JournalEntry} (hstate : row.state = .pending) (hnew : New row)
    (hrows : j'.operations.rows = j.operations.rows ++ [row]) : Proceeds acks New j j' where
  forward e he := by
    refine .inl ⟨e, ?_, .refl e⟩
    rw [mem_def, hrows]
    exact mem_append_left _ he
  backward e' he' := by
    rw [mem_def, hrows, mem_append, mem_singleton] at he'
    rcases he' with he | rfl
    · exact .inl ⟨e', he, .refl e', fun _ => .inl rfl⟩
    · exact .inr ⟨hstate, hnew⟩

theorem of_updateWhere {f : JournalEntry → JournalEntry}
    {hf : ∀ e, (f e).operationId = e.operationId}
    (hsame : ∀ e : JournalEntry, e.SameOperation (f e)) (htoken : ∀ e, (f e).claimToken = none)
    (hacks : ∀ e ∈ j.operations, p e → e.destination = .api → e.envelope ∈ acks) :
    Proceeds acks New j { j with operations := j.operations.updateWhere p f hf } where
  forward e he := by
    refine .inl ⟨_, (mem_updateWhere (e := hf)).mpr ⟨e, he, rfl⟩, ?_⟩
    split
    · exact hsame e
    · exact .refl e
  backward e' he' := by
    obtain ⟨e, he, rfl⟩ := (mem_updateWhere (e := hf)).mp he'
    refine .inl ⟨e, he, ?_⟩
    by_cases hp : p e
    · rw [if_pos hp]
      exact ⟨hsame e, fun _ => .inr ⟨htoken e, hacks e he hp⟩⟩
    · rw [if_neg hp]
      exact ⟨.refl e, fun _ => .inl rfl⟩

theorem unclaimed (h : Proceeds acks New j j') (hj : j.Unclaimed) : j'.Unclaimed := by
  intro e' he' hack
  rcases h.backward e' he' with ⟨e, he, -, hback⟩ | ⟨hstate, -⟩
  · rcases hback hack with rfl | ⟨htoken, -⟩
    · exact hj e' he hack
    · exact htoken
  · cases hstate.symm.trans hack

end Proceeds

theorem enqueue_proceeds (hnew : ∀ row : JournalEntry, row.envelope = envelope → New row) :
    Ensures (enqueue clock refusal id envelope destination) j fun _ j' =>
      Proceeds acks New j j' := by
  refine enqueue_cases.mono fun _ j' h => ?_
  rcases h with rfl | ⟨-, row, -, henvelope, hstate, hrows⟩
  · exact .of_same rfl
  · exact .of_enqueues hstate (hnew row henvelope) hrows

/-- After `enqueue` the operation is there, whether it is new or not. -/
theorem mem_of_enqueue :
    Ensures (enqueue clock refusal id envelope destination) j fun _ j' =>
      ∃ e ∈ j'.operations, e.envelope = envelope ∧ e.destination = destination := by
  intro _ j' h
  rw [enqueue] at h
  split at h
  · rename_i previous hfind
    split at h
    · cases h
    · rename_i hsame
      cases h
      rw [not_or, not_not, not_not] at hsame
      exact ⟨previous, (mem_of_find? hfind), hsame⟩
  · cases refusal with
    | some _ => cases h
    | none =>
      cases h
      exact ⟨_, mem_append_right _ mem_cons_self, rfl, rfl⟩

/-- Settling an operation with success acknowledges the rows of its claim. -/
theorem settle_proceeds {retryAt : Int} {error : Option String}
    (hacks : ∀ e ∈ j.operations, e.operationId = id → e.claimToken = some token →
      e.destination = .api → e.envelope ∈ acks) :
    Ensures (settle now id token .acknowledged retryAt error) j fun _ j' =>
      Proceeds acks New j j' := by
  rw [settle]
  refine .ite (fun _ => .raise) fun _ => ensures_bind.mpr ?_
  rintro n j' ⟨⟩
  refine .ite (fun _ => .raise) fun _ => .pure ?_
  refine .of_updateWhere (fun _ => ⟨rfl, rfl, rfl, rfl⟩) (fun _ => rfl) fun e he hp => ?_
  rw [Bool.and_eq_true, beq_iff_eq, beq_iff_eq] at hp
  exact hacks e he hp.1 hp.2

end Journal

namespace Daemon

/-- A commit of an execution is recorded. -/
def Recorded (s : Daemon) (id commit : Id) : Prop :=
  (∃ e ∈ s.journal.operations, e.destination = .api ∧ e.envelope.Records id commit) ∨
    ∃ op ∈ s.acknowledged, op.Records id commit

/-- A stop receipt of a stored execution, or another operation. -/
def Receives (s : Daemon) (e : JournalEntry) : Prop :=
  e.envelope.payload.isFinish → ∃ row, s.stored e.envelope.executionId = some row ∧
    row.epoch = e.envelope.epoch

/-- What the journal of a daemon has in every state. -/
structure Evident (s : Daemon) : Prop extends s.Wf where
  unclaimed : s.journal.Unclaimed
  acknowledged : ∀ e ∈ s.journal.operations, e.state = .acknowledged → e.destination = .api →
    e.envelope ∈ s.acknowledged
  finishes : ∀ e ∈ s.journal.operations, s.Receives e

/-- What a step does to the operations. -/
def Proceeds (s s' : Daemon) : Prop :=
  ∃ acks, s'.acknowledged = acks ++ s.acknowledged
    ∧ Journal.Proceeds acks s.Receives s.journal s'.journal

variable {treeOf : Id → Tree} {s s' : Daemon} {step : DaemonStep} {oid : Id} {row : LocalExecution}

theorem Proceeds.of_same (hjournal : s'.journal.operations = s.journal.operations)
    (hacknowledged : s'.acknowledged = s.acknowledged) : s.Proceeds s' :=
  ⟨[], by rw [hacknowledged]; rfl, .of_same hjournal⟩

/-- A write of a daemon. -/
theorem action_proceeds (hrow : s.stored id = some row) (hepoch : row.epoch = epoch) (w : Write) :
    Ensures (w.action s.clock id epoch) s.journal fun _ j' =>
      Journal.Proceeds [] s.Receives s.journal j' := by
  cases w with
  | nothing => exact .pure (.of_same rfl)
  | checkpoint => exact (Journal.checkpoint_sameOperations _).mono fun _ _ h => .of_same h
  | fence =>
    refine ensures_bind.mpr ?_
    exact (Journal.updateExecutions_sameOperations _).mono fun _ _ h => .pure (.of_same h)
  | renew => exact (Journal.grantLease_sameOperations _).mono fun _ _ h => .of_same h
  | begin =>
    refine ensures_bind.mpr ((Journal.beginRequest_keeps (R := Journal.SameOperations)
      (fun _ _ => rfl) _).mono fun _ _ h => ?_)
    exact .ite (fun _ => .raise) fun _ => .pure (.of_same h)
  | receipt _ =>
    refine ensures_bind.mpr (Ensures.mono (Journal.enqueue_proceeds ?_) fun _ _ h => .pure h)
    intro e he _
    rw [he]
    exact ⟨row, hrow, hepoch⟩
  | discovery =>
    refine ensures_bind.mpr (Ensures.mono (Journal.enqueue_proceeds ?_) fun _ _ h => .pure h)
    intro e he hfinish
    rw [he] at hfinish
    cases hfinish

/-- A transaction that leaves the executions alone. -/
theorem hostAction_proceeds (hs : s.journal.Unclaimed) {step : HostStep}
    (hspares : step.sparesExecutions) : Ensures (step.action s.clock) s.journal fun _ j' =>
      Journal.Proceeds (s.acknowledges step) s.Receives s.journal j' := by
  cases step with
  | enqueue _ operationId _ _ =>
    refine ensures_bind.mpr (Ensures.mono (Journal.enqueue_proceeds ?_) fun _ _ h => .pure h)
    intro e he hfinish
    rw [he] at hfinish
    simp [HostStep.sparesExecutions, hfinish] at hspares
  | claim =>
    exact ensures_bind.mpr
      (Journal.claim_reworked.mono fun _ _ h => .pure (.of_reworked h.1))
  | settle operationId _ state =>
    by_cases hstate : state = .acknowledged
    · subst hstate
      refine Journal.settle_proceeds fun e he hid htoken hdestination => ?_
      refine mem_map_of_mem (mem_filter.mpr ⟨he, ?_⟩)
      simp [hid, htoken, hdestination]
    · exact (Journal.settle_reworked hs hstate).mono fun _ _ h => .of_reworked h
  | renewDelivery =>
    exact ensures_bind.mpr
      (Journal.renewDelivery_reworked.mono fun _ _ h => .pure (.of_reworked h))
  | retryPublication => exact Journal.retryPublication_reworked.mono fun _ _ h => .of_reworked h
  | compact _ _ =>
    rintro _ _ ⟨⟩
    refine .of_forgets (fun e _ hstate => ?_) rfl
    simp [hstate]
  | claimAttempt | abandonClaim | finishRequest =>
    exact (HostStep.action_sameOperations rfl _).mono fun _ _ h => .of_same h
  | grantLease | checkpoint | fence | resolveClaim | beginRequest | advance | reboot | restart =>
    cases hspares

/-- A write that commits. -/
theorem commit_proceeds {w : Write} (h : s.commit id epoch w = some s')
    (hrow : s.stored id = some row) (hepoch : row.epoch = epoch) :
    Journal.Proceeds [] s.Receives s.journal s'.journal ∧ s'.acknowledged = s.acknowledged := by
  rw [commit] at h
  split at h
  · cases h
  · rename_i journal hcommit
    cases h
    exact ⟨action_proceeds hrow hepoch w _ _ hcommit, rfl⟩

@[simp] theorem change_acknowledged {c : ProviderChange} :
    (s.change id c).acknowledged = s.acknowledged := by
  cases c with
  | released _ => rw [change]; split <;> rfl
  | _ => rfl

/-- A step of a pass goes on to another row, or is a move in the recovery of its first one. -/
theorem passNext_cases {step : PassStep} (h : s.passNext treeOf step s.pass = some s') :
    (∃ pass starting, s' = { s with pass, starting }) ∨
      ∃ row rows includeRunning stage₀ name stage m,
      s.pass = some ⟨row :: rows, includeRunning, stage₀⟩ ∧
        s.recoverPlan treeOf row step stage = some m ∧
        s.recover row rows includeRunning name m = some s' := by
  rcases hpass : s.pass with _ | ⟨_ | ⟨row, rows⟩, includeRunning, _ | ⟨name, stage⟩⟩
  all_goals rw [hpass] at h
  case some.cons.some =>
    by_cases hstep : step = .abort
    · subst hstep
      cases h
      exact .inl ⟨_, _, rfl⟩
    · rw [passNext_recover hstep, Option.bind_eq_some_iff] at h
      obtain ⟨m, hplan, h⟩ := h
      exact .inr ⟨row, rows, includeRunning, _, name, stage, m, rfl, hplan, h⟩
  case some.cons.none =>
    cases step with
    | fail _ =>
      simp only [passNext] at h
      split at h
      · obtain ⟨m, hplan, h⟩ := Option.bind_eq_some_iff.mp h
        exact .inr ⟨row, rows, includeRunning, _, _, .locked, m, rfl, hplan, h⟩
      · cases h
    | abort => cases h; exact .inl ⟨_, _, rfl⟩
    | skip | take =>
      simp only [passNext] at h
      split at h <;> cases h
      exact .inl ⟨_, _, rfl⟩
    | _ => cases h
  all_goals
    cases step <;> cases h
    all_goals exact .inl ⟨_, _, rfl⟩

/-- What a step does to the operations. -/
theorem next_proceeds (hs : s.Wf) (hj : s.journal.Unclaimed) (h : s.next treeOf step = some s') :
    s.Proceeds s' := by
  cases step with
  | journal step =>
    simp only [next] at h
    split at h
    · rename_i hspares
      split at h
      · rename_i journal hcommit
        cases h
        exact ⟨_, rfl, hostAction_proceeds hj hspares _ _ hcommit⟩
      · cases h
    · cases h
  | advance | crash => cases h; exact .of_same rfl rfl
  | edit =>
    simp only [next] at h
    split at h
    · cases h
      exact .of_same rfl rfl
    · cases h
  | resolve _ executionId epoch _ _ _ =>
    simp only [next] at h
    split at h
    · cases h
    split at h
    · rename_i journal hresolve
      rw [Option.map_eq_some_iff] at h
      obtain ⟨_, -, rfl⟩ := h
      exact .of_same (Journal.resolveClaim_sameOperations _ _ _ hresolve) rfl
    · rename_i journal hresolve
      cases h
      exact .of_same (Journal.resolveClaim_sameOperations _ _ _ hresolve) rfl
    · cases h
  | lane id step =>
    simp only [next, Option.bind_eq_some_iff] at h
    obtain ⟨l, hlane, m, -, h⟩ := h
    obtain rfl : l.executionId = id := key_of_find? hlane
    obtain ⟨row, hrow, hepoch⟩ := hs.lane_row hlane
    rw [perform, Option.map_eq_some_iff] at h
    obtain ⟨s₁, hcommit, rfl⟩ := h
    obtain ⟨hproceeds, hacknowledged⟩ := commit_proceeds hcommit hrow hepoch
    refine ⟨[], ?_, ?_⟩
    · cases m.phase <;> simp [goOn, hacknowledged]
    · cases m.phase <;> simpa [goOn] using hproceeds
  | pass step =>
    rcases passNext_cases h with ⟨pass, _, rfl⟩ | ⟨prow, _, _, _, _, _, m, hpass, -, hrecover⟩
    · exact .of_same rfl rfl
    · obtain ⟨row, hrow, hevolves⟩ := hs.pass_row hpass prow mem_cons_self
      rw [recover, Option.map_eq_some_iff] at hrecover
      obtain ⟨s₁, hcommit, rfl⟩ := hrecover
      obtain ⟨hproceeds, hacknowledged⟩ := commit_proceeds hcommit hrow hevolves.epoch
      refine ⟨[], ?_, ?_⟩
      · simp [hacknowledged]
      · simpa using hproceeds

/-- What is recorded stays recorded. -/
theorem Recorded.next (hs : s.Evident) (h : s.Recorded id oid) (hproceeds : s.Proceeds s') :
    s'.Recorded id oid := by
  obtain ⟨_, hacks, hrows⟩ := hproceeds
  have kept : ∀ {op}, op ∈ s.acknowledged → op ∈ s'.acknowledged := fun hop => by
    rw [hacks]
    exact mem_append_right _ hop
  rcases h with ⟨e, he, hdestination, hrecords⟩ | ⟨op, hop, hrecords⟩
  · rcases hrows.forward e he with ⟨e', he', hsame⟩ | hstate
    · exact .inl
        ⟨e', he', hsame.destination.trans hdestination, by rw [hsame.envelope]; exact hrecords⟩
    · exact .inr ⟨e.envelope, kept (hs.acknowledged e he hstate hdestination), hrecords⟩
  · exact .inr ⟨op, kept hop, hrecords⟩

theorem Evident.next (hs : s.Evident) (h : s.next treeOf step = some s') : s'.Evident := by
  obtain ⟨hchange, hwf, -⟩ := next_change hs.toWf h
  obtain ⟨_, hacks, hrows⟩ := next_proceeds hs.toWf hs.unclaimed h
  have received : ∀ {e e' : JournalEntry}, e'.envelope = e.envelope → s.Receives e →
      s'.Receives e' := by
    intro e e' henvelope hreceives hfinish
    rw [henvelope] at hfinish ⊢
    obtain ⟨row, hrow, hepoch⟩ := hreceives hfinish
    obtain ⟨row', hrow', hevolves⟩ := (hchange _).row_evolves hrow
    exact ⟨row', hrow', hevolves.epoch.trans hepoch⟩
  refine ⟨hwf, hrows.unclaimed hs.unclaimed, fun e' he' hack hdestination => ?_, fun e' he' => ?_⟩
  · rw [hacks, mem_append]
    rcases hrows.backward e' he' with ⟨e, he, hsame, hback⟩ | ⟨hstate, -⟩
    · rw [hsame.destination] at hdestination
      rcases hback hack with rfl | ⟨-, hmem⟩
      · exact .inr (hs.acknowledged e' he hack hdestination)
      · rw [hsame.envelope]
        exact .inl (hmem hdestination)
    · cases hstate.symm.trans hack
  · rcases hrows.backward e' he' with ⟨e, he, hsame, -⟩ | ⟨-, hnew⟩
    · exact received hsame.envelope (hs.finishes e he)
    · exact received rfl hnew

theorem evident_initial (checkouts : WorkspacePath → Checkout) : (initial checkouts).Evident where
  toWf := wf_initial checkouts
  unclaimed _ he := absurd he notMem_empty
  acknowledged _ he := absurd he notMem_empty
  finishes _ he := absurd he notMem_empty

/-- A discovery that commits records its commit. -/
theorem recorded_of_commit {repositoryId operationId : Id} {occurredAt : Instant}
    (h : s.commit id epoch (.discovery repositoryId oid operationId occurredAt) = some s') :
    s'.Recorded id oid := by
  rw [commit] at h
  split at h
  · cases h
  · rename_i journal hcommit
    cases h
    have hmem : Ensures
        (Write.action s.clock id epoch (.discovery repositoryId oid operationId occurredAt))
        s.journal fun _ j' => ∃ e ∈ j'.operations, e.envelope = _ ∧ e.destination = .api :=
      ensures_bind.mpr (Journal.mem_of_enqueue.mono fun _ _ h => .pure h)
    obtain ⟨e, he, henvelope, hdestination⟩ := hmem _ _ hcommit
    exact .inl ⟨e, he, hdestination, by rw [henvelope]; exact ⟨rfl, repositoryId, rfl⟩⟩

/-- When a stop receipt is claimed, every recorded commit of its execution is acknowledged. -/
theorem Evident.acknowledged_of_claim (hs : s.Evident)
    (hclaim : s.journal.claim horizon now seconds destination token = .ok (some entry, j'))
    (hfinish : entry.envelope.payload.isFinish)
    (hrecorded : s.Recorded entry.envelope.executionId oid) :
    ∃ op ∈ s.acknowledged, op.Records entry.envelope.executionId oid := by
  have hreleased := Journal.claim_released _ _ hclaim entry rfl hfinish
  rcases hrecorded with ⟨e, he, hdestination, hrecords⟩ | h
  · refine ⟨e.envelope, hs.acknowledged e he ?_ hdestination, hrecords⟩
    obtain ⟨hid, _, hpayload⟩ := hrecords
    exact hreleased.discovered e he hdestination (by rw [hpayload]; rfl) hid
  · exact h

/-- When a stop receipt is claimed, its execution is not marked for recovery. -/
theorem Evident.unmarked_of_claim (hs : s.Evident)
    (hclaim : s.journal.claim horizon now seconds destination token = .ok (some entry, j'))
    (hfinish : entry.envelope.payload.isFinish) :
    ∃ row, s.stored entry.envelope.executionId = some row
      ∧ row.checkpoint.recoveryPending = false := by
  obtain ⟨e, he, -, henvelope, -⟩ := (Journal.claim_reworked _ _ hclaim).2 entry rfl
  have hreceives := hs.finishes e he
  rw [Receives, henvelope] at hreceives
  obtain ⟨row, hrow, hepoch⟩ := hreceives hfinish
  obtain ⟨hmem, hid⟩ := find?_eq_some.mp hrow
  have hreleased := Journal.claim_released _ _ hclaim entry rfl hfinish
  exact ⟨row, hrow, hreleased.recovered row hmem hid hepoch⟩

end Daemon

end Horizon
