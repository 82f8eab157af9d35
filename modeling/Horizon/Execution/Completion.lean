import Horizon.Effects.Operations
import Horizon.Integrations.Outbox

/-!
# When a session is complete

`finish` completes a session of an objective run when `completion_findings` finds nothing that
is outstanding.  The findings about notices, deliveries and goal updates are readings of the
environment elsewhere; here they are read from the records of the session, as
`settlement_findings` queries them.

An orchestration episode does not account for the obligation it was created with, since the
host settles it.  Objective runs have no such episodes as long as no update gives a session of
theirs the orchestrator's function.
-/

namespace Horizon

open Transaction Table List Installation DB

variable {reason : Option StopReason} {failure : Option Failure} {run : Run}
  {status : ExecutionOutcome}
  {a' item : Assignment} {P : Event → Prop} {s : DB} {r : SessionRecords} {journalPending : Bool}

/-! ## The records of a session -/

inductive Urgency where
  | routine | direct | control
deriving DecidableEq

inductive Disposition where
  | pending | handled | dismissed
deriving DecidableEq

/-- A row of `notification`. -/
structure Notification where
  assignmentId : Id
  urgency : Urgency
  disposition : Disposition := .pending

inductive OutboxKind where
  | delivery (kind : DeliveryKind)
  | providerInput | goalUpdate | publication | workerEvent
deriving DecidableEq

/-- `EXTERNAL_DELIVERIES`. -/
def OutboxKind.isExternal : OutboxKind → Bool
  | .delivery _ => true
  | .providerInput | .goalUpdate | .publication | .workerEvent => false

/-- A row of `outbox_operation`, as far as the settlement of a session reads it. -/
structure OutboxRecord where
  kind : OutboxKind
  status : DeliveryStatus := .pending
  /-- The execution of the principal that queued it. -/
  executionId : Option Id := none
  /-- The context its payload names. -/
  providerThreadId : Option Id := none

/-- The statuses a delivery is left in when nothing has come of it. -/
def DeliveryStatus.isOutstanding (includePending : Bool) : DeliveryStatus → Bool
  | .pending | .running | .uncertain => includePending
  | .failed => true
  | .completed | .cancelled => false

/-- The tables that only `settlement_findings` reads. -/
structure SessionRecords where
  notifications : List Notification
  outbox : List OutboxRecord

namespace SessionRecords

variable (r : SessionRecords) (db : DB) (assignmentId : Id)

/-- `assignment_deliveries`. -/
def assignmentDeliveries : List OutboxRecord :=
  r.outbox.filter fun o => o.kind.isExternal
    && (o.executionId.bind (db .execution).find?).any (·.assignmentId == assignmentId)

/-- `pending_deliveries`. -/
def pendingDeliveries : Bool := (r.assignmentDeliveries db assignmentId).any (·.status.blocks)

/-- The control notices a session has not disposed of. -/
def controlNotices : List Notification :=
  r.notifications.filter fun n => n.assignmentId == assignmentId && n.urgency == .control
    && n.disposition == .pending

/-- The goal updates the contexts of a session have not taken in. -/
def goalUpdates : List OutboxRecord :=
  r.outbox.filter fun o => o.kind == .goalUpdate && (o.status == .pending || o.status == .running)
    && (o.providerThreadId.bind (db .providerThread).find?).any (·.assignmentId == assignmentId)

/-- The findings of `settlement_findings` about notices, deliveries and goal updates. -/
def settlementNotices (includePending : Bool) : List String :=
  let control := (r.controlNotices assignmentId).length
  let deliveries := ((r.assignmentDeliveries db assignmentId).filter
    (·.status.isOutstanding includePending)).length
  (if control = 0 then [] else
    ["Handle " ++ toString control ++ " pending control notifications."])
    ++ (if deliveries = 0 then [] else ["Reconcile " ++ toString deliveries
      ++ " outstanding Forge or Zulip deliveries before completion; "
      ++ "inspect their receipts and failures."])
    ++ (if (r.goalUpdates db assignmentId).length = 0 then [] else
      ["Read and follow the updated mission or roadmap baseline in the continuation input. "
      ++ "Successful provider completion automatically acknowledges that input's pinned revision. "
      ++ "Do not PATCH the mission or rewrite delegation_note merely to acknowledge it; "
      ++ "that creates another goal update. "
      ++ "Make a mission edit only for an actual contract or guidance change."])

/-- Nothing of a session is outstanding. -/
structure Accounted : Prop where
  obligations : ∀ o ∈ db .obligation, o.assignmentId = assignmentId → o.status ≠ .opened
  reviews : ∀ d ∈ db .reviewDemand, d.assignmentId = some assignmentId →
    d.ownerGeneration ≤ d.handledGeneration
  requests : ∀ q ∈ db .providerRequest, ∀ thread,
    (db .providerThread).find? q.providerThreadId = some thread →
    thread.assignmentId = assignmentId → q.status.isUnsettled = false
  notices : ∀ n ∈ r.notifications, n.assignmentId = assignmentId → n.urgency = .control →
    n.disposition ≠ .pending
  deliveries : ∀ o ∈ r.outbox, o.kind.isExternal → ∀ e ∈ db .execution,
    o.executionId = some e.id → e.assignmentId = assignmentId → o.status.isOutstanding true = false
  goals : ∀ o ∈ r.outbox, o.kind = .goalUpdate → ∀ thread ∈ db .providerThread,
    o.providerThreadId = some thread.id → thread.assignmentId = assignmentId →
      o.status ≠ .pending ∧ o.status ≠ .running

end SessionRecords

/-- An environment that reads the records of the sessions. -/
def Env.reading (env : Env) (r : SessionRecords) : Env :=
  { env with obs := { env.obs with
      pendingDeliveries := r.pendingDeliveries, settlementNotices := r.settlementNotices } }

/-! ## What the findings say -/

section

variable {env : Env}

/-- A message that is left out when its count is zero. -/
theorem eq_nil_of_counted {α β : Type} {l : List α} {message : β}
    (h : (if l.length = 0 then [] else [message]) = []) : l = [] := by
  by_cases hl : l.length = 0
  · exact length_eq_zero_iff.mp hl
  · rw [if_neg hl] at h
    cases h

/-- A session without notices has none outstanding in its records. -/
theorem accounted_of_settlementNotices {id : Id} (h : r.settlementNotices s id true = []) :
    (r.controlNotices id = [] ∧ r.goalUpdates s id = [])
      ∧ ∀ o ∈ r.assignmentDeliveries s id, o.status.isOutstanding true = false := by
  simp only [SessionRecords.settlementNotices, append_eq_nil_iff] at h
  obtain ⟨⟨hcontrol, hdeliveries⟩, hgoals⟩ := h
  refine ⟨⟨eq_nil_of_counted hcontrol, eq_nil_of_counted hgoals⟩, fun o ho => ?_⟩
  simpa using filter_eq_nil_iff.mp (eq_nil_of_counted hdeliveries) o ho

/-- A session without findings has nothing outstanding, unless it is an orchestration episode. -/
theorem accounted_of_completionFindings (hitem : (s .assignment).find? item.id = some item)
    (hfun : item.functions.contains .orchestrator = false)
    (h : s.completionFindings (env.reading r) item.id = .ok []) : r.Accounted s item.id := by
  simp only [completionFindings, check_bind_eq_ok, check_pure_eq_ok, append_eq_nil_iff,
    settlementFindings] at h
  obtain ⟨_, hget, ⟨⟨hreview, hopen⟩, _⟩, hrequests, hnotices⟩ := h
  cases hitem.symm.trans (get_eq_ok.mp hget)
  have hopen := filter_eq_nil_iff.mp (eq_nil_of_counted hopen)
  have hrequests := filter_eq_nil_iff.mp (eq_nil_of_counted hrequests)
  obtain ⟨⟨hcontrol, hgoals⟩, hdeliveries⟩ := accounted_of_settlementNotices (r := r) hnotices
  refine ⟨fun o ho hid hstatus => ?_, fun d hd hid => ?_, fun q hq thread hthread hid => ?_,
    fun n hn hid hurgency hpending => ?_, fun o ho hext e he heid hid => ?_,
    fun o ho hkind thread hthread htid hid => ?_⟩
  · exact hopen o ho (by rw [hfun, hid, hstatus]; simp)
  · by_contra hlt
    have hany : (s .reviewDemand).rows.any (fun d => d.assignmentId == some item.id
        && decide (d.handledGeneration < d.ownerGeneration)) :=
      any_eq_true.mpr ⟨d, hd, by simp [hid, Nat.not_le.mp hlt]⟩
    rw [if_pos hany] at hreview
    cases hreview
  · simpa [hthread, hid] using hrequests q hq
  · exact filter_eq_nil_iff.mp hcontrol n hn (by simp [hid, hurgency, hpending])
  · refine hdeliveries o (mem_filter.mpr ⟨ho, ?_⟩)
    have hfind : (s .execution).find? e.id = some e := find?_key he
    simp [hext, heid, hfind, hid]
  · have hfind : (s .providerThread).find? thread.id = some thread :=
      find?_key hthread
    simpa [hkind, htid, hfind, hid] using filter_eq_nil_iff.mp hgoals o ho

/-- What an execution makes of its session in an objective run. -/
theorem finishValues_cases {stopping : Bool} {o : Outcome}
    (h : s.finishValues env item run status failure stopping reason journalPending = .ok o) :
    o.status = .pending ∨ o.status = .cancelled ∨ (o.status = .completed ∧ stopping = false
      ∧ (status = .succeeded ∨ status = .yielded) ∧ journalPending = false
      ∧ s.completionFindings env item.id = .ok []) := by
  have hpending : ∀ {o o' : Outcome}, (pure o' : Except Error Outcome) = .ok o →
      o'.status = .pending → o.status = .pending := fun h ho => check_pure_eq_ok.mp h ▸ ho
  simp only [finishValues, check_bind_eq_ok] at h
  obtain ⟨retry, _, h⟩ := h
  split at h
  · rw [← check_pure_eq_ok.mp h]
    exact .inr (.inl rfl)
  split at h
  · refine .inl (hpending h ?_)
    rw [failureOutcome]
    dsimp only
    split
    · rfl
    · split <;> rfl
  split at h
  · exact .inl (hpending h rfl)
  split at h
  · exact .inl (hpending h rfl)
  obtain ⟨findings, hfindings, h⟩ := check_bind_eq_ok.mp h
  split at h
  case isTrue hstop hstatus hjournal _ _ hempty =>
    obtain rfl := List.isEmpty_iff.mp hempty
    rw [← check_pure_eq_ok.mp h]
    refine .inr
      (.inr ⟨rfl, by simpa using (not_or.mp hstop).1, ?_, by simpa using hjournal, hfindings⟩)
    by_contra hnot
    exact hstatus ⟨fun h => hnot (.inl h), fun h => hnot (.inr h)⟩
  split at h
  · exact .inl (hpending h rfl)
  split at h
  · exact .inl (hpending h rfl)
  split at h
  · exact .inl (hpending h rfl)
  · exact .inl (hpending h rfl)

end

/-! ## The functions of sessions -/

section

variable {s' : DB} {ev : Event}

/-- No session of an objective run has the orchestrator's function. -/
def DB.Profiled (s : DB) : Prop := ∀ a ∈ s .assignment, s.isObjectiveRun a.runId →
  a.functions.contains .orchestrator = false

/-- Only settling an assignment completes or fails it. -/
theorem Effect.ended_origin (h : Effect ev s s') (hev : ∀ id, ev ≠ .assignmentSettled id)
    (ha' : a' ∈ s' .assignment) (hended : a'.status = .completed ∨ a'.status = .failed) :
    ∃ a ∈ s .assignment, a'.id = a.id ∧ a'.runId = a.runId ∧ a'.status = a.status := by
  rcases h.assignment_origin ha' with ⟨_, hqueued, _⟩ | ⟨a, ha, he⟩
  · rw [hqueued.status] at hended
    rcases hended with hended | hended <;> cases hended
  refine ⟨a, ha, he.id, he.work.runId, he.status.resolve_right fun hm => ?_⟩
  cases hm with
  | revived hs | admitted _ hs => rw [hs] at hended; simp at hended
  | lost _ hs => rw [hs] at hended; split at hended <;> simp at hended
  | settled => exact hev a.id rfl

/-- Without a settled assignment, every completed or failed one was there before. -/
theorem Effects.ended_origin (h : Effects P s s')
    (hP : ∀ ev, P ev → ∀ id, ev ≠ .assignmentSettled id)
    (ha' : a' ∈ s' .assignment) (hended : a'.status = .completed ∨ a'.status = .failed) :
    ∃ a ∈ s .assignment, a'.id = a.id ∧ a'.runId = a.runId ∧ a'.status = a.status := by
  revert a'
  refine h.preserves (I := fun s' => ∀ {a' : Assignment}, a' ∈ s' .assignment →
    (a'.status = .completed ∨ a'.status = .failed) →
    ∃ a ∈ s .assignment, a'.id = a.id ∧ a'.runId = a.runId ∧ a'.status = a.status) ?_ ?_
  · intro ev _ _ hev he hI a' ha' hended
    obtain ⟨a, ha, hid, hrun, hs⟩ := he.ended_origin (hP ev hev) ha' hended
    obtain ⟨b, hb, hid', hrun', hs'⟩ := hI ha (hs ▸ hended)
    exact ⟨b, hb, hid.trans hid', hrun.trans hrun', hs.trans hs'⟩
  · exact fun {a'} ha' _ => ⟨a', ha', rfl, rfl, rfl⟩

/-- The steps that give no session of an objective run the orchestrator's function. -/
def Label.keepsProfile (s : DB) (l : Label) : Bool :=
  match l.operation with
  | .command _ (.updateAssignment id data) =>
    !(data.functions.any (·.contains .orchestrator) && s.isObjective id)
  | _ => true

/-- The run of a stored assignment stays an objective run, or none. -/
theorem Effects.isObjectiveRun_of_mem (h : Effects P s s') (hs : Sound s) {a : Assignment}
    (ha : a ∈ s .assignment) : s'.isObjectiveRun a.runId = s.isObjectiveRun a.runId := by
  obtain ⟨run, hrun⟩ := hs.runOf (find?_key ha)
  exact h.isObjectiveRun (by rw [has, hrun]; rfl)

/-- The writes of a step that gives no objective session the orchestrator's function. -/
theorem DB.Profiled.effects {l : Label} (hp : s.Profiled) (hs : Sound s)
    (hl : l.keepsProfile s) (h : Effects (l.Emits s) s s') : s'.Profiled := by
  refine (h.preserves (I := fun s' => Effects (l.Emits s) s s' ∧ s'.Profiled) ?_
    ⟨Moves.refl s, hp⟩).2
  rintro ev s₁ s₂ hev he ⟨h₁, hp₁⟩
  refine ⟨h₁.trans (.single hev he), fun a' ha' hobj => ?_⟩
  rcases he.assignment_origin ha' with ⟨_, hqueued, _⟩ | ⟨a, ha, hevolves⟩
  · exact hqueued.functions
  have he : Effects (l.Emits s) s₁ s₂ := .single hev he
  rw [hevolves.work.runId, he.isObjectiveRun_of_mem (h₁.sound hs) ha] at hobj
  rcases hevolves.functions with hfun | ⟨_, rfl⟩
  · rw [hfun]
    exact hp₁ a ha hobj
  -- The update names an assignment of an objective run, where the step began as well.
  obtain ⟨_, _, b, hop, hdata, hb⟩ := hev.comesFrom
  obtain ⟨b', hb', hw⟩ := h₁.sameAccounts.assignment _ b hb
  obtain rfl := Option.some.inj (hb'.symm.trans (find?_key ha))
  rw [hw.runId, h₁.isObjectiveRun_of_mem hs (mem_of_find? hb)] at hobj
  by_contra hcontains
  have hobjective : s.isObjective b'.id := by
    rw [isObjective, hb]
    exact hobj
  simp only [Label.keepsProfile, hop, hdata, hobjective, Option.any_some, Bool.and_true] at hl
  rw [Bool.not_eq_true', ← Bool.not_eq_true] at hl
  exact hl (Bool.not_eq_false _ ▸ hcontains)

/-- The states that guarded runs reach, and those their next steps pass through. -/
inductive Passes (guard : DB → Label → Prop) : DB → Prop
  | reached {s : DB} : controlPlane.ReachableBy guard s → Passes guard s
  | within {s s' : DB} {l : Label} : controlPlane.ReachableBy guard s → guard s l →
    Effects (l.Emits s) s s' → Passes guard s'

theorem Passes.sound {guard : DB → Label → Prop} (h : Passes guard s) : Sound s := by
  cases h with
  | reached hs => exact sound_of_reachable hs
  | within hs _ heff => exact heff.sound (sound_of_reachable hs)

theorem profiled_of_reachable (h : controlPlane.ReachableBy (Label.keepsProfile · ·) s) :
    s.Profiled := by
  refine (h.invariant (I := fun s => Sound s ∧ s.Profiled) ?_ ?_).2
  · rintro _ rfl
    exact ⟨sound_empty, fun a ha => absurd ha notMem_empty⟩
  · rintro s l s' ⟨hs, hp⟩ hl hstep
    have heff := step_effects hs hstep
    exact ⟨heff.sound hs, hp.effects hs hl heff⟩

theorem Passes.profiled (h : Passes (Label.keepsProfile · ·) s) : s.Profiled := by
  cases h with
  | reached hs => exact profiled_of_reachable hs
  | within hs hl heff => exact (profiled_of_reachable hs).effects (sound_of_reachable hs) hl heff

end

/-! ## Finishing -/

section

variable {env : Env} {actor : Actor} {execution e : Execution} {s₁ s₂ s₃ s' : DB}

/-- What is accounted for where the outcome is decided was so before the execution was fenced. -/
theorem Finished.accounted
    (h : Finished env actor execution status failure journalPending reason item run s s₁ s₂ s₃ s')
    (hexec : (s .execution).find? execution.id = some e) (hagrees : execution.Agrees e)
    (hframe : ∀ t, t ≠ .execution → t ≠ .resourceClaim → t ≠ .resourceLimit → s₂ t = s t)
    {id : Id} (ha : r.Accounted s₂ id) : r.Accounted s id := by
  obtain ⟨row, hrw, _, hassigned, _⟩ := h.fenced
  have hsame : ∀ e' ∈ s .execution, ∃ e'' ∈ s₂ .execution, e''.id = e'.id
      ∧ e''.assignmentId = e'.assignmentId := by
    intro e' he'
    rw [h.account.frame fun ev hev => (Event.isAccounting_frame hev).1]
    by_cases hid : e'.id = execution.id
    · obtain ⟨hrow, hkey⟩ := find?_eq_some.mp hrw.stored
      have hstored : (s .execution).find? execution.id = some e' := find?_eq_some.mpr ⟨he', hid⟩
      cases hexec.symm.trans hstored
      exact ⟨row, hrow, hkey.trans hid.symm, hassigned.trans hagrees.1.assignmentId.symm⟩
    · have hstored : (s₁ .execution).find? e'.id = some e' := by
        rw [hrw.others _ hid]
        exact find?_key he'
      exact ⟨e', (mem_of_find? hstored), rfl, rfl⟩
  refine ⟨?_, ?_, ?_, ha.notices, fun o ho hext e' he' hid hassign => ?_, ?_⟩
  · rw [← hframe .obligation (by decide) (by decide) (by decide)]
    exact ha.obligations
  · rw [← hframe .reviewDemand (by decide) (by decide) (by decide)]
    exact ha.reviews
  · rw [← hframe .providerRequest (by decide) (by decide) (by decide),
      ← hframe .providerThread (by decide) (by decide) (by decide)]
    exact ha.requests
  · obtain ⟨e'', he'', hid', hassign'⟩ := hsame e' he'
    exact ha.deliveries o ho hext e'' he'' (hid.trans (by rw [hid'])) (hassign'.trans hassign)
  · rw [← hframe .providerThread (by decide) (by decide) (by decide)]
    exact ha.goals

/-- An assignment that is completed or failed at the end of an execution was so before, or is the
one the execution worked on. -/
theorem Finished.ended
    (h : Finished env actor execution status failure journalPending reason item run s s₁ s₂ s₃ s')
    (ha' : a' ∈ s' .assignment) (hended : a'.status = .completed ∨ a'.status = .failed) :
    (∃ a ∈ s .assignment, a'.id = a.id ∧ a.status = a'.status)
      ∨ (a'.id = item.id ∧ a'.runId = item.runId ∧ ∃ outcome, a'.status = outcome.status
        ∧ (run.orchestration = .objective →
          (∀ t, t ≠ .execution → t ≠ .resourceClaim → t ≠ .resourceLimit → s₂ t = s t)
            ∧ s₂.finishValues env item run status (failure.map normalizeFailure)
              (isStopping item run) reason journalPending = .ok outcome)) := by
  obtain ⟨a₃, ha₃, hid₃, hrun₃, hstatus₃⟩ := h.follow.ended_origin (fun ev hev id heq => by
    rw [heq] at hev
    cases hev) ha' hended
  obtain ⟨row, outcome, hrw, _, ⟨a, ha, hrow⟩, hobjective⟩ := h.settled
  have hkey : (s₃ .assignment).find? a₃.id = some a₃ := find?_key ha₃
  by_cases hid : a₃.id = item.id
  · cases hrw.stored.symm.trans (hid ▸ hkey)
    have hwork : item.SameWork a := by
      have hitemId : item.id = execution.assignmentId := key_of_find? h.itemOf
      have heff : Effects (fun _ => True) s s₂ :=
        (h.fence.mono fun _ _ => trivial).trans (h.account.mono fun _ _ => trivial)
      obtain ⟨b, hb, hw⟩ := heff.sameAccounts.assignment _ item (hitemId ▸ h.itemOf)
      cases ha.symm.trans hb
      exact hw
    refine .inr ⟨hid₃.trans hid, hrun₃.trans ?_, outcome,
      hstatus₃.trans (by rw [hrow]; rfl), hobjective⟩
    rw [hrow]
    exact hwork.runId
  · rw [hrw.others _ hid] at hkey
    obtain ⟨_, ha₁, hid₁, _, hstatus₁⟩ := h.account.ended_origin (fun ev hev id heq => by
      rw [heq] at hev
      cases hev) (mem_of_find? hkey) (hstatus₃ ▸ hended)
    obtain ⟨a₀, ha₀, hid₀, _, hstatus₀⟩ := h.fence.ended_origin (fun ev hev id heq => by
      rcases hev with hev | ⟨_, _, hev⟩ <;> cases heq.symm.trans hev) ha₁
        (hstatus₁ ▸ hstatus₃ ▸ hended)
    exact .inl ⟨a₀, ha₀, hid₃.trans (hid₁.trans hid₀),
      (hstatus₃.trans (hstatus₁.trans hstatus₀)).symm⟩

/-- In every state that runs without orchestrators in objective runs pass through, an execution
completes a session of an objective run only if it is the execution's own, if the execution
succeeded or yielded without being stopped, with its journal settled, and if nothing of the session
is outstanding; and it fails no session of an objective run. -/
theorem objective_completion (hs : Passes (Label.keepsProfile · · = true) s)
    (hexec : (s .execution).find? execution.id = some e) (hagrees : execution.Agrees e)
    {row : Assignment} (h : finish (env.reading r) actor execution status failure journalPending
      reason s = .ok (row, s')) :
    ∀ a' ∈ s' .assignment, s'.isObjectiveRun a'.runId = true →
      (a'.status = .completed → (∃ a ∈ s .assignment, a'.id = a.id ∧ a.status = .completed)
        ∨ (a'.id = execution.assignmentId ∧ (status = .succeeded ∨ status = .yielded)
          ∧ journalPending = false ∧ r.Accounted s a'.id
          ∧ ∀ a run, (s .assignment).find? a'.id = some a → (s .run).find? a.runId = some run →
            a.status ≠ .stopping ∧ run.status ≠ .stopping ∧ run.status ≠ .cancelled))
      ∧ (a'.status = .failed → ∃ a ∈ s .assignment, a'.id = a.id ∧ a.status = .failed) := by
  intro a' ha' hobj
  have hsound := hs.sound
  rcases finish_ensures hsound ⟨e, hexec, hagrees⟩ row s' h with
    ⟨_, rfl⟩ | ⟨item, run, _, s₂, _, _, hfin⟩
  · exact ⟨fun hc => .inl ⟨a', ha', rfl, hc⟩, fun hf => ⟨a', ha', rfl, hf⟩⟩
  have hitemId : item.id = execution.assignmentId := key_of_find? hfin.itemOf
  have hitem : item ∈ s .assignment := mem_of_find? hfin.itemOf
  have heffects : Effects (fun _ => True) s s' :=
    hfin.effects (fun _ _ => trivial) trivial (fun _ _ => trivial) fun _ _ _ => trivial
  -- The execution's own session is settled by `finish_values` if its run is an objective run.
  have hown : a'.runId = item.runId → run.orchestration = .objective
      ∧ s.isObjectiveRun item.runId = true := by
    intro hrun
    rw [hrun, heffects.isObjectiveRun_of_mem hsound hitem] at hobj
    refine ⟨?_, hobj⟩
    simpa [isObjectiveRun, hfin.runOf] using hobj
  refine ⟨fun hc => ?_, fun hf => ?_⟩
  · rcases hfin.ended ha' (.inl hc) with
      ⟨a, ha, hid, hstatus⟩ | ⟨hid, hrun, outcome, hstatus, hvalues⟩
    · exact .inl ⟨a, ha, hid, hstatus.trans hc⟩
    obtain ⟨horch, hobj⟩ := hown hrun
    obtain ⟨hframe, hok⟩ := hvalues horch
    have hdone := finishValues_cases hok
    rw [← hstatus, hc] at hdone
    obtain ⟨_, hstopping, houtcome, hjournal, hfindings⟩ :=
      (hdone.resolve_left (by decide)).resolve_left (by decide)
    have hstored : (s .assignment).find? item.id = some item := find?_key hitem
    have haccounted : r.Accounted s₂ item.id := by
      refine accounted_of_completionFindings ?_ (hs.profiled item hitem hobj) hfindings
      rw [hframe .assignment (by decide) (by decide) (by decide), hstored]
    refine .inr ⟨hid.trans hitemId, houtcome, hjournal,
      hid ▸ hfin.accounted hexec hagrees hframe haccounted, fun a _ ha hrun' => ?_⟩
    cases hstored.symm.trans (hid ▸ ha)
    cases hfin.runOf.symm.trans hrun'
    simpa [isStopping, and_assoc] using hstopping
  · rcases hfin.ended ha' (.inr hf) with
      ⟨a, ha, hid, hstatus⟩ | ⟨hid, hrun, outcome, hstatus, hvalues⟩
    · exact ⟨a, ha, hid, hstatus.trans hf⟩
    have hdone := finishValues_cases (hvalues (hown hrun).1).2
    rw [← hstatus, hf] at hdone
    rcases hdone with h | h | ⟨h, _⟩ <;> cases h

end

namespace Installation

/-- A queued worker of an objective run is given functions, and starts. -/
def profiled (functions : List AgentFunction) : List Label := busy.dropLast ++
  [ byAdmin 21 (.command 1 (.updateAssignment 3 { functions := some functions }))
  , byHost 22 (.claim 1 [1]) ]

/-- A debugger accounts for its deliverable. -/
def accounted : List Label := profiled [.debugger] ++
  [byAdmin 23 (.resolveObligation (.recorded 3) 1 (.completed "Done" []))]

/-- Records without deliveries, with a control notice of another session. -/
def records : SessionRecords := ⟨[⟨1, .control, .pending⟩], []⟩

/-- The success of the second execution. -/
def succeed (s : DB) (e : Execution) : Except Error (Assignment × DB) :=
  finish ((env 24).reading records) host e .succeeded none false none s

/-- Whether the success of the second execution completes its running session. -/
def completes (s : DB) : Bool :=
  ((s .assignment).find? 3).any (·.status == .running) && match (s .execution).find? 2 with
    | none => false
    | some e => match succeed s e with
      | .error _ => false
      | .ok (_, s') => ((s' .assignment).find? 3).any fun a =>
        s'.isObjectiveRun a.runId && a.status == .completed

theorem completes_eq_true (h : completes s) :
    ∃ e row s' a a', (s .execution).find? 2 = some e ∧ succeed s e = .ok (row, s')
      ∧ (s .assignment).find? 3 = some a ∧ a.status = .running
      ∧ (s' .assignment).find? 3 = some a' ∧ s'.isObjectiveRun a'.runId
      ∧ a'.status = .completed := by
  rw [completes, Bool.and_eq_true, Option.any_eq_true] at h
  obtain ⟨⟨a, ha, hrunning⟩, h⟩ := h
  cases he : (s .execution).find? 2 with
  | none => simp [he] at h
  | some e =>
    cases hs : succeed s e with
    | error => simp [he, hs] at h
    | ok result =>
      simp only [he, hs, Option.any_eq_true, Bool.and_eq_true, beq_iff_eq] at h
      obtain ⟨a', ha', hobj, hc⟩ := h
      exact ⟨e, result.1, result.2, a, a', rfl, hs, ha, by simpa using hrunning, ha', hobj, hc⟩

end Installation

/-- An update makes a worker of an objective run an orchestrator, and its execution completes it
with the obligation it was created with open. -/
theorem orchestrator_completes :
    controlPlane.Reachable (outcome (profiled [.orchestrator]))
    ∧ ∃ e row s' a a', (outcome (profiled [.orchestrator]) .execution).find? 2 = some e
      ∧ succeed (outcome (profiled [.orchestrator])) e = .ok (row, s')
      ∧ (outcome (profiled [.orchestrator]) .assignment).find? 3 = some a
      ∧ a.status = .running ∧ (s' .assignment).find? 3 = some a'
      ∧ s'.isObjectiveRun a'.runId = true ∧ a'.status = .completed
      ∧ ∃ o ∈ outcome (profiled [.orchestrator]) .obligation,
        o.assignmentId = 3 ∧ o.status = .opened := by
  have hreach := outcome_reachable (profiled [.orchestrator])
  have hopen : (outcome (profiled [.orchestrator]) .obligation).rows.any (fun o =>
      o.assignmentId == 3 && o.status == .opened) = true := by decide +kernel
  have hcompletes : completes (outcome (profiled [.orchestrator])) = true := by
    decide +kernel
  generalize outcome (profiled [.orchestrator]) = s at hreach hopen hcompletes ⊢
  obtain ⟨e, row, s', a, a', he, hs, ha, hrunning, ha', hobj, hc⟩ :=
    completes_eq_true hcompletes
  refine ⟨hreach, e, row, s', a, a', he, hs, ha, hrunning, ha', hobj, hc, ?_⟩
  simpa [mem_def] using hopen

/-- A debugger that accounted for its deliverable is completed, with nothing outstanding. -/
theorem objective_completion_debugger : ∃ e row s' a',
    (outcomeBy Label.keepsProfile accounted .execution).find? 2 = some e
      ∧ succeed (outcomeBy Label.keepsProfile accounted) e = .ok (row, s')
      ∧ (s' .assignment).find? 3 = some a' ∧ a'.status = .completed
      ∧ records.Accounted (outcomeBy Label.keepsProfile accounted) 3 := by
  have hreach := outcomeBy_reachable Label.keepsProfile accounted
  have hcompletes : completes
      (outcomeBy Label.keepsProfile accounted) = true := by decide +kernel
  generalize outcomeBy Label.keepsProfile accounted = s at hreach hcompletes ⊢
  obtain ⟨e, row, s', a, a', he, hs, ha, hrunning, ha', hobj, hc⟩ :=
    completes_eq_true hcompletes
  obtain ⟨hmem', hid'⟩ := find?_eq_some.mp ha'
  obtain ⟨hmem, hid⟩ := find?_eq_some.mp ha
  have hstored : (s .execution).find? e.id = some e :=
    find?_key ((mem_of_find? he))
  rcases (objective_completion (.reached hreach) hstored (refl e) hs a' hmem' hobj).1 hc with
    ⟨b, hb, hidb, hcb⟩ | ⟨_, _, _, haccounted, _⟩
  · have hsame : b = a := (s .assignment).eq_of_key hb hmem (hidb.symm.trans (hid'.trans hid.symm))
    rw [hsame, hrunning] at hcb
    cases hcb
  · have hid' : a'.id = 3 := hid'
    exact ⟨e, row, s', a', he, hs, ha', hc, hid' ▸ haccounted⟩

end Horizon
