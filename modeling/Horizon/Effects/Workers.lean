import Horizon.Execution.WorkerEvents
import Horizon.Effects.Tick

/-!
# What workers and reviewers write

Native observations touch contexts, requests and the claims of native children only.  A
stop receipt confirms the stop of its own execution, and then releases its claims.
-/

namespace Horizon

open Transaction Table

variable {requestId : Id} {execution : Execution} {env : Env} {P : Event → Prop}
  {native invocation : Option NativeId} {data : ReviewerPrepare} {background : Option Bool}
  {request root : ProviderRequest} {o : ChildObservation} {parent thread : ProviderThread}
  {actor : Actor} {adapter : Adapter} {observed occurredAt : Instant} {live : Bool}
  {receipt : ExecutionFinished}

section

variable (hr : ∀ ev : Event, ev.isRoutine → P ev)
include hr

/-! ## Reviewer invocations -/

theorem reserveChild_emits {executionId : Id} {limit : ResourceLimit} :
    Emits P (reserveChild env executionId requestId limit) :=
  .read fun _ =>
    .done (emits_create .childClaimed (hr _ rfl) fun _ _ => rfl)

theorem createChild_emits {parentRequestId : Id} {stateRef : StateRef} {status : ThreadStatus} :
    Emits P (createChild env parent parentRequestId stateRef native status) :=
  .read fun _ => emits_create_other rfl (hr _ rfl)

theorem prepareNative_emits {parent : ProviderRequest} :
    Emits P (prepareNative env data execution parent thread) := by
  refine .ask fun _ => .read fun db => ?_
  refine .bind (createChild_emits hr) fun _ => ?_
  refine .bind (emits_create_other rfl (hr _ rfl)) fun _ => ?_
  refine .bind (.each fun _ _ => reserveChild_emits hr) fun _ => ?_
  exact .done (createObligation_emits (queueing_of_routine hr))

theorem prepareAssignment_emits {contract : ReviewContract} {live : LiveExecution} :
    Emits P (prepareAssignment env actor data contract live) := by
  have hq := queueing_of_routine hr
  refine .bind emits_getRecord fun _ => .bind emits_getRecord fun _ => ?_
  refine .bind (mission_emits hq) fun row => .bind (assignment_emits hq) fun _ => ?_
  exact .done (createObligation_emits hq)

theorem prepareReview_emits {contract : Except Error ReviewContract} :
    Emits P (prepareReview env actor data contract) := by
  refine .ask fun _ => .ask fun _ => ?_
  refine .unless ?_
  exact .ite (fun _ => prepareAssignment_emits hr) fun _ => prepareNative_emits hr

theorem bindObservedChild_emits {prepared : ProviderRequest}
    {placeholder observed : ProviderThread} :
    Emits P (bindObservedChild env execution prepared placeholder observed native invocation) := by
  refine .read fun db => ?_
  dsimp only
  split
  · refine .ite (fun _ => ?_) fun _ => .raise
    refine .bind (emits_change_other rfl (hr _ rfl)) fun _ => ?_
    refine .bind (releaseChildClaims_emits (hr _ rfl)) fun _ => ?_
    refine .bind (emits_change_other rfl (hr _ rfl)) fun _ => ?_
    refine .bind (emits_change_other rfl (hr _ rfl)) fun _ => ?_
    exact .done (emits_change_other rfl (hr _ rfl))
  · exact .raise

theorem bindNative_emits {native : NativeId} :
    Emits P (bindNative env execution parent requestId adapter native invocation background) := by
  refine .ask fun _ => .bind (.read fun db => ?_) fun _ => ?_
  · split
    · exact .pure
    · exact bindObservedChild_emits hr
    · exact .raise
  · refine .bind (.ite (fun _ => ?_) fun _ => .pure) fun _ => ?_
    · exact .done (emits_change_other rfl (hr _ rfl))
    · refine .guard ?_
      exact .done (emits_change_other rfl (hr _ rfl))

theorem attachReview_emits {native : NativeId} :
    Emits P (attachReview env actor requestId native invocation background) := by
  refine .ask fun _ => .bind emits_getRecord fun _ => ?_
  exact .bind emits_getRecord fun _ => bindNative_emits hr

theorem cancelReview_emits {note : String} : Emits P (cancelReview env actor requestId note) := by
  refine .ask fun _ => .unless <| .ite (fun _ => ?_) fun _ => ?_
  · refine .bind (releaseChildClaims_emits (hr _ rfl)) fun _ => ?_
    refine .bind (emits_change_other rfl (hr _ rfl)) fun _ => ?_
    exact .done (emits_change_other rfl (hr _ rfl))
  · exact .done (emits_change_other rfl (hr _ rfl))

theorem accountObservedChild_emits :
    Emits P (accountObservedChild env execution request observed) := by
  refine .ite (fun _ => releaseChildClaims_emits (hr _ rfl)) fun _ => ?_
  refine .bind emits_getRecord fun _ => .bind emits_getRecord fun run => ?_
  refine .unless <| .read fun db => .each fun _ _ => ?_
  exact .read fun _ => .unless <| reserveChild_emits hr

/-! ## Native observations -/

theorem registerReview_emits : Emits P (registerReview env execution parent adapter o) := by
  refine .read fun db => ?_
  split
  · exact .pure
  · refine .ite (fun _ => ?_) fun _ => .pure
    exact .done (.savepoint (bindNative_emits hr))

theorem projectRequest_emits {child : ProviderThread} {request : Option ProviderRequest} :
    Emits P (projectRequest env execution child o request observed) := by
  refine .read fun db => ?_
  dsimp only
  split
  · exact emits_create_other rfl (hr _ rfl)
  · refine .ite (fun _ => emits_create_other rfl (hr _ rfl)) fun _ => ?_
    refine .ite (fun _ => emits_change_other rfl (hr _ rfl)) fun _ => ?_
    exact .ite (fun _ => emits_change_other rfl (hr _ rfl)) fun _ => .pure

theorem projectChild_emits :
    Emits P (projectChild env execution parent root adapter observed o) := by
  refine .bind (registerReview_emits hr) fun _ => .read fun db => ?_
  refine .unless <| .bind (.ask fun _ => ?_) fun child => ?_
  · split
    · exact .pure
    · exact createChild_emits hr
  · refine .bind (.unless <| emits_change_other rfl (hr _ rfl)) fun child => ?_
    refine .bind (.read fun _ => ?_) fun child => ?_
    · dsimp only
      split
      · exact .pure
      · exact .unless <| emits_change_other rfl (hr _ rfl)
    · refine .bind (.read fun _ => ?_) fun _ => ?_
      · split
        · exact .pure
        · exact .ite (fun _ => .map (emits_change_other rfl (hr _ rfl))) fun _ => .pure
      · split
        · exact .pure
        · exact .done (accountObservedChild_emits hr)
        · refine .bind (projectRequest_emits hr) fun _ => ?_
          exact .done (accountObservedChild_emits hr)

theorem projectChildren_emits {os : List ChildObservation} :
    Emits P (projectChildren env execution parent root adapter observed os) := by
  induction os with
  | nil => exact .pure
  | cons o os ih => exact .bind (projectChild_emits hr) fun _ => .done ih

theorem projectObservation_emits {children : List ChildObservation} {usageKeys : List NativeId} :
    Emits P
      (projectObservation env execution thread requestId adapter children usageKeys observed) := by
  refine .bind emits_getRecord fun _ => .guard ?_
  refine .guard <| .bind (projectChildren_emits hr) fun _ => ?_
  exact .each fun _ _ => .done (projectChild_emits hr)

/-! ## Worker receipts -/

theorem workspacePrepared_emits {workspaceId : WorkspaceId} {head : Id} {branch : WorkspacePath} :
    Emits P (workspacePrepared env execution live workspaceId head branch) := by
  refine .guard <| .bind emits_getRecord fun w => ?_
  refine .guard <| .guard ?_
  split
  · exact .done (emits_change_other rfl (hr _ rfl))
  · exact .pure
  · exact .raise

theorem requestStarted_emits {goal : String} {input : InputRevisions} :
    Emits P (requestStarted env execution live thread occurredAt requestId goal input) := by
  refine .guard <| .bind emits_getRecord fun w => ?_
  refine .guard <| .guard ?_
  refine .guard <| .bind emits_getRecord fun _ => ?_
  refine .read fun _ => .guard ?_
  exact .done (emits_create_other rfl (hr _ rfl))

theorem applyMissionRevision_emits : Emits P (applyMissionRevision env request thread) :=
  .ite (fun _ => .done (emits_change_other rfl (hr _ rfl))) fun _ => .pure

theorem applyRunRevision_emits : Emits P (applyRunRevision env request thread) :=
  .ite (fun _ => .done (emits_change_other rfl (hr _ rfl))) fun _ => .pure

theorem requestCompleted_emits {completed : Bool} {failure : Option Failure} :
    Emits P
      (requestCompleted env execution thread occurredAt requestId completed failure native) := by
  have hend : ∀ request : ProviderRequest, Emits P (do
      if completed then
        applyMissionRevision env request thread
        applyRunRevision env request thread) := fun _ =>
    .ite (fun _ => .bind (applyMissionRevision_emits hr) fun _ => applyRunRevision_emits hr)
      fun _ => .pure
  refine .ask fun request => .unless ?_
  refine .bind (emits_change_other rfl (hr _ rfl)) fun _ => ?_
  cases native with
  | none => exact hend request
  | some native =>
    refine .guard ?_
    exact .bind (emits_change_other rfl (hr _ rfl)) fun _ => hend request

theorem nativeEvent_emits
    {event : NativeEvent} : Emits P (nativeEvent env execution thread occurredAt event) := by
  refine .ask fun _ => .ite (fun _ => ?_) fun _ => projectObservation_emits hr
  exact .bind (emits_change_other rfl (hr _ rfl)) fun _ => projectObservation_emits hr

theorem providerObserved_emits {threadId : Option Id} {event : ProviderEvent} :
    Emits P (providerObserved env execution live occurredAt threadId event) := by
  cases threadId with
  | none => exact .raise
  | some threadId =>
    refine .bind emits_getRecord fun _ => .guard ?_
    cases event with
    | requestStarted => exact requestStarted_emits hr
    | requestCompleted => exact requestCompleted_emits hr
    | nativeEvent => exact nativeEvent_emits hr
    | other => exact .pure

end

/-! ## Stop receipts -/

section

variable (hq : ∀ ev : Event, ev.isQueueing → P ev) (ho : ∀ t ht, P (.other t ht))

section

include ho

theorem interruptRequests_emits {id : Id} {now : Instant} :
    Emits P (interruptRequests env id now) := by
  refine emits_updateWhere (.other .providerRequest rfl) (ho _ _) fun s hc r hmem _ => ?_
  have hwf := hc.wellFormed (t := .providerRequest) hmem
  refine ⟨hwf, fun _ h => ?_, trivial⟩
  simp [conflicts, touch, RequestStatus.isUnsettled] at h

theorem settleContext_emits : Emits P (settleContext env execution receipt) := by
  refine .read fun db => ?_
  split
  · exact .pure
  · split
    · refine .guard ?_
      exact .done (emits_change_other rfl (ho _ _))
    · refine .ite (fun _ => ?_) fun _ => .pure
      exact .done (emits_change_other rfl (ho _ _))

theorem backfillFailure_emits {first : Bool} :
    Emits P (backfillFailure env execution receipt first) := by
  refine .read fun db => ?_
  split
  · exact .pure
  · refine .ite (fun _ => ?_) fun _ => .pure
    split
    · exact .pure
    · refine .ite (fun _ => ?_) fun _ => .pure
      exact .done (emits_change_other rfl (ho _ _))

end

include hq

theorem openJournal_emits {description : String}
    (hopen : P (.obligationReopened (.journalBlocker execution.assignmentId))) :
    Emits P (openJournal env execution description) := by
  have hsupersede : ∀ (rows : List Obligation) (id : ObligationId),
      Emits P (each (fun (o : Obligation) => do
      let _ ← change env .obligation o.id none fun o =>
        { o with status := .superseded
                 resolution := some (.superseded
                   "The host tracks this journal in one stable recovery obligation." [id]) })
                   rows) :=
    fun _ _ => .each fun _ _ => .done (emits_change .obligationChanged (hq _ rfl)
      fun _ _ _ _ => ⟨rfl, by rintro ⟨⟩, by rintro ⟨⟩⟩)
  refine .read fun db => ?_
  dsimp only
  split
  · refine .bind (emits_create .obligationRecorded (hq _ rfl) fun _ _ => rfl) fun _ => ?_
    exact hsupersede _ _
  · refine .ite (fun _ => ?_) fun _ => hsupersede _ _
    refine .bind (emits_change (.obligationReopened (.journalBlocker execution.assignmentId))
      hopen fun _ _ _ hold => ⟨rfl, (key_of_find? hold), rfl⟩) fun _ => ?_
    exact hsupersede _ _

theorem closeJournal_emits : Emits P (closeJournal env execution) :=
  .read fun _ => .each fun _ _ => .done (emits_change .obligationChanged
    (hq _ rfl) fun _ _ _ _ => ⟨rfl, by rintro ⟨⟩, by rintro ⟨⟩⟩)

theorem journalOutcome_emits
    {outcome : ExecutionOutcome × Option Failure} (hopen : ∀ id, P (.obligationReopened id)) :
    Emits P (journalOutcome env live execution receipt outcome) := by
  refine .ite (fun _ => .bind (.ite (fun _ => openJournal_emits hq (hopen _)) fun _ => ?_)
    fun _ => ?_)
    fun _ => .pure
  · exact .ite (fun _ => closeJournal_emits hq) fun _ => .pure
  · refine .bind emits_getRecord fun _ => .bind emits_getRecord fun run => ?_
    refine .read fun db => ?_
    exact .unless .pure

end

/-- A confirmed stop stays confirmed. -/
def KeepsConfirmed (s s' : DB) : Prop :=
  ∀ id e, (s .execution).find? id = some e → e.stopConfirmedAt.isSome →
    ∃ e', (s' .execution).find? id = some e' ∧ e'.stopConfirmedAt.isSome

instance : Std.Refl KeepsConfirmed := ⟨fun _ _ e h hstop => ⟨e, h, hstop⟩⟩

instance : IsTrans DB KeepsConfirmed where
  trans _ _ _ h h' id e he hstop := by
    obtain ⟨e', he', hstop'⟩ := h id e he hstop
    exact h' id e' he' hstop'

theorem Effect.keepsConfirmed {ev : Event} {s s' : DB} (h : Effect ev s s') :
    KeepsConfirmed s s' := by
  intro id e he hstop
  obtain ⟨e', he', _, hsame | ⟨_, hconf⟩⟩ := h.execution he
  · exact ⟨e', he', hsame ▸ hstop⟩
  · exact ⟨e', he', hconf⟩

variable {s : DB}

/-- A stop receipt confirms the stop of its execution. -/
theorem confirmStop_ensures (hP : P (.stopConfirmed execution.id false))
    (hexec : (s .execution).find? execution.id = some execution) :
    Ensures (confirmStop env execution) s fun e s' => Effects P s s' ∧ e.id = execution.id
      ∧ e.stopConfirmedAt.isSome ∧ (s' .execution).find? execution.id = some e := by
  refine .ite (fun _ => ?_) fun hstop => .pure ⟨Moves.refl s, rfl, ?_, hexec⟩
  · refine Ensures.mono
      (ensures_change_effects (.stopConfirmed execution.id false) hP fun old hold => ?_) ?_
    · exact ⟨⟨rfl, rfl, rfl, rfl, rfl, rfl, fun h => h⟩, (key_of_find? hold), rfl,
        fun _ => rfl⟩
    · rintro e s' ⟨heff, hrw, old, hold, hrow⟩
      refine ⟨heff, ?_, ?_, hrw.stored⟩
      · rw [hrow]
        exact (key_of_find? hold :)
      · rw [hrow]
        rfl
  · cases h : execution.stopConfirmedAt with
    | none => simp [h] at hstop
    | some t => rfl

theorem executionFinished_ensures (hr : ∀ ev : Event, ev.isRoutine → P ev)
    (hstop : ∀ ended, P (.stopConfirmed execution.id ended))
    (hend : P (.executionEnded execution.id))
    (hset : ∀ ev : Event, ev.isSettling → (∀ id, ev ≠ .executionEnded id) → P ev) (hs : Sound s)
    (hexec : (s .execution).find? execution.id = some execution) :
    EmitsFrom P s (executionFinished env actor execution live occurredAt receipt) := by
  -- The evidence of a receipt is recorded outside the executions.
  let Q (ev : Event) : Prop := P ev ∧ ev.table ≠ .execution
  have hother : ∀ t ht, Q (.other t ht) := by
    refine fun t ht => ⟨hr _ rfl, ?_⟩
    rintro rfl
    cases ht
  have hq : ∀ ev : Event, ev.isQueueing → Q ev := fun ev hev =>
    ⟨queueing_of_routine hr ev hev, (Event.table_ne_of_isQueueing hev).2.1⟩
  have hopen : ∀ id, Q (.obligationReopened id) := fun _ =>
    ⟨hset _ rfl (by rintro _ ⟨⟩), by rintro ⟨⟩⟩
  rw [executionFinished]
  refine .bind (confirmStop_ensures (hstop false) hexec) fun e s₁ ⟨h₁, hid, hconf, he₁⟩ => ?_
  have hs₁ := h₁.sound hs
  refine .bind ((interruptRequests_emits hother).from hs₁) fun _ _ h₂ => ?_
  refine .bind ((settleContext_emits hother).after h₂ hs₁) fun _ _ h₃ => ?_
  refine .bind ((backfillFailure_emits hother).after h₃ hs₁) fun _ _ h₄ => ?_
  refine .bind ((journalOutcome_emits hq hopen).after h₄ hs₁) fun _ s₅ h₅ => ?_
  have he₅ : (s₅ .execution).find? e.id = some e := by
    rw [h₅.frame fun _ hev => hev.2, hid, he₁]
  have h₅ : Effects P s s₅ := h₁.trans (h₅.mono fun _ hev => hev.1)
  have hs₅ := h₅.sound hs
  -- What was confirmed stays confirmed, so the claims may go.
  have hrelease : ∀ s₆, Effects P s₅ s₆ → Ensures (releaseClaims env e.id occurredAt) s₆
      fun _ s' => Effects P s s' := by
    intro s₆ h₆
    have hkept : KeepsConfirmed s₅ s₆ := Moves.le (fun _ _ _ _ he => he.keepsConfirmed) h₆
    obtain ⟨_, he₆, _⟩ := hkept _ e he₅ hconf
    have h₆ : Effects P s s₆ := h₅.trans h₆
    refine (releaseClaims_ensures (h₆.sound hs) (hr _ rfl) fun e' he' => ?_).mono
      fun _ _ h => h₆.trans h
    rwa [Option.some.inj (he'.symm.trans he₆)]
  refine .bind (finish_ensures hs₅ ⟨e, he₅, refl e⟩) ?_
  rintro _ s₆ (⟨_, rfl⟩ | ⟨_, _, _, _, _, _, h₆⟩)
  · exact hrelease _ (Moves.refl _)
  · exact hrelease _
      (h₆.effects hr (by rw [hid]; exact hend) (fun _ _ => by rw [hid]; exact hstop true) hset)

theorem handle_emits (hr : ∀ ev : Event, ev.isRoutine → P ev) {operation : WorkerOperation}
    (hfinished : ∀ receipt, operation.payload = .executionFinished receipt →
      (∀ ended, P (.stopConfirmed operation.executionId ended))
        ∧ P (.executionEnded operation.executionId)
        ∧ ∀ ev : Event, ev.isSettling → (∀ id, ev ≠ .executionEnded id) → P ev) :
    Emits P (handle env actor operation) := by
  intro s
  refine ensures_fetch fun execution hexec => ?_
  obtain ⟨hmem, hid⟩ := find?_eq_some.mp hexec
  refine .ask fun _ _ => ?_
  refine .guard fun _ => ?_
  dsimp only
  split
  · exact Transaction.Keeps.pure s
  · refine Emits.at (.bind emits_getRecord fun w => ?_) s
    exact .guard .pure
  · exact workspacePrepared_emits hr s
  · rename_i receipt hpayload
    obtain ⟨hstop, hend, hset⟩ := hfinished receipt hpayload
    have hid : operation.executionId = execution.id := hid.symm
    rw [hid] at hstop hend
    exact fun _ _ h hs =>
      executionFinished_ensures hr hstop hend hset hs (find?_key hmem) _ _ h
  · exact providerObserved_emits hr s

end Horizon
