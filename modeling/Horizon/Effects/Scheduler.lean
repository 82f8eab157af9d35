import Horizon.Execution.Finish
import Horizon.Effects.Objectives

/-!
# What the scheduler writes

Replenishing, cancelling and finishing work.  Cancelling confirms no physical stop;
finishing an execution confirms at most its own, and only then releases its claims.
-/

namespace Horizon

open Transaction Table Option DB

variable {row item : Assignment} {e e' execution : Execution} {ev : Event} {limit : ResourceLimit}
  {f : Automation → Automation}
  {reconsidering disableAutomation yielded journalPending rootMaintainer stopping : Bool}
  {quiet note cause delivered unowned : Option String} {o : Outcome} {actor : Actor}
  {s : DB} {run : Run}
  {env : Env} {P : Event → Prop} {id : Id} {rule : Automation} {failure : Option Failure}
  {reason : Option StopReason} {status : ExecutionOutcome} {command : RunCommand}

section

variable (hq : ∀ ev : Event, ev.isQueueing → P ev)
include hq

/-! ## Root maintenance -/

theorem annotateRun_emits :
    Emits P (change env .run id none fun r => { r with statusNote := note }) :=
  emits_change .runChanged (hq _ rfl) fun _ _ _ _ =>
    ⟨⟨rfl, rfl, rfl⟩, rfl, rfl, rfl, rfl, fun h => h⟩

theorem recoveryAvailable_emits : Emits P (recoveryAvailable env rule cause) := by
  refine .read fun db => ?_
  split
  · exact .pure
  · exact .pure
  · refine .unless <| .unless ?_
    refine .bind emits_getRecord fun run => .ite (fun _ => ?_) fun _ => .pure
    exact .done (annotateRun_emits hq)

theorem recordAudit_emits {runId : Id} {audit : ObligationId} :
    Emits P (recordAudit env runId audit) := by
  refine .read fun db => ?_
  dsimp only
  split
  · exact emits_updateWhere_other rfl (hq _ rfl) (fun _ _ h => h) fun _ _ h => h
  · exact .done (emits_create_other rfl (hq _ rfl))

theorem attachRecovery_emits : Emits P (attachRecovery env item cause) := by
  cases cause with
  | none => exact .pure
  | some cause => exact .bind (createObligation_emits hq) fun _ => recordAudit_emits hq

theorem inspectPending_emits : Emits P (inspectPending env rule item) := by
  refine .read fun db => .unless ?_
  split
  · exact .pure
  · refine .unless <| .ask fun _ => ?_
    refine .unless ?_
    split
    · exact .pure
    · refine .bind (recoveryAvailable_emits hq) fun _ => ?_
      exact .ite (fun _ => attachRecovery_emits hq) fun _ => .pure

theorem rootAdmitted_emits : Emits P (rootAdmitted env item) := by
  have hnote : Emits P (do
      let run ← getRecord .run item.runId
      if run.statusNote.any (startsWith · blockedPrefix) then
        let _ ← change env .run run.id none fun r => { r with statusNote := none }) :=
    .bind emits_getRecord fun _ => .ite
      (fun _ => .done (annotateRun_emits hq)) fun _ => .pure
  refine .read fun db => ?_
  split
  · exact .pure
  · refine .unless ?_
    dsimp only
    split
    · refine .bind (emits_updateWhere_other rfl (hq _ rfl) (fun _ _ h => h) fun _ _ h => h) ?_
      exact fun _ => hnote
    · exact .bind (emits_create_other rfl (hq _ rfl)) fun _ => hnote

theorem rootRecovery_emits : Emits P (rootRecovery env rule) := by
  refine .unless <| .bind emits_getRecord fun _ => ?_
  refine .unless <| .read fun db => ?_
  refine .bind (recoveryAvailable_emits hq) fun _ => ?_
  exact .unless .pure

/-- Replenishing a known rule queues an occurrence of a legacy run. -/
theorem replenish_ensures (hs : Sound s) (hrule : s.Knows rule) :
    EmitsFrom P s (replenish env actor rule) := by
  refine ensures_fetch fun run hrun => ?_
  refine .guard fun hlegacy => ?_
  refine .ite (fun _ => .pure (Moves.refl _)) fun _ => ?_
  refine .read ?_
  dsimp only
  split
  · exact Emits.from (.ite (fun _ => .done (inspectPending_emits hq))
      fun _ => .pure) hs
  · refine .ite (fun _ => .pure (Moves.refl _)) fun _ => ?_
    refine .bind ((rootRecovery_emits hq).from hs) fun recovery s₁ h₁ => ?_
    cases recovery with
    | none => exact .pure h₁
    | some recovery =>
      refine .read <| .ite (fun _ => .pure h₁) fun _ => ?_
      refine .ite (fun _ => .pure h₁) fun _ => ?_
      obtain ⟨_, hstored, hsame⟩ := h₁.knows hrule
      have hobj : s₁.isObjectiveRun rule.runId = false := by
        rw [h₁.isObjectiveRun (by rw [has, hrun]; rfl)]
        simpa [isObjectiveRun, hrun] using hlegacy
      refine .bind (assignment_ensures hq (h₁.sound hs) (fun r hr => ?_) fun hp => ?_) ?_
      · cases hstored.symm.trans hr
        exact hsame.runId
      · rw [isPlanner, hobj, Bool.and_false] at hp
        cases hp
      · rintro row s₂ ⟨h₂, _⟩
        have h₂ : Effects P s s₂ := h₁.trans h₂
        exact (Emits.from (.done (attachRecovery_emits hq))
          (h₂.sound hs)).mono fun _ _ h => h₂.trans h

/-! ## Reconsidering lost work -/

theorem rootMaintenanceOwner_emits : Emits P (rootMaintenanceOwner env item) := by
  refine emits_of_sound fun s hs => ?_
  refine .read ?_
  split
  · exact .pure (Moves.refl _)
  · rename_i rule hrule
    refine .ite (fun _ => .pure (Moves.refl _)) fun _ => ?_
    split
    · exact .pure (Moves.refl _)
    · refine .bind ((systemActor_emits hq).from hs) fun _ _ h₁ => ?_
      have hknown := h₁.knows (knows_of_mem (List.mem_of_find?_eq_some hrule))
      exact (replenish_ensures hq (h₁.sound hs) hknown).mono fun _ _ h₂ => h₁.trans h₂

theorem reconsideringOwner_emits : Emits P (reconsideringOwner env item) :=
  .read fun _ => .ite (fun _ => rootMaintenanceOwner_emits hq) fun _ => .pure

theorem reconsider_emits (ho : ∀ id, P (.obligationReopened id)) :
    Emits P (reconsider env item) := by
  have hreopen : Emits P (do
      let db ← get
      each (reopen env) ((db .obligation).rows.filter (·.reliesOn item.id))) := by
    refine .read fun _ => .each fun o _ => .done ?_
    exact emits_change (.obligationReopened o.id) (ho _) fun _ _ _ hold =>
      ⟨rfl, (key_of_find? hold), rfl⟩
  refine .read fun db => .bind (reconsideringOwner_emits hq) fun owner => ?_
  cases owner with
  | some owner => exact .bind (createObligation_emits hq) fun _ => hreopen
  | none =>
    exact .ite (fun _ => .bind (createObligation_emits hq) fun _ => hreopen) fun _ => hreopen

/-! ## Legacy settlement -/

theorem handoffOwner_emits : Emits P (handoffOwner env item) :=
  .read fun _ => .ite (fun _ => rootMaintenanceOwner_emits hq) fun _ => .pure

/-- Resolving a list of obligations one after another. -/
theorem resolveEach_emits {resolution : Resolution} {items : List Obligation} :
    Emits P (each (fun (o : Obligation) => do
      let _ ← resolveObligation env actor o.id o.revision resolution) items) :=
  .each fun _ _ => .done (resolveObligation_emits hq)

theorem handoffWorkerFindings_emits {findings : List String} :
    Emits P (handoffWorkerFindings env item findings) := by
  refine .bind (handoffOwner_emits hq) fun owner => ?_
  cases owner with
  | none => exact .pure
  | some owner =>
    refine .bind (createObligation_emits hq) fun _ => .bind (systemActor_emits hq) fun _ => ?_
    exact .read fun _ => .done (resolveEach_emits hq)

theorem handedOff_emits : Emits P (handedOff env item unowned delivered quiet) := by
  refine .ask fun _ => .ite (fun _ => ?_) fun _ => ?_
  · refine .bind .pure fun owned => ?_
    exact .unless .pure
  · refine .bind (handoffWorkerFindings_emits hq) fun owned => ?_
    exact .unless .pure

omit hq in
theorem legacyFailure_emits (hslot : P .slotChanged) :
    Emits P (legacyFailure env execution item run failure) := by
  refine .ite (fun _ => .done ?_) fun _ => ?_
  · exact emits_updateWhere .slotChanged hslot fun s hs h hh _ =>
      ⟨(admissible_iff.mp (hs.consistent .hostHarness h hh)).1, fun _ h => h, rfl⟩
  · refine .unless ?_
    exact .unless .pure

theorem legacySuccess_emits :
    Emits P (legacySuccess env item run yielded rootMaintainer journalPending reason) := by
  refine .read fun db => .ask fun _ => ?_
  refine .ite (fun _ => .unless .pure) fun _ => ?_
  refine .unless <| .unless ?_
  refine .ite (fun _ => handedOff_emits hq) fun _ => .ite (fun _ => ?_) fun _ => ?_
  · exact .unless .pure
  · refine .ite (fun _ => handedOff_emits hq) fun _ => .unless ?_
    refine .unless <| .unless ?_
    exact .unless .pure

theorem legacyOutcome_emits (hslot : P .slotChanged) :
    Emits P (legacyOutcome env execution item run status failure stopping rootMaintainer
      journalPending reason) := by
  refine .unless ?_
  split
  · exact legacySuccess_emits hq
  · exact legacySuccess_emits hq
  · exact legacyFailure_emits hslot

theorem settleEpisode_emits : Emits P (settleEpisode env item) := by
  refine .read fun db => ?_
  split
  · exact .pure
  · refine .bind (systemActor_emits hq) fun _ => ?_
    exact .done (resolveObligation_emits hq)

theorem transferLedger_emits {successor : Assignment} :
    Emits P (transferLedger env item successor) :=
  .bind (systemActor_emits hq) fun _ => .read fun _ => resolveEach_emits hq

end

/-! ## How an ended execution leaves its assignment -/

/-- An outcome ends the activity of an assignment, and may give up its wait. -/
def Outcome.Settles (o : Outcome) : Prop :=
  o.status.isActive = false ∧ (o.startCondition = none ∨ o.startCondition = some none)

theorem failureOutcome_settles {retry : RetryPolicy} :
    (s.failureOutcome env item retry failure).Settles := by
  rw [failureOutcome]
  dsimp only
  split
  · exact ⟨rfl, .inl rfl⟩
  · split
    · exact ⟨rfl, .inl rfl⟩
    · exact ⟨rfl, .inl rfl⟩

theorem finishValues_settles
    (h : s.finishValues env item run status failure stopping reason journalPending = .ok o) :
    o.Settles := by
  simp only [finishValues, check_bind_eq_ok] at h
  obtain ⟨_, _, h⟩ := h
  split at h
  · cases h
    exact ⟨rfl, .inl rfl⟩
  split at h
  · cases h
    exact failureOutcome_settles
  split at h
  · cases h
    exact ⟨rfl, .inl rfl⟩
  split at h
  · cases h
    exact ⟨rfl, .inl rfl⟩
  obtain ⟨_, _, h⟩ := check_bind_eq_ok.mp h
  split at h
  · cases h
    exact ⟨rfl, .inr rfl⟩
  split at h
  · cases h
    exact ⟨rfl, .inl rfl⟩
  split at h
  · cases h
    exact ⟨rfl, .inl rfl⟩
  split at h
  · cases h
    exact ⟨rfl, .inl rfl⟩
  · cases h
    exact ⟨rfl, .inl rfl⟩

/-- A session that is asked to stop is cancelled. -/
theorem finishValues_stopping
    (h : s.finishValues env item run status failure true reason journalPending = .ok o) :
    o.status = .cancelled := by
  simp only [finishValues, check_bind_eq_ok] at h
  obtain ⟨_, _, h⟩ := h
  rw [if_pos (.inl trivial)] at h
  rw [← check_pure_eq_ok.mp h]

theorem handedOff_settles :
    Ensures (handedOff env item unowned delivered quiet) s fun o _ => o.Settles := by
  rw [handedOff, ensures_bind]
  intro _ _ _
  refine .ite (fun _ => ?_) fun _ => ?_
  all_goals
    rw [ensures_bind]
    intro _ _ _
    exact .ite (fun _ => .pure ⟨rfl, .inr rfl⟩) fun _ => .pure ⟨rfl, .inr rfl⟩

theorem legacySuccess_settles :
    Ensures (legacySuccess env item run yielded rootMaintainer journalPending reason) s
      fun o _ => o.Settles := by
  have hpure : ∀ {o : Outcome}, o.Settles → Ensures (pure o : Tx Outcome) s fun o _ => o.Settles :=
    fun h => .pure h
  rw [legacySuccess, ensures_bind, ensures_get, ensures_bind, ensures_query]
  intro _ _
  refine .ite (fun _ => .ite (fun _ => ?_) (fun _ => ?_)) fun _ => ?_
  · exact hpure ⟨rfl, .inr rfl⟩
  · exact hpure ⟨rfl, .inr rfl⟩
  refine .ite (fun _ => hpure ⟨rfl, .inl rfl⟩) fun _ => ?_
  refine .ite (fun _ => hpure ⟨rfl, .inl rfl⟩) fun _ => ?_
  refine .ite (fun _ => handedOff_settles) fun _ => ?_
  refine .ite (fun _ => .ite (fun _ => ?_) (fun _ => ?_)) fun _ => ?_
  · exact hpure ⟨rfl, .inr rfl⟩
  · exact hpure ⟨rfl, .inr rfl⟩
  refine .ite (fun _ => handedOff_settles) fun _ => ?_
  refine .ite (fun _ => hpure ⟨rfl, .inr rfl⟩) fun _ => ?_
  refine .ite (fun _ => hpure ⟨rfl, .inl rfl⟩) fun _ => ?_
  refine .ite (fun _ => hpure ⟨rfl, .inl rfl⟩) fun _ => ?_
  exact .ite (fun _ => hpure ⟨rfl, .inl rfl⟩) fun _ => hpure ⟨rfl, .inl rfl⟩

theorem legacyOutcome_settles :
    Ensures (legacyOutcome env execution item run status failure stopping rootMaintainer
      journalPending reason) s fun o _ => o.Settles := by
  refine .ite (fun _ => .pure ⟨rfl, .inl rfl⟩) fun _ => ?_
  split
  · exact legacySuccess_settles
  · exact legacySuccess_settles
  · refine .ite (fun _ => ?_) fun _ => ?_
    · rw [ensures_bind]
      exact fun _ _ _ => .pure ⟨rfl, .inl rfl⟩
    refine .ite (fun _ => .pure ⟨rfl, .inl rfl⟩) fun _ => ?_
    exact .ite (fun _ => .pure ⟨rfl, .inl rfl⟩) fun _ => .pure ⟨rfl, .inl rfl⟩

theorem legacyOutcome_stopping :
    Ensures (legacyOutcome env execution item run status failure true rootMaintainer
      journalPending reason) s fun o _ => o.status = .cancelled := by
  refine .ite (fun _ => .pure rfl) fun h => ?_
  exact absurd (.inl rfl) h

/-! ## Run statuses -/

theorem validateRunCommand_ok {db : DB} {status : RunStatus}
    (h : db.validateRunCommand env actor command run = .ok status) :
    command.target run.status = .ok status := by
  simp only [validateRunCommand, check_bind_eq_ok, ite_refuse_eq_ok, check_pure_eq_ok] at h
  obtain ⟨_, hstatus, _, _, _, _, _, rfl⟩ := h
  exact hstatus

/-- A run command takes up no run but by pausing, resuming or reopening it. -/
theorem target_isOpen {status status' : RunStatus}
    (h : command.target status = .ok status') (hreopen : command ≠ .reopen)
    (hopen : status'.isOpen) :
    (command = .pause ∨ command = .resume) ∧ status.isOpen := by
  cases command <;> cases status <;> first
    | exact absurd rfl hreopen
    | (cases h; done)
    | (cases h; cases hopen; done)
    | (cases h; exact ⟨by simp, rfl⟩)

/-- A run command stops work only by draining or cancelling. -/
theorem target_stops {status status' : RunStatus}
    (h : command.target status = .ok status') (hstop : status' = .stopping ∨ status' = .draining) :
    command = .cancel ∨ command = .drain := by
  cases command <;> cases status <;> cases h <;> simp_all

section

variable {reason : String}

variable (hr : ∀ ev : Event, ev.isRoutine → P ev)
include hr

theorem queueing_of_routine (ev : Event) (h : ev.isQueueing) : P ev :=
  hr ev (Event.isRoutine_of_isQueueing h)

/-- A cancelled planner pauses its rule explicitly. -/
theorem disableRule_ensures (hs : Sound s)
    (hitem : ∃ a, (s .assignment).find? item.id = some a ∧ item.SameWork a) :
    EmitsFrom P s (disableRule env item) := by
  rw [disableRule]
  split
  · exact .pure (Moves.refl _)
  · rename_i id hid
    obtain ⟨a, ha, hw⟩ := hitem
    refine ensures_fetch fun run hrun => ?_
    refine .bind (ensures_change_effects (.ruleChanged id) (hr _ rfl) fun rule hrule => ?_) ?_
    · have hruled := hs.ruled a (mem_of_find? ha) rule
        (by rw [hw.automationId, hid]; exact hrule)
      refine ⟨⟨rfl, rfl⟩, (key_of_find? hrule), fun hobj _ => ?_⟩
      rw [hruled, hw.runId, isObjectiveRun, hrun] at hobj
      have ho : run.orchestration = .objective := by simpa using hobj
      simp [Automation.isPaused, touch, ho]
    · rintro _ _ ⟨h₁, _⟩
      refine (Emits.from (.ite (fun _ => ?_) fun _ => .pure) (h₁.sound hs)).mono
        fun _ _ h₂ => h₁.trans h₂
      refine emits_updateWhere .assignmentChanged (hr _ rfl) fun s hs a ha _ =>
        ⟨(admissible_iff.mp (hs.consistent .assignment a ha)).1, fun _ h => h, ?_⟩
      exact ⟨⟨rfl, rfl, rfl, rfl, rfl⟩, ⟨rfl, rfl, rfl, .inl rfl, .inl rfl⟩, rfl, fun _ => .inl rfl⟩

/-- Asking an execution to stop keeps its reservation. -/
theorem stopExecutions_emits :
    Emits P (updateWhere env .execution (fun _ e => e.assignmentId == id
      && (e.status == .starting || e.status == .running)) fun e =>
      { e with status := .stopping }) := by
  refine emits_updateWhere .executionChanged (hr _ rfl) fun s hs e he hp => ?_
  have hstatus : e.status = .starting ∨ e.status = .running := by
    simpa using (Bool.and_eq_true_iff.mp hp).2
  have hlive : e.status.isLive := by
    rcases hstatus with h | h <;> rw [h] <;> rfl
  have hfailed : e.status.hasFailed = false := by
    rcases hstatus with h | h <;> rw [h] <;> rfl
  refine ⟨(admissible_iff.mp (hs.consistent .execution e he)).1, fun e' h => ?_,
    ⟨rfl, rfl, rfl, rfl, rfl, rfl, fun _ => hlive⟩, rfl, hlive.symm, hfailed.symm⟩
  have hstopping : ExecutionStatus.stopping.isLive := rfl
  simpa [conflicts, touch, hlive, hstopping] using h

/-- Cancelling an assignment loses it where it stands. -/
theorem cancel_ensures (hs : Sound s) (hl : P (.assignmentLost item.id))
    (ho : ∀ id, P (.obligationReopened id))
    (hitem : ∃ a, (s .assignment).find? item.id = some a ∧ item.SameStatus a) :
    EmitsFrom P s (cancel env item reason disableAutomation reconsidering) := by
  have hq := queueing_of_routine hr
  refine .ite (fun _ => .pure (Moves.refl _)) fun hlive => ?_
  obtain ⟨a, ha, hw, hstatus⟩ := hitem
  dsimp only
  refine .bind (ensures_change_effects (.assignmentLost item.id) hl fun old hold => ?_) ?_
  · cases ha.symm.trans hold
    refine ⟨⟨rfl, rfl, rfl, rfl, rfl⟩, (key_of_find? ha),
      ⟨rfl, rfl, rfl, .inl rfl, .inl rfl⟩, rfl, ?_, ?_⟩
    · rw [hstatus]
      simpa using hlive
    · rw [hstatus]
      cases item.status <;> rfl
  rintro row _ ⟨h₁, _, old, hold, _⟩
  refine .bind ((stopExecutions_emits hr).after h₁ hs) fun _ _ h₂ => ?_
  have hend : Emits P (do
      if !(item.status == .running || item.status == .stopping) && reconsidering then
        reconsider env row
      pure row) :=
    .ite (fun _ => .done (reconsider_emits hq ho)) fun _ => .pure
  refine .ite (fun _ => ?_) fun _ => hend.after h₂ hs
  obtain ⟨a₂, ha₂, hw₂⟩ := (Effects.sameAccounts h₂).assignment _ a ha
  refine .bind (disableRule_ensures hr (h₂.sound hs) ⟨a₂, ha₂, hw.trans hw₂⟩) fun _ s₃ h₃ => ?_
  have h₃ : Effects P s s₃ := h₂.trans h₃
  exact hend.after h₃ hs

/-- Cancelling the assignments of a list, one after the other. -/
theorem cancelEach_ensures {items : List Assignment} (hs : Sound s)
    (hl : ∀ id, P (.assignmentLost id)) (ho : ∀ id, P (.obligationReopened id))
    (hitems : Listed (t := .assignment) Assignment.SameStatus items s) :
    EmitsFrom P s (each (fun item => do
      let _ ← cancel env item reason disableAutomation reconsidering) items) := by
  let J (rest : List Assignment) (s₁ : DB) : Prop :=
    Effects P s s₁ ∧ Listed (t := .assignment) Assignment.SameStatus rest s₁
  refine Ensures.mono (ensures_each_rest (J := J) ⟨Moves.refl _, hitems⟩ ?_) fun _ _ h => h.1
  rintro item rest s₁ ⟨h₁, hlisted⟩
  have hcancel : Ensures (cancel env item reason disableAutomation reconsidering) s₁ fun _ s₂ =>
      Effects (fun ev => ev.isRoutine ∨ ev = .assignmentLost item.id
        ∨ ∃ id, ev = .obligationReopened id) s₁ s₂ :=
    cancel_ensures (fun _ h => .inl h) (h₁.sound hs) (.inr (.inl rfl))
      (fun id => .inr (.inr ⟨id, rfl⟩)) hlisted.head
  refine .bind hcancel fun _ s₂ h₂ => .pure ⟨h₁.trans (h₂.mono ?_), hlisted.tail ?_⟩
  · rintro ev (hev | rfl | ⟨id, rfl⟩)
    · exact hr ev hev
    · exact hl _
    · exact ho _
  · intro id hid a ha
    have hmoves : ∀ ev : Event, (ev.isRoutine ∨ ev = .assignmentLost item.id
        ∨ ∃ id, ev = .obligationReopened id) → ev.moves id = false := by
      rintro ev (hev | rfl | ⟨_, rfl⟩)
      · exact Event.moves_of_isRoutine hev id
      · simpa [Event.moves] using Ne.symm hid
      · rfl
    obtain ⟨a', ha', hsame⟩ := h₂.sameStatus ha hmoves
    exact ⟨a', ha', fun r hr => hr.trans hsame⟩

/-! ## Run commands -/

theorem stopWork_emits {draining : Bool} (hl : ∀ id, P (.assignmentLost id))
    (ho : ∀ id, P (.obligationReopened id)) : Emits P (stopWork env run draining) := by
  have hcancel : Emits P (do
      let db ← get
      let items := (db .assignment).rows.filter fun a => a.runId == run.id
        && (if draining then a.status == .pending && a.automationId.isSome
          else a.status == .pending || a.status == .running)
      each (fun item => do
        let _ ← cancel env item (if draining then "Run is draining" else "Run is stopping")
          (!draining) (!draining)) items) := by
    refine emits_of_sound fun s hs => ?_
    refine .read ?_
    exact cancelEach_ensures hr hs hl ho listed_filter
  refine .ite (fun _ => .bind ?_ fun _ => hcancel) fun _ => hcancel
  refine emits_updateWhere .rulesDisabled (hr _ rfl) fun s hs a ha _ => ⟨?_, fun _ h => h, ?_⟩
  · exact (admissible_iff.mp (hs.consistent .automation a ha)).1
  · exact ⟨⟨rfl, rfl⟩, rfl, rfl⟩

/-- Restarting a known rule of a stored run. -/
theorem restartRule_ensures (hs : Sound s) (hrule : s.Knows rule) (hrun : rule.runId = run.id)
    (hobj : run.orchestration = .objective → s.isObjectiveRun run.id) :
    EmitsFrom P s (restartRule env actor run rule) := by
  have hq := queueing_of_routine hr
  refine .ite (fun ho => ?_) fun _ => ?_
  · obtain ⟨stored, hstored, hsame⟩ := hrule
    have hrunId : stored.runId = run.id := hsame.runId.trans hrun
    have hname := hs.planners stored (mem_of_find? hstored) (by rw [hrunId, hobj ho])
    have hplanner : s.isPlanner (some rule.id) run.id := by
      simp [isPlanner, hobj ho, hstored, hname, hrunId]
    exact .bind (ensureSuccessor_ensures hq hs hplanner) fun _ _ h => .pure h.1
  · exact .bind (replenish_ensures hq hs hrule) fun _ _ h => .pure h

/-- The event of reopening a mission where it stands, with the checks that happen to hold. -/
def reopeningEvent (s : DB) (m : Mission) : Event :=
  .missionOpened m.id (decide (m.status = .opened) || s.parentOpen m)
    (decide (m.status = .opened) || s.roomLeft m)

theorem reopenWork_ensures (hs : Sound s)
    (ho : ∀ m, (s .mission).find? run.missionId = some m → P (reopeningEvent s m))
    (hobj : run.orchestration = .objective → s.isObjectiveRun run.id) :
    EmitsFrom P s (reopenWork env actor run) := by
  rw [EmitsFrom, reopenWork, ensures_bind]
  cases hm : (s .mission).find? run.missionId with
  | none =>
    rw [reopenMissionOf, ensures_change]
    intro m hm'
    cases hm.symm.trans hm'
  | some m =>
    refine (ensures_change_effects (reopeningEvent s m) (ho m hm) fun old hold => ?_).mono ?_
    · cases hm.symm.trans hold
      exact ⟨⟨rfl, rfl, rfl, rfl⟩, rfl, rfl, by simp, by simp⟩
    rintro _ s₁ ⟨h₁, _⟩
    refine .read ?_
    refine Ensures.mono (ensures_each (J := Effects P s₁) (Moves.refl _) fun rule hrule _ h₂ => ?_)
      fun _ _ h => h₁.trans h
    obtain ⟨hmem, hrun⟩ := List.mem_filter.mp hrule
    have hrunId : rule.runId = run.id := by simpa using (Bool.and_eq_true_iff.mp hrun).1
    refine (restartRule_ensures hr (h₂.sound (h₁.sound hs)) (h₂.knows (knows_of_mem hmem)) hrunId
      fun horch => ?_).mono fun _ _ h => h₂.trans h
    have hstored : s.has .run run.id := by
      obtain ⟨r, hr, _⟩ := (any_eq_true _ _).mp (hobj horch)
      simp [has, hr]
    rw [(h₁.trans h₂).isObjectiveRun hstored, hobj horch]

/-- A run command opens at most the mission of the run, where it stood. -/
theorem runCommand_ensures (hs : Sound s) (hstops : command = .cancel ∨ command = .drain →
      (∀ id, P (.assignmentLost id)) ∧ ∀ id, P (.obligationReopened id))
    (hrun : command = .pause ∨ command = .resume → (s .run).find? run.id = some run)
    (hreopen : command = .reopen → P (.runReopened run.id)
      ∧ ∀ r m, (s .run).find? run.id = some r → (s .mission).find? r.missionId = some m →
        P (reopeningEvent s m)) : EmitsFrom P s (runCommand env actor command run note) := by
  refine .ask fun status hok => ?_
  have htarget := validateRunCommand_ok hok
  have hstop : ∀ (row : Run), Emits P (do
      if status = .stopping ∨ status = .draining then stopWork env row (status = .draining)
      pure row) := fun _ => .ite (fun hstatus => by
    obtain ⟨hl, ho⟩ := hstops (target_stops htarget hstatus)
    exact .done (stopWork_emits hr hl ho)) fun _ => .pure
  rw [ensures_bind]
  by_cases hc : command = .reopen
  · obtain ⟨hP, hopened⟩ := hreopen hc
    refine (ensures_change_effects (.runReopened run.id) hP fun r hr => ?_).mono ?_
    · exact ⟨⟨rfl, rfl, rfl⟩, (key_of_find? hr)⟩
    rintro row s₁ ⟨h₁, hrw, r, hrun, hrow⟩
    have hrw : Rewrites .run run.id row s s₁ := hrw
    refine .ite (fun _ => ?_) fun hn => absurd hc hn
    refine .bind (reopenWork_ensures hr (h₁.sound hs) (fun m hm => ?_) fun horch => ?_)
      fun _ s₂ h₂ => ?_
    · have hmission : s₁ .mission = s .mission := hrw.frame .mission (by decide)
      have hevent : reopeningEvent s₁ m = reopeningEvent s m := by
        simp only [reopeningEvent, parentOpen, roomLeft, openChildren, hmission]
        rfl
      rw [hevent]
      rw [hmission, hrow] at hm
      exact hopened r m hrun hm
    · have hid : row.id = run.id := by
        rw [hrow]
        exact (key_of_find? hrun :)
      rw [isObjectiveRun, hid, hrw.stored, any_some, horch]
      rfl
    · have h₂ : Effects P s s₂ := h₁.trans h₂
      exact (hstop row).after h₂ hs
  · refine (ensures_change_effects .runChanged (hr _ rfl) fun r hr => ?_).mono ?_
    · refine ⟨⟨rfl, rfl, rfl⟩, rfl, rfl, rfl, rfl, fun hopen => ?_⟩
      obtain ⟨hcase, hisOpen⟩ := target_isOpen htarget hc hopen
      cases (hrun hcase).symm.trans hr
      exact hisOpen
    rintro row s₁ ⟨h₁, _⟩
    exact .ite (fun h => absurd h hc) fun _ => (hstop row).after h₁ hs

/-! ## Finishing an execution -/

section

omit hr in
/-- A failure backs off the account it was charged to. -/
theorem backOff_ensures {policy : RetryPolicy} (hb : P (.limitBackedOff limit.id))
    (hlimit : (s .resourceLimit).find? limit.id = some limit) :
    Ensures (backOff env run policy limit) s fun _ s' => Effects P s s'
      ∧ ∀ k, k ≠ limit.id → (s' .resourceLimit).find? k = (s .resourceLimit).find? k := by
  rw [backOff]
  refine .bind (ensures_change_effects (.limitBackedOff limit.id) hb fun old hold => ?_)
    fun _ _ ⟨heff, hrw, _⟩ => .pure ⟨heff, hrw.others⟩
  cases hlimit.symm.trans hold
  refine ⟨rfl, rfl, ⟨_, rfl, ?_⟩, fun h => by simp [touch, h]⟩
  cases limit.cooldownUntil with
  | none => rfl
  | some t => simp

omit hr in
/-- A healthy execution clears a backoff that was over when it started. -/
theorem clearBackOff_ensures (hc : P (.limitCleared limit.id execution.id))
    (hlimit : (s .resourceLimit).find? limit.id = some limit)
    (hexec : ∃ e, (s .execution).find? execution.id = some e ∧ e.startedAt = execution.startedAt) :
    Ensures (clearBackOff env execution limit) s fun _ s' => Effects P s s'
      ∧ ∀ k, k ≠ limit.id → (s' .resourceLimit).find? k = (s .resourceLimit).find? k := by
  refine .ite (fun hclear => ?_) fun _ => .pure ⟨Moves.refl _, fun _ _ => rfl⟩
  refine .bind (ensures_change_effects (.limitCleared limit.id execution.id) hc fun old hold => ?_)
    fun _ _ ⟨heff, hrw, _⟩ => .pure ⟨heff, hrw.others⟩
  cases hlimit.symm.trans hold
  obtain ⟨e, he, hstarted⟩ := hexec
  obtain ⟨hclosed, hhealthy⟩ := Bool.and_eq_true_iff.mp hclear
  have hclosed : limit.circuitOpen = false := by simpa using hclosed
  exact ⟨rfl, e, he, rfl, rfl, hclosed, hclosed, by rw [hstarted]; exact hhealthy⟩

omit hr in
theorem accountLimits_ensures (hb : ∀ id, P (.limitBackedOff id))
    (hc : ∀ id, P (.limitCleared id execution.id))
    (hexec : ∃ e, (s .execution).find? execution.id = some e ∧ e.startedAt = execution.startedAt) :
    EmitsFrom P s (accountLimits env execution item run status failure) := by
  refine .read <| .ite (fun _ => ?_) fun _ => ?_
  · refine .ite (fun _ => .pure (Moves.refl _)) fun _ => ?_
    refine .ask fun _ _ => ?_
    exact ensures_each_effects (t := .resourceLimit) listed_filter fun limit _ s₁ _ hlimit =>
      backOff_ensures (hb _) hlimit
  · refine .ite (fun _ => ?_) fun _ => .pure (Moves.refl _)
    refine .ite (fun _ => ?_) fun _ => .pure (Moves.refl _)
    refine ensures_each_effects (t := .resourceLimit) listed_filter fun limit _ s₁ h₁ hlimit =>
      clearBackOff_ensures (hc _) hlimit ?_
    obtain ⟨e, he, hstarted⟩ := hexec
    obtain ⟨e₁, he₁, hsame⟩ := h₁.sameAdmission he
    exact ⟨e₁, he₁, hsame.startedAt.trans hstarted⟩

end

omit hr in
/-- The claims of an execution are released once its stop is confirmed. -/
theorem releaseClaims_ensures {now : Instant} (hs : Sound s) (hP : P .claimReleased)
    (hstop : ∀ e, (s .execution).find? id = some e → e.stopConfirmedAt.isSome) :
    EmitsFrom P s (releaseClaims env id now) := by
  rw [EmitsFrom, releaseClaims, ensures_updateWhere]
  refine Moves.single hP (.bulk fun c hc hp => ?_)
  obtain ⟨rfl, hopen⟩ : c.executionId = id ∧ c.releasedAt = none := by simpa using hp
  refine ⟨(admissible_iff.mp (hs.consistent .resourceClaim c hc)).1, fun _ h => ?_, ?_⟩
  · simp [conflicts, touch] at h
  · exact ⟨⟨rfl, rfl, rfl, rfl, hopen, rfl⟩, fun e he => hstop e he⟩

variable (hl : ∀ id, P (.assignmentLost id)) (ho : ∀ id, P (.obligationReopened id))
include hl ho

theorem drainCompleted_emits : Emits P (drainCompleted env item) := by
  refine .bind emits_getRecord fun _ => .bind emits_getRecord fun run => ?_
  refine .ite (fun _ => ?_) fun _ => .pure
  refine .bind (systemActor_emits (queueing_of_routine hr)) fun _ => ?_
  refine .done (emits_of_sound fun s hs => ?_)
  exact runCommand_ensures hr hs (fun _ => ⟨hl, ho⟩) (by simp) (by simp)

omit hl ho in
/-- A rule of a legacy run stays one, so changing it ends no planner's pause. -/
theorem changeLegacyRule_ensures {hf : ∀ a, key .automation (f a) = key .automation a}
    (hknown : s.Knows rule) (hlegacy : s.isObjectiveRun rule.runId = false)
    (hsame : ∀ a : Automation, a.SameRule (f a)) :
    Ensures (change env .automation rule.id none f hf) s fun rule' s' =>
      Effects P s s' ∧ s'.Knows rule' := by
  refine (ensures_change_effects (.ruleChanged rule.id) (hr _ rfl) fun old hold => ?_).mono ?_
  · refine ⟨⟨(hsame old).runId, (hsame old).name⟩, (key_of_find? hold), fun hobj => ?_⟩
    obtain ⟨r, hr, hr'⟩ := hknown
    cases hr.symm.trans hold
    rw [hr'.runId, hlegacy] at hobj
    cases hobj
  · rintro rule' s' ⟨heff, hrw, old, hold, hrow⟩
    have hid : rule'.id = rule.id := by
      rw [hrow]
      exact (hf old).trans (key_of_find? hold)
    exact ⟨heff, rule', by rw [hid]; exact hrw.stored, rfl, rfl⟩

omit hl ho in
/-- A completed assignment of a legacy rule is succeeded by the next one. -/
theorem recurNext_ensures {hf : ∀ a, key .automation (f a) = key .automation a} (hs : Sound s)
    (hknown : s.Knows rule) (hlegacy : s.isObjectiveRun rule.runId = false)
    (hsame : ∀ a : Automation, a.SameRule (f a)) :
    EmitsFrom P s (do
        let rule ← change env .automation rule.id none f hf
        let actor ← systemActor env
        match ← replenish env actor rule with
        | some successor => if item.role = .maintainer then transferLedger env item successor
        | none => pure ()) := by
  have hq := queueing_of_routine hr
  refine .bind (changeLegacyRule_ensures hr hknown hlegacy hsame) fun rule' s₁ ⟨h₁, hknown'⟩ => ?_
  refine .bind ((systemActor_emits hq).from (h₁.sound hs)) fun _ _ h₂ => ?_
  have hknown' := Effects.knows h₂ hknown'
  have h₂ := h₁.trans h₂
  refine .bind (replenish_ensures hq (h₂.sound hs) hknown') fun successor _ h₃ => ?_
  have h₃ := h₂.trans h₃
  refine Ensures.mono (Emits.from ?_ (h₃.sound hs)) fun _ _ h => h₃.trans h
  cases successor with
  | none => exact .pure
  | some successor => exact .ite (fun _ => transferLedger_emits hq) fun _ => .pure

/-- The recurrence of a rule of a legacy run. -/
theorem recur_ensures {ruleId : Id} (hs : Sound s)
    (hlegacy : ∀ rule, (s .automation).find? ruleId = some rule →
      s.isObjectiveRun rule.runId = false) : EmitsFrom P s (recur env item row ruleId) := by
  have hq := queueing_of_routine hr
  refine ensures_fetch fun rule hrule => ?_
  obtain ⟨hmem, rfl⟩ := find?_eq_some.mp hrule
  have hknown := knows_of_mem hmem
  have hlegacy := hlegacy rule hrule
  refine .ite (fun _ => .ite (fun _ => ?_) (fun _ => ?_)) fun _ => ?_
  · refine .bind ((systemActor_emits hq).from hs) fun _ s₁ h₁ => ?_
    exact .bind (replenish_ensures hq (h₁.sound hs) (h₁.knows hknown)) fun _ _ h =>
      .pure (h₁.trans h)
  · refine .bind (changeLegacyRule_ensures hr hknown hlegacy fun _ => ?_) fun _ _ h => ?_
    · exact ⟨rfl, rfl⟩
    · exact .pure h.1
  · refine .ite (fun _ => ?_) fun _ => .pure (Moves.refl _)
    refine .ite (fun _ => ?_) fun _ => ?_
    · refine .bind ((drainCompleted_emits hr hl ho).from hs) fun _ s₁ h₁ => ?_
      have hwf := hs.wellFormed hmem
      simp only [Horizon.wellFormed, Bool.and_eq_true] at hwf
      rw [← h₁.isObjectiveRun hwf.1.1] at hlegacy
      refine Ensures.mono (recurNext_ensures hr (h₁.sound hs) (h₁.knows hknown) hlegacy fun _ => ?_)
        fun _ _ h => h₁.trans h
      exact ⟨rfl, rfl⟩
    · exact recurNext_ensures hr hs hknown hlegacy fun _ => ⟨rfl, rfl⟩

omit hl in
/-- What is accounted for before a legacy rule recurs. -/
theorem accounted_ensures {next : Tx Unit} (hs : Sound s)
    (hnext : ∀ s₁, Effects P s s₁ → Ensures next s₁ fun _ s' => Effects P s s') :
    EmitsFrom P s (do
      if row.status = .completed ∧ item.functions.contains .orchestrator then settleEpisode env item
      if row.status = .failed ∨ row.status = .cancelled then reconsider env row
      next) := by
  have hq := queueing_of_routine hr
  have hreconsider : ∀ s₁, Effects P s s₁ → Ensures (do
      if row.status = .failed ∨ row.status = .cancelled then reconsider env row
      next) s₁ fun _ s' => Effects P s s' := by
    intro s₁ h₁
    refine .ite (fun _ => ?_) fun _ => hnext s₁ h₁
    exact .bind ((reconsider_emits hq ho).from (h₁.sound hs)) fun _ s₂ h₂ => hnext s₂ (h₁.trans h₂)
  refine .ite (fun _ => ?_) fun _ => hreconsider s (Moves.refl _)
  exact .bind ((settleEpisode_emits hq).from hs) fun _ s₁ h₁ => hreconsider s₁ h₁

theorem afterLegacy_ensures (hs : Sound s)
    (hitem : ∃ a, (s .assignment).find? item.id = some a ∧ item.SameWork a)
    (hobj : s.isObjectiveRun item.runId = false) : EmitsFrom P s (afterLegacy env item row) := by
  obtain ⟨a, ha, hw⟩ := hitem
  have hrun : s.has .run item.runId := by
    obtain ⟨r, hr⟩ := hs.runOf ha
    rw [has, ← hw.runId, hr]
    rfl
  refine accounted_ensures hr ho hs fun _ h₁ => ?_
  split
  · rename_i ruleId hid
    refine (recur_ensures hr hl ho (h₁.sound hs) fun rule hrule => ?_).mono fun _ _ h => h₁.trans h
    obtain ⟨a₁, ha₁, hw₁⟩ := h₁.sameAccounts.assignment _ a ha
    have hruled := (h₁.sound hs).ruled a₁ (mem_of_find? ha₁) rule
      (by rw [hw₁.automationId, hw.automationId, hid]; exact hrule)
    rw [hruled, hw₁.runId, hw.runId, h₁.isObjectiveRun hrun, hobj]
  · exact .pure h₁

omit hr hl ho in
theorem Outcome.key_apply (outcome : Outcome) (a : Assignment) :
    key .assignment (outcome.apply a) = key .assignment a := rfl

omit hr hl ho in
/-- How `finish` goes on once the outcome is decided. -/
abbrev settleAs (env : Env) (item : Assignment) (run : Run) (outcome : Outcome) :
    Tx Assignment := do
  let row ← change env .assignment item.id none outcome.apply outcome.key_apply
  if run.orchestration = .objective then
    if row.status = .completed then completed env row run
  else afterLegacy env item row
  pure row

omit hr hl ho in
/-- An assignment is written as its outcome says, and what follows satisfies `P`. -/
def SettledAs (env : Env) (id : Id) (outcome : Outcome) (P : Event → Prop) (s s' : DB) : Prop :=
  ∃ row s₁, Effects (· = .assignmentSettled id) s s₁ ∧ Rewrites .assignment id row s s₁
    ∧ (∃ a, (s .assignment).find? id = some a ∧ row = touch env.now _ (outcome.apply a))
    ∧ Effects P s₁ s'

/-- Settling the assignment of an ended execution, and what follows from it. -/
theorem settleAssignment_ensures {outcome : Outcome} (hs : Sound s) (houtcome : outcome.Settles)
    (hitem : ∃ a, (s .assignment).find? item.id = some a ∧ item.SameWork a
      ∧ a.status.isActive ∧ (a.status = .stopping → outcome.status = .cancelled))
    (hdead : ∀ e ∈ s .execution, e.assignmentId = item.id → e.status.isLive = false)
    (hrun : run.id = item.runId)
    (hobj : s.isObjectiveRun run.id = decide (run.orchestration = .objective)) :
    Ensures (settleAs env item run outcome) s fun _ s' => SettledAs env item.id outcome P s s' := by
  have hq := queueing_of_routine hr
  obtain ⟨a, ha, hw, hactive, hstopping⟩ := hitem
  refine .bind
    (ensures_change_effects (P := (· = .assignmentSettled item.id)) (.assignmentSettled item.id)
    rfl fun old hold => ?_) ?_
  · cases ha.symm.trans hold
    refine ⟨⟨rfl, rfl, rfl, rfl, rfl⟩, (key_of_find? ha), rfl, rfl, ?_, hactive,
      houtcome.1, hstopping, hdead⟩
    rcases houtcome.2 with h | h
    · exact .inl (by simp [touch, Outcome.apply, h])
    · exact .inr (by simp [touch, Outcome.apply, h])
  rintro row s₁ ⟨h₁, hrw, old, hold, hrow⟩
  cases ha.symm.trans hold
  have hrunId : row.runId = a.runId := by
    rw [hrow]
    rfl
  have hhas : s.has .run run.id := by
    obtain ⟨r, hr⟩ := hs.runOf ha
    rw [has, hrun, ← hw.runId, hr]
    rfl
  have hdone : ∀ {s'}, Effects P s₁ s' → SettledAs env item.id outcome P s s' :=
    fun h => ⟨row, s₁, h₁, hrw, ⟨a, ha, hrow⟩, h⟩
  refine .ite (fun horch => .ite (fun _ => ?_) (fun _ => ?_)) fun horch => ?_
  · refine .bind (completed_ensures hq (h₁.sound hs) (fun _ => hr _ rfl)
      (mem_of_find? hrw.stored) ?_ ?_) fun _ _ h => .pure (hdone h)
    · rw [hrun, hrunId, hw.runId]
    · rw [h₁.isObjectiveRun hhas, hobj]
      simpa using horch
  · exact .pure (hdone (Moves.refl _))
  · obtain ⟨a₁, ha₁, hw₁⟩ := h₁.sameAccounts.assignment _ a ha
    refine .bind (afterLegacy_ensures hr hl ho (h₁.sound hs) ⟨a₁, ha₁, hw.trans hw₁⟩ ?_)
      fun _ _ h => .pure (hdone h)
    rw [← hrun, h₁.isObjectiveRun hhas, hobj]
    simpa using horch

end

/-! ## Finishing an execution -/

/-- A finished execution is not live. -/
@[simp] theorem isLive_status (stopping : Bool) (status : ExecutionOutcome) :
    (status.status stopping).isLive = false := by
  cases status <;> cases stopping <;> rfl

/-- An execution that was read and the one that is stored agree on what matters to its end. -/
structure Execution.Agrees (e e' : Execution) : Prop where
  sameAdmission : e.SameAdmission e'
  stopConfirmedAt : e'.stopConfirmedAt = e.stopConfirmedAt
  isLive : e'.status.isLive = e.status.isLive

instance : Std.Refl Execution.Agrees :=
  ⟨fun _ => ⟨⟨rfl, rfl, rfl, rfl, rfl, rfl, fun h => h⟩, rfl, rfl⟩⟩

theorem Execution.Agrees.trans {e'' : Execution} (h : e.Agrees e') (h' : e'.Agrees e'') :
    e.Agrees e'' :=
  ⟨h.sameAdmission.trans h'.sameAdmission, h'.stopConfirmedAt.trans h.stopConfirmedAt,
    h'.isLive.trans h.isLive⟩

/-- An assignment has one live execution. -/
theorem Sound.live_unique (hs : Sound s) (he : e ∈ s .execution) (he' : e' ∈ s .execution)
    (hl : e.status.isLive) (hl' : e'.status.isLive)
    (ha : e'.assignmentId = e.assignmentId) : e' = e := by
  by_contra hne
  have hk : key .execution e' ≠ key .execution e := fun hk =>
    hne ((s .execution).eq_of_key he' he hk)
  have hconflict := (admissible_iff.mp (hs.consistent .execution e he)).2 e' he' hk
  simp [conflicts, hl, hl', ha] at hconflict

/-- The writes of an accounted end of an execution. -/
def Event.isAccounting : Event → Bool
  | .slotChanged | .claimReleased | .limitBackedOff _ | .limitCleared _ _ => true
  | ev => ev.isQueueing

/-- The writes that follow a settled assignment. -/
def Event.isFollowing : Event → Bool
  | .assignmentLost _ | .obligationReopened _ => true
  | ev => ev.isRoutine

theorem Event.isFollowing_of_isRoutine (h : ev.isRoutine) : ev.isFollowing := by
  cases ev with
  | assignmentLost | obligationReopened => rfl
  | _ => exact h

/-- Accounting writes no execution and moves no assignment. -/
theorem Event.isAccounting_frame (h : ev.isAccounting) :
    ev.table ≠ .execution ∧ ∀ id, ev.moves id = false := by
  have hq : ev.isQueueing → ev.table ≠ .execution ∧ ∀ id, ev.moves id = false := fun hq =>
    ⟨(table_ne_of_isQueueing hq).2.1, moves_of_isRoutine (isRoutine_of_isQueueing hq)⟩
  cases ev with
  | slotChanged | claimReleased | limitBackedOff | limitCleared =>
    exact ⟨by rintro ⟨⟩, fun _ => rfl⟩
  | _ => exact hq h

/-- An execution ends while its assignment or its run is being stopped. -/
def isStopping (item : Assignment) (run : Run) : Bool :=
  item.status == .stopping || run.status == .stopping || run.status == .cancelled

/-- How an execution ends: it is fenced, its accounts and then its assignment are settled,
and what follows only queues and cancels work. -/
structure Finished (env : Env) (actor : Actor) (execution : Execution) (status : ExecutionOutcome)
    (failure : Option Failure) (journalPending : Bool) (reason : Option StopReason)
    (item : Assignment) (run : Run) (s s₁ s₂ s₃ s' : DB) : Prop where
  itemOf : (s .assignment).find? execution.assignmentId = some item
  runOf : (s .run).find? item.runId = some run
  fence : Effects (fun ev => ev = .executionEnded execution.id
    ∨ (actor.kind = .host ∧ status ≠ .lost ∧ ev = .stopConfirmed execution.id true)) s s₁
  fenced : ∃ row, Rewrites .execution execution.id row s s₁
    ∧ row.failure = failure.map normalizeFailure
    ∧ row.assignmentId = execution.assignmentId ∧ row.status = status.status (isStopping item run)
  account : Effects (·.isAccounting) s₁ s₂
  settle : Effects (· = .assignmentSettled item.id) s₂ s₃
  settled : ∃ row outcome, Rewrites .assignment item.id row s₂ s₃ ∧ outcome.Settles
    ∧ (∃ a, (s₂ .assignment).find? item.id = some a ∧ row = touch env.now _ (outcome.apply a))
    ∧ (run.orchestration = .objective →
      (∀ t, t ≠ .execution → t ≠ .resourceClaim → t ≠ .resourceLimit → s₂ t = s t)
        ∧ s₂.finishValues env item run status (failure.map normalizeFailure) (isStopping item run)
          reason journalPending = .ok outcome)
  follow : Effects (·.isFollowing) s₃ s'

/-- The writes of the end of an execution. -/
theorem Finished.effects {s₁ s₂ s₃ s' : DB}
    (h : Finished env actor execution status failure journalPending reason item run s s₁ s₂ s₃ s')
    (hr : ∀ ev : Event, ev.isRoutine → P ev) (hend : P (.executionEnded execution.id))
    (hstop : actor.kind = .host → status ≠ .lost → P (.stopConfirmed execution.id true))
    (hset : ∀ ev : Event, ev.isSettling → (∀ id, ev ≠ .executionEnded id) → P ev) :
    Effects P s s' := by
  have hfence : Effects P s s₁ := h.fence.mono <| by
    rintro _ (rfl | ⟨hhost, hlost, rfl⟩)
    · exact hend
    · exact hstop hhost hlost
  have haccount : Effects P s₁ s₂ := h.account.mono fun ev hev => by
    cases ev with
    | limitBackedOff | limitCleared => exact hset _ rfl (by rintro _ ⟨⟩)
    | slotChanged | claimReleased => exact hr _ rfl
    | _ => exact hr _ (Event.isRoutine_of_isQueueing hev)
  have hsettle : Effects P s₂ s₃ := h.settle.mono <| by
    rintro _ rfl
    exact hset _ rfl (by rintro _ ⟨⟩)
  have hfollow : Effects P s₃ s' := h.follow.mono fun ev hev => by
    cases ev with
    | assignmentLost | obligationReopened => exact hset _ rfl (by rintro _ ⟨⟩)
    | _ => exact hr _ hev
  exact ((hfence.trans haccount).trans hsettle).trans hfollow

/-- The end of an execution. -/
abbrev Execution.endedAt (e : Execution) (now : Instant) (status : ExecutionStatus)
    (failure : Option Failure) (confirmed : Option Instant) : Execution :=
  { e with status, finishedAt := some now, leaseExpiresAt := now, failure,
           stopConfirmedAt := confirmed }

/-- Fencing an execution ends it, and confirms its stop only for its host. -/
theorem fence_ensures {status : ExecutionStatus} {confirmed : Option Instant}
    (hexec : ∃ e, (s .execution).find? execution.id = some e ∧ execution.Agrees e)
    (hdead : status.isLive = false)
    (hP : (P (.executionEnded execution.id) ∧ confirmed = execution.stopConfirmedAt)
      ∨ (P (.stopConfirmed execution.id true) ∧ confirmed.isSome)) :
    Ensures (change env .execution execution.id none (·.endedAt env.now status failure confirmed)) s
      fun _ s' => Effects P s s'
        ∧ ∃ row, Rewrites .execution execution.id row s s' ∧ row.failure = failure
          ∧ row.assignmentId = execution.assignmentId ∧ row.status = status
          ∧ row.stopConfirmedAt = confirmed ∧ row.startedAt = execution.startedAt := by
  obtain ⟨e, he, hsame, hstop, _⟩ := hexec
  have hadm : e.SameAdmission
      (touch env.now .execution (e.endedAt env.now status failure confirmed)) := by
    refine ⟨rfl, rfl, rfl, rfl, rfl, rfl, fun h => ?_⟩
    rw [show (touch env.now .execution _ : Execution).status = status from rfl, hdead] at h
    cases h
  have hrow : ∀ {row : Execution} {s' : DB}, Rewrites .execution execution.id row s s' →
      (∃ old, (s .execution).find? execution.id = some old ∧
        row = touch env.now .execution (old.endedAt env.now status failure confirmed)) →
      ∃ row, Rewrites .execution execution.id row s s' ∧ row.failure = failure
        ∧ row.assignmentId = execution.assignmentId ∧ row.status = status
        ∧ row.stopConfirmedAt = confirmed ∧ row.startedAt = execution.startedAt := by
    rintro row s' hrw ⟨old, hold, hrow⟩
    cases he.symm.trans hold
    exact ⟨row, hrw, by rw [hrow]; rfl, by rw [hrow]; exact hsame.assignmentId, by rw [hrow]; rfl,
      by rw [hrow]; rfl, by rw [hrow]; exact hsame.startedAt⟩
  rcases hP with ⟨hP, hconfirmed⟩ | ⟨hP, hconfirmed⟩
  · refine (ensures_change_effects (.executionEnded execution.id) hP fun old hold => ?_).mono
      fun row s' ⟨heff, hrw, hold⟩ => ⟨heff, hrow hrw hold⟩
    cases he.symm.trans hold
    exact ⟨hadm, (key_of_find? he), hconfirmed.trans hstop.symm⟩
  · refine (ensures_change_effects (.stopConfirmed execution.id true) hP fun old hold => ?_).mono
      fun row s' ⟨heff, hrw, hold⟩ => ⟨heff, hrow hrw hold⟩
    cases he.symm.trans hold
    exact ⟨hadm, (key_of_find? he), hconfirmed, by rintro ⟨⟩⟩

/-- The outcome of a legacy execution, decided while its findings are handed over. -/
theorem legacyOutcome_ensures (hs : Sound s) :
    Ensures (legacyOutcome env execution item run status failure stopping rootMaintainer
      journalPending reason) s fun outcome s' =>
        Effects (·.isAccounting) s s' ∧ outcome.Settles
          ∧ (stopping → outcome.status = .cancelled) := by
  have hq : ∀ ev : Event, ev.isQueueing → ev.isAccounting := fun ev hev => by
    cases ev with
    | slotChanged | claimReleased | limitBackedOff | limitCleared => rfl
    | _ => exact hev
  have heff : Emits (·.isAccounting) (legacyOutcome env execution item run status failure
    stopping rootMaintainer journalPending reason) := legacyOutcome_emits hq rfl
  refine (heff.from hs).and (legacyOutcome_settles.and ?_)
  cases stopping with
  | false => exact fun _ _ _ => by rintro ⟨⟩
  | true => exact legacyOutcome_stopping.mono fun _ _ h _ => h

/-- Settling the assignment of a fenced execution. -/
theorem settleOutcome_ensures (hs : Sound s) (hitem : (s .assignment).find? item.id = some item)
    (hactive : item.status.isActive) (hstopping : item.status = .stopping → stopping)
    (hdead : ∀ e ∈ s .execution, e.assignmentId = item.id → e.status.isLive = false)
    (hrun : run.id = item.runId)
    (hobj : s.isObjectiveRun run.id = decide (run.orchestration = .objective)) :
    Ensures (do
      let outcome ← match run.orchestration with
        | .objective =>
          query fun db => db.finishValues env item run status failure stopping reason journalPending
        | .legacy =>
          legacyOutcome env execution item run status failure stopping rootMaintainer
            journalPending reason
      settleAs env item run outcome) s fun _ s' => ∃ outcome s₁, Effects (·.isAccounting) s s₁
        ∧ outcome.Settles ∧ (run.orchestration = .objective → s₁ = s
          ∧ s.finishValues env item run status failure stopping reason journalPending = .ok outcome)
        ∧ SettledAs env item.id outcome (·.isFollowing) s₁ s' := by
  have hruns : s.has .run run.id := by
    obtain ⟨r, hr⟩ := hs.runOf hitem
    rw [has, hrun, hr]
    rfl
  -- Whatever the outcome is, it is decided before the assignment is written.
  have hsettle : ∀ (outcome : Outcome) (s₁ : DB), Effects (·.isAccounting) s s₁ →
      outcome.Settles → (stopping → outcome.status = .cancelled) →
      Ensures (settleAs env item run outcome) s₁
        fun _ s' => SettledAs env item.id outcome (·.isFollowing) s₁ s' := by
    intro outcome s₁ h₁ houtcome hcancelled
    obtain ⟨a, ha, hw, hkept⟩ := h₁.sameStatus hitem fun ev hev =>
      (Event.isAccounting_frame hev).2 _
    refine settleAssignment_ensures (fun _ => Event.isFollowing_of_isRoutine) (fun _ => rfl)
      (fun _ => rfl) (h₁.sound hs) houtcome ⟨a, ha, hw, by rw [hkept, hactive], fun h => ?_⟩ ?_ hrun
      ((h₁.isObjectiveRun hruns).trans hobj)
    · exact hcancelled (hstopping (hkept ▸ h))
    · rw [h₁.frame fun ev hev => (Event.isAccounting_frame hev).1]
      exact hdead
  cases horch : run.orchestration with
  | objective =>
    refine .ask fun outcome hok => ?_
    refine (hsettle outcome s (Moves.refl _) (finishValues_settles hok) ?_).mono fun _ s' h => ?_
    · rintro rfl
      exact finishValues_stopping hok
    · exact ⟨outcome, s, Moves.refl _, finishValues_settles hok, fun _ => ⟨rfl, hok⟩, h⟩
  | legacy =>
    refine .bind (legacyOutcome_ensures hs) ?_
    rintro outcome s₁ ⟨h₁, houtcome, hcancelled⟩
    exact (hsettle outcome s₁ h₁ houtcome hcancelled).mono fun _ s' h =>
      ⟨outcome, s₁, h₁, houtcome, by rintro ⟨⟩, h⟩

/-- An execution that is not live is left alone, and a live one ends. -/
theorem finish_ensures (hs : Sound s)
    (hexec : ∃ e, (s .execution).find? execution.id = some e ∧ execution.Agrees e) :
    Ensures (finish env actor execution status failure journalPending reason) s fun _ s' =>
      (execution.status.isLive = false ∧ s' = s) ∨ ∃ item run s₁ s₂ s₃, execution.status.isLive
        ∧ Finished env actor execution status failure journalPending reason item run s s₁
        s₂ s₃ s' := by
  refine ensures_fetch fun item hitem => ?_
  refine ensures_fetch fun run hrun => ?_
  refine .read <| .ite (fun h => .pure (.inl ⟨by simpa using h, rfl⟩)) fun h => ?_
  have hlive : execution.status.isLive := by simpa using h
  have hitemId : item.id = execution.assignmentId := key_of_find? hitem
  have hrunId : run.id = item.runId := key_of_find? hrun
  obtain ⟨e, he, hsame, _, hliveEq⟩ := id hexec
  have hmem := mem_of_find? he
  have hactive : item.status.isActive :=
    hs.owned e hmem (hliveEq.trans hlive) item (by rw [hsame.assignmentId]; exact hitem)
  have hstopping : item.status = .stopping → isStopping item run := fun h => by
    rw [isStopping, h]
    rfl
  refine .bind (fence_ensures (P := fun ev => ev = .executionEnded execution.id
    ∨ (actor.kind = .host ∧ status ≠ .lost ∧ ev = .stopConfirmed execution.id true)) hexec
    (isLive_status _ status)
    ?_) ?_
  · by_cases hhost : actor.kind = .host ∧ status ≠ .lost
    · exact .inr ⟨.inr ⟨hhost.1, hhost.2, rfl⟩, by rw [if_pos hhost]; rfl⟩
    · exact .inl ⟨.inl rfl, by rw [if_neg hhost]⟩
  rintro _ s₁ ⟨h₁, row, hrw, hfailure, hassigned, hstatus, hconfirmed, hstarted⟩
  have hs₁ := h₁.sound hs
  -- The only live execution of the assignment was the fenced one.
  have hdead : ∀ e' ∈ s₁ .execution, e'.assignmentId = item.id → e'.status.isLive = false := by
    intro e' he' ha'
    by_cases hk : e'.id = execution.id
    · have hstored : (s₁ .execution).find? execution.id = some e' :=
        find?_eq_some.mpr ⟨he', hk⟩
      cases hrw.stored.symm.trans hstored
      rw [hstatus, isLive_status]
    · have hstored : (s .execution).find? e'.id = some e' := by
        rw [← hrw.others _ hk]
        exact find?_key he'
      by_contra hl'
      have heq := hs.live_unique hmem (mem_of_find? hstored) (hliveEq.trans hlive)
        (by simpa using hl') (by rw [ha', hsame.assignmentId, hitemId])
      exact hk (heq ▸ (key_of_find? he))
  rw [ensures_bind]
  -- What is accounted for before the outcome is decided are claims and limits.
  let P : Event → Prop := fun ev =>
    ev.isAccounting ∧ (ev.table = .resourceClaim ∨ ev.table = .resourceLimit)
  have hframe : ∀ {s₂ : DB}, Effects P s₁ s₂ → ∀ t, t ≠ .resourceClaim → t ≠ .resourceLimit →
      s₂ t = s₁ t := fun h₂ t hclaim hlimit => h₂.frame fun _ h ht =>
    h.2.elim (fun hc => hclaim (ht.symm.trans hc)) fun hl => hlimit (ht.symm.trans hl)
  refine (accountLimits_ensures (P := P) (fun _ => ⟨rfl, .inr rfl⟩) (fun _ => ⟨rfl, .inr rfl⟩)
    ⟨row, hrw.stored, hstarted⟩).mono fun _ s₂ h₂ => ?_
  -- The claims are released, or kept; either way the assignment is settled next.
  have hsettle : ∀ s₂, Effects P s₁ s₂ →
      Sound s₂ ∧ (s₂ .assignment).find? item.id = some item
        ∧ (∀ e ∈ s₂ .execution, e.assignmentId = item.id → e.status.isLive = false)
        ∧ s₂.isObjectiveRun run.id = decide (run.orchestration = .objective) := by
    intro s₂ h₂
    have hruns : s.has .run run.id := by
      rw [has, hrunId, hrun]
      rfl
    refine ⟨h₂.sound hs₁, ?_, ?_, ?_⟩
    · rw [hframe h₂ _ (by decide) (by decide), hrw.frame .assignment (by decide), hitemId]
      exact hitem
    · rw [h₂.frame fun _ h => (Event.isAccounting_frame h.1).1]
      exact hdead
    · rw [h₂.isObjectiveRun (h₁.keepsKeys .run (by decide) _ hruns), h₁.isObjectiveRun hruns,
        isObjectiveRun, hrunId, hrun]
      rfl
  have hdone : ∀ s₂, Effects P s₁ s₂ →
      ∀ {s'}, (∃ outcome s₃, Effects (·.isAccounting) s₂ s₃ ∧ outcome.Settles
        ∧ (run.orchestration = .objective → s₃ = s₂ ∧ s₂.finishValues env item run status
          (failure.map normalizeFailure) (isStopping item run) reason journalPending = .ok outcome)
        ∧ SettledAs env item.id outcome (·.isFollowing) s₃ s') →
      (execution.status.isLive = false ∧ s' = s) ∨ ∃ item run s₁ s₂ s₃, execution.status.isLive
        ∧ Finished env actor execution status failure journalPending reason item run s s₁
        s₂ s₃ s' := by
    rintro s₂ h₂ s' ⟨outcome, s₃, h₃, houtcome, hobjective, settledRow, s₄, h₄, hrw₄, ha₄, h₅⟩
    refine .inr ⟨item, run, s₁, s₃, s₄, hlive, hitem, hrun, h₁,
      ⟨row, hrw, hfailure, hassigned, hstatus⟩,
      (h₂.mono fun _ h => h.1).trans h₃, h₄,
        ⟨settledRow, outcome, hrw₄, houtcome, ha₄, fun horch => ?_⟩, h₅⟩
    obtain ⟨rfl, hok⟩ := hobjective horch
    exact ⟨fun t he hc hl => (hframe h₂ t hc hl).trans (hrw.frame t he), hok⟩
  refine .ite (fun hsome => ?_) fun _ => ?_
  case refine_2 =>
    obtain ⟨hs₂, hitem₂, hdead₂, hobj₂⟩ := hsettle s₂ h₂
    exact (settleOutcome_ensures hs₂ hitem₂ hactive hstopping hdead₂ hrunId hobj₂).mono fun _ _ =>
      hdone s₂ h₂
  refine .bind (releaseClaims_ensures (P := P) (h₂.sound hs₁) ⟨rfl, .inl rfl⟩ fun e' he' => ?_)
    fun _ s₃ h₃ => ?_
  case refine_2 =>
    have h₃ := h₂.trans h₃
    obtain ⟨hs₃, hitem₃, hdead₃, hobj₃⟩ := hsettle s₃ h₃
    exact (settleOutcome_ensures hs₃ hitem₃ hactive hstopping hdead₃ hrunId hobj₃).mono fun _ _ =>
      hdone s₃ h₃
  rw [h₂.frame fun ev hev => (Event.isAccounting_frame hev.1).1, hrw.stored] at he'
  rw [← some.inj he', hconfirmed]
  exact hsome

end Horizon
