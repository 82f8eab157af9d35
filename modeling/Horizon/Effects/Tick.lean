import Horizon.Execution.Tick
import Horizon.Effects.Reviews

/-!
# What a tick writes

A tick settles what has ended without confirming a stop, and queues recurring work.  Only
the tick of a run with an accepted phase moves the run to it and restarts its planner.
-/

namespace Horizon

open Transaction Table List Bool Option DB

variable {s s₀ s' : DB} {ev : Event} {id : Id} {env : Env} {P : Event → Prop} {item : Assignment}
  {rule : Automation} {audit : Option Obligation} {attention : Bool} {rules : List Automation}
  {actor : Actor} {run : Run}

/-! ## Expired leases -/

/-- An execution that was read keeps agreeing with the stored one as long as it does not end. -/
theorem Effect.agrees (h : Effect ev s s') {e : Execution} (he : (s .execution).find? id = some e)
    (hend : ev ≠ .executionEnded id) (hstop : ∀ id ended, ev ≠ .stopConfirmed id ended) :
    ∃ e', (s' .execution).find? id = some e' ∧ e.Agrees e' := by
  obtain ⟨e', he', rfl | ⟨ht, hch⟩⟩ := h.find? (by decide) he
  · exact ⟨e', he', refl e'⟩
  cases ev with
  | executionAdmitted => cases hch
  | executionChanged => exact ⟨e', he', hch.1, hch.2.1, hch.2.2.1⟩
  | executionEnded id' =>
    obtain rfl := hch.2.1.symm.trans (key_of_find? he)
    exact absurd rfl hend
  | stopConfirmed id' ended => exact absurd rfl (hstop id' ended)
  | other t hu => cases ht; cases hu
  | _ => cases ht

section

/-- Losing track of the requests of an execution leaves them unsettled. -/
theorem loseRequests_emits (hP : P (.other .providerRequest rfl)) :
    Emits P (updateWhere env .providerRequest (fun _ r => r.executionId == id
      && (r.status == .pending || r.status == .submitted || r.status == .running)) fun r =>
        { r with status := .uncertain }) := by
  refine emits_updateWhere (.other .providerRequest rfl) hP fun s hc r hmem hp => ?_
  have hwf := hc.wellFormed (t := .providerRequest) hmem
  refine ⟨hwf, fun r' h => ?_, trivial⟩
  have hlost : r.status.isUnsettled := by
    have hp : (r.status = .pending ∨ r.status = .submitted) ∨ r.status = .running := by
      simpa using (and_eq_true_iff.mp hp).2
    rcases hp with (h | h) | h <;> rw [h] <;> rfl
  have hopen : RequestStatus.uncertain.isUnsettled := rfl
  simpa [conflicts, touch, hlost, hopen] using h

/-- The writes of a recovered lease: only its own execution ends. -/
def Event.Recovers (id : Id) (ev : Event) : Prop :=
  ev.isRoutine ∨ (ev.isSettling ∧ ∀ id', ev = .executionEnded id' → id' = id)

/-- Fencing an execution whose lease expired ends that execution, and no other. -/
theorem recoverLease_ensures {execution : Execution} (hs : Sound s)
    (hexec : ∃ e, (s .execution).find? execution.id = some e ∧ execution.Agrees e) :
    EmitsFrom (Event.Recovers execution.id) s (recoverLease env actor execution) := by
  rw [recoverLease]
  refine .bind ((loseRequests_emits (P := (· = .other .providerRequest rfl)) rfl).from hs)
    fun _ s₁ h₁ => ?_
  have hframe : s₁ .execution = s .execution := h₁.frame (by rintro _ rfl ⟨⟩)
  have h₁ : Effects (Event.Recovers execution.id) s s₁ := h₁.mono (by rintro _ rfl; exact .inl rfl)
  refine .bind (finish_ensures (h₁.sound hs) (by rwa [hframe])) ?_
  rintro _ _ (⟨_, rfl⟩ | ⟨_, run, _, _, _, _, h₂⟩)
  · exact .pure h₁
  · refine .pure (h₁.trans (h₂.effects (fun _ => .inl) (.inr ⟨rfl, ?_⟩) ?_ ?_))
    · rintro _ ⟨⟩
      rfl
    · exact fun _ h => absurd rfl h
    · exact fun ev hev hne => .inr ⟨hev, fun id h => absurd h (hne id)⟩

/-- Expired leases are recovered from the rows read at the start of the sweep: recovering
one of them ends none of the others. -/
theorem recoverLeases_ensures {executions : List Execution} (hs : Sound s)
    (hlisted : Listed (t := .execution) Execution.Agrees executions s) :
    EmitsFrom (fun ev => ev.isRoutine ∨ ev.isSettling) s
      (each (recoverLease env actor) executions) := by
  let J (rest : List Execution) (s₁ : DB) : Prop :=
    Effects (fun ev => ev.isRoutine ∨ ev.isSettling) s s₁
      ∧ Listed (t := .execution) Execution.Agrees rest s₁
  refine Ensures.mono (ensures_each_rest (J := J) ⟨Moves.refl _, hlisted⟩ ?_) fun _ _ h => h.1
  rintro execution rest s₁ ⟨h₁, hlisted⟩
  refine (recoverLease_ensures (h₁.sound hs) hlisted.head).mono fun _ s₂ h₂ =>
    ⟨h₁.trans (h₂.mono fun _ => Or.imp_right And.left), hlisted.tail fun id hid e he => ?_⟩
  obtain ⟨e', he', hagrees⟩ : ∃ e', (s₂ .execution).find? id = some e' ∧ e.Agrees e' := by
    refine h₂.preserves (I := fun s₂ => ∃ e', (s₂ .execution).find? id = some e' ∧ e.Agrees e')
      (fun ev _ _ hev heff ⟨e₁, he₁, hagrees⟩ => ?_) ⟨e, he, refl e⟩
    have hend : ev ≠ .executionEnded id := by
      rintro rfl
      rcases hev with hev | ⟨_, hev⟩
      · cases hev
      · exact hid (hev id rfl)
    have hstop : ∀ id' ended, ev ≠ .stopConfirmed id' ended := by
      rintro id' ended rfl
      rcases hev with hev | ⟨hev, _⟩ <;> cases hev
    obtain ⟨e₂, he₂, hagrees'⟩ := heff.agrees he₁ hend hstop
    exact ⟨e₂, he₂, hagrees.trans hagrees'⟩
  exact ⟨e', he', fun _ h => h.trans hagrees⟩

/-! ## Settling -/

theorem releaseChildClaims_emits {now : Instant} (hP : P .childReleased) :
    Emits P (releaseChildClaims env id now) := by
  refine emits_updateWhere .childReleased hP fun s hc c hmem hp => ?_
  obtain ⟨hid, hopen⟩ : c.providerRequestId = some id ∧ c.releasedAt = none := by simpa using hp
  have hwf := hc.wellFormed (t := .resourceClaim) hmem
  refine ⟨hwf, fun _ h => ?_, ⟨rfl, rfl, rfl, rfl, hopen, rfl⟩, ?_⟩
  · simp [conflicts, touch] at h
  · rw [hid]
    rfl

variable (hr : ∀ ev : Event, ev.isRoutine → P ev)
  (hset : ∀ ev : Event, ev.isSettling → P ev)
include hr hset

omit hset in
theorem settleStopping_emits : Emits P (settleStopping env run) := by
  refine .read fun _ => .unless ?_
  refine .done (emits_change .runChanged (hr _ rfl) fun _ _ _ _ => ?_)
  exact ⟨⟨rfl, rfl, rfl⟩, rfl, rfl, rfl, rfl, by rintro ⟨⟩⟩

theorem settleDraining_emits : Emits P (settleDraining env actor run) := by
  refine .done (.savepoint (emits_of_sound fun s hs => ?_))
  exact runCommand_ensures hr hs (fun _ => ⟨fun _ => hset _ rfl, fun _ => hset _ rfl⟩)
    (by simp) (by simp)

theorem settleSweep_emits : Emits P (settleSweep env actor) := by
  have hstopping : Emits P (do
      let db ← get
      each (settleStopping env) ((db .run).rows.filter (·.status == .stopping))
      let db ← get
      each (settleDraining env actor) ((db .run).rows.filter (·.status == .draining))) := by
    refine .read fun db =>
      .bind (.each fun _ _ => settleStopping_emits hr) fun _ => ?_
    exact .read fun db => .each fun _ _ => settleDraining_emits hr hset
  refine .read fun db => .bind (.each fun _ _ => ?_) fun _ => ?_
  · exact .bind (emits_change_other rfl (hr _ rfl)) fun _ => releaseChildClaims_emits (hr _ rfl)
  -- Leases and windows are read once, so each sweep is followed through its list.
  refine emits_of_sound fun s hs => ?_
  refine .read ?_
  refine .bind (recoverLeases_ensures hs listed_filter) fun _ s₁ h₁ => ?_
  have h₁ : Effects P s s₁ := h₁.mono fun ev hev => hev.elim (hr ev) (hset ev)
  refine .read ?_
  refine .bind (cancelEach_ensures hr (h₁.sound hs) (fun _ => hset _ rfl) (fun _ => hset _ rfl)
    listed_filter) fun _ _ h₂ => ?_
  have h₂ := h₁.trans h₂
  exact hstopping.after h₂ hs

end

/-! ## Coordination recovery -/

theorem attachRecovery_leaves {t : TableName} (ht : t ≠ .obligation) (ht' : t ≠ .runCoordination)
    {cause : Option String} : Leaves t (attachRecovery env item cause) := by
  cases cause with
  | none => exact .pure
  | some cause =>
    refine .bind (createObligation_leaves ht) fun _ => .read fun db => ?_
    dsimp only
    split
    · exact leaves_updateWhere ht'
    · exact .done (leaves_create ht')

theorem isLost_congr (h : s' .assignment = s .assignment) (id : Id) :
    s'.isLost id = s.isLost id := by
  rw [isLost, isLost, h]

/-- A newly queued assignment has not lost its work. -/
theorem assignment_notLost {data : AssignmentCreate} {automationId : Option Id}
    {internal repair : Bool} :
    Ensures (assignment env actor data automationId internal repair) s
      fun row s' => s'.isLost row.id = false := by
  rw [assignment, ensures_bind, ensures_get, ensures_bind, ensures_query]
  rintro ⟨_, _⟩ _
  rw [ensures_bind, ensures_create]
  intro _ _
  dsimp only
  rw [ensures_bind]
  intro _ _ h₁
  refine .pure ?_
  rw [isLost_congr (createObligation_leaves (by decide) _ _ _ h₁), isLost, Database.write_self]
  exact congrArg (Option.any _) find?_insert_self

/-- An owner that was found has not lost its work. -/
def OwnerUsable (owner : Option Assignment) (s : DB) : Prop :=
  ∀ row, owner = some row → s.isLost row.id = false

theorem ownerUsable_none : OwnerUsable none s := fun _ h => by cases h

theorem replenish_usable : Ensures (replenish env actor rule) s OwnerUsable := by
  refine ensures_fetch fun run _ => ?_
  refine .guard fun _ => ensures_ite.mpr
    ⟨fun _ => .pure ownerUsable_none, fun _ => ?_⟩
  refine .read ?_
  dsimp only
  split
  · refine .ite (fun _ => ?_) fun _ => .pure ownerUsable_none
    exact ensures_bind.mpr fun _ s₁ _ => .pure ownerUsable_none
  · refine .ite (fun _ => .pure ownerUsable_none) fun _ => ensures_bind.mpr fun r s₁ _ => ?_
    cases r with
    | none => exact .pure ownerUsable_none
    | some _ =>
      refine .read ?_
      refine .ite (fun _ => .pure ownerUsable_none) fun _ => ensures_ite.mpr
        ⟨fun _ => .pure ownerUsable_none, fun _ => ?_⟩
      refine .bind assignment_notLost fun row _ hrow => ensures_bind.mpr fun _ _ h₃ => ?_
      refine .pure ?_
      rintro _ ⟨⟩
      rw [isLost_congr (attachRecovery_leaves (by decide) (by decide) _ _ _ h₃)]
      exact hrow

theorem mem_of_firstByRank {items : List Assignment} {a : Assignment}
    (h : firstByRank items = some a) : a ∈ items := by
  have hfold : ∀ (is : List Assignment) (best : Option Assignment), is.foldl (fun best a =>
      if best.any (·.queueRank ≤ a.queueRank) then best else some a) best = some a →
      best = some a ∨ a ∈ is := by
    intro is
    induction is with
    | nil => exact fun _ h => .inl h
    | cons b is ih =>
      intro best h
      rcases ih _ h with h | h
      · by_cases hb : best.any (·.queueRank ≤ b.queueRank)
        · exact .inl (by simpa only [hb, if_true] using h)
        · simp only [hb] at h
          exact .inr (mem_cons.mpr (.inl (some.inj h).symm))
      · exact .inr (mem_cons_of_mem b h)
  exact (hfold items none h).resolve_left nofun

/-- The planner that is to own a recovery decision can still do so. -/
theorem recoveryCandidate_usable :
    Ensures (recoveryCandidate env actor run audit attention) s OwnerUsable := by
  refine .read ?_
  split
  · exact .pure ownerUsable_none
  · rename_i rule _
    refine .ite (fun _ => .pure ownerUsable_none) fun _ => ensures_ite.mpr
      ⟨fun _ => .pure ownerUsable_none, fun _ => ?_⟩
    split
    · rename_i candidate hcandidate
      refine .pure ?_
      rintro _ ⟨⟩
      have hmem : candidate ∈ (s .assignment).rows.filter fun a =>
          a.automationId == some rule.id && a.status.isLive := by
        rcases (orElse_eq_some _ _ _).mp hcandidate with h | ⟨_, h⟩
        · exact mem_of_find?_eq_some h
        · exact mem_of_firstByRank h
      obtain ⟨hmem, hlive⟩ := mem_filter.mp hmem
      have hlive : candidate.status.isLive := (and_eq_true_iff.mp hlive).2
      rw [isLost, find?_key hmem, any_some]
      cases hs : candidate.status <;> simp_all [AssignmentStatus.isLost, AssignmentStatus.isLive]
    · exact replenish_usable

/-! ## Recurring work -/

section

variable (hr : ∀ ev : Event, ev.isRoutine → P ev)
include hr

theorem refreshWatch_emits : Emits P (refreshWatch env run) := by
  have hq := queueing_of_routine hr
  refine .read fun db => ?_
  dsimp only
  split
  · exact .done (emits_create_other rfl (hr _ rfl))
  · have hrefresh : ∀ (f : RunCoordination → RunCoordination)
        (hf : ∀ w, key .runCoordination (f w) = key .runCoordination w),
        Emits P (updateWhere env .runCoordination (fun _ w => w.runId == run.id) f hf) := fun _ _ =>
      emits_updateWhere_other rfl (hr _ rfl) (fun _ _ _ => rfl) fun _ _ h => h
    refine .unless <| .ite (fun _ => ?_) fun _ => ?_
    · exact .bind (annotateRun_emits hq) fun _ => .done (hrefresh _ _)
    · exact .done (hrefresh _ _)

theorem recoveryCandidate_emits : Emits P (recoveryCandidate env actor run audit attention) := by
  refine emits_of_sound fun s hs => ?_
  refine .read ?_
  split
  · exact .pure (Moves.refl _)
  · rename_i rule hrule
    refine .ite (fun _ => .pure (Moves.refl _)) fun _ => ensures_ite.mpr
      ⟨fun _ => .pure (Moves.refl _), fun _ => ?_⟩
    split
    · exact .pure (Moves.refl _)
    · exact replenish_ensures (queueing_of_routine hr) hs
        (knows_of_mem (mem_of_find?_eq_some hrule))

/-- A recovery decision is scheduled on an owner that has not lost its work. -/
theorem assignRecovery_emits {candidate : Assignment} (hlive : s.isLost candidate.id = false) :
    Ensures (assignRecovery env run candidate audit) s fun _ s' => Extends P s s' := by
  have hq := queueing_of_routine hr
  have hend : ∀ (new : Obligation) (db : DB), Emits P (do
      updateWhere env .runCoordination (fun _ w => w.runId == run.id) fun w =>
        { w with auditObligationId := some new.id
                 auditFrontierHash := some (env.obs.coordinationFrontier db run.id) }
      let note := notePrefix ++ "recovery assigned to A" ++ toString candidate.number
      let ranks :=
        ((db .assignment).rows.filter fun a => a.runId == run.id && a.status == .pending).map
        (·.queueRank)
      let _ ← change env .assignment candidate.id none fun a =>
        { a with startCondition := none, queueRank := ranks.min?.getD 0 - 1024
                 statusNote := some note }
      if run.statusNote.all fun n => n = "" || startsWith n notePrefix then
        let _ ← change env .run run.id none fun r => { r with statusNote := some note }) := by
    intro new db
    refine .bind (emits_updateWhere_other rfl (hr _ rfl) (fun _ _ h => h) fun _ _ h => h)
      fun _ => ?_
    refine .bind (changeWait_emits hq fun _ => ⟨⟨rfl, rfl, rfl, rfl, rfl⟩,
      ⟨rfl, rfl, rfl, .inl rfl, .inr rfl⟩, rfl, .inl⟩) fun _ => ?_
    exact .ite (fun _ => .done (annotateRun_emits hq)) fun _ => .pure
  refine .read ?_
  refine Ensures.bind_keeps (Emits.at (createObligation_emits hq) s) fun new s₁ h₁ => ?_
  have hlive₁ : s₁.isLost candidate.id = false := by
    rw [isLost_congr (createObligation_leaves (by decide) _ _ _ h₁), hlive]
  cases audit with
  | none => exact hend new s s₁
  | some audit =>
    refine .ite (fun _ => Ensures.bind_keeps ?_ fun _ s₂ _ => hend new s s₂) fun _ => hend new s s₁
    rw [ensures_change]
    refine fun o ho _ ha _ => Effects.change .obligationChanged (hr _ rfl) ho ha
      ⟨rfl, by rintro ⟨⟩, fun _ => .inr fun id hid => ?_⟩
    exact mem_singleton.mp hid ▸ hlive₁

/-- The recovery of a run, once a candidate is found. -/
theorem recovery_emits : Emits P (do
    match ← recoveryCandidate env actor run audit attention with
    | none => pure ()
    | some candidate =>
      if ← query fun db => db.recoveryReady env candidate attention then
        let run ← getRecord .run run.id
        assignRecovery env run candidate audit) := by
  intro s
  refine Ensures.bind_keeps (Emits.at (recoveryCandidate_emits hr) s) fun candidate s₁ h₁ => ?_
  have hlive := recoveryCandidate_usable _ _ h₁
  cases candidate with
  | none => exact Transaction.Keeps.pure s₁
  | some candidate =>
    refine ensures_bind.mpr (ensures_query.mpr fun _ _ => ?_)
    refine .ite (fun _ => ?_) fun _ => Transaction.Keeps.pure s₁
    rw [ensures_bind, ensures_getRecord]
    exact fun run _ => assignRecovery_emits hr (hlive candidate rfl)

theorem reconcileCoordination_emits : Emits P (reconcileCoordination env actor run) := by
  have hq := queueing_of_routine hr
  refine .bind (refreshWatch_emits hr) fun watch => ?_
  cases watch with
  | none => exact .pure
  | some watch =>
    refine .read fun db => .unless ?_
    refine .ite (fun _ => .bind emits_getRecord fun row => .ite (fun _ => ?_) fun _ => ?_)
      fun _ => ?_
    · refine .bind (annotateRun_emits hq) fun _ => .unless ?_
      exact .unless <| recovery_emits hr
    · refine .unless ?_
      exact .unless <| recovery_emits hr
    · refine .unless ?_
      exact .unless <| recovery_emits hr

/-- Rules that were listed stay known, and are replenished one after the other. -/
theorem replenishMaintainers_ensures {budget : Nat} (hs : Sound s)
    (hrules : ∀ rule ∈ rules, s.Knows rule) :
    EmitsFrom P s (replenishMaintainers env actor budget rules) := by
  induction rules generalizing budget s with
  | nil => cases budget <;> exact .pure (Moves.refl _)
  | cons rule rules ih =>
    cases budget with
    | zero => exact .pure (Moves.refl _)
    | succ budget =>
      rw [replenishMaintainers]
      refine .bind (replenish_ensures (queueing_of_routine hr) hs (hrules rule mem_cons_self))
        fun row s₁ h₁ => ?_
      have hknown : ∀ rule ∈ rules, s₁.Knows rule := fun r hmem =>
        Effects.knows h₁ (hrules r (mem_cons_of_mem rule hmem))
      cases row with
      | none | some row => exact (ih (h₁.sound hs) hknown).mono fun _ _ h => h₁.trans h

omit hr in
/-- A sweep over known rules. -/
theorem eachRule_ensures {f : Automation → Tx PUnit} (hs : Sound s)
    (hrules : ∀ rule ∈ rules, s.Knows rule) (hf : ∀ rule s₁, Sound s₁ → s₁.Knows rule →
      EmitsFrom P s₁ (f rule)) : EmitsFrom P s (each f rules) :=
  ensures_each (J := Effects P s) (Moves.refl _) fun rule hrule s₁ h₁ =>
    (hf rule s₁ (h₁.sound hs) (h₁.knows (hrules rule hrule))).mono fun _ _ h => h₁.trans h

theorem replenishLegacy_emits : Emits P (replenishLegacy env actor) := by
  have hq := queueing_of_routine hr
  have hreplenish : ∀ (rule : Automation) (s : DB), Sound s → s.Knows rule →
      EmitsFrom P s (do let _ ← replenish env actor rule) := by
    intro rule s hs hknown
    exact .bind (replenish_ensures hq hs hknown) fun _ _ h => .pure h
  have hlegacy : ∀ {s : DB} {p : Automation → Bool}, ∀ rule ∈ s.legacyRules.filter p,
      s.Knows rule :=
    fun rule hrule => knows_of_mem (mem_of_mem_filter (mem_of_mem_filter hrule))
  refine emits_of_sound fun s hs => ?_
  refine .read ?_
  refine .bind (eachRule_ensures (P := P) hs hlegacy fun rule s₁ hs₁ hknown => ?_) fun _ s₁ h₁ => ?_
  · exact .read <| .ite (fun _ => .pure (Moves.refl _)) fun _ => hreplenish rule s₁ hs₁ hknown
  refine .read ?_
  refine .bind (replenishMaintainers_ensures hr (h₁.sound hs) hlegacy) fun _ _ h₂ => ?_
  have h₂ := h₁.trans h₂
  refine .read ?_
  refine (eachRule_ensures (P := P) (h₂.sound hs) hlegacy fun rule s₃ hs₃ hknown => ?_).mono
    fun _ _ h => h₂.trans h
  exact .read <| .ite (fun _ => .pure (Moves.refl _)) fun _ => hreplenish rule s₃ hs₃ hknown

theorem recheckIdle_emits : Emits P (recheckIdle env item) := by
  have hq := queueing_of_routine hr
  refine .read fun db => .unless ?_
  refine .bind (changeWait_emits hq fun _ => ⟨⟨rfl, rfl, rfl, rfl, rfl⟩,
    ⟨rfl, rfl, rfl, .inl rfl, .inr rfl⟩, rfl, .inl⟩) fun row => ?_
  refine .bind (createObligation_emits hq) fun _ => ?_
  split
  · rename_i ruleId _
    refine .done (emits_change (.ruleChanged ruleId) (hr _ rfl) fun _ _ _ hold => ?_)
    exact ⟨⟨rfl, rfl⟩, (key_of_find? hold), fun _ h => h⟩
  · exact .pure

variable (hl : ∀ id, P (.assignmentLost id)) (ho : ∀ id, P (.obligationReopened id))
include hl ho

theorem retireUnusableMaintainers_emits : Emits P (retireUnusableMaintainers env) := by
  refine emits_of_sound fun s hs => ?_
  refine .read ?_
  refine .bind (cancelEach_ensures hr hs hl ho (listed_of_sublist ?_)) fun _ _ h₁ => ?_
  · exact (take_sublist _ _).trans filter_sublist
  refine Ensures.mono (Emits.from (.read fun db => .each fun _ _ => ?_)
    (h₁.sound hs)) fun _ _ h => h₁.trans h
  refine .read fun _ => .unless ?_
  exact .unless <| cancelStored_emits hr hl ho

theorem legacySweep_emits : Emits P (legacySweep env actor) := by
  refine .bind (retireUnusableMaintainers_emits hr hl ho) fun _ => ?_
  refine .bind (replenishLegacy_emits hr) fun _ => .read fun db => ?_
  refine .bind (.each fun _ _ => reconcileCoordination_emits hr) fun _ => ?_
  refine .read fun db => .ite (fun _ => ?_) fun _ => .pure
  exact .each fun _ _ => recheckIdle_emits hr

end

/-! ## Objective recurrence -/

/-- A run waits for an accepted phase to begin. -/
def DB.awaitsPhase (s : DB) (runId : Id) : Bool :=
  ((s .run).find? runId).any (·.pendingPhase.any (·.next.isSome))

/-- The writes of reconciling one planner rule.  Its run restarts it only when it enters an
accepted phase. -/
def Event.Reconciles (env : Env) (rule : Automation) (awaits : Bool) (ev : Event) : Prop :=
  ev.isQueueing ∨ ev = .ruleChanged rule.id ∨ ev = .phaseAdvanced env rule.runId
    ∨ (awaits ∧ ∃ id, ev = .ruleRestarted id rule.runId)

/-- Waking an idle planner ends no explicit pause. -/
theorem wakePlanner_ensures (hq : ∀ ev : Event, ev.isQueueing → P ev)
    (hP : P (.ruleChanged rule.id)) (hs : Sound s)
    (hrule : (s .automation).find? rule.id = some rule) :
    Ensures (wakePlanner env run rule) s fun rule' s' => Effects P s s' ∧ rule'.id = rule.id := by
  refine .read <| .ite (fun hidle => ?_) fun _ => .pure ⟨Moves.refl _, rfl⟩
  refine .bind (ensures_change_effects (.ruleChanged rule.id) hP fun old hold => ?_) ?_
  · cases hrule.symm.trans hold
    refine ⟨⟨rfl, rfl⟩, rfl, fun _ hpaused => ?_⟩
    obtain ⟨_, hreason, _⟩ :=
      (any_eq_true _ _).mp (and_eq_true_iff.mp hpaused).2
    have hidle := hidle.2
    rw [hreason] at hidle
    simp_all
  · rintro rule' _ ⟨h₁, _, old, hold, hrow⟩
    have hid : rule'.id = rule.id := by
      rw [hrow]
      exact (key_of_find? hold :)
    refine .bind
      (Emits.from (emits_updateWhere .assignmentChanged (hq _ rfl) fun s hs a ha hp => ?_)
      (h₁.sound hs)) fun _ _ h₂ => .pure ⟨h₁.trans h₂, hid⟩
    have hkey : a.recurrenceKey = some (.plannerNext run.id) := by
      simpa using (and_eq_true_iff.mp hp).1
    refine ⟨?_, fun _ h => h, ⟨rfl, rfl, rfl, rfl, rfl⟩, ⟨rfl, rfl, rfl, .inl rfl, .inl rfl⟩, rfl,
      fun _ => .inr (by rw [hkey]; rfl)⟩
    have hwf := hs.wellFormed (t := .assignment) ha
    simp only [wellFormed, and_eq_true] at hwf ⊢
    exact ⟨hwf.1, rfl⟩

/-- Reconciling a planner rule of an objective run. -/
theorem reconcileObjective_ensures (hs : Sound s)
    (hrule : (s .automation).find? rule.id = some rule) (hname : rule.name = .objectivePlanner)
    (hobj : s.isObjectiveRun rule.runId) :
    Ensures (reconcileObjective env rule) s fun _ s' =>
      Effects (Event.Reconciles env rule (s.awaitsPhase rule.runId)) s s' := by
  have hq : ∀ ev : Event, ev.isQueueing →
      Event.Reconciles env rule (s.awaitsPhase rule.runId) ev := fun _ => .inl
  refine ensures_fetch fun run hrun => ?_
  have hid : run.id = rule.runId := key_of_find? hrun
  refine .ite (fun _ => ?_) fun _ => ?_
  · refine advance_ensures hq hs (by rw [hid]; exact hrun) ?_ ?_ fun id hawaits => ?_
    · simpa [isObjectiveRun, hrun] using hobj
    · exact .inr (.inr (.inl (by rw [hid])))
    · refine .inr (.inr (.inr ⟨?_, id, by rw [hid]⟩))
      rw [awaitsPhase, hrun]
      exact hawaits
  · refine .bind (wakePlanner_ensures hq (.inr (.inl rfl)) hs hrule) ?_
    rintro _ _ ⟨h₁, hid'⟩
    have hplanner : s.isPlanner (some rule.id) run.id := by
      simp [isPlanner, hrule, hname, hid, hobj]
    rw [ensures_bind]
    exact (ensureSuccessor_ensures hq (h₁.sound hs)
      (by rw [hid']; exact h₁.isPlanner hplanner)).mono fun _ _ h₂ => .pure (h₁.trans h₂.1)

/-- Reconciling a rule leaves the rules of the other runs alone. -/
theorem Effect.rule_kept (h : Effect ev s s') {awaits : Bool} (hev : ev.Reconciles env rule awaits)
    {r : Automation} (hr : (s .automation).find? r.id = some r) (hid : r.id ≠ rule.id)
    (hrun : r.runId ≠ rule.runId) : (s' .automation).find? r.id = some r := by
  rcases hev with hev | rfl | rfl | ⟨_, id, rfl⟩
  · rwa [h.frame (Event.table_ne_of_isQueueing hev).1.symm]
  · obtain ⟨r', hr', rfl | ⟨_, hch⟩⟩ := h.find? (by decide) hr
    · exact hr'
    · exact absurd hch.2.1 hid
  · rwa [h.frame (by rintro ⟨⟩)]
  · obtain ⟨r', hr', rfl | ⟨_, hch⟩⟩ := h.find? (by decide) hr
    · exact hr'
    · exact absurd hch.2.2 hrun

/-- The writes of a tick, over the state it starts from. -/
def Event.Ticks (env : Env) (s : DB) (ev : Event) : Prop :=
  ev.isRoutine ∨ ev.isSettling ∨ (∃ id, ev = .phaseAdvanced env id)
    ∨ ∃ id runId, ev = .ruleRestarted id runId ∧ s.awaitsPhase runId

/-- A tick accepts no phase. -/
theorem Effect.awaitsPhase {s' : DB} (h : Effect ev s s') (hev : ev.Ticks env s₀) {runId : Id}
    (ha : s'.awaitsPhase runId) : s.awaitsPhase runId := by
  obtain ⟨r', hr', hp⟩ := (any_eq_true _ _).mp ha
  obtain ⟨hmem, hkey⟩ := find?_eq_some.mp hr'
  obtain hold | ⟨ht, hw⟩ := h.origin hmem
  · exact (any_eq_true _ _).mpr ⟨r', find?_eq_some.mpr ⟨hold, hkey⟩, hp⟩
  cases ev with
  | runChanged =>
    obtain ⟨⟨⟩, _⟩ | ⟨r, hr, hk, _, hsame⟩ := hw
    refine (any_eq_true _ _).mpr ⟨r, find?_eq_some.mpr ⟨hr, hk.symm.trans hkey⟩, ?_⟩
    rwa [hsame.pendingPhase] at hp
  | phaseAdvanced =>
    obtain ⟨⟨⟩, _⟩ | ⟨r, hr, hk, _, _, hadvanced, _⟩ := hw
    rw [hadvanced.settled] at hp
    cases hp
  | runCreated | runReopened | phaseAccepted =>
    rcases hev with hev | hev | ⟨_, hev⟩ | ⟨_, _, hev, _⟩ <;> cases hev
  | other t hu => cases ht; cases hu
  | _ => cases ht

/-- Two planner rules recur in different runs. -/
theorem Sound.plannerRules_nodup (hs : Sound s) : (s.plannerRules.map (·.runId)).Nodup := by
  refine Nodup.map_on (fun r hr r' hr' heq => ?_) ((s .automation).nodup.of_map.filter _)
  obtain ⟨hmem, hp⟩ := mem_filter.mp hr
  obtain ⟨hmem', hp'⟩ := mem_filter.mp hr'
  by_contra hne
  have hk : key .automation r' ≠ key .automation r := fun hk =>
    hne ((s .automation).eq_of_key hmem' hmem hk).symm
  have hconflict := (admissible_iff.mp (hs.consistent .automation r hmem)).2 r' hmem' hk
  have hname : r.name = .objectivePlanner := by simpa using (and_eq_true_iff.mp hp).1
  have hname' : r'.name = .objectivePlanner := by simpa using (and_eq_true_iff.mp hp').1
  simp [conflicts, heq, hname, hname'] at hconflict

/-- Every planner rule is reconciled as it stood when the sweep began. -/
theorem reconcileObjectives_ensures (hs : Sound s)
    (h₀ : ∀ runId, s.awaitsPhase runId → s₀.awaitsPhase runId) :
    EmitsFrom (Event.Ticks env s₀) s (each (reconcileObjective env) s.plannerRules) := by
  let J (rest : List Automation) (s₁ : DB) : Prop := Effects (Event.Ticks env s₀) s s₁
    ∧ (rest.map (·.runId)).Nodup ∧ ∀ r ∈ rest, (s₁ .automation).find? r.id = some r
      ∧ r.name = .objectivePlanner ∧ s₁.isObjectiveRun r.runId
  refine Ensures.mono
    (ensures_each_rest (J := J) ⟨Moves.refl _, hs.plannerRules_nodup, fun r hr => ?_⟩
    ?_) fun _ _ h => h.1
  · obtain ⟨hmem, hp⟩ := mem_filter.mp hr
    obtain ⟨hname, hrun⟩ := and_eq_true_iff.mp hp
    refine ⟨find?_key hmem, by simpa using hname, ?_⟩
    obtain ⟨run, hfind, hrun⟩ := (any_eq_true _ _).mp hrun
    exact (any_eq_true _ _).mpr ⟨run, hfind, (and_eq_true_iff.mp hrun).1⟩
  rintro rule rest s₁ ⟨h₁, hnodup, hrest⟩
  obtain ⟨hrule, hname, hobj⟩ := hrest rule mem_cons_self
  obtain ⟨hnot, hnodup⟩ := nodup_cons.mp hnodup
  have hawaits : s₁.awaitsPhase rule.runId → s₀.awaitsPhase rule.runId := fun ha =>
    h₀ _ (h₁.preserves (I := fun s₁ => s₁.awaitsPhase rule.runId → s.awaitsPhase rule.runId)
      (fun _ _ _ hev he hI ha => hI (he.awaitsPhase hev ha)) id ha)
  refine (reconcileObjective_ensures (h₁.sound hs) hrule hname hobj).mono fun _ s₂ h₂ =>
    ⟨h₁.trans (h₂.mono ?_), hnodup, fun r hr => ?_⟩
  · rintro ev (hev | rfl | rfl | ⟨ha, id, rfl⟩)
    · exact .inl (Event.isRoutine_of_isQueueing hev)
    · exact .inl rfl
    · exact .inr (.inr (.inl ⟨_, rfl⟩))
    · exact .inr (.inr (.inr ⟨id, _, rfl, hawaits ha⟩))
  · obtain ⟨hr₁, hname₁, hobj₁⟩ := hrest r (mem_cons_of_mem rule hr)
    have hrun : r.runId ≠ rule.runId := fun heq => hnot (mem_map.mpr ⟨r, hr, heq⟩)
    have hid : r.id ≠ rule.id := by
      intro heq
      rw [heq, hrule] at hr₁
      exact hrun (by rw [some.inj hr₁])
    refine ⟨?_, hname₁, ?_⟩
    · exact h₂.preserves (I := fun s₂ => (s₂ .automation).find? r.id = some r)
        (fun _ _ _ hev he hI => he.rule_kept hev hI hid hrun) hr₁
    · have hhas : s₁.has .run r.runId := by
        obtain ⟨run, hfind, _⟩ := (any_eq_true _ _).mp hobj₁
        rw [has, hfind]
        rfl
      rw [h₂.isObjectiveRun hhas, hobj₁]

/-- What a tick writes. -/
theorem tick_ensures (hs : Sound s) : EmitsFrom (Event.Ticks env s) s (tick env) := by
  have hr : ∀ ev : Event, ev.isRoutine → ev.Ticks env s := fun _ => .inl
  have hset : ∀ ev : Event, ev.isSettling → ev.Ticks env s := fun _ h => .inr (.inl h)
  rw [tick]
  refine .bind ((systemActor_emits (queueing_of_routine hr)).from hs) fun _ s₁ h₁ => ?_
  refine .bind ((settleSweep_emits hr hset).after h₁ hs) fun _ _ h₂ => ?_
  refine .bind ((legacySweep_emits hr (fun _ => hset _ rfl) fun _ => hset _ rfl).from (h₂.sound hs))
    fun _ s₃ h₃ => ?_
  have h₃ := h₂.trans h₃
  have hawaits : ∀ runId, s₃.awaitsPhase runId → s.awaitsPhase runId := fun runId =>
    h₃.preserves (I := fun s₁ => s₁.awaitsPhase runId → s.awaitsPhase runId)
      (fun _ _ _ hev he hI ha => hI (he.awaitsPhase hev ha)) id
  refine .read ?_
  refine .bind (reconcileObjectives_ensures (h₃.sound hs) hawaits) fun _ _ h₄ => ?_
  have h₄ := h₃.trans h₄
  refine (reconcileDemand_ensures (h₄.sound hs)).mono fun _ _ h =>
    h₄.trans (h.mono fun ev hev => ?_)
  exact hev.elim (hr ev) (hset ev)

end Horizon
