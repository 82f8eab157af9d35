import Horizon.Execution.Objectives
import Horizon.Effects.Missions

/-!
# What objective runs write

The planner recurrence, maintenance requests and the settlement of sessions only queue
and account for work.  Accepting a phase also gives up the queued planner.
-/

namespace Horizon

open Transaction Table Option List DB

variable {run : Run} {s s' : DB} {env : Env} {P : Event → Prop} {status : MissionStatus} {id : Id}
  {rule : Automation} {item : Assignment} {evidence : List ObjectRef} {actor : Actor}
  {nextPhase : Option RunPhase} {note : String}

/-- A mission that may be closed has no open child. -/
theorem ensureClosureAllowed_ok {db : DB} {m : Mission} {cancel : Bool} (hm : m ∈ db .mission)
    (h : db.ensureClosureAllowed m cancel = .ok ()) : db.openChildren m.id = [] := by
  rw [ensureClosureAllowed, ite_refuse_eq_ok] at h
  refine filter_eq_nil_iff.mpr fun c hc hchild => h.1 ?_
  obtain ⟨hparent, hopen⟩ : c.parentId = some m.id ∧ c.status = .opened := by simpa using hchild
  have hfind : (db .mission).find? m.id = some m := find?_key hm
  refine any_eq_true.mpr ⟨c, hc, ?_⟩
  obtain ⟨n, hn⟩ := Nat.exists_eq_add_of_lt (length_pos_of_mem hm)
  simp [hopen, isDescendant, hparent, containsMission, hn, lineage, hfind]

section

variable (hq : ∀ ev : Event, ev.isQueueing → P ev)
include hq

/-- Closing a mission without open children. -/
theorem closeMission_childless (hs : status ≠ .opened) (hc : s.openChildren id = []) :
    Ensures (closeMission env id status note) s fun m s' =>
      Effects P s s' ∧ Rewrites .mission id m s s' := by
  refine (ensures_change_effects (.missionClosed id true) (hq _ rfl) fun old hold => ?_).mono
    fun _ _ ⟨heff, hrw, _⟩ => ⟨heff, hrw⟩
  have hid : old.id = id := key_of_find? hold
  exact ⟨⟨rfl, rfl, rfl, rfl⟩, hid, hs, fun _ => hid ▸ hc⟩

omit hq in
theorem childMission_delegates {title objective : String} {criteria : List String} (hs : Sound s) :
    Ensures (childMission env run title objective criteria) s fun m s' =>
      Effects (·.isDelegating) s s' ∧ ∀ b ∈ s' .assignment, b.missionId ≠ m.id := by
  refine ensures_fetch fun _ _ => ?_
  refine .bind (systemActor_delegates.from hs) fun _ _ h₁ => ?_
  refine (mission_delegates (h₁.sound hs)).mono fun m s' ⟨h', hnew⟩ => ?_
  exact ⟨h₁.trans h', hnew⟩

/-- Changing how an assignment waits keeps its work, its ledger and its pause. -/
theorem changeWait_emits {f : Assignment → Assignment}
    {hf : ∀ a, key .assignment (f a) = key .assignment a} (hw : ∀ a, a.SameWork (f a)
      ∧ a.SameLedger (f a) ∧ (f a).status = a.status ∧ a.KeepsPause (f a)) :
    Emits P (change env .assignment id none f hf) :=
  emits_change .assignmentChanged (hq _ rfl) fun _ a _ _ => by
    obtain ⟨⟨h₁, h₂, h₃, h₄, h₅⟩, ⟨l₁, l₂, l₃, l₄, l₅⟩, hs, hp⟩ := hw a
    exact ⟨⟨h₁, h₂, h₃, h₄, h₅⟩, ⟨l₁, l₂, l₃, l₄, l₅⟩, hs, hp⟩

/-- A freshly queued assignment gets its key. -/
theorem keyFresh_ensures {row : Assignment} {key : RecurrenceKey}
    {p : Assignment → Option String}
    (hrow : (s .assignment).find? row.id = some row) (hkey : row.recurrenceKey = none)
    (hfresh : ∀ e ∈ s .execution, e.assignmentId ≠ row.id)
    (hp : key.isPlanner → s.isPlanner row.automationId row.runId)
    (hrev : ∀ item, key = .review item → row.automationId = none) :
    Ensures (change env .assignment row.id none fun a =>
      { a with recurrenceKey := some key, pauseReason := p a }) s fun a s' => Effects P s s'
        ∧ (s' .assignment).find? a.id = some a ∧ a.recurrenceKey = some key ∧ a.id = row.id := by
  refine (ensures_change_effects (.assignmentKeyed key) (hq _ rfl) fun old hold => ?_).mono ?_
  · cases hrow.symm.trans hold
    exact ⟨⟨rfl, rfl, rfl, rfl, rfl⟩,
      { status := rfl, functions := rfl, recoveryAttempts := rfl, retryAt := rfl
        startCondition := rfl, recurrenceKey := rfl, unstarted := .inl ⟨hkey, hfresh⟩
        planner := hp, unruled := hrev }⟩
  · rintro a s' ⟨heff, hrw, old, hold, rfl⟩
    cases hrow.symm.trans hold
    exact ⟨heff, hrw.stored, rfl, rfl⟩

/-- A planner is queued on a mission of its own, under the queued key of its run. -/
theorem ensureSuccessor_ensures (hs : Sound s) (hrule : s.isPlanner (some rule.id) run.id) :
    Ensures (ensureSuccessor env run rule) s fun row s' => Effects P s s'
      ∧ ∀ a, row = some a → (s' .assignment).find? a.id = some a
        ∧ a.recurrenceKey = some (.plannerNext run.id) := by
  refine .ite (fun _ => .pure ⟨Moves.refl _, by rintro _ ⟨⟩⟩) fun _ => ?_
  refine .read ?_
  split
  · rename_i found hfound
    refine .pure ⟨Moves.refl _, ?_⟩
    rintro a ⟨⟩
    have hkey := find?_some hfound
    simp only [Bool.and_eq_true, beq_iff_eq] at hkey
    exact ⟨find?_key (mem_of_find?_eq_some hfound), hkey.1⟩
  · split
    · exact .pure ⟨Moves.refl _, by rintro _ ⟨⟩⟩
    · exact .raise
    · refine .bind (childMission_delegates hs) ?_
      rintro mission _ ⟨h₁, _⟩
      refine .bind (systemActor_delegates.from (h₁.sound hs)) fun _ s₂ h₂ => ?_
      have hfresh₂ : ∀ b ∈ s₂ .assignment, b.missionId ≠ mission.id := by
        rwa [h₂.frame fun _ hev => Event.table_ne_of_isDelegating hev]
      have h₂ : Effects P s s₂ := (h₁.trans h₂).mono fun ev hev =>
        hq ev (Event.isQueueing_of_isDelegating hev)
      refine .bind (assignment_ensures hq (h₂.sound hs) (fun r hr => ?_) fun _ => hfresh₂) ?_
      · exact h₂.runId_of_isPlanner hrule hr
      rintro row s₃ ⟨h₃, hrow, hkey, hauto, hrun, hunstarted⟩
      have h₃ : Effects P s s₃ := h₂.trans h₃
      refine .bind (keyFresh_ensures hq hrow hkey hunstarted (fun _ => ?_) (by rintro _ ⟨⟩)) ?_
      · rw [hauto, hrun]
        exact h₃.isPlanner hrule
      · rintro a _ ⟨h₄, hstored, hnext, _⟩
        refine .pure ⟨h₃.trans h₄, ?_⟩
        rintro _ ⟨⟩
        exact ⟨hstored, hnext⟩

omit hq in
/-- Queueing the next planner keeps the stored assignments as they are. -/
theorem ensureSuccessor_keeps (hs : Sound s) :
    Ensures (ensureSuccessor env run rule) s fun _ s' =>
      ∀ id a, (s .assignment).find? id = some a → (s' .assignment).find? id = some a := by
  have hkept : ∀ {row : Option Assignment},
      Ensures (pure row : Tx (Option Assignment)) s fun _ s' =>
      ∀ id a, (s .assignment).find? id = some a → (s' .assignment).find? id = some a :=
    .pure fun _ _ h => h
  refine .ite (fun _ => hkept) fun _ => ?_
  refine .read ?_
  split
  · exact hkept
  · split
    · exact hkept
    · exact .raise
    · refine .bind (childMission_delegates hs) ?_
      rintro _ _ ⟨h₁, -⟩
      refine .bind (systemActor_delegates.from (h₁.sound hs)) fun _ s₂ h₂ => ?_
      have hframe : s₂ .assignment = s .assignment :=
        (h₁.trans h₂).frame fun _ hev => Event.table_ne_of_isDelegating hev
      refine .bind assignment_keeps fun row _ h₃ => ?_
      rw [ensures_bind, ensures_change]
      intro _ _ _ _
      refine .pure fun id a ha => ?_
      obtain ⟨hne, ha₃⟩ := h₃ id a (by rwa [hframe])
      have hid : a.id ≠ row.id := fun heq => hne ((key_of_find? ha).symm.trans heq)
      rw [Database.write_self, find?_updateWhere, ha₃]
      simp [hid]

/-- An admitted planner leaves the queued key to its successor. -/
theorem admitted_ensures (hs : Sound s) (hitem : (s .assignment).find? item.id = some item)
    (hrun : run.id = item.runId) (hobj : s.isObjectiveRun run.id) :
    Ensures (admitted env item run) s fun row s' => Effects P s s'
      ∧ (s' .assignment).find? item.id = some row ∧ row.id = item.id ∧ row.status = item.status
      ∧ row.pauseReason = item.pauseReason ∧ row.automationId = item.automationId
      ∧ row.recurrenceKey.any RecurrenceKey.isNext = false := by
  -- A session that stays as it is has no planner's key.
  have hunkeyed : s.isPlanner item.automationId item.runId = false →
      item.recurrenceKey.any RecurrenceKey.isNext = false := by
    intro hp
    have hkeyed := hs.keyed item (mem_of_find? hitem)
    cases hkey : item.recurrenceKey with
    | none => rfl
    | some key =>
      cases key with
      | plannerNext id =>
        rw [hkeyed (by rw [hkey]; rfl)] at hp
        cases hp
      | _ => rfl
  refine .read ?_
  split
  · rename_i hrule
    refine .pure ⟨Moves.refl _, hitem, rfl, rfl, rfl, rfl, hunkeyed ?_⟩
    rw [isPlanner, hrule]
    rfl
  · rename_i rule hrule
    have hruled := hs.ruled item (mem_of_find? hitem) rule hrule
    refine .ite (fun hname => .pure ⟨Moves.refl _, hitem, rfl, rfl, rfl, rfl, hunkeyed ?_⟩)
      fun hname => ?_
    · rw [isPlanner, hrule]
      simp [hname]
    have hplanner : s.isPlanner item.automationId run.id := by
      rw [isPlanner, hrule, hobj]
      simpa [hrun, hruled] using hname
    obtain ⟨id, hid, hfind⟩ := bind_eq_some_iff.mp hrule
    refine .bind (ensures_change_effects (.assignmentKeyed (.plannerActive run.id)) (hq _ rfl)
      fun old hold => ?_) ?_
    · cases hitem.symm.trans hold
      exact ⟨⟨rfl, rfl, rfl, rfl, rfl⟩,
        { status := rfl, functions := rfl, recoveryAttempts := rfl, retryAt := rfl
          startCondition := rfl, recurrenceKey := rfl, unstarted := .inr ⟨rfl, rfl, rfl⟩
          planner := fun _ => hrun ▸ hplanner, unruled := by rintro _ ⟨⟩ }⟩
    · rintro row s₁ ⟨h₁, hrw, old, hold, hrow⟩
      cases hitem.symm.trans hold
      have hrow : row.id = item.id ∧ row.status = item.status ∧ row.pauseReason = item.pauseReason
          ∧ row.automationId = item.automationId
          ∧ row.recurrenceKey.any RecurrenceKey.isNext = false := by
        rw [hrow]
        exact ⟨rfl, rfl, rfl, rfl, rfl⟩
      have hsuccessor : s₁.isPlanner (some rule.id) run.id := by
        obtain ⟨_, rfl⟩ := find?_eq_some.mp hfind
        exact h₁.isPlanner (hid ▸ hplanner)
      refine .bind ((ensureSuccessor_ensures hq (h₁.sound hs) hsuccessor).and
        (ensureSuccessor_keeps (h₁.sound hs))) ?_
      rintro _ s' ⟨⟨h', _⟩, hkept⟩
      exact .pure ⟨h₁.trans h', hkept _ _ hrw.stored, hrow⟩

omit hq in
/-- Settling a planner keeps an explicit pause. -/
theorem settlePlanner_ensures (hr : P (.ruleChanged rule.id))
    (hrule : (s .automation).find? rule.id = some rule) :
    Ensures (settlePlanner env run rule) s fun row s' => Effects P s s' ∧ row.id = rule.id := by
  refine .read ?_
  refine (ensures_change_effects (.ruleChanged rule.id) hr fun old hold => ?_).mono ?_
  · cases hrule.symm.trans hold
    refine ⟨⟨rfl, rfl⟩, rfl, fun _ hp => ?_⟩
    obtain ⟨_, hreason⟩ := Bool.and_eq_true_iff.mp hp
    obtain ⟨reason, hreason, hidle⟩ := (any_eq_true _ _).mp hreason
    have hmanual : reason ≠ "idle" := by simpa using hidle
    simp [Automation.isPaused, touch, hreason, hmanual]
  · rintro row s' ⟨heff, _, old, hold, rfl⟩
    exact ⟨heff, (key_of_find? hold :)⟩

/-- Closing the mission of an accounted planning pass, unless children are still open. -/
theorem closePass_emits : Emits P (do
      let mission ← getRecord .mission id
      let db ← get
      if (db.openChildren mission.id).isEmpty then
        let _ ← closeMission env mission.id .completed note) := by
  refine .bind emits_getRecord fun mission => emits_of_sound fun s _ => ?_
  refine .read <| .ite (fun hc => ?_) fun _ => .pure (Moves.refl _)
  rw [ensures_bind]
  exact (closeMission_childless hq (by decide) (List.isEmpty_iff.mp hc)).mono
    fun _ _ ⟨h, _⟩ => .pure h

theorem completed_ensures (hs : Sound s) (hr : ∀ id, P (.ruleChanged id))
    (hitem : item ∈ s .assignment) (hrun : run.id = item.runId) (hobj : s.isObjectiveRun run.id) :
    EmitsFrom P s (completed env item run) := by
  refine .ite (fun _ => ?_) fun _ => ?_
  · refine ensures_fetch fun _ hm => ?_
    refine .ask fun _ hok => ?_
    have hc := ensureClosureAllowed_ok (mem_of_find? hm) hok
    exact .bind (closeMission_childless hq (by decide) hc) fun _ _ h => .pure h.1
  · refine .read ?_
    split
    · exact .pure (Moves.refl _)
    · rename_i rule hrule
      refine .ite (fun _ => .pure (Moves.refl _)) fun hname => ?_
      obtain ⟨id, _, hfind⟩ := bind_eq_some_iff.mp hrule
      obtain ⟨_, rfl⟩ := find?_eq_some.mp hfind
      have hruled := hs.ruled item hitem rule hrule
      have hplanner : s.isPlanner (some rule.id) run.id := by
        rw [isPlanner, hobj, bind_some, hfind]
        simpa [hrun, hruled] using hname
      refine .bind (settlePlanner_ensures (hr _) hfind) ?_
      rintro _ _ ⟨h₁, hid'⟩
      refine .bind (ensureSuccessor_ensures hq (h₁.sound hs) (hid' ▸ h₁.isPlanner hplanner)) ?_
      rintro successor s₂ ⟨h₂, hnext⟩
      have h₂ : Effects P s s₂ := h₁.trans h₂
      cases successor with
      | none =>
        exact (closePass_emits hq).after h₂ hs
      | some successor =>
        obtain ⟨hstored, hkey⟩ := hnext successor rfl
        refine .bind (ensures_change_effects .assignmentChanged (hq _ rfl) fun old hold => ?_) ?_
        · cases hstored.symm.trans hold
          exact ⟨⟨rfl, rfl, rfl, rfl, rfl⟩, ⟨rfl, rfl, rfl, .inl rfl, .inl rfl⟩, rfl,
            fun _ => .inr (by rw [hkey]; rfl)⟩
        · rintro _ s₃ ⟨h₃, _⟩
          have h₃ : Effects P s s₃ := h₂.trans h₃
          exact (closePass_emits hq).after h₃ hs

theorem requestMaintenance_emits {digest : Id} :
    Emits P (requestMaintenance env actor run note evidence digest) := by
  refine .guard <| .ask fun _ => ?_
  refine .read fun db => ?_
  dsimp only
  split
  · exact .pure
  · refine .ask fun _ => emits_of_sound fun s hs => ?_
    refine .bind (childMission_delegates hs) ?_
    rintro _ _ ⟨h₁, -⟩
    refine .bind (systemActor_delegates.from (h₁.sound hs)) fun _ s₂ h₂ => ?_
    have h₂ : Effects P s s₂ := (h₁.trans h₂).mono fun ev hev =>
      hq ev (Event.isQueueing_of_isDelegating hev)
    refine .bind (assignment_ensures hq (h₂.sound hs) (by simp) (by simp [isPlanner])) ?_
    rintro row s₃ ⟨h₃, hrow, hkey, _, _, hunstarted⟩
    have h₃ : Effects P s s₃ := h₂.trans h₃
    exact (keyFresh_ensures (p := (·.pauseReason)) hq hrow hkey hunstarted (by rintro ⟨⟩)
      (by rintro _ ⟨⟩)).mono fun _ _ h₄ => h₃.trans h₄.1

/-- Entering the pending phase: the settled run changes, and its planner starts again. -/
theorem advance_ensures (hs : Sound s) (hrun : (s .run).find? run.id = some run)
    (hobj : run.orchestration = .objective) (ha : P (.phaseAdvanced env run.id))
    (hr : ∀ id, run.pendingPhase.any (·.next.isSome) → P (.ruleRestarted id run.id)) :
    EmitsFrom P s (advance env run) := by
  refine .read ?_
  dsimp only
  split
  · exact .pure (Moves.refl _)
  · exact .pure (Moves.refl _)
  · rename_i owner hunsettled hpending
    refine ensures_fetch fun _ hroot => ?_
    split
    · exact .pure (Moves.refl _)
    · rename_i hok
      have hc := ensureClosureAllowed_ok (mem_of_find? hroot) hok
      refine .bind (closeMission_childless hq (by decide) hc) ?_
      rintro _ s₁ ⟨h₁, hrw⟩
      refine .bind (ensures_change_effects (.phaseAdvanced env run.id) ha fun old hold => ?_)
        fun _ _ h₂ => .pure (h₁.trans h₂.1)
      have hold : (s₁ .run).find? run.id = some old := hold
      rw [hrw.frame .run (by decide)] at hold
      cases hrun.symm.trans hold
      exact ⟨⟨rfl, rfl, rfl⟩, rfl, ⟨rfl, rfl, rfl, .inr ⟨⟨owner, hpending⟩, rfl, rfl⟩⟩, .inl rfl⟩
  · rename_i phase owner hunsettled hpending
    have hsettled : s.phaseSettled env run.id := by
      rw [phaseSettled, hunsettled]
      rfl
    refine .bind (ensures_change_effects (.phaseAdvanced env run.id) ha fun old hold => ?_) ?_
    · cases hrun.symm.trans hold
      exact ⟨⟨rfl, rfl, rfl⟩, rfl, ⟨rfl, rfl, rfl, .inl ⟨owner, hpending⟩⟩, .inr hsettled⟩
    rintro row s₁ ⟨h₁, _, old, hold, hrow⟩
    have hrowId : row.id = run.id := by
      rw [hrow]
      exact (key_of_find? hold :)
    refine .read ?_
    split
    · exact .raise
    · rename_i rule hrule
      obtain ⟨hrunId, hname⟩ : rule.runId = run.id ∧ rule.name = .objectivePlanner := by
        simpa using find?_some hrule
      have hfind : (s₁ .automation).find? rule.id = some rule :=
        find?_key (mem_of_find?_eq_some hrule)
      have hplanner : s₁.isPlanner (some rule.id) run.id := by
        rw [isPlanner, h₁.isObjectiveRun (by simp [has, hrun])]
        simp [isObjectiveRun, hrun, hobj, hfind, hname, hrunId]
      refine .bind (ensures_change_effects (.ruleRestarted rule.id run.id)
        (hr _ (by simp [hpending])) fun old hold => ?_) ?_
      · cases hfind.symm.trans hold
        exact ⟨⟨rfl, rfl⟩, rfl, hrunId⟩
      · rintro rule' s₂ ⟨h₂, _, _, hold', hrule'⟩
        have hruleId : rule'.id = rule.id := by
          rw [hrule']
          exact (key_of_find? hold' :)
        have hplanner₂ : s₂.isPlanner (some rule'.id) row.id := by
          rw [hruleId, hrowId]
          exact Effects.isPlanner h₂ hplanner
        have h₂ : Effects P s s₂ := h₁.trans h₂
        exact .bind (ensureSuccessor_ensures hq (h₂.sound hs) hplanner₂) fun _ _ h₃ =>
          .pure (h₂.trans h₃.1)

end

/-! ## Accepting a phase -/

/-- The open missions were open, in the same place. -/
def OpenShrinks (s s' : DB) : Prop :=
  ∀ m' ∈ s' .mission, m'.status = .opened →
    ∃ m ∈ s .mission, m.id = m'.id ∧ m.parentId = m'.parentId ∧ m.status = .opened

instance : Std.Refl OpenShrinks := ⟨fun _ m hm ho => ⟨m, hm, rfl, rfl, ho⟩⟩

instance : IsTrans DB OpenShrinks where
  trans _ _ _ h h' m'' hm'' ho'' := by
    obtain ⟨m', hm', hid', hp', ho'⟩ := h' m'' hm'' ho''
    obtain ⟨m, hm, hid, hp, ho⟩ := h m' hm' ho'
    exact ⟨m, hm, hid.trans hid', hp.trans hp', ho⟩

/-- The events of giving up a planner. -/
def Event.isGivingUp : Event → Bool
  | .phaseAccepted _ | .assignmentLost _ | .missionClosed _ _ => true
  | _ => false

theorem Effect.openShrinks {ev : Event} (h : Effect ev s s') (hev : ev.isGivingUp) :
    OpenShrinks s s' := by
  intro m' hm' ho
  cases ev with
  | missionClosed id _ =>
    obtain hold | ⟨⟨⟩, _⟩ | ⟨m, _, _, _, _, hclosed, _⟩ := h.mem hm'
    · exact ⟨m', hold, rfl, rfl, ho⟩
    · exact absurd ho hclosed
  | phaseAccepted | assignmentLost =>
    rw [h.frame (t := .mission) nofun] at hm'
    exact ⟨m', hm', rfl, rfl, ho⟩
  | _ => cases hev

theorem OpenShrinks.openChildren_eq_nil (h : OpenShrinks s s') (hs : s.openChildren id = []) :
    s'.openChildren id = [] := by
  refine filter_eq_nil_iff.mpr fun m' hm' hchild => ?_
  obtain ⟨hparent, hopen⟩ : m'.parentId = some id ∧ m'.status = .opened := by simpa using hchild
  obtain ⟨m, hm, _, hp, ho⟩ := h m' hm' hopen
  exact filter_eq_nil_iff.mp hs m hm (by simp [hp, hparent, ho])

/-- The event of closing a mission where it stands, checked if nothing below it is open. -/
def closingEvent (s : DB) (id : Id) : Event := .missionClosed id (s.openChildren id).isEmpty

theorem closeMission_closing (hP : P (closingEvent s id)) (hs : status ≠ .opened)
    (h : OpenShrinks s s') :
    Ensures (closeMission env id status note) s' fun m s'' =>
      Effects P s' s'' ∧ Rewrites .mission id m s' s'' := by
  refine (ensures_change_effects (closingEvent s id) hP fun old hold => ?_).mono
    fun _ _ ⟨heff, hrw, _⟩ => ⟨heff, hrw⟩
  have hid : old.id = id := key_of_find? hold
  refine ⟨⟨rfl, rfl, rfl, rfl⟩, hid, hs, fun hc => ?_⟩
  rw [hid]
  exact h.openChildren_eq_nil (List.isEmpty_iff.mp hc)

/-- A queued planner is given up where it stands, with its mission. -/
theorem supersedePlanner_ensures {s₁ : DB} (hl : P (.assignmentLost item.id))
    (hc : P (closingEvent s item.missionId)) (h₁ : OpenShrinks s s₁)
    (hitem : (s₁ .assignment).find? item.id = some item) (hpending : item.status = .pending) :
    Ensures (supersedePlanner env item) s₁ fun _ s' => Effects P s₁ s'
      ∧ ∀ id, id ≠ item.id → (s' .assignment).find? id = (s₁ .assignment).find? id := by
  rw [supersedePlanner]
  refine .bind (ensures_change_effects (.assignmentLost item.id) hl fun old hold => ?_) ?_
  · cases hitem.symm.trans hold
    refine ⟨⟨rfl, rfl, rfl, rfl, rfl⟩, rfl, ⟨rfl, rfl, rfl, .inl rfl, .inl rfl⟩, rfl, ?_, ?_⟩
    · rw [hpending]; rfl
    · rw [hpending]; rfl
  · rintro row s₂ ⟨h₂, hrw, _⟩
    have hrw : Rewrites .assignment item.id row s₁ s₂ := hrw
    have hshrinks : OpenShrinks s s₂ := by
      intro m hm hopen
      rw [hrw.frame .mission (by decide)] at hm
      exact h₁ m hm hopen
    refine .bind (closeMission_closing hc (by decide) hshrinks) fun _ s₃ ⟨h₃, hrw₃⟩ =>
      .pure ⟨h₂.trans h₃, fun id hid => ?_⟩
    rw [hrw₃.frame .assignment (by decide)]
    exact hrw.others id hid

section

variable {db : DB}

theorem inferNextPhase_kind {projectId : Id} {kind : PhaseKind} {phase : RunPhase}
    (h : db.inferNextPhase env run projectId kind = .ok phase) : phase.kind = kind := by
  cases kind with
  | preprocessing =>
    cases h
    rfl
  | formalization =>
    simp only [inferNextPhase, check_bind_eq_ok] at h
    obtain ⟨_, _, h⟩ := h
    split at h
    · cases h
      rfl
    · simp only [check_bind_eq_ok] at h
      obtain ⟨_, _, h⟩ := h
      split at h
      · split at h
        · cases h
          rfl
        · simp at h
      · simp at h
  | postprocessing =>
    simp only [inferNextPhase] at h
    split at h
    · cases h
      rfl
    · simp at h

/-- An accepted phase is the active one, and the pending one the next requested. -/
theorem validateAcceptance_ok {phase : Option RunPhase} {session : Option Id}
    (h : db.validateAcceptance env actor run evidence nextPhase = .ok (session, phase)) :
    run.status = .active ∧ run.pendingPhase = none
      ∧ phase.map RunPhase.kind = run.requestedPhases[run.phaseHistory.length + 1]? := by
  rw [validateAcceptance, ite_refuse_eq_ok] at h
  obtain ⟨hactive, h⟩ := h
  simp only [check_bind_eq_ok, ite_refuse_eq_ok] at h
  obtain ⟨_, _, _, _, _, _, _, horder, h⟩ := h
  simp only [not_or, ne_eq, Decidable.not_not, Bool.not_eq_true, isSome_eq_false_iff,
    isNone_iff_eq_none] at hactive
  refine ⟨hactive.2.1, hactive.2.2, ?_⟩
  cases nextPhase with
  | some _ =>
    simp only [check_bind_eq_ok, check_pure_eq_ok] at h
    obtain ⟨_, rfl, heq⟩ := h
    obtain ⟨_, _, heq⟩ := check_bind_eq_ok.mp heq
    obtain ⟨_, rfl⟩ := Prod.mk.inj (check_pure_eq_ok.mp heq)
    simpa using horder
  | none =>
    cases hkind : run.requestedPhases[run.phaseHistory.length + 1]? with
    | none =>
      rw [hkind] at h
      simp only [check_bind_eq_ok, check_pure_eq_ok] at h
      obtain ⟨_, rfl, heq⟩ := h
      obtain ⟨_, rfl⟩ := Prod.mk.inj (check_pure_eq_ok.mp heq)
      rfl
    | some kind =>
      rw [hkind] at h
      simp only [check_bind_eq_ok, check_map_eq_ok] at h
      obtain ⟨_, ⟨_, hinferred, rfl⟩, heq⟩ := h
      obtain ⟨_, _, heq⟩ := check_bind_eq_ok.mp heq
      obtain ⟨_, rfl⟩ := Prod.mk.inj (check_pure_eq_ok.mp heq)
      rw [map_some, inferNextPhase_kind hinferred]

end

/-- Accepting a phase gives up the queued planners of the run, with their missions. -/
theorem acceptPhase_ensures
    (hrun : (s .run).find? run.id = some run) (hp : P (.phaseAccepted run.id))
    (hl : ∀ id, P (.assignmentLost id))
    (hc : ∀ a ∈ s .assignment, a.recurrenceKey = some (.plannerNext run.id) → a.status = .pending →
      P (closingEvent s a.missionId)) :
    EmitsFrom P s (acceptPhase env actor run note evidence nextPhase) := by
  let Q : Event → Prop := fun ev => P ev ∧ ev.isGivingUp
  suffices h : Ensures (acceptPhase env actor run note evidence nextPhase) s fun _ s' =>
      Effects Q s s' from
    h.mono fun _ _ h => h.mono fun _ hev => hev.1
  refine .ask fun ⟨session, phase⟩ hok => ?_
  obtain ⟨hactive, hidle, hnext⟩ := validateAcceptance_ok hok
  refine .bind (ensures_change_effects (.phaseAccepted run.id) (P := Q) ⟨hp, rfl⟩ fun r hr => ?_) ?_
  · cases hrun.symm.trans hr
    exact ⟨⟨rfl, rfl, rfl⟩, rfl, hactive, hidle, rfl, rfl, ⟨note, rfl⟩,
      ⟨phase, session⟩, rfl, hnext⟩
  rintro row s₁ ⟨h₁, hrw, _⟩
  have hrw : Rewrites .run run.id row s s₁ := hrw
  refine .read ?_
  refine .bind (ensures_each_effects (P := Q) (t := .assignment) listed_filter
    fun item hitem _ h₂ hstored => ?_) fun _ _ h => .pure (h₁.trans h)
  obtain ⟨hmem, hqueued⟩ := mem_filter.mp hitem
  rw [hrw.frame .assignment (by decide)] at hmem
  obtain ⟨hkey, hpending⟩ : item.recurrenceKey = some (.plannerNext run.id)
      ∧ item.status = .pending := by
    simpa using hqueued
  -- From `s` on, only planners have been given up: no mission has been opened.
  exact supersedePlanner_ensures ⟨hl _, rfl⟩ ⟨hc item hmem hkey hpending, rfl⟩
    (Moves.le (fun _ _ _ hev he => he.openShrinks hev.2) (h₁.trans h₂)) hstored hpending

end Horizon
