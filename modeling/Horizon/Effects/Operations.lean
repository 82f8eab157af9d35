import Horizon.Machine
import Horizon.Effects.Admission
import Horizon.Effects.Workers

/-!
# What an operation writes

Every operation of the control plane makes routine writes, and beyond them only those it
is for: `Operation.Allows` lists them.  `step_effects` is the inversion lemma every
invariant starts from.
-/

namespace Horizon

open Transaction Table List DB

variable {op : Operation} {l : Label} {guard : DB → Label → Prop} {I : DB → Prop}
  {thread : ProviderThread} {ev : Event} {old rule : Automation} {f : Assignment → Assignment}
  {harnessId projectId hostId id limitId : Id} {parent : Option Mission} {command : MissionCommand}
  {actor : Actor} {s : DB} {note : String} {env : Env} {P : Event → Prop} {phase : RunPhase}
  {role : GrantRole} {reservation : Id × Option Id} {limit : ResourceLimit} {data : RunCreate}
  {condition : Option Condition} {m : Mission} {item : Assignment}

/-! ## Launching runs -/

section

variable (hr : ∀ ev : Event, ev.isRoutine → P ev)
include hr

/-- A run is created with its hosts and, if it is a legacy one, with its root maintainer. -/
theorem run_ensures {missionId : Id} (hs : Sound s) (hrun : P (.runCreated data.orchestration))
    (hphases : data.orchestration = .objective → data.requestedPhases.head? = some phase.kind) :
    Ensures (run env actor data missionId phase condition) s fun row s' => Effects P s s'
      ∧ s'.isObjectiveRun row.id = (data.orchestration == .objective) := by
  refine .ask fun _ _ => ?_
  refine .read ?_
  refine .bind (ensures_create_effects (.runCreated data.orchestration) hrun
    ⟨rfl, rfl, rfl, hphases⟩) ?_
  rintro row s₁ ⟨hrow, h₁, hrw⟩
  have hstored : (s₁ .run).find? row.id = some row := by
    rw [hrow]
    exact hrw.stored
  have horch : row.orchestration = data.orchestration := by rw [hrow]
  have hkind : ∀ s', Effects P s₁ s' →
      s'.isObjectiveRun row.id = (data.orchestration == .objective) := by
    intro s' h'
    rw [h'.isObjectiveRun (by rw [has, hstored]; rfl), isObjectiveRun, hstored, Option.any_some,
      horch]
  refine .bind (Emits.from (P := P) (.each fun _ _ => ?_) (h₁.sound hs)) fun _ s₂ h₂ => ?_
  · exact .done (emits_create_other rfl (hr _ rfl))
  refine .ite (fun hlegacy => ?_) fun _ => .pure ⟨h₁.trans h₂, hkind s₂ h₂⟩
  refine .read ?_
  refine .bind (ensures_create_effects .ruleCreated (hr _ rfl) fun hobj => ?_) ?_
  · rw [hkind s₂ h₂, hlegacy] at hobj
    cases hobj
  rintro rule s₃ ⟨hrule, h₃, hrw₃⟩
  have hknows : s₃.Knows rule := by
    rw [hrule]
    exact knows_of_mem (mem_of_find? hrw₃.stored)
  have h₃ : Effects P s₁ s₃ := h₂.trans h₃
  refine .bind (replenish_ensures (queueing_of_routine hr) (h₃.sound (h₁.sound hs)) hknows)
    fun _ s₄ h₄ => ?_
  have h₄ : Effects P s₁ s₄ := h₃.trans h₄
  exact .pure ⟨h₁.trans h₄, hkind s₄ h₄⟩

theorem guardSlot_emits {slot : HostHarness} (hl : P .limitAttached) :
    Emits P (guardSlot env slot) := by
  have hattach : ∀ account : ResourceLimit, Emits P (do
      let _ ← create .hostHarnessLimit ⟨slot.hostId, slot.harnessId, account.id⟩) := fun _ =>
    .done (emits_create .limitAttached hl fun _ _ => trivial)
  refine .read fun db => .unless ?_
  dsimp only
  split
  · exact .bind .pure hattach
  · exact .bind (emits_create .limitRegistered (hr _ rfl) fun _ _ => ⟨rfl, rfl, rfl⟩) hattach

omit hr in
/-- The phases of an objective start with the launched one. -/
theorem objectivePhases_ok {db : DB} {phases : List PhaseKind}
    (h : db.objectivePhases data projectId phase = .ok phases) :
    phases.head? = some phase.kind := by
  rw [objectivePhases] at h
  obtain ⟨hhead, h⟩ := ite_refuse_eq_ok.mp h
  cases h
  simpa using hhead

/-- The planner of a new objective is queued. -/
theorem launchPlanner_ensures {row : Run} (hs : Sound s) (hobj : s.isObjectiveRun row.id)
    (hname : rule.name = .objectivePlanner) (hrun : rule.runId = row.id) :
    EmitsFrom P s (do
      let rule ← create .automation rule
      let _ ← ensureSuccessor env row rule
      getRecord .run row.id) := by
  refine .bind (ensures_create_effects .ruleCreated (hr _ rfl) fun _ => hname) ?_
  rintro rule' s₁ ⟨rfl, h₁, hrw⟩
  have hrw : Rewrites .automation rule'.id rule' s s₁ := hrw
  have hplanner : s₁.isPlanner (some rule'.id) row.id := by
    have hrunTable : s₁ .run = s .run := hrw.frame .run (by decide)
    rw [isObjectiveRun] at hobj
    simp [isPlanner, isObjectiveRun, hrunTable, hobj, hrw.stored, hname, hrun]
  refine .bind (ensureSuccessor_ensures (queueing_of_routine hr) (h₁.sound hs) hplanner) ?_
  rintro _ _ ⟨h₂, _⟩
  rw [ensures_getRecord]
  exact fun _ _ => h₁.trans h₂

theorem launch_emits (hobj : data.orchestration = .objective)
    (hrun : P (.runCreated data.orchestration)) (hl : P .limitAttached) :
    Emits P (launch env actor data) := by
  refine .ask fun _ => .bind ?_ fun _ => ?_
  · rw [rootMission]
    split
    · exact .query
    · exact mission_emits (queueing_of_routine hr)
  · refine .guard <| .ask fun _ => ?_
    refine .read fun db => .bind (.each fun _ _ => guardSlot_emits hr hl) fun _ => ?_
    refine .guard <| emits_of_sound fun s hs => ?_
    refine .ask fun _ hphases => ?_
    refine .ask fun _ _ => ?_
    refine .bind (run_ensures hr hs ?_ fun _ => ?_) fun row s₁ ⟨h₁, hkind⟩ => ?_
    · exact hrun
    · exact objectivePhases_ok hphases
    refine .read ?_
    refine Ensures.mono (launchPlanner_ensures hr (h₁.sound hs) ?_ rfl rfl) fun _ _ h => h₁.trans h
    rw [hkind, hobj]
    rfl

theorem startRun_emits (hrun : P (.runCreated data.orchestration)) (hl : P .limitAttached) :
    Emits P (startRun env actor data condition) := by
  refine .guard <| .guard ?_
  split
  · exact launch_emits hr ‹_› hrun hl
  · refine emits_of_sound fun s hs => ?_
    refine (run_ensures hr hs hrun fun _ => ?_).mono fun _ _ h => h.1
    simp_all
  · exact .raise

end

/-! ## The catalog -/

section

variable (hr : ∀ ev : Event, ev.isRoutine → P ev)
include hr

theorem createCatalog_emits {record : CatalogRecord}
    (hslot : ∀ row limitIds, record = .hostHarness row limitIds → P .slotCreated
      ∧ P .limitAttached) :
    Emits P (createCatalog env actor record) := by
  have hcreate : ∀ (t : TableName) (ht : t.isTracked = false) (row : Row t)
      (check : DB → Except Error Unit), Emits P (do
        query check
        let _ ← create t row) := fun t ht row check =>
    .ask fun _ =>
      .done (emits_create_other ht (hr (.other t ht) rfl))
  cases record with
  | document => exact hcreate .document rfl _ _
  | node => exact hcreate .node rfl _ _
  | repository => exact hcreate .repository rfl _ _
  | roadmapSnapshot => exact hcreate .roadmapSnapshot rfl _ _
  | workspace => exact hcreate .workspace rfl _ _
  | host => exact hcreate .host rfl _ _
  | harness => exact hcreate .harness rfl _ _
  | resourceLimit =>
    refine .ask fun _ => .done ?_
    exact emits_create .limitRegistered (hr _ rfl) fun _ _ => ⟨rfl, rfl, rfl⟩
  | hostHarness row limitIds =>
    obtain ⟨hcreated, hattached⟩ := hslot row limitIds rfl
    refine .ask fun _ => ?_
    refine .bind (emits_create .slotCreated hcreated fun _ _ => trivial) fun _ => ?_
    refine .each fun _ _ => .done ?_
    exact emits_create .limitAttached hattached fun _ _ => trivial

theorem updateCatalog_emits {update : CatalogUpdate} :
    Emits P (updateCatalog env actor update) := by
  cases update with
  | projectWorkflow | hostMode | harness =>
    refine .ask fun _ => ?_
    exact .done (emits_change_other rfl (hr _ rfl))
  | resourceLimit =>
    refine .ask fun _ => .done ?_
    exact emits_change .limitTuned (hr _ rfl) fun _ _ _ _ => ⟨rfl, rfl, rfl⟩
  | document =>
    refine .bind emits_getRecord fun _ => .ask fun _ => ?_
    exact .done (emits_change_other rfl (hr _ rfl))
  | workspace =>
    refine .bind emits_getRecord fun _ => .ask fun _ => ?_
    refine .guard ?_
    exact .done (emits_change_other rfl (hr _ rfl))

theorem createAdmin_emits : Emits P (createAdmin env) := by
  refine .read fun _ => .bind (emits_create_other rfl (hr _ rfl)) fun _ => ?_
  exact .done (emits_create_other rfl (hr _ rfl))

theorem project_emits {workflow : Workflow} : Emits P (project env actor workflow) :=
  .ask fun _ => .read fun _ => emits_create_other rfl (hr _ rfl)

theorem hostHeartbeat_emits {health : HostHealth} :
    Emits P (hostHeartbeat env actor hostId health) := by
  refine .ask fun _ => ?_
  exact .done (emits_change_other rfl (hr _ rfl))

omit hr in
theorem syncItem_emits {item : ForgeItem} (hnew : P .itemRecorded)
    (hsync : P (.itemSynced item.id)) : Emits P (syncItem env item) := by
  refine .read fun db => ?_
  split
  · exact .done (emits_create .itemRecorded hnew fun _ _ => trivial)
  · refine .done (emits_change (.itemSynced item.id) hsync fun _ _ _ h => ?_)
    exact key_of_find? h

theorem grantAccess_emits {kind : PrincipalKind} :
    Emits P (grantAccess env kind projectId role) := by
  refine .read fun _ => .bind (emits_create_other rfl (hr _ rfl)) fun _ => ?_
  exact .done (emits_create_other rfl (hr _ rfl))

theorem classify_emits {phase : PhaseKind} : Emits P (classify env actor id phase) := by
  refine .ask fun _ => .done ?_
  exact emits_change .itemPhased (hr _ rfl) fun _ _ _ _ => itemPhased_changes

end

/-! ## Reconfiguring a slot -/

/-- A limit is attached to reservations whose executions were not confirmed to have stopped. -/
theorem claimOccupancy_emits (hP : P .claimAttached)
    (hstop : ∀ e, (s .execution).find? reservation.1 = some e → e.stopConfirmedAt = none) :
    EmitsFrom P s (claimOccupancy env limitId reservation) := by
  refine .read ?_
  refine .ite (fun _ => .pure (Moves.refl s)) fun _ => ?_
  rw [ensures_bind, ensures_create]
  exact fun _ ha => .pure (Effects.insert .claimAttached hP ha ⟨rfl, hstop⟩)

theorem claimOccupancy_leaves : Leaves .execution (claimOccupancy env limitId reservation) :=
  .read fun _ => .unless <|
    .done (leaves_create nofun)

/-- The reservations to account for belong to executions not confirmed to have stopped. -/
theorem occupancy_unconfirmed (h : reservation ∈ s.occupancy hostId harnessId limit) {e : Execution}
    (he : (s .execution).find? reservation.1 = some e) : e.stopConfirmedAt = none := by
  have hmem : reservation.1 ∈ (s.unconfirmedOn hostId harnessId).map (·.id) := by
    rcases mem_append.mp h with h | h
    · obtain ⟨id, hid, rfl⟩ := mem_map.mp h
      exact hid
    · split at h
      · obtain ⟨r, hr, rfl⟩ := mem_map.mp h
        have hr := (mem_filter.mp hr).2
        simp only [Bool.and_eq_true, contains_iff_mem] at hr
        exact hr.1.1
      · cases h
  obtain ⟨e', he', hid⟩ := mem_map.mp hmem
  obtain ⟨hmem', hp⟩ := mem_filter.mp he'
  obtain ⟨hmem, hkey⟩ := find?_eq_some.mp he
  obtain rfl := (s .execution).eq_of_key hmem hmem' (hkey.trans hid.symm)
  simpa using (Bool.and_eq_true_iff.mp hp).2

theorem claimAttachedLimit_emits (hP : P .claimAttached) :
    Emits P (claimAttachedLimit env hostId harnessId limit) := by
  intro s
  refine .read ?_
  suffices h : Ensures (each (claimOccupancy env limit.id) (s.occupancy hostId harnessId limit)) s
      fun _ s' => Effects P s s' ∧ s' .execution = s .execution from h.mono fun _ _ h _ => h.1
  refine ensures_each ⟨Moves.refl s, rfl⟩ fun reservation hmem s₁ ⟨h₁, hs₁⟩ => ?_
  have hstop : ∀ e, (s₁ .execution).find? reservation.1 = some e → e.stopConfirmedAt = none := by
    rw [hs₁]
    exact fun e => occupancy_unconfirmed hmem
  refine ((claimOccupancy_emits hP hstop).and (claimOccupancy_leaves s₁)).mono fun _ _ h₂ => ?_
  exact ⟨h₁.trans h₂.1, Eq.trans h₂.2 hs₁⟩

theorem configureHostHarness_emits (hconf : P .slotConfigured) (hdetach : P .limitDetached)
    (hattach : P .limitAttached) (hclaim : P .claimAttached) {row : HostHarness}
    {limitIds : List Id} : Emits P (configureHostHarness env actor row limitIds) := by
  refine .ask fun _ => .read fun db => ?_
  refine .bind (emits_change .slotConfigured hconf fun _ _ _ _ => trivial) fun _ => ?_
  refine .bind (fun s => ensures_deleteWhere.mpr fun _ => Moves.single hdetach .detach) fun _ => ?_
  refine .bind (.each fun _ _ => .done ?_) fun _ => ?_
  · exact emits_create .limitAttached hattach fun _ _ => trivial
  · exact .each fun _ _ => claimAttachedLimit_emits hclaim

/-! ## Lifecycle commands -/

section

variable {run : Run} {data : AutomationDeferral} {expected : Nat}

theorem targetMission_ok (h : s.targetMission env actor id expected = .ok m) :
    (s .mission).find? id = some m ∧ m.revision = expected := by
  simp only [targetMission, expectRevision, check_bind_eq_ok, check_pure_eq_ok] at h
  obtain ⟨m', hm, _, _, _, hrev, rfl⟩ := h
  split at hrev
  · exact ⟨get_eq_ok.mp hm, ‹_›⟩
  · cases hrev

theorem validateClosing_ok {cancel : Bool} (hm : m ∈ s .mission)
    (h : s.validateClosing m cancel = .ok ()) : s.openChildren m.id = [] := by
  rw [validateClosing, ite_refuse_eq_ok] at h
  exact ensureClosureAllowed_ok hm h.2

theorem validateReopening_ok (hparent : s.parentOf m = .ok parent)
    (h : s.validateReopening m parent = .ok ()) : s.parentOpen m ∧ s.roomLeft m := by
  rcases parentOf_ok hparent with ⟨hnone, rfl⟩ | ⟨p, row, hsome, rfl, hrow⟩
  · simp [parentOpen, roomLeft, hnone]
  · simp only [validateReopening, ite_refuse_eq_ok] at h
    obtain ⟨_, hopen, hroom, _⟩ := h
    obtain ⟨_, rfl⟩ := find?_eq_some.mp hrow
    rw [parentOpen, roomLeft, hsome]
    simp only [Option.all_some, hrow, Option.any_some]
    exact ⟨by simpa using hopen, decide_eq_true (not_le.mp hroom)⟩

/-- What a mission command has checked before it writes. -/
theorem validateMissionCommand_ok
    (h : s.validateMissionCommand env actor command id expected note = .ok (m, parent)) :
    (s .mission).find? id = some m ∧ (command = .reopen → s.parentOpen m ∧ s.roomLeft m)
      ∧ (command ≠ .reopen → s.openChildren m.id = []) := by
  rw [validateMissionCommand] at h
  simp only [check_bind_eq_ok] at h
  obtain ⟨m', hm', _, _, _, _, parent', hparent, h⟩ := h
  have hm := (targetMission_ok hm').1
  cases command with
  | complete | cancel =>
    simp only [check_bind_eq_ok, check_pure_eq_ok] at h
    obtain ⟨_, hclosing, ⟨⟩⟩ := h
    exact ⟨hm, by rintro ⟨⟩, fun _ => validateClosing_ok (mem_of_find? hm) hclosing⟩
  | reopen =>
    simp only [check_bind_eq_ok, check_pure_eq_ok] at h
    obtain ⟨_, hreopening, ⟨⟩⟩ := h
    exact ⟨hm, fun _ => validateReopening_ok hparent hreopening, fun h => absurd rfl h⟩

theorem missionCommand_emits (hq : ∀ ev : Event, ev.isQueueing → P ev)
    (ho : command = .reopen → P (.missionOpened id true true)) :
    Emits P (missionCommand env actor command id expected note) := by
  intro s
  refine .ask fun ⟨m, parent⟩ hok => ?_
  obtain ⟨hm, hreopen, hclose⟩ := validateMissionCommand_ok hok
  obtain ⟨_, hid⟩ := find?_eq_some.mp hm
  refine Ensures.bind_keeps ?_ fun _ s₁ _ => bumpIfAny_emits hq s₁
  rw [ensures_change]
  intro old hold _ ha _
  cases hm.symm.trans hold
  cases command with
  | reopen =>
    obtain ⟨hopen, hroom⟩ := hreopen rfl
    exact Effects.change (.missionOpened id true true) (ho rfl) hold ha
      ⟨⟨rfl, rfl, rfl, rfl⟩, hid, rfl, fun _ => .inr hopen, fun _ => .inr hroom⟩
  | complete | cancel =>
    exact Effects.change (.missionClosed id true) (hq _ rfl) hold ha
      ⟨⟨rfl, rfl, rfl, rfl⟩, hid, nofun, fun _ => hclose nofun⟩

/-- The assignment a command acts on is stored. -/
theorem targetAssignment_ok (h : s.targetAssignment env actor id expected = .ok item) :
    (s .assignment).find? id = some item := by
  simp only [targetAssignment, check_bind_eq_ok, check_pure_eq_ok] at h
  obtain ⟨_, hitem, _, _, _, _, _, _, _, _, rfl⟩ := h
  exact get_eq_ok.mp hitem

/-- Whether an assignment is live already, or nothing else owns its mission. -/
def DB.mayRevive (s : DB) (id : Id) : Bool :=
  ((s .assignment).find? id).all fun a => a.status.isLive || s.isRoot a.missionId || s.soleOwner a

/-- The event of reviving an assignment where it stands, with the check of its ownership
that happens to hold. -/
def revivingEvent (s : DB) (id : Id) (waits : Bool) : Event :=
  .assignmentRevived id (s.mayRevive id) waits

/-- Reviving an assignment, after writes to other tables. -/
theorem revive_ensures {s₁ : DB} {waits : Bool} {expected : Option Nat}
    {hf : ∀ a, key .assignment (f a) = key .assignment a} (hP : P (revivingEvent s item.id waits))
    (hitem : (s .assignment).find? item.id = some item) (hassign : s₁ .assignment = s .assignment)
    (hmission : s₁ .mission = s .mission) (hdown : item.status.isActive = false)
    (hobj : s₁.isObjectiveRun item.runId →
      (f item).recoveryAttempts = item.recoveryAttempts ∧ (f item).retryAt = none)
    (hwork : item.SameWork (f item)) (hfuns : (f item).functions = item.functions)
    (hkey : (f item).recurrenceKey = item.recurrenceKey) (hstatus : (f item).status = .pending)
    (hwait : (f item).startCondition = if waits then item.startCondition else none) :
    EmitsFrom P s₁ (change env .assignment item.id expected f hf) := by
  refine Ensures.mono (ensures_change_effects (revivingEvent s item.id waits) hP fun old hold => ?_)
    fun _ _ h => h.1
  have hstored : (s₁ .assignment).find? item.id = some item := by rw [hassign, hitem]
  cases hstored.symm.trans hold
  obtain ⟨h₁, h₂, h₃, h₄, h₅⟩ := hwork
  refine ⟨⟨h₁, h₂, h₃, h₄, h₅⟩, rfl, hfuns, hkey, hstatus, hdown, hwait, hobj, fun hsole => ?_⟩
  rw [mayRevive, hitem, Option.all_some, Bool.or_eq_true, Bool.or_eq_true, or_assoc] at hsole
  simpa only [isRoot, soleOwner, hassign, hmission] using hsole

section

variable (hr : ∀ ev : Event, ev.isRoutine → P ev)
include hr

/-- Resuming the recurrence of a legacy assignment. -/
theorem restoreRecurringAssignment_ensures (hs : Sound s)
    (hitem : (s .assignment).find? item.id = some item)
    (hobj : s.isObjectiveRun item.runId = false) :
    Ensures (restoreRecurringAssignment env item) s fun _ s' => Effects P s s'
      ∧ ∀ t, t ≠ .automation → s' t = s t := by
  rw [restoreRecurringAssignment]
  cases hid : item.automationId with
  | none => exact .pure ⟨Moves.refl _, fun _ _ => rfl⟩
  | some _ =>
    refine ensures_fetch fun rule hrule => ?_
    obtain ⟨_, hruleId⟩ := find?_eq_some.mp hrule
    refine .read <| .guard fun _ => ?_
    refine .ite (fun _ => ?_) fun _ => .pure ⟨Moves.refl _, fun _ _ => rfl⟩
    refine .bind (ensures_change_effects (.ruleChanged rule.id) (hr _ rfl) fun old hold => ?_) ?_
    · refine ⟨⟨rfl, rfl⟩, (key_of_find? hold), fun hobj' _ => ?_⟩
      have hruled := hs.ruled item (mem_of_find? hitem) old
        (by rw [hid, ← hruleId]; exact hold)
      rw [hruled, hobj] at hobj'
      cases hobj'
    · rintro _ _ ⟨h₁, hrw, _⟩
      exact .pure ⟨h₁, hrw.frame⟩

theorem retryAssignment_ensures (hs : Sound s) (hrevive : P (revivingEvent s id true)) :
    EmitsFrom P s (retryAssignment env actor id expected) := by
  refine .ask fun _ hok => ?_
  simp only [check_bind_eq_ok, ite_refuse_bind_eq_ok, check_pure_eq_ok] at hok
  obtain ⟨item', htarget, hfailed, run, hrun, _, _, hlegacy, rfl⟩ := hok
  have hitem := targetAssignment_ok htarget
  obtain ⟨_, rfl⟩ := find?_eq_some.mp hitem
  have hobj : s.isObjectiveRun item'.runId = false := by
    rw [isObjectiveRun, get_eq_ok.mp hrun]
    simpa using hlegacy
  have hdown : item'.status.isActive = false := by
    rw [Decidable.not_not.mp hfailed]
    rfl
  refine .bind (restoreRecurringAssignment_ensures hr hs hitem hobj) ?_
  rintro _ _ ⟨h₁, hframe⟩
  refine .bind (revive_ensures hrevive hitem (hframe _ (by decide)) (hframe _ (by decide)) hdown
    (fun hobj' => ?_) ⟨rfl, rfl, rfl, rfl, rfl⟩ rfl rfl rfl rfl)
    fun _ _ h => .pure (h₁.trans h)
  rw [isObjectiveRun, hframe _ (by decide), ← isObjectiveRun, hobj] at hobj'
  cases hobj'

theorem resumeAssignment_ensures (hs : Sound s) (hrevive : P (revivingEvent s id false)) :
    EmitsFrom P s (resumeAssignment env actor id expected note) := by
  refine .ask fun _ hok => ?_
  simp only [check_bind_eq_ok, ite_refuse_bind_eq_ok, check_pure_eq_ok] at hok
  obtain ⟨item', htarget, run, hrun, hlegacy, _, _, _, _, _, _, rfl⟩ := hok
  have hitem := targetAssignment_ok htarget
  obtain ⟨_, rfl⟩ := find?_eq_some.mp hitem
  have hobj : s.isObjectiveRun item'.runId = false := by
    rw [isObjectiveRun, get_eq_ok.mp hrun]
    simpa using hlegacy
  have hdown : item'.status.isActive = false := by
    cases hstatus : item'.status <;> simp_all [AssignmentStatus.isActive]
  refine .bind (restoreRecurringAssignment_ensures hr hs hitem hobj) ?_
  rintro _ _ ⟨h₁, hframe⟩
  refine .bind (revive_ensures hrevive hitem (hframe _ (by decide)) (hframe _ (by decide)) hdown
    (fun hobj' => ?_) ⟨rfl, rfl, rfl, rfl, rfl⟩ rfl rfl rfl rfl)
    fun _ _ h => .pure (h₁.trans h)
  rw [isObjectiveRun, hframe _ (by decide), ← isObjectiveRun, hobj] at hobj'
  cases hobj'

omit hr in
theorem resumeSession_emits (hresume : P (.assignmentResumed id)) :
    Emits P (resumeSession env actor id expected note) := by
  refine .ask fun _ => .done ?_
  exact emits_change (.assignmentResumed id) hresume fun s a _ ha =>
    ⟨⟨rfl, rfl, rfl, rfl, rfl⟩, (key_of_find? ha), ⟨rfl, rfl, rfl, .inr rfl, .inl rfl⟩, rfl⟩

omit hr in
/-- A checked start condition is given to an assignment. -/
theorem recondition_ensures {expected : Option Nat} {functions : Option (List AgentFunction)}
    {hf : ∀ a, key .assignment (f a) = key .assignment a}
    (hP : P (.assignmentConditioned id condition functions)) (hnames : s.namesStored condition)
    (hkeep : ∀ a, (s .assignment).find? id = some a → a.SameWork (f a) ∧ (f a).status = a.status
      ∧ (f a).functions = functions.getD a.functions ∧ (f a).recurrenceKey = a.recurrenceKey
      ∧ (f a).recoveryAttempts = a.recoveryAttempts ∧ (f a).retryAt = a.retryAt
      ∧ (f a).pauseReason = a.pauseReason ∧ (f a).startCondition = condition) :
    EmitsFrom P s (change env .assignment id expected f hf) := by
  refine Ensures.mono (ensures_change_effects (.assignmentConditioned id condition functions) hP
    fun a ha => ?_) fun _ _ h => h.1
  obtain ⟨⟨h₁, h₂, h₃, h₄, h₅⟩, hstatus, hfuns, hkey, hattempts, hretry, hpause, hcond⟩ :=
    hkeep a ha
  exact ⟨⟨h₁, h₂, h₃, h₄, h₅⟩, (key_of_find? ha), hstatus, hfuns, hkey, hattempts,
    hretry, hpause, hcond, hnames⟩

omit hr in
theorem checkpointAssignment_ensures {notBefore : Option Instant}
    (hcond : ∀ projectId, s.validateCondition projectId condition (some id) = .ok () →
      P (.assignmentConditioned id condition none)) :
    EmitsFrom P s (checkpointAssignment env actor id expected notBefore condition note) := by
  refine .ask fun _ hok => ?_
  simp only [check_bind_eq_ok, ite_refuse_bind_eq_ok] at hok
  obtain ⟨_, _, _, hok⟩ := hok
  obtain ⟨projectId, hvalid⟩ : ∃ projectId,
      s.validateCondition projectId condition (some id) = .ok () := by
    split at hok
    · simp only [check_bind_eq_ok, ite_refuse_bind_eq_ok] at hok
      obtain ⟨_, _, _, projectId, _, _, hvalid, _⟩ := hok
      exact ⟨projectId, hvalid⟩
    · simp only [check_bind_eq_ok] at hok
      obtain ⟨projectId, _, _, hvalid, _⟩ := hok
      exact ⟨projectId, hvalid⟩
  refine .bind (recondition_ensures (hcond projectId hvalid)
    (validateCondition_namesStored hvalid) fun a _ => ?_) fun _ _ h => .pure h
  exact ⟨⟨rfl, rfl, rfl, rfl, rfl⟩, rfl, rfl, rfl, rfl, rfl, rfl, rfl⟩

omit hr in
theorem updateAssignment_ensures {data : AssignmentUpdate}
    (hcond : ∀ projectId a, (s .assignment).find? id = some a →
      s.validateCondition projectId (data.startCondition.getD a.startCondition) (some id) = .ok () →
        P (.assignmentConditioned id (data.startCondition.getD a.startCondition) data.functions)) :
    EmitsFrom P s (updateAssignment env actor id expected data) := by
  refine .ask fun _ hok => ?_
  simp only [check_bind_eq_ok, ite_refuse_bind_eq_ok] at hok
  obtain ⟨item, htarget, _, _, _, _, projectId, _, hvalid⟩ := hok
  have hitem := targetAssignment_ok htarget
  refine .bind (recondition_ensures (hcond projectId item hitem hvalid)
    (validateCondition_namesStored hvalid) fun a ha => ?_) fun _ _ h => .pure h
  cases hitem.symm.trans ha
  exact ⟨⟨rfl, rfl, rfl, rfl, rfl⟩, rfl, rfl, rfl, rfl, rfl, rfl, rfl⟩

theorem moveAssignment_emits {otherId : Id} {after : Bool} :
    Emits P (moveAssignment env actor id expected otherId after) := by
  refine .ask fun _ => .read fun _ => .each fun _ _ => ?_
  refine .done (changeWait_emits (queueing_of_routine hr) fun _ => ?_)
  exact ⟨⟨rfl, rfl, rfl, rfl, rfl⟩, ⟨rfl, rfl, rfl, .inl rfl, .inl rfl⟩, rfl, .inl⟩

end

section

variable (hr : ∀ ev : Event, ev.isRoutine → P ev)
include hr

/-- Enabling a rule queues its recurrence; a queued planner goes on. -/
theorem enableRule_ensures (hs : Sound s) (hrule : (s .automation).find? rule.id = some rule) :
    EmitsFrom P s (enableRule env actor rule) := by
  have hq := queueing_of_routine hr
  refine ensures_fetch fun run hrun => ?_
  have hid : run.id = rule.runId := key_of_find? hrun
  refine .ite (fun ho => ?_) fun _ => ?_
  · have hobj : s.isObjectiveRun rule.runId := by simp [isObjectiveRun, hrun, ho]
    have hname := hs.planners rule (mem_of_find? hrule) hobj
    have hplanner : s.isPlanner (some rule.id) run.id := by
      simp [isPlanner, hrule, hname, hid, hobj]
    refine .bind (ensureSuccessor_ensures hq hs hplanner) ?_
    rintro successor _ ⟨h₁, hnext⟩
    cases successor with
    | none => exact .pure h₁
    | some successor =>
      obtain ⟨hstored, hkey⟩ := hnext successor rfl
      refine .bind (ensures_change_effects .assignmentChanged (hr _ rfl) fun old hold => ?_)
        fun _ _ h => .pure (h₁.trans h.1)
      cases hstored.symm.trans hold
      exact ⟨⟨rfl, rfl, rfl, rfl, rfl⟩, ⟨rfl, rfl, rfl, .inl rfl, .inl rfl⟩, rfl,
        fun _ => .inr (by rw [hkey]; rfl)⟩
  · exact .bind (replenish_ensures hq hs ⟨rule, hrule, rfl, rfl⟩) fun _ _ h => .pure h

omit hr in
/-- The queued occurrences of a rule get its checked start condition. -/
theorem rescheduleOccurrences_ensures (hchange : P .assignmentChanged)
    (hcond : ∀ c, data.startCondition = some c → rule.startCondition = c ∧ s.namesStored c
      ∧ ∀ a ∈ s.queuedOccurrences rule.id, P (.assignmentConditioned a.id c none)) :
    EmitsFrom P s (rescheduleOccurrences env data rule) := by
  refine .read <| .ite (fun _ => ?_) fun _ => .pure (Moves.refl _)
  refine ensures_each (J := Effects P s) (Moves.refl _) fun item hitem _ h₁ => ?_
  rw [reschedule, ensures_bind]
  cases hdata : data.startCondition with
  | none =>
    refine Ensures.mono (ensures_change_effects .assignmentChanged hchange fun a _ => ?_)
      fun _ _ h => .pure (h₁.trans h.1)
    exact ⟨⟨rfl, rfl, rfl, rfl, rfl⟩, ⟨rfl, rfl, rfl, .inl rfl, .inl rfl⟩, rfl, .inl⟩
  | some c =>
    obtain ⟨hrule, hnames, hP⟩ := hcond c hdata
    refine Ensures.mono (recondition_ensures (hP item hitem) ?_ fun a _ => ?_)
      fun _ _ h => .pure (h₁.trans h)
    · exact h₁.namesStored hnames
    · exact ⟨⟨rfl, rfl, rfl, rfl, rfl⟩, rfl, rfl, rfl, rfl, rfl, rfl, hrule⟩

/-- Pausing a planner explicitly pauses its queued occurrences. -/
theorem switchOccurrences_ensures {objective : Bool} (hs : Sound s)
    (hrule : (s .automation).find? rule.id = some rule) :
    EmitsFrom P s (switchOccurrences env actor data old rule objective) := by
  refine .ite (fun _ => enableRule_ensures hr hs hrule) fun _ => ?_
  refine Emits.from (.ite (fun _ => ?_) fun _ => .pure) hs
  refine emits_updateWhere .assignmentChanged (hr _ rfl) fun s hs a ha _ => ⟨?_, fun _ h => h, ?_⟩
  · exact (admissible_iff.mp (hs.consistent .assignment a ha)).1
  · exact ⟨⟨rfl, rfl, rfl, rfl, rfl⟩, ⟨rfl, rfl, rfl, .inl rfl, .inl rfl⟩, rfl, fun _ => .inl rfl⟩

omit hr in
/-- The rule a command acts on is stored. -/
theorem targetAutomation_ok (h : s.targetAutomation env actor id expected = .ok rule) :
    (s .automation).find? id = some rule := by
  simp only [targetAutomation, check_bind_eq_ok] at h
  obtain ⟨rule', hrule, _, _, _, _, h⟩ := h
  have hfinal : ∃ u, expectRevision rule'.revision expected = .ok u ∧ rule' = rule := by
    split at h
    · simp only [check_bind_eq_ok, ite_refuse_bind_eq_ok, check_pure_eq_ok] at h
      obtain ⟨_, _, _, _, _, u, hu, heq⟩ := h
      exact ⟨u, hu, heq⟩
    · simp only [check_bind_eq_ok, check_pure_eq_ok] at h
      obtain ⟨u, hu, heq⟩ := h
      exact ⟨u, hu, heq⟩
  obtain ⟨_, _, rfl⟩ := hfinal
  exact get_eq_ok.mp hrule

/-- A deferral enables its rule on request only, and keeps an explicit pause otherwise. -/
theorem deferRule_ensures (hold : (s .automation).find? id = some old)
    (hrun : (s .run).find? old.runId = some run)
    (henable : data.enabled = some true → P (.ruleEnabled id)) :
    Ensures (change env .automation id (some expected) fun a =>
      data.apply env (run.orchestration == .objective) a) s fun rule s' => Effects P s s'
        ∧ Rewrites .automation id rule s s' ∧ rule.id = id
        ∧ rule.startCondition = data.startCondition.getD old.startCondition := by
  have hrow : ∀ rule : Automation, (∃ a, (s .automation).find? id = some a
      ∧ rule = touch env.now .automation (data.apply env (run.orchestration == .objective) a)) →
      rule.id = id ∧ rule.startCondition = data.startCondition.getD old.startCondition := by
    rintro rule ⟨a, ha, rfl⟩
    cases hold.symm.trans ha
    exact ⟨(key_of_find? ha :), rfl⟩
  by_cases hen : data.enabled = some true
  · refine (ensures_change_effects (.ruleEnabled id) (henable hen) fun a ha => ?_).mono
      fun rule _ ⟨h, hrw, hch⟩ => ⟨h, hrw, hrow rule hch⟩
    exact ⟨⟨rfl, rfl⟩, (key_of_find? ha)⟩
  · refine (ensures_change_effects (.ruleChanged id) (hr _ rfl) fun a ha => ?_).mono
      fun rule _ ⟨h, hrw, hch⟩ => ⟨h, hrw, hrow rule hch⟩
    cases hold.symm.trans ha
    refine ⟨⟨rfl, rfl⟩, (key_of_find? ha), fun hobj hpaused => ?_⟩
    rw [isObjectiveRun, hrun, Option.any_some] at hobj
    cases henabled : data.enabled with
    | none => simpa [Automation.isPaused, AutomationDeferral.apply, touch, henabled] using hpaused
    | some enabled =>
      cases enabled with
      | true => exact absurd henabled hen
      | false => simp [Automation.isPaused, AutomationDeferral.apply, touch, henabled, hobj]

/-- A deferral changes its rule, and the queued occurrences where the condition was checked. -/
theorem deferAutomation_ensures (hs : Sound s)
    (henable : data.enabled = some true → P (.ruleEnabled id))
    (hcond : ∀ c, data.startCondition = some c → ∀ projectId, ∀ a ∈ s.queuedOccurrences id,
      s.validateCondition projectId c (some a.id) = .ok () →
        P (.assignmentConditioned a.id c none)) :
    EmitsFrom P s (deferAutomation env actor id expected data) := by
  refine .ask ?_
  rintro ⟨old, run⟩ hok
  simp only [check_bind_eq_ok] at hok
  obtain ⟨old', htarget, projectId, _, _, hvalid, hok⟩ := hok
  obtain ⟨hconds, hrun, rfl⟩ : (∀ c, data.startCondition = some c → ∀ a ∈ s.queuedOccurrences id,
      s.validateCondition projectId c (some a.id) = .ok ()) ∧ s.get .run old'.runId = .ok run
      ∧ old' = old := by
    split at hok
    · simp only [check_bind_eq_ok, check_pure_eq_ok, Prod.mk.injEq] at hok
      obtain ⟨_, hfor, run', hrun, rfl, rfl⟩ := hok
      refine ⟨fun c hc a ha => ?_, hrun, rfl⟩
      obtain ⟨x, hx⟩ := check_forIn_eq_ok (by simp) hfor a ha
      obtain ⟨_, hvalid, _⟩ := check_bind_eq_ok.mp hx
      rwa [hc] at hvalid
    · simp only [check_bind_eq_ok, check_pure_eq_ok, Prod.mk.injEq] at hok
      obtain ⟨run', hrun, rfl, rfl⟩ := hok
      refine ⟨fun c hc => ?_, hrun, rfl⟩
      simp_all
  have hold := targetAutomation_ok htarget
  dsimp only
  refine .bind (deferRule_ensures hr hold (get_eq_ok.mp hrun) henable) ?_
  rintro rule _ ⟨h₁, hrw, hid, hstart⟩
  refine .bind (rescheduleOccurrences_ensures (P := fun ev => P ev ∧ ev.table = .assignment)
    ⟨hr _ rfl, rfl⟩ fun c hc => ⟨?_, h₁.namesStored ?_, fun a ha => ⟨?_, rfl⟩⟩) fun _ s₂ h₂ => ?_
  · rw [hstart, hc]
    rfl
  · rw [hc] at hvalid
    exact validateCondition_namesStored hvalid
  · rw [hid, queuedOccurrences, hrw.frame .assignment (by decide)] at ha
    exact hcond c hc projectId a ha (hconds c hc a ha)
  · have hstored : (s₂ .automation).find? rule.id = some rule := by
      rw [h₂.frame (fun _ hev => by rw [hev.2]; decide), hid]
      exact hrw.stored
    have h₂ : Effects P s s₂ := h₁.trans (h₂.mono fun _ hev => hev.1)
    exact (switchOccurrences_ensures hr (h₂.sound hs) hstored).mono fun _ _ h => h₂.trans h

omit hr in
/-- Rules are created for legacy runs. -/
theorem validateAutomation_ok {data : AutomationCreate}
    (h : s.validateAutomation env actor data = .ok ()) : s.isObjectiveRun data.runId = false := by
  simp only [validateAutomation, check_bind_eq_ok, ite_refuse_bind_eq_ok] at h
  obtain ⟨_, _, _, _, run, hrun, hlegacy, _⟩ := h
  rw [isObjectiveRun, get_eq_ok.mp hrun]
  simpa using hlegacy

theorem createAutomation_emits {data : AutomationCreate} :
    Emits P (createAutomation env actor data) := by
  refine emits_of_sound fun s hs => ?_
  refine .ask fun _ hok => ?_
  have hlegacy := validateAutomation_ok hok
  refine .read ?_
  refine .bind (ensures_create_effects .ruleCreated (hr _ rfl) fun hobj => ?_) ?_
  · rw [hlegacy] at hobj
    cases hobj
  rintro rule s₁ ⟨hrule, h₁, hrw⟩
  have hknows : s₁.Knows rule := by
    rw [hrule]
    exact knows_of_mem (mem_of_find? hrw.stored)
  exact .bind (replenish_ensures (queueing_of_routine hr) (h₁.sound hs) hknows) fun _ _ h =>
    .pure (h₁.trans h)

end

section

variable (hr : ∀ ev : Event, ev.isRoutine → P ev)
include hr

theorem retirePrelaunchContexts_emits {execution : Execution} :
    Emits P (retirePrelaunchContexts env execution) := by
  refine emits_updateWhere_other rfl (hr _ rfl) (fun _ _ h => h) fun t t' h => ?_
  simp [conflicts, touch, ThreadStatus.isLive] at h

/-- A confirmed stop releases the reservations of its execution. -/
theorem confirmHostStopped_emits {machineFenced : Bool} {evidence : String}
    (hstop : P (.stopConfirmed id false)) :
    Emits P (confirmHostStopped env actor id expected machineFenced note evidence) := by
  refine emits_of_sound fun s hs => ?_
  refine .ask fun execution _ => ?_
  refine .bind (ensures_change_effects (.stopConfirmed id false) hstop fun old hold => ?_) ?_
  · exact ⟨⟨rfl, rfl, rfl, rfl, rfl, rfl, fun h => h⟩, (key_of_find? hold), rfl,
      fun _ => rfl⟩
  rintro e s₁ ⟨h₁, hrw, old, _, hrow⟩
  have hrw : Rewrites .execution id e s s₁ := hrw
  refine .bind ((interruptRequests_emits (P := fun ev => ∃ t ht, ev = .other t ht)
    fun t ht => ⟨t, ht, rfl⟩).from (h₁.sound hs)) fun _ s₂ h₂ => ?_
  have hconf : ∀ e', (s₂ .execution).find? id = some e' → e'.stopConfirmedAt.isSome := by
    intro e' he'
    rw [h₂.frame (by rintro _ ⟨t, ht, rfl⟩ rfl; cases ht)] at he'
    cases hrw.stored.symm.trans he'
    rw [hrow]
    rfl
  have h₂ : Effects P s s₂ := h₁.trans (h₂.mono (by rintro _ ⟨_, _, rfl⟩; exact hr _ rfl))
  refine .bind (releaseClaims_ensures (h₂.sound hs) (hr _ rfl) hconf) fun _ s₃ h₃ => ?_
  have h₃ : Effects P s s₃ := h₂.trans h₃
  exact (retirePrelaunchContexts_emits hr).after h₃ hs

omit hr in
/-- The context a command acts on is stored. -/
theorem targetThread_ok (h : s.targetThread env actor id expected = .ok thread) :
    (s .providerThread).find? id = some thread := by
  simp only [targetThread, check_bind_eq_ok, check_pure_eq_ok] at h
  obtain ⟨_, hthread, _, _, _, _, _, _, rfl⟩ := h
  exact get_eq_ok.mp hthread

omit hr in
/-- What `recover_context` has checked: its assignment has no live execution. -/
theorem validateRecoverContext_ok
    (h : s.validateRecoverContext env actor id expected note = .ok (thread, item, run)) :
    (s .providerThread).find? id = some thread ∧ item.id = thread.assignmentId
      ∧ (s .assignment).find? item.id = some item ∧ (s .run).find? item.runId = some run
      ∧ item.status.isActive = false := by
  rw [validateRecoverContext] at h
  simp only [check_bind_eq_ok, ite_refuse_bind_eq_ok, check_pure_eq_ok] at h
  obtain ⟨_, hthread, _, _, _, _, _, _, hitem, _, hrun, _, _, _, _, heq⟩ := h
  cases heq
  obtain ⟨_, hid⟩ := find?_eq_some.mp (get_eq_ok.mp hitem)
  have hid : item.id = thread.assignmentId := hid
  refine ⟨targetThread_ok hthread, hid, ?_, get_eq_ok.mp hrun, ?_⟩
  · rw [hid]
    exact get_eq_ok.mp hitem
  · cases hstatus : item.status <;> simp_all [AssignmentStatus.isActive]

theorem recoverContext_ensures (hrevive : ∀ thread, (s .providerThread).find? id = some thread →
      P (revivingEvent s thread.assignmentId true)) :
    EmitsFrom P s (recoverContext env actor id expected note) := by
  refine .ask fun ⟨thread, item, run⟩ hok => ?_
  obtain ⟨hthread, hid, hitem, hrun, hdown⟩ := validateRecoverContext_ok hok
  refine .bind
    (ensures_change_effects (.other .providerThread rfl) (hr _ rfl) fun _ _ => trivial) ?_
  rintro _ _ ⟨h₁, hrw₁, _⟩
  refine .read ?_
  refine .bind (ensures_create_effects (.other .providerThread rfl) (hr _ rfl) trivial) ?_
  rintro _ s₂ ⟨_, h₂, hrw₂⟩
  have h₂ : Effects P s s₂ := h₁.trans h₂
  have hframe : ∀ t, t ≠ .providerThread → s₂ t = s t := fun t ht =>
    (hrw₂.frame t ht).trans (hrw₁.frame t ht)
  refine .bind (revive_ensures (hid ▸ hrevive thread hthread) hitem (hframe _ (by decide))
    (hframe _ (by decide)) hdown (fun hobj => ?_) ⟨rfl, rfl, rfl, rfl, rfl⟩ rfl rfl rfl rfl)
    fun _ _ h => .pure (h₂.trans h)
  have horch : run.orchestration = .objective := by
    rw [isObjectiveRun, hframe _ (by decide), hrun] at hobj
    simpa using hobj
  simp [horch]

theorem retireWorkspace_emits {id : WorkspaceId} : Emits P (retireWorkspace env actor id) := by
  refine .ask fun _ => .bind ?_ fun _ => ?_
  · refine emits_updateWhere_other rfl (hr _ rfl) (fun _ _ h => h) fun t t' h => ?_
    simp [conflicts, touch, ThreadStatus.isLive] at h
  · exact .done (emits_change_other rfl (hr _ rfl))

omit hr in
theorem resetCircuit_emits (hreset : P (.limitReset id)) :
    Emits P (resetCircuit env actor id note) := by
  refine .ask fun _ => .done ?_
  exact emits_change (.limitReset id) hreset fun _ _ _ h => ⟨(key_of_find? h), rfl, rfl, rfl⟩

theorem changeObligation_emits {id : ObligationId} {f : Obligation → Obligation}
    {hf : ∀ o, key .obligation (f o) = key .obligation o}
    (h : ∀ s o, Event.Changes .obligationChanged s o (touch env.now .obligation (f o))) :
    Emits P (do let _ ← change env .obligation id (some expected) f hf) :=
  .done (emits_change .obligationChanged (hr _ rfl) fun s o _ _ => h s o)

theorem commentObligation_emits {id : ObligationId} :
    Emits P (commentObligation env actor id expected) :=
  .ask fun _ => changeObligation_emits hr fun _ _ =>
    ⟨rfl, fun h => h, fun h => .inl ⟨h, rfl⟩⟩

theorem editObligation_emits {id : ObligationId} {description : String}
    {kind : Option ObligationKind} :
    Emits P (editObligation env actor id expected description kind) :=
  .ask fun _ => .guard <|
    changeObligation_emits hr fun _ _ => ⟨rfl, fun h => h, fun h => .inl ⟨h, rfl⟩⟩

omit hr in
theorem reopenObligation_emits {id : ObligationId} (hopen : P (.obligationReopened id)) :
    Emits P (reopenObligation env actor id expected note) := by
  refine .ask fun _ => .done ?_
  exact emits_change (.obligationReopened id) hopen fun _ _ _ h =>
    ⟨rfl, (key_of_find? h), rfl⟩

end

section

variable (hr : ∀ ev : Event, ev.isRoutine → P ev)
include hr

theorem changeRun_emits {f : Run → Run} {hf : ∀ r, key .run (f r) = key .run r}
    (h : ∀ s r, Event.Changes .runChanged s r (touch env.now .run (f r))) :
    Emits P (do let _ ← change env .run id (some expected) f hf) :=
  .done (emits_change .runChanged (hr _ rfl) fun s r _ _ => h s r)

theorem setRunBudget_emits {maxAssignments : Option Nat} :
    Emits P (setRunBudget env actor id expected maxAssignments) :=
  .ask fun _ => .ask fun _ =>
    changeRun_emits hr fun _ _ => ⟨⟨rfl, rfl, rfl⟩, rfl, rfl, rfl, rfl, fun h => h⟩

theorem extendRunBudget_emits {additional : Nat} :
    Emits P (extendRunBudget env actor id expected additional) := by
  refine .ask fun _ => .ask fun _ => ?_
  split
  · exact .raise
  · exact changeRun_emits hr fun _ _ => ⟨⟨rfl, rfl, rfl⟩, rfl, rfl, rfl, rfl, fun h => h⟩

theorem adoptRoadmapSnapshot_emits {snapshotId : Id} :
    Emits P (adoptRoadmapSnapshot env actor id expected snapshotId) :=
  .ask fun _ =>
    changeRun_emits hr fun _ _ => ⟨⟨rfl, rfl, rfl⟩, rfl, rfl, rfl, rfl, fun h => h⟩

theorem queueRepair_emits {data : AssignmentCreate} :
    Emits P (queueRepair env actor id expected data note) := by
  refine .ask fun _ => .guard ?_
  refine .guard ?_
  exact .done (assignment_emits (queueing_of_routine hr))

end

/-- The events a command may emit beyond the routine ones, from the state it starts in. -/
def Command.Allows (s : DB) (ev : Event) : Command → Prop
  | .mission .reopen id _ => ev = .missionOpened id true true
  | .run .reopen id _ => ev = .runReopened id ∨ ∃ r m, (s .run).find? id = some r
      ∧ (s .mission).find? r.missionId = some m ∧ ev = reopeningEvent s m
  | .run .cancel _ _ | .run .drain _ _ =>
    (∃ id, ev = .assignmentLost id) ∨ ∃ id, ev = .obligationReopened id
  | .acceptPhase id _ _ _ => ev = .phaseAccepted id ∨ (∃ id, ev = .assignmentLost id)
      ∨ ∃ a ∈ s .assignment, a.recurrenceKey = some (.plannerNext id)
        ∧ a.status = .pending ∧ ev = closingEvent s a.missionId
  | .cancelAssignment id _ => ev = .assignmentLost id ∨ ∃ id, ev = .obligationReopened id
  | .retryAssignment id => ev = revivingEvent s id true
  | .resumeAssignment id _ => ev = revivingEvent s id false
  | .resumeSession id _ => ev = .assignmentResumed id
  | .checkpointAssignment id _ condition _ => ev = .assignmentConditioned id condition none
      ∧ ∃ projectId, s.validateCondition projectId condition (some id) = .ok ()
  | .updateAssignment id data => ∃ a condition, (s .assignment).find? id = some a
      ∧ data.startCondition.getD a.startCondition = condition
      ∧ ev = .assignmentConditioned id condition data.functions
      ∧ ∃ projectId, s.validateCondition projectId condition (some id) = .ok ()
  | .deferAutomation id data => (data.enabled = some true ∧ ev = .ruleEnabled id)
      ∨ ∃ condition, data.startCondition = some condition ∧ ∃ a ∈ s.queuedOccurrences id,
        ev = .assignmentConditioned a.id condition none
          ∧ ∃ projectId, s.validateCondition projectId condition (some a.id) = .ok ()
  | .confirmHostStopped id _ _ _ => ev = .stopConfirmed id false
  | .recoverContext id _ => ∃ thread, (s .providerThread).find? id = some thread
      ∧ ev = revivingEvent s thread.assignmentId true
  | .reopenObligation id _ => ev = .obligationReopened id
  | .resetCircuit id _ => ev = .limitReset id
  | .requestReview id _ _ => ev = .demandOpened (some id) ∨ ev = .demandObserved (some id)
  | .settleReview id generation _ => ev = .demandSettled id generation
  | _ => False

theorem targetRun_ok (h : s.targetRun env actor id expected role = .ok run) :
    (s .run).find? id = some run := by
  simp only [targetRun, check_bind_eq_ok, check_pure_eq_ok] at h
  obtain ⟨_, hrun, _, _, _, _, _, _, rfl⟩ := h
  exact get_eq_ok.mp hrun

theorem onRun_ensures {f : Run → Tx Unit} {Q : Unit → DB → Prop}
    (hf : ∀ run, (s .run).find? run.id = some run → run.id = id → Ensures (f run) s Q) :
    Ensures (onRun env actor id expected role f) s Q := by
  refine .ask fun run hrun => ?_
  have hfind := targetRun_ok hrun
  obtain ⟨_, rfl⟩ := find?_eq_some.mp hfind
  exact hf run hfind rfl

theorem execute_ensures {c : Command} (hs : Sound s) (hr : ∀ ev : Event, ev.isRoutine → P ev)
    (ha : ∀ ev, c.Allows s ev → P ev) : EmitsFrom P s (execute env actor expected c) := by
  have hq := queueing_of_routine hr
  refine .guard fun _ => ?_
  cases c with
  | mission command id note =>
    exact (missionCommand_emits hq (by rintro rfl; exact ha _ rfl)).from hs
  | run command id note =>
    refine onRun_ensures fun run hrun hid => ?_
    refine .bind (runCommand_ensures hr hs (fun hstop => ?_) (fun _ => hrun) fun hreopen => ?_)
      fun _ _ h => .pure h
    · rcases hstop with rfl | rfl <;>
        exact ⟨fun id => ha _ (.inl ⟨id, rfl⟩), fun id => ha _ (.inr ⟨id, rfl⟩)⟩
    · subst hreopen
      exact ⟨ha _ (.inl (by rw [hid])), fun r m hr' hm => ha _ (.inr ⟨r, m, hid ▸ hr', hm, rfl⟩)⟩
  | acceptPhase id note evidence _ =>
    refine .ask fun _ _ => onRun_ensures fun run hrun hid => ?_
    subst hid
    refine .bind (acceptPhase_ensures hrun (ha _ (.inl rfl)) (fun id => ?_) ?_)
      fun _ _ h => .pure h
    · exact ha _ (.inr (.inl ⟨id, rfl⟩))
    · exact fun a hmem hkey hpending => ha _ (.inr (.inr ⟨a, hmem, hkey, hpending, rfl⟩))
  | requestMaintenance id note evidence _ =>
    refine Emits.from (.ask fun _ => .ask fun _ => ?_) hs
    exact .done (requestMaintenance_emits hq)
  | setRunBudget => exact (setRunBudget_emits hr).from hs
  | extendRunBudget => exact (extendRunBudget_emits hr).from hs
  | queueRepair => exact (queueRepair_emits hr).from hs
  | adoptRoadmapSnapshot => exact (adoptRoadmapSnapshot_emits hr).from hs
  | cancelAssignment id note =>
    refine .ask fun item htarget => ?_
    have hitem := targetAssignment_ok htarget
    obtain ⟨_, rfl⟩ := find?_eq_some.mp hitem
    refine .bind (cancel_ensures hr hs (ha _ (.inl rfl)) (fun id => ha _ (.inr ⟨id, rfl⟩))
      ⟨item, hitem, refl item⟩) fun _ _ h => .pure h
  | retryAssignment => exact retryAssignment_ensures hr hs (ha _ rfl)
  | resumeAssignment => exact resumeAssignment_ensures hr hs (ha _ rfl)
  | resumeSession => exact (resumeSession_emits (ha _ rfl)).from hs
  | checkpointAssignment =>
    exact checkpointAssignment_ensures fun projectId h => ha _ ⟨rfl, projectId, h⟩
  | updateAssignment =>
    exact updateAssignment_ensures fun projectId a hfind h =>
      ha _ ⟨a, _, hfind, rfl, rfl, projectId, h⟩
  | move => exact (moveAssignment_emits hr).from hs
  | deferAutomation id _ =>
    refine deferAutomation_ensures hr hs (fun h => ha _ (.inl ⟨h, rfl⟩))
      fun c hc projectId a hmem h => ?_
    exact ha _ (.inr ⟨c, hc, a, hmem, rfl, projectId, h⟩)
  | confirmHostStopped id => exact (confirmHostStopped_emits hr (ha _ rfl)).from hs
  | recoverContext =>
    exact recoverContext_ensures hr fun thread h => ha _ ⟨thread, h, rfl⟩
  | commentObligation => exact (commentObligation_emits hr).from hs
  | editObligation => exact (editObligation_emits hr).from hs
  | reopenObligation => exact (reopenObligation_emits (ha _ rfl)).from hs
  | requestReview =>
    exact .bind (request_ensures hs (ha _ (.inl rfl)) (ha _ (.inr rfl))) fun _ _ h => .pure h
  | settleReview => exact Emits.from (.ask fun _ => settle_emits (ha _ rfl)) hs
  | resetCircuit => exact (resetCircuit_emits (ha _ rfl)).from hs
  | retireWorkspace => exact (retireWorkspace_emits hr).from hs

end

/-! ## Operations -/

/-- The events an operation may emit beyond the routine ones, from the state it starts in. -/
def Operation.Allows (env : Env) (s : DB) (ev : Event) : Operation → Prop
  | .updateMission id data => ev = .missionRevised id (s.keepsOwner id data)
  | .startRun data _ => ev = .runCreated data.orchestration ∨ ev = .limitAttached
  | .createCatalog (.hostHarness _ _) => ev = .slotCreated ∨ ev = .limitAttached
  | .configureHostHarness _ _ => ev = .slotConfigured ∨ ev = .limitDetached ∨ ev = .limitAttached
      ∨ ev = .claimAttached
  | .command _ c => c.Allows s ev
  | .claim _ _ => (∃ id, ev = .assignmentAdmitted id) ∨ ev = .executionAdmitted
      ∨ ev = .claimAdmitted
  | .handle operation => (∃ receipt, operation.payload = .executionFinished receipt)
      ∧ ((∃ ended, ev = .stopConfirmed operation.executionId ended)
        ∨ ev = .executionEnded operation.executionId
        ∨ (ev.isSettling ∧ ∀ id, ev ≠ .executionEnded id))
  | .syncItem item => ev = .itemRecorded ∨ ev = .itemSynced item.id
  | .tick => ev.Ticks env s
  | _ => False

/-- The events of a step. -/
def Label.Emits (l : Label) (s : DB) (ev : Event) : Prop :=
  ev.isRoutine ∨ l.operation.Allows l.env s ev

/-- The operations that events come from, where only some of them allow it. -/
def Event.ComesFrom (env : Env) (s : DB) (op : Operation) : Event → Prop
  | .missionRevised id solelyOwned => ∃ data, op = .updateMission id data
      ∧ solelyOwned = s.keepsOwner id data
  | .missionOpened id parentOpen roomLeft => (parentOpen ∧ roomLeft)
      ∨ ∃ expected runId note r m, op = .command expected (.run .reopen runId note)
        ∧ (s .run).find? runId = some r ∧ (s .mission).find? r.missionId = some m
        ∧ .missionOpened id parentOpen roomLeft = reopeningEvent s m
  | .missionClosed id childless => childless
      ∨ ∃ expected runId note evidence nextPhase, ∃ a ∈ s .assignment,
        op = .command expected (.acceptPhase runId note evidence nextPhase)
          ∧ a.recurrenceKey = some (.plannerNext runId) ∧ a.status = .pending
          ∧ .missionClosed id childless = closingEvent s a.missionId
  | .runCreated orchestration => ∃ data condition, op = .startRun data condition
      ∧ orchestration = data.orchestration
  | .runReopened id => ∃ expected note, op = .command expected (.run .reopen id note)
  | .phaseAdvanced env' _ => env' = env
  | .ruleEnabled id => ∃ expected data, op = .command expected (.deferAutomation id data)
      ∧ data.enabled = some true
  | .ruleRestarted _ runId => op = .tick ∧ s.awaitsPhase runId
  | .assignmentConditioned id _ (some functions) => ∃ expected data a,
      op = .command expected (.updateAssignment id data) ∧ data.functions = some functions
        ∧ (s .assignment).find? id = some a
  | .assignmentRevived id soleOwner _ => soleOwner = s.mayRevive id ∧ ∃ expected c,
      op = .command expected c ∧ (c = .retryAssignment id ∨ (∃ note, c = .resumeAssignment id note)
        ∨ ∃ threadId note thread, c = .recoverContext threadId note
          ∧ (s .providerThread).find? threadId = some thread ∧ thread.assignmentId = id)
  | .stopConfirmed id _ => (∃ expected machineFenced note evidence,
      op = .command expected (.confirmHostStopped id machineFenced note evidence))
      ∨ ∃ operation receipt, op = .handle operation ∧ operation.executionId = id
        ∧ operation.payload = .executionFinished receipt
  | .slotConfigured => ∃ id data, op = .configureHostHarness id data
  | .itemRecorded => ∃ item, op = .syncItem item
  | .itemSynced id => ∃ item, op = .syncItem item ∧ item.id = id
  | .demandOpened (some id) | .demandObserved (some id) =>
    ∃ expected note runId, op = .command expected (.requestReview id note runId)
  | .demandSettled id n => ∃ expected note, op = .command expected (.settleReview id n note)
  | _ => True

theorem Event.comesFrom_of_isRoutine (h : ev.isRoutine) : ev.ComesFrom env s op := by
  cases ev with
  | missionClosed id childless =>
    cases childless with
    | true => exact .inl rfl
    | false => cases h
  | demandOpened requested | demandObserved requested => cases requested <;> trivial
  | _ => trivial

theorem Operation.Allows.comesFrom (h : op.Allows env s ev) : ev.ComesFrom env s op := by
  cases op with
  | updateMission id data =>
    cases h
    exact ⟨data, rfl, rfl⟩
  | startRun data condition =>
    rcases h with rfl | rfl
    · exact ⟨data, condition, rfl, rfl⟩
    · trivial
  | createCatalog record =>
    cases record with
    | hostHarness => rcases h with rfl | rfl <;> trivial
    | _ => cases h
  | configureHostHarness id data =>
    rcases h with rfl | rfl | rfl | rfl
    · exact ⟨id, data, rfl⟩
    all_goals trivial
  | command expected c =>
    simp only [Operation.Allows, Command.Allows.eq_def] at h
    split at h
    · subst h
      exact .inl ⟨rfl, rfl⟩
    · rcases h with rfl | ⟨r, m, hr, hm, hev⟩
      · exact ⟨expected, _, rfl⟩
      · cases hev
        exact .inr ⟨expected, _, _, r, m, rfl, hr, hm, rfl⟩
    · rcases h with ⟨_, rfl⟩ | ⟨_, rfl⟩ <;> trivial
    · rcases h with ⟨_, rfl⟩ | ⟨_, rfl⟩ <;> trivial
    · rcases h with rfl | ⟨_, rfl⟩ | ⟨a, ha, hkey, hstatus, hev⟩
      · trivial
      · trivial
      · cases hev
        exact .inr ⟨expected, _, _, _, _, a, ha, rfl, hkey, hstatus, rfl⟩
    · rcases h with rfl | ⟨_, rfl⟩ <;> trivial
    · subst h
      exact ⟨rfl, expected, _, rfl, .inl rfl⟩
    · subst h
      exact ⟨rfl, expected, _, rfl, .inr (.inl ⟨_, rfl⟩)⟩
    · subst h
      trivial
    · obtain ⟨rfl, _⟩ := h
      trivial
    · rename_i data
      obtain ⟨a, condition, ha, _, rfl, _⟩ := h
      cases hf : data.functions with
      | none => trivial
      | some functions => exact ⟨expected, data, a, rfl, hf, ha⟩
    · rcases h with ⟨henabled, rfl⟩ | ⟨_, _, _, _, rfl, _⟩
      · exact ⟨expected, _, rfl, henabled⟩
      · trivial
    · subst h
      exact .inl ⟨expected, _, _, _, rfl⟩
    · obtain ⟨thread, hthread, rfl⟩ := h
      exact ⟨rfl, expected, _, rfl, .inr (.inr ⟨_, _, thread, rfl, hthread, rfl⟩)⟩
    · subst h
      trivial
    · subst h
      trivial
    · rcases h with rfl | rfl <;> exact ⟨expected, _, _, rfl⟩
    · subst h
      exact ⟨expected, _, rfl⟩
    · cases h
  | claim => rcases h with ⟨_, rfl⟩ | rfl | rfl <;> trivial
  | handle operation =>
    obtain ⟨⟨receipt, hpayload⟩, ⟨_, rfl⟩ | rfl | ⟨hset, _⟩⟩ := h
    · exact .inr ⟨operation, receipt, rfl, rfl, hpayload⟩
    · trivial
    · cases ev <;> trivial
  | syncItem item =>
    rcases h with rfl | rfl
    · exact ⟨item, rfl⟩
    · exact ⟨item, rfl, rfl⟩
  | tick =>
    rcases h with hr | hset | ⟨_, rfl⟩ | ⟨_, _, rfl, hawaits⟩
    · exact Event.comesFrom_of_isRoutine hr
    · cases ev <;> trivial
    · rfl
    · exact ⟨rfl, hawaits⟩
  | _ => cases h

theorem Label.Emits.comesFrom (h : l.Emits s ev) : ev.ComesFrom l.env s l.operation :=
  h.elim Event.comesFrom_of_isRoutine Operation.Allows.comesFrom

theorem operation_ensures (hs : Sound s) (hr : ∀ ev : Event, ev.isRoutine → P ev)
    (ha : ∀ ev, op.Allows env s ev → P ev) : EmitsFrom P s (op.run env actor) := by
  have hq := queueing_of_routine hr
  have hdone : ∀ {α : Type} {f : Tx α}, Emits P f → EmitsFrom P s (do let _ ← f) :=
    fun hf => Emits.from (.done hf) hs
  cases op with
  | createAdmin => exact hdone (createAdmin_emits hr)
  | project => exact hdone (project_emits hr)
  | grantAccess => exact (grantAccess_emits hr).from hs
  | createCatalog _ =>
    refine (createCatalog_emits hr fun row _ h => ?_).from hs
    subst h
    exact ⟨ha _ (.inl rfl), ha _ (.inr rfl)⟩
  | updateCatalog => exact (updateCatalog_emits hr).from hs
  | configureHostHarness =>
    exact (configureHostHarness_emits (ha _ (.inl rfl)) (ha _ (.inr (.inl rfl)))
      (ha _ (.inr (.inr (.inl rfl)))) (ha _ (.inr (.inr (.inr rfl))))).from hs
  | hostHeartbeat => exact (hostHeartbeat_emits hr).from hs
  | syncItem => exact (syncItem_emits (ha _ (.inl rfl)) (ha _ (.inr rfl))).from hs
  | classify => exact (classify_emits hr).from hs
  | mission => exact hdone (mission_emits hq)
  | updateMission id data =>
    exact .bind (updateMission_ensures hq (ha _ rfl)) fun _ _ h => .pure (h hs)
  | startRun data _ => exact hdone (startRun_emits hr (ha _ (.inl rfl)) (ha _ (.inr rfl)))
  | assignment => exact hdone (assignment_emits hq)
  | automation => exact (createAutomation_emits hr).from hs
  | obligation => exact hdone (obligation_emits hq)
  | resolveObligation => exact hdone (resolveObligation_emits hq)
  | command _ c => exact execute_ensures hs hr ha
  | prepareReview => exact (prepareReview_emits hr).from hs
  | attachReview => exact (attachReview_emits hr).from hs
  | cancelReview => exact (cancelReview_emits hr).from hs
  | claim =>
    exact hdone (claim_emits (fun ev h _ => hr ev h) (fun id => ha _ (.inl ⟨id, rfl⟩))
      (ha _ (.inr (.inl rfl))) (ha _ (.inr (.inr rfl))))
  | heartbeat => exact hdone (heartbeat_emits hr)
  | handle _ =>
    refine (handle_emits hr fun receipt hpayload =>
      ⟨fun ended => ?_, ?_, fun ev hset hend => ?_⟩).from hs
    · exact ha _ ⟨⟨receipt, hpayload⟩, .inl ⟨ended, rfl⟩⟩
    · exact ha _ ⟨⟨receipt, hpayload⟩, .inr (.inl rfl)⟩
    · exact ha _ ⟨⟨receipt, hpayload⟩, .inr (.inr ⟨hset, hend⟩)⟩
  | tick => exact (tick_ensures hs).mono fun _ _ h => h.mono ha

/-- A step of the control plane is made of writes, each with one of the events of the step. -/
theorem step_effects {s' : DB} (hs : Sound s) (h : controlPlane.step s l s') :
    Effects (l.Emits s) s s' :=
  operation_ensures hs (fun _ => .inl) (fun _ => .inr) _ _ h

theorem sound_empty : Sound (Database.empty key) where
  consistent := consistent_empty
  ruled _ h := by cases h
  owned _ h := by cases h
  planners _ h := by cases h
  keyed _ h := by cases h

/-- Every reachable database is sound. -/
theorem sound_of_reachable (h : controlPlane.ReachableBy guard s) : Sound s :=
  h.invariant (by rintro _ rfl; exact sound_empty) fun _ _ _ hs _ hstep =>
    (step_effects hs hstep).sound hs

/-- Every reachable database is consistent. -/
theorem consistent_of_reachable (h : controlPlane.ReachableBy guard s) : Consistent s :=
  (sound_of_reachable h).consistent

/-- A step keeps what every one of its events keeps, from sound states. -/
theorem step_preserves {s' : DB}
    (hevent : ∀ ev, l.Emits s ev → ∀ s₁ s₂, Sound s₁ → Effect ev s₁ s₂ → I s₁ → I s₂)
    (hs : Sound s ∧ I s) (h : controlPlane.step s l s') : Sound s' ∧ I s' := by
  refine Moves.preserves (I := fun s => Sound s ∧ I s) ?_ (step_effects hs.1 h) hs
  exact fun ev s₁ s₂ hev he ⟨hs₁, h₁⟩ => ⟨he.sound hs₁, hevent ev hev s₁ s₂ hs₁ he h₁⟩

/-- What every event of a guarded step keeps, from sound states, holds in every state
reached. -/
theorem invariant_of_events (hinit : I (Database.empty key))
    (hevent : ∀ s l, guard s l → ∀ ev, l.Emits s ev → ∀ s₁ s₂, Sound s₁ → Effect ev s₁ s₂ →
      I s₁ → I s₂) (h : controlPlane.ReachableBy guard s) : I s := by
  refine (h.invariant (I := fun s => Sound s ∧ I s) ?_ ?_).2
  · rintro _ rfl
    exact ⟨sound_empty, hinit⟩
  · exact fun s l s' hI hl hstep => step_preserves (hevent s l hl) hI hstep

end Horizon
