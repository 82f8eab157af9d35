import Horizon.Missions.Service
import Horizon.Missions.Scopes
import Horizon.Persistence.Effects

/-!
# What the mission service writes

The events emitted by creating and revising missions, queueing assignments and
recording obligations.  The checks of an operation are read off as the guard of the
event they precede.
-/

namespace Horizon

open Transaction Table List DB Database

variable {resolution : Resolution} {env : Env} {automationId harness executionId : Option Id}
  {id : ObligationId} {old m : Mission} {run : Run} {name : Category} {scope : MissionScope}
  {note : Option String} {actor : Actor} {parent : Option Mission} {projectId assignmentId : Id}
  {criteria : List String} {data : AssignmentCreate} {repair internal : Bool} {s : DB}
  {kind : ObligationKind} {description : String}

/-! ## What the checks establish -/

theorem sameProject_ok {α : Type} {project : α → Id} {record : Except Error α} {a : α}
    (h : sameProject project record projectId = .ok a) : record = .ok a := by
  simp only [sameProject, check_bind_eq_ok] at h
  obtain ⟨row, hrow, h⟩ := h
  by_cases hp : project row = projectId
  · rw [if_pos hp, check_pure_eq_ok] at h
    rw [hrow, h]
  · simp [hp] at h

section

variable {mission : Mission} {db : DB} {now : Instant}

theorem parentForChild_ok {parentId : Option Id} {expected : Option Nat}
    (h : db.parentForChild projectId parentId expected = .ok parent) :
    (parentId = none ∧ parent = none) ∨ ∃ p m, parentId = some p ∧ parent = some m
      ∧ (db .mission).find? p = some m ∧ m.status = .opened
      ∧ (db.openChildren p).length < m.maxOpenChildren := by
  cases parentId with
  | none =>
    by_cases he : expected.isSome
    · simp [parentForChild, he] at h
    · simp only [parentForChild, he] at h
      exact .inl ⟨rfl, (check_pure_eq_ok.mp h).symm⟩
  | some p =>
    simp only [parentForChild, check_bind_eq_ok, ite_refuse_eq_ok, check_pure_eq_ok] at h
    obtain ⟨m, hm, hopen, _, _, _, rfl⟩ := h
    exact .inr ⟨p, m, rfl, rfl, get_eq_ok.mp (sameProject_ok hm), by simpa using hopen, by omega⟩

theorem validateChild_ok {parent : Mission} {scope : Option MissionScope} {effective : MissionScope}
    (h : validateChild parent scope criteria note = .ok effective) :
    effective = normalizedScope (scope.getD parent.scope)
      ∧ scopeContains parent.scope effective := by
  simp only [validateChild, ite_refuse_eq_ok, check_pure_eq_ok] at h
  obtain ⟨hc, _, _, rfl⟩ := h
  exact ⟨rfl, by simpa using hc⟩

theorem validateMission_ok {data : MissionCreate}
    (h : db.validateMission now actor data = .ok (parent, scope)) :
    (data.parentId = none ∧ parent = none) ∨ ∃ p m, data.parentId = some p ∧ parent = some m
      ∧ (db .mission).find? p = some m ∧ m.status = .opened
      ∧ (db.openChildren p).length < m.maxOpenChildren ∧ scopeContains m.scope scope := by
  simp only [validateMission, check_bind_eq_ok, ite_refuse_eq_ok, check_pure_eq_ok] at h
  obtain ⟨_, _, _, _, hparent, _, hscope, _, _, _, _, _, _, _, _, _, _, _, _, heq⟩ := h
  obtain ⟨rfl, rfl⟩ := Prod.mk.inj heq
  rcases parentForChild_ok hparent with h | ⟨p, m, hp, rfl, hfind, hopen, hroom⟩
  · exact .inl h
  · exact .inr ⟨p, m, hp, rfl, hfind, hopen, hroom, (validateChild_ok hscope).2⟩

/-- A mission that passed the checks of `Service.mission` has its place under its parent. -/
theorem validateMission_placed {data : MissionCreate}
    (h : db.validateMission now actor data = .ok (parent, m.scope))
    (hp : m.parentId = data.parentId) :
    db.parentOpen m ∧ db.roomLeft m ∧ db.withinParent m := by
  rcases validateMission_ok h with ⟨hnone, _⟩ | ⟨p, row, hsome, _, hfind, hopen, _, hscope⟩
  · simp [parentOpen, roomLeft, withinParent, hp, hnone]
  · have hle := length_filter_le (fun c : Mission => c.id != m.id) (db.openChildren p)
    refine ⟨?_, ?_, ?_⟩
    · simp [parentOpen, hp, hsome, hfind, hopen]
    · simp only [roomLeft, hp, hsome, hfind, Option.all_some, Option.any_some, decide_eq_true_eq]
      omega
    · simp [withinParent, hp, hsome, hfind, hscope]

theorem parentOf_ok (h : db.parentOf m = .ok parent) :
    (m.parentId = none ∧ parent = none) ∨ ∃ p row, m.parentId = some p ∧ parent = some row
      ∧ (db .mission).find? p = some row := by
  cases hp : m.parentId with
  | none =>
    simp only [parentOf, hp, check_pure_eq_ok] at h
    exact .inl ⟨rfl, h.symm⟩
  | some p =>
    simp only [parentOf, hp, check_map_eq_ok] at h
    obtain ⟨row, hrow, rfl⟩ := h
    exact .inr ⟨p, row, rfl, rfl, get_eq_ok.mp hrow⟩

/-- Where an update places a mission: under its old parent, or under a checked new one. -/
theorem validatePlacement_ok {data : MissionUpdate} {oldParent : Option Mission}
    (hold : db.parentOf old = .ok oldParent)
    (h : db.validatePlacement now actor old data oldParent = .ok parent) :
    ((data.parentId.getD old.parentId = none ∧ parent = none)
        ∨ ∃ p row, data.parentId.getD old.parentId = some p ∧ parent = some row
          ∧ (db .mission).find? p = some row)
      ∧ (data.parentId.getD old.parentId = old.parentId ∨
        ∀ p row, data.parentId.getD old.parentId = some p → (db .mission).find? p = some row →
          row.status = .opened ∧ (db.openChildren p).length < row.maxOpenChildren
            ∧ db.containsMission old.id p = false) := by
  by_cases hmoved : data.parentId.any (· ≠ old.parentId)
  · obtain ⟨target, htarget, _⟩ := (Option.any_eq_true _ _).mp hmoved
    simp only [validatePlacement, hmoved, if_true, check_bind_eq_ok, check_pure_eq_ok] at h
    obtain ⟨_, _, _, hcycle, row, hparent, _, _, rfl⟩ := h
    simp only [validateReparent, ite_refuse_eq_ok, htarget, Option.getD_some] at hcycle hparent ⊢
    rcases parentForChild_ok hparent with ⟨rfl, rfl⟩ | ⟨p, m, rfl, rfl, hfind, hopen, hroom⟩
    · exact ⟨.inl ⟨rfl, rfl⟩, .inr fun _ _ h => by cases h⟩
    · refine ⟨.inr ⟨p, m, rfl, rfl, hfind⟩, .inr ?_⟩
      rintro _ _ ⟨⟩ hfind'
      rw [hfind] at hfind'
      obtain rfl := Option.some.inj hfind'
      exact ⟨hopen, hroom, by simpa using hcycle.1⟩
  · have hsame : data.parentId.getD old.parentId = old.parentId := by
      cases hd : data.parentId with
      | none => rfl
      | some target => simpa [hd] using hmoved
    rw [validatePlacement, if_neg hmoved, ite_refuse_eq_ok, check_pure_eq_ok] at h
    obtain ⟨_, rfl⟩ := h
    exact ⟨by rw [hsame]; exact parentOf_ok hold, .inl hsame⟩

/-- The scope an update leaves a mission with lies inside its parent's, and is the old one
or covers every child. -/
theorem validateScope_ok {data : MissionUpdate}
    (hscope : scopeUnder parent (normalizedScope (data.scope.getD old.scope)) criteria note
      = .ok scope) (hrevision : db.validateScopeRevision old.id data scope = .ok ()) :
    (∀ row, parent = some row →
        scopeContains row.scope (if data.scope.isSome then scope else old.scope))
      ∧ ((if data.scope.isSome then scope else old.scope) = old.scope ∨
        ∀ child ∈ db .mission, child.parentId = some old.id →
          scopeContains (if data.scope.isSome then scope else old.scope) child.scope) := by
  cases hd : data.scope with
  | none =>
    simp only [Option.isSome_none, Bool.false_eq_true, if_false, true_or, and_true]
    rintro row rfl
    obtain ⟨heff, hc⟩ := validateChild_ok hscope
    simpa [heff, hd] using hc
  | some _ =>
    simp only [Option.isSome_some, if_true]
    refine ⟨?_, .inr ?_⟩
    · rintro row rfl
      exact (validateChild_ok hscope).2
    · simp only [validateScopeRevision, hd, Option.isNone_some, Bool.false_eq_true, if_false,
        check_bind_eq_ok, ite_refuse_eq_ok, any_eq_true, Bool.and_eq_true, beq_iff_eq,
        Bool.not_eq_true'] at hrevision
      obtain ⟨_, _, hchildren, _⟩ := hrevision
      intro child hchild hparent
      by_contra hnot
      exact hchildren ⟨child, hchild, hparent, by simpa using hnot⟩

theorem validateMissionUpdate_ok {id : Id} {data : MissionUpdate} {r : MissionRevision}
    (h : db.validateMissionUpdate now actor id data = .ok r) :
    (db .mission).find? id = some r.old ∧ r.old.Revised db r.new
      ∧ r.new.parentId = data.parentId.getD r.old.parentId := by
  simp only [validateMissionUpdate, check_bind_eq_ok, ite_refuse_eq_ok, check_pure_eq_ok] at h
  obtain ⟨old, hold, _, _, _, _, _, hopen, _, _, _, holdParent, _, hparent, _, _, _,
    hscope, _, hrevision, _, hbudget, _, _, rfl⟩ := h
  have hfind := get_eq_ok.mp hold
  obtain ⟨_, rfl⟩ := find?_eq_some.mp hfind
  obtain ⟨hplace, hmove⟩ := validatePlacement_ok holdParent hparent
  obtain ⟨hwithin, hcovers⟩ := validateScope_ok hscope hrevision
  refine ⟨hfind, ⟨rfl, rfl, by simpa using hopen, rfl, ?_, ?_, hcovers, ?_⟩, rfl⟩
  · refine hmove.imp_right fun hmove => ?_
    rcases hplace with ⟨hnone, _⟩ | ⟨p, row, hp, _, hrow⟩
    · simp [parentOpen, roomLeft, hnone]
    · obtain ⟨hopen, _, hcycle⟩ := hmove p row hp hrow
      have hle := length_filter_le (fun c : Mission => c.id != old.id) (db.openChildren p)
      refine ⟨by simp [parentOpen, hp, hrow, hopen], ?_, by simp [hp, hcycle]⟩
      simp only [roomLeft, hp, hrow, Option.all_some, Option.any_some, decide_eq_true_eq]
      omega
  · rcases hplace with ⟨hnone, _⟩ | ⟨p, row, hp, hrow', hrow⟩
    · simp [withinParent, hnone]
    · simp [withinParent, hp, hrow, hwithin row hrow']
  · simp only [validateBudget, ite_refuse_eq_ok] at hbudget
    cases hd : data.maxOpenChildren with
    | none => exact .inl rfl
    | some n => exact .inr (by simpa [hd] using hbudget.1)

theorem validateEnqueue_ok (h : db.validateEnqueue run data = .ok (name, harness))
    (ho : run.orchestration = .objective) :
    ∃ settings, run.queuePolicies.lookup name = some settings ∧ settings.role = data.role := by
  simp only [validateEnqueue, policy, ho, ne_eq, not_true_eq_false, if_false,
    check_bind_eq_ok] at h
  obtain ⟨settings, hlookup, h⟩ := h
  cases hl : run.queuePolicies.lookup (data.category.getD data.role.category) with
  | none => simp [hl] at hlookup
  | some found =>
    simp only [hl, check_pure_eq_ok] at hlookup
    subst hlookup
    simp only [ite_refuse_eq_ok, check_pure_eq_ok, Prod.mk.injEq] at h
    obtain ⟨hrole, _, rfl, _⟩ := h
    exact ⟨found, hl, by simpa using hrole⟩

/-- The records a condition names are stored once they are known to be of the project. -/
theorem requireSameProject_ok {ref : ObjectRef}
    (h : db.requireSameProject projectId ref = .ok ()) : db.refStored ref := by
  simp only [requireSameProject, check_bind_eq_ok] at h
  obtain ⟨_, hproject, _⟩ := h
  cases ref with
  | assignment id =>
    simp only [projectOf, projectOfAssignment, check_bind_eq_ok] at hproject
    obtain ⟨row, hrow, _⟩ := hproject
    simp [refStored, has, get_eq_ok.mp hrow]
  | obligation id =>
    simp only [projectOf, check_bind_eq_ok] at hproject
    obtain ⟨row, hrow, _⟩ := hproject
    simp [refStored, has, get_eq_ok.mp hrow]
  | _ => rfl

theorem validateCondition_namesStored {condition : Option Condition}
    {assignmentId : Option Id}
    (h : db.validateCondition projectId condition assignmentId = .ok ()) :
    db.namesStored condition := by
  cases condition with
  | none => rfl
  | some c =>
    simp only [validateCondition, check_bind_eq_ok] at h
    obtain ⟨_, hrefs, _⟩ := h
    refine all_eq_true.mpr fun ref href => ?_
    obtain ⟨x, hx⟩ := check_forIn_eq_ok (by simp) hrefs ref href
    obtain ⟨_, hok, _⟩ := check_bind_eq_ok.mp hx
    exact requireSameProject_ok hok

/-- A mission that is not a root has no other owner of the role. -/
theorem validateOwnership_ok (h : db.validateOwnership run mission data = .ok ())
    (hm : (db .mission).find? data.missionId = some mission) {row : Assignment}
    (hrun : row.runId = data.runId) (hmission : row.missionId = data.missionId)
    (hrole : row.role = data.role) : db.isRoot row.missionId ∨ db.soleOwner row := by
  simp only [validateOwnership, ite_refuse_eq_ok, Bool.and_eq_true, not_and, any_eq_true,
    beq_iff_eq, not_exists] at h
  obtain ⟨_, h, _⟩ := h
  rcases hp : mission.parentId with _ | _
  · exact .inl (by simp [isRoot, hmission, hm, hp])
  · refine .inr (all_eq_true.mpr fun b hb => ?_)
    have hb := h (by rw [hp]; rfl) b hb
    grind

theorem validateRunProfile_ok (h : validateRunProfile run data repair = .ok ()) :
    data.functions.contains .orchestrator = false := by
  simp only [validateRunProfile, ite_refuse_eq_ok] at h
  obtain ⟨_, _, hretired, _⟩ := h
  simpa using hretired

theorem validateAssignment_ok
    (h : db.validateAssignment now actor data internal repair = .ok (mission, name, harness)) :
    ∃ run, (db .run).find? data.runId = some run
      ∧ data.functions.contains .orchestrator = false
      ∧ (db .mission).find? data.missionId = some mission
      ∧ db.validateOwnership run mission data = .ok ()
      ∧ db.namesStored data.startCondition
      ∧ db.validateEnqueue run data = .ok (name, harness) := by
  simp only [validateAssignment, check_bind_eq_ok, check_pure_eq_ok] at h
  obtain ⟨run, hrun, _, _, _, _, _, _, _, hprofile, _, hmission, _, _, _, _, _, _, _, howner,
    _, _, _, _, _, hcondition, ⟨_, _⟩, henqueue, heq⟩ := h
  obtain ⟨rfl, ⟨⟩⟩ := Prod.mk.inj heq
  exact ⟨run, get_eq_ok.mp hrun, validateRunProfile_ok hprofile,
    get_eq_ok.mp (sameProject_ok hmission), howner,
    validateCondition_namesStored hcondition, henqueue⟩

theorem validateTarget_ok {old : Obligation} {target : Id} {isRecovery scheduled : Bool}
    (h : db.validateTarget old projectId isRecovery scheduled target = .ok ()) :
    db.isLost target = false := by
  simp only [validateTarget, check_bind_eq_ok, ite_refuse_eq_ok, not_or] at h
  obtain ⟨_, _, owner, howner, _⟩ := h
  rw [isLost, get_eq_ok.mp howner, Option.any_some]
  cases hs : owner.status <;> simp_all [AssignmentStatus.isLost]

theorem validateResolution_ok (h : db.validateResolution now actor id resolution = .ok ()) :
    ∀ target ∈ resolution.targets, db.isLost target = false := by
  simp only [validateResolution, check_bind_eq_ok] at h
  obtain ⟨_, _, _, _, _, _, _, _, _, htargets, _⟩ := h
  intro target hmem
  obtain ⟨x, hx⟩ := check_forIn_eq_ok (by simp) htargets target hmem
  obtain ⟨_, hok, _⟩ := check_bind_eq_ok.mp hx
  exact validateTarget_ok hok

end

/-! ## Emitted events -/

theorem systemActor_delegates : Emits (·.isDelegating) (systemActor env) := by
  refine .read fun db => ?_
  split
  · exact .pure
  · refine .bind (emits_create_other rfl rfl) fun p => ?_
    exact .done (emits_create_other rfl rfl)

theorem bumpIfAny_delegates : Emits (·.isDelegating) (bumpIfAny env parent) := by
  cases parent with
  | none => exact .pure
  | some parent =>
    have hbump : Emits (·.isDelegating) (bumpParent env parent) :=
      emits_change .missionTouched rfl fun _ _ _ _ => ⟨⟨rfl, rfl, rfl, rfl⟩, rfl⟩
    exact .done hbump

/-- A created mission is new, and no assignment is on it yet. -/
theorem mission_delegates {data : MissionCreate} (hs : Sound s) :
    Ensures (mission env actor data) s fun m s' =>
      Effects (·.isDelegating) s s' ∧ ∀ b ∈ s' .assignment, b.missionId ≠ m.id := by
  rw [mission, ensures_bind, ensures_get, ensures_bind, ensures_query]
  rintro ⟨_, _⟩ hok
  rw [ensures_bind, ensures_create]
  intro hnew ha
  have hinsert := Effects.insert (P := (·.isDelegating)) .missionCreated (h := hnew) rfl ha
    ⟨rfl, validateMission_placed hok rfl⟩
  have hlink : ∀ id ids, Emits (·.isDelegating)
      (each (fun nodeId => do let _ ← create .missionNode ⟨id, nodeId⟩) ids) :=
    fun _ _ => .each fun _ _ => .done (emits_create_other rfl rfl)
  have hlink' : ∀ id ids, Emits (·.isDelegating)
      (each (fun documentId => do let _ ← create .missionDocument ⟨id, documentId⟩) ids) :=
    fun _ _ => .each fun _ _ => .done (emits_create_other rfl rfl)
  -- The links and the parent's revision follow; none of it is about assignments.
  refine .bind ((hlink _ _).after hinsert hs) fun _ _ h₂ => ?_
  refine .bind ((hlink' _ _).after h₂ hs) fun _ _ h₃ => ?_
  refine .bind (bumpIfAny_delegates.from (h₃.sound hs)) fun _ s' h' => .pure ?_
  have h' : Effects _ s s' := h₃.trans h'
  refine ⟨h', fun b hb heq => ?_⟩
  rw [h'.frame fun _ hev => Event.table_ne_of_isDelegating hev] at hb
  obtain ⟨m, hm⟩ := hs.missionOf hb
  obtain ⟨hmem, hid⟩ := find?_eq_some.mp hm
  exact hnew m hmem (hid.trans heq)

variable {P : Event → Prop} (hq : ∀ ev : Event, ev.isQueueing → P ev)
include hq

theorem systemActor_emits : Emits P (systemActor env) :=
  systemActor_delegates.mono fun ev h => hq ev (Event.isQueueing_of_isDelegating h)

theorem bumpIfAny_emits : Emits P (bumpIfAny env parent) :=
  bumpIfAny_delegates.mono fun ev h => hq ev (Event.isQueueing_of_isDelegating h)

theorem mission_emits {data : MissionCreate} : Emits P (mission env actor data) :=
  fun _ m s' h hs => (mission_delegates hs m s' h).1.mono fun ev h =>
    hq ev (Event.isQueueing_of_isDelegating h)

/-- A revision takes no root mission with several owners below another mission. -/
def DB.keepsOwner (s : DB) (id : Id) (data : MissionUpdate) : Bool :=
  s.solelyOwned id || ((s .mission).find? id).all fun m =>
    m.parentId.isSome || (data.parentId.getD m.parentId).isNone

theorem updateMission_ensures {id : Id} {data : MissionUpdate}
    (hr : P (.missionRevised id (s.keepsOwner id data))) :
    Ensures (updateMission env actor id data) s fun _ s' => Extends P s s' := by
  refine .ask fun r hok => ?_
  obtain ⟨hfind, hrev, hparent⟩ := validateMissionUpdate_ok hok
  refine .ite (fun _ => Transaction.Keeps.pure s) fun _ => Ensures.bind_keeps ?_ fun row s₁ _ => ?_
  · rw [ensures_change]
    intro old hold _ ha _
    cases hfind.symm.trans hold
    have hid : r.old.id = id := key_of_find? hold
    refine Effects.change (.missionRevised id _) hr hold ha ⟨?_, hid, fun howner => ?_⟩
    · exact hrev.congr hrev.id.symm ⟨hrev.projectId.symm, rfl, rfl, rfl⟩ hrev.status.symm
    · rw [keepsOwner, hfind, Option.all_some, Bool.or_eq_true, Bool.or_eq_true] at howner
      rcases howner with hsole | hplaced | hroot
      · exact .inr (.inr (hid ▸ hsole))
      · exact .inl hplaced
      · exact .inr (.inl (hparent.trans (Option.isNone_iff_eq_none.mp hroot)))
  · refine Transaction.Keeps.ite (fun _ => ?_) (fun _ => Transaction.Keeps.pure) s₁
    exact .bind (bumpIfAny_emits hq) fun _ => .done (bumpIfAny_emits hq)

omit hq in
theorem createObligation_records :
    Emits (· = .obligationRecorded)
      (createObligation env assignmentId executionId kind description) :=
  .read fun _ => emits_create .obligationRecorded rfl fun _ _ => rfl

theorem createObligation_emits :
    Emits P (createObligation env assignmentId executionId kind description) := by
  refine createObligation_records.mono ?_
  rintro ev rfl
  exact hq _ rfl

/-- A queued assignment is stored as it is, without a key and without an execution. -/
theorem assignment_ensures (hs : Sound s)
    (hrule : ∀ rule, automationId.bind (s .automation).find? = some rule → rule.runId = data.runId)
    (hfresh : s.isPlanner automationId data.runId →
      ∀ b ∈ s .assignment, b.missionId ≠ data.missionId) :
    Ensures (assignment env actor data automationId internal repair) s fun row s' =>
      Effects P s s' ∧ (s' .assignment).find? row.id = some row ∧ row.recurrenceKey = none
        ∧ row.automationId = automationId ∧ row.runId = data.runId
        ∧ ∀ e ∈ s' .execution, e.assignmentId ≠ row.id := by
  rw [assignment, ensures_bind, ensures_get, ensures_bind, ensures_query]
  rintro ⟨_, name, _⟩ hok
  obtain ⟨run, hrun, hprofile, hmission, howner, hnames, henqueue⟩ := validateAssignment_ok hok
  rw [ensures_bind, ensures_create]
  intro hnew ha
  have hpolicy : ∀ run', (s .run).find? data.runId = some run' → run'.orchestration = .objective →
      ∃ settings, run'.queuePolicies.lookup name = some settings ∧ settings.role = data.role := by
    intro run' hrun' ho
    cases hrun.symm.trans hrun'
    exact validateEnqueue_ok henqueue ho
  have hinsert := Effects.insert (P := P) .assignmentQueued (h := hnew) (hq _ rfl) ha
    ⟨rfl, hprofile, rfl, hpolicy, rfl, rfl, rfl, hnames,
      validateOwnership_ok howner hmission rfl rfl rfl, hrule, hfresh⟩
  refine .bind (createObligation_records.from (hinsert.sound hs)) fun _ s' hledger => ?_
  -- The ledger entry touches neither the new row nor the executions, which know nothing of it.
  have hassign := hledger.frame (t := .assignment) (by rintro _ rfl; decide)
  have hexec := hledger.frame (t := .execution) (by rintro _ rfl; decide)
  rw [ensures_pure]
  refine ⟨hinsert.trans (hledger.mono (by rintro _ rfl; exact hq _ rfl)), ?_, rfl, rfl, rfl, ?_⟩
  · rw [hassign, write_self]
    exact find?_key (mem_insert.mpr (.inr rfl))
  · rw [hexec, write_of_ne _ (by decide)]
    intro e he heq
    obtain ⟨a, ha⟩ := hs.assignmentOf he
    obtain ⟨hmem, hid⟩ := find?_eq_some.mp ha
    exact hnew a hmem (hid.trans heq)

omit hq in
theorem createObligation_leaves {t : TableName} (ht : t ≠ .obligation) :
    Leaves t (createObligation env assignmentId executionId kind description) :=
  .read fun _ => leaves_create ht

omit hq in
/-- Queueing an assignment keeps the stored ones as they are. -/
theorem assignment_keeps :
    Ensures (assignment env actor data automationId internal repair) s fun row s' =>
      ∀ id a, (s .assignment).find? id = some a →
        id ≠ row.id ∧ (s' .assignment).find? id = some a := by
  rw [assignment, ensures_bind, ensures_get, ensures_bind, ensures_query]
  rintro ⟨_, _⟩ _
  rw [ensures_bind, ensures_create]
  intro hnew _
  refine .bind (createObligation_leaves (t := .assignment) (by decide) _) fun _ s' hsame => ?_
  rw [ensures_pure]
  intro id a ha
  obtain ⟨hmem, rfl⟩ := find?_eq_some.mp ha
  refine ⟨hnew a hmem, ?_⟩
  rw [hsame, write_self]
  exact find?_key (mem_insert.mpr (.inl hmem))

theorem assignment_emits : Emits P (assignment env actor data none internal repair) :=
  fun _ _ _ h hs => (assignment_ensures hq hs (by simp) (by simp [isPlanner]) _ _ h).1

theorem resolveObligation_emits {expectedRevision : Nat} :
    Emits P (resolveObligation env actor id expectedRevision resolution) := by
  intro s
  refine .ask fun _ hok => ?_
  rw [ensures_change]
  refine fun old hold _ ha _ => Effects.change .obligationChanged (hq _ rfl) hold ha
    ⟨rfl, fun h => ?_, fun _ => .inr (validateResolution_ok hok)⟩
  cases resolution <;> cases h

theorem obligation_emits :
    Emits P (obligation env actor assignmentId executionId kind description) :=
  .ask fun _ => createObligation_emits hq

end Horizon
