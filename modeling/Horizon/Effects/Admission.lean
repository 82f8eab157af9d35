import Horizon.Execution.Claim
import Horizon.Effects.Scheduler

/-!
# What an admission writes

The checks of a poll are made against the database before it queues a planner's
successor and allocates a workspace.  Those writes are `Steady`: they leave the
executions, the claims and the configured capacity alone, so that the room found by the
checks is still there when the execution is recorded.
-/

namespace Horizon

open Transaction Table List Option DB Database

variable {s s' : DB} {ev : Event} {p p' : Execution → Bool} {item : Assignment}
  {run : Run} {slot : Slot}
  {env : Env} {children : Option Nat} {id hostId : Id} {w : Workspace} {P : Event → Prop}
  {placement : Placement} {units : Nat} {row : Execution} {slots : List Slot} {actor : Actor}

/-! ## Writes that keep the reserved capacity -/

/-- Executions, claims and configured capacity are left alone, and the rest of the
database is accounted as before. -/
structure Steady (s s' : DB) : Prop extends SameAccounts s s' where
  execution : s' .execution = s .execution
  hostHarness : s' .hostHarness = s .hostHarness
  hostHarnessLimit : s' .hostHarnessLimit = s .hostHarnessLimit
  resourceLimit : s' .resourceLimit = s .resourceLimit
  resourceClaim : s' .resourceClaim = s .resourceClaim

instance : Std.Refl Steady := ⟨fun s => ⟨refl s, rfl, rfl, rfl, rfl, rfl⟩⟩

instance : IsTrans DB Steady where
  trans _ _ _ h h' :=
    ⟨IsTrans.trans _ _ _ h.toSameAccounts h'.toSameAccounts, h'.execution.trans h.execution,
      h'.hostHarness.trans h.hostHarness, h'.hostHarnessLimit.trans h.hostHarnessLimit,
      h'.resourceLimit.trans h.resourceLimit, h'.resourceClaim.trans h.resourceClaim⟩

/-- The events outside the accounting of capacity. -/
def Event.isSteady (ev : Event) : Bool :=
  match ev.table with
  | .execution | .hostHarness | .hostHarnessLimit | .resourceLimit | .resourceClaim => false
  | _ => true

theorem Event.isSteady_of_isQueueing (h : ev.isQueueing) : ev.isSteady := by
  cases ev with
  | other t _ => cases t <;> first | rfl | cases h
  | _ => first | rfl | cases h

theorem Effect.steady (h : Effect ev s s') (hev : ev.isSteady) : Steady s s' := by
  have hframe : ∀ t, ev.table ≠ t → s' t = s t := fun t ht => h.frame ht.symm
  have htable : ev.table ≠ .execution ∧ ev.table ≠ .hostHarness ∧ ev.table ≠ .hostHarnessLimit
      ∧ ev.table ≠ .resourceLimit ∧ ev.table ≠ .resourceClaim := by
    refine ⟨?_, ?_, ?_, ?_, ?_⟩ <;> intro heq <;> simp [Event.isSteady, heq] at hev
  exact ⟨h.sameAccounts, hframe _ htable.1, hframe _ htable.2.1, hframe _ htable.2.2.1,
    hframe _ htable.2.2.2.1, hframe _ htable.2.2.2.2⟩

/-- A transaction of steady writes is steady, from a consistent database. -/
theorem Effects.steady (h : Effects (·.isSteady) s s') : Steady s s' :=
  Moves.le (fun _ _ _ hev he => he.steady hev) h

/-! ## Room for an execution -/

/-- There is room for an execution of weight `w` on a slot, in its category, among the
workers and under the shared limits. -/
structure Room (s : DB) (item : Assignment) (run : Run) (slot : Slot) (w : Nat) : Prop where
  slots : ∀ h, (s .hostHarness).find? (slot.hostId, slot.harnessId) = some h →
    s.reservedWeight (onSlot slot.hostId slot.harnessId) + w ≤ h.executionSlots
  category : ∀ settings, run.orchestration = .objective →
    run.queuePolicies.lookup (Horizon.category item) = some settings →
    s.reservedWeight (s.inCategory run.id (Horizon.category item)) + w ≤ settings.slots
  worker : ∀ settings h, run.orchestration = .objective →
    run.queuePolicies.lookup (Horizon.category item) = some settings → settings.role = .worker →
    item.role = .worker → (s .hostHarness).find? (slot.hostId, slot.harnessId) = some h →
    s.reservedWeight (s.isWorkerOn slot.hostId slot.harnessId) + w
      ≤ max 1 (h.executionSlots - reservedSlots run)
  limits : ∀ l ∈ slot.limits,
    l.circuitOpen = false ∧ l.maximum.all (s.claimedUnits l.id + w ≤ ·)

theorem reservedWeight_steady (h : Steady s s') (hc : Consistent s)
    (hp : ∀ e ∈ s .execution, p' e = p e) : s'.reservedWeight p' = s.reservedWeight p := by
  rw [reservedWeight, reservedWeight, h.execution]
  exact total_congr fun e he => by rw [hp e he, h.isObjective_eq hc he]

theorem claimedUnits_steady (h : Steady s s') (id : Id) :
    s'.claimedUnits id = s.claimedUnits id := by
  rw [claimedUnits, claimedUnits, h.resourceClaim]

/-- Steady writes leave the room that was found. -/
theorem Room.steady {w : Nat} (hroom : Room s item run slot w) (h : Steady s s')
    (hc : Consistent s) : Room s' item run slot w where
  slots := by
    rw [h.hostHarness, reservedWeight_steady h hc fun _ _ => rfl]
    exact hroom.slots
  category := by
    rw [reservedWeight_steady h hc fun e he => h.inCategory_eq hc he _ _]
    exact hroom.category
  worker := by
    rw [h.hostHarness, reservedWeight_steady h hc fun e he => h.isWorkerOn_eq hc he _ _]
    exact hroom.worker
  limits l hl := by
    rw [claimedUnits_steady h]
    exact hroom.limits l hl

/-- What is reserved is busy. -/
theorem reservedWeight_le_busyWeight {now : Instant} (hp : ∀ e, p' e → p e) :
    s.reservedWeight p' ≤ s.busyWeight now p := by
  refine total_le_total fun e _ h => ?_
  simp only [Bool.and_eq_true] at h
  simp only [executionBusy, hp e h.1, h.2.1, h.2.2]
  cases e.status.isLive <;> simp

/-! ## What the checks of a poll establish -/

section

variable {id : WorkspaceId}

/-- A slot read from the database still describes a host's harness and its limits. -/
structure Slot.Current (slot : Slot) (s : DB) : Prop where
  slots : ∀ h, (s .hostHarness).find? (slot.hostId, slot.harnessId) = some h →
    h.executionSlots = slot.executionSlots
  limits : ∀ l ∈ slot.limits, (s .resourceLimit).find? l.id = some l
  attached : ∀ l ∈ s .resourceLimit,
    s.has .hostHarnessLimit (slot.hostId, slot.harnessId, l.id) → l ∈ slot.limits
  nodup : (slot.limits.map (·.id)).Nodup

theorem Slot.Current.steady (hslot : slot.Current s) (h : Steady s s') : slot.Current s' where
  slots := by rw [h.hostHarness]; exact hslot.slots
  limits := by rw [h.resourceLimit]; exact hslot.limits
  attached := by
    simp only [has, h.resourceLimit, h.hostHarnessLimit]
    exact hslot.attached
  nodup := hslot.nodup

/-- A check that names no blocker passed. -/
theorem ite_blocker_eq_ok {c : Prop} [Decidable c] {reason : String}
    {x : Except Error (Option String)} :
    (if c then pure (some reason) else x) = .ok none ↔ ¬ c ∧ x = .ok none := by
  by_cases h : c <;> simp [h]

theorem blocker_ok (h : s.blocker env item run (some slot) = .ok none)
    (ho : run.orchestration = .objective) {settings : QueuePolicy}
    (hp : run.queuePolicies.lookup (category item) = some settings) :
    s.busyWeight env.now (s.inCategory run.id (category item)) < settings.slots
      ∧ (settings.role = .worker → s.busyWeight env.now (s.isWorkerOn slot.hostId slot.harnessId)
        < max 1 (slot.executionSlots - reservedSlots run)) := by
  rw [blocker] at h
  split at h
  · cases h
  · simp only [policy, ho, hp, ne_eq, not_true_eq_false, if_false, check_bind_eq_ok] at h
    obtain ⟨_, ⟨⟩, h⟩ := h
    simp only [ite_blocker_eq_ok] at h
    obtain ⟨hslots, _, _, _, hworker, _⟩ := h
    refine ⟨Nat.lt_of_not_le hslots, fun hrole => Nat.lt_of_not_le fun hle => hworker ?_⟩
    simp [hrole, hle]

theorem limitHeadroom_le (count : Int) (l : ResourceLimit) : s.limitHeadroom count l ≤ count := by
  rw [limitHeadroom]
  split
  · exact le_refl count
  · exact min_le_left _ _

/-- The native children left by the shared limits. -/
theorem foldl_limitHeadroom (limits : List ResourceLimit) (count : Int) :
    limits.foldl s.limitHeadroom count ≤ count ∧ ∀ l ∈ limits, ∀ maximum, l.maximum = some maximum →
      limits.foldl s.limitHeadroom count ≤ maximum - s.claimedUnits l.id - 1 := by
  induction limits generalizing count with
  | nil => exact ⟨le_refl count, fun _ h => absurd h not_mem_nil⟩
  | cons l ls ih =>
    obtain ⟨hle, hrest⟩ := ih (s.limitHeadroom count l)
    refine ⟨hle.trans (limitHeadroom_le count l), fun l' hl' maximum hm => ?_⟩
    rcases mem_cons.mp hl' with rfl | hl'
    · refine hle.trans ?_
      rw [limitHeadroom, hm]
      exact min_le_right _ _
    · exact hrest l' hl' maximum hm

/-- The capacity a session reserves for native children fits into the room that is left
after the session itself. -/
theorem nativeCapacity_room (hroom : Room s item run slot 1) (hslot : slot.Current s)
    (ho : run.orchestration = .objective) (h : s.nativeCapacity env item run slot = .ok children) :
    Room s item run slot (1 + children.getD 0) := by
  rw [nativeCapacity] at h
  split at h
  · cases h
    exact hroom
  · rename_i parallel _
    cases hp : run.queuePolicies.lookup (category item) with
    | none => simp [policy, ho, hp] at h
    | some settings =>
      simp only [policy, ho, hp, ne_eq, not_true_eq_false, if_false, check_bind_eq_ok] at h
      obtain ⟨_, ⟨⟩, h⟩ := h
      dsimp only at h
      split at h
      · cases h
        exact hroom
      · have hcategory : s.reservedWeight (s.inCategory run.id (category item))
            ≤ s.busyWeight env.now (s.inCategory run.id (category item)) :=
          reservedWeight_le_busyWeight fun _ h => h
        have hhost : s.reservedWeight (onSlot slot.hostId slot.harnessId)
            ≤ s.busyWeight env.now (onSlot slot.hostId slot.harnessId) :=
          reservedWeight_le_busyWeight fun _ h => h
        have hworker : s.reservedWeight (s.isWorkerOn slot.hostId slot.harnessId)
            ≤ s.busyWeight env.now (onSlot slot.hostId slot.harnessId) :=
          reservedWeight_le_busyWeight fun _ h => (Bool.and_eq_true_iff.mp h).1
        cases h
        obtain ⟨hcount, hlimits⟩ := foldl_limitHeadroom (s := s) slot.limits
          (s.headroom env item run slot settings parallel)
        generalize slot.limits.foldl s.limitHeadroom
          (s.headroom env item run slot settings parallel) = fit at hcount hlimits ⊢
        simp only [headroom] at hcount
        refine ⟨fun h hh => ?_, fun settings' _ hp' => ?_,
          fun settings' h _ hp' hrole hitem hh => ?_, fun l hl => ?_⟩
        · have h₁ := hroom.slots h hh
          have h₂ := hslot.slots h hh
          rw [getD_some]
          omega
        · cases hp.symm.trans hp'
          have h₁ := hroom.category settings ho hp
          rw [getD_some]
          omega
        · have h₁ := hroom.worker settings' h ho hp' hrole hitem hh
          have h₂ := hslot.slots h hh
          cases hp.symm.trans hp'
          rw [if_pos hitem] at hcount
          rw [getD_some]
          omega
        · obtain ⟨hclosed, h₁⟩ := hroom.limits l hl
          refine ⟨hclosed, ?_⟩
          cases hm : l.maximum with
          | none => rfl
          | some maximum =>
            have h₂ := hlimits l hl maximum hm
            simp only [hm, all_some, decide_eq_true_eq, getD_some] at h₁ ⊢
            omega

/-- No objective execution may still be running in a workspace. -/
def Exclusive (s : DB) (id : WorkspaceId) : Prop :=
  ∀ e ∈ s .execution, e.stopConfirmedAt = none → s.isObjective e.assignmentId →
    e.workspaceId ≠ id

theorem Exclusive.steady (hid : Exclusive s id) (h : Steady s s') (hc : Consistent s) :
    Exclusive s' id := by
  intro e he hstop hobj
  rw [h.execution] at he
  rw [h.isObjective_eq hc he] at hobj
  exact hid e he hstop hobj

theorem exclusive_of_not_busy (h : s.workspaceBusy env id = false) : Exclusive s id := by
  intro e he hstop hobj hid
  have hfree := any_eq_false.mp h e he
  have hbusy : s.executionBusy env.now e := by
    simp only [executionBusy, hstop, hobj]
    cases e.status.isLive <;> simp
  simp [hid, hbusy] at hfree

theorem proposedWorkspace_ok {projectId : Id} :
    s.proposedWorkspace item hostId projectId ≠ .ok (some (.existing w)) := by
  intro h
  simp only [proposedWorkspace, check_bind_eq_ok] at h
  obtain ⟨run, _, h⟩ := h
  split at h
  · simp at h
  · simp at h

/-- A registered workspace that is offered is not busy. -/
theorem availableWorkspace_ok
    (h : s.availableWorkspace env item hostId = .ok (some (.existing w))) : Exclusive s w.id := by
  refine exclusive_of_not_busy (?_ : s.workspaceBusy env w.id = false)
  simp only [availableWorkspace] at h
  split at h
  · simp at h
  · simp only [check_bind_eq_ok] at h
    obtain ⟨_, _, projectId, _, h⟩ := h
    have hfree : ∀ w' ∈ (s .workspace).rows.filter (fun w' => w'.hostId == hostId
        && w'.projectId == projectId && !s.workspaceBusy env w'.id),
        s.workspaceBusy env w'.id = false := by
      intro w' hw'
      have h := (mem_filter.mp hw').2
      simp only [Bool.and_eq_true, Bool.not_eq_true'] at h
      exact h.2
    split at h
    · rename_i previous _
      simp only [check_pure_eq_ok, bind_eq_some_iff] at h
      obtain ⟨w', hfind, h⟩ := h
      split at h
      · obtain ⟨⟩ := some.inj h
        exact (hfree w (mem_of_find?_eq_some hfind))
      · cases h
    · split at h
      · simp at h
      · split at h
        · rename_i hfind
          obtain ⟨⟩ := some.inj (check_pure_eq_ok.mp h)
          exact hfree w (mem_of_mem_filter (mem_of_find?_eq_some hfind))
        · simp only [check_pure_eq_ok, map_eq_some_iff] at h
          obtain ⟨w', hhead, ⟨⟩⟩ := h
          exact hfree w (mem_of_mem_filter (mem_of_head? hhead))
        · exact absurd h proposedWorkspace_ok

end

/-! ## The writes of an admission -/

theorem rootAdmitted_leaves : Leaves .assignment (rootAdmitted env item) := by
  refine .read fun db => ?_
  split
  · exact .pure
  · refine .unless ?_
    have hnote : ∀ runId, Leaves .assignment (do
        let run ← getRecord .run runId
        if run.statusNote.any (startsWith · blockedPrefix) then
          let _ ← change env .run run.id none fun r => { r with statusNote := none }) := fun _ =>
      .ask fun _ => .ite
        (fun _ => .done (leaves_change (by decide))) fun _ => .pure
    dsimp only
    split
    · exact .bind (leaves_updateWhere (by decide)) fun _ => hnote _
    · exact .bind (leaves_create (by decide)) fun _ => hnote _

/-- The owner that is admitted: the one that was offered, with the key of an active planner
if it is a planner. -/
theorem admitOwner_ensures (hq : ∀ ev : Event, ev.isQueueing → P ev) (hs : Sound s)
    (hitem : (s .assignment).find? item.id = some item)
    (hrun : (s .run).find? item.runId = some run) :
    Ensures (admitOwner env item run) s fun row s' => Effects P s s'
      ∧ (s' .assignment).find? item.id = some row ∧ row.id = item.id ∧ row.status = item.status
      ∧ row.pauseReason = item.pauseReason ∧ row.automationId = item.automationId
      ∧ row.recurrenceKey.any RecurrenceKey.isNext = false := by
  have hid : run.id = item.runId := key_of_find? hrun
  refine .ite (fun ho => ?_) fun ho => ?_
  · have hobj : s.isObjectiveRun run.id := by
      simp [isObjectiveRun, hid, hrun, ho]
    refine .bind (admitted_ensures hq hs hitem hid hobj) ?_
    rintro row s₁ ⟨h₁, hrow, hkept⟩
    refine .bind (((rootAdmitted_emits hq).from (h₁.sound hs)).and (rootAdmitted_leaves s₁)) ?_
    rintro _ _ ⟨h₂, hsame⟩
    exact .pure ⟨h₁.trans h₂, by rw [hsame]; exact hrow, hkept⟩
  · refine .bind (((rootAdmitted_emits hq).from hs).and (rootAdmitted_leaves s)) ?_
    rintro _ s₁ ⟨h₁, hsame⟩
    refine .pure ⟨h₁, by rw [hsame]; exact hitem, rfl, rfl, rfl, rfl, ?_⟩
    -- Only the sessions of an objective run have the key of a planner.
    have hkeyed := hs.keyed item (mem_of_find? hitem)
    have hobj : s.isObjectiveRun item.runId = false := by
      simp [isObjectiveRun, hrun, ho]
    cases hkey : item.recurrenceKey with
    | none => rfl
    | some key =>
      cases key with
      | plannerNext id =>
        have hp := hkeyed (by rw [hkey]; rfl)
        rw [isPlanner, hobj, Bool.and_false] at hp
        cases hp
      | _ => rfl

theorem placed_emits (hw : P (.other .workspace rfl)) : Emits P (placed placement) := by
  cases placement with
  | existing w => exact .pure
  | proposed w => exact emits_create_other rfl hw

/-- The workspace of an admission is free; a workspace that was just allocated is. -/
theorem placed_exclusive (hc : Consistent s)
    (hp : ∀ w, placement = .existing w → Exclusive s w.id) :
    Ensures (placed placement) s fun w s' => Exclusive s' w.id := by
  cases placement with
  | existing w => exact .pure (hp w rfl)
  | proposed w =>
    rw [placed, ensures_create]
    intro hfresh _ e he _ _ hid
    have hwf := hc.wellFormed (t := .execution) he
    simp only [wellFormed, Bool.and_eq_true, has_iff] at hwf
    obtain ⟨⟨_, r, hr, hkey⟩, _⟩ := hwf
    exact hfresh r hr (hkey.trans hid)

theorem claimedUnits_insert {c : ResourceClaim} {h : ∀ r ∈ s .resourceClaim, key _ r ≠ key _ c}
    (id : Id) :
    claimedUnits (s.write .resourceClaim ((s .resourceClaim).insert c h)) id = s.claimedUnits id
      + if c.resourceLimitId == id && c.releasedAt.isNone then c.units else 0 := by
  simp [claimedUnits, total_append, total_cons]

/-- The shared limits of a slot are reserved one after another.  Reservations do not look at
the assignments, so they may as well follow the admission of their owner. -/
theorem reserve_ensures (hP : P .claimAdmitted) {limits : List ResourceLimit} {executionId : Id}
    (T : Table (key .assignment)) (hlimits : ∀ l ∈ limits, (s .resourceLimit).find? l.id = some l
      ∧ l.maximum.all (s.claimedUnits l.id + units ≤ ·)) (hnodup : (limits.map (·.id)).Nodup)
    (hstop : ∀ e, (s .execution).find? executionId = some e → e.stopConfirmedAt = none) :
    Ensures (each (reserve env executionId units) limits) s fun _ s' =>
      Effects P (s.write .assignment T) (s'.write .assignment T)
        ∧ ∀ t, t ≠ .resourceClaim → s' t = s t := by
  induction limits generalizing s with
  | nil => exact .pure ⟨Moves.refl _, fun _ _ => rfl⟩
  | cons l ls ih =>
    obtain ⟨hl, hunits⟩ := hlimits l mem_cons_self
    obtain ⟨hnotin, hnodup⟩ := nodup_cons.mp hnodup
    rw [each, ensures_bind, reserve, ensures_bind, ensures_get, ensures_bind, ensures_create]
    intro hfresh ha
    have hinsert : Effects P (s.write .assignment T) ((s.write .assignment T).write .resourceClaim
        ((s .resourceClaim).insert _ hfresh)) := by
      refine Effects.insert .claimAdmitted hP ha ⟨rfl, rfl, hstop, fun l' hl' => ?_⟩
      cases hl.symm.trans hl'
      exact hunits
    rw [ensures_pure]
    refine Ensures.mono (ih (fun l' hl' => ?_) hnodup hstop) fun _ s' h' => ⟨?_, fun t ht => ?_⟩
    · have hne : l.id ≠ l'.id := fun h => hnotin (mem_map.mpr ⟨l', hl', h.symm⟩)
      obtain ⟨hfind, hunits⟩ := hlimits l' (mem_cons_of_mem l hl')
      refine ⟨hfind, ?_⟩
      rw [claimedUnits_insert, if_neg (by simp [hne])]
      exact hunits
    · rw [write_comm _ (by decide)] at hinsert
      exact hinsert.trans h'.1
    · rw [h'.2 t ht, write_of_ne _ ht]

/-- An execution that the room was found for may be recorded. -/
theorem Room.admitted (hroom : Room s item run slot row.weight) (hslot : slot.Current s)
    (hhost : row.hostId = slot.hostId) (hharness : row.harnessId = slot.harnessId)
    (hwork : ∀ a, (s .assignment).find? row.assignmentId = some a → item.SameWork a)
    (howner : ∀ a, (s .assignment).find? row.assignmentId = some a →
      a.status.isActive ∧ a.recurrenceKey.any RecurrenceKey.isNext = false
        ∧ ∀ rule, a.automationId.bind (s .automation).find? = some rule → rule.enabled)
    (hrun : ∀ r, (s .run).find? item.runId = some r → r.id = run.id
      ∧ r.orchestration = run.orchestration ∧ r.queuePolicies = run.queuePolicies)
    (hrunning : row.status = .running) (hstop : row.stopConfirmedAt = none)
    (hex : Exclusive s row.workspaceId) : row.Admitted s  where
  unconfirmed := hstop
  running := hrunning
  owned a ha := (howner a ha).1
  unkeyed a ha := (howner a ha).2.1
  enabled a _ ha := (howner a ha).2.2 _
  limits l hl hattached := by
    rw [hhost, hharness] at hattached
    exact hroom.limits l (hslot.attached l hl hattached)
  exclusive := hex
  slots h hh := by
    rw [hhost, hharness] at hh ⊢
    exact hroom.slots h hh
  category a r settings ha hr ho hp := by
    have hw := hwork a ha
    obtain ⟨hid, ho', hp'⟩ := hrun r (hw.runId ▸ hr)
    rw [hw.category_eq, hp'] at hp
    rw [hw.category_eq, hid]
    exact hroom.category settings (ho' ▸ ho) hp
  worker a r settings h ha hr ho hp hrole hitem hh := by
    have hw := hwork a ha
    obtain ⟨_, ho', hp'⟩ := hrun r (hw.runId ▸ hr)
    rw [hw.category_eq, hp'] at hp
    rw [hhost, hharness] at hh ⊢
    rw [reservedSlots, hp', ← reservedSlots]
    exact hroom.worker settings h (ho' ▸ ho) hp hrole (hw.role ▸ hitem) hh

/-- A session that is ready to be admitted: it is queued and not paused, and its rule is
enabled. -/
structure Ready (s : DB) (item : Assignment) : Prop where
  status : item.status = .pending
  unpaused : item.pauseReason = none
  enabled : ∀ rule, item.automationId.bind (s .automation).find? = some rule → rule.enabled

theorem readiness_ok (h : s.readiness env item = .ok .true) : Ready s item := by
  rw [readiness] at h
  split at h
  · cases h
  · rename_i hopen
    simp only [not_or, ne_eq, Decidable.not_not, Bool.not_eq_true, isSome_eq_false_iff,
      isNone_iff_eq_none] at hopen
    simp only [check_bind_eq_ok] at h
    obtain ⟨run, _, h⟩ := h
    split at h
    · cases h
    · simp only [check_bind_eq_ok] at h
      obtain ⟨_, hheld, h⟩ := h
      split at h
      · cases h
      · rename_i hfree
        refine ⟨hopen.1, hopen.2.1, fun rule hrule => ?_⟩
        obtain ⟨id, hid, hfind⟩ := bind_eq_some_iff.mp hrule
        simp only [recurrenceHeld, hid, check_bind_eq_ok, check_pure_eq_ok] at hheld
        obtain ⟨_, hget, rfl⟩ := hheld
        cases hfind.symm.trans (Horizon.get_eq_ok.mp hget)
        cases henabled : rule.enabled with
        | true => rfl
        | false => simp [henabled] at hfree

/-- A poll makes every queueing write. -/
theorem queueing_of_polling (hr : ∀ ev : Event, ev.isRoutine → ev.isSteady → P ev)
    (ev : Event) (h : ev.isQueueing) : P ev :=
  hr ev (Event.isRoutine_of_isQueueing h) (Event.isSteady_of_isQueueing h)

/-- The rest of an admission: the primary context of the session and its principal. -/
theorem settleAdmission_emits (hr : ∀ ev : Event, ev.isRoutine → ev.isSteady → P ev)
    {execution : Execution} {workspace : Workspace} {harness : Harness}
    {retained : Option ProviderThread} :
    Emits P (do
      let thread ← primaryContext env item harness workspace.id retained
      let db ← get
      let _ ← create .principal
        { id := env.uuid ((db .principal).rows.map (·.id)), kind := .agent
          executionId := some execution.id, scheduler := false }
      pure { execution, workspace, thread, maxParallelSubagents := children : Grant }) := by
  refine .bind ?_ fun _ => ?_
  · cases retained with
    | some thread => exact .pure
    | none => exact .read fun _ => emits_create_other rfl (hr _ rfl rfl)
  · exact .read fun _ =>
      .done (emits_create_other rfl (hr _ rfl rfl))

/-- Recording an admission: the execution and its reservations are written before the
assignment runs, which comes to the same as running it first. -/
theorem recordAdmission_ensures {α : Type} {f : Assignment → Assignment}
    {hf : ∀ a, key .assignment (f a) = key .assignment a} {rest : Execution → Tx α}
    (hstart : P (.assignmentAdmitted item.id)) (hadmitted : P .executionAdmitted)
    (hclaim : P .claimAdmitted) (hs : Sound s) (hstop : row.stopConfirmedAt = none)
    (hitem : (s .assignment).find? item.id = some item)
    (hch : (Event.assignmentAdmitted item.id).Changes s item (touch env.now .assignment (f item)))
    (hrow : ∀ s₁, Effects (· = .assignmentAdmitted item.id) s s₁ →
      (s₁ .assignment).find? item.id = some (touch env.now .assignment (f item)) → row.Admitted s₁)
    (hlimits : ∀ l ∈ slot.limits, (s .resourceLimit).find? l.id = some l
      ∧ l.maximum.all (s.claimedUnits l.id + units ≤ ·)) (hnodup : (slot.limits.map (·.id)).Nodup)
    (hrest : Emits P (rest row)) :
    EmitsFrom P s (do
      let execution ← create .execution row
      each (reserve env execution.id units) slot.limits
      let _ ← change env .assignment item.id none f hf
      rest execution) := by
  rw [EmitsFrom, ensures_bind, ensures_create]
  intro hfresh harow
  let T : Table (key .assignment) := (s .assignment).updateWhere
    (fun r => decide (key .assignment r = item.id)) (fun r => touch env.now .assignment (f r))
    fun r => by rw [key_touch, hf]
  refine .bind (reserve_ensures hclaim T hlimits hnodup fun e he => ?_) ?_
  · obtain ⟨hmem, hkey⟩ := find?_eq_some.mp he
    rw [write_self] at hmem
    rcases mem_insert.mp hmem with hold | rfl
    · exact absurd hkey (hfresh e hold)
    · exact hstop
  rintro _ s₂ ⟨h₂, hframe⟩
  rw [ensures_bind, ensures_change]
  intro old hold _ _
  have hsame : ∀ t, t ≠ .resourceClaim → t ≠ .execution → s₂ t = s t := fun t ht ht' => by
    rw [hframe t ht, write_of_ne _ ht']
  have hassign : s₂ .assignment = s .assignment := hsame _ (by decide) (by decide)
  rw [hassign] at hold
  cases hitem.symm.trans hold
  have h₀ : Effects (· = .assignmentAdmitted item.id) s (s.write .assignment T) := by
    have hhas : ∀ t, t ≠ .resourceClaim → t ≠ .execution → s₂.has t = s.has t := fun t ht ht' => by
      funext k
      rw [has, has, hsame t ht ht']
    have hadmissible : ∀ r, admissible .assignment s₂ r = admissible .assignment s r := fun r => by
      simp only [admissible, wellFormed, hassign, hhas .run (by decide) (by decide),
        hhas .mission (by decide) (by decide), hhas .automation (by decide) (by decide)]
    exact Effects.change (.assignmentAdmitted item.id) rfl hitem (by rwa [← hadmissible]) hch
  have hadmit : Effects P (s.write .assignment T) ((s.write .assignment T).write .execution
      ((s .execution).insert row hfresh)) := by
    refine Effects.insert .executionAdmitted hadmitted ?_ (hrow _ h₀ ?_)
    · have hkeys : ∀ k, has (s.write .assignment T) .assignment k = s.has .assignment k := by
        intro k
        simp only [has, write_self, T, find?_updateWhere, isSome_map]
      simp only [admissible, wellFormed, hkeys]
      exact harow
    · rw [write_self]
      simp only [T, find?_updateWhere, hitem, map_some]
      simp
  have h₁ : Effects P s (s.write .assignment T) := h₀.mono (by rintro _ rfl; exact hstart)
  rw [write_comm _ (by decide)] at hadmit
  have h₂ := (h₁.trans hadmit).trans h₂
  rw [hassign]
  exact hrest.after h₂ hs

theorem start_ensures (hr : ∀ ev : Event, ev.isRoutine → ev.isSteady → P ev)
    (hstart : P (.assignmentAdmitted item.id)) (hadmitted : P .executionAdmitted)
    (hclaim : P .claimAdmitted) (hs : Sound s) (hitem : (s .assignment).find? item.id = some item)
    (hrun : (s .run).find? item.runId = some run) (hready : Ready s item) (hslot : slot.Current s)
    (hroom : Room s item run slot 1) (hp : ∀ w, placement = .existing w → Exclusive s w.id) :
    EmitsFrom P s (start env item run slot placement) := by
  refine .ask fun children hchildren => ?_
  dsimp only
  generalize hreserved : (if run.orchestration = .objective then children else some 0) = reserved
  have hroom' : Room s item run slot (1 + reserved.getD 0) := by
    by_cases ho : run.orchestration = .objective
    · rw [if_pos ho] at hreserved
      exact hreserved ▸ nativeCapacity_room hroom hslot ho hchildren
    · rw [if_neg ho] at hreserved
      exact hreserved ▸ hroom
  -- The owner's recurrence and the allocated workspace are steady.
  refine .bind (admitOwner_ensures (P := (·.isQueueing)) (fun _ h => h) hs hitem hrun) ?_
  rintro item₁ s₁ ⟨h₁, hitem₁, hid, hstatus, hpause, hauto, hkey⟩
  have hs₁ := h₁.sound hs
  have hst₁ : Steady s s₁ := Effects.steady (h₁.mono fun _ => Event.isSteady_of_isQueueing)
  refine .bind (((placed_emits (P := (· = .other .workspace rfl)) rfl).from hs₁).and
    (placed_exclusive hs₁.consistent fun w hw => (hp w hw).steady hst₁ hs.consistent)) ?_
  rintro workspace s₂ ⟨h₂, hex⟩
  have hst₂ : Steady s s₂ :=
    IsTrans.trans _ _ _ hst₁ (Effects.steady (h₂.mono (by rintro _ rfl; rfl)))
  have hautomation : s₂ .automation = s .automation := by
    rw [h₂.frame (by rintro _ rfl ⟨⟩), h₁.frame fun _ hev => (Event.table_ne_of_isQueueing hev).1]
  have hitem₂ : (s₂ .assignment).find? item₁.id = some item₁ := by
    rw [h₂.frame (by rintro _ rfl ⟨⟩), hid, hitem₁]
  have h₂ : Effects P s s₂ := (h₁.mono (queueing_of_polling hr)).trans
    (h₂.mono (by rintro _ rfl; exact hr _ rfl rfl))
  refine ensures_fetch fun _ _ => ?_
  refine ensures_fetch fun _ hharness => ?_
  refine .read ?_
  have hroom₂ := hroom'.steady hst₂ hs.consistent
  have hslot₂ := hslot.steady hst₂
  refine Ensures.mono (recordAdmission_ensures (by rw [hid]; exact hstart) hadmitted hclaim
    (h₂.sound hs) rfl hitem₂ ?_ (fun s₃ h₃ hrunning => ?_)
    (fun l hl => ⟨hslot₂.limits l hl, (hroom₂.limits l hl).2⟩) hslot.nodup
      (settleAdmission_emits hr))
    fun _ _ h => h₂.trans h
  · refine ⟨⟨rfl, rfl, rfl, rfl, rfl⟩, rfl, ⟨rfl, rfl, rfl, .inr rfl, .inl rfl⟩,
      hstatus.trans hready.status,
      rfl, hpause.trans hready.unpaused, hpause.trans hready.unpaused, ?_⟩
    rw [hautomation, hauto]
    exact hready.enabled
  · have hst₃ : Steady s₂ s₃ := Effects.steady (h₃.mono (by rintro _ rfl; rfl))
    have hst : Steady s s₃ := IsTrans.trans _ _ _ hst₂ hst₃
    refine Room.admitted (hroom'.steady hst hs.consistent) (hslot.steady hst) rfl
      (key_of_find? hharness :) (fun a ha => ?_) (fun a ha => ?_) (fun r hr' => ?_) rfl rfl
      (hex.steady hst₃ (h₂.sound hs).consistent)
    · obtain ⟨a', ha', hw⟩ := hst.assignment _ item hitem
      cases ha.symm.trans (hid.symm ▸ ha')
      exact hw
    · cases hrunning.symm.trans ha
      refine ⟨rfl, hkey, ?_⟩
      rw [h₃.frame (by rintro _ rfl ⟨⟩), hautomation]
      exact hauto ▸ hready.enabled
    · obtain ⟨r', hr'', ho, hpol⟩ := hst.run _ run hrun
      cases hr'.symm.trans hr''
      exact ⟨(key_of_find? hr').trans (key_of_find? hrun).symm, ho, hpol⟩

/-! ## Polling -/

/-- Giving up a context that cannot be resumed. -/
def Event.IsRetiring (ev : Event) : Prop := ev = .other .providerThread rfl

theorem Effects.retiring_frame (h : Effects Event.IsRetiring s s') {t : TableName}
    (ht : t ≠ .providerThread) : s' t = s t :=
  h.frame fun ev hev heq => ht (by rw [← heq, hev])

theorem Effects.retiring_steady (h : Effects Event.IsRetiring s s') : Steady s s' :=
  Effects.steady (h.mono fun ev hev => by rw [hev]; rfl)

theorem retireEach_emits (hP : P (.other .providerThread rfl)) {threads : List ProviderThread} :
    Emits P (each (retireThread env) threads) :=
  .each fun _ _ => .done (emits_change_other rfl hP)

theorem retireOrphanedPrelaunchThreads_emits (hP : P (.other .providerThread rfl)) :
    Emits P (retireOrphanedPrelaunchThreads env id hostId) :=
  .read fun _ => retireEach_emits hP

theorem retireFailedPrimaryContexts_emits (hP : P (.other .providerThread rfl)) :
    Emits P (retireFailedPrimaryContexts env id) :=
  .bind emits_getRecord fun _ => .bind emits_getRecord fun _ =>
    .read fun _ => retireEach_emits hP

/-- The outcome of an offer: an admission, or at most retired contexts. -/
def Offered (P : Event → Prop) (s : DB) (r : Option Grant) (s' : DB) : Prop :=
  Effects P s s' ∧ (r = none → Effects Event.IsRetiring s s')

/-- The slots read from the database describe it. -/
theorem current_of_mem_capacity {hostIds : List Id} (h : slot ∈ s.capacity env hostIds) :
    slot.Current s ∧ slot.hostId ∈ hostIds := by
  obtain ⟨row, hrow, rfl⟩ := mem_map.mp (mem_of_mem_filter h)
  obtain ⟨hrow, hp⟩ := mem_filter.mp hrow
  refine ⟨⟨fun h hh => ?_, fun l hl => ?_, fun l hl hattached => ?_, ?_⟩,
    by simp only [Bool.and_eq_true] at hp; simpa using hp.1.1.1⟩
  · obtain ⟨hh, hkey⟩ := find?_eq_some.mp hh
    rw [(s .hostHarness).eq_of_key hh hrow hkey]
  · exact find?_key (mem_of_mem_filter hl)
  · exact mem_filter.mpr ⟨hl, hattached⟩
  · exact (s .resourceLimit).nodup.sublist (filter_sublist.map _)

theorem Ready.retired (h : Ready s item) (hs : Effects Event.IsRetiring s s') : Ready s' item :=
  ⟨h.status, h.unpaused, by rw [hs.retiring_frame (by decide)]; exact h.enabled⟩

section

variable (hr : ∀ ev : Event, ev.isRoutine → ev.isSteady → P ev)
include hr

theorem Effects.offered (h : Effects Event.IsRetiring s s') : Offered P s none s' :=
  ⟨h.mono fun ev hev => hr ev (by rw [hev]; rfl) (by rw [hev]; rfl), fun _ => h⟩

/-- A search that retires contexts until an offer is taken. -/
theorem firstOffered {ι : Type} {f : ι → Tx (Option Grant)} {is : List ι}
    (hf : ∀ i ∈ is, ∀ s', Effects Event.IsRetiring s s' → Ensures (f i) s' (Offered P s')) :
    Ensures (firstSome f is) s (Offered P s) := by
  refine ensures_firstSome (J := Effects Event.IsRetiring s) (Moves.refl s) (fun i hi s' hs' => ?_)
    fun s' hs' => hs'.offered hr
  refine (hf i hi s' hs').mono fun r s'' h => ⟨⟨?_, fun hnone => hs'.trans (h.2 hnone)⟩, ?_⟩
  · exact (hs'.offered hr).1.trans h.1
  · exact fun hnone => hs'.trans (h.2 hnone)

variable (hstart : ∀ id, P (.assignmentAdmitted id)) (hadmitted : P .executionAdmitted)
  (hclaim : P .claimAdmitted)
include hstart hadmitted hclaim

theorem offerSlot_ensures (hs : Sound s)
    (hitem : (s .assignment).find? item.id = some item)
    (hrun : (s .run).find? item.runId = some run)
    (hready : Ready s item) (hslot : slot.Current s) (hhost : slot.hostId = hostId) :
    Ensures (offerSlot env hostId item run slot) s (Offered P s) := by
  refine .ask fun blocked hblocked => ?_
  refine .ite (fun _ => .pure (Effects.offered hr (Moves.refl s))) fun hfree => ?_
  obtain rfl : blocked = none := by
    cases blocked with
    | none => rfl
    | some _ => simp at hfree
  rw [ensures_bind]
  intro _ s₁ h₁
  have he₁ : Effects Event.IsRetiring s s₁ :=
    (retireOrphanedPrelaunchThreads_emits (P := Event.IsRetiring) rfl).from hs _ _ h₁
  rw [ensures_bind]
  intro _ s₂ h₂
  have he₂ : Effects Event.IsRetiring s s₂ := he₁.trans
    ((retireFailedPrimaryContexts_emits (P := Event.IsRetiring) rfl).from (he₁.sound hs) _ _ h₂)
  have hst := he₂.retiring_steady
  have hc := hs.consistent
  refine .read ?_
  refine .ite (fun _ => .pure (he₂.offered hr)) fun hfits => ?_
  obtain ⟨⟨_, hslots⟩, hlimits⟩ : (_ ∧ s₂.busyWeight env.now (onSlot hostId slot.harnessId)
      < slot.executionSlots) ∧ s₂.limitsAvailable slot.limits := by simpa using hfits
  have hroom : Room s₂ item run slot 1 := by
    refine ⟨fun h hh => ?_, fun settings ho hp => ?_, fun settings h ho hp hrole _ hh => ?_,
      fun l hl => ?_⟩
    · rw [(hslot.steady hst).slots h hh, hhost]
      exact (reservedWeight_le_busyWeight fun _ h => h).trans_lt hslots
    · rw [reservedWeight_steady hst hc fun e he => hst.inCategory_eq hc he _ _]
      exact (reservedWeight_le_busyWeight fun _ h => h).trans_lt (blocker_ok hblocked ho hp).1
    · rw [reservedWeight_steady hst hc fun e he => hst.isWorkerOn_eq hc he _ _,
        (hslot.steady hst).slots h hh]
      exact (reservedWeight_le_busyWeight fun _ h => h).trans_lt
        ((blocker_ok hblocked ho hp).2 hrole)
    · have h := all_eq_true.mp hlimits l hl
      simp only [Bool.and_eq_true, Bool.not_eq_true'] at h
      exact h
  refine .ask fun placement hplacement => ?_
  cases placement with
  | none => exact .pure (he₂.offered hr)
  | some placement =>
    refine .ite (fun _ => .pure (he₂.offered hr)) fun _ => ?_
    rw [ensures_map]
    refine (start_ensures hr (hstart _) hadmitted hclaim (he₂.sound hs) ?_ ?_ (hready.retired he₂)
      (hslot.steady hst) hroom ?_).mono fun g s' h => ⟨(he₂.offered hr).1.trans h, nofun⟩
    · rwa [he₂.retiring_frame (by decide)]
    · rwa [he₂.retiring_frame (by decide)]
    · rintro w rfl
      exact availableWorkspace_ok hplacement

theorem offer_ensures (hs : Sound s) (hitem : (s .assignment).find? item.id = some item)
    (hslots : ∀ slot ∈ slots, slot.Current s ∧ slot.hostId = hostId) :
    Ensures (offer env hostId slots item) s (Offered P s) := by
  have hnone : Offered P s none s := Effects.offered hr (Moves.refl s)
  refine .ask fun ready hready => ?_
  refine .read ?_
  refine .ite (fun _ => .pure hnone) fun hgate => ?_
  obtain rfl : ready = .true := by
    by_contra hne
    exact hgate (.inl hne)
  have hready := readiness_ok hready
  refine ensures_fetch fun run _ => ?_
  refine .ask fun _ _ => ?_
  refine .ite (fun _ => .pure hnone) fun _ => ?_
  refine firstOffered hr fun slot hmem s' hs' => ?_
  obtain ⟨hslot, hhost⟩ := hslots slot hmem
  refine offerSlot_ensures hr hstart hadmitted hclaim (hs'.sound hs) ?_ ?_ (hready.retired hs')
    (hslot.steady hs'.retiring_steady) hhost
  · rwa [hs'.retiring_frame (by decide)]
  · rwa [hs'.retiring_frame (by decide)]

theorem scan_ensures (hs : Sound s) {supervisory : Bool}
    (hslots : ∀ slot ∈ slots, slot.Current s ∧ slot.hostId = hostId) :
    Ensures (scan env hostId slots supervisory) s (Offered P s) := by
  refine .read ?_
  refine firstOffered hr fun item hmem s' hs' => ?_
  have hitem : item ∈ s .assignment := mem_of_mem_filter (env.page_subset _ _ _ _ hmem)
  refine offer_ensures hr hstart hadmitted hclaim (hs'.sound hs) ?_ fun slot hmem => ?_
  · rw [hs'.retiring_frame (by decide)]
    exact find?_key hitem
  · exact ⟨(hslots slot hmem).1.steady hs'.retiring_steady, (hslots slot hmem).2⟩

theorem claim_emits {harnessIds : List Id} : Emits P (claim env actor hostId harnessIds) := by
  refine .ask fun _ => .bind emits_getRecord fun _ => ?_
  refine .unless ?_
  refine .bind (emits_change_other rfl (hr _ rfl rfl)) fun _ => .ite (fun _ => .pure) fun _ s => ?_
  refine .read ?_
  intro r s' h hs
  have hslots : ∀ slot ∈ (s.capacity env [hostId]).filter fun slot =>
      harnessIds.contains slot.harnessId, slot.Current s ∧ slot.hostId = hostId := by
    intro slot hmem
    obtain ⟨hslot, hhost⟩ := current_of_mem_capacity (mem_of_mem_filter hmem)
    exact ⟨hslot, mem_singleton.mp hhost⟩
  obtain ⟨first, _, h₁, h⟩ := bind_eq_ok.mp h
  have hfirst := scan_ensures hr hstart hadmitted hclaim hs hslots _ _ h₁
  cases first with
  | some _ =>
    cases h
    exact hfirst.1
  | none =>
    have hs₁ := hfirst.2 rfl
    refine hfirst.1.trans
      (scan_ensures hr hstart hadmitted hclaim (hs₁.sound hs) (fun slot hmem => ?_) _ _ h).1
    exact ⟨(hslots slot hmem).1.steady hs₁.retiring_steady, (hslots slot hmem).2⟩

end

theorem heartbeat_emits (hr : ∀ ev : Event, ev.isRoutine → P ev) {epoch : Nat} :
    Emits P (heartbeat env actor id epoch) := by
  refine .bind emits_getRecord fun _ => .ask fun _ => ?_
  refine .guard <| .bind emits_getRecord fun _ => ?_
  refine .bind emits_getRecord fun run => .bind (emits_change_other rfl (hr _ rfl)) fun _ => ?_
  refine .unless ?_
  refine .bind (emits_change .executionChanged (hr _ rfl) fun _ _ _ _ => ?_) fun _ => ?_
  · exact ⟨⟨rfl, rfl, rfl, rfl, rfl, rfl, fun h => h⟩, rfl, rfl, rfl⟩
  · refine .ask fun _ => .ask fun _ => ?_
    exact .read fun _ => .pure

end Horizon
