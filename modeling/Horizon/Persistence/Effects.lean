import Horizon.Persistence.Events
import Horizon.Library.System

/-!
# What a transaction may write

Every write is an *effect* of one kind.  A model function is described by the events of
its writes (`Emits`), and an invariant of the database is proved once, by cases over the
events, and never by looking at the functions again.
-/

namespace Horizon

open Table List Option Bool Moves Database

variable {expected : Option Nat} {f : Tx α} {automationId : Option Id} {P : Event → Prop}
  {runId id : Id}
  {i : ForgeItem} {rule : Automation} {s s' : DB} {e : Execution} {ev : Event} {t : TableName}
  {a : Assignment}

/-- One write, with its event. -/
inductive Effect : Event → DB → DB → Prop
  | insert {s : DB} {ev : Event} {row : Row ev.table} {h : ∀ r ∈ s ev.table, key _ r ≠ key _ row} :
    admissible ev.table s row → ev.Inserts s row →
    Effect ev s (s.write ev.table ((s ev.table).insert row h))
  | change {s : DB} {ev : Event} {k : Key ev.table} {old : Row ev.table}
      {f : Row ev.table → Row ev.table} {hf : ∀ r, key _ (f r) = key _ r} :
    (s ev.table).find? k = some old → admissible ev.table s (f old) →
    ev.Changes s old (f old) →
    Effect ev s (s.write ev.table ((s ev.table).updateWhere (fun r => decide (key _ r = k)) f hf))
  | bulk {s : DB} {ev : Event} {p : Row ev.table → Bool} {f : Row ev.table → Row ev.table}
      {hf : ∀ r, key _ (f r) = key _ r} :
    (∀ r ∈ s ev.table, p r → wellFormed ev.table s (f r)
      ∧ (∀ r', conflicts ev.table (f r) r' → conflicts ev.table r r')
      ∧ ev.Changes s r (f r)) →
    Effect ev s (s.write ev.table ((s ev.table).updateWhere p f hf))
  | detach {s : DB} {p : HostHarnessLimit → Bool} :
    Effect .limitDetached s (s.write .hostHarnessLimit ((s .hostHarnessLimit).restrict p))

/-- Finitely many writes, with events satisfying `P`. -/
abbrev Effects (P : Event → Prop) : DB → DB → Prop := Moves Effect P

/-! ## What executions are accounted to -/

/-- The stored assignments and runs keep what capacity is accounted by. -/
structure SameAccounts (s s' : DB) : Prop where
  assignment : ∀ id a, (s .assignment).find? id = some a →
    ∃ a', (s' .assignment).find? id = some a' ∧ a.SameWork a'
  run : ∀ id r, (s .run).find? id = some r → ∃ r', (s' .run).find? id = some r'
    ∧ r'.orchestration = r.orchestration ∧ r'.queuePolicies = r.queuePolicies

instance : Std.Refl SameAccounts :=
  ⟨fun _ => ⟨fun _ a h => ⟨a, h, .refl a⟩, fun _ r h => ⟨r, h, rfl, rfl⟩⟩⟩

instance : IsTrans DB SameAccounts where
  trans s s' s'' h h' := by
    constructor
    · intro id a ha
      obtain ⟨a', ha', hw⟩ := h.assignment id a ha
      obtain ⟨a'', ha'', hw'⟩ := h'.assignment id a' ha'
      exact ⟨a'', ha'', hw.trans hw'⟩
    · intro id r hr
      obtain ⟨r', hr', ho, hp⟩ := h.run id r hr
      obtain ⟨r'', hr'', ho', hp'⟩ := h'.run id r' hr'
      exact ⟨r'', hr'', ho'.trans ho, hp'.trans hp⟩

namespace SameAccounts

variable (h : SameAccounts s s') (hc : Consistent s) (he : e ∈ s .execution)
include h hc he

theorem isObjective_eq : s'.isObjective e.assignmentId = s.isObjective e.assignmentId := by
  obtain ⟨a, ha⟩ := hc.assignmentOf he
  obtain ⟨r, hr⟩ := hc.runOf ha
  obtain ⟨a', ha', hw⟩ := h.assignment _ a ha
  obtain ⟨r', hr', ho, _⟩ := h.run _ r hr
  simp only [DB.isObjective, ha, ha', bind_some, hw.runId, hr, hr', any_some, ho]

theorem inCategory_eq (runId : Id) (name : Category) :
    s'.inCategory runId name e = s.inCategory runId name e := by
  obtain ⟨a, ha⟩ := hc.assignmentOf he
  obtain ⟨a', ha', hw⟩ := h.assignment _ a ha
  simp only [DB.inCategory, ha, ha', any_some, hw.runId, hw.category]

theorem isWorkerOn_eq (hostId harnessId : Id) :
    s'.isWorkerOn hostId harnessId e = s.isWorkerOn hostId harnessId e := by
  obtain ⟨a, ha⟩ := hc.assignmentOf he
  obtain ⟨a', ha', hw⟩ := h.assignment _ a ha
  simp only [DB.isWorkerOn, ha, ha', any_some, hw.role]

end SameAccounts

/-! ## How assignments evolve -/

/-- The moves of an assignment to another status. -/
inductive Assignment.MovedBy (s : DB) (a a' : Assignment) : Event → Prop
  | revived {soleOwner waits : Bool} (pending : a'.status = .pending)
    (inactive : a.status.isActive = false) (sole : soleOwner → a.status.isLive
      ∨ s.isRoot a.missionId ∨ s.soleOwner a) :
    MovedBy s a a' (.assignmentRevived a.id soleOwner waits)
  | admitted (pending : a.status = .pending) (running : a'.status = .running) :
    MovedBy s a a' (.assignmentAdmitted a.id)
  | lost (live : a.status.isLive)
    (status : a'.status = if a.status.isActive then .stopping else .cancelled) :
    MovedBy s a a' (.assignmentLost a.id)
  | settled (active : a.status.isActive) (inactive : a'.status.isActive = false)
    (stopping : a.status = .stopping → a'.status = .cancelled)
    (dead : ∀ e ∈ s .execution, e.assignmentId = a.id → e.status.isLive = false) :
    MovedBy s a a' (.assignmentSettled a.id)

/-- What an event makes of a stored assignment, whichever event it is. -/
structure Assignment.Evolves (ev : Event) (s : DB) (a a' : Assignment) : Prop where
  id : a'.id = a.id
  work : a.SameWork a'
  functions : a'.functions = a.functions
    ∨ ∃ condition, ev = .assignmentConditioned a.id condition (some a'.functions)
  recurrenceKey : a'.recurrenceKey = a.recurrenceKey ∨ ∃ key, a.Keyed s key a'
  status : a'.status = a.status ∨ a.MovedBy s a' ev

theorem Assignment.Evolves.refl (a : Assignment) : a.Evolves ev s a :=
  ⟨rfl, .refl a, .inl rfl, .inl rfl, .inl rfl⟩

namespace Effect

variable {r' : Row ev.table}

variable (h : Effect ev s s')

include h

/-- A write leaves the other tables alone. -/
theorem frame (ht : t ≠ ev.table) : s' t = s t := by
  cases h with
  | insert | change | bulk | detach => exact write_of_ne _ ht _

theorem consistent (hc : Consistent s) : Consistent s' := by
  cases h with
  | insert ha _ => exact hc.insert ha
  | change hold ha _ => exact hc.change hold ha
  | bulk hu => exact hc.bulk fun r hr hp => ⟨(hu r hr hp).1, (hu r hr hp).2.1⟩
  | detach => exact hc.restrict

theorem keepsKeys : KeepsKeys s s' := by
  cases h with
  | insert => exact keepsKeys_insert
  | change | bulk => exact keepsKeys_updateWhere
  | detach => exact keepsKeys_write (.inl rfl)

/-- Where the rows of the written table come from. -/
theorem mem (hr' : r' ∈ s' ev.table) :
    r' ∈ s ev.table ∨ (ev.Inserts s r' ∧ ∀ r ∈ s ev.table, key _ r ≠ key _ r')
      ∨ ∃ r ∈ s ev.table, key _ r' = key _ r ∧ ev.Changes s r r' := by
  cases h with
  | insert _ hi =>
    rw [write_self] at hr'
    rcases mem_insert.mp hr' with hr' | rfl
    · exact .inl hr'
    · exact .inr (.inl ⟨hi, ‹_›⟩)
  | @change _ _ k old f hf hold _ hch =>
    rw [write_self] at hr'
    obtain ⟨r, hr, rfl⟩ := mem_updateWhere.mp hr'
    obtain ⟨hmem, rfl⟩ := find?_eq_some.mp hold
    by_cases hk : key _ r = key _ old
    · obtain rfl := (s ev.table).eq_of_key hr hmem hk
      exact .inr (.inr ⟨r, hr, by simp [hf], by simpa using hch⟩)
    · exact .inl (by simpa [hk] using hr)
  | @bulk _ _ p f hf hu =>
    rw [write_self] at hr'
    obtain ⟨r, hr, rfl⟩ := mem_updateWhere.mp hr'
    cases hp : p r
    · exact .inl hr
    · exact .inr (.inr ⟨r, hr, by simp [hf], by simpa using (hu r hr hp).2.2⟩)
  | detach => exact .inl (mem_restrict.mp (by rwa [write_self] at hr')).1

/-- Where the rows of any table come from. -/
theorem origin {r' : Row t} (hr' : r' ∈ s' t) :
    r' ∈ s t ∨ ∃ ht : ev.table = t, (ev.Inserts s (ht ▸ r') ∧ ∀ r ∈ s t, key _ r ≠ key _ r')
      ∨ ∃ r ∈ s t, key _ r' = key _ r ∧ ev.Changes s (ht ▸ r) (ht ▸ r') := by
  by_cases ht : ev.table = t
  · subst ht
    exact (h.mem hr').imp_right fun hw => ⟨rfl, hw⟩
  · rw [h.frame (Ne.symm ht)] at hr'
    exact .inl hr'

/-- A write appends a row, or rewrites stored ones in place. -/
theorem rows (hne : ev.table ≠ .hostHarnessLimit) :
    (∃ row, (s' ev.table).rows = (s ev.table).rows ++ [row] ∧ ev.Inserts s row
      ∧ ∀ r ∈ s ev.table, key _ r ≠ key _ row)
      ∨ ∃ g : Row ev.table → Row ev.table, (s' ev.table).rows = (s ev.table).rows.map g
        ∧ (∀ r, key _ (g r) = key _ r) ∧ ∀ r ∈ s ev.table, g r = r ∨ ev.Changes s r (g r) := by
  cases h with
  | @insert _ _ row hnew _ hi =>
    exact .inl ⟨row, by rw [write_self, rows_insert], hi, hnew⟩
  | @change _ _ k old f hf hold _ hch =>
    refine .inr ⟨_, by rw [write_self, rows_updateWhere], fun r => ?_, fun r hr => ?_⟩
    · split
      · exact hf r
      · rfl
    · by_cases hk : key _ r = k
      · obtain ⟨hmem, rfl⟩ := find?_eq_some.mp hold
        obtain rfl := (s ev.table).eq_of_key hr hmem hk
        exact .inr (by simpa using hch)
      · exact .inl (by simp [hk])
  | @bulk _ _ p f hf hu =>
    refine .inr ⟨_, by rw [write_self, rows_updateWhere], fun r => ?_, fun r hr => ?_⟩
    · split
      · exact hf r
      · rfl
    · cases hp : p r
      · exact .inl rfl
      · exact .inr (by simpa using (hu r hr hp).2.2)
  | detach => exact absurd rfl hne

/-- What becomes of a stored row. -/
theorem find? (hne : t ≠ .hostHarnessLimit) {k : Key t} {r : Row t}
    (hr : (s t).find? k = some r) :
    ∃ r', (s' t).find? k = some r'
      ∧ (r' = r ∨ ∃ ht : ev.table = t, ev.Changes s (ht ▸ r) (ht ▸ r')) := by
  have hmem := (find?_eq_some.mp hr)
  obtain ⟨r', hr'⟩ := isSome_iff_exists.mp (h.keepsKeys t hne k (by rw [DB.has, hr]; rfl))
  have hmem' := find?_eq_some.mp hr'
  refine ⟨r', hr', ?_⟩
  rcases h.origin hmem'.1 with h₁ | ⟨ht, ⟨_, h₁⟩ | ⟨_, h₀, hk, hch⟩⟩
  · exact .inl ((s t).eq_of_key h₁ hmem.1 (hmem'.2.trans hmem.2.symm))
  · exact absurd (hmem.2.trans hmem'.2.symm) (h₁ r hmem.1)
  · obtain rfl := (s t).eq_of_key h₀ hmem.1 (hk.symm.trans (hmem'.2.trans hmem.2.symm))
    exact .inr ⟨ht, hch⟩

/-- Where the assignments come from: a new one was checked by the queue, and a stored one evolves.
-/
theorem assignment_origin {a' : Assignment} (ha' : a' ∈ s' .assignment) :
    (ev = .assignmentQueued ∧ a'.Queued s ∧ ∀ a ∈ s .assignment, a.id ≠ a'.id)
      ∨ ∃ a ∈ s .assignment, a.Evolves ev s a' := by
  obtain ha | ⟨ht, hw⟩ := h.origin ha'
  · exact .inr ⟨a', ha, .refl a'⟩
  cases ev with
  | assignmentQueued =>
    obtain ⟨hqueued, hnew⟩ | ⟨_, _, _, ⟨⟩⟩ := hw
    exact .inl ⟨rfl, hqueued, hnew⟩
  | assignmentChanged =>
    obtain ⟨⟨⟩, _⟩ | ⟨a, ha, hid, hw, hl, hs, _⟩ := hw
    exact .inr ⟨a, ha, hid, hw, .inl hl.functions, .inl hl.recurrenceKey, .inl hs⟩
  | assignmentKeyed key =>
    obtain ⟨⟨⟩, _⟩ | ⟨a, ha, hid, hw, hk⟩ := hw
    exact .inr ⟨a, ha, hid, hw, .inl hk.functions, .inr ⟨key, hk⟩, .inl hk.status⟩
  | assignmentConditioned id' condition functions =>
    obtain ⟨⟨⟩, _⟩ | ⟨a, ha, hid, hw, hat, hs, hfun, hkey, _⟩ := hw
    refine .inr ⟨a, ha, hid, hw, ?_, .inl hkey, .inl hs⟩
    cases functions with
    | none => exact .inl hfun
    | some functions => exact .inr ⟨condition, by rw [hat, hfun]; rfl⟩
  | assignmentResumed =>
    obtain ⟨⟨⟩, _⟩ | ⟨a, ha, hid, hw, _, hl, hs⟩ := hw
    exact .inr ⟨a, ha, hid, hw, .inl hl.functions, .inl hl.recurrenceKey, .inl hs⟩
  | assignmentRevived =>
    obtain ⟨⟨⟩, _⟩ | ⟨a, ha, hid, hw, hat, hfun, hkey, hs, hinactive, _, _, hsole⟩ := hw
    exact .inr ⟨a, ha, hid, hw, .inl hfun, .inl hkey, .inr (hat ▸ .revived hs hinactive hsole)⟩
  | assignmentAdmitted =>
    obtain ⟨⟨⟩, _⟩ | ⟨a, ha, hid, hw, hat, hl, hpending, hrunning, _⟩ := hw
    exact .inr ⟨a, ha, hid, hw, .inl hl.functions, .inl hl.recurrenceKey,
      .inr (hat ▸ .admitted hpending hrunning)⟩
  | assignmentLost =>
    obtain ⟨⟨⟩, _⟩ | ⟨a, ha, hid, hw, hat, hl, _, hlive, hs⟩ := hw
    exact .inr ⟨a, ha, hid, hw, .inl hl.functions, .inl hl.recurrenceKey,
      .inr (hat ▸ .lost hlive hs)⟩
  | assignmentSettled =>
    obtain ⟨⟨⟩, _⟩ | ⟨a, ha, hid, hw, hat, hfun, hkey, _, hactive, hinactive, hstopping,
      hdead⟩ := hw
    exact .inr ⟨a, ha, hid, hw, .inl hfun, .inl hkey,
      .inr (hat ▸ .settled hactive hinactive hstopping (hat ▸ hdead))⟩
  | other t hu => cases ht; cases hu
  | _ => cases ht

/-- A stored assignment stays stored, and evolves. -/
theorem assignment_evolves (ha : (s .assignment).find? id = some a) :
    ∃ a', (s' .assignment).find? id = some a' ∧ a.Evolves ev s a' := by
  obtain ⟨hmem, rfl⟩ := find?_eq_some.mp ha
  obtain ⟨a', ha'⟩ := isSome_iff_exists.mp
    (h.keepsKeys .assignment (by decide) _ (by rw [DB.has, ha]; rfl))
  obtain ⟨hmem', hid⟩ := find?_eq_some.mp ha'
  rcases h.assignment_origin hmem' with ⟨_, _, hnew⟩ | ⟨b, hb, hev⟩
  · exact absurd hid.symm (hnew a hmem)
  · obtain rfl := (s .assignment).eq_of_key hb hmem (hev.id.symm.trans hid)
    exact ⟨a', ha', hev⟩

/-- A stored assignment stays the same work, and an active one is given up only when no
execution works on it any more. -/
theorem assignment (ha : (s .assignment).find? id = some a) :
    ∃ a', (s' .assignment).find? id = some a' ∧ a.SameWork a'
      ∧ (a.status.isActive → a'.status.isActive
        ∨ ∀ e ∈ s .execution, e.assignmentId = id → e.status.isLive = false) := by
  obtain ⟨a', ha', hev⟩ := h.assignment_evolves ha
  obtain ⟨_, rfl⟩ := find?_eq_some.mp ha
  refine ⟨a', ha', hev.work, fun hactive => ?_⟩
  rcases hev.status with hs | hm
  · exact .inl (hs ▸ hactive)
  · cases hm with
    | revived _ hinactive => exact absurd hactive (by rw [hinactive]; decide)
    | admitted _ hrunning => exact .inl (by rw [hrunning]; rfl)
    | lost _ hs => exact .inl (by rw [hs, if_pos hactive]; rfl)
    | settled _ _ _ hdead => exact .inr hdead

/-- Only some writes move an assignment to another status. -/
theorem sameStatus (ha : (s .assignment).find? id = some a)
    (hev : ev.moves id = false) : ∃ a', (s' .assignment).find? id = some a' ∧ a.SameStatus a' := by
  obtain ⟨a', ha', he⟩ := h.assignment_evolves ha
  obtain ⟨_, rfl⟩ := find?_eq_some.mp ha
  refine ⟨a', ha', he.work, he.status.resolve_right fun hm => ?_⟩
  cases hm <;> simp [Event.moves, key] at hev

/-- A stored run keeps its mission, its orchestration and its policies. -/
theorem run {r : Run} (hr : (s .run).find? id = some r) :
    ∃ r', (s' .run).find? id = some r' ∧ r.SameSetup r' := by
  obtain ⟨r', hr', rfl | ⟨ht, hch⟩⟩ := h.find? (by decide) hr
  · exact ⟨r', hr', rfl, rfl, rfl⟩
  cases ev with
  | runChanged | runReopened | phaseAccepted | phaseAdvanced => exact ⟨r', hr', hch.1⟩
  | runCreated => cases hch
  | other t hu => cases ht; cases hu
  | _ => cases ht

/-- A stored rule stays the same recurrence. -/
theorem automation {a : Automation} (ha : (s .automation).find? id = some a) :
    ∃ a', (s' .automation).find? id = some a' ∧ a.SameRule a' := by
  obtain ⟨a', ha', rfl | ⟨ht, hch⟩⟩ := h.find? (by decide) ha
  · exact ⟨a', ha', rfl, rfl⟩
  cases ev with
  | ruleChanged | rulesDisabled | ruleEnabled | ruleRestarted => exact ⟨a', ha', hch.1⟩
  | ruleCreated => cases hch
  | other t hu => cases ht; cases hu
  | _ => cases ht

/-- A stored execution keeps what it was admitted for, and its stop unless it is confirmed. -/
theorem execution (he : (s .execution).find? id = some e) :
    ∃ e', (s' .execution).find? id = some e'
      ∧ e.SameAdmission e' ∧ (e'.stopConfirmedAt = e.stopConfirmedAt
        ∨ ((∃ ended, ev = .stopConfirmed id ended) ∧ e'.stopConfirmedAt.isSome)) := by
  obtain ⟨e', he', rfl | ⟨ht, hch⟩⟩ := h.find? (by decide) he
  · exact ⟨e', he', ⟨rfl, rfl, rfl, rfl, rfl, rfl, fun h => h⟩, .inl rfl⟩
  cases ev with
  | executionAdmitted => cases hch
  | executionChanged => exact ⟨e', he', hch.1, .inl hch.2.1⟩
  | executionEnded => exact ⟨e', he', hch.1, .inl hch.2.2⟩
  | stopConfirmed =>
    obtain ⟨hsame, hid, hstop, _⟩ := hch
    obtain rfl := hid.symm.trans (key_of_find? he)
    exact ⟨e', he', hsame, .inr ⟨⟨_, rfl⟩, hstop⟩⟩
  | other t hu => cases ht; cases hu
  | _ => cases ht

/-- A Forge item changes only when it is synchronised. -/
theorem forgeItem (hi : (s .forgeItem).find? id = some i)
    (hev : ev ≠ .itemSynced id) : ∃ i', (s' .forgeItem).find? id = some i' ∧ i.SameState i' := by
  obtain ⟨i', hi', rfl | ⟨ht, hch⟩⟩ := h.find? (by decide) hi
  · exact ⟨i', hi', .refl i'⟩
  cases ev with
  | itemRecorded => cases hch
  | itemSynced id' =>
    obtain rfl : i.id = id' := hch
    exact absurd (congrArg Event.itemSynced (key_of_find? hi)) hev
  | itemPhased => exact ⟨i', hi', hch⟩
  | other t hu => cases ht; cases hu
  | _ => cases ht

theorem sameAccounts : SameAccounts s s' where
  assignment _ _ ha := by
    obtain ⟨a', ha', hw, _⟩ := h.assignment ha
    exact ⟨a', ha', hw⟩
  run _ _ hr := by
    obtain ⟨r', hr', hs⟩ := h.run hr
    exact ⟨r', hr', hs.orchestration, hs.queuePolicies⟩

end Effect

/-- A rule that was read is still stored, as the same recurrence. -/
def DB.Knows (s : DB) (rule : Automation) : Prop :=
  ∃ r, (s .automation).find? rule.id = some r ∧ rule.SameRule r

theorem knows_of_mem (h : rule ∈ s .automation) : s.Knows rule :=
  ⟨rule, find?_key h, rfl, rfl⟩

/-! ## Sound databases -/

/-- What every write relies on, besides the constraints of the schema: the assignment of a
live execution is active, the rule of an assignment recurs in its run, the rules of an
objective run are its planner, and only planners have the keys of planners. -/
structure Sound (s : DB) : Prop where
  consistent : Consistent s
  ruled : ∀ a ∈ s .assignment, ∀ rule,
    a.automationId.bind (s .automation).find? = some rule → rule.runId = a.runId
  owned : ∀ e ∈ s .execution, e.status.isLive → ∀ a,
    (s .assignment).find? e.assignmentId = some a → a.status.isActive
  planners : ∀ rule ∈ s .automation, s.isObjectiveRun rule.runId →
    rule.name = .objectivePlanner
  keyed : ∀ a ∈ s .assignment, a.recurrenceKey.any RecurrenceKey.isPlanner →
    s.isPlanner a.automationId a.runId

namespace Sound

variable (hs : Sound s)
include hs

theorem wellFormed {r : Row t} (hr : r ∈ s t) : Horizon.wellFormed t s r :=
  hs.consistent.wellFormed hr

theorem assignmentOf (he : e ∈ s .execution) : ∃ a, (s .assignment).find? e.assignmentId = some a :=
  hs.consistent.assignmentOf he

theorem runOf (ha : (s .assignment).find? id = some a) : ∃ r, (s .run).find? a.runId = some r :=
  hs.consistent.runOf ha

/-- The mission of a stored assignment. -/
theorem missionOf (ha : a ∈ s .assignment) : ∃ m, (s .mission).find? a.missionId = some m := by
  have h := hs.wellFormed ha
  simp only [Horizon.wellFormed, and_eq_true] at h
  exact isSome_iff_exists.mp h.1.1.1.2

end Sound

namespace Effect

variable (h : Effect ev s s')

include h

/-- A stored run keeps its orchestration, so a stored rule stays one of an objective. -/
theorem isObjectiveRun (hr : s.has .run id) : s'.isObjectiveRun id = s.isObjectiveRun id := by
  obtain ⟨r, hr⟩ := isSome_iff_exists.mp hr
  obtain ⟨r', hr', hset⟩ := h.run hr
  simp only [DB.isObjectiveRun, hr, hr', any_some, hset.orchestration]

theorem isObjectiveRun_of (hr : s.isObjectiveRun id) : s'.isObjectiveRun id := by
  obtain ⟨r, hfind, _⟩ := any_eq_true _ _ |>.mp hr
  rw [h.isObjectiveRun (by rw [DB.has, hfind]; rfl), hr]

/-- The planner of an objective run stays it. -/
theorem isPlanner (hp : s.isPlanner automationId runId) : s'.isPlanner automationId runId := by
  rw [DB.isPlanner, and_eq_true, Option.any_eq_true] at hp
  obtain ⟨⟨_, hrule, hname⟩, hrun⟩ := hp
  obtain ⟨id, rfl, hrule⟩ := bind_eq_some_iff.mp hrule
  obtain ⟨_, hrule', hsame⟩ := h.automation hrule
  rw [DB.isPlanner, h.isObjectiveRun_of hrun]
  simpa [hrule', hsame.name, hsame.runId] using hname

/-- The assignment of an execution that stays live stays active. -/
theorem owned (hs : Sound s) : ∀ e ∈ s' .execution, e.status.isLive →
    ∀ a, (s' .assignment).find? e.assignmentId = some a → a.status.isActive := by
  -- A live execution was live before: writes of executions never revive one.
  have hold : ∀ e ∈ s .execution, e.status.isLive → ∀ a,
      (s' .assignment).find? e.assignmentId = some a → a.status.isActive := by
    intro e he hlive a ha
    obtain ⟨a₀, ha₀⟩ := hs.assignmentOf he
    obtain ⟨a', ha', _, hact⟩ := h.assignment ha₀
    cases ha.symm.trans ha'
    rcases hact (hs.owned e he hlive a₀ ha₀) with hact | hdead
    · exact hact
    · exact absurd hlive (by rw [hdead e he rfl]; decide)
  intro e he hlive a ha
  obtain he | ⟨ht, hw⟩ := h.origin he
  · exact hold e he hlive a ha
  cases ev with
  | executionAdmitted =>
    obtain ⟨hadm, _⟩ | ⟨_, _, _, ⟨⟩⟩ := hw
    exact hadm.owned a (by rwa [h.frame (by decide)] at ha)
  | executionChanged | executionEnded | stopConfirmed =>
    obtain ⟨⟨⟩, _⟩ | ⟨e₀, he₀, _, hsame, _⟩ := hw
    exact hold e₀ he₀ (hsame.revived hlive) a (by rwa [hsame.assignmentId] at ha)
  | other t hu => cases ht; cases hu
  | _ => cases ht

/-- The rule of an assignment stays one of its run. -/
theorem ruled (hs : Sound s) : ∀ a ∈ s' .assignment, ∀ rule,
    a.automationId.bind (s' .automation).find? = some rule → rule.runId = a.runId := by
  -- A stored assignment keeps its rule, which was stored and keeps its run.
  have hold : ∀ a ∈ s .assignment, ∀ rule, a.automationId.bind (s' .automation).find? = some rule →
      rule.runId = a.runId := by
    intro a ha rule hrule
    obtain ⟨id, hid, hrule⟩ := bind_eq_some_iff.mp hrule
    have hwf := hs.wellFormed ha
    simp only [Horizon.wellFormed, and_eq_true, hid, all_some] at hwf
    obtain ⟨rule₀, hrule₀⟩ := isSome_iff_exists.mp hwf.1.1.2
    obtain ⟨_, hrule', hsame⟩ := h.automation hrule₀
    cases hrule.symm.trans hrule'
    rw [hsame.runId]
    exact hs.ruled a ha rule₀ (by rw [hid]; exact hrule₀)
  intro a ha rule hrule
  rcases h.assignment_origin ha with ⟨rfl, hqueued, _⟩ | ⟨a₀, ha₀, hev⟩
  · rw [h.frame (t := .automation) (by decide)] at hrule
    exact hqueued.rule rule hrule
  · rw [hev.work.runId]
    exact hold a₀ ha₀ rule (by rwa [hev.work.automationId] at hrule)

/-- The rules of an objective run stay its planner. -/
theorem planners (hs : Sound s) : ∀ rule ∈ s' .automation,
    s'.isObjectiveRun rule.runId → rule.name = .objectivePlanner := by
  have hold : ∀ rule ∈ s .automation, s'.isObjectiveRun rule.runId →
      rule.name = .objectivePlanner := by
    intro rule hrule hobj
    have hwf := hs.wellFormed hrule
    simp only [Horizon.wellFormed, and_eq_true] at hwf
    exact hs.planners rule hrule (by rwa [h.isObjectiveRun hwf.1.1] at hobj)
  intro rule hrule hobj
  obtain hrule | ⟨ht, hw⟩ := h.origin hrule
  · exact hold rule hrule hobj
  cases ev with
  | ruleCreated =>
    obtain ⟨hnew, _⟩ | ⟨_, _, _, ⟨⟩⟩ := hw
    exact hnew (by rwa [DB.isObjectiveRun, h.frame (by decide)] at hobj)
  | ruleChanged | rulesDisabled | ruleEnabled | ruleRestarted =>
    obtain ⟨⟨⟩, _⟩ | ⟨rule₀, hrule₀, _, hsame, _⟩ := hw
    exact hsame.name.trans (hold rule₀ hrule₀ (by rwa [hsame.runId] at hobj))
  | other t hu => cases ht; cases hu
  | _ => cases ht

/-- Only planners get the keys of planners. -/
theorem keyed (hs : Sound s) : ∀ a ∈ s' .assignment,
    a.recurrenceKey.any RecurrenceKey.isPlanner →
      s'.isPlanner a.automationId a.runId := by
  intro a' ha' hkey
  rcases h.assignment_origin ha' with ⟨_, hqueued, _⟩ | ⟨a, ha, hev⟩
  · rw [hqueued.recurrenceKey] at hkey
    cases hkey
  rw [hev.work.automationId, hev.work.runId]
  rcases hev.recurrenceKey with heq | ⟨key, hk⟩
  · exact h.isPlanner (hs.keyed a ha (heq ▸ hkey))
  · rw [hk.recurrenceKey] at hkey
    exact h.isPlanner (hk.planner hkey)

theorem sound (hs : Sound s) : Sound s' :=
  ⟨h.consistent hs.consistent, h.ruled hs, h.owned hs, h.planners hs, h.keyed hs⟩

end Effect

namespace Effects

theorem trans {s'' : DB} (h : Effects P s s') (h' : Effects P s' s'') : Effects P s s'' :=
  Moves.trans h h'

theorem sound (h : Effects P s s') (hs : Sound s) : Sound s' :=
  h.preserves (fun _ _ _ _ he => he.sound) hs

theorem keepsKeys (h : Effects P s s') : KeepsKeys s s' := by
  refine h.preserves (I := fun s' => KeepsKeys s s') (fun _ _ _ _ he hk => ?_) fun _ _ _ h => h
  exact fun t ht k hs => he.keepsKeys t ht k (hk t ht k hs)

/-- The records a condition names stay stored. -/
theorem namesStored (h : Effects P s s') {condition : Option Condition}
    (hn : s.namesStored condition) : s'.namesStored condition := by
  refine all_eq_true.mpr fun ref href => ?_
  have hstored := all_eq_true.mp hn ref href
  cases ref with
  | assignment id => exact h.keepsKeys .assignment (by decide) id hstored
  | obligation id => exact h.keepsKeys .obligation (by decide) id hstored
  | _ => rfl

theorem insert (ev : Event) {row : Row ev.table} {h : ∀ r ∈ s ev.table, key _ r ≠ key _ row}
    (hP : P ev) (ha : admissible ev.table s row) (hi : ev.Inserts s row) :
    Effects P s (s.write ev.table ((s ev.table).insert row h)) :=
  single hP (.insert ha hi)

theorem change (ev : Event) {k : Key ev.table} {old : Row ev.table}
    {f : Row ev.table → Row ev.table}
    {hf : ∀ r, key _ (f r) = key _ r} (hP : P ev) (hold : (s ev.table).find? k = some old)
    (ha : admissible ev.table s (f old)) (hch : ev.Changes s old (f old)) :
    Effects P s
      (s.write ev.table ((s ev.table).updateWhere (fun r => decide (key _ r = k)) f hf)) :=
  single hP (.change hold ha hch)

variable (h : Effects P s s')

include h

/-- A stored rule stays the planner of its objective run. -/
theorem isPlanner (hp : s.isPlanner automationId runId) : s'.isPlanner automationId runId := by
  refine h.preserves (I := fun s' => s'.isPlanner automationId runId)
    (fun _ _ _ _ he => he.isPlanner) hp

theorem sameAccounts : SameAccounts s s' :=
  le (fun _ _ _ _ he => he.sameAccounts) h

theorem sameStatus (ha : (s .assignment).find? id = some a)
    (hP : ∀ ev, P ev → ev.moves id = false) :
    ∃ a', (s' .assignment).find? id = some a' ∧ a.SameStatus a' := by
  refine h.preserves (I := fun s' => ∃ a', (s' .assignment).find? id = some a' ∧ a.SameStatus a')
    (fun ev _ _ hev he ⟨a₁, ha₁, hsame⟩ => ?_) ⟨a, ha, refl a⟩
  obtain ⟨a₂, ha₂, hsame'⟩ := he.sameStatus ha₁ (hP ev hev)
  exact ⟨a₂, ha₂, hsame.trans hsame'⟩

/-- A stored run keeps its mission, its orchestration and its policies. -/
theorem run {r : Run} (hr : (s .run).find? id = some r) :
    ∃ r', (s' .run).find? id = some r' ∧ r.SameSetup r' := by
  refine h.preserves (I := fun s' => ∃ r', (s' .run).find? id = some r' ∧ r.SameSetup r')
    (fun _ _ _ _ he ⟨r₁, hr₁, hset⟩ => ?_) ⟨r, hr, ⟨rfl, rfl, rfl⟩⟩
  obtain ⟨r₂, hr₂, hset'⟩ := he.run hr₁
  exact ⟨r₂, hr₂, hset'.missionId.trans hset.missionId,
    hset'.orchestration.trans hset.orchestration, hset'.queuePolicies.trans hset.queuePolicies⟩

/-- A stored execution keeps what it was admitted for. -/
theorem sameAdmission (he : (s .execution).find? id = some e) :
    ∃ e', (s' .execution).find? id = some e' ∧ e.SameAdmission e' := by
  refine h.preserves (I := fun s' => ∃ e', (s' .execution).find? id = some e' ∧ e.SameAdmission e')
    (fun _ _ _ _ hw ⟨e₁, he₁, hsame⟩ => ?_) ⟨e, he, ⟨rfl, rfl, rfl, rfl, rfl, rfl, fun h => h⟩⟩
  obtain ⟨e₂, he₂, hsame', _⟩ := hw.execution he₁
  exact ⟨e₂, he₂, hsame.trans hsame'⟩

/-- A Forge item changes only when it is synchronised. -/
theorem forgeItem (hi : (s .forgeItem).find? id = some i)
    (hP : ∀ ev, P ev → ev ≠ .itemSynced id) :
    ∃ i', (s' .forgeItem).find? id = some i' ∧ i.SameState i' := by
  refine h.preserves (I := fun s' => ∃ i', (s' .forgeItem).find? id = some i' ∧ i.SameState i')
    (fun ev _ _ hev hw ⟨i₁, hi₁, hsame⟩ => ?_) ⟨i, hi, .refl i⟩
  obtain ⟨i₂, hi₂, hsame'⟩ := hw.forgeItem hi₁ (hP ev hev)
  exact ⟨i₂, hi₂, hsame.trans hsame'⟩

/-- A rule that was read stays known. -/
theorem knows (hrule : s.Knows rule) : s'.Knows rule := by
  refine h.preserves (I := fun s' => s'.Knows rule) (fun _ _ _ _ he hI => ?_) hrule
  obtain ⟨r, hr, hsame⟩ := hI
  obtain ⟨r', hr', hsame'⟩ := he.automation hr
  exact ⟨r', hr', hsame'.runId.trans hsame.runId, hsame'.name.trans hsame.name⟩

/-- The run of a planner. -/
theorem runId_of_isPlanner (hp : s.isPlanner automationId runId)
    (hrule : automationId.bind (s' .automation).find? = some rule) : rule.runId = runId := by
  have hp' := h.isPlanner hp
  rw [DB.isPlanner, hrule] at hp'
  simpa using (and_eq_true_iff.mp (and_eq_true_iff.mp hp').1).2

/-- A stored run keeps its orchestration. -/
theorem isObjectiveRun (hr : s.has .run id) : s'.isObjectiveRun id = s.isObjectiveRun id := by
  refine (h.preserves (I := fun s' => s'.has .run id ∧ s'.isObjectiveRun id = s.isObjectiveRun id)
    (fun _ _ _ _ he hI => ?_) ⟨hr, rfl⟩).2
  exact ⟨he.keepsKeys .run nofun id hI.1, (he.isObjectiveRun hI.1).trans hI.2⟩

/-- Tables none of the events writes are left alone. -/
theorem frame (ht : ∀ ev, P ev → ev.table ≠ t) : s' t = s t := by
  refine h.preserves (I := fun s' => s' t = s t) (fun ev _ _ hev he heq => ?_) rfl
  rw [he.frame (ht ev hev).symm, heq]

end Effects

/-! ## Emitted events -/

/-- From a sound database, writes with events satisfying `P` lead to another one. -/
def Extends (P : Event → Prop) (s s' : DB) : Prop := Sound s → Effects P s s'

instance {P : Event → Prop} : Std.Refl (Extends P) := ⟨fun _ _ => Moves.refl _⟩

instance {P : Event → Prop} : IsTrans DB (Extends P) :=
  ⟨fun _ _ _ h h' hc => (h hc).trans (h' ((h hc).sound hc))⟩

/-- Every commit of a transaction is made of writes with events satisfying `P`. -/
abbrev Emits {α : Type} (P : Event → Prop) (f : Tx α) : Prop := Transaction.Keeps (Extends P) f

open Transaction

variable {rows : List (Row t)} {R : Row t → Row t → Prop} {r : Row t} {k : Key t} {env : Env}
  {α β : Type}

theorem Emits.mono {Q : Event → Prop} (h : Emits P f) (hPQ : ∀ ev, P ev → Q ev) : Emits Q f :=
  Keeps.mono h fun _ _ he hc => (he hc).mono hPQ

/-- What a transaction emits from one state. -/
theorem Emits.at (h : Emits P f) (s : DB) : Ensures f s fun _ s' => Extends P s s' := h s

/-- What a transaction emits from one state. -/
abbrev EmitsFrom (P : Event → Prop) (s : DB) (f : Tx α) : Prop := Ensures f s fun _ s' =>
  Effects P s s'

/-- What a transaction emits from one sound state. -/
theorem Emits.from (h : Emits P f) (hc : Sound s) : EmitsFrom P s f :=
  fun a s' hf => h s a s' hf hc

/-- What a transaction emits follows what was emitted before it. -/
theorem Emits.after (h : Emits P f) {s₁ : DB} (h₁ : Effects P s s₁) (hs : Sound s) :
    Ensures f s₁ fun _ s' => Effects P s s' :=
  (h.from (h₁.sound hs)).mono fun _ _ h₂ => h₁.trans h₂

/-- What a transaction emits, from every sound state. -/
theorem emits_of_sound (h : ∀ s, Sound s → EmitsFrom P s f) : Emits P f :=
  fun s a s' hf hs => h s hs a s' hf

theorem emits_getRecord : Emits P (getRecord t k) := .query

theorem emits_create (ev : Event) {row : Row ev.table} (hP : P ev)
    (hi : ∀ s, Sound s → ev.Inserts s row) : Emits P (create ev.table row) := by
  intro s
  rw [ensures_create]
  exact fun h ha hc => Effects.insert ev hP ha (hi s hc)

theorem emits_change (ev : Event) {k : Key ev.table} {f : Row ev.table → Row ev.table}
    {hf : ∀ r, key _ (f r) = key _ r} (hP : P ev)
    (hch : ∀ s old, Sound s → (s ev.table).find? k = some old →
      ev.Changes s old (touch env.now _ (f old))) :
    Emits P (change env ev.table k expected f hf) := by
  intro s
  rw [ensures_change]
  exact fun old hold _ ha hc => Effects.change ev hP hold ha (hch s old hc hold)

theorem emits_updateWhere (ev : Event) {p : DB → Row ev.table → Bool}
    {f : Row ev.table → Row ev.table} {hf : ∀ r, key _ (f r) = key _ r} (hP : P ev)
    (hu : ∀ s, Sound s → ∀ r ∈ s ev.table, p s r →
      wellFormed ev.table s (touch env.now _ (f r))
        ∧ (∀ r', conflicts ev.table (touch env.now _ (f r)) r' →
          conflicts ev.table r r')
        ∧ ev.Changes s r (touch env.now _ (f r))) :
    Emits P (updateWhere env ev.table p f hf) := by
  intro s
  rw [ensures_updateWhere]
  exact fun hc => single hP (.bulk (hu s hc))

/-- One row is rewritten, the others stay. -/
structure Rewrites (t : TableName) (k : Key t) (row : Row t) (s s' : DB) : Prop where
  stored : (s' t).find? k = some row
  others : ∀ k', k' ≠ k → (s' t).find? k' = (s t).find? k'
  frame : ∀ t', t' ≠ t → s' t' = s t'

/-- The rows of a list, each once, are still stored, up to `R`. -/
structure Listed {t : TableName} (R : Row t → Row t → Prop) (rows : List (Row t)) (s : DB) :
    Prop where
  nodup : (rows.map (key t)).Nodup
  stored : ∀ r ∈ rows, ∃ r', (s t).find? (key t r) = some r' ∧ R r r'

/-- The rows a query selects are stored as they are. -/
theorem listed_of_sublist [Std.Refl R] (h : rows.Sublist (s t).rows) : Listed R rows s  where
  nodup := (s t).nodup.sublist (h.map _)
  stored r hr := ⟨r, find?_key (h.subset hr), refl r⟩

theorem listed_filter [Std.Refl R] {p : Row t → Bool} : Listed R ((s t).rows.filter p) s :=
  listed_of_sublist filter_sublist

theorem Listed.head (h : Listed R (r :: rows) s) : ∃ r', (s t).find? (key t r) = some r' ∧ R r r' :=
  h.stored r mem_cons_self

/-- Once its first row is dealt with, the rest of a list is still stored. -/
theorem Listed.tail (h : Listed R (r :: rows) s) (hkeep : ∀ k, k ≠ key t r → ∀ a,
      (s t).find? k = some a → ∃ a', (s' t).find? k = some a' ∧ ∀ r', R r' a → R r' a') :
    Listed R rows s' := by
  obtain ⟨hnot, hnodup⟩ := nodup_cons.mp h.nodup
  refine ⟨hnodup, fun r₁ hr₁ => ?_⟩
  obtain ⟨a, ha, hR⟩ := h.stored r₁ (mem_cons_of_mem r hr₁)
  have hne : key t r₁ ≠ key t r := fun heq => hnot (heq ▸ mem_map_of_mem hr₁)
  obtain ⟨a', ha', hR'⟩ := hkeep _ hne a ha
  exact ⟨a', ha', hR' r₁ hR⟩

/-- A loop in which every pass rewrites its own row at most. -/
theorem ensures_each_effects {f : Row t → Tx PUnit} (hrows : Listed Eq rows s)
    (hf : ∀ r ∈ rows, ∀ s₁, Effects P s s₁ →
      (s₁ t).find? (key t r) = some r → Ensures (f r) s₁ fun _ s' => Effects P s₁ s'
        ∧ ∀ k, k ≠ key t r → (s' t).find? k = (s₁ t).find? k) :
    EmitsFrom P s (each f rows) := by
  refine Ensures.mono (ensures_each_rest (J := fun rest s₁ => Effects P s s₁ ∧ Listed Eq rest s₁
    ∧ rest ⊆ rows) ⟨Moves.refl _, hrows, Subset.refl _⟩ ?_) fun _ _ h => h.1
  rintro r rest s₁ ⟨h₁, hlisted, hsub⟩
  obtain ⟨r', hr', rfl⟩ := hlisted.head
  refine (hf r (hsub mem_cons_self) s₁ h₁ hr').mono fun _ s₂ ⟨h₂, hothers⟩ => ?_
  refine ⟨h₁.trans h₂, hlisted.tail fun k hk a ha => ⟨a, ?_, fun _ h => h⟩, fun x hx => ?_⟩
  · rw [hothers k hk, ha]
  · exact hsub (mem_cons_of_mem r hx)

/-- A checked change from one state, with the row it leaves. -/
theorem ensures_change_effects (ev : Event) {k : Key ev.table} {f : Row ev.table → Row ev.table}
    {hf : ∀ r, key _ (f r) = key _ r} (hP : P ev)
    (hch : ∀ old, (s ev.table).find? k = some old → ev.Changes s old (touch env.now _ (f old))) :
    Ensures (change env ev.table k expected f hf) s fun row s' => Effects P s s'
      ∧ Rewrites ev.table k row s s'
      ∧ ∃ old, (s ev.table).find? k = some old ∧ row = touch env.now _ (f old) := by
  rw [ensures_change]
  intro old hold _ ha
  have hk : key _ old = k := key_of_find? hold
  refine ⟨Effects.change ev hP hold ha (hch old hold), ⟨?_, ?_, ?_⟩, old, hold, rfl⟩
  · rw [write_self, find?_updateWhere, hold]
    simp [hk]
  · intro k' hk'
    rw [write_self, find?_updateWhere]
    cases hfind : (s ev.table).find? k' with
    | none => rfl
    | some r => simp [(key_of_find? hfind), hk']
  · exact fun t' ht' => write_of_ne _ ht' _

/-- A checked insert from one state, with the row it leaves. -/
theorem ensures_create_effects (ev : Event) {row : Row ev.table} (hP : P ev)
    (hi : ev.Inserts s row) :
    Ensures (create ev.table row) s fun row' s' => row' = row ∧ Effects P s s'
      ∧ Rewrites ev.table (key _ row) row s s' := by
  rw [ensures_create]
  intro _ ha
  refine ⟨rfl, Effects.insert ev hP ha hi, ⟨?_, fun k hk => ?_, fun t ht => write_of_ne _ ht _⟩⟩
  · rw [write_self, find?_insert_self]
  · rw [write_self, find?_insert_of_ne hk]

/-- A write to an untracked table that keeps the constraints of its rows. -/
theorem emits_create_other (ht : t.isTracked = false) {row : Row t}
    (hP : P (.other t ht)) : Emits P (create t row) :=
  emits_create (.other t ht) hP fun _ _ => trivial

theorem emits_change_other (ht : t.isTracked = false) {f : Row t → Row t}
    {hf : ∀ r, key t (f r) = key t r} (hP : P (.other t ht)) :
    Emits P (change env t k expected f hf) :=
  emits_change (.other t ht) hP fun _ _ _ _ => trivial

theorem emits_updateWhere_other (ht : t.isTracked = false) {p : DB → Row t → Bool}
    {f : Row t → Row t} {hf : ∀ r, key t (f r) = key t r} (hP : P (.other t ht))
    (hu : ∀ s r, wellFormed t s r → wellFormed t s (touch env.now t (f r)))
    (hc : ∀ r r', conflicts t (touch env.now t (f r)) r' → conflicts t r r') :
    Emits P (updateWhere env t p f hf) :=
  emits_updateWhere (.other t ht) hP fun s hs r hr _ =>
    ⟨hu s r (admissible_iff.mp (hs.consistent t r hr)).1, hc r, trivial⟩

end Horizon
