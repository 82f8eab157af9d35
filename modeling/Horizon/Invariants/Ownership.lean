import Horizon.Effects.Operations

/-!
# One owner of a delegated mission

A run has at most one live assignment of a role on a mission that is not a root, as long as
reviving an assignment, and moving a root mission below another one, respects the owners that
are there.
-/

namespace Horizon

open Table List Installation DB

variable {s s' : DB} {ev : Event}

/-- At most one assignment of a run and a role owns a mission that is not a root. -/
def DB.SingleOwner (s : DB) : Prop := ∀ a ∈ s .assignment, ∀ b ∈ s .assignment,
  a.status.isLive → b.status.isLive → a.runId = b.runId → a.missionId = b.missionId →
    a.role = b.role → s.isRoot a.missionId = false → a = b

theorem soleOwner_iff {a : Assignment} : s.soleOwner a ↔ ∀ b ∈ s .assignment,
    b.status.isLive → b.runId = a.runId → b.missionId = a.missionId → b.role = a.role →
      b.id = a.id := by
  simp only [soleOwner, all_eq_true, Bool.or_eq_true, beq_iff_eq, Bool.not_eq_true',
    Bool.and_eq_false_iff, beq_eq_false_iff_ne, mem_def]
  refine forall₂_congr fun b _ => ⟨fun h hlive hrun hmission hrole => ?_, fun h => ?_⟩
  · rcases h with h | ((h | h) | h) | h
    · exact h
    · exact absurd hrun h
    · exact absurd hmission h
    · exact absurd hrole h
    · rw [hlive] at h
      cases h
  · by_contra hnot
    simp only [not_or, ne_eq, Decidable.not_not, Bool.not_eq_false] at hnot
    obtain ⟨hid, ⟨⟨hrun, hmission⟩, hrole⟩, hlive⟩ := hnot
    exact hid (h hlive hrun hmission hrole)

/-- The events that give no mission a second owner. -/
def Event.keepsOwner : Event → Bool
  | .missionRevised _ solelyOwned => solelyOwned
  | .assignmentRevived _ soleOwner _ => soleOwner
  | _ => true

/-! ## Assignments -/

/-- A live assignment was live before, or it was revived. -/
theorem Effect.live_origin (h : Effect ev s s') (hq : ev ≠ .assignmentQueued) {a' : Assignment}
    (ha' : a' ∈ s' .assignment) (hlive : a'.status.isLive) :
    ∃ a ∈ s .assignment, a'.id = a.id ∧ a.SameWork a' ∧ (a.status.isLive
      ∨ ∃ soleOwner waits, ev = .assignmentRevived a.id soleOwner waits ∧ (soleOwner →
        a.status.isLive ∨ s.isRoot a.missionId ∨ s.soleOwner a)) := by
  obtain ⟨a, ha, hev⟩ := (h.assignment_origin ha').resolve_left fun hqueued => hq hqueued.1
  refine ⟨a, ha, hev.id, hev.work, ?_⟩
  rcases hev.status with hs | hm
  · exact .inl (hs ▸ hlive)
  · cases hm with
    | revived _ _ hsole => exact .inr ⟨_, _, rfl, hsole⟩
    | admitted hpending _ => exact .inl (by rw [hpending]; rfl)
    | lost hold _ => exact .inl hold
    | settled hactive => exact .inl (AssignmentStatus.isLive_of_isActive hactive)

/-- A queued assignment finds its mission without an owner. -/
theorem DB.SingleOwner.queued (ho : s.SingleOwner) (h : Effect .assignmentQueued s s') :
    s'.SingleOwner := by
  have hroot : ∀ id, s'.isRoot id = s.isRoot id := fun id => by
    rw [isRoot, isRoot, h.frame (by decide)]
  intro a ha b hb hliveA hliveB hrun hmission hrole hnot
  rw [hroot] at hnot
  rcases h.rows (by decide) with ⟨row, hrows, hrow, hfresh⟩ | ⟨g, hrows, _, hg⟩
  · rw [mem_def, hrows, mem_append, mem_singleton] at ha hb
    have howner : ∀ b ∈ s .assignment, b.status.isLive → b.runId = row.runId →
        b.missionId = row.missionId → b.role = row.role → s.isRoot row.missionId := by
      intro b hb hlive hrun hmission hrole
      refine hrow.owner.resolve_right fun hsole => ?_
      exact hfresh b hb (soleOwner_iff.mp hsole b hb hlive hrun hmission hrole)
    rcases ha with ha | rfl <;> rcases hb with hb | rfl
    · exact ho a ha b hb hliveA hliveB hrun hmission hrole hnot
    · rw [hmission, howner a ha hliveA hrun hmission hrole] at hnot
      cases hnot
    · rw [howner b hb hliveB hrun.symm hmission.symm hrole.symm] at hnot
      cases hnot
    · rfl
  · have hsame : (s' .assignment).rows = (s .assignment).rows := by
      rw [hrows]
      exact (map_congr_left fun a ha => (hg a ha).resolve_right id).trans (map_id' _)
    rw [mem_def, hsame] at ha hb
    exact ho a ha b hb hliveA hliveB hrun hmission hrole hnot

/-- A checked revival, like every change of a live assignment, leaves one owner. -/
theorem DB.SingleOwner.rewritten (ho : s.SingleOwner) (h : Effect ev s s')
    (hq : ev ≠ .assignmentQueued)
    (hev : ev.keepsOwner) (hroot : ∀ id, s'.isRoot id = s.isRoot id) : s'.SingleOwner := by
  intro a' ha' b' hb' hliveA hliveB hrun hmission hrole hnot
  rw [hroot] at hnot
  obtain ⟨a, ha, hidA, hwA, horA⟩ := h.live_origin hq ha' hliveA
  obtain ⟨b, hb, hidB, hwB, horB⟩ := h.live_origin hq hb' hliveB
  rw [hwA.runId, hwB.runId] at hrun
  rw [hwA.missionId, hwB.missionId] at hmission
  rw [hwA.role, hwB.role] at hrole
  rw [hwA.missionId] at hnot
  -- The two were the same one before the write.
  suffices hid : a.id = b.id from
    (s' .assignment).eq_of_key ha' hb' (hidA.trans (hid.trans hidB.symm))
  have hchecked : ∀ {c : Assignment} {soleOwner waits : Bool},
      ev = .assignmentRevived c.id soleOwner waits → soleOwner := by
    rintro c soleOwner waits rfl
    exact hev
  rcases horA with hA | ⟨_, _, hevA, hA⟩ <;> rcases horB with hB | ⟨_, _, hevB, hB⟩
  · exact congrArg Assignment.id (ho a ha b hb hA hB hrun hmission hrole hnot)
  · rcases hB (hchecked hevB) with hB | hB | hB
    · exact congrArg Assignment.id (ho a ha b hb hA hB hrun hmission hrole hnot)
    · rw [hmission, hB] at hnot
      cases hnot
    · exact soleOwner_iff.mp hB a ha hA hrun hmission hrole
  · rcases hA (hchecked hevA) with hA | hA | hA
    · exact congrArg Assignment.id (ho a ha b hb hA hB hrun hmission hrole hnot)
    · rw [hA] at hnot
      cases hnot
    · exact (soleOwner_iff.mp hA b hb hB hrun.symm hmission.symm hrole.symm).symm
  · exact (Event.assignmentRevived.inj (hevA.symm.trans hevB)).1

/-! ## Missions -/

/-- A mission that gets a parent has one owner in each run and role. -/
theorem Effect.isRoot (h : Effect ev s s') (hev : ev.keepsOwner) {m : Mission}
    (hm : (s .mission).find? m.id = some m) (hnot : s'.isRoot m.id = false) :
    s.isRoot m.id = false ∨ s.solelyOwned m.id := by
  have hkept : ∀ m', (s' .mission).find? m.id = some m' → m'.parentId = m.parentId →
      s.isRoot m.id = false := by
    intro m' hm' hparent
    rw [DB.isRoot, hm', Option.all_some, hparent] at hnot
    rw [DB.isRoot, hm, Option.all_some, hnot]
  obtain ⟨m', hm', rfl | ⟨ht, hch⟩⟩ := h.find? (by decide) hm
  · exact .inl (hkept m' hm' rfl)
  cases ev with
  | missionCreated => cases hch
  | missionRevised id solelyOwned =>
    obtain ⟨_, hid, hsole⟩ := hch
    rcases hsole hev with hparent | hparent | hsole
    · rw [isRoot, hm, Option.all_some, Option.isNone_eq_false_iff]
      exact .inl hparent
    · rw [isRoot, hm', Option.all_some, hparent] at hnot
      cases hnot
    · exact .inr (hid ▸ hsole)
  | missionTouched | missionOpened | missionClosed => exact .inl (hkept m' hm' hch.1.parentId)
  | other t hu => cases ht; cases hu
  | _ => cases ht

theorem DB.SingleOwner.effect (ho : s.SingleOwner) (hs : Sound s) (h : Effect ev s s')
    (hev : ev.keepsOwner) : s'.SingleOwner := by
  by_cases ht : ev.table = .mission
  · intro a ha b hb hliveA hliveB hrun hmission hrole hnot
    rw [h.frame (by rw [ht]; decide)] at ha hb
    obtain ⟨m, hm⟩ := hs.missionOf ha
    obtain ⟨_, hid⟩ := find?_eq_some.mp hm
    have hid : m.id = a.missionId := hid
    rw [← hid] at hm hnot
    rcases h.isRoot hev hm hnot with hroot | hsole
    · exact ho a ha b hb hliveA hliveB hrun hmission hrole (hid ▸ hroot)
    · have hsoleA := all_eq_true.mp hsole a ha
      simp only [hid, bne_self_eq_false, hliveA, Bool.not_true, Bool.false_or] at hsoleA
      exact (s .assignment).eq_of_key ha hb
        (soleOwner_iff.mp hsoleA b hb hliveB hrun.symm hmission.symm hrole.symm).symm
  · have hroot : ∀ id, s'.isRoot id = s.isRoot id := fun id => by
      rw [isRoot, isRoot, h.frame (Ne.symm ht)]
    by_cases hq : ev = .assignmentQueued
    · subst hq
      exact ho.queued h
    · exact ho.rewritten h hq hev hroot

/-! ## Runs -/

/-- The steps that revive an assignment only where nothing else owns its mission, and take a root
mission below another one only where it has one owner. -/
def Label.keepsOwner (s : DB) (l : Label) : Bool :=
  match l.operation with
  | .updateMission id data => s.keepsOwner id data
  | .command _ (.retryAssignment id) | .command _ (.resumeAssignment id _) => s.mayRevive id
  | .command _ (.recoverContext id _) =>
    ((s .providerThread).find? id).all fun t => s.mayRevive t.assignmentId
  | _ => true

theorem keepsOwner_of_emits {l : Label} (hl : l.keepsOwner s) (h : l.Emits s ev) :
    ev.keepsOwner := by
  cases ev with
  | missionRevised id _ =>
    obtain ⟨_, hop, rfl⟩ := h.comesFrom
    simpa [Label.keepsOwner, Event.keepsOwner, hop] using hl
  | assignmentRevived id _ _ =>
    obtain ⟨rfl, _, c, hop, hc⟩ := h.comesFrom
    rcases hc with rfl | ⟨note, rfl⟩ | ⟨_, note, _, rfl, hthread, rfl⟩
    · simpa [Label.keepsOwner, Event.keepsOwner, hop] using hl
    · simpa [Label.keepsOwner, Event.keepsOwner, hop] using hl
    · simpa [Label.keepsOwner, Event.keepsOwner, hop, hthread] using hl
  | _ => rfl

/-- In every state reached by steps that respect the owners that are there, a run has at most one
assignment of a role that is pending, running or stopping on a mission that is not a root. -/
theorem single_owner (h : controlPlane.ReachableBy (Label.keepsOwner · · = true) s) :
    ∀ a ∈ s .assignment, ∀ b ∈ s .assignment, a.status.isLive = true → b.status.isLive = true →
      a.runId = b.runId → a.missionId = b.missionId → a.role = b.role →
      ∀ m, (s .mission).find? a.missionId = some m → m.parentId ≠ none → a = b := by
  have ho : s.SingleOwner := by
    refine invariant_of_events (fun a ha => absurd ha notMem_empty) ?_ h
    intro _ _ hl ev hev _ _ hs he ho
    exact ho.effect hs he (keepsOwner_of_emits hl hev)
  intro a ha b hb hliveA hliveB hrun hmission hrole m hm hparent
  refine ho a ha b hb hliveA hliveB hrun hmission hrole ?_
  rw [isRoot, hm, Option.all_some, Option.isNone_eq_false_iff]
  exact Option.isSome_iff_ne_none.mpr hparent

namespace Installation

/-- The worker of a delegated mission fails, and another one is queued in its place. -/
def replacedWorker : List Label := setup ++
  [ byAdmin 2 (.startRun (legacyOn 1) none)
  , byAdmin 3 (missionUnder 1 1)
  , byAdmin 3 (.assignment { runId := 1, missionId := 2 })
  , byHost 20 (.claim 1 [1])
  , byHost 20 (.claim 1 [1])
  , byHost 21 (failed 2 21)
  , byAdmin 22 (.assignment { runId := 1, missionId := 2 }) ]

/-- Then the failed one is retried. -/
def retriedWorker : List Label := replacedWorker ++ [byAdmin 23 (.command 3 (.retryAssignment 2))]

end Installation

/-- Retrying the failed worker leaves its mission with two. -/
theorem single_owner_fails : controlPlane.Reachable (outcome retriedWorker)
    ∧ ∃ a ∈ outcome retriedWorker .assignment,
      ∃ b ∈ outcome retriedWorker .assignment, a.id ≠ b.id ∧ a.status.isLive = true
        ∧ b.status.isLive = true ∧ a.runId = b.runId ∧ a.missionId = b.missionId ∧ a.role = b.role
        ∧ (outcome retriedWorker).isRoot a.missionId = false := by
  refine ⟨outcome_reachable _, ?_⟩
  have h : (outcome retriedWorker .assignment).rows.any (fun a =>
      (outcome retriedWorker .assignment).rows.any fun b => a.id != b.id
        && a.status.isLive && b.status.isLive && a.runId == b.runId && a.missionId == b.missionId
        && a.role == b.role && !(outcome retriedWorker).isRoot a.missionId) = true := by
    decide +kernel
  simpa [mem_def, and_assoc] using h

/-- Until then the mission has one owner, and a failed one. -/
theorem single_owner_replacedWorker :
    (outcomeBy Label.keepsOwner replacedWorker .assignment).rows.map
        (fun a => (a.missionId, a.role, a.status))
      = [(1, .maintainer, .running), (2, .worker, .failed), (2, .worker, .pending)]
    ∧ ∀ a ∈ outcomeBy Label.keepsOwner replacedWorker .assignment,
      ∀ b ∈ outcomeBy Label.keepsOwner replacedWorker .assignment,
        a.status.isLive = true → b.status.isLive = true → a.runId = b.runId →
        a.missionId = b.missionId → a.role = b.role →
        ∀ m, (outcomeBy Label.keepsOwner replacedWorker .mission).find? a.missionId = some m →
          m.parentId ≠ none → a = b :=
  ⟨by decide +kernel, single_owner (outcomeBy_reachable _ _)⟩

/-! ## What no run undoes -/

/-- Along every run, records are kept but for slot limits, assignments stay the same work, and
executions what they were admitted for: one that has ended stays so. -/
theorem records_persist (ls ls' : List Label) :
    let s := outcome ls; let s' := continuedBy (fun _ _ => true) ls' s
    KeepsKeys s s' ∧ SameAccounts s s' ∧ ∀ id e, (s .execution).find? id = some e →
      ∃ e', (s' .execution).find? id = some e' ∧ e.SameAdmission e' := by
  intro s s'
  have ⟨_, he⟩ : Sound s' ∧ Effects (fun _ => True) s s' := by
    refine (continuedBy_runs _ ls' s).preserves (I := fun s' => Sound s' ∧ Effects _ s s') ?_
      ⟨sound_of_reachable (outcome_reachable ls), .refl s⟩
    intro s₁ l s₂ ⟨hs₁, h₁⟩ _ hstep
    have h₂ := step_effects hs₁ hstep
    exact ⟨h₂.sound hs₁, h₁.trans (h₂.mono fun _ _ => trivial)⟩
  exact ⟨he.keepsKeys, he.sameAccounts, fun _ _ => he.sameAdmission⟩

/-- The steps that do not revive an assignment. -/
def Label.leavesSettled (id : Id) (s : DB) (l : Label) : Bool :=
  match l.operation with
  | .command _ (.retryAssignment id') | .command _ (.resumeAssignment id' _) => id' != id
  | .command _ (.recoverContext threadId _) =>
    ((s .providerThread).find? threadId).all (·.assignmentId != id)
  | _ => true

/-- The same work, in the same status. -/
def Assignment.StaysIn (a : Assignment) (s : DB) : Prop :=
  ∃ a', (s .assignment).find? a.id = some a' ∧ a.SameStatus a'

/-- An assignment that is neither queued nor under way stays so until a command revives it. -/
theorem settled_until_revived (ls ls' : List Label) {a : Assignment}
    (ha : a ∈ outcome ls .assignment) (hdone : a.status.isLive = false) :
    a.StaysIn (continuedBy (Label.leavesSettled a.id) ls' (outcome ls)) := by
  refine ((continuedBy_runs _ ls' _).preserves (I := fun s => Sound s ∧ a.StaysIn s)
    (fun s l _ hI hl =>
    step_preserves ?_ hI) ⟨sound_of_reachable (outcome_reachable ls), a, find?_key ha, refl a⟩).2
  rintro ev hev s₁ s₂ - he ⟨a₁, ha₁, hsame⟩
  obtain ⟨a₂, ha₂, hnext⟩ := he.assignment_evolves ha₁
  refine ⟨a₂, ha₂, hsame.trans ⟨hnext.work, hnext.status.resolve_right fun hmoved => ?_⟩⟩
  have hdead : a₁.status.isLive = false := hsame.2 ▸ hdone
  have hid : a₁.id = a.id := key_of_find? ha₁
  cases hmoved with
  | revived =>
    obtain ⟨-, _, _, hop, rfl | ⟨_, rfl⟩ | ⟨_, _, _, rfl, hthread, hid'⟩⟩ := hev.comesFrom
    all_goals simp [Label.leavesSettled, *] at hl
  | admitted hp => simp [hp, AssignmentStatus.isLive] at hdead
  | lost hlive => cases hdead.symm.trans hlive
  | settled hactive => cases hdead.symm.trans (AssignmentStatus.isLive_of_isActive hactive)

/-- The failed worker stays so while the plane ticks. -/
theorem settled_replaced : ∃ a ∈ outcome replacedWorker .assignment, a.status.isLive = false
    ∧ a.StaysIn
      (continuedBy (Label.leavesSettled a.id) [byAdmin 23 .tick] (outcome replacedWorker)) := by
  have h : (outcome replacedWorker .assignment).rows.any (!·.status.isLive) = true := by
    decide +kernel
  obtain ⟨a, ha, hdead⟩ := List.any_eq_true.mp h
  have hdone : a.status.isLive = false := by simpa using hdead
  exact ⟨a, ha, hdone, settled_until_revived _ _ ha hdone⟩

end Horizon
