import Horizon.Effects.Operations

/-!
# Review demand over whole runs

A Forge item has one demand, with a generation that counts the requests for review, the
generation its owner was assigned and the generation that is handled.  The owner of a
demand is known by its recurrence key, which it keeps.
-/

namespace Horizon

open Transaction Table Installation

variable {s s' : DB} {d d' : ReviewDemand} {ev : Event} {P : Event → Prop} {env : Env} {itemId : Id}

/-- What ties a demand to its owner. -/
structure DB.Reviewed (s : DB) : Prop where
  unruled : ∀ a ∈ s .assignment, ∀ item, a.recurrenceKey = some (.review item) →
    a.automationId = none
  ordered : ∀ d ∈ s .reviewDemand, d.ownerGeneration ≤ d.generation
  keyed : ∀ d ∈ s .reviewDemand, ∀ id, d.assignmentId = some id →
    ∃ a, (s .assignment).find? id = some a ∧ a.recurrenceKey = some (.review d.forgeItemId)

namespace Effect

/-- The owner of a review keeps its key. -/
theorem reviewKey (h : Effect ev s s') (hs : s.Reviewed) {id item : Id} {a : Assignment}
    (ha : (s .assignment).find? id = some a) (hkey : a.recurrenceKey = some (.review item)) :
    ∃ a', (s' .assignment).find? id = some a' ∧ a'.recurrenceKey = some (.review item) := by
  obtain ⟨a', ha', hev⟩ := h.assignment_evolves ha
  refine ⟨a', ha', ?_⟩
  rcases hev.recurrenceKey with heq | ⟨key, hk⟩
  · exact heq.trans hkey
  -- Only a planner is given another key, and the owner of a review follows no rule.
  rcases hk.unstarted with ⟨hnone, -⟩ | ⟨hplanner, -⟩
  · rw [hkey] at hnone
    cases hnone
  · have hp := hk.planner hplanner
    rw [hs.unruled a (mem_of_find? ha) item hkey] at hp
    simp [DB.isPlanner] at hp

theorem reviewed_unruled (h : Effect ev s s') (hs : s.Reviewed) : ∀ a ∈ s' .assignment, ∀ item,
    a.recurrenceKey = some (.review item) → a.automationId = none := by
  intro a' ha' item hkey
  rcases h.assignment_origin ha' with ⟨-, hqueued, -⟩ | ⟨a, ha, hev⟩
  · rw [hqueued.recurrenceKey] at hkey
    cases hkey
  rw [hev.work.automationId]
  rcases hev.recurrenceKey with heq | ⟨key, hk⟩
  · exact hs.unruled a ha item (heq ▸ hkey)
  · exact hk.unruled item (Option.some.inj (hk.recurrenceKey.symm.trans hkey))

/-- What a write makes of a stored demand. -/
theorem demand_mem (h : Effect ev s s') (hd' : d' ∈ s' .reviewDemand) :
    d' ∈ s .reviewDemand ∨ (∃ item, d'.Opened item)
      ∨ ∃ d ∈ s .reviewDemand, d'.forgeItemId = d.forgeItemId
        ∧ ((∃ item explicit, d.Observed item explicit d') ∨ Event.Changes .demandAssigned s d d'
          ∨ ∃ itemId generation, Event.Changes (.demandSettled itemId generation) s d d') := by
  refine (h.origin hd').imp_right ?_
  rintro ⟨ht, hw⟩
  cases ev with
  | demandOpened =>
    obtain ⟨⟨-, item, -, hopen, -⟩, -⟩ | ⟨_, _, _, ⟨⟩⟩ := hw
    exact .inl ⟨item, hopen⟩
  | demandObserved =>
    obtain ⟨⟨⟩, -⟩ | ⟨d, hd, hid, -, item, -, hobs⟩ := hw
    exact .inr ⟨d, hd, hid, .inl ⟨item, _, hobs⟩⟩
  | demandAssigned =>
    obtain ⟨⟨⟩, -⟩ | ⟨d, hd, hid, hch⟩ := hw
    exact .inr ⟨d, hd, hid, .inr (.inl hch)⟩
  | demandSettled =>
    obtain ⟨⟨⟩, -⟩ | ⟨d, hd, hid, hch⟩ := hw
    exact .inr ⟨d, hd, hid, .inr (.inr ⟨_, _, hch⟩)⟩
  | other t hu => cases ht; cases hu
  | _ => cases ht

theorem reviewed (h : Effect ev s s') (hs : s.Reviewed) : s'.Reviewed := by
  have hkey : ∀ {id item : Id}, (∃ a, (s .assignment).find? id = some a
      ∧ a.recurrenceKey = some (.review item)) → ∃ a, (s' .assignment).find? id = some a
      ∧ a.recurrenceKey = some (.review item) := fun ⟨a, ha, hk⟩ => h.reviewKey hs ha hk
  refine ⟨h.reviewed_unruled hs, ?_, ?_⟩
  · intro d' hd'
    rcases h.demand_mem hd' with hd | ⟨item, hopen⟩ | ⟨d, hd, -, hch⟩
    · exact hs.ordered d' hd
    · rw [hopen.ownerGeneration]
      exact Nat.zero_le _
    · have hle := hs.ordered d hd
      rcases hch with ⟨item, explicit, hobs⟩ | ⟨-, howner, hgen, -⟩ | ⟨_, _, -, -, rfl⟩
      · have hgen : d.generation ≤ d'.generation := by
          rcases hobs.generation with hgen | ⟨hgen, -⟩ <;> omega
        rcases hobs.owner with ⟨-, howner⟩ | ⟨-, howner⟩ <;> omega
      · rw [howner, hgen]
      · exact hle
  · intro d' hd' id hid
    rcases h.demand_mem hd' with hd | ⟨item, hopen⟩ | ⟨d, hd, hitem, hch⟩
    · exact hkey (hs.keyed d' hd id hid)
    · rw [hopen.assignmentId] at hid
      cases hid
    · rw [hitem]
      rcases hch with ⟨item, explicit, hobs⟩ | ⟨⟨a, ha, hrev, howner⟩, -⟩ | ⟨_, _, -, -, rfl⟩
      · rcases hobs.owner with ⟨hsame, -⟩ | ⟨hnone, -⟩
        · exact hkey (hs.keyed d hd id (hsame ▸ hid))
        · rw [hnone] at hid
          cases hid
      · cases howner.symm.trans hid
        exact hkey ⟨a, ha, hrev⟩
      · exact hkey (hs.keyed d hd id hid)

end Effect

theorem reviewed_of_reachable {guard : DB → Label → Prop}
    (h : controlPlane.ReachableBy guard s) : s.Reviewed := by
  refine invariant_of_events ⟨?_, ?_, ?_⟩ (fun _ _ _ _ _ _ _ _ heff => heff.reviewed) h
  · rintro _ ⟨⟩
  · rintro _ ⟨⟩
  · rintro _ ⟨⟩

/-! ## Steps -/

/-- A generation is handled where it is settled, or where its item is not open any more. -/
structure Handles (P : Event → Prop) (itemId : Id) (d d' : ReviewDemand) (s : DB) : Prop where
  generation : d.generation ≤ d'.generation
  handledGeneration : d.handledGeneration ≤ d'.handledGeneration
  handled : ∀ g, d.handledGeneration < g → g ≤ d'.handledGeneration →
    (∃ n, P (.demandSettled itemId n) ∧ g ≤ n)
      ∨ ∃ item, (s .forgeItem).find? itemId = some item ∧ item.status ≠ .opened

theorem Handles.refl : Handles P itemId d d s :=
  ⟨le_refl _, le_refl _, fun _ h h' => absurd h (Nat.not_lt.mpr h')⟩

/-- Handling goes on from a state in which the item was closed. -/
theorem Handles.trans {d'' : ReviewDemand} (h : Handles P itemId d d' s)
    (h' : Handles P itemId d' d'' s')
    (hclosed : ∀ item, (s .forgeItem).find? itemId = some item → item.status ≠ .opened →
      ∃ item', (s' .forgeItem).find? itemId = some item' ∧ item'.status ≠ .opened) :
    Handles P itemId d d'' s' where
  generation := h.generation.trans h'.generation
  handledGeneration := h.handledGeneration.trans h'.handledGeneration
  handled g hlt hle := by
    by_cases hg : g ≤ d'.handledGeneration
    · rcases h.handled g hlt hg with hset | ⟨item, hitem, hstatus⟩
      · exact .inl hset
      · exact .inr (hclosed item hitem hstatus)
    · exact h'.handled g (Nat.lt_of_not_le hg) hle

/-- What a write makes of a stored demand. -/
theorem Effect.handles (h : Effect ev s s') (hs : Sound s) (hP : P ev)
    (hd : (s .reviewDemand).find? itemId = some d) :
    ∃ d', (s' .reviewDemand).find? itemId = some d' ∧ Handles P itemId d d' s' := by
  obtain ⟨hmem, hid⟩ := find?_eq_some.mp hd
  obtain ⟨-, hle⟩ : 0 < d.generation ∧ d.handledGeneration ≤ d.generation :=
    of_decide_eq_true (hs.wellFormed (t := .reviewDemand) hmem)
  obtain ⟨d', hd', rfl | ⟨ht, hch⟩⟩ := h.find? (by decide) hd
  · exact ⟨d', hd', .refl⟩
  cases ev with
  | demandOpened => cases hch
  | demandObserved requested =>
    obtain ⟨-, item, hitem, hobs⟩ : Event.Changes (.demandObserved requested) s d d' := hch
    refine ⟨d', hd', ?_, ?_, fun g hlt hg => ?_⟩
    · rcases hobs.generation with hgen | ⟨hgen, -⟩ <;> omega
    · rw [hobs.handledGeneration]
      split
      · exact le_refl _
      · exact hle
    · rw [hobs.handledGeneration] at hg
      split at hg
      · omega
      · exact .inr ⟨item, by rw [h.frame (by rintro ⟨⟩), ← hid]; exact hitem, ‹_›⟩
  | demandAssigned =>
    obtain ⟨-, -, hgen, hhandled, -⟩ : Event.Changes .demandAssigned s d d' := hch
    refine ⟨d', hd', hgen.ge, hhandled.ge, fun g hlt hg => ?_⟩
    omega
  | demandSettled id n =>
    obtain ⟨hitem, _, rfl⟩ := hch
    obtain rfl : id = itemId := hitem.symm.trans hid
    refine ⟨_, hd', le_refl _, le_max_right _ _, fun g hlt hg => .inl ⟨n, hP, ?_⟩⟩
    exact (le_max_iff.mp hg).resolve_right (Nat.not_le.mpr hlt)
  | other t hu => cases ht; cases hu
  | _ => cases ht

/-- What a synchronisation leaves of an item. -/
theorem syncItem_ensures {item : ForgeItem} :
    Ensures (syncItem env item) s fun _ s' => s' .reviewDemand = s .reviewDemand
      ∧ (∀ id, id ≠ item.id → (s' .forgeItem).find? id = (s .forgeItem).find? id)
      ∧ ∃ row, (s' .forgeItem).find? item.id = some row ∧ row.status = item.status
        ∧ row.awaitingReview = item.awaitingReview := by
  refine .read ?_
  split
  · refine .bind (ensures_create_effects (P := fun _ => True) .itemRecorded trivial trivial) ?_
    rintro row s' ⟨rfl, -, hrw⟩
    exact .pure ⟨hrw.frame _ (by decide), hrw.others, _, hrw.stored, rfl, rfl⟩
  · refine .bind
      (ensures_change_effects (P := fun _ => True) (.itemSynced item.id) trivial
        fun old hold => ?_) ?_
    · exact key_of_find? hold
    · rintro row s' ⟨-, hrw, old, hold, rfl⟩
      exact .pure ⟨hrw.frame _ (by rintro ⟨⟩), hrw.others, _, hrw.stored, rfl, rfl⟩

/-- What a step makes of a stored demand. -/
theorem step_handles {l : Label} (hs : Sound s) (h : controlPlane.step s l s')
    (hd : (s .reviewDemand).find? itemId = some d) :
    ∃ d', (s' .reviewDemand).find? itemId = some d' ∧ Handles (l.Emits s) itemId d d' s' := by
  by_cases hsync : ∃ item, l.operation = .syncItem item
  · obtain ⟨item, hop⟩ := hsync
    have hrun : syncItem l.env item s = .ok ((), s') := by
      have hstep : l.operation.run l.env l.actor s = .ok ((), s') := h
      rwa [hop] at hstep
    have hframe : s' .reviewDemand = s .reviewDemand := (syncItem_ensures _ _ hrun).1
    exact ⟨d, by rw [hframe]; exact hd, .refl⟩
  · refine (Moves.preserves (I := fun s₁ => Sound s₁ ∧ ∃ d₁,
      (s₁ .reviewDemand).find? itemId = some d₁
      ∧ Handles (l.Emits s) itemId d d₁ s₁) ?_ (step_effects hs h) ⟨hs, d, hd, .refl⟩).2
    rintro ev s₁ _ hev heff ⟨hs₁, d₁, hd₁, h₁⟩
    obtain ⟨d₂, hd₂, h₂⟩ := heff.handles hs₁ hev hd₁
    refine ⟨heff.sound hs₁, d₂, hd₂, h₁.trans h₂ fun item hitem _ => ?_⟩
    obtain ⟨item', hitem', hsame⟩ := heff.forgeItem hitem (by
      rintro rfl
      obtain ⟨item, hop, -⟩ := hev.comesFrom
      exact hsync ⟨item, hop⟩)
    exact ⟨item', hitem', by rwa [hsame.status]⟩

/-- What a settlement has checked: an agent settles the generation of its own session. -/
theorem settle_checked {actor : Actor} {n : Nat} :
    Ensures (settle env actor itemId n) s fun _ _ => actor.kind = .agent →
      ∃ d ∈ s .reviewDemand, d.forgeItemId = itemId ∧ n = d.ownerGeneration
        ∧ ∃ live, s.liveExecution env.now actor = .ok live
          ∧ d.assignmentId = some live.execution.assignmentId := by
  refine .ask fun _ hok => ?_
  rw [ensures_updateWhere]
  intro hagent
  obtain ⟨_, -, hok⟩ := check_bind_eq_ok.mp hok
  obtain ⟨-, -, hok⟩ := check_bind_eq_ok.mp hok
  cases hd : (s .reviewDemand).find? itemId with
  | none =>
    rw [hd] at hok
    exact absurd hok refuse_ne_ok
  | some d =>
    rw [hd] at hok
    obtain ⟨-, hok⟩ := ite_refuse_eq_ok.mp hok
    rw [if_pos hagent] at hok
    obtain ⟨live, hlive, hok⟩ := check_bind_eq_ok.mp hok
    obtain ⟨howner, hok⟩ := ite_refuse_eq_ok.mp hok
    obtain ⟨hgen, -⟩ := ite_refuse_eq_ok.mp hok
    obtain ⟨hmem, hid⟩ := find?_eq_some.mp hd
    exact ⟨d, hmem, hid, not_not.mp hgen, live, hlive, (not_not.mp howner).symm⟩

/-- The review demand of every item, in every run of the control plane: the generations stay
in order and never decrease, one live assignment at most owns the item, a generation is
handled by its settlement or when the item is not open any more, and an agent settles only
the generation of its own session. -/
theorem review_demand {s : DB} (h : controlPlane.Reachable s) :
    (∀ d ∈ s .reviewDemand, d.handledGeneration ≤ d.generation ∧ d.ownerGeneration ≤ d.generation)
    ∧ (∀ item, ∀ a ∈ s .assignment, ∀ b ∈ s .assignment, a.recurrenceKey = some (.review item) →
      b.recurrenceKey = some (.review item) → a.status.isLive = true →
      b.status.isLive = true → a = b)
    ∧ (∀ d ∈ s .reviewDemand, ∀ id, d.assignmentId = some id →
      ∃ a, (s .assignment).find? id = some a ∧ a.recurrenceKey = some (.review d.forgeItemId))
    ∧ ∀ l s', controlPlane.step s l s' →
      (∀ d ∈ s .reviewDemand, ∃ d', (s' .reviewDemand).find? d.forgeItemId = some d'
        ∧ d.generation ≤ d'.generation ∧ d.handledGeneration ≤ d'.handledGeneration
        ∧ ∀ g, d.handledGeneration < g → g ≤ d'.handledGeneration →
          (∃ expected n note,
            l.operation = .command expected (.settleReview d.forgeItemId n note) ∧ g ≤ n)
          ∨ ∃ item, (s' .forgeItem).find? d.forgeItemId = some item ∧ item.status ≠ .opened)
      ∧ ∀ expected itemId n note, l.operation = .command expected (.settleReview itemId n note) →
        l.actor.kind = .agent → ∃ d ∈ s .reviewDemand, d.forgeItemId = itemId
        ∧ n = d.ownerGeneration
          ∧ ∃ live, s.liveExecution l.env.now l.actor = .ok live
            ∧ d.assignmentId = some live.execution.assignmentId := by
  have hs := sound_of_reachable h
  have hrev := reviewed_of_reachable h
  refine ⟨?_, ?_, hrev.keyed, fun l s' hstep => ⟨?_, ?_⟩⟩
  · intro d hd
    exact ⟨(of_decide_eq_true (hs.wellFormed (t := .reviewDemand) hd)).2, hrev.ordered d hd⟩
  · intro item a ha b hb hka hkb hla hlb
    refine hs.consistent.eq_of_conflicts (t := .assignment) ha hb ?_
    simp [conflicts, hka, hkb, hla, hlb]
  · intro d hd
    have hfind : (s .reviewDemand).find? d.forgeItemId = some d := find?_key hd
    obtain ⟨d', hd', hh⟩ := step_handles hs hstep hfind
    refine ⟨d', hd', hh.generation, hh.handledGeneration, fun g hlt hle => ?_⟩
    refine (hh.handled g hlt hle).imp_left ?_
    rintro ⟨n, hn, hgn⟩
    obtain ⟨expected, note, hop⟩ := hn.comesFrom
    exact ⟨expected, n, note, hop, hgn⟩
  · intro expected itemId n note hop hagent
    have hrun : execute l.env l.actor expected (.settleReview itemId n note) s = .ok ((), s') := by
      have hrun : l.operation.run l.env l.actor s = .ok ((), s') := hstep
      rwa [hop] at hrun
    have hrun := dispatch_of_execute hrun
    rw [dispatch, requireDecision] at hrun
    exact (ensures_bind.mpr (ensures_query.mpr fun _ _ => settle_checked)) _ _ hrun hagent

/-- A labelled item of a run, whose review is assigned and settled. -/
def Installation.settledReview : List Label := Installation.admitted ++
  [ byAdmin 21 (.syncItem ⟨1, 1, some 1, none, .opened, true, 5⟩)
  , byAdmin 22 .tick
  , byAdmin 23 (.command 0 (.settleReview 1 1 "Reviewed")) ]

theorem review_demand_settled :
    (outcome settledReview .reviewDemand).rows.map
        (fun d => (d.generation, d.ownerGeneration, d.handledGeneration, d.assignmentId))
      = [(1, 1, 1, some 3)]
    ∧ ∀ d ∈ outcome settledReview .reviewDemand, ∀ id, d.assignmentId = some id →
      ∃ a, (outcome settledReview .assignment).find? id = some a
        ∧ a.recurrenceKey = some (.review d.forgeItemId) :=
  ⟨by decide +kernel, (review_demand (outcome_reachable _)).2.2.1⟩

end Horizon
