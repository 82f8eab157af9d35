import Horizon.Review.Demand
import Horizon.Effects.Scheduler

/-!
# What review demand writes

An observation and a settlement write the demand of one item.  The owner of a generation is
queued with the key of the item before the demand names it.
-/

namespace Horizon

open Transaction Table

variable {id itemId : Id} {actor : Actor} {note : String} {runId : Option Id} {ev : Event}
  {demand : ReviewDemand} {phase : PhaseKind} {run : Run} {item i : ForgeItem} {explicit : Bool}

/-- An observation keeps the generations of a demand in order. -/
theorem wellFormed_observed {s : DB} {old : ReviewDemand} (h : wellFormed .reviewDemand s old) :
    wellFormed .reviewDemand s (old.observed run item explicit) := by
  obtain ⟨_, _⟩ : 0 < old.generation ∧ old.handledGeneration ≤ old.generation :=
    of_decide_eq_true h
  refine decide_eq_true ⟨?_, ?_⟩
  · dsimp only [ReviewDemand.observed]
    split <;> omega
  · dsimp only [ReviewDemand.observed]
    split <;> split <;> omega

theorem ReviewDemand.observed_spec (d : ReviewDemand) (run : Run) (item : ForgeItem)
    (explicit : Bool) : d.Observed item explicit (d.observed run item explicit) where
  generation := by
    dsimp only [ReviewDemand.observed]
    split
    · rename_i hrenewed
      simp only [Bool.and_eq_true, beq_iff_eq, Bool.or_eq_true, decide_eq_true_eq] at hrenewed
      exact .inr ⟨rfl, hrenewed.1.1, or_assoc.mp hrenewed.1.2⟩
    · exact .inl rfl
  handledGeneration := by
    dsimp only [ReviewDemand.observed]
    by_cases h : item.status = .opened <;> simp [h]
  owner := by
    dsimp only [ReviewDemand.observed]
    split
    · exact .inr ⟨rfl, rfl⟩
    · exact .inl ⟨rfl, rfl⟩
  attention := by
    intro hopen hlt
    dsimp only [ReviewDemand.observed] at hlt ⊢
    simp only [hopen, beq_self_eq_true, Bool.true_and, if_true] at hlt ⊢
    split at hlt
    · rename_i hrenewed
      simp [hrenewed]
    · simp [hlt]

theorem ReviewDemand.Observed.congr {d d' : ReviewDemand}
    (h : d.Observed item explicit d') (hsame : item.SameState i) : d.Observed i explicit d' where
  generation := by rw [hsame.status, hsame.awaitingReview]; exact h.generation
  handledGeneration := by rw [hsame.status]; exact h.handledGeneration
  owner := h.owner
  attention := by rw [hsame.status]; exact h.attention

/-- Who asks for a review: a request for the item, or nobody in particular. -/
def requester (item : ForgeItem) (explicit : Bool) : Option Id :=
  if explicit then some item.id else none

theorem isSome_requester (item : ForgeItem) (explicit : Bool) :
    (requester item explicit).isSome = explicit := by cases explicit <;> rfl

theorem eq_of_requester (h : requester item explicit = some id) : item.id = id := by
  cases explicit
  · cases h
  · exact Option.some.inj h

variable {env : Env} {P : Event → Prop} {s : DB}

/-- An observation of an item that is stored as it was read. -/
theorem observe_ensures (hs : Sound s)
    (hitem : (s .forgeItem).find? item.id = some i) (hsame : item.SameState i)
    (ho : P (.demandOpened (requester item explicit)))
    (hobs : P (.demandObserved (requester item explicit))) :
    Ensures (observe env run item explicit) s fun r s' => Effects P s s'
      ∧ ∀ demand, r = some demand → (s' .reviewDemand).find? item.id = some demand := by
  refine .read ?_
  split
  · refine .ite (fun hnew => ?_) fun _ => .pure ⟨Moves.refl _, by rintro _ ⟨⟩⟩
    rw [ensures_map]
    refine (ensures_create_effects (.demandOpened (requester item explicit)) ho ?_).mono ?_
    · refine ⟨fun id hid => eq_of_requester hid, i, hitem, ⟨?_, rfl, rfl, rfl, rfl, rfl⟩,
        fun hnone => ?_⟩
      · rw [hsame.status]
        exact hnew.1
      · rw [hsame.awaitingReview]
        refine hnew.2.resolve_left fun hexp => ?_
        rw [requester, if_pos hexp] at hnone
        cases hnone
    · rintro row s' ⟨rfl, heff, hrw⟩
      refine ⟨heff, ?_⟩
      rintro _ ⟨⟩
      exact hrw.stored
  · rename_i old hold
    refine .ask fun _ _ => ?_
    refine .ite (fun _ => .pure ⟨Moves.refl _, by rintro _ ⟨⟩⟩) fun _ => ?_
    obtain ⟨hmem, hid⟩ := find?_eq_some.mp hold
    have hrow : ∀ d ∈ s .reviewDemand, (d.forgeItemId == item.id) → d = old := by
      intro d hd hp
      exact (s .reviewDemand).eq_of_key hd hmem ((beq_iff_eq.mp hp).trans hid.symm)
    rw [ensures_bind, ensures_updateWhere, ensures_pure]
    refine ⟨Moves.single hobs (.bulk fun d hd hp => ?_), ?_⟩
    · obtain rfl := hrow d hd hp
      refine ⟨wellFormed_observed (hs.wellFormed hd), fun _ h => h, fun id h => ?_, i, ?_, ?_⟩
      · exact hid.trans (eq_of_requester h)
      · exact (congrArg _ hid).trans hitem
      · rw [isSome_requester]
        exact (d.observed_spec run item explicit).congr hsame
    · rintro _ ⟨⟩
      rw [Database.write_self, find?_updateWhere, hold]
      have hkey : (old.forgeItemId == item.id) := beq_iff_eq.mpr hid
      simp only [Option.map_some, hkey, if_true]
      rfl

/-- A request that passes its checks observes the stored item. -/
theorem ensures_request {Q : ReviewDemand → DB → Prop}
    (h : ∀ item run, (s .forgeItem).find? itemId = some item →
      Ensures (observe env run item true) s fun r s' => ∀ demand, r = some demand → Q demand s') :
    Ensures (request env actor itemId note runId) s Q := by
  refine .ask ?_
  rintro ⟨item, run⟩ hok
  obtain ⟨item', hitem, hok⟩ := check_bind_eq_ok.mp hok
  obtain ⟨_, -, hok⟩ := check_bind_eq_ok.mp hok
  obtain ⟨-, -, hok⟩ := check_bind_eq_ok.mp hok
  have hstored : (s .forgeItem).find? itemId = some item := by
    suffices heq : item' = item by
      rw [← heq]
      exact get_eq_ok.mp hitem
    obtain ⟨live, hok⟩ := check_ite_bind_ok hok
    cases hrun : (runId.orElse fun _ => live.map (·.assignment.runId)).orElse
        fun _ => item'.originRunId with
    | none =>
      simp only [hrun] at hok
      exact absurd hok refuse_ne_ok
    | some runId =>
      simp only [hrun] at hok
      obtain ⟨_, -, hok⟩ := check_bind_eq_ok.mp hok
      obtain ⟨_, -, hok⟩ := check_bind_eq_ok.mp hok
      obtain ⟨_, -, hok⟩ := check_bind_eq_ok.mp hok
      obtain ⟨-, hok⟩ := ite_refuse_bind_eq_ok.mp hok
      cases horigin : item'.originRunId with
      | none =>
        simp only [horigin, ite_refuse_bind_eq_ok, check_pure_eq_ok] at hok
        exact congrArg Prod.fst hok.2.2.2
      | some _ =>
        simp only [horigin] at hok
        obtain ⟨_, -, hok⟩ := check_bind_eq_ok.mp hok
        simp only [ite_refuse_bind_eq_ok, check_pure_eq_ok] at hok
        exact congrArg Prod.fst hok.2.2.2.2
  refine .bind (h item run hstored) fun demand s' hQ => ?_
  cases demand with
  | some demand => exact .pure (hQ demand rfl)
  | none => exact .raise

theorem request_ensures (hs : Sound s) (ho : P (.demandOpened (some itemId)))
    (hobs : P (.demandObserved (some itemId))) :
    EmitsFrom P s (request env actor itemId note runId) := by
  refine ensures_request fun item run hitem => ?_
  obtain ⟨_, rfl⟩ := find?_eq_some.mp hitem
  exact (observe_ensures hs hitem (.refl item) ho hobs).mono fun _ _ h _ _ => h.1

/-- Queueing writes neither items nor demands. -/
theorem Event.table_ne_reviewDemand (h : ev.isQueueing) : ev.table ≠ .reviewDemand := by
  intro ht
  cases ev with
  | other t hu => cases ht; cases hu
  | _ => first | cases h; done | cases ht

/-- The owner of a generation is queued with the key of its item, and named by the demand. -/
theorem assignOwner_ensures (hs : Sound s) (hr : ∀ ev : Event, ev.isRoutine → P ev)
    (hdemand : (s .reviewDemand).find? item.id = some demand) :
    EmitsFrom P s (assignOwner env run item demand) := by
  have hmono : ∀ {s s' : DB}, Effects (·.isQueueing) s s' → Effects P s s' := fun h =>
    h.mono fun ev hev => hr ev (Event.isRoutine_of_isQueueing hev)
  refine .read ?_
  dsimp only
  split
  · exact .pure (Moves.refl _)
  · exact .raise
  · refine .bind (childMission_delegates hs) fun mission s₁ ⟨h₁, _⟩ => ?_
    refine .bind (systemActor_delegates.from (h₁.sound hs)) fun _ s₂ h₂ => ?_
    have h₂ : Effects (·.isQueueing) s s₂ := (h₁.trans h₂).mono fun ev hev =>
      Event.isQueueing_of_isDelegating hev
    refine .bind
      (assignment_ensures (fun _ h => h) (h₂.sound hs) (by simp) (by simp [DB.isPlanner])) ?_
    rintro row s₃ ⟨h₃, hrow, hkey, hrule, _, hunstarted⟩
    have h₃ : Effects (·.isQueueing) s s₃ := h₂.trans h₃
    refine .bind (keyFresh_ensures (P := (·.isQueueing)) (fun _ h => h) hrow hkey hunstarted
      (by rintro ⟨⟩) fun _ _ => hrule) ?_
    rintro owner s₄ ⟨h₄, howner, hreview, hid⟩
    have h₄ : Effects (·.isQueueing) s s₄ := h₃.trans h₄
    have hframe : s₄ .reviewDemand = s .reviewDemand := h₄.frame fun _ =>
      Event.table_ne_reviewDemand
    rw [ensures_bind, ensures_updateWhere, ensures_pure]
    refine (hmono h₄).trans (Moves.single (hr .demandAssigned rfl) (.bulk fun d hd hp => ?_))
    have hdemand' : d = demand := by
      obtain ⟨hmem, hk⟩ := find?_eq_some.mp hdemand
      rw [← hframe] at hmem
      exact (s₄ .reviewDemand).eq_of_key hd hmem ((beq_iff_eq.mp hp).trans hk.symm)
    subst hdemand'
    have hwf := (h₄.sound hs).wellFormed (t := .reviewDemand) hd
    refine ⟨hwf, fun _ h => h, ⟨owner, howner, ?_, congrArg some hid.symm⟩, rfl, rfl, rfl, rfl⟩
    rw [hreview, ← beq_iff_eq.mp hp]

section

variable (hr : ∀ ev : Event, ev.isRoutine → P ev) (hl : ∀ id, P (.assignmentLost id))
  (ho : ∀ id, P (.obligationReopened id))
include hr hl ho

/-- An assignment that was just read is cancelled where it stands. -/
theorem cancelStored_emits {reason : String} {disabling reconsidering : Bool} :
    Emits P (do
      let item ← getRecord .assignment id
      let _ ← cancel env item reason disabling reconsidering) := by
  refine emits_of_sound fun s hs => ?_
  refine ensures_fetch fun item hitem => ?_
  obtain ⟨_, rfl⟩ := find?_eq_some.mp hitem
  exact .bind (cancel_ensures hr hs (hl _) ho ⟨item, hitem, refl item⟩) fun _ _ h => .pure h

theorem cancelOwner_emits : Emits P (cancelOwner env demand item) := by
  rw [cancelOwner]
  split
  · exact .pure
  · exact .ite (fun _ => cancelStored_emits hr hl ho) fun _ => .pure

end

theorem cancelOwner_of_opened (h : item.status = .opened) :
    cancelOwner env demand item = pure () := by
  rw [cancelOwner]
  split
  · rfl
  · rw [if_neg (not_not_intro h)]

/-- The writes of a reconciliation of review demand. -/
abbrev Event.Reviews (ev : Event) : Prop := ev.isRoutine ∨ ev.isSettling

theorem Event.Reviews.ne_itemSynced (h : ev.Reviews) (id : Id) : ev ≠ .itemSynced id := by
  rintro rfl
  rcases h with h | h <;> cases h

/-- What follows the observation of an item that is stored as it was read. -/
theorem reviewItem_ensures (hs : Sound s)
    (hitem : (s .forgeItem).find? item.id = some i) (hsame : item.SameState i) :
    Ensures (do
      match ← observe env run item false with
      | none => pure none
      | some demand =>
        cancelOwner env demand item
        if demand.generation ≤ demand.handledGeneration ∨ item.status ≠ .opened then pure none
        else
          let owner ← match demand.assignmentId with
            | some ownerId => some <$> getRecord .assignment ownerId
            | none => pure none
          let db ← get
          if owner.any (db.ownerRetained demand) then pure none
          else assignOwner env run item demand) s fun _ s' => Effects Event.Reviews s s' := by
  have hr : ∀ ev : Event, ev.isRoutine → ev.Reviews := fun _ => .inl
  refine .bind (observe_ensures (P := Event.Reviews) hs hitem hsame (.inl rfl) (.inl rfl))
    fun demand s₁ ⟨h₁, hdemand⟩ => ?_
  cases demand with
  | none => exact .pure h₁
  | some demand =>
    dsimp only
    by_cases hopen : item.status = .opened
    · rw [cancelOwner_of_opened hopen]
      suffices h : Ensures _ s₁ fun _ s' => Effects Event.Reviews s₁ s' from
        h.mono fun _ _ h => h₁.trans h
      refine .ite (fun _ => .pure (Moves.refl _)) fun _ => ?_
      have hrest : ∀ owner : Option Assignment, Ensures (do
          let db ← get
          if owner.any (db.ownerRetained demand) then pure none
          else assignOwner env run item demand) s₁ fun _ s' => Effects Event.Reviews s₁ s' := by
        intro owner
        exact .read <| .ite (fun _ => .pure (Moves.refl _)) fun _ =>
          assignOwner_ensures (h₁.sound hs) hr (hdemand demand rfl)
      split
      · rw [ensures_bind, ensures_map, ensures_getRecord]
        exact fun owner _ => hrest (some owner)
      · rw [ensures_bind, ensures_pure]
        exact hrest none
    · refine .bind ((cancelOwner_emits hr (fun _ => .inr rfl) fun _ => .inr rfl).from (h₁.sound hs))
        fun _ _ h₂ => ?_
      rw [if_pos (.inr hopen)]
      exact .pure (h₁.trans h₂)

theorem itemPhased_changes :
    Event.Changes .itemPhased s i (touch env.now .forgeItem { i with reviewPhase := some phase }) :=
  ForgeItem.SameState.mk rfl rfl rfl

/-- Noting the phase of a stored item. -/
theorem phaseItem_ensures (hP : P .itemPhased) :
    Ensures (change env .forgeItem id none fun i => { i with reviewPhase := some phase }) s
      fun row s' => Effects P s s' ∧ (s' .forgeItem).find? row.id = some row := by
  refine (ensures_change_effects .itemPhased hP fun _ _ => itemPhased_changes).mono ?_
  rintro row s' ⟨heff, hrw, old, hold, rfl⟩
  obtain ⟨_, rfl⟩ := find?_eq_some.mp hold
  exact ⟨heff, hrw.stored⟩

theorem reconcileItem_ensures (hs : Sound s)
    (hitem : (s .forgeItem).find? item.id = some i) (hsame : item.SameState i) :
    Ensures (reconcileItem env run item) s fun _ s' => Effects Event.Reviews s s' := by
  rw [reconcileItem]
  dsimp only
  split
  · rw [ensures_bind, ensures_pure]
    exact reviewItem_ensures hs hitem hsame
  · refine .bind (phaseItem_ensures (P := Event.Reviews) (.inl rfl)) fun row s₁ ⟨h₁, hrow⟩ => ?_
    exact (reviewItem_ensures (h₁.sound hs) hrow (.refl _)).mono fun _ _ h => h₁.trans h

/-- Items are read once for a run, and reconciled one after the other. -/
theorem reconcileReviews_ensures (hs : Sound s) :
    Ensures (reconcileReviews env run) s fun _ s' => Effects Event.Reviews s s' := by
  refine .ite (fun _ => .pure (Moves.refl _)) fun _ => ?_
  refine ensures_fetch fun _ _ => ?_
  rw [ensures_bind, ensures_get, ensures_bind]
  simp only [ensures_pure]
  refine ensures_firstSome (J := fun s₁ => Effects Event.Reviews s s₁)
    (Moves.refl _) ?_ fun _ h => h
  intro item hitem s₁ h₁
  have hmem : item ∈ s .forgeItem := List.mem_of_mem_filter (env.reviewPage_subset _ _ _ hitem)
  have hstored : (s .forgeItem).find? item.id = some item := find?_key hmem
  obtain ⟨i, hi, hsame⟩ := h₁.forgeItem hstored fun _ hev => hev.ne_itemSynced _
  exact (reconcileItem_ensures (h₁.sound hs) hi hsame).mono fun _ _ h =>
    ⟨h₁.trans h, fun _ => h₁.trans h⟩

theorem reconcileDemand_ensures (hs : Sound s) :
    Ensures (reconcileDemand env) s fun _ s' => Effects Event.Reviews s s' := by
  refine .read ?_
  refine ensures_each (J := fun s₁ => Effects Event.Reviews s s₁) (Moves.refl _)
    fun run _ s₁ h₁ => ?_
  exact (reconcileReviews_ensures (h₁.sound hs)).mono fun _ _ h => h₁.trans h

/-- Settling a generation that exists keeps the generations in order. -/
theorem settle_emits {generation : Nat} (hset : P (.demandSettled itemId generation)) :
    Emits P (settle env actor itemId generation) := by
  refine emits_of_sound fun s hs => ?_
  refine .ask fun _ hok => ?_
  rw [ensures_updateWhere]
  refine Moves.single hset (.bulk fun d hd hp => ?_)
  simp only [check_bind_eq_ok] at hok
  obtain ⟨_, _, _, _, hok⟩ := hok
  have hid : d.forgeItemId = itemId := beq_iff_eq.mp hp
  have hfind : (s .reviewDemand).find? itemId = some d := find?_eq_some.mpr ⟨hd, hid⟩
  obtain ⟨hpos, hle⟩ : 0 < d.generation ∧ d.handledGeneration ≤ d.generation :=
    of_decide_eq_true (hs.wellFormed hd)
  rw [hfind] at hok
  have hgen : generation ≤ d.generation := Nat.le_of_not_lt (ite_refuse_eq_ok.mp hok).1
  exact ⟨decide_eq_true ⟨hpos, max_le hgen hle⟩, fun _ h => h, hid, hgen, rfl⟩

end Horizon
