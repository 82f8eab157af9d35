import Horizon.Invariants.Reviews
import Horizon.Integrations.Deliveries
import Horizon.Review.Labels

/-!
# The review label converges

As long as an item stays open and its recorded label changes only by the review labels of the
outbox, either a review label of the item is still to be delivered, or the recorded label says
whether a generation is unhandled.  Every step of the control plane, of the connector
processes and of the remote side keeps this (`label_converges`).

A synchronisation records what it listed earlier.  If a review label was delivered since then, it
puts the label back on record that the delivery took off, and nothing repairs this
(`label_outdated`).
-/

namespace Horizon

open Transaction Option Table Installation Database

variable {operationId id itemId : Id} {maxAttempts expected : Nat} {step : OutboxStep} {s s' : DB}
  {ev : Event} {l : Label} {note : String}

/-! ## Demand and item -/

/-- What the demand of an open item relies on. -/
structure DB.Watched (itemId : Id) (db : DB) : Prop where
  stored : ∀ d, (db .reviewDemand).find? itemId = some d →
    ∃ item, (db .forgeItem).find? itemId = some item
  opened : ∀ item, (db .forgeItem).find? itemId = some item → item.status = .opened
  attention : ∀ d, (db .reviewDemand).find? itemId = some d →
    d.handledGeneration < d.generation → d.attention

/-- The recorded label says whether a generation is unhandled. -/
def DB.Converged (itemId : Id) (db : DB) : Prop :=
  ∀ item d, (db .forgeItem).find? itemId = some item → (db .reviewDemand).find? itemId = some d →
    (item.awaitingReview ↔ d.handledGeneration < d.generation)

/-- The writes that leave an item to its review labels. -/
structure Event.LeavesItem (itemId : Id) (ev : Event) : Prop where
  recorded : ev ≠ .itemRecorded
  synced : ev ≠ .itemSynced itemId

theorem forgeItemId_of_find? {d : ReviewDemand} (h : (s .reviewDemand).find? itemId = some d) :
    d.forgeItemId = itemId := key_of_find? h

/-- The writes that change what is unhandled only along with the label. -/
structure Event.FollowsLabel (itemId : Id) (s : DB) (ev : Event) : Prop where
  opened : ev ≠ .demandOpened (some itemId)
  observed : ev ≠ .demandObserved (some itemId)
  settled : ∀ n, ev = .demandSettled itemId n →
    ∀ d, (s .reviewDemand).find? itemId = some d → n < d.generation

namespace Effect

/-- Without a synchronisation no item appears. -/
theorem forgeItem_of (h : Effect ev s s') (hev : ev.LeavesItem itemId) {i' : ForgeItem}
    (hi' : (s' .forgeItem).find? itemId = some i') :
    ∃ i, (s .forgeItem).find? itemId = some i ∧ i.SameState i' := by
  cases hi : (s .forgeItem).find? itemId with
  | some i =>
    obtain ⟨_, hi₁, hsame⟩ := h.forgeItem hi hev.synced
    cases hi₁.symm.trans hi'
    exact ⟨i, rfl, hsame⟩
  | none =>
    have hnone := find?_eq_none.mp hi
    obtain ⟨hmem, hid⟩ := find?_eq_some.mp hi'
    obtain hold | ⟨ht, hw⟩ := h.origin hmem
    · exact absurd hid (hnone i' hold)
    cases ev with
    | itemRecorded => exact absurd rfl hev.recorded
    | itemSynced | itemPhased =>
      obtain ⟨⟨⟩, -⟩ | ⟨i, hi, hkey, -⟩ := hw
      exact absurd (hkey.symm.trans hid) (hnone i hi)
    | other t hu => cases ht; cases hu
    | _ => cases ht

/-- Where the demand of an item comes from. -/
theorem demand_of (h : Effect ev s s') {d' : ReviewDemand}
    (hd' : (s' .reviewDemand).find? itemId = some d') :
    (s .reviewDemand).find? itemId = some d'
      ∨ (∃ requested, ev = .demandOpened requested ∧ Event.Inserts (.demandOpened requested) s d')
      ∨ ∃ d, (s .reviewDemand).find? itemId = some d
        ∧ ((∃ requested, ev = .demandObserved requested
            ∧ Event.Changes (.demandObserved requested) s d d')
          ∨ Event.Changes .demandAssigned s d d'
          ∨ ∃ n, ev = .demandSettled itemId n
          ∧ Event.Changes (.demandSettled itemId n) s d d') := by
  obtain ⟨hmem, hid⟩ := find?_eq_some.mp hd'
  have hfrom : ∀ d ∈ s .reviewDemand, key .reviewDemand d' = key .reviewDemand d →
      (s .reviewDemand).find? itemId = some d := fun d hd hk =>
    find?_eq_some.mpr ⟨hd, hk.symm.trans hid⟩
  obtain hd | ⟨ht, hw⟩ := h.origin hmem
  · exact .inl (find?_eq_some.mpr ⟨hd, hid⟩)
  right
  cases ev with
  | demandOpened requested =>
    obtain ⟨hins, -⟩ | ⟨_, _, _, ⟨⟩⟩ := hw
    exact .inl ⟨requested, rfl, hins⟩
  | demandObserved requested =>
    obtain ⟨⟨⟩, -⟩ | ⟨d, hd, hk, hch⟩ := hw
    exact .inr ⟨d, hfrom d hd hk, .inl ⟨requested, rfl, hch⟩⟩
  | demandAssigned =>
    obtain ⟨⟨⟩, -⟩ | ⟨d, hd, hk, hch⟩ := hw
    exact .inr ⟨d, hfrom d hd hk, .inr (.inl hch)⟩
  | demandSettled id n =>
    obtain ⟨⟨⟩, -⟩ | ⟨d, hd, hk, hch⟩ := hw
    obtain rfl : id = itemId := hch.1.symm.trans (hk.symm.trans hid)
    exact .inr ⟨d, hfrom d hd hk, .inr (.inr ⟨n, rfl, hch⟩)⟩
  | other t hu => cases ht; cases hu
  | _ => cases ht

theorem watched (h : Effect ev s s') (hev : ev.LeavesItem itemId) (hs : s.Watched itemId) :
    s'.Watched itemId where
  stored d' hd' := by
    have hitem : (∃ item, (s .forgeItem).find? itemId = some item) →
        ∃ item, (s' .forgeItem).find? itemId = some item := fun ⟨i, hi⟩ => by
      obtain ⟨i', hi', -⟩ := h.forgeItem hi hev.synced
      exact ⟨i', hi'⟩
    rcases h.demand_of hd' with hd | ⟨requested, -, -, item, hi, -⟩ | ⟨d, hd, -⟩
    · exact hitem (hs.stored d' hd)
    · rw [forgeItemId_of_find? hd'] at hi
      exact hitem ⟨item, hi⟩
    · exact hitem (hs.stored d hd)
  opened i' hi' := by
    obtain ⟨i, hi, hsame⟩ := h.forgeItem_of hev hi'
    rw [hsame.status]
    exact hs.opened i hi
  attention d' hd' hlt := by
    rcases h.demand_of hd' with hd | ⟨requested, -, -, item, hi, hopen, -⟩ | ⟨d, hd, hch⟩
    · exact hs.attention d' hd hlt
    · exact hopen.attention
    · rcases hch with
        ⟨requested, -, -, item, hi, hobs⟩ | ⟨-, -, hgen, hhan, hatt⟩ | ⟨n, -, -, -, rfl⟩
      · rw [forgeItemId_of_find? hd] at hi
        exact hobs.attention (hs.opened item hi) hlt
      · rw [hatt]
        exact hs.attention d hd (by rwa [hgen, hhan] at hlt)
      · exact hs.attention d hd (lt_of_le_of_lt (le_max_right _ _) hlt)

theorem converged (h : Effect ev s s') (hs : Sound s) (hev : ev.LeavesItem itemId)
    (hf : ev.FollowsLabel itemId s) (hw : s.Watched itemId) (hc : s.Converged itemId) :
    s'.Converged itemId := by
  intro i' d' hi' hd'
  obtain ⟨i, hi, hsame⟩ := h.forgeItem_of hev hi'
  rw [hsame.awaitingReview]
  rcases h.demand_of hd' with hd | ⟨requested, rfl, hreq, item, hitem, hopen, hlabel⟩ | ⟨d, hd, hch⟩
  · exact hc i d' hi hd
  · -- A demand that nobody requested begins with the label.
    rw [forgeItemId_of_find? hd', hi] at hitem
    cases hitem
    have hnone : requested = none := by
      cases requested with
      | none => rfl
      | some id =>
        obtain rfl : itemId = id := (forgeItemId_of_find? hd').symm.trans (hreq id rfl)
        exact absurd rfl hf.opened
    simp [hlabel hnone, hopen.generation, hopen.handledGeneration]
  · have hbefore := hc i d hi hd
    have hle : d.handledGeneration ≤ d.generation :=
      (of_decide_eq_true (hs.wellFormed (t := .reviewDemand) (mem_of_find? hd))).2
    rcases hch with
      ⟨requested, rfl, hreq, item, hitem, hobs⟩ | ⟨-, -, hgen, hhan, -⟩ | ⟨n, rfl, -, -, rfl⟩
    · rw [forgeItemId_of_find? hd, hi] at hitem
      cases hitem
      have hnone : requested = none := by
        cases requested with
        | none => rfl
        | some id =>
          obtain rfl : itemId = id := (forgeItemId_of_find? hd).symm.trans (hreq id rfl)
          exact absurd rfl hf.observed
      have hhan := hobs.handledGeneration
      rw [if_pos (hw.opened i hi)] at hhan
      rcases hobs.generation with hgen | ⟨hgen, -, hexp | hlabel | hlt⟩
      · rw [hgen, hhan]
        exact hbefore
      · rw [hnone] at hexp
        cases hexp
      · rw [hlabel, hgen, hhan]
        exact iff_of_true rfl (Nat.lt_succ_of_le hle)
      · rw [hbefore.mpr hlt, hgen, hhan]
        exact iff_of_true rfl (Nat.lt_succ_of_le hle)
    · rw [hgen, hhan]
      exact hbefore
    · have hn := hf.settled n rfl d hd
      refine hbefore.trans
        ⟨fun hlt => max_lt hn hlt, fun hlt => lt_of_le_of_lt (le_max_right _ _) hlt⟩

end Effect

/-! ## Steps of the control plane -/

/-- Only a synchronisation can take an item from its review labels. -/
theorem emits_leavesItem (hsync : ∀ item, l.operation ≠ .syncItem item) (h : l.Emits s ev) :
    ev.LeavesItem itemId := by
  constructor
  · rintro rfl
    obtain ⟨item, hop⟩ := h.comesFrom
    exact hsync item hop
  · rintro rfl
    obtain ⟨item, hop, -⟩ := h.comesFrom
    exact hsync item hop

theorem step_watched (hs : Sound s) (h : controlPlane.step s l s')
    (hsync : ∀ item, l.operation ≠ .syncItem item) (hw : s.Watched itemId) : s'.Watched itemId :=
  (step_preserves (I := fun s => s.Watched itemId)
    (fun _ hev _ _ _ heff => heff.watched (emits_leavesItem hsync hev)) ⟨hs, hw⟩ h).2

/-- A request leaves a demand. -/
theorem step_requested (hs : Sound s) (h : controlPlane.step s l s') {runId : Option Id}
    (hop : l.operation = .command expected (.requestReview itemId note runId)) :
    ∃ d, (s' .reviewDemand).find? itemId = some d := by
  have hrun : execute l.env l.actor expected (.requestReview itemId note runId) s
      = .ok ((), s') := by
    have hrun : l.operation.run l.env l.actor s = .ok ((), s') := h
    rwa [hop] at hrun
  have hensures : Ensures (execute l.env l.actor expected (.requestReview itemId note runId)) s
      fun _ s' => ∃ d, (s' .reviewDemand).find? itemId = some d := by
    refine .guard fun _ => .bind (ensures_request fun item run hitem => ?_) fun _ _ h => .pure h
    obtain ⟨_, rfl⟩ := find?_eq_some.mp hitem
    exact (observe_ensures (P := fun _ => True) hs hitem (.refl item) trivial trivial).mono
      fun _ _ hd demand hdemand => ⟨demand, hd.2 demand hdemand⟩
  exact hensures _ _ hrun

/-- A settlement names a generation of the demand. -/
theorem step_settled (h : controlPlane.step s l s') {n : Nat}
    (hop : l.operation = .command expected (.settleReview itemId n note)) :
    ∃ d, (s .reviewDemand).find? itemId = some d ∧ n ≤ d.generation := by
  have hrun : execute l.env l.actor expected (.settleReview itemId n note) s = .ok ((), s') := by
    have hrun : l.operation.run l.env l.actor s = .ok ((), s') := h
    rwa [hop] at hrun
  have hensures : Ensures (execute l.env l.actor expected (.settleReview itemId n note)) s
      fun _ _ => ∃ d, (s .reviewDemand).find? itemId = some d ∧ n ≤ d.generation := by
    refine .guard fun _ => .ask fun _ _ => .ask fun _ hok => ?_
    rw [ensures_updateWhere]
    obtain ⟨_, -, hok⟩ := check_bind_eq_ok.mp hok
    obtain ⟨-, -, hok⟩ := check_bind_eq_ok.mp hok
    cases hd : (s .reviewDemand).find? itemId with
    | none =>
      rw [hd] at hok
      exact absurd hok refuse_ne_ok
    | some d =>
      rw [hd] at hok
      exact ⟨d, rfl, Nat.le_of_not_lt (ite_refuse_eq_ok.mp hok).1⟩
  exact hensures _ _ hrun

/-- Where no label of the item is queued, the recorded one keeps saying what is unhandled. -/
theorem step_converged (hs : Sound s) (h : controlPlane.step s l s')
    (hsync : ∀ item, l.operation ≠ .syncItem item)
    (hlabel : ∀ g, s.labelOf s' l.operation ≠ some (itemId, g))
    (hw : s.Watched itemId) (hc : s.Converged itemId) : s'.Converged itemId := by
  have hrequest : ∀ expected note runId,
      l.operation ≠ .command expected (.requestReview itemId note runId) := by
    intro expected note runId hop
    obtain ⟨d, hd⟩ := step_requested hs h hop
    exact hlabel d.generation (by rw [hop, DB.labelOf, hd]; rfl)
  have hsettle : ∀ expected n note, l.operation = .command expected (.settleReview itemId n note) →
      ∃ d, (s .reviewDemand).find? itemId = some d ∧ n < d.generation := by
    intro expected n note hop
    obtain ⟨d, hd, hle⟩ := step_settled h hop
    refine ⟨d, hd, lt_of_le_of_ne hle fun heq => hlabel n ?_⟩
    rw [hop, DB.labelOf, hd, bind_some, if_pos heq]
  refine (step_preserves (I := fun s => s.Watched itemId ∧ s.Converged itemId
    ∧ ∀ expected n note, l.operation = .command expected (.settleReview itemId n note) →
      ∃ d, (s .reviewDemand).find? itemId = some d ∧ n < d.generation) ?_
      ⟨hs, hw, hc, hsettle⟩ h).2.2.1
  rintro ev hev s₁ _ hs₁ heff ⟨hw₁, hc₁, hset₁⟩
  have hleaves : ev.LeavesItem itemId := emits_leavesItem hsync hev
  have hfollows : ev.FollowsLabel itemId s₁ := by
    refine ⟨?_, ?_, ?_⟩
    · rintro rfl
      obtain ⟨expected, note, runId, hop⟩ := hev.comesFrom
      exact hrequest expected note runId hop
    · rintro rfl
      obtain ⟨expected, note, runId, hop⟩ := hev.comesFrom
      exact hrequest expected note runId hop
    · rintro n rfl d hd
      obtain ⟨expected, note, hop⟩ := hev.comesFrom
      obtain ⟨d', hd', hlt⟩ := hset₁ expected n note hop
      rw [hd] at hd'
      cases hd'
      exact hlt
  refine ⟨heff.watched hleaves hw₁, heff.converged hs₁ hleaves hfollows hw₁ hc₁,
    fun expected n note hop => ?_⟩
  obtain ⟨d, hd, hlt⟩ := hset₁ expected n note hop
  obtain ⟨d', hd', hh⟩ := heff.handles (P := fun _ => True) hs₁ trivial hd
  exact ⟨d', hd', lt_of_lt_of_le hlt hh.generation⟩

/-! ## Deliveries -/

/-- A review label of an item is still to be delivered. -/
def Outbox.Unfinished (itemId : Id) (o : Outbox) : Prop :=
  ∃ d ∈ o.operations, d.isReviewLabel itemId ∧ d.status ≠ .completed

section

variable {o o' : Outbox}

/-- An operation that changes without being completed stays to be delivered. -/
theorem Outbox.Unfinished.change (h : o.Unfinished itemId) {f : Delivery → Delivery}
    (hf : ∀ d, (f d).id = d.id) (hsame : ∀ d, (f d).isReviewLabel itemId = d.isReviewLabel itemId)
    (hstatus : ∀ d ∈ o.operations, d.id = id → d.isReviewLabel itemId → (f d).status ≠ .completed) :
    (o.change id f hf).Unfinished itemId := by
  obtain ⟨d, hd, hlabel, hopen⟩ := h
  refine ⟨_, (Outbox.mem_change hf).mpr ⟨d, hd, rfl⟩, ?_⟩
  split
  · rename_i hid
    exact ⟨(hsame d).trans hlabel, hstatus d hd hid hlabel⟩
  · exact ⟨hlabel, hopen⟩

theorem Outbox.Unfinished.of_operations (h : o.Unfinished itemId)
    (heq : o'.operations = o.operations) : o'.Unfinished itemId := by
  rwa [Outbox.Unfinished, heq]

/-- The outbox completes a review label only by a settlement that says so. -/
theorem Outbox.Change.unfinished (h : o.Change step o') (hu : o.Unfinished itemId) :
    o'.Unfinished itemId ∨ ∃ d, o.completedBy step = some d ∧ d.isReviewLabel itemId := by
  cases h with
  | phase | send | remote | ended | advance => exact .inl (hu.of_operations rfl)
  | claim hnew hd =>
    exact .inl ((hu.change (f := o.leased _) (fun _ => rfl) (fun _ => rfl)
      fun _ _ _ _ => by rintro ⟨⟩).of_operations rfl)
  | @settle maxAttempts backoff a d outcome ha hd hid _ hheld =>
    cases outcome with
    | none =>
      have hphase : a.phase = .done := by
        cases hp : a.phase <;> simp_all [Attempt.outcome]
      have hcomp : o.completedBy (.settle backoff a.id) = some d := by
        rw [completedBy, find?_key ha]
        simp only [bind_eq_bind, bind_some, find?_eq_some.mpr ⟨hd, hid⟩, hphase,
          hheld, if_true]
      by_cases hlabel : d.isReviewLabel itemId
      · exact .inr ⟨d, hcomp, hlabel⟩
      · refine .inl
          ((hu.change (f := o.settled maxAttempts backoff a none) (fun _ => rfl) (fun _ => rfl)
          fun d' hd' hid' hl => ?_).of_operations rfl)
        obtain rfl := o.operations.eq_of_key hd' hd hid'
        exact absurd hl hlabel
    | some failure =>
      refine .inl
        ((hu.change (f := o.settled maxAttempts backoff a (some failure)) (fun _ => rfl)
          (fun _ => rfl)
        fun _ _ _ _ => ?_).of_operations rfl)
      simp only [settled, map_some, getD_some, failedStatus]
      split
      · decide
      · split <;> decide
  | retry | cancel =>
    exact .inl
      (hu.change (f := commanded _) (fun _ => rfl) (fun _ => rfl) fun _ _ _ _ => by rintro ⟨⟩)
  | absent =>
    exact .inl ((hu.change (f := commanded .failed) (fun _ => rfl) (fun _ => rfl)
      fun _ _ _ _ => by rintro ⟨⟩).of_operations rfl)
  | queue hnew =>
    obtain ⟨d, hd, h⟩ := hu
    exact .inl ⟨d, (mem_insert (h := hnew)).mpr (.inl hd), h⟩

/-- Queueing a label keeps what is to be delivered, and adds its own. -/
theorem Outbox.queueLabel_eq_some (itemId : Id) {label : Option (Id × Nat)}
    (h : o.queueLabel id label = some o') :
    (o.Unfinished itemId → o'.Unfinished itemId)
      ∧ ∀ g, label = some (itemId, g) → o'.Unfinished itemId := by
  cases label with
  | none =>
    cases h
    exact ⟨fun h => h, by rintro _ ⟨⟩⟩
  | some label =>
    obtain ⟨id', g⟩ := label
    simp only [queueLabel, queue, bind_eq_bind] at h
    split at h
    · simp only [bind_eq_some_iff, insertNew_eq_some] at h
      obtain ⟨_, ⟨hnew, rfl⟩, h⟩ := h
      cases h
      constructor
      · rintro ⟨d, hd, h⟩
        exact ⟨d, (mem_insert (h := hnew)).mpr (.inl hd), h⟩
      · rintro _ ⟨⟩
        refine ⟨_, (mem_insert (h := hnew)).mpr (.inr rfl), ?_, by rintro ⟨⟩⟩
        simp [Delivery.isReviewLabel, labelOperation]
    · cases h

end

/-! ## Recorded labels -/

section

variable {labelled : Bool}

theorem DB.Watched.congr (h : s.Watched itemId)
    (hitem : (s' .forgeItem).find? itemId = (s .forgeItem).find? itemId)
    (hdemand : s' .reviewDemand = s .reviewDemand) : s'.Watched itemId where
  stored := by
    rw [hitem, hdemand]
    exact h.stored
  opened := by
    rw [hitem]
    exact h.opened
  attention := by
    rw [hdemand]
    exact h.attention

theorem DB.Converged.congr (h : s.Converged itemId)
    (hitem : (s' .forgeItem).find? itemId = (s .forgeItem).find? itemId)
    (hdemand : s' .reviewDemand = s .reviewDemand) : s'.Converged itemId := by
  rw [DB.Converged, hitem, hdemand]
  exact h

/-- What is written for an item in the place of its row. -/
theorem DB.Watched.of_row (h : s.Watched itemId) {row : ForgeItem}
    (hrow : (s' .forgeItem).find? itemId = some row) (hstatus : row.status = .opened)
    (hdemand : s' .reviewDemand = s .reviewDemand) : s'.Watched itemId where
  stored _ _ := ⟨row, hrow⟩
  opened item hitem := by
    rw [hrow] at hitem
    cases hitem
    exact hstatus
  attention := by
    rw [hdemand]
    exact h.attention

theorem find?_recordLabel :
    (s.recordLabel itemId labelled .forgeItem).find? id = ((s .forgeItem).find? id).map fun i =>
      if i.id = itemId then { i with awaitingReview := labelled } else i := by
  rw [DB.recordLabel, write_self, Table.modify, Table.find?_updateWhere]
  simp only [decide_eq_true_eq]

theorem recordLabel_of_ne {t : TableName} (ht : t ≠ .forgeItem) :
    s.recordLabel itemId labelled t = s t := write_of_ne _ ht _

theorem DB.Watched.recordLabel (h : s.Watched itemId) (id : Id) (labelled : Bool) :
    (s.recordLabel id labelled).Watched itemId := by
  have hdemand : s.recordLabel id labelled .reviewDemand = s .reviewDemand :=
    recordLabel_of_ne (by decide)
  refine ⟨fun d hd => ?_, fun _ hitem => ?_, ?_⟩
  · rw [hdemand] at hd
    obtain ⟨i, hi⟩ := h.stored d hd
    exact ⟨_, by rw [find?_recordLabel, hi]; rfl⟩
  · rw [find?_recordLabel] at hitem
    obtain ⟨i, hi, rfl⟩ := map_eq_some_iff.mp hitem
    split
    · exact h.opened i hi
    · exact h.opened i hi
  · rw [hdemand]
    exact h.attention

/-- What is recorded is the label of another item, or on record already. -/
theorem DB.Converged.recordLabel (h : s.Converged itemId)
    (hsame : id = itemId → ∀ item, (s .forgeItem).find? itemId = some item →
      item.awaitingReview = labelled) :
    (s.recordLabel id labelled).Converged itemId := by
  intro item d hitem hd
  rw [recordLabel_of_ne (by decide)] at hd
  rw [find?_recordLabel] at hitem
  obtain ⟨i, hi, rfl⟩ := map_eq_some_iff.mp hitem
  have hkey : i.id = itemId := key_of_find? hi
  split
  · rename_i hid
    rw [← h i d hi hd, ← hsame (hid.symm.trans hkey) i hi]
  · exact h i d hi hd

theorem Sound.recordLabel (hs : Sound s) (itemId : Id) (labelled : Bool) :
    Sound (s.recordLabel itemId labelled) := by
  have heff : Effect (.itemSynced itemId) s (s.recordLabel itemId labelled) := by
    refine .bulk fun i _ hp => ⟨rfl, fun _ h => h, ?_⟩
    have hid : i.id = itemId := of_decide_eq_true (p := i.id = itemId) hp
    exact hid
  exact heff.sound hs

/-- Where nothing is to be repaired, the recorded label fits the demand. -/
theorem converged_of_repairLabel (hw : s.Watched itemId) (h : s.repairLabel itemId = none) :
    s.Converged itemId := by
  intro item d hitem hd
  simp only [DB.repairLabel, hitem, hd, hw.opened item hitem, beq_self_eq_true, Bool.true_and,
    ite_eq_left_iff, reduceCtorEq, imp_false, not_not] at h
  rw [← h]
  simpa using hw.attention d hd

theorem repairLabel_eq_some {g : Nat} (h : s.repairLabel itemId = some (id, g)) : id = itemId := by
  rw [DB.repairLabel] at h
  split at h
  · dsimp only at h
    split at h
    · cases h
    · cases h
      rfl
  · cases h

end

/-! ## Both together -/

/-- What every step keeps. -/
structure LabelledPlane.Tracks (itemId : Id) (s : LabelledPlane) : Prop where
  sound : Sound s.plane
  watched : s.plane.Watched itemId
  label : s.outbox.Unfinished itemId ∨ s.plane.Converged itemId

/-- An item stays open and its label is left to its review labels: whatever else is recorded of the
item has the label that is on record. -/
def LabelledPlane.leavesLabel (itemId : Id) (s : LabelledPlane) : LabelStep → Bool
  | .plane l _ =>
    match l.operation with
    | .syncItem item => item.id != itemId || (item.status == .opened
        && ((s.plane .forgeItem).find? itemId).all (·.awaitingReview == item.awaitingReview))
    | _ => true
  | .outbox step labelled _ => (s.outbox.completedBy step).all fun d =>
    !d.isOtherLabel itemId || ((s.plane .forgeItem).find? itemId).all (·.awaitingReview == labelled)

namespace LabelledPlane

variable {labelled : Bool} {s s' : LabelledPlane}

theorem Tracks.onPlane (h : s.Tracks itemId) (hg : s.leavesLabel itemId (.plane l operationId))
    (hstep : s.onPlane l operationId = some s') : s'.Tracks itemId := by
  rw [LabelledPlane.onPlane] at hstep
  cases hrun : l.run s.plane with
  | error e => simp [hrun] at hstep
  | ok r =>
    obtain ⟨⟨⟩, plane⟩ := r
    simp only [hrun, map_eq_some_iff] at hstep
    obtain ⟨_, hqueue, rfl⟩ := hstep
    have hplane : controlPlane.step s.plane l plane := hrun
    have hsound : Sound plane := (step_effects h.sound hplane).sound h.sound
    obtain ⟨hkeeps, hadds⟩ := Outbox.queueLabel_eq_some itemId hqueue
    by_cases hsync : ∃ item, l.operation = .syncItem item
    · obtain ⟨item, hop⟩ := hsync
      have hsync : syncItem l.env item s.plane = .ok ((), plane) := by
        have hrun : l.operation.run l.env l.actor s.plane = .ok ((), plane) := hrun
        rwa [hop] at hrun
      obtain ⟨hdemand, hothers, row, hrow, hstatus, hlabel⟩ := syncItem_ensures _ _ hsync
      by_cases hid : item.id = itemId
      · subst hid
        simp only [leavesLabel, hop, bne_self_eq_false, Bool.false_or, Bool.and_eq_true, beq_iff_eq,
          all_eq_true] at hg
        refine ⟨hsound, h.watched.of_row hrow (hstatus.trans hg.1) hdemand, h.label.imp hkeeps ?_⟩
        intro hc i d hi hd
        rw [hrow] at hi
        cases hi
        have hd : (s.plane .reviewDemand).find? item.id = some d := hdemand ▸ hd
        obtain ⟨old, hold⟩ := h.watched.stored d hd
        rw [hlabel, ← hg.2 old hold]
        exact hc old d hold hd
      · have hitem := hothers itemId (Ne.symm hid)
        refine ⟨hsound, h.watched.congr hitem hdemand, h.label.imp hkeeps fun hc => ?_⟩
        exact hc.congr hitem hdemand
    · have hsync : ∀ item, l.operation ≠ .syncItem item := fun item hop => hsync ⟨item, hop⟩
      refine ⟨hsound, step_watched h.sound hplane hsync h.watched, ?_⟩
      by_cases hlabel : ∃ g, s.plane.labelOf plane l.operation = some (itemId, g)
      · obtain ⟨g, hlabel⟩ := hlabel
        exact .inl (hadds g hlabel)
      · refine h.label.imp hkeeps fun hc => ?_
        exact step_converged h.sound hplane hsync (fun g hg => hlabel ⟨g, hg⟩) h.watched hc

theorem Tracks.afterDelivery (h : s.Tracks itemId) {outbox : Outbox}
    (hg : s.leavesLabel itemId (.outbox step labelled operationId))
    (hchange : s.outbox.Change step outbox)
    (hstep : s.afterDelivery outbox labelled operationId (s.outbox.completedBy step) = some s') :
    s'.Tracks itemId := by
  -- Unless a review label of the item is delivered, what is to be delivered stays so.
  have hsame : (∀ d, s.outbox.completedBy step = some d → d.isReviewLabel itemId = false) →
      outbox.Unfinished itemId ∨ s.plane.Converged itemId := by
    intro hother
    refine h.label.imp_left fun hu => ?_
    rcases hchange.unfinished hu with hu | ⟨d, hd, hlabel⟩
    · exact hu
    · rw [hother d hd] at hlabel
      cases hlabel
  cases hcomp : s.outbox.completedBy step with
  | none =>
    rw [hcomp, LabelledPlane.afterDelivery] at hstep
    cases hstep
    refine ⟨h.sound, h.watched, hsame fun d hd => ?_⟩
    rw [hcomp] at hd
    cases hd
  | some d =>
    have hsame : d.isReviewLabel itemId = false → outbox.Unfinished itemId
        ∨ s.plane.Converged itemId :=
      fun hd => hsame fun d' hd' => some.inj (hcomp.symm.trans hd') ▸ hd
    rw [hcomp, LabelledPlane.afterDelivery] at hstep
    split at hstep
    · rename_i id hkind hitem
      have hsound := h.sound.recordLabel id labelled
      have hwatched := h.watched.recordLabel id labelled
      split at hstep
      · rename_i hgeneration
        obtain ⟨_, hqueue, rfl⟩ := map_eq_some_iff.mp hstep
        obtain ⟨hkeeps, hadds⟩ := Outbox.queueLabel_eq_some itemId hqueue
        refine ⟨hsound, hwatched, ?_⟩
        by_cases hid : id = itemId
        · subst hid
          cases hrepair : (s.plane.recordLabel id labelled).repairLabel id with
          | none => exact .inr (converged_of_repairLabel hwatched hrepair)
          | some label =>
            obtain ⟨id', g⟩ := label
            obtain rfl : id' = id := repairLabel_eq_some hrepair
            exact .inl (hadds g hrepair)
        · have hother : d.isReviewLabel itemId = false := by
            simp [Delivery.isReviewLabel, hitem, hid]
          exact (hsame hother).imp hkeeps fun hc => hc.recordLabel fun heq => absurd heq hid
      · rename_i hgeneration
        cases hstep
        have hother : d.isReviewLabel itemId = false := by
          simp [Delivery.isReviewLabel, hgeneration]
        refine ⟨hsound, hwatched, (hsame hother).imp_right fun hc => hc.recordLabel ?_⟩
        rintro rfl item hfind
        simpa [leavesLabel, hcomp, Delivery.isOtherLabel, hkind, hitem, hfind, hgeneration] using hg
    · rename_i hnot
      cases hstep
      refine ⟨h.sound, h.watched, hsame (Bool.eq_false_iff.mpr fun hlabel => ?_)⟩
      simp only [Delivery.isReviewLabel, Bool.and_eq_true, beq_iff_eq] at hlabel
      exact hnot itemId hlabel.1.1 hlabel.1.2

theorem Tracks.onOutbox (h : s.Tracks itemId)
    (hg : s.leavesLabel itemId (.outbox step labelled operationId))
    (hstep : s.onOutbox maxAttempts step labelled operationId = some s') : s'.Tracks itemId := by
  by_cases hqueue : ∃ d, step = .queue d
  · obtain ⟨d, rfl⟩ := hqueue
    simp only [LabelledPlane.onOutbox] at hstep
    split at hstep
    · cases hstep
    · obtain ⟨outbox, hnext, rfl⟩ := map_eq_some_iff.mp hstep
      have hafter : s.afterDelivery outbox labelled operationId (s.outbox.completedBy (.queue d))
          = some ⟨s.plane, outbox⟩ := rfl
      exact h.afterDelivery hg (Outbox.next_change hnext) hafter
  · have heq : s.onOutbox maxAttempts step labelled operationId
        = (s.outbox.next maxAttempts step).bind
        fun outbox => s.afterDelivery outbox labelled operationId (s.outbox.completedBy step) := by
      cases step with
      | queue d => exact absurd ⟨d, rfl⟩ hqueue
      | _ => rfl
    rw [heq] at hstep
    obtain ⟨outbox, hnext, hstep⟩ := bind_eq_some_iff.mp hstep
    exact h.afterDelivery hg (Outbox.next_change hnext) hstep

theorem tracks_of_reachable
    (h : (labelledPlane maxAttempts).ReachableBy (leavesLabel itemId · ·) s) : s.Tracks itemId := by
  refine h.invariant ?_ ?_
  · rintro _ rfl
    refine ⟨sound_empty, ⟨?_, ?_, ?_⟩, .inr ?_⟩
    · rintro _ ⟨⟩
    · rintro _ ⟨⟩
    · rintro _ ⟨⟩
    · rintro _ _ ⟨⟩
  · intro s step s' hs hg hstep
    cases step with
    | plane l operationId => exact hs.onPlane hg hstep
    | outbox step _ operationId => exact hs.onOutbox hg hstep

end LabelledPlane

/-- Once all review labels of an item are delivered, its recorded label is there exactly if a
generation of its demand is unhandled. -/
theorem label_converges {maxAttempts : Nat} {itemId : Id} {s : LabelledPlane}
    (h : (labelledPlane maxAttempts).ReachableBy (LabelledPlane.leavesLabel itemId · · = true) s)
    (hdone : ∀ o ∈ s.outbox.operations, o.isReviewLabel itemId = true → o.status = .completed)
    {item : ForgeItem} (hitem : (s.plane .forgeItem).find? itemId = some item) {d : ReviewDemand}
    (hd : (s.plane .reviewDemand).find? itemId = some d) :
    item.awaitingReview = true ↔ d.handledGeneration < d.generation := by
  rcases (LabelledPlane.tracks_of_reachable h).label with ⟨o, ho, hlabel, hopen⟩ | hc
  · exact absurd (hdone o ho hlabel) hopen
  · exact hc item d hitem hd

/-- The delivery of a label, up to its settlement. -/
def Installation.deliverLabel (attemptId requestId : Id) (labelled : Bool) (repairId : Id) :
    List LabelStep :=
  [OutboxStep.claim 10 attemptId, .lookUp attemptId false, .authorize attemptId,
    .send attemptId requestId, .remote requestId .applied, .answer attemptId true,
    .settle 0 attemptId].map (.outbox · labelled repairId)

/-- Item 1 as it is listed. -/
def Installation.listed (labelled : Bool) : Operation :=
  .syncItem ⟨1, 1, some 1, none, .opened, labelled, 5⟩

/-- A review is requested, and its label delivered. -/
def Installation.requested : List LabelStep :=
  (admitted ++
    [ byAdmin 21 (listed false)
    , byAdmin 22 (.command 0 (.requestReview 1 "Please review" (some 1))) ]).map (.plane · 1)
    ++ deliverLabel 100 200 true 2

def Installation.labelled : LabelledPlane :=
  System.replay (fun s => s.next 5) (LabelledPlane.leavesLabel 1) requested ⟨empty key, .initial⟩

theorem label_converges_requested :
    ∃ item d, (labelled.plane .forgeItem).find? 1 = some item
      ∧ (labelled.plane .reviewDemand).find? 1 = some d
      ∧ (item.awaitingReview = true ↔ d.handledGeneration < d.generation) := by
  have hreach : (labelledPlane 5).ReachableBy (LabelledPlane.leavesLabel 1 · · = true)
      labelled :=
    System.replay_reachable (fun s : LabelledPlane => s.next 5) _ _
  have hdone : labelled.outbox.operations.rows.map (fun o => (o.isReviewLabel 1, o.status))
      = [(true, .completed)] := by decide +kernel
  have hitem : ((labelled.plane .forgeItem).find? 1).isSome = true := by decide +kernel
  have hd : ((labelled.plane .reviewDemand).find? 1).isSome = true := by decide +kernel
  generalize labelled = s at hreach hdone hitem hd ⊢
  obtain ⟨item, hitem⟩ := isSome_iff_exists.mp hitem
  obtain ⟨d, hd⟩ := isSome_iff_exists.mp hd
  refine ⟨item, d, hitem, hd, label_converges hreach (fun o ho _ => ?_) hitem hd⟩
  have hmem := List.mem_map_of_mem (f := fun o : Delivery => (o.isReviewLabel 1, o.status)) ho
  rw [hdone, List.mem_singleton] at hmem
  exact congrArg Prod.snd hmem

/-- The review is settled and its label taken off, while a synchronisation has listed the item with
the label and records it afterwards. -/
def Installation.outdated : LabelledPlane :=
  System.replay (fun s => s.next 5) (fun _ _ => true)
    (requested ++ [.plane (byAdmin 23 (.command 0 (.settleReview 1 1 "Reviewed"))) 3]
      ++ deliverLabel 101 201 false 4 ++ [.plane (byAdmin 24 (listed true)) 5])
    ⟨empty key, .initial⟩

/-- All review labels are delivered and no generation is unhandled, but the label is on record. -/
theorem label_outdated : (labelledPlane 5).Reachable outdated
    ∧ outdated.outbox.operations.rows.map (fun o => (o.isReviewLabel 1, o.status))
      = [(true, .completed), (true, .completed)]
    ∧ ((outdated.plane .forgeItem).find? 1).map (fun item => (item.status, item.awaitingReview))
      = some (.opened, true)
    ∧ ((outdated.plane .reviewDemand).find? 1).map (fun d => (d.generation, d.handledGeneration))
      = some (1, 1) := by
  refine ⟨(System.replay_reachable (fun s : LabelledPlane => s.next 5)
    (fun _ _ => true) _).reachable, ?_, ?_, ?_⟩
  all_goals decide +kernel

end Horizon
