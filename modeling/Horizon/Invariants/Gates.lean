import Horizon.Integrations.Settlements

/-!
# An accepted gate is fresh

A gate that is accepted is accepted for the head that its item has now, on the strength of an
approval prepared for the target it has now.  All steps but the settlement of a review leave
the reviews alone and accept no gate; what they do to items and gates is said once, by
`Steady`.
-/

namespace Horizon.Forge

open Transaction Table List

variable {review : Review} {repositoryId itemId id originRunId gateId : Id}
  {f : Item → Item} {g : Gate}
  {item : Item} {phase : PhaseKind} {payload : Payload} {baseChanged : Bool} {s s' s'' : Forge}
  {values : Values} {l : Step} {d : ReviewDelivery}

/-! ## Steps that decide nothing -/

/-- Between the two states nothing was reviewed and no gate accepted. -/
structure Undecided (s s' : Forge) : Prop where
  reviews : s'.reviews = s.reviews
  deliveries : s'.deliveries = s.deliveries
  gates : ∀ g ∈ s'.gates, g.status = .accepted → g ∈ s.gates

/-- Moreover, an item whose head or target changed has no accepted gate. -/
structure Steady (s s' : Forge) : Prop extends Undecided s s' where
  items : ∀ old ∈ s.items, ∃ new ∈ s'.items, new.id = old.id
    ∧ ((new.headCommitOid = old.headCommitOid ∧ new.targetBranch = old.targetBranch)
      ∨ ∀ g ∈ s'.gates, g.forgeItemId = old.id → g.status ≠ .accepted)

theorem Steady.refl (s : Forge) : Steady s s where
  reviews := rfl
  deliveries := rfl
  gates _ hg _ := hg
  items old hold := ⟨old, hold, rfl, .inl ⟨rfl, rfl⟩⟩

theorem Steady.trans (h : Steady s s') (h' : Steady s' s'') : Steady s s'' where
  reviews := h'.reviews.trans h.reviews
  deliveries := h'.deliveries.trans h.deliveries
  gates g hg hacc := h.gates g (h'.gates g hg hacc) hacc
  items := by
    intro old hold
    obtain ⟨mid, hmid, hid, hcase⟩ := h.items old hold
    obtain ⟨new, hnew, hid', hcase'⟩ := h'.items mid hmid
    refine ⟨new, hnew, hid'.trans hid, ?_⟩
    rcases hcase' with ⟨hhead', htarget'⟩ | hclosed'
    · rcases hcase with ⟨hhead, htarget⟩ | hclosed
      · exact .inl ⟨hhead'.trans hhead, htarget'.trans htarget⟩
      · -- closed in the middle, and not accepted again since
        exact .inr fun g hg hitem hacc => hclosed g (h'.gates g hg hacc) hitem hacc
    · exact .inr fun g hg hitem => hclosed' g hg (hitem.trans hid.symm)

/-- An item is changed, and if its head or target is, its gate is not accepted. -/
theorem changeItem_steady {hf : ∀ item, (f item).id = item.id}
    (h : ∀ item ∈ s.items, item.id = itemId →
      ((f item).headCommitOid = item.headCommitOid ∧ (f item).targetBranch = item.targetBranch)
        ∨ ∀ g ∈ s.gates, g.forgeItemId = itemId → g.status ≠ .accepted) :
    Steady s (s.changeItem itemId f hf) where
  reviews := rfl
  deliveries := rfl
  gates _ hg _ := hg
  items := by
    intro old hold
    refine ⟨_, mem_modify_of_mem hf hold, ?_⟩
    by_cases hid : old.id = itemId
    · rw [if_pos hid]
      refine ⟨hf old, (h old hold hid).imp_right fun hclosed g hg hitem => ?_⟩
      exact hclosed g hg (hitem.trans hid)
    · rw [if_neg hid]
      exact ⟨rfl, .inl ⟨rfl, rfl⟩⟩

/-- An accepted gate is not one that was closed. -/
theorem mem_closeGate (status : GateStatus) (hstatus : status ≠ .accepted)
    (h : g ∈ (s.closeGate itemId status).gates) (hacc : g.status = .accepted) :
    g ∈ s.gates ∧ g.forgeItemId ≠ itemId := by
  obtain ⟨g₀, hg₀, rfl⟩ := (mem_modify (f := Gate.closed status) (e := fun _ => rfl)).mp h
  by_cases hid : g₀.forgeItemId = itemId
  · rw [if_pos hid] at hacc
    exact absurd hacc hstatus
  · rw [if_neg hid]
    exact ⟨hg₀, hid⟩

/-- An item is changed in any way, and its gate invalidated. -/
theorem changeItem_invalidateGate_steady {hf : ∀ item, (f item).id = item.id} :
    Steady s ((s.changeItem itemId f hf).invalidateGate itemId) where
  reviews := rfl
  deliveries := rfl
  gates g hg hacc := (mem_closeGate .stale nofun hg hacc).1
  items := by
    intro old hold
    refine ⟨_, mem_modify_of_mem hf hold, ?_⟩
    by_cases hid : old.id = itemId
    · rw [if_pos hid]
      refine ⟨hf old, .inr fun g hg hitem hacc => ?_⟩
      exact (mem_closeGate .stale nofun hg hacc).2 (hitem.trans hid)
    · rw [if_neg hid]
      exact ⟨rfl, .inl ⟨rfl, rfl⟩⟩

theorem addItem_steady (h : s.addItem item = some s') : Steady s s' := by
  obtain ⟨_, hitems, rfl⟩ := Option.map_eq_some_iff.mp h
  obtain ⟨hnew, rfl⟩ := insertNew_eq_some.mp hitems
  refine ⟨⟨rfl, rfl, fun _ hg _ => hg⟩, fun old hold => ?_⟩
  exact ⟨old, (mem_insert (h := hnew)).mpr (.inl hold), rfl, .inl ⟨rfl, rfl⟩⟩

theorem mem_of_recorded (h : s.recorded repositoryId values = some item) : item ∈ s.items :=
  mem_of_find?_eq_some h

theorem observe_steady (h : s.observe repositoryId values id = some s') : Steady s s' := by
  rw [observe] at h
  cases hrec : s.recorded repositoryId values with
  | none =>
    rw [hrec] at h
    exact addItem_steady h
  | some old =>
    simp only [hrec] at h
    split at h
    · cases h
      exact changeItem_invalidateGate_steady
    · rename_i hsame
      cases h
      rw [not_or, not_not, not_not] at hsame
      refine changeItem_steady fun item hitem hid => .inl ?_
      obtain rfl : item = old := s.items.eq_of_key hitem (mem_of_recorded hrec) hid
      exact ⟨hsame.1.symm, hsame.2.symm⟩

theorem syncForge_steady {observations : List (Values × Id)}
    (h : syncForge repositoryId observations s = some s') : Steady s s' := by
  induction observations generalizing s with
  | nil =>
    cases h
    exact .refl _
  | cons o observations ih =>
    obtain ⟨mid, hmid, hrest⟩ := Option.bind_eq_some_iff.mp h
    exact (observe_steady hmid).trans (ih hrest)

/-- A creation that finds its item recorded leaves the head and target, or the gate is not
accepted. -/
def createsFresh (s : Forge) : Step → Bool
  | .forgeCreate repositoryId _ _ values _ => (s.recorded repositoryId values).all fun existing =>
    (existing.headCommitOid == values.headCommitOid && existing.targetBranch == values.targetBranch)
      || (s.gates.find? existing.id).all (·.status != .accepted)
  | _ => true

theorem settleCreate_steady
    (hg : s.createsFresh (.forgeCreate repositoryId originRunId phase values id))
    (h : s.settleCreate repositoryId originRunId phase values id = some s') : Steady s s' := by
  rw [settleCreate] at h
  cases hrec : s.recorded repositoryId values with
  | none =>
    rw [hrec] at h
    exact addItem_steady h
  | some existing =>
    simp only [hrec] at h
    split at h
    · cases h
    · cases h
      refine changeItem_steady fun item hitem hid => ?_
      obtain rfl : item = existing := s.items.eq_of_key hitem (mem_of_recorded hrec) hid
      simp only [createsFresh, hrec, Option.all_some, Bool.or_eq_true, Bool.and_eq_true,
        beq_iff_eq] at hg
      refine hg.imp (fun hsame => ⟨hsame.1.symm, hsame.2.symm⟩) fun hclosed g hgate hitem' => ?_
      have hfind : s.gates.find? item.id = some g := find?_eq_some.mpr ⟨hgate, hitem'⟩
      simpa [hfind] using hclosed

/-- All steps but the settlement of a review are steady. -/
theorem next_steady (hl : ∀ d, l ≠ .forgeReview d) (hg : s.createsFresh l)
    (h : s.next l = some s') : Steady s s' := by
  cases l with
  | records r =>
    cases h
    exact ⟨⟨rfl, rfl, fun _ hg _ => hg⟩, fun old hold => ⟨old, hold, rfl, .inl ⟨rfl, rfl⟩⟩⟩
  | syncForge repositoryId _ => exact syncForge_steady h
  | classify itemId phase | forgeMerge itemId =>
    obtain ⟨_, -, rfl⟩ := Option.map_eq_some_iff.mp h
    exact changeItem_steady fun _ _ _ => .inl ⟨rfl, rfl⟩
  | forgeChange itemId commitOid | forgeEdit itemId values =>
    obtain ⟨_, -, rfl⟩ := Option.map_eq_some_iff.mp h
    exact changeItem_invalidateGate_steady
  | forgeCreate repositoryId _ phase values id => exact settleCreate_steady hg h
  | forgeReview d => exact absurd rfl (hl d)

theorem settleCreate_undecided
    (h : s.settleCreate repositoryId originRunId phase values id = some s') : Undecided s s' := by
  rw [settleCreate] at h
  split at h
  · exact (addItem_steady h).toUndecided
  · split at h
    · cases h
    · cases h
      exact ⟨rfl, rfl, fun _ hg _ => hg⟩

theorem next_undecided (hl : ∀ d, l ≠ .forgeReview d) (h : s.next l = some s') :
    Undecided s s' := by
  by_cases hcreate : ∃ repositoryId originRunId phase values id,
      l = .forgeCreate repositoryId originRunId phase values id
  · obtain ⟨_, _, _, _, _, rfl⟩ := hcreate
    exact settleCreate_undecided h
  · have hg : s.createsFresh l := by
      rw [createsFresh]
      intro repositoryId originRunId phase values id hl
      exact hcreate ⟨repositoryId, originRunId, phase, values, id, hl⟩
    exact (next_steady hl hg h).toUndecided

/-! ## The settlement of a review -/

/-- What the settlement of a review comes to: `review` was recorded before or is recorded now,
its operation is completed, and a gate that is accepted was so before or rests on it. -/
structure Settles (s : Forge) (d : ReviewDelivery) (review : Review) (s' : Forge) : Prop where
  items : s'.items = s.items
  deliveries : s'.deliveries = s.deliveries ++ [d.delivered review]
  reviews : (s.previous d = some review ∧ s'.reviews = s.reviews)
    ∨ (s.previous d = none
      ∧ (∃ verdict, d.remote.verdict = some verdict ∧ review = d.review verdict)
      ∧ (∀ row ∈ s.reviews, row.id ≠ review.id) ∧ s'.reviews.rows = s.reviews.rows ++ [review])
  gates : ∀ g ∈ s'.gates, g.status = .accepted → g ∈ s.gates
    ∨ (g.forgeItemId = d.payload.forgeItemId ∧ g.maintainerReviewId = some review.id
      ∧ g.acceptedCommitOid = some review.commitOid ∧ review.verdict = .approved
      ∧ ∃ item ∈ s.items, item.id = g.forgeItemId ∧ item.headCommitOid = some review.commitOid
        ∧ d.payload.targetBranch = item.targetBranch)

/-- What opening and closing gates leaves alone. -/
structure SameBut (s s' : Forge) : Prop where
  items : s'.items = s.items
  reviews : s'.reviews = s.reviews
  deliveries : s'.deliveries = s.deliveries

theorem fetch_eq_ok {α : Type} {kind : String} {id : α → Id} {rows : List α}
    {identifier : Id} {r : α}
    (h : fetch kind id rows identifier = .ok r) : r ∈ rows ∧ id r = identifier := by
  rw [fetch] at h
  split at h
  · rename_i r' hfind
    cases h
    exact ⟨mem_of_find?_eq_some hfind, by simpa using find?_some hfind⟩
  · cases h

theorem revokeGate_eq_ok (h : s.revokeGate payload review = .ok s') :
    s.SameBut s' ∧ ∀ g ∈ s'.gates, g.status = .accepted → g ∈ s.gates := by
  have hself : s.SameBut s ∧ ∀ g ∈ s.gates, g.status = .accepted → g ∈ s.gates :=
    ⟨⟨rfl, rfl, rfl⟩, fun _ hg _ => hg⟩
  rw [revokeGate] at h
  split at h
  · cases h
    exact hself
  · split at h
    · obtain ⟨_, -, h⟩ := check_bind_eq_ok.mp h
      obtain ⟨_, -, h⟩ := check_bind_eq_ok.mp h
      obtain ⟨_, -, h⟩ := check_bind_eq_ok.mp h
      cases h
      split
      · exact hself
      · exact ⟨⟨rfl, rfl, rfl⟩, fun g hg hacc => (mem_closeGate .pending (by decide) hg hacc).1⟩
    · cases h
      exact hself

theorem mem_acceptGate {gate : Gate} (h : g ∈ (s.acceptGate gate).gates) :
    g ∈ s.gates ∨ (g.forgeItemId = gate.forgeItemId ∧ g.maintainerReviewId = gate.maintainerReviewId
      ∧ g.acceptedCommitOid = gate.acceptedCommitOid) := by
  simp only [acceptGate] at h
  split at h
  · rename_i hnew
    refine ((mem_insert (h := hnew)).mp h).imp_right fun hg => ?_
    rw [hg]
    exact ⟨rfl, rfl, rfl⟩
  · obtain ⟨g₀, hg₀, rfl⟩ := (mem_modify (f := gate.replacedBy) (e := fun _ => rfl)).mp h
    by_cases hid : g₀.forgeItemId = gate.forgeItemId
    · rw [if_pos hid]
      exact .inr ⟨hid, rfl, rfl⟩
    · rw [if_neg hid]
      exact .inl hg₀

theorem decideGate_eq_ok (h : s.decideGate payload baseChanged gateId review = .ok s') :
    s.SameBut s' ∧ ∀ g ∈ s'.gates, g.status = .accepted → g ∈ s.gates
      ∨ (g.forgeItemId = payload.forgeItemId ∧ g.maintainerReviewId = some review.id
        ∧ g.acceptedCommitOid = some review.commitOid
        ∧ ∃ item ∈ s.items, item.id = g.forgeItemId ∧ item.headCommitOid = some review.commitOid
          ∧ payload.targetBranch = item.targetBranch) := by
  obtain ⟨item, hitem, h⟩ := check_bind_eq_ok.mp h
  obtain ⟨⟨_, _⟩, -, h⟩ := check_bind_eq_ok.mp h
  obtain ⟨_, -, h⟩ := check_bind_eq_ok.mp h
  obtain ⟨hmem, hid⟩ := fetch_eq_ok hitem
  split at h
  · dsimp only at h
    split at h
    · rename_i hready
      cases h
      refine ⟨⟨rfl, rfl, rfl⟩, fun g hg _ => (mem_acceptGate hg).imp_right ?_⟩
      rintro ⟨hgate, hreview, hcommit⟩
      simp only [fits, Bool.and_eq_true, beq_iff_eq] at hready
      obtain ⟨-, -, ⟨⟨⟨-, hhead⟩, -⟩, htarget⟩, -⟩ := hready
      exact ⟨hgate.trans hid, hreview, hcommit, item, hmem, hgate.symm, hhead, htarget⟩
    · split at h
      · cases h
        exact ⟨⟨rfl, rfl, rfl⟩, fun g hg hacc =>
          .inl (mem_closeGate .pending (by decide) hg hacc).1⟩
      · cases h
        exact ⟨⟨rfl, rfl, rfl⟩, fun g hg _ => .inl hg⟩
  · cases h
    exact ⟨⟨rfl, rfl, rfl⟩, fun g hg _ => .inl hg⟩

theorem activateGate_eq_ok (h : s.activateGate payload baseChanged gateId review = .ok s') :
    s.SameBut s' ∧ ∀ g ∈ s'.gates, g.status = .accepted → g ∈ s.gates
      ∨ (g.forgeItemId = payload.forgeItemId ∧ g.maintainerReviewId = some review.id
        ∧ g.acceptedCommitOid = some review.commitOid ∧ review.verdict = .approved
        ∧ ∃ item ∈ s.items, item.id = g.forgeItemId ∧ item.headCommitOid = some review.commitOid
          ∧ payload.targetBranch = item.targetBranch) := by
  obtain ⟨mid, hrevoke, h⟩ := check_bind_eq_ok.mp h
  obtain ⟨hsame, hgates⟩ := revokeGate_eq_ok hrevoke
  split at h
  · cases h
    exact ⟨hsame, fun g hg hacc => .inl (hgates g hg hacc)⟩
  · rename_i happroved
    rw [not_or, not_not] at happroved
    obtain ⟨hsame', hgates'⟩ := decideGate_eq_ok h
    refine ⟨⟨hsame'.items.trans hsame.items, hsame'.reviews.trans hsame.reviews,
      hsame'.deliveries.trans hsame.deliveries⟩, fun g hg hacc => ?_⟩
    refine (hgates' g hg hacc).imp (hgates g · hacc) ?_
    rintro ⟨hitem, hreview, hcommit, item, hmem, hrest⟩
    exact ⟨hitem, hreview, hcommit, happroved.1, item, hsame.items ▸ hmem, hrest⟩

@[simp] theorem verified_targetBranch (d : ReviewDelivery) :
    d.verified.targetBranch = d.payload.targetBranch := by
  rw [ReviewDelivery.verified]
  split <;> rfl

@[simp] theorem verified_forgeItemId (d : ReviewDelivery) :
    d.verified.forgeItemId = d.payload.forgeItemId := by
  rw [ReviewDelivery.verified]
  split <;> rfl

@[simp] theorem verified_historical (d : ReviewDelivery) :
    d.verified.historical = d.payload.historical := by
  rw [ReviewDelivery.verified]
  split <;> rfl

theorem recordedReview_eq_some (h : s.recordedReview d = some review) :
    ∃ verdict, d.remote.verdict = some verdict ∧ review = d.review verdict := by
  rw [recordedReview] at h
  split at h
  · cases h
  · rename_i verdict hverdict
    split at h
    · cases h
      exact ⟨verdict, hverdict, rfl⟩
    · cases h

/-- A state with some of its reviews, in which a review is settled. -/
theorem settled_eq_some (h : s.settled d review = some s') :
    s'.items = s.items ∧ s'.reviews = s.reviews
      ∧ s'.deliveries = s.deliveries ++ [d.delivered review]
      ∧ ∀ g ∈ s'.gates, g.status = .accepted → g ∈ s.gates
        ∨ (g.forgeItemId = d.payload.forgeItemId ∧ g.maintainerReviewId = some review.id
          ∧ g.acceptedCommitOid = some review.commitOid ∧ review.verdict = .approved
          ∧ ∃ item ∈ s.items, item.id = g.forgeItemId ∧ item.headCommitOid = some review.commitOid
            ∧ d.payload.targetBranch = item.targetBranch) := by
  rw [settled] at h
  split at h
  · cases h
  · rename_i next hnext
    cases h
    obtain ⟨hsame, hgates⟩ := activateGate_eq_ok hnext
    rw [verified_targetBranch, verified_forgeItemId] at hgates
    refine ⟨hsame.items, hsame.reviews, ?_, hgates⟩
    rw [← hsame.deliveries]

theorem settleReview_settles (h : s.settleReview d = some s') :
    ∃ review, s.Settles d review s' := by
  rw [settleReview] at h
  split at h
  · rename_i review hprevious
    obtain ⟨hitems, hreviews, hdeliveries, hgates⟩ := settled_eq_some h
    exact ⟨review, hitems, hdeliveries, .inl ⟨hprevious, hreviews⟩, hgates⟩
  · rename_i hprevious
    obtain ⟨review, hreview, h⟩ := Option.bind_eq_some_iff.mp h
    obtain ⟨_, hinsert, h⟩ := Option.bind_eq_some_iff.mp h
    obtain ⟨hnew, rfl⟩ := insertNew_eq_some.mp hinsert
    obtain ⟨hitems, hreviews, hdeliveries, hgates⟩ := settled_eq_some h
    refine ⟨review, hitems, hdeliveries,
      .inr ⟨hprevious, recordedReview_eq_some hreview, hnew, ?_⟩, hgates⟩
    rw [hreviews]
    rfl

/-! ## Freshness -/

/-- A gate accepted for the head of its item, by an approval prepared for its target. -/
structure IsFresh (s : Forge) (g : Gate) (item : Item) (review : Review) : Prop where
  ofItem : item ∈ s.items ∧ item.id = g.forgeItemId
  head : g.acceptedCommitOid = item.headCommitOid
  rests : review ∈ s.reviews ∧ g.maintainerReviewId = some review.id
  approves : review.forgeItemId = item.id ∧ review.verdict = .approved
    ∧ item.headCommitOid = some review.commitOid
  target : ∃ d ∈ s.deliveries, d.reviewId = review.id ∧ d.payload.targetBranch = item.targetBranch

/-- Every accepted gate is fresh. -/
def Fresh (s : Forge) : Prop :=
  ∀ g ∈ s.gates, g.status = .accepted → ∃ item review, s.IsFresh g item review

theorem Steady.fresh (h : Steady s s') (hs : s.Fresh) : s'.Fresh := by
  intro g hg hacc
  obtain ⟨item, review, ⟨hitem, hgate⟩, hhead, hreview, happroves, htarget⟩ :=
    hs g (h.gates g hg hacc) hacc
  obtain ⟨new, hnew, hid, ⟨hhead', htarget'⟩ | hclosed⟩ := h.items item hitem
  · refine ⟨new, review, ⟨hnew, hid.trans hgate⟩, hhead.trans hhead'.symm, ?_, ?_, ?_⟩
    · rw [h.reviews]
      exact hreview
    · rw [hid, hhead']
      exact happroves
    · rw [h.deliveries, htarget']
      exact htarget
  · exact absurd hacc (hclosed g hg hgate.symm)

theorem Settles.mem_reviews (h : s.Settles d review s') :
    review ∈ s'.reviews ∧ review.forgeItemId = d.payload.forgeItemId := by
  rcases h.reviews with ⟨hprevious, heq⟩ | ⟨-, ⟨_, -, rfl⟩, -, hrows⟩
  · have hfound := find?_some hprevious
    rw [decide_eq_true_eq] at hfound
    exact ⟨heq ▸ mem_of_find?_eq_some hprevious, hfound.1⟩
  · refine ⟨?_, rfl⟩
    rw [mem_def, hrows]
    exact mem_append_right _ (mem_singleton_self _)

theorem Settles.mem_of_mem {row : Review} (h : s.Settles d review s') (hrow : row ∈ s.reviews) :
    row ∈ s'.reviews := by
  rcases h.reviews with ⟨-, heq⟩ | ⟨-, -, -, hrows⟩
  · exact heq ▸ hrow
  · rw [mem_def, hrows]
    exact mem_append_left _ hrow

theorem Settles.fresh (h : s.Settles d review s') (hs : s.Fresh) : s'.Fresh := by
  intro g hg hacc
  rcases h.gates g hg hacc with
    hold | ⟨hgate, hreview, hcommit, happroved, item, hitem, hid, hhead, htarget⟩
  · obtain ⟨item, row, hitem, hhead, hrow, happroves, dl, hdl, hdelivered⟩ := hs g hold hacc
    refine ⟨item, row, h.items ▸ hitem, hhead, ⟨h.mem_of_mem hrow.1, hrow.2⟩, happroves, dl,
      ?_, hdelivered⟩
    rw [h.deliveries]
    exact mem_append_left _ hdl
  · obtain ⟨hmem, hreviewItem⟩ := h.mem_reviews
    refine ⟨item, review, ⟨h.items ▸ hitem, hid⟩, hcommit.trans hhead.symm, ⟨hmem, hreview⟩,
      ⟨hreviewItem.trans (hgate.symm.trans hid.symm), happroved, hhead⟩,
      d.delivered review, ?_, rfl, ?_⟩
    · rw [h.deliveries]
      exact mem_append_right _ (mem_singleton_self _)
    · exact (verified_targetBranch d).trans htarget

/-- A step is steady, or settles a review. -/
theorem next_cases (hg : s.createsFresh l) (h : s.next l = some s') :
    s.Steady s' ∨ ∃ d review, l = .forgeReview d ∧ s.Settles d review s' := by
  by_cases hl : ∃ d, l = .forgeReview d
  · obtain ⟨d, rfl⟩ := hl
    obtain ⟨review, hsettles⟩ := settleReview_settles h
    exact .inr ⟨d, review, rfl, hsettles⟩
  · exact .inl (next_steady (fun d hd => hl ⟨d, hd⟩) hg h)

/-- A step that changes the head or target of an item leaves its gate not accepted. -/
theorem closed_of_next (hg : s.createsFresh l) (h : s.next l = some s') {old new : Item}
    (hold : old ∈ s.items) (hnew : new ∈ s'.items) (hid : new.id = old.id)
    (hchanged : new.headCommitOid ≠ old.headCommitOid ∨ new.targetBranch ≠ old.targetBranch)
    (hgate : g ∈ s'.gates) (hitem : g.forgeItemId = new.id) : g.status ≠ .accepted := by
  rcases next_cases hg h with hsteady | ⟨d, _, -, hsettles⟩
  · obtain ⟨new', hnew', hid', hcase⟩ := hsteady.items old hold
    obtain rfl : new' = new := s'.items.eq_of_key hnew' hnew (hid'.trans hid.symm)
    rcases hcase with ⟨hhead, htarget⟩ | hclosed
    · exact absurd hchanged (by simp [hhead, htarget])
    · exact hclosed g hgate (hitem.trans hid)
  · obtain rfl : new = old := s.items.eq_of_key (hsettles.items ▸ hnew) hold hid
    exact absurd hchanged (by simp)

end Forge

open Forge in
/-- In a run in which no creation moves an item whose gate is accepted, every accepted gate is
accepted for the current head, by an approval of it prepared for the current target; and a step
that changes head or target leaves the gate not accepted. -/
theorem gate_fresh {s : Forge} (h : forge.ReachableBy (createsFresh · · = true) s) :
    (∀ g ∈ s.gates, g.status = .accepted → ∃ item review, s.IsFresh g item review)
    ∧ ∀ l s', s.createsFresh l = true → forge.step s l s' →
      ∀ old ∈ s.items, ∀ new ∈ s'.items, new.id = old.id →
        (new.headCommitOid ≠ old.headCommitOid ∨ new.targetBranch ≠ old.targetBranch) →
          ∀ g ∈ s'.gates, g.forgeItemId = new.id → g.status ≠ .accepted := by
  constructor
  · refine h.invariant (I := Fresh) ?_ fun s l s' hs hg hstep => ?_
    · rintro _ rfl g hg
      exact absurd hg Table.notMem_empty
    · rcases next_cases hg hstep with hsteady | ⟨d, review, -, hsettles⟩
      · exact hsteady.fresh hs
      · exact hsettles.fresh hs
  · intro l s' hg hstep old hold new hnew hid hchanged g hgate hitem
    exact closed_of_next hg hstep hold hnew hid hchanged hgate hitem

/-! ## A run with an approval -/

namespace Installation

/-- A repository whose policy makes specialists advisory. -/
def reviewRecords : Forge.Records where
  projects := [⟨1, .graph⟩]
  repositories := [⟨1, 1, 1, .library⟩]
  policies := [⟨1, 1, 1, true, [.postprocessing], .advisory, none, [1], []⟩]
  revisions := [⟨1, some 1, 1, 1⟩]

/-- The pull request of the repository with a head. -/
def pullRequest (head : Id) : Forge.Values := ⟨7, .pullRequest, .opened, some head, some "main"⟩

/-- A decision of the maintainer on a head of the pull request. -/
def maintainerDecision (id head : Id) (verdict : Forge.Verdict) : Forge.ReviewDelivery where
  operationId := id
  createdAt := id
  payload :=
    { forgeItemId := 1, commitOid := head, summary := "Decision", targetBranch := some "main",
      policyRevisionId := some 1 }
  remote := ⟨id, some 5, some head, some verdict, none⟩
  now := id
  reviewId := id
  gateId := 1

/-- The pull request is synchronised, classified and approved at its head. -/
def approvedSteps : List Forge.Step :=
  [ .records reviewRecords
  , .syncForge 1 [(pullRequest 10, 1)]
  , .classify 1 .postprocessing
  , .forgeReview (maintainerDecision 100 10 .approved) ]

def approved : Forge := System.replay Forge.next Forge.createsFresh approvedSteps .initial

end Installation

theorem gate_fresh_approved :
    ∃ g ∈ Installation.approved.gates, g.status = .accepted
      ∧ ∃ item review, Installation.approved.IsFresh g item review := by
  have hreach : forge.ReachableBy (Forge.createsFresh · · = true) Installation.approved :=
    System.replay_reachable Forge.next _ _
  have hgate : (Installation.approved.gates.find? 1).any (·.status == .accepted) = true := by
    decide +kernel
  generalize Installation.approved = s at hreach hgate ⊢
  obtain ⟨g, hfind, hacc⟩ := (Option.any_eq_true _ _).mp hgate
  have hmem := Table.mem_of_find? hfind
  exact ⟨g, hmem, beq_iff_eq.mp hacc, (gate_fresh hreach).1 g hmem (beq_iff_eq.mp hacc)⟩

/-- The creation of the pull request is settled after the approval, with a later head. -/
def Installation.createdLate : Forge :=
  System.replay Forge.next (fun _ _ => true)
    (Installation.approvedSteps ++
      [.forgeCreate 1 1 .postprocessing (Installation.pullRequest 11) 2])
    .initial

theorem gate_accepts_old_head :
    ∃ s, forge.Reachable s ∧ ∃ g ∈ s.gates, g.status = .accepted
      ∧ ∃ item ∈ s.items, item.id = g.forgeItemId ∧ item.headCommitOid ≠ g.acceptedCommitOid := by
  refine ⟨Installation.createdLate, ?_, ?_⟩
  · exact (System.replay_reachable Forge.next (fun _ _ => true) _).reachable
  · have h : (Installation.createdLate.gates.rows.any fun g => g.status == .accepted
        && Installation.createdLate.items.rows.any fun item => item.id == g.forgeItemId
          && item.headCommitOid != g.acceptedCommitOid) = true := by decide +kernel
    simpa [Table.mem_def] using h

end Horizon
