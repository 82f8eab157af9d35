import Horizon.Invariants.Merges

/-!
# The latest decision of the maintainer

A review without a descriptor is a decision of the maintainer.  An approval opens the gate; a
later change request on the same head leaves it open, since only reviews with a descriptor are
looked at when an acceptance may have to be taken back, and the panel counts only those.  In a
run in which the maintainer does not object to a head whose gate is accepted, a merge is queued
only if no objection was recorded after the approval.
-/

namespace Horizon.Forge

variable {itemId commitOid : Id}

/-- The reviews that were recorded after the one with an identifier. -/
def recordedAfter (id : Id) : List Review → List Review
  | [] => []
  | row :: rows => if row.id = id then rows else recordedAfter id rows

theorem mem_of_mem_recordedAfter {id : Id} (h : row ∈ recordedAfter id rows) : row ∈ rows := by
  induction rows with
  | nil => exact h
  | cons r rows ih =>
    rw [recordedAfter] at h
    split at h
    · exact List.mem_cons_of_mem _ h
    · exact List.mem_cons_of_mem _ (ih h)

/-- A review is not recorded after itself. -/
theorem ne_of_mem_recordedAfter {id : Id}
    (hnodup : (rows.map Review.id).Nodup) (h : row ∈ recordedAfter id rows) : row.id ≠ id := by
  induction rows with
  | nil => exact absurd h List.not_mem_nil
  | cons r rows ih =>
    obtain ⟨hr, hnodup⟩ := List.nodup_cons.mp hnodup
    rw [recordedAfter] at h
    split at h
    · rename_i hid
      intro heq
      exact hr (List.mem_map.mpr ⟨row, h, heq.trans hid.symm⟩)
    · exact ih hnodup h

theorem recordedAfter_append (h : row ∈ rows) (last : Review) :
    recordedAfter row.id (rows ++ [last]) = recordedAfter row.id rows ++ [last] := by
  induction rows with
  | nil => exact absurd h List.not_mem_nil
  | cons r rows ih =>
    rw [List.cons_append, recordedAfter, recordedAfter]
    split
    · rfl
    · rename_i hne
      rcases List.mem_cons.mp h with rfl | h
      · exact absurd rfl hne
      · exact ih h

theorem recordedAfter_last {last : Review} (h : ∀ row ∈ rows, row.id ≠ last.id) :
    recordedAfter last.id (rows ++ [last]) = [] := by
  induction rows with
  | nil => simp [recordedAfter]
  | cons r rows ih =>
    rw [List.cons_append, recordedAfter, if_neg (h r List.mem_cons_self)]
    exact ih fun row hrow => h row (List.mem_cons_of_mem _ hrow)

variable {s s' : Forge} {rows : List Review} {row review : Review} {d : ReviewDelivery}

/-- A decision of the maintainer that requests changes, on a commit of an item. -/
def isObjection (s : Forge) (itemId commitOid : Id) (row : Review) : Bool :=
  row.forgeItemId == itemId && row.commitOid == commitOid && row.reviewerDescriptorId.isNone
    && row.verdict == .changesRequested
    && s.deliveries.any fun d => d.reviewId == row.id && !d.payload.historical

/-- Whether the gate of an item is accepted for a commit. -/
def isAcceptedFor (s : Forge) (itemId commitOid : Id) : Bool :=
  (s.gates.find? itemId).any fun gate =>
    gate.status == .accepted && gate.acceptedCommitOid == some commitOid

/-- The review that a delivery is about. -/
def reviewOf (s : Forge) (d : ReviewDelivery) : Option Review :=
  (s.previous d).or (d.remote.verdict.map d.review)

/-- No objection of the maintainer is delivered for a head whose gate is accepted, and an
approval is not delivered again after an objection to what it approves. -/
def heedsDecisions (s : Forge) : Step → Bool
  | .forgeReview d => (s.reviewOf d).all fun review =>
    !(review.reviewerDescriptorId.isNone && review.verdict == .changesRequested
      && !d.payload.historical
        && s.isAcceptedFor review.forgeItemId review.commitOid)
      && !((recordedAfter review.id s.reviews.rows).any
        (s.isObjection review.forgeItemId review.commitOid))
  | _ => true

/-- A gate rests on an approval that no objection followed. -/
def IsUnopposed (s : Forge) (g : Gate) : Prop :=
  ∃ approval ∈ s.reviews, g.maintainerReviewId = some approval.id ∧ approval.verdict = .approved
    ∧ g.acceptedCommitOid = some approval.commitOid ∧ approval.forgeItemId = g.forgeItemId
    ∧ ∀ row ∈ recordedAfter approval.id s.reviews.rows,
      s.isObjection g.forgeItemId approval.commitOid row = false

/-- Deliveries are about recorded reviews, and accepted gates are unopposed. -/
structure Heeds (s : Forge) : Prop where
  recorded : ∀ d ∈ s.deliveries, ∃ row ∈ s.reviews, row.id = d.reviewId
  unopposed : ∀ g ∈ s.gates, g.status = .accepted → s.IsUnopposed g

theorem Heeds.recorded_of_isObjection (hs : s.Heeds) (h : s.isObjection itemId commitOid row) :
    ∃ row' ∈ s.reviews, row'.id = row.id := by
  simp only [isObjection, Bool.and_eq_true, List.any_eq_true, beq_iff_eq] at h
  obtain ⟨-, d, hd, hid, -⟩ := h
  obtain ⟨row', hrow', hid'⟩ := hs.recorded d hd
  exact ⟨row', hrow', hid'.trans hid⟩

theorem isObjection_congr (h : s'.deliveries = s.deliveries) (itemId commitOid : Id)
    (row : Review) : s'.isObjection itemId commitOid row = s.isObjection itemId commitOid row := by
  rw [isObjection, isObjection, h]

section

variable (h : s.Settles d review s')

include h

/-- A delivery makes at most its own review an objection. -/
theorem Settles.isObjection (hrow : s'.isObjection itemId commitOid row) :
    s.isObjection itemId commitOid row ∨ (row.id = review.id ∧ d.payload.historical = false
      ∧ row.forgeItemId = itemId ∧ row.commitOid = commitOid ∧ row.reviewerDescriptorId.isNone
      ∧ row.verdict = .changesRequested) := by
  simp only [Forge.isObjection, h.deliveries, List.any_append, List.any_cons, List.any_nil,
    Bool.or_false, Bool.and_eq_true, Bool.or_eq_true, Bool.not_eq_true', beq_iff_eq] at hrow ⊢
  obtain ⟨⟨⟨⟨hitem, hcommit⟩, hby⟩, hverdict⟩, hdelivered⟩ := hrow
  refine hdelivered.imp (fun hold => ⟨⟨⟨⟨hitem, hcommit⟩, hby⟩, hverdict⟩, hold⟩) ?_
  rintro ⟨hid, hhistorical⟩
  exact ⟨hid.symm, (verified_historical d).symm.trans hhistorical, hitem, hcommit, hby, hverdict⟩

theorem Settles.reviewOf : s.reviewOf d = some review := by
  rw [Forge.reviewOf]
  rcases h.reviews with ⟨hprevious, -⟩ | ⟨hprevious, ⟨_, hverdict, rfl⟩, -⟩
  · rw [hprevious]
    rfl
  · rw [hprevious, hverdict]
    rfl

/-- What the guard says of a settlement. -/
theorem Settles.heeds (hg : s.heedsDecisions (.forgeReview d)) :
    (review.reviewerDescriptorId.isNone → review.verdict = .changesRequested →
      d.payload.historical = false → s.isAcceptedFor review.forgeItemId review.commitOid = false)
    ∧ ∀ row ∈ recordedAfter review.id s.reviews.rows,
      s.isObjection review.forgeItemId review.commitOid row = false := by
  simp only [heedsDecisions, h.reviewOf, Option.all_some, Bool.and_eq_true, Bool.not_eq_true',
    List.any_eq_false, Bool.not_eq_true] at hg
  refine ⟨fun hby hverdict hhistorical => ?_, hg.2⟩
  simpa [hby, hverdict, hhistorical] using hg.1

/-- A delivered objection does not concern an accepted gate. -/
theorem Settles.not_objection
    (hg : s.heedsDecisions (.forgeReview d)) {g : Gate} (hgate : g ∈ s.gates)
    (hacc : g.status = .accepted) (hcommit : g.acceptedCommitOid = some commitOid)
    (hrow : row ∈ s'.reviews) (hobjection : s'.isObjection g.forgeItemId commitOid row) :
    s.isObjection g.forgeItemId commitOid row := by
  rcases h.isObjection hobjection with hold | ⟨hid, hhistorical, hitem, hrowCommit, hby, hverdict⟩
  · exact hold
  · obtain rfl : row = review := s'.reviews.eq_of_key hrow h.mem_reviews.1 hid
    have hclosed := (h.heeds hg).1 hby hverdict hhistorical
    have hfind : s.gates.find? row.forgeItemId = some g :=
      Table.find?_eq_some.mpr ⟨hgate, hitem.symm⟩
    simp [isAcceptedFor, hfind, hacc, hcommit, hrowCommit] at hclosed

theorem Settles.unopposed (hg : s.heedsDecisions (.forgeReview d)) (hs : s.Heeds) {g : Gate}
    (hgate : g ∈ s'.gates) (hacc : g.status = .accepted) : s'.IsUnopposed g := by
  rcases h.gates g hgate hacc with hold | ⟨hof, hrests, hcommit, happroved, -⟩
  · -- an acceptance from before: the review delivered now is no objection to it
    obtain ⟨approval, hmem, hrests, hverdict, hcommit, hitem, hafter⟩ := hs.unopposed g hold hacc
    refine ⟨approval, h.mem_of_mem hmem, hrests, hverdict, hcommit, hitem, fun row hrow => ?_⟩
    rw [Bool.eq_false_iff]
    intro hobjection
    have hbefore := h.not_objection hg hold hacc hcommit (mem_of_mem_recordedAfter hrow) hobjection
    rcases h.reviews with ⟨-, heq⟩ | ⟨-, -, hfresh, hrows⟩
    · rw [heq] at hrow
      exact absurd hbefore (by simp [hafter row hrow])
    · rw [hrows, recordedAfter_append hmem] at hrow
      rcases List.mem_append.mp hrow with hrow | hrow
      · exact absurd hbefore (by simp [hafter row hrow])
      · obtain rfl := List.mem_singleton.mp hrow
        obtain ⟨row', hrow', hid⟩ := hs.recorded_of_isObjection hbefore
        exact hfresh row' hrow' hid
  · -- an acceptance that rests on the review delivered now
    obtain ⟨hmem, hitem⟩ := h.mem_reviews
    refine ⟨review, hmem, hrests, happroved, hcommit, hitem.trans hof.symm, fun row hrow => ?_⟩
    rcases h.reviews with ⟨-, heq⟩ | ⟨-, -, hfresh, hrows⟩
    · rw [heq] at hrow
      rw [Bool.eq_false_iff]
      intro hobjection
      rcases h.isObjection hobjection with hbefore | ⟨hid, -⟩
      · rw [hof, ← hitem, (h.heeds hg).2 row hrow] at hbefore
        cases hbefore
      · exact ne_of_mem_recordedAfter s.reviews.nodup hrow hid
    · rw [hrows, recordedAfter_last hfresh] at hrow
      exact absurd hrow List.not_mem_nil

theorem Settles.heeded (hg : s.heedsDecisions (.forgeReview d)) (hs : s.Heeds) : s'.Heeds  where
  recorded := by
    intro dl hdl
    rw [h.deliveries] at hdl
    rcases List.mem_append.mp hdl with hdl | hdl
    · obtain ⟨row, hrow, hid⟩ := hs.recorded dl hdl
      exact ⟨row, h.mem_of_mem hrow, hid⟩
    · rw [List.mem_singleton.mp hdl]
      exact ⟨review, h.mem_reviews.1, rfl⟩
  unopposed _ hgate hacc := h.unopposed hg hs hgate hacc

end

theorem Undecided.heeded (h : s.Undecided s') (hs : s.Heeds) : s'.Heeds where
  recorded := by
    rw [h.deliveries, h.reviews]
    exact hs.recorded
  unopposed := by
    intro g hgate hacc
    obtain ⟨approval, hmem, hrests, hverdict, hcommit, hitem, hafter⟩ :=
      hs.unopposed g (h.gates g hgate hacc) hacc
    refine ⟨approval, h.reviews ▸ hmem, hrests, hverdict, hcommit, hitem, fun row hrow => ?_⟩
    rw [h.reviews] at hrow
    rw [isObjection_congr h.deliveries]
    exact hafter row hrow

theorem heeds_initial : initial.Heeds where
  recorded _ hd := absurd hd List.not_mem_nil
  unopposed _ hg := absurd hg Table.notMem_empty

theorem heeds_of_reachable (h : forge.ReachableBy (heedsDecisions · ·) s) : s.Heeds := by
  refine h.invariant ?_ fun s l s' hs hg hstep => ?_
  · rintro _ rfl
    exact heeds_initial
  · by_cases hl : ∃ d, l = .forgeReview d
    · obtain ⟨d, rfl⟩ := hl
      obtain ⟨_, hsettles⟩ := settleReview_settles hstep
      exact hsettles.heeded hg hs
    · exact (next_undecided (fun d hd => hl ⟨d, hd⟩) hstep).heeded hs

end Forge

open Forge in
/-- In a run in which the maintainer does not object to a head whose gate is accepted, a merge
is queued on an approval of the current head that no objection of the maintainer followed. -/
theorem latest_decision_governs {s : Forge} (h : forge.ReachableBy (heedsDecisions · · = true) s)
    {authority : Authority} {request : MergeRequest} {payload : MergePayload}
    (hmerge : s.queueMerge authority request = .ok payload) :
    ∃ item gate approval, s.items.find? request.forgeItemId = some item ∧ gate ∈ s.gates
      ∧ gate.id = request.reviewGateId ∧ gate.status = .accepted
      ∧ approval ∈ s.reviews ∧ gate.maintainerReviewId = some approval.id
      ∧ approval.verdict = .approved
      ∧ item.headCommitOid = some approval.commitOid
      ∧ ∀ row ∈ recordedAfter approval.id s.reviews.rows,
        s.isObjection item.id approval.commitOid row = false := by
  obtain ⟨item, gate, _, _, hitem, hgate, hid, hof, hstatus, hhead, haccepted, -⟩ :=
    queueMerge_eq_ok hmerge
  obtain ⟨approval, hmem, hrests, hverdict, hcommit, -, hafter⟩ :=
    (heeds_of_reachable h).unopposed gate hgate hstatus
  refine ⟨item, gate, approval, hitem, hgate, hid, hstatus, hmem, hrests, hverdict, ?_, ?_⟩
  · rw [hhead, ← haccepted, hcommit]
  · rw [← hof]
    exact hafter

/-- The maintainer objects to a head, and approves it later. -/
def Installation.repaired : Forge :=
  System.replay Forge.next Forge.heedsDecisions
    [ .records reviewRecords
    , .syncForge 1 [(pullRequest 10, 1)]
    , .classify 1 .postprocessing
    , .forgeReview (maintainerDecision 99 10 .changesRequested)
    , .forgeReview (maintainerDecision 100 10 .approved) ] .initial

open Forge in
theorem latest_decision_governs_repaired :
    Installation.repaired.reviews.rows.map Review.verdict = [.changesRequested, .approved]
    ∧ ∃ item gate approval, Installation.repaired.items.find? 1 = some item
      ∧ gate ∈ Installation.repaired.gates ∧ gate.id = 1 ∧ gate.status = .accepted
      ∧ approval ∈ Installation.repaired.reviews ∧ gate.maintainerReviewId = some approval.id
      ∧ approval.verdict = .approved ∧ item.headCommitOid = some approval.commitOid
      ∧ ∀ row ∈ recordedAfter approval.id Installation.repaired.reviews.rows,
        Installation.repaired.isObjection item.id approval.commitOid row = false := by
  have hmerge : (Installation.repaired.queueMerge Installation.maintainer ⟨1, 1, 10, none⟩).isOk
      = true := by
    decide +kernel
  have hreach : forge.ReachableBy (heedsDecisions · · = true) Installation.repaired :=
    System.replay_reachable Forge.next _ _
  have hverdicts : Installation.repaired.reviews.rows.map Review.verdict
      = [.changesRequested, .approved] := by
    decide +kernel
  generalize Installation.repaired = s at *
  obtain ⟨_, hmerge⟩ := exists_ok_of_isOk hmerge
  exact ⟨hverdicts, latest_decision_governs hreach hmerge⟩

/-- The maintainer objects to the head after the approval. -/
def Installation.opposed : Forge :=
  System.replay Forge.next (fun _ _ => true)
    (Installation.approvedSteps
      ++ [.forgeReview (Installation.maintainerDecision 101 10 .changesRequested)]) .initial

open Forge in
theorem merge_against_latest_decision :
    ∃ s authority request payload, forge.Reachable s ∧ s.queueMerge authority request = .ok payload
      ∧ ∃ item gate approval row, s.items.find? request.forgeItemId = some item ∧ gate ∈ s.gates
        ∧ gate.id = request.reviewGateId ∧ gate.maintainerReviewId = some approval.id
        ∧ approval ∈ s.reviews ∧ item.headCommitOid = some row.commitOid
        ∧ row ∈ recordedAfter approval.id s.reviews.rows
        ∧ s.isObjection item.id row.commitOid row = true := by
  have hmerge : (Installation.opposed.queueMerge Installation.maintainer ⟨1, 1, 10, none⟩).isOk
      = true := by
    decide +kernel
  have hreach : forge.Reachable Installation.opposed :=
    (System.replay_reachable Forge.next (fun _ _ => true) _).reachable
  have hopposed : ((Installation.opposed.items.find? 1).any fun item =>
      Installation.opposed.gates.rows.any fun gate => gate.id == 1
        && Installation.opposed.reviews.rows.any fun approval =>
        gate.maintainerReviewId == some approval.id
          && (recordedAfter approval.id Installation.opposed.reviews.rows).any fun row =>
            item.headCommitOid == some row.commitOid
              && Installation.opposed.isObjection item.id row.commitOid row) = true := by
    decide +kernel
  generalize Installation.opposed = s at *
  obtain ⟨payload, hmerge⟩ := exists_ok_of_isOk hmerge
  simp only [Option.any_eq_true, List.any_eq_true, Bool.and_eq_true, beq_iff_eq] at hopposed
  obtain ⟨item, hitem, gate, hgate, hid, approval, happroval, hrests, row, hrow, hhead,
      hobjection⟩ := hopposed
  exact ⟨s, _, _, payload, hreach, hmerge, item, gate, approval, row, hitem, hgate, hid,
    hrests, happroval, hhead, hrow, hobjection⟩

end Horizon
