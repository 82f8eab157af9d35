import Horizon.Invariants.Gates
import Mathlib.Data.Prod.Lex

/-!
# What a queued merge rests on

A merge of a post-processing item is queued only if its gate is accepted for the current head
and the panel of its policy is complete.  The panel drops rows of the review history in several
ways; here each of its parts is read as a statement about the recorded reviews.
-/

namespace Horizon.Forge

open Transaction Option List

variable {row row' : Review} {rows : List Review} {d : Descriptor} {carry : Carry}
  {base : Option Id}
  {ids carriedReviewIds : List Id} {panel : Panel} {s : Forge} {item : Item} {policy : Policy}

/-! ## Approvals -/

/-- A review by a completed invocation of a descriptor, at the current revision of its rubric. -/
def IsPinned (r : Records) (row : Review) (d : Descriptor) : Prop :=
  ∃ revision request, r.revision row.reviewerDescriptorRevisionId = .ok revision
    ∧ revision.objectRevision = d.revision ∧ r.request row.providerRequestId = .ok request
    ∧ request.status = .completed ∧ request.reason = .review
    ∧ request.reviewerDescriptorId = some d.id
    ∧ request.reviewerDescriptorRevisionId = some revision.id
    ∧ request.guidanceManifestArtifactId ≠ none

/-- A revision of the policy as it is now. -/
def IsCurrentPolicy (r : Records) (policy : Policy) (policyRevisionId : Option Id) : Prop :=
  ∃ revision, r.revision policyRevisionId = .ok revision
    ∧ revision.contentId = policy.id ∧ revision.objectRevision = policy.revision

/-- A completed, revision-pinned approval by a descriptor, for the current policy revision and
target branch. -/
structure IsApproval (r : Records) (item : Item) (policy : Policy) (row : Review)
    (payload : Payload) (d : Descriptor) : Prop where
  verdict : row.verdict = .approved
  current : row.isHistorical = false ∧ payload.historical = false
  descriptor : r.descriptor row.reviewerDescriptorId = .ok d ∧ d.enabled
  completed : IsPinned r row d
  policy : IsCurrentPolicy r policy payload.policyRevisionId
  target : payload.targetBranch = item.targetBranch
  base : payload.reviewPlan → payload.reviewBaseVerified

theorem fetchSome_eq_ok {α : Type} {kind : String} {id : α → Id} {rows : List α}
    {identifier : Option Id}
    {r : α} (h : fetchSome kind id rows identifier = .ok r) :
    r ∈ rows ∧ identifier = some (id r) := by
  cases identifier with
  | none => cases h
  | some identifier =>
    obtain ⟨hmem, hid⟩ := fetch_eq_ok h
    exact ⟨hmem, by rw [hid]⟩

theorem currentApproval_iff {r : Records} {p : Payload} {carried : Bool} :
    currentApproval r row (some p) item policy carried = .ok true ↔
      (∃ d, IsApproval r item policy row p d)
        ∧ (carried = false → item.headCommitOid = some row.commitOid) := by
  simp only [currentApproval]
  constructor
  · intro h
    split at h
    · cases h
    · rename_i hrow
      obtain ⟨d, hd, h⟩ := check_bind_eq_ok.mp h
      obtain ⟨revision, hrevision, h⟩ := check_bind_eq_ok.mp h
      obtain ⟨request, hrequest, h⟩ := check_bind_eq_ok.mp h
      split at h
      · cases h
      · rename_i hpins
        obtain ⟨policyRevision, hpolicy, h⟩ := check_bind_eq_ok.mp h
        have h := check_pure_eq_ok.mp h
        simp only [Bool.and_eq_true, Bool.or_eq_true, Bool.not_eq_true', beq_iff_eq] at h
        simp only [not_or, not_and, not_not, Bool.not_eq_true, Bool.not_eq_false] at hrow hpins
        obtain ⟨hverdict, hhead, -, -, hmark⟩ := hrow
        obtain ⟨henabled, hrubric, hstatus, hreason, hdescriptor, hrevised, hmanifest, -⟩ := hpins
        obtain ⟨⟨⟨⟨hhistorical, htarget⟩, hcontent⟩, hobject⟩, hbase⟩ := h
        refine ⟨⟨d, hverdict, ⟨hmark, hhistorical⟩, ⟨hd, henabled⟩, ?_, ?_, htarget, ?_⟩, ?_⟩
        · exact ⟨revision, request, hrevision, hrubric, hrequest, hstatus, hreason,
            hdescriptor, hrevised, hmanifest⟩
        · exact ⟨policyRevision, hpolicy, hcontent, hobject⟩
        · intro hplan
          simpa [hplan] using hbase
        · exact fun hc => (hhead hc).symm
  · rintro ⟨⟨d, h⟩, hhead⟩
    obtain ⟨revision, request, hrevision, hrubric, hrequest, hstatus, hreason,
        hdescriptor, hrevised,
      hmanifest⟩ := h.completed
    obtain ⟨policyRevision, hpolicy, hcontent, hobject⟩ := h.policy
    have hrow :
        ¬ (row.verdict ≠ .approved ∨ (carried = false ∧ some row.commitOid ≠ item.headCommitOid)
        ∨ row.providerRequestId = none ∨ row.reviewerDescriptorRevisionId = none
        ∨ row.isHistorical) := by
      simp only [not_or, not_and, not_not, Bool.not_eq_true]
      refine ⟨h.verdict, fun hc => (hhead hc).symm, ?_, ?_, h.current.1⟩
      · simp [(fetchSome_eq_ok hrequest).2]
      · simp [(fetchSome_eq_ok hrevision).2]
    have hpins : ¬ (d.enabled = false ∨ revision.objectRevision ≠ d.revision
        ∨ request.status ≠ .completed ∨ request.reason ≠ .review
        ∨ request.reviewerDescriptorId ≠ some d.id
        ∨ request.reviewerDescriptorRevisionId ≠ some revision.id
        ∨ request.guidanceManifestArtifactId = none ∨ p.policyRevisionId = none) := by
      simp only [not_or, not_not, Bool.not_eq_false]
      refine ⟨h.descriptor.2, hrubric, hstatus, hreason, hdescriptor, hrevised, hmanifest, ?_⟩
      simp [(fetchSome_eq_ok hpolicy).2]
    rw [if_neg hrow, check_bind_eq_ok]
    refine ⟨d, h.descriptor.1, check_bind_eq_ok.mpr ⟨revision, hrevision, ?_⟩⟩
    refine check_bind_eq_ok.mpr ⟨request, hrequest, ?_⟩
    rw [if_neg hpins, check_bind_eq_ok]
    refine ⟨policyRevision, hpolicy, ?_⟩
    have hbase : (!p.reviewPlan || p.reviewBaseVerified) := by
      cases hplan : p.reviewPlan with
      | false => rfl
      | true => simp [h.base hplan]
    simp [h.current.2, h.target, hcontent, hobject, hbase]

/-! ## Latest reviews -/

/-- The reviews of an item that count: by a descriptor, and not historical. -/
def Counts (s : Forge) (item : Item) (d : Option Id) (row : Review) : Prop :=
  row ∈ s.reviews ∧ row.forgeItemId = item.id ∧ row.reviewerDescriptorId = d
    ∧ row.isHistorical = false

/-- The latest counting review of a descriptor on the current head. -/
def IsLatest (s : Forge) (item : Item) (d : Id) (row : Review) : Prop :=
  (s.Counts item (some d) row ∧ item.headCommitOid = some row.commitOid)
  ∧ ∀ row', s.Counts item (some d) row' → item.headCommitOid = some row'.commitOid →
    row.notBefore row'

/-- Histories are ordered by this key. -/
def Review.key (row : Review) : Nat ×ₗ Nat ×ₗ Nat :=
  toLex (row.observedAt, toLex (row.createdAt, row.id))

theorem notBefore_iff : row.notBefore row' ↔ row'.key ≤ row.key := by
  simp only [Review.notBefore, Review.key, decide_eq_true_eq, Prod.Lex.toLex_le_toLex]

theorem notBefore_antisymm (h : row.notBefore row') (h' : row'.notBefore row) :
    row.id = row'.id := by
  have hkey : row.key = row'.key := le_antisymm (notBefore_iff.mp h') (notBefore_iff.mp h)
  exact congrArg (fun k => (ofLex (ofLex k).2).2) hkey

theorem mem_historyOf : row ∈ s.historyOf item ↔ row ∈ s.reviews ∧ row.forgeItemId = item.id := by
  simp [historyOf, mem_insertionSort, Table.mem_def]

theorem pairwise_historyOf : (s.historyOf item).Pairwise fun row row' => row.notBefore row' := by
  have : Std.Total fun row row' : Review => row.notBefore row' :=
    ⟨fun row row' => by simpa only [notBefore_iff] using le_total row'.key row.key⟩
  have : IsTrans Review fun row row' => row.notBefore row' :=
    ⟨fun row row' _ h h' => by rw [notBefore_iff] at *; exact le_trans h' h⟩
  exact pairwise_insertionSort _ _

theorem mem_firstOfEach (hs : rows.Pairwise fun row row' => row.notBefore row')
    (h : row ∈ firstOfEach rows) :
    row ∈ rows ∧ ∀ row' ∈ rows, row'.reviewerDescriptorId = row.reviewerDescriptorId →
      row.notBefore row' := by
  induction rows with
  | nil => exact absurd h not_mem_nil
  | cons r rows ih =>
    obtain ⟨hr, hs⟩ := pairwise_cons.mp hs
    rcases mem_cons.mp h with rfl | h
    · refine ⟨mem_cons_self, fun row' hrow' _ => ?_⟩
      rcases mem_cons.mp hrow' with rfl | hrow'
      · exact notBefore_iff.mpr le_rfl
      · exact hr row' hrow'
    · obtain ⟨h, hne⟩ := mem_filter.mp h
      obtain ⟨hmem, hfirst⟩ := ih hs h
      refine ⟨mem_cons_of_mem _ hmem, fun row' hrow' hd => ?_⟩
      rcases mem_cons.mp hrow' with rfl | hrow'
      · exact absurd hd.symm (of_decide_eq_true hne)
      · exact hfirst row' hrow' hd

/-- Every descriptor with a review has a first one. -/
theorem exists_mem_firstOfEach (h : row ∈ rows) :
    ∃ first ∈ firstOfEach rows, first.reviewerDescriptorId = row.reviewerDescriptorId := by
  induction rows with
  | nil => exact absurd h not_mem_nil
  | cons r rows ih =>
    by_cases hd : r.reviewerDescriptorId = row.reviewerDescriptorId
    · exact ⟨r, mem_cons_self, hd⟩
    · rcases mem_cons.mp h with rfl | h
      · exact absurd rfl hd
      · obtain ⟨first, hfirst, heq⟩ := ih h
        refine ⟨first, mem_cons_of_mem _ (mem_filter.mpr ⟨hfirst, ?_⟩), heq⟩
        exact decide_eq_true fun h => hd (h.symm.trans heq)

/-- The rows of `_latest_current_reviews`. -/
theorem mem_latestCurrentReviews : row ∈ latestCurrentReviews item (s.historyOf item) ↔
      ∃ d, row.reviewerDescriptorId = some d ∧ s.IsLatest item d row := by
  let current := (s.historyOf item).filter fun row => some row.commitOid = item.headCommitOid
    ∧ row.reviewerDescriptorId.isSome ∧ row.isHistorical = false
  have hsorted : current.Pairwise fun row row' => row.notBefore row' :=
    pairwise_historyOf.filter _
  have hmem : ∀ row', row' ∈ current ↔ (row' ∈ s.reviews ∧ row'.forgeItemId = item.id)
      ∧ some row'.commitOid = item.headCommitOid ∧ row'.reviewerDescriptorId.isSome
      ∧ row'.isHistorical = false := by
    intro row'
    rw [mem_filter, mem_historyOf, decide_eq_true_eq]
  constructor
  · intro h
    obtain ⟨hrow, hfirst⟩ := mem_firstOfEach hsorted h
    obtain ⟨hrow, hhead, hsome, hmark⟩ := (hmem row).mp hrow
    obtain ⟨d, hd⟩ := isSome_iff_exists.mp hsome
    refine ⟨d, hd, ⟨⟨hrow.1, hrow.2, hd, hmark⟩, hhead.symm⟩, fun row' hcounts hhead' => ?_⟩
    obtain ⟨hrow', hitem', hd', hmark'⟩ := hcounts
    refine hfirst row' ((hmem row').mpr ⟨⟨hrow', hitem'⟩, hhead'.symm, ?_, hmark'⟩)
      (hd'.trans hd.symm)
    rw [hd']
    rfl
  · rintro ⟨d, hd, ⟨⟨hrow, hitem, -, hmark⟩, hhead⟩, hlatest⟩
    have hcurrent : row ∈ current :=
      (hmem row).mpr ⟨⟨hrow, hitem⟩, hhead.symm, by rw [hd]; rfl, hmark⟩
    obtain ⟨first, hfirst, hdescriptor⟩ := exists_mem_firstOfEach hcurrent
    obtain ⟨hfirstMem, hbefore⟩ := mem_firstOfEach hsorted hfirst
    obtain ⟨⟨hfirstRow, hfirstItem⟩, hfirstHead, -, hfirstMark⟩ := (hmem first).mp hfirstMem
    -- the first review is not before `row`, nor `row` before it
    have hle : first.notBefore row := hbefore row hcurrent hdescriptor.symm
    have hge : row.notBefore first :=
      hlatest first ⟨hfirstRow, hfirstItem, hdescriptor.trans hd, hfirstMark⟩ hfirstHead.symm
    obtain rfl : row = first := s.reviews.eq_of_key hrow hfirstRow (notBefore_antisymm hge hle)
    exact hfirst

/-! ## Approvals carried forward -/

/-- An approval of an earlier head that may be reused: the latest counting review of a
descriptor on the pull request. -/
structure IsCarrySource (s : Forge) (item : Item) (policy : Policy) (d : Descriptor)
    (source : Review) : Prop where
  counts : s.Counts item (some d.id) source
  verdict : source.verdict = .approved
  descriptor : s.records.descriptor (some d.id) = .ok d ∧ d.enabled ∧ d.id ∈ policy.reviewerIds
  completed : IsPinned s.records source d
  latest : ∀ row, s.Counts item (some d.id) row → source.notBefore row

theorem carrySource_eq_ok {sourceId : Id} {source : Review}
    (h : s.carrySource item policy sourceId = .ok (source, d)) :
    source.id = sourceId ∧ s.IsCarrySource item policy d source := by
  obtain ⟨_, hsource, h⟩ := check_bind_eq_ok.mp h
  obtain ⟨_, hvalid, h⟩ := check_bind_eq_ok.mp h
  obtain ⟨d', hd, h⟩ := check_bind_eq_ok.mp h
  obtain ⟨revision, hrevision, h⟩ := check_bind_eq_ok.mp h
  obtain ⟨_, hrubric, h⟩ := check_bind_eq_ok.mp h
  obtain ⟨request, hrequest, h⟩ := check_bind_eq_ok.mp h
  obtain ⟨_, hinvocation, h⟩ := check_bind_eq_ok.mp h
  obtain ⟨_, hlatest, h⟩ := check_bind_eq_ok.mp h
  cases h
  obtain ⟨hmem, hid⟩ := fetch_eq_ok hsource
  obtain ⟨-, hdescriptor⟩ := fetchSome_eq_ok hd
  simp only [refuseIf_eq_ok, not_or, not_not, Bool.not_eq_true, Bool.not_eq_false]
    at hvalid hrubric hinvocation hlatest
  obtain ⟨hitem, hverdict, -, -, -, hmark⟩ := hvalid
  obtain ⟨henabled, hobject, -, -, hlink⟩ := hrubric
  obtain ⟨hstatus, hreason, hby, hrevised, hmanifest⟩ := hinvocation
  refine ⟨hid, ⟨hmem, hitem, hdescriptor, hmark⟩, hverdict,
    ⟨hdescriptor ▸ hd, henabled, hlink⟩, ?_, ?_⟩
  · exact ⟨revision, request, hrevision, hobject, hrequest, hstatus, hreason, hby,
      hrevised, hmanifest⟩
  · -- the source is the first of the sorted history
    rintro row ⟨hrow, hrowItem, hrowDescriptor, hrowMark⟩
    obtain ⟨first, hfirst, hfirstId⟩ := map_eq_some_iff.mp hlatest
    obtain ⟨-, _, _, hsplit, hearlier⟩ := find?_eq_some_iff_append.mp hfirst
    have hfirstMem : first ∈ s.historyOf item := mem_of_find?_eq_some hfirst
    obtain rfl : first = source := s.reviews.eq_of_key (mem_historyOf.mp hfirstMem).1 hmem hfirstId
    have hmemRow : row ∈ s.historyOf item := mem_historyOf.mpr ⟨hrow, hrowItem⟩
    have hsorted := @pairwise_historyOf s item
    rw [hsplit] at hmemRow hsorted
    rcases mem_append.mp hmemRow with hrow' | hrow'
    · simpa [hrowDescriptor, hrowMark] using hearlier row hrow'
    · rcases mem_cons.mp hrow' with rfl | hrow'
      · exact notBefore_iff.mpr le_rfl
      · exact (pairwise_cons.mp (pairwise_append.mp hsorted).2.1).1 row hrow'

/-- Evidence that an approval of an earlier head still covers the current one. -/
structure IsCarried (s : Forge) (item : Item) (policy : Policy) (d : Descriptor)
    (carry : Carry) : Prop where
  source : ∃ source, source.id = carry.sourceReviewId ∧ s.IsCarrySource item policy d source
    ∧ carry.evidence.sourceCommitOid = source.commitOid
  ofItem : carry.evidence.forgeItemId = item.id
  head : item.headCommitOid = some carry.evidence.headCommitOid
  target : item.targetBranch = some carry.evidence.targetBranch
  policy : IsCurrentPolicy s.records policy carry.policyRevisionId
  guidance : sameGuidance d.guidance carry.guidanceRevisions

theorem validateCarry_eq_ok {descriptorId base : Id}
    (h : s.validateCarry item policy carry = .ok (descriptorId, base)) :
    base = carry.evidence.baseCommitOid ∧ ∃ d, d.id = descriptorId
      ∧ s.IsCarried item policy d carry := by
  obtain ⟨⟨source, d⟩, hsource, h⟩ := check_bind_eq_ok.mp h
  obtain ⟨_, -, h⟩ := check_bind_eq_ok.mp h
  obtain ⟨_, -, h⟩ := check_bind_eq_ok.mp h
  obtain ⟨revision, hrevision, h⟩ := check_bind_eq_ok.mp h
  obtain ⟨_, hmatches, h⟩ := check_bind_eq_ok.mp h
  cases h
  obtain ⟨hid, hcarry⟩ := carrySource_eq_ok hsource
  simp only [refuseIf_eq_ok, not_or, not_not, Bool.not_eq_false] at hmatches
  obtain ⟨-, -, hobject, hcontent, -, -, hguidance, hitem, -, hcommit, hhead, htarget⟩ := hmatches
  refine ⟨rfl, d, rfl, ⟨source, hid, hcarry, hcommit⟩, hitem, hhead.symm, htarget.symm,
    ?_, hguidance⟩
  exact ⟨revision, hrevision, hcontent, hobject⟩

theorem validateEach_eq_ok {carries : List Carry} {seen : List Id} {base' : Option Id}
    (h : s.validateEach item policy carries seen base = .ok (ids, base')) :
    (∀ id ∈ ids, id ∈ seen ∨ ∃ carry ∈ carries, ∃ d, d.id = id ∧ s.IsCarried item policy d carry)
    ∧ (∀ b, base = some b → base' = some b)
    ∧ ∀ carry ∈ carries, base' = some carry.evidence.baseCommitOid
      ∧ ∃ d, s.IsCarried item policy d carry := by
  induction carries generalizing seen base with
  | nil =>
    cases h
    exact ⟨fun id hid => .inl hid, fun _ hb => hb, fun _ h => absurd h not_mem_nil⟩
  | cons carry carries ih =>
    obtain ⟨⟨_, _⟩, hcarry, h⟩ := check_bind_eq_ok.mp h
    obtain ⟨_, hdistinct, h⟩ := check_bind_eq_ok.mp h
    obtain ⟨hids, hbase, hrest⟩ := ih h
    obtain ⟨rfl, d, hd, hcarried⟩ := validateCarry_eq_ok hcarry
    have hfirst := hbase _ rfl
    refine ⟨fun id hid => ?_, fun b hb => ?_, fun carry' hcarry' => ?_⟩
    · rcases hids id hid with hseen | ⟨carry', hmem, hcarried'⟩
      · rcases mem_cons.mp hseen with rfl | hseen
        · exact .inr ⟨carry, mem_cons_self, d, hd, hcarried⟩
        · exact .inl hseen
      · exact .inr ⟨carry', mem_cons_of_mem _ hmem, hcarried'⟩
    · simp only [refuseIf_eq_ok, not_or, not_and, not_not] at hdistinct
      rw [hfirst, ← hb]
      exact (hdistinct.2 (by simp [hb])).symm
    · rcases mem_cons.mp hcarry' with rfl | hmem
      · exact ⟨hfirst, d, hcarried⟩
      · exact hrest carry' hmem

/-- The approvals that the gate's decision reuses. -/
def Reuses (s : Forge) (item : Item) (policy : Policy) (carry : Carry) : Prop :=
  ∃ carries, (s.carriedReviewPayload item policy).bind Payload.carryForwardEvidence = some carries
    ∧ carry ∈ carries

/-- What is carried forward, where none of it is invalid. -/
theorem carriedForward_spec {reviewIds : List Id}
    (h : s.carriedForward item policy (s.carriedReviewPayload item policy)
      = (ids, base, reviewIds, [])) :
    (∀ id ∈ ids, ∃ carry, s.Reuses item policy carry ∧ ∃ d,
      d.id = id ∧ s.IsCarried item policy d carry)
    ∧ (∀ carry, s.Reuses item policy carry → base = some carry.evidence.baseCommitOid)
    ∧ ∀ id ∈ reviewIds, ∃ carry d, s.Reuses item policy carry ∧ s.IsCarried item policy d carry
      ∧ carry.sourceReviewId = id := by
  rw [carriedForward] at h
  split at h
  · rename_i hnone
    cases h
    refine ⟨nofun, ?_, nofun⟩
    rintro carry ⟨carries, hcarries, -⟩
    rw [hnone] at hcarries
    cases hcarries
  · rename_i hnil
    cases h
    refine ⟨nofun, ?_, nofun⟩
    rintro carry ⟨carries, hcarries, hmem⟩
    rw [hnil] at hcarries
    cases hcarries
    exact absurd hmem not_mem_nil
  · rename_i carries _ hcarries
    split at h
    · rename_i ids' base' hvalid
      cases h
      obtain ⟨_, -, hvalid⟩ := check_bind_eq_ok.mp hvalid
      obtain ⟨hids, -, hbases⟩ := validateEach_eq_ok hvalid
      refine ⟨fun id hid => ?_, ?_, fun id hid => ?_⟩
      · rcases hids id hid with hseen | ⟨carry, hmem, hcarried⟩
        · exact absurd hseen not_mem_nil
        · exact ⟨carry, ⟨carries, hcarries, hmem⟩, hcarried⟩
      · rintro carry ⟨_, hcarries', hmem⟩
        rw [hcarries] at hcarries'
        cases hcarries'
        exact (hbases carry hmem).1
      · obtain ⟨carry, hmem, rfl⟩ := mem_map.mp hid
        obtain ⟨d, hcarried⟩ := (hbases carry hmem).2
        exact ⟨carry, d, ⟨carries, hcarries, hmem⟩, hcarried, rfl⟩
    · cases h

/-! ## Panels -/

theorem eq_of_disagree {bases : List Id} (h : disagree bases = false) {b b' : Id} (hb : b ∈ bases)
    (hb' : b' ∈ bases) : b = b' := by
  by_contra hne
  refine absurd h (Bool.not_eq_false _ ▸ ?_)
  exact any_eq_true.mpr ⟨b, hb, any_eq_true.mpr ⟨b', hb', decide_eq_true hne⟩⟩

/-- A change request is resolved: by a later approval of its own descriptor, which is current or
carried forward. -/
def IsResolved (s : Forge) (item : Item) (policy : Policy) (carriedReviewIds : List Id)
    (objection : Review) : Prop :=
  ∃ row payload d, row ∈ s.reviews ∧ row.forgeItemId = item.id
    ∧ row.reviewerDescriptorId = objection.reviewerDescriptorId
    ∧ objection.observedAt ≤ row.observedAt ∧ s.payloadOf row.id = some payload
    ∧ payload.reviewerSubmission ∧ objection.id ∈ payload.resolutions
    ∧ IsApproval s.records item policy row payload d
    ∧ (s.IsLatest item d.id row ∨ row.id ∈ carriedReviewIds)

theorem confirms_eq_true {latestIds : List Id}
    (h : s.confirms item policy latestIds carriedReviewIds row = .ok true) :
    (row.id ∈ latestIds ∨ row.id ∈ carriedReviewIds) ∧ ∃ payload d,
      s.payloadOf row.id = some payload
      ∧ payload.reviewerSubmission ∧ IsApproval s.records item policy row payload d := by
  rw [confirms] at h
  split at h
  · cases h
  · rename_i hids
    rw [not_and_or, not_not, not_not] at hids
    split at h
    · cases h
    · rename_i payload hpayload
      split at h
      · rename_i hsubmission
        obtain ⟨⟨d, happroval⟩, -⟩ := currentApproval_iff.mp h
        exact ⟨hids, payload, d, hpayload, hsubmission, happroval⟩
      · cases h

theorem unresolvedReviews_eq_nil (h : s.unresolvedReviews item policy carriedReviewIds = .ok [])
    {objection : Review} (hmem : objection ∈ s.reviews) (hitem : objection.forgeItemId = item.id)
    (hverdict : objection.verdict = .changesRequested)
    (hby : objection.reviewerDescriptorId ≠ none) :
    s.IsResolved item policy carriedReviewIds objection := by
  have hobjection : objection ∈ (s.historyOf item).filter fun row =>
      row.verdict = .changesRequested ∧ row.reviewerDescriptorId.isSome := by
    rw [mem_filter, decide_eq_true_eq]
    exact ⟨mem_historyOf.mpr ⟨hmem, hitem⟩, hverdict, isSome_iff_ne_none.mpr hby⟩
  simp only [unresolvedReviews] at h
  split at h
  · rename_i hempty
    rw [List.isEmpty_iff.mp hempty] at hobjection
    exact absurd hobjection not_mem_nil
  · obtain ⟨confirming, hconfirming, h⟩ := check_bind_eq_ok.mp h
    have hperm := perm_insertionSort (· ≤ ·) ((((s.historyOf item).filter fun row =>
      row.verdict = .changesRequested ∧ row.reviewerDescriptorId.isSome).filter
        fun objection => !confirming.any (s.resolves · objection)).map Review.id)
    rw [check_pure_eq_ok.mp h, nil_perm, map_eq_nil_iff] at hperm
    have hresolved := filter_eq_nil_iff.mp hperm objection hobjection
    simp only [Bool.not_eq_true', Bool.not_eq_false, List.any_eq_true] at hresolved
    obtain ⟨row, hrow, hresolves⟩ := hresolved
    obtain ⟨hhistory, hconfirms⟩ := (check_filterM_eq_ok hconfirming).mp hrow
    obtain ⟨hrowMem, hrowItem⟩ := mem_historyOf.mp hhistory
    obtain ⟨hids, payload, d, hpayload, hsubmission, happroval⟩ := confirms_eq_true hconfirms
    simp only [resolves, hpayload, Bool.and_eq_true, contains_iff_mem, beq_iff_eq,
      decide_eq_true_eq] at hresolves
    obtain ⟨⟨hnamed, hsame⟩, hobserved⟩ := hresolves
    refine ⟨row, payload, d, hrowMem, hrowItem, hsame.symm, hobserved, hpayload,
      hsubmission, hnamed, happroval, hids.imp_left fun hlatest => ?_⟩
    obtain ⟨row', hrow', hid⟩ := mem_map.mp hlatest
    obtain ⟨d', hd', hlatest'⟩ := mem_latestCurrentReviews.mp hrow'
    obtain rfl : row' = row := s.reviews.eq_of_key hlatest'.1.1.1 hrowMem hid
    obtain ⟨-, hdescriptor⟩ := fetchSome_eq_ok happroval.descriptor.1
    obtain rfl : d' = d.id := some.inj (hd'.symm.trans hdescriptor)
    exact hlatest'

theorem withFindings_eq_ok {panel' : Panel}
    (h : s.withFindings panel item policy carriedReviewIds = .ok panel')
    (hmissing : panel'.missing = []) :
    panel.missing = [] ∧ panel'.invalidCarryForward = panel.invalidCarryForward
      ∧ s.unresolvedReviews item policy carriedReviewIds = .ok [] := by
  obtain ⟨_, hunresolved, h⟩ := check_bind_eq_ok.mp h
  obtain ⟨_, -, h⟩ := check_bind_eq_ok.mp h
  cases h
  obtain ⟨hown, hnone⟩ := append_eq_nil_iff.mp hmissing
  rw [map_eq_nil_iff.mp hnone] at hunresolved
  refine ⟨?_, rfl, hunresolved⟩
  split at hown
  · exact absurd hown (by simp)
  · exact hown

/-- A target base that a current approval, the check of the head or carried evidence pins. -/
inductive Pins (s : Forge) (item : Item) (policy : Policy) : Id → Prop
  | approval {d : Descriptor} {row : Review} {payload : Payload} {base : Id} :
    s.IsLatest item d.id row → s.payloadOf row.id = some payload →
    IsApproval s.records item policy row payload d → payload.expectedBaseOid = some base →
    Pins s item policy base
  | check {repo : Repository} {checked : Check} :
    s.records.repository item.repositoryId = .ok repo →
    s.needsLibraryCheck item repo → s.records.headCheck item = some checked →
    Pins s item policy checked.baseCommitOid
  | carry {carry : Carry} : s.Reuses item policy carry →
    Pins s item policy carry.evidence.baseCommitOid

/-- A descriptor whose latest review of the head is a current approval. -/
def Approves (s : Forge) (item : Item) (policy : Policy) (d : Descriptor) : Prop :=
  ∃ row payload, s.IsLatest item d.id row ∧ s.payloadOf row.id = some payload
    ∧ IsApproval s.records item policy row payload d

/-- What a complete panel of selected reviewers establishes. -/
structure IsReviewed (s : Forge) (item : Item) (policy : Policy) : Prop where
  covered : ∀ d, s.records.descriptor (some d.id) = .ok d → d.enabled → d.id ∈ policy.reviewerIds →
    s.Approves item policy d ∨ ∃ carry, s.Reuses item policy carry ∧ s.IsCarried item policy d carry
  resolved : ∀ objection ∈ s.reviews, objection.forgeItemId = item.id →
    objection.verdict = .changesRequested → objection.reviewerDescriptorId ≠ none →
    ∃ carriedReviewIds, s.IsResolved item policy carriedReviewIds objection
      ∧ ∀ id ∈ carriedReviewIds, ∃ carry d, s.Reuses item policy carry
        ∧ s.IsCarried item policy d carry ∧ carry.sourceReviewId = id
  bases : ∀ base base', s.Pins item policy base → s.Pins item policy base' → base = base'

/-- The approvals among the latest reviews. -/
theorem mem_approving {approving : List Review}
    (h : (latestCurrentReviews item (s.historyOf item)).filterM (fun row =>
      currentApproval s.records row (s.payloadOf row.id) item policy false) = .ok approving) :
    row ∈ approving ↔ ∃ d payload, s.IsLatest item d.id row ∧ s.payloadOf row.id = some payload
      ∧ IsApproval s.records item policy row payload d := by
  rw [check_filterM_eq_ok h, mem_latestCurrentReviews]
  constructor
  · rintro ⟨⟨d', hd', hlatest⟩, happroval⟩
    cases hpayload : s.payloadOf row.id with
    | none =>
      rw [hpayload] at happroval
      cases happroval
    | some payload =>
      rw [hpayload] at happroval
      obtain ⟨⟨d, happroval⟩, -⟩ := currentApproval_iff.mp happroval
      obtain ⟨-, hdescriptor⟩ := fetchSome_eq_ok happroval.descriptor.1
      obtain rfl : d' = d.id := some.inj (hd'.symm.trans hdescriptor)
      exact ⟨d, payload, hlatest, rfl, happroval⟩
  · rintro ⟨d, payload, hlatest, hpayload, happroval⟩
    refine ⟨⟨d.id, hlatest.1.1.2.2.1, hlatest⟩, ?_⟩
    rw [hpayload]
    exact currentApproval_iff.mpr ⟨⟨d, happroval⟩, fun _ => hlatest.1.2⟩

theorem mem_required :
    d ∈ s.records.required policy ↔ d ∈ s.records.descriptors ∧ d.id ∈ policy.reviewerIds
      ∧ d.enabled := by
  simp [Records.required, mem_insertionSort]

theorem IsCarried.descriptor_eq {d' : Descriptor} (h : s.IsCarried item policy d carry)
    (hid : d.id = d'.id) (hd' : s.records.descriptor (some d'.id) = .ok d') : d = d' := by
  obtain ⟨source, -, hsource, -⟩ := h.source
  have hd := hsource.descriptor.1
  rw [hid, hd'] at hd
  exact (Except.ok.inj hd).symm

theorem postprocessingPanel_complete {checked : Option Check}
    (h : s.postprocessingPanel item policy checked (s.carriedReviewPayload item policy) = .ok panel)
    (hcomplete : panel.isComplete)
    (hchecked : ∀ repo, s.records.repository item.repositoryId = .ok repo →
      s.needsLibraryCheck item repo → checked = s.records.headCheck item) :
    s.IsReviewed item policy := by
  obtain ⟨approving, happroving, h⟩ := check_bind_eq_ok.mp h
  obtain ⟨⟨_, carryBase, carriedReviewIds, invalid⟩, hc⟩ :
    ∃ c, s.carriedForward item policy (s.carriedReviewPayload item policy) = c := ⟨_, rfl⟩
  simp only [hc] at h
  simp only [Panel.isComplete, Bool.and_eq_true, List.isEmpty_iff] at hcomplete
  obtain ⟨hmissing, hinvalid, hunresolved⟩ := withFindings_eq_ok h hcomplete.1
  obtain rfl : invalid = [] := hinvalid.symm.trans hcomplete.2
  obtain ⟨hcarried, hcarryBase, hcarriedIds⟩ := carriedForward_spec hc
  split at hmissing
  · exact absurd hmissing (by simp)
  · rename_i hagree
    split at hmissing
    · cases hmissing
    · rw [map_eq_nil_iff, filter_eq_nil_iff] at hmissing
      refine ⟨fun d hd henabled hlink => ?_, fun _ hmem hitem hverdict hby => ?_, ?_⟩
      · have hcovers := hmissing d (mem_required.mpr ⟨(fetchSome_eq_ok hd).1, hlink, henabled⟩)
        simp only [Bool.not_eq_true', Bool.not_eq_false, Bool.or_eq_true,
          List.any_eq_true, beq_iff_eq, contains_iff_mem] at hcovers
        rcases hcovers with ⟨row, hrow, hby⟩ | hid
        · obtain ⟨d', payload, hlatest, hpayload, happroval⟩ := (mem_approving happroving).mp hrow
          have hd' := happroval.descriptor.1
          rw [hby, hd] at hd'
          cases hd'
          exact .inl ⟨row, payload, hlatest, hpayload, happroval⟩
        · obtain ⟨carry, hreuses, d', hid', hcarry⟩ := hcarried d.id hid
          obtain rfl := hcarry.descriptor_eq hid' hd
          exact .inr ⟨carry, hreuses, hcarry⟩
      · exact ⟨carriedReviewIds, unresolvedReviews_eq_nil hunresolved hmem hitem hverdict hby,
          hcarriedIds⟩
      · -- every pinned base is among those that were compared
        have hpins : ∀ base, s.Pins item policy base → base ∈ approving.filterMap s.baseOf
            ++ (checked.map Check.baseCommitOid).toList ++ carryBase.toList := by
          rintro base (⟨hlatest, hpayload, happroval, hbase⟩ | ⟨hrepo, hneeds, hcheck⟩ | hreuses)
          · refine mem_append_left _ (mem_append_left _ (mem_filterMap.mpr ?_))
            refine ⟨_, (mem_approving happroving).mpr ⟨_, _, hlatest, hpayload, happroval⟩, ?_⟩
            rw [baseOf, hpayload]
            exact hbase
          · refine mem_append_left _ (mem_append_right _ ?_)
            rw [hchecked _ hrepo hneeds, hcheck]
            exact mem_singleton_self _
          · refine mem_append_right _ ?_
            rw [hcarryBase _ hreuses]
            exact mem_singleton_self _
        intro base base' hbase hbase'
        exact eq_of_disagree (Bool.not_eq_true _ ▸ hagree) (hpins base hbase) (hpins base' hbase')

/-- The panel of a post-processing item whose policy requires specialists, outside the roadmaps
of the milestone workflow. -/
theorem repositoryReviewPanel_complete (h : s.repositoryReviewPanel item policy none = .ok panel)
    (hcomplete : panel.isComplete) (hphase : item.reviewPhase = some .postprocessing)
    (hmode : policy.specialistMode = .required)
    (hroadmap : ∀ repo, s.records.repository item.repositoryId = .ok repo →
      s.records.isMilestoneRoadmap repo ≠ .ok true) : s.IsReviewed item policy := by
  obtain ⟨repo, hrepo, h⟩ := check_bind_eq_ok.mp h
  dsimp only at h
  split at h
  · simp only [Panel.isComplete, Bool.and_eq_true, List.isEmpty_iff] at hcomplete
    cases (withFindings_eq_ok h hcomplete.1).1
  · rw [if_neg (by rw [hmode]; nofun)] at h
    obtain ⟨milestones, hmilestones, h⟩ := check_bind_eq_ok.mp h
    have hnone : milestones = none := by
      obtain ⟨repo', hrepo', hmilestones⟩ := check_bind_eq_ok.mp hmilestones
      obtain ⟨strict, hstrict, hmilestones⟩ := check_bind_eq_ok.mp hmilestones
      cases strict with
      | true => exact absurd hstrict (hroadmap repo' hrepo')
      | false => exact (check_pure_eq_ok.mp hmilestones).symm
    subst hnone
    dsimp only at h
    rw [if_neg (not_not.mpr hphase)] at h
    refine postprocessingPanel_complete h hcomplete fun repo' hrepo' hneeds => ?_
    rw [hrepo] at hrepo'
    cases hrepo'
    exact if_pos hneeds

/-! ## The merge -/

theorem queueMerge_eq_ok {authority : Authority} {request : MergeRequest} {payload : MergePayload}
    (h : s.queueMerge authority request = .ok payload) :
    ∃ item gate policy panel, s.items.find? request.forgeItemId = some item ∧ gate ∈ s.gates
      ∧ gate.id = request.reviewGateId ∧ gate.forgeItemId = item.id ∧ gate.status = .accepted
      ∧ item.headCommitOid = some request.expectedHeadOid
      ∧ gate.acceptedCommitOid = some request.expectedHeadOid
      ∧ s.records.policy gate.policyId = .ok policy
      ∧ s.repositoryReviewPanel item policy none = .ok panel ∧ panel.isComplete := by
  obtain ⟨item, hitem, h⟩ := check_bind_eq_ok.mp h
  obtain ⟨_, -, h⟩ := check_bind_eq_ok.mp h
  obtain ⟨_, -, h⟩ := check_bind_eq_ok.mp h
  obtain ⟨gate, hgate, h⟩ := check_bind_eq_ok.mp h
  obtain ⟨_, haccepted, h⟩ := check_bind_eq_ok.mp h
  obtain ⟨policy, hpolicy, h⟩ := check_bind_eq_ok.mp h
  obtain ⟨panel, hpanel, h⟩ := check_bind_eq_ok.mp h
  obtain ⟨_, hcomplete, -⟩ := check_bind_eq_ok.mp h
  simp only [refuseIf_eq_ok, not_or, not_not, Bool.not_eq_false] at haccepted hcomplete
  obtain ⟨hof, hstatus, hhead, hcommit⟩ := haccepted
  obtain ⟨_, hfetch, hgate⟩ := check_bind_eq_ok.mp hgate
  obtain ⟨_, -, hgate⟩ := check_bind_eq_ok.mp hgate
  obtain ⟨_, -, hgate⟩ := check_bind_eq_ok.mp hgate
  obtain ⟨_, -, hgate⟩ := check_bind_eq_ok.mp hgate
  cases hgate
  obtain ⟨hgateMem, hgateId⟩ := fetch_eq_ok hfetch
  exact ⟨item, gate, policy, panel, Table.find?_eq_some.mpr (fetch_eq_ok hitem),
    hgateMem, hgateId, hof, hstatus, hhead, hcommit, hpolicy, hpanel, hcomplete⟩

end Forge

/-! ## A merge with its specialist -/

namespace Installation

/-- A policy that requires its specialist. -/
def specialistPolicy : Forge.Policy :=
  ⟨1, 1, 1, true, [.postprocessing], .required, none, [1], [1]⟩

/-- A project with one repository, whose policy requires a specialist. -/
def specialistRecords (workflow : Workflow) (purpose : RepositoryPurpose) : Forge.Records where
  projects := [⟨1, workflow⟩]
  repositories := [⟨1, 1, 1, purpose⟩]
  policies := [specialistPolicy]
  descriptors := [⟨1, 1, 1, "definitions", true, []⟩]
  revisions := [⟨1, some 1, 1, 1⟩, ⟨2, none, 1, 1⟩]
  requests := [⟨1, .completed, .review, some 1, some 2, some 9⟩]
  checks := [⟨1, 0, 1, 10, 9, .graph, [], []⟩]
  identities := [⟨1, 1, 6, true⟩]

/-- The specialist approves a head of the pull request. -/
def specialistApproval (id head : Id) : Forge.ReviewDelivery where
  operationId := id
  createdAt := id
  payload :=
    { forgeItemId := 1, commitOid := head, summary := "Assessment", reviewerSubmission := true,
      targetBranch := some "main", policyRevisionId := some 1, reviewerDescriptorId := some 1,
      reviewerDescriptorRevisionId := some 2, providerRequestId := some 1,
      integrationIdentityId := some 1 }
  remote := ⟨id, some 6, some head, some .approved, none⟩
  now := id
  reviewId := id
  gateId := 1

def maintainer : Forge.Authority := ⟨fun _ => true, false⟩

/-- The specialist and then the maintainer approve the head. -/
def reviewed : Forge :=
  System.replay Forge.next (fun _ _ => true)
    [ .records (specialistRecords .graph .library)
    , .syncForge 1 [(pullRequest 10, 1)]
    , .classify 1 .postprocessing
    , .forgeReview (specialistApproval 99 10)
    , .forgeReview (maintainerDecision 100 10 .approved) ] .initial

end Installation

theorem exists_ok_of_isOk {ε α : Type} {x : Except ε α} (h : x.isOk) : ∃ a, x = .ok a := by
  cases x with
  | error e => cases h
  | ok a => exact ⟨a, rfl⟩

/-! ## Merges without an approval of the head -/

/-- A merge is queued for a post-processing item under a policy that requires its specialists. -/
def Forge.Merges (s : Forge) (item : Item) (policy : Policy) : Prop :=
  (∃ authority request payload, s.queueMerge authority request = .ok payload
    ∧ s.items.find? request.forgeItemId = some item)
  ∧ item.reviewPhase = some .postprocessing ∧ s.records.policies = [policy]
  ∧ policy.specialistMode = .required

namespace Installation

/-- A roadmap of the milestone workflow is approved by the maintainer alone. -/
def roadmap : Forge :=
  System.replay Forge.next (fun _ _ => true)
    [ .records (specialistRecords .milestones .knowledge)
    , .syncForge 1 [(pullRequest 10, 1)]
    , .classify 1 .postprocessing
    , .forgeReview (maintainerDecision 100 10 .approved) ] .initial

/-- The evidence that the specialist's approval of head 10 covers head 11. -/
def carriedApproval : Forge.Carry where
  sourceReviewId := 99
  evidenceArtifactId := 9
  evidenceSha256 := "digest"
  evidence := ⟨1, 99, 10, 11, "main", 8⟩
  reviewerDescriptorId := 1
  reviewerDescriptorRevisionId := 2
  guidanceRevisions := []
  policyRevisionId := some 1

/-- The specialist requests changes and then approves, resolving its request.  The head moves on,
and the maintainer carries the approval forward. -/
def carriedForward : Forge :=
  System.replay Forge.next (fun _ _ => true)
    [ .records { specialistRecords .graph .library with artifacts := [⟨9, 1, true, some "digest"⟩] }
    , .syncForge 1 [(pullRequest 10, 1)]
    , .classify 1 .postprocessing
    , .forgeReview { specialistApproval 98 10 with
        remote := ⟨98, some 6, some 10, some .changesRequested, none⟩ }
    , .forgeReview { specialistApproval 99 10 with
        payload := { (specialistApproval 99 10).payload with resolutions := [98] } }
    , .syncForge 1 [(pullRequest 11, 1)]
    , .forgeReview { maintainerDecision 100 11 .approved with
        payload := { (maintainerDecision 100 11 .approved).payload with
          carryForwardEvidence := some [carriedApproval] } } ] .initial

end Installation

end Horizon
