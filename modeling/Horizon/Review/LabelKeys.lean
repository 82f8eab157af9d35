import Horizon.Review.Labels

/-!
# Label operations and their keys

The label operations of the outbox are unique by actor and idempotency key (`outbox_operation` of
`persistence/schema.py`).  `terminal_label_operation` of `review/labels.py` looks its key up first
and returns the operation it finds; `settle` of `review/demand.py` inserts.  Keys are built from an
item and a generation, or from an item and its outcome, and outlive the operation they stand for.
-/

namespace Horizon

open Table Transaction Option Installation DB Database

variable {s s' : ReviewPlane}

/-! ## The queue of label operations -/

/-- `TERMINAL_STATES`. -/
inductive TerminalState where
  | merged | closed | superseded
deriving DecidableEq

/-- The idempotency keys of label operations. -/
inductive LabelKey where
  | reviewRequest (itemId : Id) (generation : Nat)
  | reviewSettle (itemId : Id) (generation : Nat)
  | reviewProjection (operationId : Id) (generation : Nat)
  | terminalReviewLabel (itemId : Id) (state : TerminalState)
  | other (text : String)
deriving DecidableEq

/-- A `forge_label` row of `outbox_operation`. -/
structure LabelOperation where
  id : Id
  actorId : Id
  key : LabelKey
  forgeItemId : Id
  add : List String
  remove : List String
  reviewGeneration : Option Nat := none
  status : DeliveryStatus := .pending

/-- The rows, unique by actor and key. -/
abbrev LabelQueue := Table fun o : LabelOperation => (o.actorId, o.key)

/-! ## Settlements -/

/-- The control plane with its label operations. -/
structure ReviewPlane where
  plane : DB
  queue : LabelQueue

/-- The ways a settlement fails. -/
inductive SettleError where
  | refused (error : Error)
  | constraintConflict

/-- The operation that a settlement of the current generation queues. -/
def settlementOperation (actor : Actor) (itemId : Id) (generation : Nat) (id : Id) :
    LabelOperation :=
  { id := id, actorId := actor.id, key := .reviewSettle itemId generation, forgeItemId := itemId
    add := [], remove := ["awaiting-review"], reviewGeneration := some generation }

/-- Whether a demand wants its label: what `label_projection` and `repair_label` compare. -/
def ReviewDemand.wants (d : ReviewDemand) : Bool :=
  d.attention && decide (d.handledGeneration < d.generation)

namespace ReviewPlane

variable (s : ReviewPlane)

/-- Whether a generation is the current one of an item. -/
def isCurrent (itemId : Id) (generation : Nat) : Bool :=
  ((s.plane .reviewDemand).find? itemId).any (·.generation == generation)

/-- `settle`, with the label operation of the current generation. -/
def settleReview (env : Env) (actor : Actor) (itemId : Id) (generation : Nat) (id : Id) :
    Except SettleError ReviewPlane :=
  match settle env actor itemId generation s.plane with
  | .error e => .error (.refused e)
  | .ok (_, plane) =>
    if s.isCurrent itemId generation then
      match s.queue.insertNew (settlementOperation actor itemId generation id) with
      | some queue => .ok ⟨plane, queue⟩
      | none => .error .constraintConflict
    else .ok ⟨plane, s.queue⟩

/-- The operation by which `repair_label` corrects a recorded label. -/
def repair (actorId operationId itemId id : Id) : Option ReviewPlane :=
  match s.plane.repairLabel itemId with
  | none => some s
  | some (_, generation) =>
    let wants := ((s.plane .reviewDemand).find? itemId).any (·.wants)
    (s.queue.insertNew
      { id := id, actorId := actorId, key := .reviewProjection operationId generation,
        forgeItemId := itemId
        add := if wants then ["awaiting-review"] else []
        remove := if wants then [] else ["awaiting-review"]
        reviewGeneration := some generation }).map (⟨s.plane, ·⟩)

end ReviewPlane

/-- What the delivery of label operations does: an operation is claimed, put off, given up or
cancelled; or it is completed, and the label that the remote side reports is recorded. -/
inductive LabelDelivery where
  | progress (actorId : Id) (key : LabelKey) (status : DeliveryStatus)
  | completed (actorId : Id) (key : LabelKey) (labelled : Bool) (id : Id)

namespace ReviewPlane

/-- A step of a delivery. -/
def deliver (s : ReviewPlane) : LabelDelivery → Option ReviewPlane
  | .progress actorId key status =>
    some ⟨s.plane,
      s.queue.modify (actorId, key) (fun o => { o with status := status }) fun _ => rfl⟩
  | .completed actorId key labelled id => do
    let o ← s.queue.find? (actorId, key)
    let s : ReviewPlane := ⟨s.plane.recordLabel o.forgeItemId labelled,
      s.queue.modify (actorId, key) (fun o => { o with status := .completed }) fun _ => rfl⟩
    if o.reviewGeneration.isSome then s.repair actorId o.id o.forgeItemId id else some s

/-- The actor has no settlement of the generation in the queue, where one would be queued. -/
def Unqueued (s : ReviewPlane) (actor : Actor) (itemId : Id) (generation : Nat) : Prop :=
  s.isCurrent itemId generation → s.queue.find? (actor.id, .reviewSettle itemId generation) = none

end ReviewPlane

/-! ### What a settlement reads -/

/-- Two databases with the same records, up to labels and handled generations. -/
structure SameReviews (db db' : DB) : Prop where
  tables : ∀ t, t ≠ .reviewDemand → t ≠ .forgeItem → db' t = db t
  items : ∀ id, ((db' .forgeItem).find? id).map (·.repositoryId)
    = ((db .forgeItem).find? id).map (·.repositoryId)
  demands : ∀ id,
    ((db' .reviewDemand).find? id).map (fun d => (d.generation, d.assignmentId, d.ownerGeneration))
    = ((db .reviewDemand).find? id).map fun d => (d.generation, d.assignmentId, d.ownerGeneration)

namespace SameReviews

variable {db db' db'' : DB}

theorem refl (db : DB) : SameReviews db db := ⟨fun _ _ _ => rfl, fun _ => rfl, fun _ => rfl⟩

theorem trans (h : SameReviews db db') (h' : SameReviews db' db'') : SameReviews db db'' where
  tables t hd hi := (h'.tables t hd hi).trans (h.tables t hd hi)
  items id := (h'.items id).trans (h.items id)
  demands id := (h'.demands id).trans (h.demands id)

theorem projectOf (h : SameReviews db db') (itemId : Id) :
    db'.projectOf (.forgeItem itemId) = db.projectOf (.forgeItem itemId) := by
  have hitem := h.items itemId
  simp only [DB.projectOf, DB.get, h.tables .repository (by decide) (by decide)]
  cases hi : (db .forgeItem).find? itemId with
  | none =>
    rw [hi, map_none, map_eq_none_iff] at hitem
    rw [hitem]
  | some _ =>
    rw [hi, map_some, map_eq_some_iff] at hitem
    obtain ⟨_, hi', hrepo⟩ := hitem
    simp only [hi', bind, Except.bind, hrepo]

theorem liveExecution (h : SameReviews db db') (now : Instant) (actor : Actor) :
    db'.liveExecution now actor = db.liveExecution now actor := by
  simp only [DB.liveExecution, h.tables .execution nofun nofun, h.tables .assignment nofun nofun,
    h.tables .run nofun nofun, h.tables .mission nofun nofun]

theorem requireProject (h : SameReviews db db') (now : Instant) (actor : Actor) (projectId : Id)
    (role : GrantRole) :
    db'.requireProject now actor projectId role = db.requireProject now actor projectId role := by
  have hadmin : db'.isAdmin actor = db.isAdmin actor := by
    simp only [isAdmin, has, h.tables .systemGrant (by decide) (by decide)]
  simp only [DB.requireProject, hadmin, h.liveExecution,
    h.tables .projectGrant (by decide) (by decide)]

end SameReviews

section

variable {env : Env} {actor : Actor} {itemId : Id} {generation : Nat} {db db' plane : DB}

/-- The demand of an item once a generation is handled. -/
def DB.settled (db : DB) (itemId : Id) (generation : Nat) : DB :=
  db.write .reviewDemand ((db .reviewDemand).updateWhere (fun d => d.forgeItemId == itemId)
    (fun d => { d with handledGeneration := max generation d.handledGeneration })
    (key_handled generation))

/-- A settlement raises the handled generation and does nothing else. -/
theorem settle_eq_settled (h : settle env actor itemId generation db = .ok ((), plane)) :
    plane = db.settled itemId generation := by
  obtain ⟨_, _, hquery, hwrite⟩ := bind_eq_ok.mp h
  obtain ⟨_, rfl⟩ := query_eq_ok.mp hquery
  cases hwrite
  rfl

/-- Whether an actor may settle a generation does not depend on labels and handled generations. -/
theorem settle_again (hsame : SameReviews db db')
    (h : settle env actor itemId generation db = .ok ((), plane)) :
    settle env actor itemId generation db' = .ok ((), db'.settled itemId generation) := by
  obtain ⟨_, _, hquery, -⟩ := bind_eq_ok.mp h
  have hcheck := (query_eq_ok.mp hquery).1
  refine bind_eq_ok.mpr ⟨(), db', query_eq_ok.mpr ⟨?_, rfl⟩, rfl⟩
  simp only [hsame.projectOf, hsame.requireProject, hsame.liveExecution]
  have hdemand := hsame.demands itemId
  cases hd : (db .reviewDemand).find? itemId with
  | none =>
    rw [hd, map_none, map_eq_none_iff] at hdemand
    rw [hdemand]
    rwa [hd] at hcheck
  | some demand =>
    rw [hd, map_some, map_eq_some_iff] at hdemand
    obtain ⟨demand', hd', hsame'⟩ := hdemand
    obtain ⟨hgeneration, hassignment, howner⟩ : demand'.generation = demand.generation
        ∧ demand'.assignmentId = demand.assignmentId
        ∧ demand'.ownerGeneration = demand.ownerGeneration := by
      simpa using hsame'
    simp only [hd', hgeneration, hassignment, howner]
    rwa [hd] at hcheck

theorem DB.settled_sameReviews (db : DB) (itemId : Id) (generation : Nat) :
    SameReviews db (db.settled itemId generation) where
  tables t hd _ := write_of_ne db hd _
  items id := by
    have hne : TableName.forgeItem ≠ .reviewDemand := by decide
    rw [settled, write_of_ne db hne]
  demands id := by
    rw [settled, write_self, find?_updateWhere]
    cases (db .reviewDemand).find? id with
    | none => rfl
    | some d =>
      simp only [map_some]
      split <;> rfl

theorem DB.settled_demand (db : DB) (itemId : Id) (generation : Nat) :
    (db.settled itemId generation .reviewDemand).find? itemId
      = ((db .reviewDemand).find? itemId).map fun d =>
      { d with handledGeneration := max generation d.handledGeneration } := by
  rw [settled, write_self, find?_updateWhere]
  cases hd : (db .reviewDemand).find? itemId with
  | none => rfl
  | some d =>
    have hid : d.forgeItemId = itemId := key_of_find? hd
    simp [hid]

theorem DB.recordLabel_sameReviews (db : DB) (itemId : Id) (labelled : Bool) :
    SameReviews db (db.recordLabel itemId labelled) where
  tables t _ hi := write_of_ne db hi _
  items id := by
    rw [recordLabel, write_self, find?_modify]
    cases (db .forgeItem).find? id with
    | none => rfl
    | some _ =>
      simp only [map_some]
      split <;> rfl
  demands id := by
    have hne : TableName.reviewDemand ≠ .forgeItem := by decide
    rw [recordLabel, write_of_ne db hne]

/-- A delivery changes labels only. -/
theorem ReviewPlane.deliver_sameReviews {step : LabelDelivery} (h : s.deliver step = some s') :
    SameReviews s.plane s'.plane ∧ s'.plane .reviewDemand = s.plane .reviewDemand := by
  cases step with
  | progress actorId key _ =>
    cases h
    exact ⟨.refl _, rfl⟩
  | completed actorId key labelled id =>
    obtain ⟨o, -, h⟩ := bind_eq_some_iff.mp h
    have hplane : s'.plane = s.plane.recordLabel o.forgeItemId labelled := by
      split at h
      · unfold ReviewPlane.repair at h
        dsimp only at h
        split at h
        · cases h
          rfl
        · obtain ⟨_, -, rfl⟩ := map_eq_some_iff.mp h
          rfl
      · cases h
        rfl
    rw [hplane]
    have hne : TableName.reviewDemand ≠ .forgeItem := by decide
    exact ⟨recordLabel_sameReviews _ _ _, write_of_ne s.plane hne _⟩

/-- So do any number of them. -/
theorem ReviewPlane.deliveries_sameReviews {steps : List LabelDelivery}
    (h : steps.foldlM ReviewPlane.deliver s = some s') :
    SameReviews s.plane s'.plane ∧ s'.plane .reviewDemand = s.plane .reviewDemand := by
  induction steps generalizing s with
  | nil =>
    cases h
    exact ⟨.refl _, rfl⟩
  | cons _ steps ih =>
    rw [List.foldlM_cons] at h
    obtain ⟨_, hstep, hrest⟩ := bind_eq_some_iff.mp h
    obtain ⟨hsame, hdemand⟩ := ReviewPlane.deliver_sameReviews hstep
    obtain ⟨hsame', hdemand'⟩ := ih hrest
    exact ⟨hsame.trans hsame', hdemand'.trans hdemand⟩

namespace ReviewPlane

variable {id : Id}

/-- What an actor that may settle a generation brings about. -/
theorem settleReview_eq (h : settle env actor itemId generation s.plane = .ok ((), plane)) :
    s.settleReview env actor itemId generation id
      = if s.isCurrent itemId generation then
          match s.queue.insertNew (settlementOperation actor itemId generation id) with
          | some queue => .ok ⟨s.plane.settled itemId generation, queue⟩
          | none => .error .constraintConflict
        else .ok ⟨s.plane.settled itemId generation, s.queue⟩ := by
  obtain rfl := settle_eq_settled h
  simp only [settleReview, h]

/-- It succeeds just when the actor has no settlement of the generation in the queue, where one
would be queued. -/
theorem settleReview_isOk (h : settle env actor itemId generation s.plane = .ok ((), plane)) :
    (∃ s', s.settleReview env actor itemId generation id = .ok s') ↔
      s.Unqueued actor itemId generation := by
  rw [settleReview_eq h, Unqueued]
  by_cases hcurrent : s.isCurrent itemId generation
  · rw [if_pos hcurrent, forall_prop_of_true hcurrent]
    constructor
    · rintro ⟨s', hs'⟩
      cases hinsert : s.queue.insertNew (settlementOperation actor itemId generation id) with
      | none =>
        rw [hinsert] at hs'
        cases hs'
      | some queue => exact find?_eq_none.mpr (insertNew_eq_some.mp hinsert).1
    · intro hnone
      rw [insertNew_eq_some.mpr ⟨find?_eq_none.mp hnone, rfl⟩]
      exact ⟨_, rfl⟩
  · rw [if_neg hcurrent]
    exact ⟨fun _ h => absurd h hcurrent, fun _ => ⟨_, rfl⟩⟩

/-- An older generation queues nothing. -/
theorem settleReview_older (h : settle env actor itemId generation s.plane = .ok ((), plane))
    (hold : s.isCurrent itemId generation = false) :
    s.settleReview env actor itemId generation id
      = .ok ⟨s.plane.settled itemId generation, s.queue⟩ := by
  rw [settleReview_eq h, hold]
  rfl

/-- The current generation is settled once. -/
theorem settleReview_current (h : settle env actor itemId generation s.plane = .ok ((), plane))
    (hcurrent : s.isCurrent itemId generation = true)
    (hs' : s.settleReview env actor itemId generation id = .ok s') (id' : Id) :
    s'.settleReview env actor itemId generation id' = .error .constraintConflict := by
  rw [settleReview_eq h, if_pos hcurrent] at hs'
  cases hinsert : s.queue.insertNew (settlementOperation actor itemId generation id) with
  | none =>
    rw [hinsert] at hs'
    cases hs'
  | some queue =>
    rw [hinsert] at hs'
    cases hs'
    obtain ⟨hnew, rfl⟩ := insertNew_eq_some.mp hinsert
    have hagain := settle_again (settled_sameReviews s.plane itemId generation) h
    have hstill : isCurrent ⟨s.plane.settled itemId generation, s.queue.insert _ hnew⟩
        itemId generation = true := by
      rw [isCurrent, settled_demand, Option.any_map]
      exact hcurrent
    rw [settleReview_eq (s := ⟨s.plane.settled itemId generation, s.queue.insert _ hnew⟩) hagain,
      if_pos hstill]
    cases hinsert' : (s.queue.insert _ hnew).insertNew
      (settlementOperation actor itemId generation id') with
    | none => rfl
    | some queue' =>
      -- The first settlement has the key.
      have hkey :=
        (insertNew_eq_some.mp hinsert').1 (settlementOperation actor itemId generation id)
        (mem_insert.mpr (.inr rfl))
      exact absurd rfl hkey

end ReviewPlane

end

/-- An actor that may settle a generation does so just when it has no settlement of it in the queue
where one would be queued.  It can settle the generation again after any deliveries, with the
demand as the first settlement left it, just when the generation is not the current one. -/
theorem settlement_repeatable (env : Env) (actor : Actor) (itemId : Id) (generation : Nat)
    (s : ReviewPlane)
    (plane : DB) (hmay : settle env actor itemId generation s.plane = .ok ((), plane)) (id : Id) :
    ((∃ s', s.settleReview env actor itemId generation id = .ok s') ↔
      s.Unqueued actor itemId generation)
    ∧ ((∃ s', s.settleReview env actor itemId generation id = .ok s'
        ∧ ∀ (steps : List LabelDelivery) (s₁ : ReviewPlane),
        steps.foldlM ReviewPlane.deliver s' = some s₁ →
          ∀ id', ∃ s₂, s₁.settleReview env actor itemId generation id' = .ok s₂
            ∧ (s₂.plane .reviewDemand).find? itemId = (s'.plane .reviewDemand).find? itemId)
      ↔ s.isCurrent itemId generation = false) := by
  refine ⟨ReviewPlane.settleReview_isOk hmay, ?_, fun hold => ?_⟩
  · rintro ⟨s', hs', hagain⟩
    refine Bool.eq_false_iff.mpr fun hcurrent => ?_
    obtain ⟨s₂, hs₂, -⟩ := hagain [] s' rfl id
    rw [ReviewPlane.settleReview_current hmay hcurrent hs' id] at hs₂
    cases hs₂
  · refine ⟨_, ReviewPlane.settleReview_older hmay hold, fun steps s₁ hsteps id' => ?_⟩
    obtain ⟨hsame, hdemand⟩ := ReviewPlane.deliveries_sameReviews hsteps
    have hmay₁ := settle_again ((settled_sameReviews _ _ _).trans hsame) hmay
    have hold₁ : s₁.isCurrent itemId generation = false := by
      rw [ReviewPlane.isCurrent, hdemand, settled_demand, Option.any_map]
      exact hold
    refine ⟨_, ReviewPlane.settleReview_older hmay₁ hold₁, ?_⟩
    -- The second maximum changes nothing.
    rw [settled_demand, hdemand, settled_demand, map_map]
    congr 1
    funext d
    simp

/-- A labelled item of a run, whose review is assigned. -/
def Installation.awaited : List Label := Installation.admitted ++
  [byAdmin 21 (.syncItem ⟨1, 1, some 1, none, .opened, true, 5⟩), byAdmin 22 .tick]

/-- The review is asked for again before its first generation is settled. -/
def Installation.renewed : List Label := Installation.awaited ++
  [byAdmin 23 (.command 0 (.requestReview 1 "Look again" (some 1)))]

/-- An installation whose queue holds no settlement. -/
def Installation.unsettled (ls : List Label) : ReviewPlane := ⟨outcome ls, empty _⟩

/-- An older generation is settled twice. -/
theorem settlement_repeatable_older :
    ∃ s', (unsettled renewed).settleReview (env 24) admin 1 1 1
        = .ok s'
      ∧ ∃ s₂, s'.settleReview (env 24) admin 1 1 2 = .ok s₂
        ∧ (s₂.plane .reviewDemand).find? 1 = (s'.plane .reviewDemand).find? 1 := by
  have hmay : (settle (env 24) admin 1 1 (unsettled renewed).plane).isOk = true := by decide +kernel
  have hold : (unsettled renewed).isCurrent 1 1 = false := by decide +kernel
  generalize unsettled renewed = s at hmay hold ⊢
  cases hsettle : settle (env 24) admin 1 1 s.plane with
  | error e => simp [hsettle, Except.isOk, Except.toBool] at hmay
  | ok r =>
    obtain ⟨s', hs', hagain⟩ := (settlement_repeatable _ _ _ _ s r.2 hsettle 1).2.mpr hold
    exact ⟨s', hs', hagain [] s' rfl 2⟩

/-- The current generation is settled, its label is delivered, and settling it again conflicts with
the key of the first settlement. -/
theorem second_settlement_conflicts :
    ∃ s' s₁ : ReviewPlane,
      (unsettled awaited).settleReview (env 24) admin 1 1 1
        = .ok s'
      ∧ s'.deliver (.completed admin.id (.reviewSettle 1 1) false 2) = some s₁
      ∧ (settle (env 24) admin 1 1 s₁.plane).isOk = true
      ∧ s₁.settleReview (env 24) admin 1 1 3 = .error .constraintConflict := by
  have hcheck : ((unsettled awaited).settleReview (env 24)
      admin 1 1 1).toOption.any (fun s' =>
        (s'.deliver (.completed admin.id (.reviewSettle 1 1) false 2)).any fun s₁ =>
          (settle (env 24) admin 1 1 s₁.plane).isOk
            && match s₁.settleReview (env 24) admin 1 1 3 with
              | .error .constraintConflict => true
              | _ => false) = true := by decide +kernel
  generalize unsettled awaited = s at hcheck ⊢
  cases hs' : s.settleReview (env 24) admin 1 1 1 with
  | error e => simp [hs', Except.toOption] at hcheck
  | ok s' =>
    simp only [hs', Except.toOption, any_some] at hcheck
    cases hs₁ : s'.deliver (.completed admin.id (.reviewSettle 1 1) false 2) with
    | none => simp [hs₁] at hcheck
    | some s₁ =>
      simp only [hs₁, any_some, Bool.and_eq_true] at hcheck
      refine ⟨s', s₁, rfl, hs₁, hcheck.1, ?_⟩
      have hconflict := hcheck.2
      split at hconflict
      · assumption
      · cases hconflict

/-! ## Terminal labels -/

/-- The labels of an item that the Forge reports. -/
structure LabelledItem where
  id : Id
  status : ItemStatus
  labels : List String

/-- `STATES`. -/
def reviewStates : List String :=
  ["queued", "running", "ok", "requesting-changes", "commented", "historical", "cancelled"]

/-- The label of an outcome. -/
def TerminalState.label : TerminalState → String
  | .merged => "review/merged"
  | .closed => "review/closed"
  | .superseded => "review/superseded"

/-- The labels that tell a superseded item from a closed one. -/
def supersededLabels : List String :=
  ["superseded", "incorporated", "obsolete", "duplicate", "review/superseded",
    "review/incorporated"]

/-- `review/<perspective>/<state>`. -/
def isReviewStateLabel (label : String) : Bool :=
  match label.toList.splitOn '/' with
  | [first, _, last] => first == "review".toList && reviewStates.any (·.toList == last)
  | _ => false

/-- What terminal labels are computed from besides the item: case folding, and the attention labels
of the policy of an item. -/
structure LabelReadings where
  casefold : String → String
  attentionLabels : Id → List String

section

variable (readings : LabelReadings) (item : LabelledItem)

/-- `terminal_state`. -/
def terminalState : Option TerminalState :=
  match item.status with
  | .merged => some .merged
  | .opened => none
  | .closed =>
    if item.labels.any (supersededLabels.contains <| readings.casefold ·) then some .superseded
    else some .closed

/-- The labels that terminal reconciliation takes off an item. -/
def isRemovable (state : TerminalState) (label : String) : Bool :=
  (label == "awaiting-review" || [TerminalState.merged, .closed, .superseded].any (·.label == label)
    || isReviewStateLabel label || (readings.attentionLabels item.id).contains label)
    && label != state.label

/-- The removable labels of an item. -/
def staleLabels (state : TerminalState) : List String :=
  (item.labels.filter (isRemovable readings item state)).dedup.insertionSort (· ≤ ·)

/-- `terminal_label_operation`: the operation, and the queue with it. -/
def terminalLabelOperation (actorId : Id) (item : LabelledItem) (id : Id) (queue : LabelQueue) :
    Option (LabelOperation × LabelQueue) :=
  match terminalState readings item with
  | none => none
  | some state =>
    if item.labels.contains state.label && (staleLabels readings item state).isEmpty then none
    else
      match queue.find? (actorId, .terminalReviewLabel item.id state) with
      | some existing => some (existing, queue)
      | none =>
        let o : LabelOperation :=
          { id := id, actorId := actorId, key := .terminalReviewLabel item.id state,
            forgeItemId := item.id
            add := [state.label], remove := staleLabels readings item state }
        (queue.insertNew o).map (o, ·)

/-- The observed items, with the label operations. -/
structure TerminalPlane where
  items : Table LabelledItem.id
  queue : LabelQueue

/-- What happens to them: an item is observed, with any state and labels, and reconciled by an
actor; an operation is claimed, put off, given up or cancelled; or it is completed, and labels are
recorded. -/
inductive TerminalStep where
  | observe (actorId : Id) (item : LabelledItem) (id : Id)
  | progress (actorId : Id) (key : LabelKey) (status : DeliveryStatus)
  | complete (actorId : Id) (key : LabelKey) (labels : List String)

namespace TerminalPlane

variable (s : TerminalPlane)

/-- Record what is observed of an item. -/
def record (item : LabelledItem) : Table LabelledItem.id :=
  match s.items.insertNew item with
  | some items => items
  | none => s.items.modify item.id (fun i => { item with id := i.id }) fun _ => rfl

def next : TerminalStep → Option TerminalPlane
  | .observe actorId item id =>
    some ⟨s.record item,
      ((terminalLabelOperation readings actorId item id s.queue).map Prod.snd).getD s.queue⟩
  | .progress actorId key status =>
    some ⟨s.items,
      s.queue.modify (actorId, key) (fun o => { o with status := status }) fun _ => rfl⟩
  | .complete actorId key labels => do
    let o ← s.queue.find? (actorId, key)
    some ⟨s.items.modify o.forgeItemId (fun i => { i with labels := labels }) fun _ => rfl,
      s.queue.modify (actorId, key) (fun o => { o with status := .completed }) fun _ => rfl⟩

end TerminalPlane

/-- The histories of observed items and their label operations. -/
def terminalPlane : System TerminalPlane TerminalStep :=
  .ofFun ⟨empty _, empty _⟩ fun s => s.next readings

variable {readings} {s s' : TerminalPlane} {queue : LabelQueue}

/-- A terminal operation adds the label of its outcome. -/
def TerminalPlane.AddsOutcome (s : TerminalPlane) : Prop :=
  ∀ o ∈ s.queue, ∀ itemId state, o.key = .terminalReviewLabel itemId state → o.add = [state.label]

theorem mem_staleLabels {item : LabelledItem} {state : TerminalState} {label : String} :
    label ∈ staleLabels readings item state ↔ label ∈ item.labels
      ∧ isRemovable readings item state label := by
  rw [staleLabels, (List.perm_insertionSort _ _).mem_iff, List.mem_dedup, List.mem_filter]

theorem TerminalPlane.next_addsOutcome {step : TerminalStep} (h : s.AddsOutcome)
    (hstep : s.next readings step = some s') : s'.AddsOutcome := by
  have hmodify : ∀ (k : Id × LabelKey) (status : DeliveryStatus),
      ∀ o ∈ s.queue.modify k (fun o => { o with status := status }) fun _ => rfl,
        ∀ itemId state, o.key = .terminalReviewLabel itemId state → o.add = [state.label] := by
    intro k status o ho itemId state hkey
    obtain ⟨o', ho', rfl⟩ := mem_modify.mp ho
    by_cases hk : (o'.actorId, o'.key) = k
    · rw [if_pos hk] at hkey ⊢
      exact h o' ho' itemId state hkey
    · rw [if_neg hk] at hkey ⊢
      exact h o' ho' itemId state hkey
  cases step with
  | observe actorId item id =>
    cases hstep
    intro o ho itemId state hkey
    cases hop : terminalLabelOperation readings actorId item id s.queue with
    | none =>
      rw [hop] at ho
      exact h o ho itemId state hkey
    | some result =>
      rw [hop] at ho
      change o ∈ result.2 at ho
      unfold terminalLabelOperation at hop
      split at hop
      · cases hop
      · split at hop
        · cases hop
        · split at hop
          · cases hop
            exact h o ho itemId state hkey
          · obtain ⟨queue, hinsert, rfl⟩ := map_eq_some_iff.mp hop
            obtain ⟨hnew, rfl⟩ := insertNew_eq_some.mp hinsert
            rcases (mem_insert (h := hnew)).mp ho with ho | rfl
            · exact h o ho itemId state hkey
            · cases hkey
              rfl
  | progress actorId key status =>
    cases hstep
    exact hmodify _ _
  | complete actorId key _ =>
    obtain ⟨o, -, hstep⟩ := bind_eq_some_iff.mp hstep
    cases hstep
    exact hmodify _ _

theorem addsOutcome_of_reachable (h : (terminalPlane readings).Reachable s) : s.AddsOutcome := by
  refine h.invariant (fun s hs => ?_) fun s _ s' hs _ hstep =>
    TerminalPlane.next_addsOutcome hs hstep
  cases hs
  exact fun o ho => absurd ho notMem_empty

end

/-- After every history of observations and deliveries, the reconciliation of an item that is
terminal, and lacks the label of its outcome or has a removable one, yields an operation that is not
settled, adds the one and removes the others; provided that an operation queued before for the item
and its outcome is not settled and removes them. -/
theorem terminal_labels_queued (readings : LabelReadings) {s : TerminalPlane}
    (hreach : (terminalPlane readings).Reachable s) (actorId id : Id) {item : LabelledItem}
    {state : TerminalState} (hstate : terminalState readings item = some state)
    (hstale : state.label ∉ item.labels ∨ ∃ label ∈ item.labels,
      isRemovable readings item state label = true)
    (hqueued : ∀ o, s.queue.find? (actorId, .terminalReviewLabel item.id state) = some o →
      o.status.blocks = true
        ∧ ∀ label ∈ item.labels, isRemovable readings item state label = true → label ∈ o.remove) :
    ∃ o queue, terminalLabelOperation readings actorId item id s.queue = some (o, queue)
      ∧ o ∈ queue ∧ o.status.blocks = true ∧ state.label ∈ o.add
      ∧ ∀ label ∈ item.labels, isRemovable readings item state label = true → label ∈ o.remove := by
  have hwork : (item.labels.contains state.label && (staleLabels readings item state).isEmpty)
      = false := by
    rcases hstale with hlacks | ⟨label, hlabel, hremovable⟩
    · simp [hlacks]
    · have hmem : label ∈ staleLabels readings item state :=
        mem_staleLabels.mpr ⟨hlabel, hremovable⟩
      simp [List.ne_nil_of_mem hmem]
  simp only [terminalLabelOperation, hstate, hwork, Bool.false_eq_true, if_false]
  cases hfind : s.queue.find? (actorId, .terminalReviewLabel item.id state) with
  | some o =>
    obtain ⟨hopen, hremove⟩ := hqueued o hfind
    obtain ⟨hmem, hkey⟩ := find?_eq_some.mp hfind
    have hadd := addsOutcome_of_reachable hreach o hmem item.id state (Prod.mk.inj hkey).2
    exact ⟨o, s.queue, rfl, hmem, hopen, by simp [hadd], hremove⟩
  | none =>
    rw [insertNew_eq_some.mpr ⟨find?_eq_none.mp hfind, rfl⟩]
    refine ⟨_, _, rfl, mem_insert.mpr (.inr rfl), rfl, List.mem_singleton_self _,
      fun label hlabel hr => ?_⟩
    exact mem_staleLabels.mpr ⟨hlabel, hr⟩

/-- No case folding, and no policy. -/
def plainReadings : LabelReadings := ⟨id, fun _ => []⟩

/-- The state after a history. -/
def afterHistory (steps : List TerminalStep) : TerminalPlane :=
  System.replay (fun s => s.next plainReadings) (fun _ _ => true) steps ⟨empty _, empty _⟩

theorem afterHistory_reachable (steps : List TerminalStep) :
    (terminalPlane plainReadings).Reachable (afterHistory steps) := by
  have hreach : (terminalPlane plainReadings).ReachableBy (fun _ _ => true) (afterHistory steps) :=
    System.replay_reachable _ _ _
  exact hreach.reachable

/-- An item that was closed while it awaited a review. -/
def closedItem : LabelledItem := ⟨1, .closed, ["awaiting-review"]⟩

theorem terminal_labels_queued_closed :
    ∃ o queue, terminalLabelOperation plainReadings 9 closedItem 2
      (afterHistory [.observe 9 closedItem 1]).queue
        = some (o, queue) ∧ o ∈ queue ∧ o.status.blocks = true ∧ "review/closed" ∈ o.add
      ∧ ∀ label ∈ closedItem.labels, isRemovable plainReadings closedItem .closed label = true →
      label ∈ o.remove := by
  have hreach := afterHistory_reachable [.observe 9 closedItem 1]
  have hqueued :
      ((afterHistory [.observe 9 closedItem 1]).queue.find? (9, .terminalReviewLabel 1 .closed)).all
      (fun o => o.status.blocks && o.remove == ["awaiting-review"]) = true := by decide +kernel
  have hstate : terminalState plainReadings closedItem = some .closed := by decide +kernel
  refine terminal_labels_queued plainReadings hreach 9 2 hstate (.inl (by decide)) fun o ho => ?_
  rw [show closedItem.id = 1 from rfl] at ho
  simp only [ho, all_some, Bool.and_eq_true, beq_iff_eq] at hqueued
  refine ⟨hqueued.1, fun label hlabel _ => ?_⟩
  rw [hqueued.2]
  exact hlabel

/-- The item is closed, its label is delivered, it is reopened for another review and closed again.
-/
def closedAgain : TerminalPlane := afterHistory
  [ .observe 9 closedItem 1
  , .complete 9 (.terminalReviewLabel 1 .closed) ["review/closed"]
  , .observe 9 ⟨1, .opened, ["awaiting-review"]⟩ 2
  , .observe 9 closedItem 3 ]

/-- The reconciliation returns the operation that was completed before, and the label stays. -/
theorem closed_again_unlabelled :
    (terminalPlane plainReadings).Reachable closedAgain
      ∧ (closedAgain.items.find? 1).any
        (fun item => item.status == .closed && item.labels == ["awaiting-review"]
          && (terminalLabelOperation plainReadings 9 item 4 closedAgain.queue).any
            (·.1.status == .completed)) = true
      ∧ closedAgain.queue.rows.all (fun o => !o.status.blocks) = true :=
  ⟨afterHistory_reachable _, by decide +kernel, by decide +kernel⟩

end Horizon
