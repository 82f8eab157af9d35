import Horizon.Library.Allotment
import Horizon.Machine
import Horizon.Missions.Evaluation
import Mathlib.Algebra.Order.Group.Nat
import Mathlib.Data.List.Sort

/-!
# Capacity previews

`execution/coordination.py`: the pools and shared limits that `summary` reports, how many
sessions `usable_slots` expects them to take, and `planning_needed`, which asks whether the ready
owners of a run can fill them.  A limit without a configured maximum is reported with `None` units
remaining, and neither consumer can compare or subtract it.
-/

namespace Horizon

open Transaction List Installation DB

variable {slot : Slot} {hostIds : List Id} {r : SharedResource} {slots : List Slot}

/-- The errors of Python arithmetic on what a summary holds. -/
inductive PreviewError where
  | typeError | keyError
deriving DecidableEq

/-- A healthy capacity pool. -/
structure Pool where
  hostId : Id
  harnessId : Id
  slots : Nat
  occupied : Nat
  freeSlots : Nat
  sharedLimitIds : List Id
  sharedResourcesAvailable : Bool

/-- A shared resource, with the units that remain of it. -/
structure SharedResource where
  id : Id
  kind : LimitKind
  remaining : Option Nat

/-- The capacity that `summary` reports. -/
structure CapacitySummary where
  healthyCapacityPools : List Pool
  sharedResources : List SharedResource

/-- A dictionary of remaining units; `some none` is an entry that holds `None`. -/
abbrev Remaining := Id → Option (Option Nat)

/-- `remaining`, as both consumers read it. -/
def CapacitySummary.remaining (state : CapacitySummary) : Remaining := fun id =>
  (state.sharedResources.find? (·.id = id)).map (·.remaining)

/-- `min`, which compares what it is given. -/
def minimum (n : Nat) : List (Option Nat) → Except PreviewError Nat
  | [] => .ok n
  | some k :: rest => minimum (min n k) rest
  | none :: _ => .error .typeError

/-- `remaining[identifier] -= count`. -/
def Remaining.subtract (remaining : Remaining) (id : Id) (count : Nat) :
    Except PreviewError Remaining :=
  match remaining id with
  | none => .error .keyError
  | some none => .error .typeError
  | some (some k) => .ok (Function.update remaining id (some (some (k - count))))

/-- The body of the loop of `usable_slots`. -/
def takePool (st : Nat × Remaining) (pool : Pool) : Except PreviewError (Nat × Remaining) :=
  if !pool.sharedResourcesAvailable then .ok st
  else do
    let count ← minimum pool.freeSlots (pool.sharedLimitIds.map fun id => (st.2 id).getD (some 0))
    let remaining ← pool.sharedLimitIds.foldlM (fun r id => Remaining.subtract r id count) st.2
    pure (st.1 + count, remaining)

/-- The pools with fewer shared limits come first. -/
def sortedPools (pools : List Pool) : List Pool :=
  pools.insertionSort fun p q => p.sharedLimitIds.length ≤ q.sharedLimitIds.length

/-- `usable_slots`. -/
def usableSlots (state : CapacitySummary) : Except PreviewError Nat := do
  let st ← (sortedPools state.healthyCapacityPools).foldlM takePool (0, state.remaining)
  pure st.1

namespace DB

variable (db : DB) (env : Env)

/-- The enabled hosts of a run. -/
def enabledHosts (runId : Id) : List Id :=
  ((db .runHost).rows.filter fun h => h.runId == runId && h.enabled).map (·.hostId)

/-- What remains of a limit. -/
def remainingUnits (limit : ResourceLimit) : Option Nat :=
  limit.maximum.map (· - db.claimedUnits limit.id)

/-- The pool of a slot. -/
def pool (slot : Slot) : Pool :=
  let occupied := db.busyWeight env.now (onSlot slot.hostId slot.harnessId)
  { hostId := slot.hostId, harnessId := slot.harnessId
    slots := slot.executionSlots, occupied := occupied, freeSlots := slot.executionSlots - occupied
    sharedLimitIds := slot.limits.map (·.id)
    sharedResourcesAvailable := slot.limits.all fun l => (db.remainingUnits l).all (0 < ·) }

/-- The capacity part of `summary`. -/
def summary (runId : Id) : CapacitySummary :=
  let slots := db.capacity env (db.enabledHosts runId)
  { healthyCapacityPools := slots.map (db.pool env)
    sharedResources := (slots.flatMap (·.limits)).eraseDups.map fun l =>
      ⟨l.id, l.kind, db.remainingUnits l⟩ }

end DB

/-! ## Ready owners -/

/-- What `planning_needed` reads from outside the modelled tables. -/
structure PlanningReadings where
  /-- `new_assignment_blocker` of the summary. -/
  newAssignmentBlocker : Option String
  /-- `readiness` of an assignment. -/
  ready : Assignment → Bool
  /-- Whether an assignment retains a session. -/
  retained : Assignment → Bool
  /-- `admission_blocker` of an assignment on one slot. -/
  blocked : Assignment → Slot → Bool
  /-- `awaiting_evidence`. -/
  awaitingEvidence : Bool
  /-- `_latest_frontier_result`. -/
  frontierAt : Option Instant

/-- What a preview has left to place owners on. -/
structure Preview where
  poolRemaining : Id × Id → Nat
  remaining : Remaining

/-- `any(remaining.get(identifier, 0) < 1 for identifier in limits)`. -/
def anyExhausted (remaining : Remaining) : List Id → Except PreviewError Bool
  | [] => .ok false
  | id :: rest => match (remaining id).getD (some 0) with
    | none => .error .typeError
    | some k => if k < 1 then .ok true else anyExhausted remaining rest

/-- Whether a slot has nothing left for another owner. -/
def slotFull (st : Preview) (slot : Slot) : Except PreviewError Bool :=
  if st.poolRemaining (slot.hostId, slot.harnessId) < 1 then .ok true
  else anyExhausted st.remaining (slot.limits.map (·.id))

/-- The loop over slots: the preview after an owner is placed, if one slot takes it. -/
def placeOwner (readings : PlanningReadings) (row : Assignment) (st : Preview) :
    List Slot → Except PreviewError (Option Preview)
  | [] => .ok none
  | slot :: rest => do
    let pool := (slot.hostId, slot.harnessId)
    let full ← slotFull st slot
    if full || readings.blocked row slot then placeOwner readings row st rest
    else do
      let remaining ← (slot.limits.map (·.id)).foldlM
          (fun r id => Remaining.subtract r id 1) st.remaining
      pure (some ⟨Function.update st.poolRemaining pool (st.poolRemaining pool - 1), remaining⟩)

/-- The loop over owners: how many are ready and placed, up to `free`. -/
def countReady (readings : PlanningReadings) (slots : List Slot) (free : Nat) :
    List Assignment → Preview → Nat → Except PreviewError Nat
  | [], _, ready => .ok ready
  | row :: rows, st, ready =>
    if !readings.ready row then countReady readings slots free rows st ready
    else do
      match ← placeOwner readings row st slots with
      | none => if free ≤ ready then pure ready else countReady readings slots free rows st ready
      | some st' =>
        if free ≤ ready + 1 then pure (ready + 1)
        else countReady readings slots free rows st' (ready + 1)

namespace DB

variable (db : DB) (env : Env) (readings : PlanningReadings)

/-- The sort key of an owner: `(no retained session, no harness)`, as a number. -/
def ownerRank (a : Assignment) : Nat :=
  (if readings.retained a then 0 else 2) + if a.harnessId.isSome then 0 else 1

/-- The pending owners of a run besides a candidate, retained and constrained ones first. -/
def pendingOwners (run : Run) (candidate : Assignment) : List Assignment :=
  ((db .assignment).rows.filter fun a => a.runId == run.id && a.id != candidate.id
    && a.status == .pending && !a.functions.contains .planner).insertionSort fun a b =>
      ownerRank readings a ≤ ownerRank readings b

/-- What `planning_needed` answers once the ready owners are counted. -/
def planningAnswer (run : Run) (candidate : Assignment) (rule : Option Automation)
    (free ready : Nat) : Evaluation :=
  let newDecision := (db .obligation).rows.any fun o =>
    o.assignmentId == candidate.id && o.status == .opened
    && (o.kind == .decision || o.kind == .blocker)
  let finished := fun since : Instant => (db .assignment).rows.any fun a => a.runId == run.id
    && a.automationId.isNone && !a.functions.contains .planner && a.finishedAt.any (since < ·)
  if free ≤ ready then
    { truth := .false
      reason := toString ready ++ " ready owners can fill " ++ toString free ++ " available slots" }
  else if rule.isSome && !newDecision && readings.awaitingEvidence then
    { truth := .false, reason := "Coordination decision recorded; waiting for follow-up evidence" }
  else if rule.any fun r => r.noProgressCount != 0 && !readings.frontierAt.any (r.updatedAt < ·)
      && !finished r.updatedAt then
    { truth := .false, reason := "Waiting for changed work after an unproductive planning pass" }
  else
    { truth := .true
      reason := toString free ++ " usable slots and only " ++ toString ready
        ++ " ready owners; review the work frontier" }

/-- What the preview of a run starts from. -/
def preview (runId : Id) : Preview where
  poolRemaining pool := (((db.summary env runId).healthyCapacityPools.find? fun p =>
    (p.hostId, p.harnessId) = pool).map (·.freeSlots)).getD 0
  remaining := (db.summary env runId).remaining

/-- `planning_needed`, for a run and the rule of the candidate. -/
def planningNeeded (run : Run) (candidate : Assignment) (rule : Option Automation) :
    Except PreviewError Evaluation :=
  let state := db.summary env run.id
  match readings.newAssignmentBlocker with
  | some blocker => pure { truth := .false, reason := blocker }
  | none => do
    let free ← usableSlots state
    if free = 0 then
      pure { truth := .false, reason := "Productive owners already occupy usable capacity" }
    else
      let slots :=
        (db.capacity env (state.healthyCapacityPools.map (·.hostId))).insertionSort fun s t =>
        s.limits.length ≤ t.limits.length
      let ready ← countReady readings slots free (db.pendingOwners readings run candidate)
        (db.preview env run.id) 0
      pure (db.planningAnswer readings run candidate rule free ready)

end DB

/-! ## Placements -/

namespace Remaining

variable {remaining remaining' : Remaining} {ids : List Id} {count : Nat}

/-- None of some entries holds `None`. -/
def Capped (remaining : Remaining) (ids : List Id) : Prop := ∀ id ∈ ids, remaining id ≠ some none

/-- The units of an entry, `remaining.get(identifier, 0)`. -/
def units (remaining : Remaining) (id : Id) : Nat := ((remaining id).getD (some 0)).getD 0

/-- The same entries, some of which hold fewer units. -/
structure Lowered (remaining remaining' : Remaining) : Prop where
  entries : ∀ id, (remaining' id).isSome = (remaining id).isSome
  uncapped : ∀ id, remaining' id = some none ↔ remaining id = some none
  units : ∀ id, remaining'.units id ≤ remaining.units id

theorem Lowered.capped (h : remaining.Lowered remaining') :
    remaining'.Capped ids ↔ remaining.Capped ids :=
  forall₂_congr fun id _ => not_congr (h.uncapped id)

theorem Lowered.trans {remaining'' : Remaining} (h : remaining.Lowered remaining')
    (h' : remaining'.Lowered remaining'') : remaining.Lowered remaining'' :=
  ⟨fun id => (h'.entries id).trans (h.entries id), fun id => (h'.uncapped id).trans (h.uncapped id),
    fun id => (h'.units id).trans (h.units id)⟩

theorem getD_eq {id : Id} (h : remaining id ≠ some none) :
    (remaining id).getD (some 0) = some (remaining.units id) := by
  unfold units
  cases hid : remaining id with
  | none => rfl
  | some value =>
    cases value with
    | none => exact absurd hid h
    | some k => rfl

theorem getD_uncapped {id : Id} (h : remaining id = some none) :
    (remaining id).getD (some 0) = none := by
  rw [h]
  rfl

/-- Subtracting once. -/
theorem subtract_eq_ok {id : Id} (h : remaining.subtract id count = .ok remaining') :
    remaining.Lowered remaining' ∧ remaining id ≠ some none
      ∧ ∀ id', remaining'.units id' = if id' = id then remaining.units id - count
        else remaining.units id' := by
  unfold subtract at h
  cases hid : remaining id with
  | none => simp [hid] at h
  | some value =>
    cases value with
    | none => simp [hid] at h
    | some k =>
      simp only [hid, Except.ok.injEq] at h
      subst h
      have hunits : ∀ id', units (Function.update remaining id (some (some (k - count)))) id'
          = if id' = id then remaining.units id - count else remaining.units id' := by
        intro id'
        by_cases he : id' = id
        · subst he
          simp [units, hid]
        · simp [units, he]
      refine ⟨⟨fun id' => ?_, fun id' => ?_, fun id' => ?_⟩, by simp, hunits⟩
      · by_cases he : id' = id
        · simp [he, hid]
        · simp [he]
      · by_cases he : id' = id
        · simp [he, hid]
        · simp [he]
      · rw [hunits]
        split
        · rename_i he
          rw [he]
          exact Nat.sub_le _ _
        · exact Nat.le_refl _

theorem subtract_isOk {id : Id} (hsome : (remaining id).isSome) (h : remaining id ≠ some none)
    (count : Nat) :
    ∃ remaining', remaining.subtract id count = .ok remaining' := by
  unfold subtract
  obtain ⟨value, hvalue⟩ := Option.isSome_iff_exists.mp hsome
  cases value with
  | none => exact absurd hvalue h
  | some k => exact ⟨_, by rw [hvalue]⟩

/-- Subtracting from several entries. -/
theorem subtracts_eq_ok
    (h : ids.foldlM (fun r id => subtract r id count) remaining = .ok remaining') :
    remaining.Lowered remaining' := by
  induction ids generalizing remaining with
  | nil =>
    cases h
    exact ⟨fun _ => rfl, fun _ => .rfl, fun _ => Nat.le_refl _⟩
  | cons id ids ih =>
    rw [foldlM_cons, check_bind_eq_ok] at h
    obtain ⟨remaining₁, hsub, h⟩ := h
    exact (subtract_eq_ok hsub).1.trans (ih h)

/-- Subtracting from distinct entries that are there and capped. -/
theorem subtracts_isOk (h : remaining.Capped ids) (hnodup : ids.Nodup)
    (hmem : ∀ id ∈ ids, (remaining id).isSome) (count : Nat) :
    ∃ remaining', ids.foldlM (fun r id => subtract r id count) remaining = .ok remaining'
      ∧ ∀ id, remaining'.units id
        = if id ∈ ids then remaining.units id - count else remaining.units id := by
  induction ids generalizing remaining with
  | nil => exact ⟨remaining, rfl, fun _ => rfl⟩
  | cons id ids ih =>
    obtain ⟨hid, hnodup⟩ := nodup_cons.mp hnodup
    obtain ⟨remaining₁, hsub⟩ := subtract_isOk (hmem id mem_cons_self) (h id mem_cons_self) count
    obtain ⟨hlow, -, hunits₁⟩ := subtract_eq_ok hsub
    obtain ⟨remaining', hrun, hunits⟩ :=
      ih (hlow.capped.mpr fun id' hid' => h id' (mem_cons_of_mem id hid')) hnodup fun id' hid' => by
        rw [hlow.entries]
        exact hmem id' (mem_cons_of_mem id hid')
    refine ⟨remaining', ?_, fun id' => ?_⟩
    · rw [foldlM_cons, check_bind_eq_ok]
      exact ⟨remaining₁, hsub, hrun⟩
    · rw [hunits, hunits₁]
      by_cases he : id' = id
      · subst he
        simp [hid]
      · simp [he]

end Remaining

variable {remaining : Remaining}

/-- `min` of what remains is what fits, unless some entry holds `None`. -/
theorem minimum_eq (n : Nat) {ids : List Id} (h : remaining.Capped ids) :
    minimum n (ids.map fun id => (remaining id).getD (some 0))
      = .ok (ids.foldl (fun n id => min n (remaining.units id)) n) := by
  induction ids generalizing n with
  | nil => rfl
  | cons id ids ih =>
    rw [map_cons, Remaining.getD_eq (h id mem_cons_self), minimum,
      ih _ fun id' hid' => h id' (mem_cons_of_mem id hid')]
    rfl

theorem capped_of_minimum {n k : Nat} {ids : List Id}
    (h : minimum n (ids.map fun id => (remaining id).getD (some 0)) = .ok k) :
    remaining.Capped ids := by
  induction ids generalizing n with
  | nil => exact fun id hid => absurd hid not_mem_nil
  | cons id ids ih =>
    by_cases hnone : remaining id = some none
    · rw [map_cons, Remaining.getD_uncapped hnone] at h
      cases h
    · rw [map_cons, Remaining.getD_eq hnone] at h
      intro id' hid'
      rcases mem_cons.mp hid' with rfl | hid'
      · exact hnone
      · exact ih h id' hid'

/-- What the available pools are allotted, one after another. -/
def allotted (remaining : Remaining) (pools : List Pool) : List (Pool × Nat) :=
  allot Pool.freeSlots Pool.sharedLimitIds remaining.units
    (pools.filter (·.sharedResourcesAvailable))

/-- A pool of which the limits are distinct, known and, if it is available, capped. -/
structure Pool.IsCapped (remaining : Remaining) (pool : Pool) : Prop where
  nodup : pool.sharedLimitIds.Nodup
  entries : ∀ id ∈ pool.sharedLimitIds, (remaining id).isSome
  capped : pool.sharedResourcesAvailable → remaining.Capped pool.sharedLimitIds

/-- The loop of `usable_slots` adds up an allotment. -/
theorem takePools_eq {pools : List Pool} (hpools : ∀ p ∈ pools, p.IsCapped remaining) (free : Nat) :
    ∃ remaining', pools.foldlM takePool (free, remaining)
      = .ok (free + ((allotted remaining pools).map Prod.snd).sum, remaining') := by
  induction pools generalizing free remaining with
  | nil => exact ⟨remaining, rfl⟩
  | cons p pools ih =>
    have hrest : ∀ q ∈ pools, q.IsCapped remaining := fun q hq => hpools q (mem_cons_of_mem p hq)
    rw [foldlM_cons]
    by_cases hp : p.sharedResourcesAvailable
    · obtain ⟨hnodup, hmem, hcap⟩ := hpools p mem_cons_self
      obtain ⟨remaining₁, hrun, hunits⟩ := Remaining.subtracts_isOk (hcap hp) hnodup hmem
        (fit Pool.freeSlots Pool.sharedLimitIds remaining.units p)
      have hlow := Remaining.subtracts_eq_ok hrun
      have htake : takePool (free, remaining) p
          = .ok (free + fit Pool.freeSlots Pool.sharedLimitIds remaining.units p, remaining₁) := by
        rw [takePool, if_neg (by simp [hp])]
        refine check_bind_eq_ok.mpr ⟨_, minimum_eq _ (hcap hp), ?_⟩
        exact check_bind_eq_ok.mpr ⟨remaining₁, hrun, rfl⟩
      have hspend : remaining₁.units = spend Pool.sharedLimitIds remaining.units p
          (fit Pool.freeSlots Pool.sharedLimitIds remaining.units p) := funext hunits
      have hrest₁ : ∀ q ∈ pools, q.IsCapped remaining₁ := fun q hq =>
        ⟨(hrest q hq).nodup, fun id hid => by rw [hlow.entries]; exact (hrest q hq).entries id hid,
          fun hq' => hlow.capped.mpr ((hrest q hq).capped hq')⟩
      obtain ⟨remaining₂, hrest⟩ := ih hrest₁
        (free + fit Pool.freeSlots Pool.sharedLimitIds remaining.units p)
      refine ⟨remaining₂, check_bind_eq_ok.mpr ⟨_, htake, ?_⟩⟩
      rw [hrest]
      simp only [allotted, hp, filter_cons_of_pos, allot, map_cons, sum_cons, hspend, Nat.add_assoc]
    · obtain ⟨remaining₂, hrest⟩ := ih hrest free
      have htake : takePool (free, remaining) p = .ok (free, remaining) := by
        simp only [takePool, Bool.eq_false_iff.mpr hp, Bool.not_false, if_true]
      refine ⟨remaining₂, check_bind_eq_ok.mpr ⟨_, htake, ?_⟩⟩
      rw [hrest]
      simp only [allotted, hp, filter_cons_of_neg, not_false_eq_true, Bool.false_eq_true]

/-- A pool that is taken is capped, and no entry becomes or stops being so. -/
theorem takePool_eq_ok {st st' : Nat × Remaining} {p : Pool} (h : takePool st p = .ok st') :
    (p.sharedResourcesAvailable → st.2.Capped p.sharedLimitIds) ∧ ∀ ids, st'.2.Capped ids ↔
      st.2.Capped ids := by
  unfold takePool at h
  split at h
  · rename_i hp
    cases h
    exact ⟨fun hav => by simp [hav] at hp, fun _ => .rfl⟩
  · obtain ⟨count, hmin, h⟩ := check_bind_eq_ok.mp h
    obtain ⟨remaining', hsub, h⟩ := check_bind_eq_ok.mp h
    cases h
    exact ⟨fun _ => capped_of_minimum hmin, fun _ => (Remaining.subtracts_eq_ok hsub).capped⟩

/-- Where `usable_slots` returns, the available pools are capped. -/
theorem capped_of_takePools {pools : List Pool} {st st' : Nat × Remaining}
    (h : pools.foldlM takePool st = .ok st') {p : Pool} (hp : p ∈ pools)
    (havailable : p.sharedResourcesAvailable) : st.2.Capped p.sharedLimitIds := by
  induction pools generalizing st with
  | nil => cases hp
  | cons q pools ih =>
    rw [foldlM_cons, check_bind_eq_ok] at h
    obtain ⟨st₁, htake, h⟩ := h
    obtain ⟨hcapped, hsame⟩ := takePool_eq_ok htake
    rcases mem_cons.mp hp with rfl | hp
    · exact hcapped havailable
    · exact (hsame _).mp (ih h hp)

/-- A number of sessions for each pool, all at once. -/
structure Feasible (state : CapacitySummary) (placement : List (Pool × Nat)) : Prop where
  pools : (placement.map Prod.fst).Perm state.healthyCapacityPools
  slots : ∀ x ∈ placement, x.2 ≤ x.1.freeSlots
  limits : ∀ r ∈ state.sharedResources, ∀ units, r.remaining = some units →
    total Prod.snd (fun x => decide (r.id ∈ x.1.sharedLimitIds)) placement ≤ units

/-- Where the available pools are capped, `usable_slots` returns the size of a feasible
placement. -/
theorem usableSlots_feasible {state : CapacitySummary}
    (hpools : ∀ p ∈ state.healthyCapacityPools, p.IsCapped state.remaining)
    (hunits : ∀ r ∈ state.sharedResources, ∀ units, r.remaining = some units →
      state.remaining.units r.id = units) :
    ∃ placement, Feasible state placement
      ∧ usableSlots state = .ok (placement.map Prod.snd).sum := by
  have hperm : (sortedPools state.healthyCapacityPools).Perm state.healthyCapacityPools :=
    perm_insertionSort _ _
  obtain ⟨_, hrun⟩ := takePools_eq (fun p hp => hpools p (hperm.mem_iff.mp hp)) 0
  -- The pools that are not available take nothing.
  let others := (sortedPools state.healthyCapacityPools).filter (!·.sharedResourcesAvailable)
  refine ⟨allotted state.remaining (sortedPools state.healthyCapacityPools) ++ others.map (·, 0),
    ⟨?_, ?_, ?_⟩, ?_⟩
  · have hsplit : ((sortedPools state.healthyCapacityPools).filter (·.sharedResourcesAvailable)
        ++ others).Perm (sortedPools state.healthyCapacityPools) := filter_append_perm _ _
    simpa [allotted, Function.comp_def] using hsplit.trans hperm
  · intro x hx
    rcases mem_append.mp hx with hx | hx
    · exact allot_le_room hx
    · obtain ⟨p, -, rfl⟩ := mem_map.mp hx
      exact Nat.zero_le _
  · intro r hr units hr'
    have hothers : total Prod.snd (fun x : Pool × Nat => decide (r.id ∈ x.1.sharedLimitIds))
        (others.map (·, 0)) = 0 := by
      induction others with
      | nil => rfl
      | cons p others ih => simp [total_cons, ih]
    rw [total_append, hothers, Nat.add_zero, ← hunits r hr units hr']
    exact allot_le_left r.id
  · have hothers : ((others.map fun p => (p, 0)).map Prod.snd).sum = 0 := by
      induction others with
      | nil => rfl
      | cons p others ih => simpa using ih
    rw [map_append, sum_append, hothers, Nat.add_zero, usableSlots, check_bind_eq_ok]
    exact ⟨_, hrun, by rw [Nat.zero_add]; rfl⟩

/-! ## Previews of a database -/

section

variable {db : DB} {env : Env} {runId : Id}

/-- Reading limits in order, an exhausted one comes before any without a maximum. -/
def DB.readable (db : DB) : List ResourceLimit → Bool
  | [] => true
  | l :: limits => (db.remainingUnits l).any fun units => decide (units < 1) || db.readable limits

/-- Whether `planning_needed` has owners to place. -/
def DB.hasOwner (db : DB) (runId : Id) : Bool :=
  (db .assignment).rows.any fun a => a.runId == runId && a.status == .pending
    && !a.functions.contains .planner

/-- What the capacity preview of a run can be read from: the limits of a slot whose resources are
available have maxima; where owners are to be placed, those of a slot with room are readable. -/
structure DB.CanPreview (db : DB) (env : Env) (runId : Id) : Prop where
  pools : ∀ slot ∈ db.capacity env (db.enabledHosts runId),
    (db.pool env slot).sharedResourcesAvailable = true → ∀ l ∈ slot.limits, l.maximum ≠ none
  owners : usableSlots (db.summary env runId) ≠ .ok 0 → db.hasOwner runId = true →
    ∀ slot ∈ db.capacity env (db.enabledHosts runId), 0 < (db.pool env slot).freeSlots →
    db.readable slot.limits = true

theorem DB.limits_of_mem_capacity (h : slot ∈ db.capacity env hostIds) :
    slot.limits = db.attachedLimits slot.hostId slot.harnessId := by
  obtain ⟨row, -, rfl⟩ := mem_map.mp (mem_filter.mp h).1
  rfl

theorem DB.mem_sharedResources :
    r ∈ (db.summary env runId).sharedResources ↔ ∃ slot ∈ db.capacity env (db.enabledHosts runId),
      ∃ l ∈ slot.limits, r = ⟨l.id, l.kind, db.remainingUnits l⟩ := by
  simp only [summary, mem_map, mem_eraseDups, mem_flatMap]
  constructor
  · rintro ⟨l, ⟨slot, hslot, hl⟩, rfl⟩
    exact ⟨slot, hslot, l, hl, rfl⟩
  · rintro ⟨slot, hslot, l, hl, rfl⟩
    exact ⟨l, ⟨slot, hslot, hl⟩, rfl⟩

/-- The resources of one identifier are one limit's. -/
theorem DB.sharedResource_unique {r' : SharedResource}
    (hr : r ∈ (db.summary env runId).sharedResources)
    (hr' : r' ∈ (db.summary env runId).sharedResources) (hid : r.id = r'.id) : r = r' := by
  obtain ⟨_, hslot, l, hl, rfl⟩ := mem_sharedResources.mp hr
  obtain ⟨_, hslot', l', hl', rfl⟩ := mem_sharedResources.mp hr'
  rw [limits_of_mem_capacity hslot] at hl
  rw [limits_of_mem_capacity hslot'] at hl'
  have hsame : l = l' :=
    (db .resourceLimit).eq_of_key (mem_filter.mp hl).1 (mem_filter.mp hl').1 hid
  rw [hsame]

/-- An entry of a summary is a limit's. -/
theorem DB.remaining_eq (hr : r ∈ (db.summary env runId).sharedResources) :
    (db.summary env runId).remaining r.id = some r.remaining := by
  unfold CapacitySummary.remaining
  cases hfind : (db.summary env runId).sharedResources.find? (·.id = r.id) with
  | none => simpa using find?_eq_none.mp hfind r hr
  | some r' =>
    have hid : r'.id = r.id := by simpa using find?_some hfind
    rw [sharedResource_unique (mem_of_find?_eq_some hfind) hr hid]
    rfl

/-- The entry of a limit of a slot of the run's hosts. -/
theorem DB.remaining_limit (h : slot ∈ db.capacity env (db.enabledHosts runId)) {l : ResourceLimit}
    (hl : l ∈ slot.limits) : (db.summary env runId).remaining l.id = some (db.remainingUnits l) :=
  remaining_eq (mem_sharedResources.mpr ⟨slot, h, l, hl, rfl⟩)

theorem DB.limits_nodup (h : slot ∈ db.capacity env hostIds) : (slot.limits.map (·.id)).Nodup := by
  rw [limits_of_mem_capacity h]
  exact ((filter_sublist).map _).nodup (db .resourceLimit).nodup

/-- The entries of a slot hold no `None` just when its limits have maxima. -/
theorem DB.capped_iff (h : slot ∈ db.capacity env (db.enabledHosts runId)) :
    (db.summary env runId).remaining.Capped (slot.limits.map (·.id)) ↔
      ∀ l ∈ slot.limits, l.maximum ≠ none := by
  simp only [Remaining.Capped, mem_map, forall_exists_index, and_imp, forall_apply_eq_imp_iff₂]
  refine forall₂_congr fun l hl => ?_
  rw [remaining_limit h hl, remainingUnits]
  simp

/-- The pools of a run are capped where the limits of the available ones have maxima. -/
theorem DB.pool_isCapped (h : ∀ slot ∈ db.capacity env (db.enabledHosts runId),
      (db.pool env slot).sharedResourcesAvailable = true → ∀ l ∈ slot.limits, l.maximum ≠ none)
    {p : Pool} (hp : p ∈ (db.summary env runId).healthyCapacityPools) :
    p.IsCapped (db.summary env runId).remaining := by
  obtain ⟨slot, hslot, rfl⟩ := mem_map.mp hp
  refine ⟨limits_nodup hslot, fun id hid => ?_, fun hav =>
    (capped_iff hslot).mpr (h slot hslot hav)⟩
  obtain ⟨l, hl, rfl⟩ := mem_map.mp hid
  rw [remaining_limit hslot hl]
  rfl

/-! ### Ready owners -/

theorem capped_of_anyExhausted {ids : List Id} (h : anyExhausted remaining ids = .ok false) :
    remaining.Capped ids ∧ ∀ id ∈ ids, (remaining id).isSome := by
  induction ids with
  | nil => exact ⟨fun id hid => absurd hid not_mem_nil, fun id hid => absurd hid not_mem_nil⟩
  | cons id ids ih =>
    rw [anyExhausted] at h
    by_cases hnone : remaining id = some none
    · rw [Remaining.getD_uncapped hnone] at h
      cases h
    · rw [Remaining.getD_eq hnone] at h
      by_cases hk : remaining.units id < 1
      · simp [hk] at h
      · obtain ⟨hcapped, hsome⟩ := ih (by simpa [hk] using h)
        refine ⟨fun id' hid' => ?_, fun id' hid' => ?_⟩ <;> rcases mem_cons.mp hid' with rfl | hid'
        · exact hnone
        · exact hcapped id' hid'
        · cases hid : remaining id' with
          | none => simp [Remaining.units, hid] at hk
          | some _ => rfl
        · exact hsome id' hid'

/-- Entries that could be read can still be read once some of them were lowered. -/
theorem anyExhausted_lowered {remaining' : Remaining} (hlow : remaining.Lowered remaining')
    {ids : List Id}
    (h : ∃ full, anyExhausted remaining ids = .ok full) :
    ∃ full, anyExhausted remaining' ids = .ok full := by
  induction ids with
  | nil => exact ⟨false, rfl⟩
  | cons id ids ih =>
    obtain ⟨full, h⟩ := h
    rw [anyExhausted] at h ⊢
    by_cases hnone : remaining id = some none
    · rw [Remaining.getD_uncapped hnone] at h
      cases h
    · rw [Remaining.getD_eq hnone] at h
      rw [Remaining.getD_eq (mt (hlow.uncapped id).mp hnone)]
      have hle := hlow.units id
      by_cases hk : remaining'.units id < 1
      · exact ⟨true, by simp [hk]⟩
      · have hk' : ¬ remaining.units id < 1 := by omega
        simp only [hk, hk', if_false] at h ⊢
        exact ih ⟨full, h⟩

/-- What is left of a preview. -/
structure Preview.Lowered (st st' : Preview) : Prop where
  pools : ∀ pool, st'.poolRemaining pool ≤ st.poolRemaining pool
  remaining : st.remaining.Lowered st'.remaining

theorem Preview.Lowered.slotFull {st st' : Preview} (hlow : st.Lowered st')
    (h : ∃ full, slotFull st slot = .ok full) : ∃ full, slotFull st' slot = .ok full := by
  unfold Horizon.slotFull at h ⊢
  have hle := hlow.pools (slot.hostId, slot.harnessId)
  split
  · exact ⟨true, rfl⟩
  · rw [if_neg (by omega)] at h
    exact anyExhausted_lowered hlow.remaining h

/-- Placing an owner raises no error where the slots can be read. -/
theorem placeOwner_ok (readings : PlanningReadings) (row : Assignment) {st : Preview}
    (h : ∀ slot ∈ slots, ∃ full, slotFull st slot = .ok full)
    (hslots : ∀ slot ∈ slots, (slot.limits.map (·.id)).Nodup) :
    ∃ st', placeOwner readings row st slots = .ok st' ∧ ∀ st₁, st' = some st₁ → st.Lowered st₁ := by
  induction slots with
  | nil => exact ⟨none, rfl, fun st₁ h => by cases h⟩
  | cons slot slots ih =>
    have hrest := ih (fun slot' hs => h slot' (mem_cons_of_mem slot hs))
      fun slot' hs => hslots slot' (mem_cons_of_mem slot hs)
    obtain ⟨full, hfull⟩ := h slot mem_cons_self
    simp only [placeOwner, check_bind_eq_ok, hfull, Except.ok.injEq, exists_eq_left']
    by_cases hskip : (full || readings.blocked row slot)
    · simp only [if_pos hskip]
      exact hrest
    · simp only [if_neg hskip]
      rw [Bool.or_eq_true, not_or, Bool.not_eq_true] at hskip
      obtain ⟨hcapped, hsome⟩ : st.remaining.Capped (slot.limits.map (·.id))
          ∧ ∀ id ∈ slot.limits.map (·.id), (st.remaining id).isSome := by
        rw [hskip.1, slotFull] at hfull
        split at hfull
        · cases hfull
        · exact capped_of_anyExhausted hfull
      obtain ⟨remaining', hrun, -⟩ :=
        Remaining.subtracts_isOk hcapped (hslots slot mem_cons_self) hsome 1
      refine ⟨some ⟨_, remaining'⟩, check_bind_eq_ok.mpr ⟨_, hrun, rfl⟩, fun st₁ he => ?_⟩
      cases he
      refine ⟨fun pool => ?_, Remaining.subtracts_eq_ok hrun⟩
      by_cases hpool : pool = (slot.hostId, slot.harnessId)
      · subst hpool
        simp
      · simp [hpool]

theorem countReady_ok (readings : PlanningReadings) (free : Nat)
    (hslots : ∀ slot ∈ slots, (slot.limits.map (·.id)).Nodup) (rows : List Assignment)
    (st : Preview)
    (h : ∀ slot ∈ slots, ∃ full, slotFull st slot = .ok full) (ready : Nat) :
    ∃ n, countReady readings slots free rows st ready = .ok n := by
  induction rows generalizing st ready with
  | nil => exact ⟨ready, rfl⟩
  | cons row rows ih =>
    rw [countReady]
    split
    · exact ih st h ready
    · obtain ⟨st', hplace, hlow⟩ := placeOwner_ok readings row h hslots
      rw [hplace]
      cases st' with
      | none =>
        change ∃ n, (if free ≤ ready then pure ready else _) = _
        split
        · exact ⟨ready, rfl⟩
        · exact ih st h ready
      | some st₁ =>
        change ∃ n, (if free ≤ ready + 1 then pure (ready + 1) else _) = _
        split
        · exact ⟨ready + 1, rfl⟩
        · exact ih st₁ (fun slot hslot => (hlow st₁ rfl).slotFull (h slot hslot)) (ready + 1)

/-- What is read when every owner is ready and every slot is blocked for it. -/
def blockedReadings : PlanningReadings :=
  ⟨none, fun _ => true, fun _ => false, fun _ _ => true, false, none⟩

/-- An owner that no slot admits is looked up on all of them. -/
theorem slotFull_of_placeOwner {row : Assignment} {st : Preview} {st' : Option Preview}
    (h : placeOwner blockedReadings row st slots = .ok st') :
    ∀ slot ∈ slots, ∃ full, slotFull st slot = .ok full := by
  induction slots with
  | nil => exact fun slot hslot => absurd hslot not_mem_nil
  | cons slot slots ih =>
    obtain ⟨full, hfull, h⟩ := check_bind_eq_ok.mp h
    rw [blockedReadings, if_pos (Bool.or_true full)] at h
    intro slot' hslot'
    rcases mem_cons.mp hslot' with rfl | hslot'
    · exact ⟨full, hfull⟩
    · exact ih h slot' hslot'

theorem slotFull_of_countReady {free ready n : Nat} {rows : List Assignment} {st : Preview}
    (hrows : rows ≠ []) (h : countReady blockedReadings slots free rows st ready = .ok n) :
    ∀ slot ∈ slots, ∃ full, slotFull st slot = .ok full := by
  obtain ⟨row, rows, rfl⟩ := exists_cons_of_ne_nil hrows
  rw [countReady, if_neg (by simp [blockedReadings])] at h
  obtain ⟨st', hplace, -⟩ := check_bind_eq_ok.mp h
  exact slotFull_of_placeOwner hplace

/-! ### The slots of a run -/

theorem DB.mem_capacity : slot ∈ db.capacity env hostIds ↔
    hostIds.contains slot.hostId = true ∧ slot ∈ db.capacity env [slot.hostId] := by
  simp only [capacity, mem_filter, mem_map, Bool.and_eq_true]
  constructor
  · rintro ⟨⟨row, ⟨hrow, ⟨⟨hhost, henabled⟩, hhealthy⟩, hharness⟩, rfl⟩, hlimits⟩
    exact ⟨hhost, ⟨row, ⟨hrow, ⟨⟨by simp, henabled⟩, hhealthy⟩, hharness⟩, rfl⟩, hlimits⟩
  · rintro ⟨hhost, ⟨row, ⟨hrow, ⟨⟨hsame, henabled⟩, hhealthy⟩, hharness⟩, rfl⟩, hlimits⟩
    exact ⟨⟨row, ⟨hrow, ⟨⟨hhost, henabled⟩, hhealthy⟩, hharness⟩, rfl⟩, hlimits⟩

/-- The slots that `planning_needed` looks at are those of the run. -/
theorem DB.mem_planningSlots :
    slot ∈ db.capacity env ((db.summary env runId).healthyCapacityPools.map (·.hostId))
    ↔ slot ∈ db.capacity env (db.enabledHosts runId) := by
  rw [mem_capacity, @mem_capacity _ (db.enabledHosts runId)]
  refine and_congr_left fun hslot => ?_
  simp only [contains_iff_mem, summary, map_map, mem_map, Function.comp_apply]
  constructor
  · rintro ⟨slot', hslot', hid⟩
    have hhost := (mem_capacity.mp hslot').1
    rw [contains_iff_mem] at hhost
    change slot'.hostId = slot.hostId at hid
    rwa [hid] at hhost
  · intro hhost
    exact ⟨slot, mem_capacity.mpr ⟨contains_iff_mem.mpr hhost, hslot⟩, rfl⟩

/-- Slots of one host and harness are one slot. -/
theorem DB.slot_unique {slot' : Slot} (h : slot ∈ db.capacity env hostIds)
    (h' : slot' ∈ db.capacity env hostIds)
    (hhost : slot'.hostId = slot.hostId) (hharness : slot'.harnessId = slot.harnessId) :
    slot' = slot := by
  obtain ⟨row, hrow, rfl⟩ := mem_map.mp (mem_filter.mp h).1
  obtain ⟨row', hrow', rfl⟩ := mem_map.mp (mem_filter.mp h').1
  have hsame : row' = row :=
    (db .hostHarness).eq_of_key (mem_filter.mp hrow').1 (mem_filter.mp hrow).1
    (Prod.ext hhost hharness)
  rw [hsame]

theorem DB.preview_pool (h : slot ∈ db.capacity env (db.enabledHosts runId)) :
    (db.preview env runId).poolRemaining (slot.hostId, slot.harnessId)
      = (db.pool env slot).freeSlots := by
  unfold preview
  dsimp only
  cases hfind : (db.summary env runId).healthyCapacityPools.find?
      fun p => (p.hostId, p.harnessId) = (slot.hostId, slot.harnessId) with
  | none =>
    exact absurd (decide_eq_true rfl) (find?_eq_none.mp hfind _ (mem_map.mpr ⟨slot, h, rfl⟩))
  | some p =>
    obtain ⟨slot', hslot', rfl⟩ := mem_map.mp (mem_of_find?_eq_some hfind)
    have hkey : slot'.hostId = slot.hostId ∧ slot'.harnessId = slot.harnessId := by
      simpa [DB.pool] using find?_some hfind
    rw [slot_unique h hslot' hkey.1 hkey.2]
    rfl

theorem DB.anyExhausted_iff {limits : List ResourceLimit}
    (h : ∀ l ∈ limits, (db.summary env runId).remaining l.id = some (db.remainingUnits l)) :
    (∃ full, anyExhausted (db.summary env runId).remaining (limits.map (·.id)) = .ok full)
      ↔ db.readable limits = true := by
  induction limits with
  | nil => exact ⟨fun _ => rfl, fun _ => ⟨false, rfl⟩⟩
  | cons l limits ih =>
    rw [map_cons, anyExhausted, readable, h l mem_cons_self, Option.getD_some]
    cases hunits : db.remainingUnits l with
    | none => simp
    | some units =>
      rw [Option.any_some, Bool.or_eq_true, decide_eq_true_iff]
      by_cases hk : units < 1
      · simp [hk]
      · simp only [hk, if_false, false_or]
        exact ih fun l' hl' => h l' (mem_cons_of_mem l hl')

/-- A slot can be read at first just when it has no room or its limits are readable. -/
theorem DB.slotFull_iff (h : slot ∈ db.capacity env (db.enabledHosts runId)) :
    (∃ full, slotFull (db.preview env runId) slot = .ok full)
      ↔ (0 < (db.pool env slot).freeSlots → db.readable slot.limits = true) := by
  rw [slotFull, preview_pool h]
  split
  · rename_i hroom
    exact ⟨fun _ hpos => absurd hpos (by omega), fun _ => ⟨true, rfl⟩⟩
  · rename_i hroom
    rw [forall_prop_of_true (by omega)]
    exact anyExhausted_iff fun l hl => remaining_limit h hl

/-! ### Previews -/

theorem DB.capped_of_usableSlots {n : Nat} (h : usableSlots (db.summary env runId) = .ok n) :
    ∀ slot ∈ db.capacity env (db.enabledHosts runId),
      (db.pool env slot).sharedResourcesAvailable = true → ∀ l ∈ slot.limits, l.maximum ≠ none := by
  intro slot hslot havailable
  obtain ⟨st, hfold, -⟩ := check_bind_eq_ok.mp h
  refine (capped_iff hslot).mp (capped_of_takePools hfold (p := db.pool env slot) ?_ havailable)
  exact (perm_insertionSort _ _).mem_iff.mpr (mem_map.mpr ⟨slot, hslot, rfl⟩)

/-- Where the limits of the available slots have maxima, the preview is the size of a placement. -/
theorem DB.usableSlots_summary (h : ∀ slot ∈ db.capacity env (db.enabledHosts runId),
      (db.pool env slot).sharedResourcesAvailable = true → ∀ l ∈ slot.limits, l.maximum ≠ none) :
    ∃ placement, Feasible (db.summary env runId) placement
      ∧ usableSlots (db.summary env runId) = .ok (placement.map Prod.snd).sum := by
  refine usableSlots_feasible (fun p hp => pool_isCapped h hp) fun r hr units hr' => ?_
  simp only [Remaining.units, remaining_eq hr, hr', Option.getD_some]

variable {run : Run}

/-- What `planning_needed` reads before it answers, where the preview is not zero. -/
theorem DB.planningNeeded_isOk {n : Nat}
    (hn : usableSlots (db.summary env run.id) = .ok n) (hpos : n ≠ 0)
    {readings : PlanningReadings} {candidate : Assignment} {rule : Option Automation}
    (hblocker : readings.newAssignmentBlocker = none) :
    (∃ evaluation, db.planningNeeded env readings run candidate rule = .ok evaluation)
      ↔ ∃ ready, countReady readings ((db.capacity env
        ((db.summary env run.id).healthyCapacityPools.map (·.hostId))).insertionSort
          fun s t => s.limits.length ≤ t.limits.length) n (db.pendingOwners readings run candidate)
        (db.preview env run.id) 0 = .ok ready := by
  unfold planningNeeded
  simp only [hblocker, hn]
  change (∃ evaluation, (if n = 0 then _ else _) = _) ↔ _
  rw [if_neg hpos]
  cases countReady readings _ n (db.pendingOwners readings run candidate)
    (db.preview env run.id) 0 with
  | error e => exact ⟨fun ⟨_, h⟩ => (by cases h), fun ⟨_, h⟩ => (by cases h)⟩
  | ok ready => exact ⟨fun _ => ⟨ready, rfl⟩, fun _ => ⟨_, rfl⟩⟩

/-- Where a preview can be read, `planning_needed` returns. -/
theorem DB.CanPreview.planningNeeded (h : db.CanPreview env run.id) (readings : PlanningReadings)
    (candidate : Assignment) (rule : Option Automation) :
    ∃ evaluation, db.planningNeeded env readings run candidate rule = .ok evaluation := by
  cases hblocker : readings.newAssignmentBlocker with
  | some blocker =>
    unfold DB.planningNeeded
    simp only [hblocker]
    exact ⟨_, rfl⟩
  | none =>
    obtain ⟨placement, -, hn⟩ := usableSlots_summary h.pools
    by_cases hpos : (placement.map Prod.snd).sum = 0
    · unfold DB.planningNeeded
      simp only [hblocker, hn]
      exact ⟨_, if_pos hpos⟩
    · rw [planningNeeded_isOk hn hpos hblocker]
      cases howners : db.pendingOwners readings run candidate with
      | nil => exact ⟨0, rfl⟩
      | cons owner owners =>
        have hmem : owner ∈ db.pendingOwners readings run candidate := by
          rw [howners]
          exact mem_cons_self
        have howner : db.hasOwner run.id = true := by
          obtain ⟨hrow, hpending⟩ := mem_filter.mp ((perm_insertionSort _ _).mem_iff.mp hmem)
          exact any_eq_true.mpr ⟨owner, hrow, by simp_all⟩
        have hread := h.owners (by rw [hn]; simpa using hpos) howner
        refine countReady_ok readings _ (fun slot hslot => ?_) _ _ (fun slot hslot => ?_) 0
        · exact limits_nodup ((perm_insertionSort _ _).mem_iff.mp hslot)
        · have hslot := mem_planningSlots.mp ((perm_insertionSort _ _).mem_iff.mp hslot)
          exact (slotFull_iff hslot).mpr (hread slot hslot)

/-- Where `planning_needed` always returns and there are owners, the slots with room are
readable. -/
theorem DB.readable_of_planningNeeded {n : Nat}
    (hn : usableSlots (db.summary env run.id) = .ok n) (hpos : n ≠ 0)
    (howner : db.hasOwner run.id = true)
    (h : ∀ readings candidate rule, ∃ evaluation,
      db.planningNeeded env readings run candidate rule = .ok evaluation)
    (hslot : slot ∈ db.capacity env (db.enabledHosts run.id))
    (hroom : 0 < (db.pool env slot).freeSlots) :
    db.readable slot.limits = true := by
  obtain ⟨owner, hmem, howner⟩ := any_eq_true.mp howner
  obtain ⟨ready, hready⟩ := (planningNeeded_isOk hn hpos rfl).mp
    (h blockedReadings { owner with id := owner.id + 1 } none)
  have howners : db.pendingOwners blockedReadings run { owner with id := owner.id + 1 } ≠ [] := by
    refine ne_nil_of_mem (a := owner)
      ((perm_insertionSort _ _).mem_iff.mpr (mem_filter.mpr ⟨hmem, ?_⟩))
    simp_all
  exact (slotFull_iff hslot).mp (slotFull_of_countReady howners hready slot
    ((perm_insertionSort _ _).mem_iff.mpr (mem_planningSlots.mpr hslot))) hroom

end

/-- An installation whose provider guard was given a maximum after the launch. -/
def Installation.guarded : List Label :=
  admitted ++ [byAdmin 21 (.updateCatalog (.resourceLimit 1 (some 3)))]

/-- The run of an installation. -/
def Installation.firstRun (ls : List Label) (h : ((outcome ls .run).find? 1).isSome) : Run :=
  ((outcome ls .run).find? 1).get h

/-- What is read when nothing is blocked and no owner is ready. -/
def quietReadings : PlanningReadings :=
  ⟨none, fun _ => false, fun _ => false, fun _ _ => false, false, none⟩

end Horizon
