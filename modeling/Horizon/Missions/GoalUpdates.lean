import Horizon.Machine

/-!
# Goal updates

`goal_updates` and `reconcile_goal_updates` of `missions/service.py`.  A revised mission, or a
newly adopted roadmap baseline, is announced to the primary contexts that work on it by
operations of kind `goal_update`.  A new announcement settles the ones that are still
waiting; it is stored under a key made of its author, the context, the mission revision and
the run revision, and a stored key is left as it is, whatever has become of its operation.

Missions can be shared by runs, and the adoption of a baseline changes the revision of one
run only.  The contexts of the other runs then lose the announcement that was waiting, and
get none in its place (`goal_update_lost`).

A mission revision is given by its mission and its number.
-/

namespace Horizon

open List Option Table Installation

variable {targets : List (ProviderThread × Run)} {missionId : Id} {p : ProviderThread × Run}

/-! ## Announcements -/

inductive GoalStatus where
  | pending | running | completed | cancelled
deriving DecidableEq

/-- An outbox operation of kind `goal_update`. -/
structure GoalUpdate where
  /-- The principal who made the change. -/
  actorId : Id
  threadId : Id
  missionId : Id
  missionRevision : Nat
  runRevision : Nat
  roadmapSnapshotId : Option Id
  status : GoalStatus := .pending

namespace GoalUpdate

/-- `UNIQUE (actor_principal_id, kind, idempotency_key)`. -/
def key (u : GoalUpdate) : Id × Id × (Id × Nat) × Nat :=
  (u.actorId, u.threadId, (u.missionId, u.missionRevision), u.runRevision)

def settled (status : GoalStatus) (u : GoalUpdate) : GoalUpdate := { u with status }

@[simp] theorem key_settled (status : GoalStatus) (u : GoalUpdate) :
    (u.settled status).key = u.key := rfl

end GoalUpdate

/-- The control plane with its goal updates. -/
structure GoalPlane where
  plane : DB
  updates : Table GoalUpdate.key

/-- A context with its run, if it is a live primary context on a mission. -/
def DB.goalTarget (db : DB) (missionId : Id) (t : ProviderThread) : Option (ProviderThread × Run) :=
  if t.kind = .primary ∧ t.status.isLive then do
    let item ← (db .assignment).find? t.assignmentId
    let run ← (db .run).find? item.runId
    if item.missionId = missionId then some (t, run) else none
  else none

/-- The live primary contexts on a mission, each with its run. -/
def DB.goalTargets (db : DB) (missionId : Id) : List (ProviderThread × Run) :=
  (db .providerThread).rows.filterMap (db.goalTarget missionId)

section

variable (actorId missionId : Id) (revision : Nat)

/-- The announcement of a mission revision to a context. -/
def GoalUpdate.to (p : ProviderThread × Run) : GoalUpdate where
  actorId := actorId
  threadId := p.1.id
  missionId := missionId
  missionRevision := revision
  runRevision := p.2.revision
  roadmapSnapshotId := p.2.adoptedRoadmapSnapshotId

/-- Superseded unsent updates of a context are settled; an in-flight update remains. -/
def supersede (threadId : Id) (updates : Table GoalUpdate.key) : Table GoalUpdate.key :=
  updates.updateWhere (fun u => u.status == .pending && u.threadId == threadId)
    (GoalUpdate.settled .completed) (GoalUpdate.key_settled _)

/-- Announce a mission revision to one context; nothing is inserted on a conflict. -/
def announce (updates : Table GoalUpdate.key) (p : ProviderThread × Run) : Table GoalUpdate.key :=
  let updates := supersede p.1.id updates
  (updates.insertNew (.to actorId missionId revision p)).getD updates

/-- `goal_updates`. -/
def goalUpdates (db : DB) (updates : Table GoalUpdate.key) : Table GoalUpdate.key :=
  (db.goalTargets missionId).foldl (announce actorId missionId revision) updates

end

/-! ## Reconciliation -/

/-- Whether a waiting update was consumed by its context. -/
def DB.hasConsumed (db : DB) (u : GoalUpdate) : Bool :=
  ((db .providerThread).find? u.threadId).any fun t =>
    ((db .assignment).find? t.assignmentId).any (·.missionId == u.missionId)
      && t.applied.mission.any (fun applied => applied.1 == u.missionId
        && decide (u.missionRevision ≤ applied.2))
      && t.applied.run.any (fun applied => decide (u.runRevision ≤ applied))
      && u.roadmapSnapshotId == t.applied.roadmapSnapshotId

/-- Whether the assignment of a waiting update is settled. -/
def DB.isTerminalTarget (db : DB) (u : GoalUpdate) : Bool :=
  ((db .providerThread).find? u.threadId).any fun t =>
    ((db .assignment).find? t.assignmentId).any (!·.status.isLive)

/-- `reconcile_goal_updates`, for one context or for all. -/
def reconcileGoalUpdates (db : DB) (threadId : Option Id) (updates : Table GoalUpdate.key) :
    Table GoalUpdate.key :=
  let isWaiting (u : GoalUpdate) := u.status == .pending && threadId.all (· == u.threadId)
  (updates.updateWhere (fun u => isWaiting u && db.hasConsumed u) (GoalUpdate.settled .completed)
      (GoalUpdate.key_settled _)).updateWhere (fun u => isWaiting u && db.isTerminalTarget u)
    (GoalUpdate.settled .cancelled) (GoalUpdate.key_settled _)

namespace GoalPlane

/-- The missions of the open assignments of a run. -/
def openMissions (db : DB) (runId : Id) : List Id :=
  (((db .assignment).rows.filter fun a => a.runId == runId
    && (a.status == .pending || a.status == .running)).map (·.missionId)).dedup

/-- The updates after an operation has taken the records from `db` to `db'`. -/
def after (l : Label) (db db' : DB) (updates : Table GoalUpdate.key) : Table GoalUpdate.key :=
  match l.operation with
  | .updateMission id _ =>
    match (db .mission).find? id, (db' .mission).find? id with
    | some old, some row =>
      if row.revision = old.revision then updates
      else goalUpdates l.actor.id id row.revision db' updates
    | _, _ => updates
  | .command _ (.adoptRoadmapSnapshot id _) =>
    (openMissions db' id).foldl (fun updates missionId =>
      match (db' .mission).find? missionId with
      | some row => goalUpdates l.actor.id missionId row.revision db' updates
      | none => updates) updates
  | .handle ⟨_, _, _, .providerObserved (some threadId) (.requestCompleted requestId true _ _)⟩ =>
    if ((db .providerRequest).find? requestId).any (·.status.isUnsettled) then
      reconcileGoalUpdates db' (some threadId) updates
    else updates
  | .claim hostId _ =>
    -- every admission poll of an enabled host reconciles first
    if ((db .host).find? hostId).any (·.mode == .enabled) && !l.env.obs.storagePaused then
      reconcileGoalUpdates db none updates
    else updates
  | _ => updates

def next (s : GoalPlane) (l : Label) : Option GoalPlane :=
  match l.run s.plane with
  | .ok (_, db) => some ⟨db, after l s.plane db s.updates⟩
  | .error _ => none

def initial : GoalPlane := ⟨Database.empty Horizon.key, .empty _⟩

end GoalPlane

/-- The control plane with its goal updates, as a system. -/
def goalPlane : System GoalPlane Label := .ofFun .initial GoalPlane.next

/-! ## What a context knows -/

/-- Whether an update carries a mission revision and a run revision, or later ones. -/
def GoalUpdate.Carries (missionId : Id) (revision runRevision : Nat) (u : GoalUpdate) : Prop :=
  u.missionId = missionId ∧ revision ≤ u.missionRevision ∧ runRevision ≤ u.runRevision

/-- A context has applied a mission revision and a run revision, or later ones. -/
def ProviderThread.HasApplied (missionId : Id) (revision runRevision : Nat) (t : ProviderThread) :
    Prop :=
  (∃ m ∈ t.applied.mission, m.1 = missionId ∧ revision ≤ m.2)
    ∧ ∃ r ∈ t.applied.run, runRevision ≤ r

instance {missionId : Id} {revision runRevision : Nat} {u : GoalUpdate} :
    Decidable (u.Carries missionId revision runRevision) := inferInstanceAs (Decidable (_ ∧ _ ∧ _))

instance {missionId : Id} {revision runRevision : Nat} {t : ProviderThread} :
    Decidable (t.HasApplied missionId revision runRevision) := inferInstanceAs (Decidable (_ ∧ _))

/-- No context misses a mission revision: it has applied it, or an outstanding update
carries it. -/
def Announced (db : DB) (missionId : Id) (revision : Nat) (updates : Table GoalUpdate.key) : Prop :=
  ∀ p ∈ db.goalTargets missionId, p.1.HasApplied missionId revision p.2.revision
    ∨ ∃ u ∈ updates, u.threadId = p.1.id ∧ (u.status = .pending ∨ u.status = .running)
      ∧ u.Carries missionId revision p.2.revision

instance {db : DB} {missionId : Id} {revision : Nat} {updates : Table GoalUpdate.key} :
    Decidable (Announced db missionId revision updates) :=
  inferInstanceAs (Decidable (∀ p ∈ db.goalTargets missionId,
    p.1.HasApplied missionId revision p.2.revision
      ∨ ∃ u ∈ updates.rows, u.threadId = p.1.id ∧ (u.status = .pending ∨ u.status = .running)
        ∧ u.Carries missionId revision p.2.revision))

/-! ## Announcing to one context -/

section

variable {actorId : Id} {revision : Nat} {updates updates' : Table GoalUpdate.key}
  {q : ProviderThread × Run} {u : GoalUpdate}

theorem mem_supersede {threadId : Id} : u ∈ supersede threadId updates ↔ ∃ u₀ ∈ updates,
    (if u₀.status = .pending ∧ u₀.threadId = threadId then u₀.settled .completed else u₀) = u := by
  simp only [supersede, mem_updateWhere, Bool.and_eq_true, beq_iff_eq]

theorem keys_supersede {threadId : Id} {k : Id × Id × (Id × Nat) × Nat} :
    (∀ u ∈ supersede threadId updates, u.key ≠ k) ↔ ∀ u ∈ updates, u.key ≠ k := by
  rw [supersede, forall_mem_updateWhere]
  refine forall₂_congr fun u _ => ?_
  split
  · rw [GoalUpdate.key_settled]
  · rfl

/-- After an announcement there are the updates from before, the waiting ones settled, and the
new one if its key is new. -/
theorem mem_announce : u ∈ announce actorId missionId revision updates p ↔
    u ∈ supersede p.1.id updates ∨ u = .to actorId missionId revision p
      ∧ ∀ u₀ ∈ updates, u₀.key ≠ (GoalUpdate.to actorId missionId revision p).key := by
  rw [announce, ← @keys_supersede updates p.1.id]
  cases hnew : (supersede p.1.id updates).insertNew (.to actorId missionId revision p) with
  | some _ =>
    obtain ⟨hkey, rfl⟩ := insertNew_eq_some.mp hnew
    rw [getD_some, mem_insert]
    exact or_congr_right ⟨fun h => ⟨h, hkey⟩, And.left⟩
  | none =>
    rw [getD_none]
    refine ⟨.inl, fun h => h.resolve_right ?_⟩
    rintro ⟨-, hkey⟩
    have hsome := insertNew_eq_some.mpr ⟨hkey, rfl⟩
    rw [hnew] at hsome
    cases hsome

/-- An announcement to another context leaves the updates of a context alone. -/
theorem mem_announce_of_ne (hu : u.threadId ≠ p.1.id) :
    u ∈ announce actorId missionId revision updates p ↔ u ∈ updates := by
  rw [mem_announce, mem_supersede]
  constructor
  · rintro (⟨_, hmem, rfl⟩ | ⟨rfl, -⟩)
    · split at hu
      · rename_i hp
        exact absurd hp.2 hu
      · rename_i hp
        rwa [if_neg hp]
    · exact absurd rfl hu
  · intro hmem
    exact .inl ⟨u, hmem, if_neg fun hp => hu hp.2⟩

/-- What an announcement does to the updates of its context depends on them only. -/
theorem mem_announce_congr (h : ∀ u, u.threadId = p.1.id → (u ∈ updates ↔ u ∈ updates'))
    (hu : u.threadId = p.1.id) :
    u ∈ announce actorId missionId revision updates p
      ↔ u ∈ announce actorId missionId revision updates' p := by
  rw [mem_announce, mem_announce, mem_supersede, mem_supersede]
  have hthread : ∀ u₀ : GoalUpdate,
      (if u₀.status = .pending ∧ u₀.threadId = p.1.id then u₀.settled .completed else u₀) = u →
      u₀.threadId = p.1.id := by
    rintro u₀ rfl
    split at hu
    · exact hu
    · exact hu
  refine or_congr (exists_congr fun u₀ => ?_) (and_congr_right fun _ => forall_congr' fun u₀ => ?_)
  · exact and_congr_left fun hu₀ => h u₀ (hthread u₀ hu₀)
  · by_cases hkey : u₀.key = (GoalUpdate.to actorId missionId revision p).key
    · rw [h u₀ (congrArg (·.2.1) hkey)]
    · exact iff_of_true (fun _ => hkey) fun _ => hkey

theorem mem_foldl_announce_of_ne (h : ∀ q ∈ targets, u.threadId ≠ q.1.id) :
    u ∈ targets.foldl (announce actorId missionId revision) updates ↔ u ∈ updates := by
  induction targets generalizing updates with
  | nil => rfl
  | cons q targets ih =>
    rw [foldl_cons, ih fun q' hq' => h q' (mem_cons_of_mem q hq')]
    exact mem_announce_of_ne (h q mem_cons_self)

/-- Of the announcements to several contexts, each one sees the updates of its own. -/
theorem mem_foldl_announce (hnodup : (targets.map (·.1.id)).Nodup) (hp : p ∈ targets)
    (hu : u.threadId = p.1.id) :
    u ∈ targets.foldl (announce actorId missionId revision) updates
      ↔ u ∈ announce actorId missionId revision updates p := by
  induction targets generalizing updates with
  | nil => cases hp
  | cons q targets ih =>
    rw [map_cons, nodup_cons] at hnodup
    rw [foldl_cons]
    rcases mem_cons.mp hp with rfl | hp
    · -- the later announcements go to other contexts
      exact mem_foldl_announce_of_ne fun q hq heq =>
        hnodup.1 (mem_map.mpr ⟨q, hq, heq ▸ hu⟩)
    · have hne : p.1.id ≠ q.1.id := fun heq => hnodup.1 (mem_map.mpr ⟨p, hp, heq⟩)
      rw [ih hnodup.2 hp]
      exact mem_announce_congr (fun u hu => mem_announce_of_ne (hu ▸ hne)) hu

/-- An outstanding update carries the revision after an announcement, if one was in flight or
the key of the announcement is new. -/
theorem outstanding_announce :
    (∃ u ∈ announce actorId missionId revision updates p, u.threadId = p.1.id
        ∧ (u.status = .pending ∨ u.status = .running) ∧ u.Carries missionId revision p.2.revision)
      ↔ (∃ u ∈ updates, u.threadId = p.1.id ∧ u.status = .running
          ∧ u.Carries missionId revision p.2.revision)
        ∨ ∀ u ∈ updates, u.key ≠ (GoalUpdate.to actorId missionId revision p).key := by
  constructor
  · rintro ⟨u, hmem, hthread, hstatus, hcarries⟩
    rcases mem_announce.mp hmem with hmem | ⟨-, hkey⟩
    · obtain ⟨u₀, hmem₀, rfl⟩ := mem_supersede.mp hmem
      split at hstatus
      · -- what was waiting is settled
        rcases hstatus with hstatus | hstatus
        · cases hstatus
        · cases hstatus
      · rename_i hp
        rw [if_neg hp] at hthread hcarries
        refine .inl ⟨u₀, hmem₀, hthread, hstatus.resolve_left fun hpending => ?_, hcarries⟩
        exact hp ⟨hpending, hthread⟩
    · exact .inr hkey
  · rintro (⟨u, hmem, hthread, hstatus, hcarries⟩ | hkey)
    · refine ⟨u, mem_announce.mpr (.inl (mem_supersede.mpr ⟨u, hmem, ?_⟩)), hthread, .inr hstatus,
        hcarries⟩
      rw [if_neg]
      rintro ⟨hpending, -⟩
      rw [hpending] at hstatus
      cases hstatus
    · exact ⟨_, mem_announce.mpr (.inr ⟨rfl, hkey⟩), rfl, .inl rfl, rfl, le_rfl, le_rfl⟩

end

/-! ## Announcing to all contexts -/

theorem fst_of_goalTarget {db : DB} {t : ProviderThread} (h : db.goalTarget missionId t = some p) :
    p.1 = t := by
  rw [DB.goalTarget] at h
  split at h
  · obtain ⟨_, _, h⟩ := bind_eq_some_iff.mp h
    obtain ⟨run, _, h⟩ := bind_eq_some_iff.mp h
    split at h
    · cases h
      rfl
    · cases h
  · cases h

/-- A context occurs once among those on a mission. -/
theorem nodup_goalTargets {db : DB} : ((db.goalTargets missionId).map (·.1.id)).Nodup := by
  have hrows : (db .providerThread).rows.Pairwise fun t t' => t.id ≠ t'.id :=
    pairwise_map.mp (db .providerThread).nodup
  rw [nodup_iff_pairwise_ne, pairwise_map, DB.goalTargets, pairwise_filterMap]
  refine hrows.imp fun hne p hp p' hp' => ?_
  rw [fst_of_goalTarget hp, fst_of_goalTarget hp']
  exact hne

/-- After `goal_updates` no context misses the revision, exactly if each context has applied
it, has an update in flight that carries it, or has never been sent it by the same principal
under the same run revision. -/
theorem goal_updates_announced (db : DB) (updates : Table GoalUpdate.key) (actorId missionId : Id)
    (revision : Nat) :
    Announced db missionId revision (goalUpdates actorId missionId revision db updates) ↔
      ∀ p ∈ db.goalTargets missionId, p.1.HasApplied missionId revision p.2.revision
        ∨ (∃ u ∈ updates, u.threadId = p.1.id ∧ u.status = .running
            ∧ u.Carries missionId revision p.2.revision)
        ∨ ∀ u ∈ updates, u.key ≠ (actorId, p.1.id, (missionId, revision), p.2.revision) := by
  rw [Announced]
  refine forall₂_congr fun p hp => or_congr_right ?_
  have hmem : ∀ u : GoalUpdate, u.threadId = p.1.id →
      (u ∈ goalUpdates actorId missionId revision db updates
        ↔ u ∈ announce actorId missionId revision updates p) :=
    fun u hu => mem_foldl_announce nodup_goalTargets hp hu
  refine Iff.trans (exists_congr fun u => ?_) outstanding_announce
  constructor
  · rintro ⟨hu, hthread, hrest⟩
    exact ⟨(hmem u hthread).mp hu, hthread, hrest⟩
  · rintro ⟨hu, hthread, hrest⟩
    exact ⟨(hmem u hthread).mpr hu, hthread, hrest⟩

/-! ## An announcement that is lost -/

namespace Installation

/-- Two runs formalize the same roadmap on the root mission, each with a running session. -/
def sharing : List Label :=
  let formalizing : RunCreate := { legacyOn 1 with phase := some (.formalization (some 1)) }
  setup ++
    [ byAdmin 2 (.createCatalog (.roadmapSnapshot ⟨1, 1, 1, 7, true⟩))
    , byAdmin 2 (.createCatalog (.roadmapSnapshot ⟨2, 1, 1, 8, true⟩))
    , byAdmin 3 (.startRun formalizing none), byAdmin 3 (.startRun formalizing none)
    , byHost 20 (.claim 1 [1]), byHost 21 (.claim 1 [1]) ]

/-- The administrator revises the mission. -/
def revised : GoalPlane :=
  System.replay GoalPlane.next (fun _ _ => true)
    (sharing ++ [byAdmin 30 (.updateMission 1 { expectedRevision := 1, objective := some "Goal" })])
    .initial

/-- One of the runs adopts a new baseline. -/
def adoption : Label := byAdmin 31 (.command 1 (.adoptRoadmapSnapshot 1 2))

end Installation

/-- The sessions of two runs are told of a revised mission.  When the same administrator has
one of the runs adopt a new baseline, the session of the other run is left without an
announcement. -/
theorem goal_update_lost :
    ∃ s s', goalPlane.Reachable s ∧ goalPlane.step s adoption s'
      ∧ Announced s.plane 1 2 s.updates ∧ ¬ Announced s'.plane 1 2 s'.updates := by
  refine ⟨revised, (revised.next adoption).getD .initial,
    (System.replay_reachable _ _ _).reachable, ?_, ?_, ?_⟩
  · have h : (revised.next adoption).isSome = true := by decide +kernel
    obtain ⟨s', hs'⟩ := isSome_iff_exists.mp h
    change revised.next adoption = _
    rw [hs', getD_some]
  · decide +kernel
  · decide +kernel

end Horizon
