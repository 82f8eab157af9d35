import Horizon.Worker.Evidence
import Horizon.Worker.Exclusion

/-!
# Preserved work

What a provider has left in its checkout is recorded before its stop receipt leaves the
host.  A checkpoint keeps its recovery mark from the launch of a provider to the end of a
snapshot, the journal holds a stop receipt back as long as the mark or an unacknowledged
discovery is there, and the checkout stays what the provider has left because nobody else
enters the workspace in between.

A snapshot misses a file that is ignored, was staged nevertheless and changed again
(`staged_file_lost`).  `work_preserved` is about the runs in which the snapshots are taken
of checkouts without such files, and in which workspaces are exclusive.
-/

namespace Horizon

open List Option Table Installation LocalExecution

variable {m : Move} {treeOf : Id → Tree} {row prow : LocalExecution} {clock : HostClock}
  {name : LockName} {lstep : LaneStep} {commits : List Id} {operationId repositoryId : Id}
  {occurredAt : Instant} {pstep : PassStep} {phase : Option Phase} {workspace : WorkspacePath}
  {kept' kept : List Id → Prop} {value c : Checkpoint} {s : Daemon} {launched : Prop} {l : Lane}
  {a b : Launch} {stage : Stage} {v : View} {p : Provider}

/-! ## The condition -/

namespace Daemon

/-- The checkout that a snapshot reads has no ignored file that the index and `HEAD` disagree
about. -/
def agrees (treeOf : Id → Tree) (s : Daemon) : DaemonStep → Bool
  | .lane id (.snapshot ..) => (s.lane id).all fun l => (s.checkouts l.workspace).agrees treeOf
  | .pass (.snapshot ..) => s.pass.all fun p => p.stage.all fun
    | (_, .fenced c _) => c.workspacePath.all fun path => (s.checkouts path).agrees treeOf
    | _ => true
  | _ => true

/-- Workspaces are exclusive, and snapshots read checkouts that they can keep. -/
def preserves (treeOf : Id → Tree) (s : Daemon) (step : DaemonStep) : Bool :=
  s.excludes step && s.agrees treeOf step

/-- A provider of the execution was launched. -/
def Launched (s : Daemon) (id : Id) : Prop := (s.finals id).isSome

/-- What the provider has left is recorded, but for the given commits. -/
def Keeps (treeOf : Id → Tree) (s : Daemon) (id : Id) (commits : List Id) : Prop :=
  ∀ c, s.finals id = some c → c.Preserved treeOf fun oid => s.Recorded id oid ∨ oid ∈ commits

/-- What the provider has left is only in the checkout. -/
structure Occupies (treeOf : Id → Tree) (s : Daemon) (id : Id)
    (workspace : WorkspacePath) : Prop where
  launched : s.Launched id
  unkept : ¬ s.Keeps treeOf id []
  path : ∃ row, s.stored id = some row ∧ row.checkpoint.workspacePath = some workspace

end Daemon

/-! ## What a lane and a recovery know -/

/-- Launch data of one checkout. -/
structure Launch.SamePlace (launch launch' : Launch) : Prop where
  path : launch'.workspacePath = launch.workspacePath
  repository : launch'.repositoryId = launch.repositoryId
  initialized : launch'.initialized = launch.initialized

/-- The workspace and the repository of a lane. -/
def Lane.site (l : Lane) : WorkspacePath × Id := (l.workspace, l.repositoryId)

/-- A checkpoint of a lane. -/
structure Checkpoint.Sited (c : Checkpoint) (site : WorkspacePath × Id)
    (launched : Prop) : Prop where
  path : c.workspacePath = some site.1
  repository : c.repositoryId = some site.2
  initialized : launched → c.initialized

/-- What the phase of a lane says about the work of its execution.  `kept commits` says that it
is recorded but for these commits. -/
def Phase.Preserves (site : WorkspacePath × Id) (launched : Prop)
    (kept : List Id → Prop) : Phase → Prop
  | expired | claimed | checked | entered | refused .. | clearing _ => ¬ launched
  | working c | deferring c => c.Sited site launched
  | begun c copy | saved c copy | spawned c copy | recorded c copy | running c copy
  | returning c copy => c.Sited site True ∧ copy.Sited site True
  | leaving c .. => c.Sited site True
  | closing _ c cleanupFailed preservation =>
    c.Sited site launched ∧ (preservation = .done → cleanupFailed = false ∧ kept [])
  | preserving _ c commits => c.Sited site launched ∧ kept commits
  | sealing _ c preserved | sealed c _ preserved | receipted c preserved =>
    c.Sited site launched ∧ (preserved → kept [])
  | raised => True

/-- What the stage of a recovery says about the work of its execution. -/
def Stage.Preserves (stored : Checkpoint) (launched : Prop) (kept : List Id → Prop) : Stage → Prop
  | locked => True
  | halting c _ | haltingContainer c _ | halted c _ | fenced c _ =>
    launched → stored.toLaunch.SamePlace c.toLaunch
  | preserving c _ commits => (launched → stored.toLaunch.SamePlace c.toLaunch) ∧ kept commits
  | preserved c _ | recorded c _ | enqueued c =>
    (launched → stored.toLaunch.SamePlace c.toLaunch) ∧ kept []

/-- The work of an execution is recorded, or marked to be. -/
structure View.Safe (v : View) (row : LocalExecution) (launched : Prop) (kept : List Id → Prop) :
    Prop where
  bound : launched → row.checkpoint.workspacePath.isSome ∧ row.checkpoint.repositoryId.isSome ∧
    row.checkpoint.initialized
  marked : launched → row.checkpoint.recoveryPending ∨ kept []
  phase : ∀ l, v.lane = some l → l.phase.Preserves l.site launched kept
  stage : ∀ name stage, v.stage = some (name, stage) → stage.Preserves row.checkpoint launched kept
  /-- A lane with the lock is the only one at work on what was launched. -/
  housed : launched → ∀ l, v.lane = some l → l.phase.holdsLock →
    v.stage = none ∧ row.checkpoint.workspacePath = some l.workspace
  loud : ¬ v.Quiet → launched

theorem Launch.SamePlace.refl (launch : Launch) : launch.SamePlace launch := ⟨rfl, rfl, rfl⟩

theorem Launch.SamePlace.trans {c : Launch} (h : a.SamePlace b) (h' : b.SamePlace c) :
    a.SamePlace c :=
  ⟨h'.path.trans h.path, h'.repository.trans h.repository, h'.initialized.trans h.initialized⟩

theorem Launch.SamePlace.symm (h : a.SamePlace b) : b.SamePlace a :=
  ⟨h.path.symm, h.repository.symm, h.initialized.symm⟩

theorem Checkpoint.Sited.mono {site : WorkspacePath × Id} {launched' : Prop}
    (h : c.Sited site launched) (hlaunched : launched' → launched) : c.Sited site launched' :=
  ⟨h.path, h.repository, fun h' => h.initialized (hlaunched h')⟩

theorem Phase.Preserves.mono {site : WorkspacePath × Id}
    (hkept : ∀ commits, kept commits → kept' commits) {phase : Phase}
    (h : phase.Preserves site launched kept) : phase.Preserves site launched kept' := by
  cases phase with
  | closing => exact ⟨h.1, fun hdone => ⟨(h.2 hdone).1, hkept _ (h.2 hdone).2⟩⟩
  | preserving => exact ⟨h.1, hkept _ h.2⟩
  | sealing | sealed | receipted => exact ⟨h.1, fun hdone => hkept _ (h.2 hdone)⟩
  | _ => exact h

theorem Stage.Preserves.mono {stored stored' : Checkpoint}
    (hsame : launched → stored'.toLaunch.SamePlace stored.toLaunch)
    (hkept : ∀ commits, kept commits → kept' commits)
    (h : stage.Preserves stored launched kept) : stage.Preserves stored' launched kept' := by
  cases stage with
  | locked => trivial
  | halting | haltingContainer | halted | fenced => exact fun hl => (hsame hl).trans (h hl)
  | preserving | preserved | recorded | enqueued =>
    exact ⟨fun hl => (hsame hl).trans (h.1 hl), hkept _ h.2⟩

/-! ## Lanes -/

/-- What a move of a lane does for the work of its execution. -/
structure Move.Preserves (l : Lane) (launched : Prop) (kept : List Id → Prop)
    (m : Move) : Prop where
  phase : ∀ phase', m.phase = some phase' → phase'.Preserves l.site launched kept
  value : launched → ∀ value, m.write.value? = some value → l.phase.holdsLock ∧
    value.Sited l.site launched ∧ (value.recoveryPending ∨ kept [])
  lock : launched → ∀ phase', m.phase = some phase' → phase'.holdsLock → l.phase.holdsLock

namespace Move.Preserves

variable {next : Phase}

/-- A lane that has launched nothing. -/
theorem of_unlaunched (h : ¬ launched)
    (hphase : m.phase.elim True (·.Preserves l.site launched kept)) :
    m.Preserves l launched kept where
  phase _ h' := by rwa [h'] at hphase
  value hl := absurd hl h
  lock hl := absurd hl h

/-- A lane that stores no checkpoint. -/
theorem of_silent (hvalue : m.write.value? = none)
    (hlock : l.phase.holdsLock ∨ m.phase.all (!·.holdsLock))
    (hphase : m.phase.elim True (·.Preserves l.site launched kept)) :
    m.Preserves l launched kept where
  phase _ h' := by rwa [h'] at hphase
  value _ value h := by rw [hvalue] at h; cases h
  lock _ phase' h h' := hlock.resolve_right fun hall => by simp [h, h'] at hall

/-- A lane that stores its checkpoint. -/
theorem of_value (hvalue : m.write.value? = some value) (hlock : l.phase.holdsLock)
    (hsited : value.Sited l.site launched) (hmarked : value.recoveryPending ∨ kept [])
    (hphase : m.phase.elim True (·.Preserves l.site launched kept)) :
    m.Preserves l launched kept where
  phase _ h' := by rwa [h'] at hphase
  value _ value' h := by
    cases hvalue.symm.trans h
    exact ⟨hlock, hsited, hmarked⟩
  lock _ _ _ _ := hlock

theorem mono (h : m.Preserves l launched kept) (hkept : ∀ commits, kept commits → kept' commits) :
    m.Preserves l launched kept' where
  phase phase' hphase := (h.phase phase' hphase).mono hkept
  value hl value hvalue :=
    have ⟨hlock, hsited, hmarked⟩ := h.value hl value hvalue
    ⟨hlock, hsited, hmarked.imp_right (hkept _)⟩
  lock := h.lock

end Move.Preserves

namespace Daemon

variable {step : LaneStep} {dead : Prop}

theorem approach_preserves (hplan : s.approach l step l.phase = some m)
    (hrow : s.stored l.executionId = some row)
    (hbound : launched → row.checkpoint.initialized)
    (hphase : l.phase.Preserves l.site launched kept) : m.Preserves l launched kept := by
  generalize hl : l.phase = phase at hplan hphase
  simp only [approach] at hplan
  split at hplan
  case h_1 | h_2 | h_3 | h_4 =>
    -- recordPreparation; prepared; refuse, in `run_once`; refuse, in `_execute`
    cases hplan
    exact .of_unlaunched hphase hphase
  case h_6 terminal outcome by_ =>
    -- emit
    cases hplan
    cases by_ with
    | runOnce | execute => exact .of_unlaunched hphase trivial
    | handler => exact .of_unlaunched hphase hphase
  case h_8 outcome by_ =>
    -- emitFails
    cases hplan
    cases by_ with
    | runOnce | handler | execute => exact .of_unlaunched hphase trivial
  case h_9 | h_10 =>
    -- check; lock
    cases hplan
    split
    · exact .of_unlaunched hphase trivial
    · exact .of_unlaunched hphase hphase
  case h_14 =>
    -- handle: what was launched is bound
    rw [hrow, map_some] at hplan
    cases hplan
    split
    · exact .of_silent rfl (.inr rfl) trivial
    · rename_i hunbound
      have hnot : ¬ launched := fun h => hunbound (by simp [Launch.isBound, hbound h])
      exact .of_unlaunched hnot hnot
  case h_15 =>
    -- abandon
    cases hplan
    exact .of_silent rfl (.inr rfl) trivial
  case h_17 =>
    cases hplan
  all_goals
    cases hplan
    exact .of_unlaunched hphase trivial

/-- What `_execute` closes with is sited as its own checkpoint is. -/
theorem close_preserves {outcome : ExecutionOutcome} {cleanupFailed : Bool}
    {preservation : Preservation} {providers : ProviderChange}
    (hplan : s.close l outcome c cleanupFailed preservation providers = some m)
    (hlock : l.phase.holdsLock) (hc : c.Sited l.site launched)
    (hpreservation : preservation ≠ .done) :
    m.Preserves l launched kept := by
  rw [close, map_eq_some_iff] at hplan
  obtain ⟨_, -, rfl⟩ := hplan
  refine .of_silent rfl (.inl hlock) ?_
  refine ⟨⟨hc.path, hc.repository, fun hl => ?_⟩, fun hdone => absurd hdone hpreservation⟩
  simp [persisted, hc.initialized hl]

theorem supervise_preserves (hplan : s.supervise l step l.phase = some m)
    (hkeeps : l.phase.Keeps l.workspace row.checkpoint dead v)
    (hphase : l.phase.Preserves l.site launched kept) (hstep : step ≠ .release) :
    m.Preserves l launched kept := by
  have hlock := supervise_lock hplan
  generalize hl : l.phase = phase at hplan hphase hkeeps
  simp only [supervise] at hplan
  split at hplan
  case h_1 =>
    -- flag
    cases hplan
    exact .of_unlaunched hphase ⟨rfl, rfl, fun hl => absurd hl hphase⟩
  case h_2 =>
    -- initialise
    cases hplan
    refine .of_value rfl hlock ⟨hphase.path, hphase.repository, fun _ => rfl⟩
      (.inl hkeeps.2.1.marked) ?_
    exact ⟨hphase.path, hphase.repository, fun _ => rfl⟩
  case h_3 =>
    -- nameContainer
    split at hplan
    · cases hplan
      refine .of_value rfl hlock ⟨hphase.path, hphase.repository, hphase.initialized⟩
        (.inl hkeeps.2.1.marked) ?_
      exact ⟨hphase.path, hphase.repository, hphase.initialized⟩
    · cases hplan
  case h_4 =>
    -- begin
    split at hplan
    · rename_i hinitialized
      cases hplan
      refine .of_silent rfl (.inl hlock) ?_
      exact ⟨⟨hphase.path, hphase.repository, fun _ => hinitialized⟩,
        hphase.path, hphase.repository, fun _ => hinitialized⟩
    · cases hplan
  case h_5 | h_7 =>
    -- save; recordProcess
    cases hplan
    exact .of_value rfl hlock (hphase.2.mono fun _ => trivial) (.inl hkeeps.2.1.copy_marked)
      hphase
  case h_6 =>
    -- spawn
    split at hplan
    · cases hplan
      exact .of_silent rfl (.inl hlock) ⟨hphase.1, hphase.2.path, hphase.2.repository,
        hphase.2.initialized⟩
    · cases hplan
  case h_8 =>
    exact absurd rfl hstep
  case h_9 =>
    -- observe
    cases hplan
    exact .of_value rfl hlock (hphase.2.mono fun _ => trivial) (.inl hkeeps.1.copy_marked)
      hphase
  case h_10 returned c copy =>
    -- stop
    cases hplan
    refine .of_silent rfl (.inl hlock) ?_
    cases returned with
    | true => exact hphase
    | false => exact hphase.1
  case h_11 | h_12 | h_14 =>
    -- interrupt
    cases hplan
    exact .of_silent rfl (.inl hlock) hphase.1
  case h_13 =>
    -- settle
    cases hplan
    refine .of_value rfl hlock ?_ (.inl hkeeps.2.1.copy_marked) hphase.1
    exact ⟨hphase.2.path, hphase.2.repository, fun _ => hphase.2.initialized trivial⟩
  case h_15 =>
    -- stopContainer
    have hsited := Checkpoint.Sited.mono hphase fun _ : launched => trivial
    split at hplan
    · exact close_preserves hplan (hl ▸ hlock) hsited (by decide)
    · split at hplan
      · cases hplan
        exact .of_silent rfl (.inl hlock) hsited
      · exact close_preserves hplan hlock hsited (by decide)
  case h_16 =>
    -- close
    refine close_preserves hplan hlock hphase ?_
    split <;> decide
  case h_17 =>
    -- abort
    exact close_preserves hplan hlock hphase (by decide)
  case h_22 =>
    -- raise
    split at hplan
    · cases hplan
    · cases hplan
      exact .of_silent rfl (.inl hlock) trivial
  case h_23 =>
    cases hplan
  all_goals
    exact close_preserves hplan hlock (hphase.1.mono fun _ => trivial) (by decide)

theorem conclude_preserves (hplan : s.conclude treeOf l step l.phase = some m)
    (hphase : l.phase.Preserves l.site launched kept)
    (hkept : ∀ commits, kept commits → kept' commits)
    (hsnapshot : ∀ staged dirty tips commits, step = .snapshot staged dirty tips →
      l.phase.holdsLock →
      (s.checkouts l.workspace).snapshot treeOf staged dirty tips = some commits → kept commits)
    (hdiscover : ∀ repositoryId commit operationId occurredAt commits,
      m.write = .discovery repositoryId commit operationId occurredAt →
      kept (commit :: commits) → kept' commits) : m.Preserves l launched kept' := by
  have hphase' := hphase.mono hkept
  have hlock := conclude_lock hplan
  generalize hl : l.phase = phase at hplan hphase hphase' hsnapshot hlock
  -- Every phase but that of a renewal has the lock.
  have hholds : phase.holdsLock → l.phase.holdsLock := fun h => by rw [hl]; exact h
  simp only [conclude] at hplan
  split at hplan
  case h_1 =>
    -- snapshot
    rw [map_eq_some_iff] at hplan
    obtain ⟨commits, hcommits, rfl⟩ := hplan
    exact .of_silent rfl (.inl (hholds rfl))
      ⟨hphase'.1, hkept _ (hsnapshot _ _ _ _ rfl rfl hcommits)⟩
  case h_2 =>
    -- discover
    cases hplan
    exact .of_silent rfl (.inl (hholds rfl)) ⟨hphase'.1, hdiscover _ _ _ _ _ rfl hphase.2⟩
  case h_3 =>
    -- snapshotted
    cases hplan
    exact .of_silent rfl (.inl (hholds rfl)) ⟨hphase'.1, fun _ => ⟨rfl, hphase'.2⟩⟩
  case h_4 | h_5 | h_9 =>
    -- snapshotFails
    cases hplan
    exact .of_silent rfl (.inl (hholds rfl)) ⟨hphase'.1, by rintro ⟨⟩⟩
  case h_6 =>
    -- fenceLost
    cases hplan
    exact .of_silent rfl (.inl (hholds rfl)) hphase'.1
  case h_7 =>
    -- defer
    cases hplan
    refine .of_value rfl (hholds rfl) ?_ (.inl rfl) trivial
    exact ⟨hphase'.path, hphase'.repository, hphase'.initialized⟩
  case h_8 =>
    -- seal
    cases hplan
    exact .of_silent rfl (.inl (hholds rfl)) ⟨hphase'.1, fun _ => (hphase'.2 rfl).2⟩
  case h_10 =>
    -- announce
    cases hplan
    have hc := hphase'.1
    refine .of_value rfl (hholds rfl) ⟨hc.path, hc.repository, hc.initialized⟩ (.inl rfl) ?_
    exact ⟨⟨hc.path, hc.repository, hc.initialized⟩, hphase'.2⟩
  case h_11 =>
    -- enqueue
    cases hplan
    exact .of_silent rfl (.inl (hholds rfl)) hphase'
  case h_12 =>
    -- clear
    cases hplan
    have hc := hphase'.1
    exact .of_value rfl (hholds rfl) ⟨hc.path, hc.repository, hc.initialized⟩ (.inr (hphase'.2 rfl))
      trivial
  case h_13 =>
    -- leave
    cases hplan
    exact .of_silent rfl (.inl (hholds rfl)) trivial
  case h_20 =>
    -- renew
    cases hplan
    constructor
    · rintro _ ⟨⟩
      exact hphase'
    · intro _ value h
      cases h
    · rintro _ _ ⟨⟩ h
      exact hholds h
  case h_21 =>
    -- fence
    split at hplan
    · cases hplan
      constructor
      · rintro _ ⟨⟩
        exact hphase'
      · intro _ value h
        cases h
      · rintro _ _ ⟨⟩ h
        exact hholds h
    · cases hplan
  case h_22 =>
    cases hplan
  all_goals
    cases hplan
    exact .of_silent rfl (.inr rfl) trivial

end Daemon

namespace View.Safe

/-- A checkpoint that a lane stores names the workspace that is stored. -/
theorem path_of_value (hv : v.Safe row launched kept) (hlane : v.lane = some l)
    (hm : m.Preserves l launched kept') (hl : launched) :
    (row.written clock m.write).checkpoint.workspacePath = row.checkpoint.workspacePath := by
  rw [written_checkpoint]
  cases hvalue : m.write.value? with
  | none => rfl
  | some value =>
    obtain ⟨hlock, hsited, -⟩ := hm.value hl value hvalue
    exact hsited.path.trans (hv.housed hl l hlane hlock).2.symm

/-- A move of the lane that launches nothing. -/
theorem moved (hv : v.Safe row launched kept) (hlane : v.lane = some l)
    (hm : m.Preserves l launched kept') (hkept : ∀ commits, kept commits → kept' commits)
    (hloud : ¬ (v.moved clock l m).Quiet → launched) :
    (v.moved clock l m).Safe (row.written clock m.write) launched kept' := by
  refine ⟨fun hl => ?_, fun hl => ?_, fun l' hl' => ?_, fun name stage hstage => ?_,
    fun hl l' hl' hholds => ?_, hloud⟩
  · rw [written_checkpoint]
    cases hvalue : m.write.value? with
    | none => exact hv.bound hl
    | some value =>
      obtain ⟨-, hsited, -⟩ := hm.value hl value hvalue
      rw [getD_some, hsited.path, hsited.repository]
      exact ⟨rfl, rfl, hsited.initialized hl⟩
  · rw [written_checkpoint]
    cases hvalue : m.write.value? with
    | none => exact (hv.marked hl).imp_right (hkept _)
    | some value => exact (hm.value hl value hvalue).2.2
  · rw [moved_lane, map_eq_some_iff] at hl'
    obtain ⟨phase, hphase, rfl⟩ := hl'
    exact hm.phase phase hphase
  · rw [moved_stage] at hstage
    refine (hv.stage name stage hstage).mono (fun hl => ?_) hkept
    rw [written_checkpoint]
    cases hvalue : m.write.value? with
    | none => exact .refl _
    | some value =>
      -- A lane that stores a checkpoint has the lock, and so there is no recovery.
      have hnone := (hv.housed hl l hlane (hm.value hl value hvalue).1).1
      cases hnone.symm.trans hstage
  · rw [moved_lane, map_eq_some_iff] at hl'
    obtain ⟨phase, hphase, rfl⟩ := hl'
    obtain ⟨hstage, hpath⟩ := hv.housed hl l hlane (hm.lock hl phase hphase hholds)
    rw [moved_stage]
    exact ⟨hstage, (hv.path_of_value hlane hm hl).trans hpath⟩

end View.Safe

/-! ## Recovery -/

/-- What a move of a recovery does for the work of its execution. -/
structure PassMove.Preserves (row : LocalExecution) (launched : Prop) (kept : List Id → Prop)
    (m : PassMove) : Prop where
  stage : ∀ stage, m.stage = some stage →
    stage.Preserves (m.write.value?.getD row.checkpoint) launched kept
  value : launched → ∀ value, m.write.value? = some value →
    row.checkpoint.toLaunch.SamePlace value.toLaunch ∧ (value.recoveryPending ∨ kept [])

namespace PassMove.Preserves

variable {m : PassMove}

theorem of_silent (hvalue : m.write.value? = none)
    (hstage : m.stage.elim True (·.Preserves row.checkpoint launched kept)) :
    m.Preserves row launched kept where
  stage _ h := by
    rw [hvalue]
    rwa [h] at hstage
  value _ value h := by rw [hvalue] at h; cases h

/-- The recovery ends with a checkpoint. -/
theorem of_value (hvalue : m.write.value? = some value) (hstage : m.stage = none)
    (hplace : launched → row.checkpoint.toLaunch.SamePlace value.toLaunch)
    (hmarked : value.recoveryPending ∨ kept []) : m.Preserves row launched kept where
  stage _ h := by rw [hstage] at h; cases h
  value hl value' h := by
    cases hvalue.symm.trans h
    exact ⟨hplace hl, hmarked⟩

end PassMove.Preserves

theorem Daemon.recoverPlan_preserves {step : PassStep} {m : PassMove}
    (hplan : s.recoverPlan treeOf prow step stage = some m)
    (hrow : s.stored prow.executionId = some row)
    (hbound : launched → row.checkpoint.workspacePath.isSome ∧ row.checkpoint.repositoryId.isSome)
    (hunlaunched : ¬ launched → ∀ commits, kept' commits)
    (hstage : stage.Preserves row.checkpoint launched kept)
    (hkept : ∀ commits, kept commits → kept' commits)
    (hsnapshot : ∀ staged dirty tips commits c outcome path, step = .snapshot staged dirty tips →
      stage = .fenced c outcome → c.workspacePath = some path →
      (s.checkouts path).snapshot treeOf staged dirty tips = some commits → kept commits)
    (hdiscover : ∀ repositoryId commit operationId occurredAt commits,
      m.write = .discovery repositoryId commit operationId occurredAt →
      kept (commit :: commits) → kept' commits)
    (hguard : ∀ retryAt, step = .fail retryAt →
      row.checkpoint.toLaunch = prow.checkpoint.toLaunch) : m.Preserves row launched kept' := by
  have hstage' := hstage.mono (fun _ => .refl _) hkept
  simp only [recoverPlan] at hplan
  split at hplan
  case h_1 =>
    -- read
    rw [hrow, map_some] at hplan
    cases hplan
    split
    · exact .of_silent rfl trivial
    · exact .of_silent rfl fun _ => .refl _
  case h_2 | h_3 | h_4 | h_7 | h_12 =>
    -- haltSession; haltContainer; fence; preserved; enqueue
    cases hplan
    exact .of_silent rfl hstage'
  case h_5 =>
    -- snapshot
    split at hplan
    · rename_i path _ hpath _
      rw [map_eq_some_iff] at hplan
      obtain ⟨commits, hcommits, rfl⟩ := hplan
      exact .of_silent rfl ⟨hstage', hkept _ (hsnapshot _ _ _ _ _ _ path rfl rfl hpath hcommits)⟩
    · cases hplan
  case h_6 =>
    -- discover
    rw [map_eq_some_iff] at hplan
    obtain ⟨repositoryId, -, rfl⟩ := hplan
    exact .of_silent rfl ⟨hstage'.1, hdiscover _ _ _ _ _ rfl hstage.2⟩
  case h_8 =>
    -- preserved, without a checkout: nothing was launched
    split at hplan
    · cases hplan
    · rename_i hsome
      cases hplan
      refine .of_silent rfl ?_
      refine ⟨hstage', hunlaunched (fun hl => hsome ?_) []⟩
      rw [(hstage' hl).path, (hstage' hl).repository, (hbound hl).1, (hbound hl).2]
      rfl
  case h_9 =>
    -- defer
    cases hplan
    exact .of_value rfl rfl
      (fun hl => ⟨(hstage' hl).path, (hstage' hl).repository, (hstage' hl).initialized⟩) (.inl rfl)
  case h_10 =>
    cases hplan
    refine .of_value rfl rfl (fun hl => ?_) (.inl rfl)
    exact ⟨(hstage'.1 hl).path, (hstage'.1 hl).repository, (hstage'.1 hl).initialized⟩
  case h_13 =>
    -- clear
    cases hplan
    refine .of_value rfl rfl (fun hl => ?_) (.inr hstage'.2)
    exact ⟨(hstage'.1 hl).path, (hstage'.1 hl).repository, (hstage'.1 hl).initialized⟩
  case h_14 =>
    -- fail
    cases hplan
    refine .of_value rfl rfl (fun _ => ?_) (.inl rfl)
    change row.checkpoint.toLaunch.SamePlace prow.checkpoint.toLaunch
    rw [hguard _ rfl]
    exact .refl _
  case h_15 =>
    cases hplan
  case h_11 =>
    split at hplan
    · cases hplan
      exact .of_silent rfl hstage'
    · cases hplan
      constructor
      · rintro _ ⟨⟩
        exact ⟨fun _ => .refl _, hstage'.2⟩
      · rintro hl _ ⟨⟩
        exact ⟨⟨(hstage'.1 hl).path, (hstage'.1 hl).repository, (hstage'.1 hl).initialized⟩,
          .inr hstage'.2⟩

namespace View.Safe

/-- A move of the recovery. -/
theorem recovered {m : PassMove} (hv : v.Safe row launched kept)
    (hstage : v.stage = some (name, stage)) (hm : m.Preserves row launched kept')
    (hkept : ∀ commits, kept commits → kept' commits)
    (hloud : ¬ (v.recovered clock prow name m).Quiet → launched) :
    (v.recovered clock prow name m).Safe (row.written clock m.write) launched kept' ∧
      (launched →
        row.checkpoint.toLaunch.SamePlace (row.written clock m.write).checkpoint.toLaunch) := by
  have hplace : launched →
      row.checkpoint.toLaunch.SamePlace (row.written clock m.write).checkpoint.toLaunch := by
    intro hl
    rw [written_checkpoint]
    cases hvalue : m.write.value? with
    | none => exact .refl _
    | some value => exact (hm.value hl value hvalue).1
  refine ⟨⟨fun hl => ?_, fun hl => ?_, fun l hl => ?_, fun _ stage' h => ?_,
    fun hl l hlane hholds => ?_, hloud⟩, hplace⟩
  · rw [(hplace hl).path, (hplace hl).repository, (hplace hl).initialized]
    exact hv.bound hl
  · rw [written_checkpoint]
    cases hvalue : m.write.value? with
    | none => exact (hv.marked hl).imp_right (hkept _)
    | some value => exact (hm.value hl value hvalue).2
  · rw [recovered_lane] at hl
    exact (hv.phase l hl).mono hkept
  · rw [recovered_stage, map_eq_some_iff] at h
    obtain ⟨_, hstage'', heq⟩ := h
    cases heq
    rw [written_checkpoint]
    exact hm.stage stage' hstage''
  · -- A lane with the lock would have kept the recovery out.
    rw [recovered_lane] at hlane
    cases hstage.symm.trans (hv.housed hl l hlane hholds).1

theorem mono (hv : v.Safe row launched kept) (hkept : ∀ commits, kept commits → kept' commits) :
    v.Safe row launched kept' where
  __ := hv
  marked hl := (hv.marked hl).imp_right (hkept _)
  phase l hl := (hv.phase l hl).mono hkept
  stage name stage h := (hv.stage name stage h).mono (fun _ => .refl _) hkept

/-- The recovery enters another stage, or leaves. -/
theorem with_stage {stage : Option (LockName × Stage)} (hv : v.Safe row launched kept)
    (hstage : ∀ name stage', stage = some (name, stage') →
      stage'.Preserves row.checkpoint launched kept)
    (hhoused : launched → ∀ l, v.lane = some l → l.phase.holdsLock → stage = none) :
    View.Safe { v with stage } row launched kept where
  __ := hv
  stage := hstage
  housed hl l hlane hholds := ⟨hhoused hl l hlane hholds, (hv.housed hl l hlane hholds).2⟩

/-- Nobody is at work any more. -/
theorem abandoned (hv : v.Safe row launched kept) :
    View.Safe { v with lane := none, stage := none } row launched kept where
  __ := hv
  phase _ h := by cases h
  stage _ _ h := by cases h
  housed _ _ h := by cases h

/-- A marked checkpoint of the same place is stored. -/
theorem rewritten (hv : v.Safe row launched kept)
    (hplace : row.checkpoint.toLaunch.SamePlace value.toLaunch) (hmarked : value.recoveryPending) :
    View.Safe { v with row := some { row with checkpoint := value } }
      { row with checkpoint := value } launched kept where
  __ := hv
  bound hl := by
    rw [hplace.path, hplace.repository, hplace.initialized]
    exact hv.bound hl
  marked _ := .inl hmarked
  stage name stage h := (hv.stage name stage h).mono (fun _ => hplace.symm) fun _ h => h
  housed hl l hlane hholds :=
    have ⟨hstage, hpath⟩ := hv.housed hl l hlane hholds
    ⟨hstage, hplace.path.trans hpath⟩

end View.Safe

/-- A move that releases nothing brings no provider back. -/
theorem View.Quiet.of_not_released (hv : v.Quiet) (hm : ∀ launch, m.providers ≠ .released launch) :
    (v.moved clock l m).Quiet := by
  rw [View.moved]
  cases hproviders : m.providers with
  | unchanged => exact hv
  | released launch => exact absurd hproviders (hm launch)
  | sessionStopped name =>
    refine ⟨?_, hv.2⟩
    change v.sessions.filter _ = []
    rw [hv.1, filter_nil]
  | containerRemoved name =>
    refine ⟨hv.1, ?_⟩
    change v.containers.filter _ = []
    rw [hv.2, filter_nil]

/-- What is stored names the workspace of every provider. -/
theorem View.Kept.path_of_mem (hv : v.Kept clock row) (hp : p ∈ v.sessions ++ v.containers) :
    row.checkpoint.workspacePath = some p.workspace := by
  rcases mem_append.mp hp with h | h
  · exact (hv.covers.sessions p h).1
  · exact (hv.covers.containers p h).1

/-- A lane or a recovery that knows the work to be recorded has no provider. -/
theorem View.Safe.of_loud (hv : v.Safe row launched kept) (hkept : v.Kept clock row)
    (hloud : ¬ v.Quiet) : v.Safe row launched kept'  where
  __ := hv
  marked _ := .inl (hkept.marked hloud)
  phase l hl := by
    have hphase := hv.phase l hl
    have hkeeps := hkept.phase l hl
    cases hl : l.phase with
    | closing =>
      rw [hl] at hphase hkeeps
      exact ⟨hphase.1, fun hdone => absurd (hkeeps.2 (hphase.2 hdone).1) hloud⟩
    | preserving | sealing | sealed | receipted =>
      rw [hl] at hkeeps
      exact absurd hkeeps hloud
    | _ =>
      rw [hl] at hphase
      exact hphase
  stage name stage h := by
    have hstage := hv.stage name stage h
    have hkeeps := hkept.stage name stage h
    cases stage with
    | locked => trivial
    | halting | haltingContainer => exact hstage
    | halted | fenced | preserving | preserved | recorded | enqueued => exact absurd hkeeps hloud

/-! ## Runs -/

namespace Daemon

variable {s' : Daemon} {step : DaemonStep} {id : Id}

/-- What was launched is recorded, or marked and alone in its workspace. -/
structure Safe (treeOf : Id → Tree) (s : Daemon) : Prop extends s.Exclusive, s.Evident where
  unlaunched : ∀ {id}, s.stored id = none → s.finals id = none
  safe : ∀ {id row}, s.stored id = some row →
    (s.view id).Safe row (s.Launched id) (s.Keeps treeOf id)
  held : ∀ {id workspace}, s.Occupies treeOf id workspace →
    s.finals id = some (s.checkouts workspace)
  pairs : ∀ p ∈ s.providers, ∀ q ∈ s.providers, p.workspace = q.workspace →
    p.executionId = q.executionId
  tenants : ∀ {id workspace}, s.Occupies treeOf id workspace → ∀ p ∈ s.providers,
    p.workspace = workspace → p.executionId = id
  locked : ∀ {id workspace}, s.Occupies treeOf id workspace → ∀ {id' l}, s.lane id' = some l →
    l.phase.holdsLock → l.workspace = workspace → id' = id

/-- Only a release launches. -/
theorem plan_released {launch : Launch} (hplan : s.plan treeOf l lstep = some m)
    (hm : m.providers = .released launch) :
    lstep = .release ∧ ∃ c copy, l.phase = .recorded c copy ∧ m =
      { phase := some (.running c copy), providers := .released copy.toLaunch } := by
  have notClose : ∀ {outcome c cleanupFailed preservation providers},
      s.close l outcome c cleanupFailed preservation providers = some m →
      m.providers = providers := by
    intro outcome c cleanupFailed preservation providers h
    rw [close, map_eq_some_iff] at h
    obtain ⟨row, -, rfl⟩ := h
    rfl
  generalize hl : l.phase = phase
  rcases plan_cases hplan with h | h | h
  all_goals rw [hl] at h
  · simp only [approach] at h
    split at h
    case h_14 =>
      -- handle
      rw [map_eq_some_iff] at h
      obtain ⟨row, -, rfl⟩ := h
      split at hm <;> cases hm
    all_goals cases h <;> cases hm
  · simp only [supervise] at h
    split at h
    case h_8 c copy =>
      -- release
      cases h
      exact ⟨rfl, c, copy, rfl, rfl⟩
    case h_15 =>
      -- stopContainer
      split at h
      · cases (notClose h).symm.trans hm
      · split at h
        · cases h
          cases hm
        · cases (notClose h).symm.trans hm
    case h_16 | h_17 | h_18 | h_19 | h_20 | h_21 => cases (notClose h).symm.trans hm
    case h_3 | h_4 | h_6 | h_22 =>
      split at h <;> cases h
      cases hm
    all_goals cases h <;> cases hm
  · simp only [conclude] at h
    split at h
    case h_1 =>
      -- snapshot
      rw [map_eq_some_iff] at h
      obtain ⟨_, -, rfl⟩ := h
      cases hm
    case h_21 =>
      -- fence
      split at h <;> cases h
      cases hm
    all_goals cases h <;> cases hm

theorem Keeps.mono {commits' : List Id} (h : s.Keeps treeOf id commits)
    (hle : ∀ oid, s.Recorded id oid ∨ oid ∈ commits → s'.Recorded id oid ∨ oid ∈ commits')
    (hfinals : s'.finals id = s.finals id) : s'.Keeps treeOf id commits' := by
  intro c hc
  rw [hfinals] at hc
  exact (h c hc).mono hle

/-- A snapshot of the workspace keeps what is there of an execution. -/
theorem Safe.keeps_of_snapshot (hs : s.Safe treeOf) {path : WorkspacePath} {staged dirty : Id}
    {tips : List Id} (hrow : s.stored id = some row)
    (hpath : s.Launched id → row.checkpoint.workspacePath = some path)
    (hagrees : (s.checkouts path).agrees treeOf)
    (hsnapshot : (s.checkouts path).snapshot treeOf staged dirty tips = some commits) :
    s.Keeps treeOf id commits := by
  by_cases hkeeps : s.Keeps treeOf id []
  · exact hkeeps.mono (fun oid h => h.imp_right nofun) rfl
  · intro c hc
    have hlaunched : s.Launched id := by rw [Launched, hc]; rfl
    have hheld := hs.held ⟨hlaunched, hkeeps, row, hrow, hpath hlaunched⟩
    cases hc.symm.trans hheld
    exact (Checkout.preserved_of_snapshot hagrees hsnapshot).mono fun _ => .inr

/-- A discovery of a lane is recorded. -/
theorem recorded_of_lane {oid : Id} (h : s.next treeOf (.lane id lstep) = some s')
    (hlane : s.lane id = some l) (hplan : s.plan treeOf l lstep = some m)
    (hm : m.write = .discovery repositoryId oid operationId occurredAt) : s'.Recorded id oid := by
  obtain rfl : l.executionId = id := key_of_find? hlane
  simp only [next, hlane, hplan, bind_some, perform, map_eq_some_iff] at h
  obtain ⟨_, hcommit, rfl⟩ := h
  rw [hm] at hcommit
  have hrecorded := recorded_of_commit hcommit
  cases m.phase <;> simpa [Recorded, goOn] using hrecorded

/-- A discovery of a recovery is recorded. -/
theorem recorded_of_pass {rows : List LocalExecution} {includeRunning : Bool}
    {m : PassMove} {oid : Id} (h : s.next treeOf (.pass pstep) = some s')
    (hpass : s.pass = some ⟨prow :: rows, includeRunning, some (name, stage)⟩)
    (hplan : s.recoverPlan treeOf prow pstep stage = some m)
    (hm : m.write = .discovery repositoryId oid operationId occurredAt) :
    s'.Recorded prow.executionId oid := by
  have hstep : pstep ≠ .abort := by
    rintro rfl
    cases stage <;> cases hplan
  rw [next, hpass, passNext_recover hstep, hplan, bind_some, recover,
    map_eq_some_iff] at h
  obtain ⟨_, hcommit, rfl⟩ := h
  rw [hm] at hcommit
  have hrecorded := recorded_of_commit hcommit
  simpa [Recorded] using hrecorded

/-- What a step that launches nothing makes of an execution. -/
theorem Change.safe (hs : s.Safe treeOf) (hguard : s.preserves treeOf step)
    (h : Change treeOf s id step v) (hnext : s.next treeOf step = some s')
    (hstep : step ≠ .lane id .release) (hkept : ∀ commits, s.Keeps treeOf id commits → kept commits)
    (hdiscover : ∀ oid commits, s'.Recorded id oid → s.Keeps treeOf id (oid :: commits)
      → kept commits)
    {row' : LocalExecution} (hrow' : v.row = some row') :
    v.Safe row' (s.Launched id) kept ∧ (s.Launched id → ∀ row, s.stored id = some row →
      row'.checkpoint.workspacePath = row.checkpoint.workspacePath) := by
  rw [preserves, Bool.and_eq_true] at hguard
  obtain ⟨hexcludes, hagrees⟩ := hguard
  have unchanged : ∀ {row : LocalExecution}, s.stored id = some row →
      ∀ row₀, s.stored id = some row₀ →
      row.checkpoint.workspacePath = row₀.checkpoint.workspacePath := by
    rintro row hrow row₀ hrow₀
    cases hrow.symm.trans hrow₀
    rfl
  cases h with
  | same => exact ⟨(hs.safe hrow').mono hkept, fun _ => unchanged hrow'⟩
  | @resolve _ _ _ _ repositoryId row l hnew hrow hlane =>
    have hnot : ¬ s.Launched id := by
      rw [Launched, hs.unlaunched hnew]
      nofun
    refine ⟨⟨fun hl => absurd hl hnot, fun hl => absurd hl hnot, ?_, ?_, fun hl =>
      absurd hl hnot, ?_⟩, fun hl => absurd hl hnot⟩
    · rintro _ ⟨⟩
      rw [hlane.2.2]
      split
      · exact hnot
      · exact hnot
    · intro name stage h
      cases (hs.stage_none hnew).symm.trans h
    · exact fun hloud => absurd (hs.absent hnew) hloud
  | @lane lstep l m row hlane hplan hrow _ =>
    obtain rfl : l.executionId = id := key_of_find? hlane
    have hv := hs.safe hrow
    have hrelease : lstep ≠ .release := fun h => hstep (by rw [h])
    have hm : m.Preserves l (s.Launched l.executionId) kept := by
      rcases plan_cases hplan with h | h | h
      · exact (approach_preserves h hrow (fun hl => (hv.bound hl).2.2)
          (hv.phase l hlane)).mono hkept
      · exact (supervise_preserves h ((hs.kept hrow).phase l hlane)
          (hv.phase l hlane) hrelease).mono hkept
      · refine conclude_preserves h (hv.phase l hlane) hkept ?_ ?_
        · rintro staged dirty tips commits rfl hholds hcommits
          refine hs.keeps_of_snapshot hrow (fun hl => (hv.housed hl l hlane hholds).2) ?_ hcommits
          simpa [agrees, hlane] using hagrees
        · intro repositoryId oid operationId occurredAt commits hwrite
          exact hdiscover oid commits (recorded_of_lane hnext hlane hplan hwrite)
    rw [View.moved_row, view, hrow, map_some] at hrow'
    cases hrow'
    refine ⟨hv.moved hlane hm hkept fun hloud => hv.loud fun hquiet => hloud ?_,
      fun hl row₀ hrow₀ => ?_⟩
    · exact hquiet.of_not_released fun _ h => hrelease (plan_released hplan h).1
    · cases hrow.symm.trans hrow₀
      exact hv.path_of_value hlane hm hl
  | @take prow rows includeRunning hpass hid _ hlock =>
    subst hid
    have hv := hs.safe hrow'
    refine ⟨(hv.mono hkept).with_stage ?_ fun hl l hlane hholds => ?_, fun _ => unchanged hrow'⟩
    · rintro _ _ ⟨⟩
      trivial
    · -- The lane would have the lock that the recovery takes.
      obtain ⟨-, hpath⟩ := hv.housed hl l hlane hholds
      have hcurrent := isCurrent_of_guard hexcludes hpass (.inl rfl) hrow'
      rw [lockOf, ← congrArg Launch.workspacePath hcurrent, hpath] at hlock
      rw [isLocked_of_lane hlane hholds] at hlock
      cases hlock
  | @recover _ prow row rows includeRunning name stage m hpass hid hplan hrow hevolves =>
    subst hid
    have hv := hs.safe hrow
    have hstage : s.stageOf prow.executionId = some (name, stage) := by simp [stageOf, hpass]
    have hm : m.Preserves row (s.Launched prow.executionId) kept := by
      refine recoverPlan_preserves hplan hrow (fun hl => ⟨(hv.bound hl).1, (hv.bound hl).2.1⟩) ?_
        (hv.stage name stage hstage) hkept ?_ ?_ ?_
      · exact fun hnot commits => hkept _ fun c hc => absurd (by rw [Launched, hc]; rfl) hnot
      · rintro staged dirty tips commits c _ path rfl rfl hpath hcommits
        refine hs.keeps_of_snapshot hrow (fun hl => ?_) ?_ hcommits
        · exact (hv.stage name _ hstage hl).path.symm.trans hpath
        · simpa [agrees, hpass, hpath] using hagrees
      · intro repositoryId oid operationId occurredAt commits hwrite
        exact hdiscover oid commits (recorded_of_pass hnext hpass hplan hwrite)
      · exact fun retryAt h => isCurrent_of_guard hexcludes hpass (.inr ⟨retryAt, h⟩) hrow
    have hkeeps := hs.recover_keeps hexcludes hpass hplan hrow
    rw [View.recovered_row, view, hrow, map_some] at hrow'
    cases hrow'
    have hloud : ¬ ((s.view prow.executionId).recovered s.clock prow name m).Quiet →
        s.Launched prow.executionId := fun hloud =>
      hv.loud fun hquiet => hloud (hquiet.mono hkeeps.within)
    obtain ⟨hsafe, hplace⟩ := hv.recovered hstage hm hkept hloud
    refine ⟨hsafe, fun hl row₀ hrow₀ => ?_⟩
    cases hrow.symm.trans hrow₀
    exact (hplace hl).path
  | @fail prow row rows includeRunning retryAt hpass hid hrow hevolves =>
    subst hid
    cases hrow'
    have hcurrent := isCurrent_of_guard hexcludes hpass (.inr ⟨retryAt, rfl⟩) hrow
    refine ⟨((hs.safe hrow).mono hkept).rewritten ?_ rfl, fun _ row₀ hrow₀ => ?_⟩
    · change row.checkpoint.toLaunch.SamePlace prow.checkpoint.toLaunch
      rw [hcurrent]
      exact .refl _
    · cases hrow.symm.trans hrow₀
      exact (congrArg Launch.workspacePath hcurrent).symm
  | abort =>
    refine ⟨((hs.safe hrow').mono hkept).with_stage (fun _ _ h => ?_) fun _ _ _ _ => rfl, fun _ =>
      unchanged hrow'⟩
    cases h
  | crash => exact ⟨((hs.safe hrow').mono hkept).abandoned, fun _ => unchanged hrow'⟩

/-- A recovery launches nothing. -/
theorem recoverPlan_not_released {m : PassMove}
    (hplan : s.recoverPlan treeOf prow pstep stage = some m) (launch : Launch) :
    m.providers ≠ .released launch := by
  intro hm
  simp only [recoverPlan] at hplan
  split at hplan
  case h_1 | h_6 =>
    -- read, discover
    rw [map_eq_some_iff] at hplan
    obtain ⟨_, -, rfl⟩ := hplan
    first | cases hm | (split at hm <;> cases hm)
  case h_5 =>
    -- snapshot
    split at hplan
    · rw [map_eq_some_iff] at hplan
      obtain ⟨_, -, rfl⟩ := hplan
      cases hm
    · cases hplan
  case h_8 | h_11 =>
    -- preserved, announce
    split at hplan <;> cases hplan <;> cases hm
  all_goals cases hplan <;> cases hm

theorem commit_finals {epoch : Nat} {w : Write} (h : s.commit id epoch w = some s') :
    s'.finals = s.finals ∧ s'.checkouts = s.checkouts := by
  rw [commit] at h
  split at h
  · cases h
  · cases h
    exact ⟨rfl, rfl⟩

theorem change_finals (s : Daemon) (id : Id) {c : ProviderChange}
    (h : ∀ launch, c ≠ .released launch) :
    (s.change id c).finals = s.finals ∧ (s.change id c).checkouts = s.checkouts := by
  cases c with
  | released launch => exact absurd rfl (h launch)
  | _ => exact ⟨rfl, rfl⟩

@[simp] theorem goOn_finals : (s.goOn id phase).finals = s.finals := by
  cases phase <;> rfl

@[simp] theorem goOn_checkouts : (s.goOn id phase).checkouts = s.checkouts := by
  cases phase <;> rfl

/-- A step edits a checkout, launches a provider, or leaves what providers have left alone. -/
theorem next_finals (h : s.next treeOf step = some s') :
    (∃ p c, step = .edit p c) ∨ (∃ id, step = .lane id .release) ∨
      s'.finals = s.finals ∧ s'.checkouts = s.checkouts := by
  cases step with
  | edit p c => exact .inl ⟨p, c, rfl⟩
  | advance | crash => cases h; exact .inr (.inr ⟨rfl, rfl⟩)
  | journal step =>
    simp only [next] at h
    split at h
    · split at h <;> cases h
      exact .inr (.inr ⟨rfl, rfl⟩)
    · cases h
  | resolve =>
    simp only [next] at h
    split at h
    · cases h
    split at h
    · rw [map_eq_some_iff] at h
      obtain ⟨_, -, rfl⟩ := h
      exact .inr (.inr ⟨rfl, rfl⟩)
    · cases h
      exact .inr (.inr ⟨rfl, rfl⟩)
    · cases h
  | lane id lstep =>
    by_cases hrelease : lstep = .release
    · exact .inr (.inl ⟨id, by rw [hrelease]⟩)
    · simp only [next, bind_eq_some_iff, perform, map_eq_some_iff] at h
      obtain ⟨l, -, m, hplan, s₁, hcommit, rfl⟩ := h
      have hm : ∀ launch, m.providers ≠ .released launch := fun _ hm =>
        hrelease (plan_released hplan hm).1
      have hchange := change_finals s₁ l.executionId hm
      rw [goOn_finals, goOn_checkouts, hchange.1, hchange.2]
      exact .inr (.inr (commit_finals hcommit))
  | pass _ =>
    rcases passNext_cases h with ⟨pass, _, rfl⟩ | ⟨prow, _, _, _, _, _, m, -, hplan, hrecover⟩
    · exact .inr (.inr ⟨rfl, rfl⟩)
    · rw [recover, map_eq_some_iff] at hrecover
      obtain ⟨s₁, hcommit, rfl⟩ := hrecover
      have hchange := change_finals s₁ prow.executionId (recoverPlan_not_released hplan)
      refine .inr (.inr ⟨hchange.1.trans ?_, hchange.2.trans ?_⟩)
      · exact (commit_finals hcommit).1
      · exact (commit_finals hcommit).2

/-- An execution with a provider is not quiet. -/
theorem loud_of_mem (s : Daemon) (hp : p ∈ s.providers) : ¬ (s.view p.executionId).Quiet := by
  rw [mem_providers] at hp
  rintro ⟨h₁, h₂⟩
  rw [h₁, h₂] at hp
  cases hp

/-- Where an occupied workspace comes from. -/
def Occupied (treeOf : Id → Tree) (s : Daemon) (id : Id) (workspace : WorkspacePath) : Prop :=
  s.Occupies treeOf id workspace ∨
    (∃ l, s.lane id = some l ∧ l.phase.holdsLock ∧ l.workspace = workspace) ∨
    ∃ p ∈ s.providers, p.executionId = id ∧ p.workspace = workspace

/-- An execution whose work is not recorded is marked in its workspace. -/
theorem Safe.hasPending (hs : s.Safe treeOf) {id' : Id} (h : s.Occupies treeOf id workspace)
    (hne : id ≠ id') : s.hasPending id' workspace := by
  obtain ⟨row, hrow, hpath⟩ := h.path
  obtain ⟨hmem, hid⟩ := find?_eq_some.mp hrow
  have hmarked := ((hs.safe hrow).marked h.launched).resolve_right h.unkept
  refine any_eq_true.mpr ⟨row, hmem, ?_⟩
  simp [hid, hne, hmarked, hpath]

/-- What a step leaves safe, where the work of each execution is known to be. -/
theorem Safe.of_next (hs : s.Safe treeOf) (hguard : s.excludes step)
    (h : s.next treeOf step = some s')
    (hunlaunched : ∀ {id}, s'.stored id = none → s'.finals id = none)
    (hsafe : ∀ {id row}, s'.stored id = some row →
      (s'.view id).Safe row (s'.Launched id) (s'.Keeps treeOf id))
    (hheld : ∀ {id workspace}, s'.Occupies treeOf id workspace →
      s'.finals id = some (s'.checkouts workspace))
    (hoccupied : ∀ {id workspace}, s'.Occupies treeOf id workspace →
      s.Occupied treeOf id workspace) :
    s'.Safe treeOf := by
  obtain ⟨hchange, -⟩ := next_change hs.toWf h
  refine ⟨hs.toExclusive.next hguard h, (hs.toEvident.next h).unclaimed,
    (hs.toEvident.next h).acknowledged,
    (hs.toEvident.next h).finishes, hunlaunched, hsafe, hheld, ?_, ?_, ?_⟩
  · intro p hp q hq hworkspace
    rw [mem_providers] at hp hq
    rcases (hchange _).provider hs.toExclusive hguard hp with hp | ⟨l, hlane, hholds, hw⟩
    · rcases (hchange _).provider hs.toExclusive hguard hq with hq | ⟨l, hlane, hholds, hw⟩
      · exact hs.pairs p (mem_providers.mpr hp) q (mem_providers.mpr hq) hworkspace
      · exact hs.alone hlane hholds p (mem_providers.mpr hp) (hworkspace.trans hw.symm)
    · rcases (hchange _).provider hs.toExclusive hguard hq with hq | ⟨l', hlane', hholds', hw'⟩
      · exact (hs.alone hlane hholds q (mem_providers.mpr hq) (hworkspace.symm.trans hw.symm)).symm
      · exact hs.locks hlane hlane' hholds hholds' (hw.trans (hworkspace.trans hw'.symm))
  · rintro id workspace hocc p hp rfl
    rw [mem_providers] at hp
    rcases (hchange _).provider hs.toExclusive hguard hp with hp | ⟨l, hlane, hholds, hw⟩
    · rw [← mem_providers] at hp
      rcases hoccupied hocc with hocc | ⟨l, hlane, hholds, hw⟩ | ⟨q, hq, rfl, hw⟩
      · exact hs.tenants hocc p hp rfl
      · exact hs.alone hlane hholds p hp hw.symm
      · exact hs.pairs p hp q hq hw.symm
    · rcases hoccupied hocc with hocc | ⟨l', hlane', hholds', hw'⟩ | ⟨q, hq, rfl, hw'⟩
      · exact hs.locked hocc hlane hholds hw
      · exact hs.locks hlane hlane' hholds hholds' (hw.trans hw'.symm)
      · exact (hs.alone hlane hholds q hq (hw'.trans hw.symm)).symm
  · rintro id workspace hocc id' l hlane hholds rfl
    rcases (hchange id').lock hguard hlane hholds with
      ⟨_, hlane₀, hholds₀, hw₀⟩ | ⟨-, hlocked, hpending⟩
    · rcases hoccupied hocc with hocc | ⟨l₁, hlane₁, hholds₁, hw₁⟩ | ⟨q, hq, rfl, hw₁⟩
      · exact hs.locked hocc hlane₀ hholds₀ hw₀
      · exact hs.locks hlane₀ hlane₁ hholds₀ hholds₁ (hw₀.trans hw₁.symm)
      · exact (hs.alone hlane₀ hholds₀ q hq (hw₁.trans hw₀.symm)).symm
    · by_contra hne
      rcases hoccupied hocc with hocc | ⟨l₁, hlane₁, hholds₁, hw₁⟩ | ⟨q, hq, rfl, hw₁⟩
      · rw [hs.hasPending hocc (Ne.symm hne)] at hpending
        cases hpending
      · rw [← hw₁, isLocked_of_lane hlane₁ hholds₁] at hlocked
        cases hlocked
      · rw [← hw₁, hs.toExclusive.hasPending (mem_providers.mp hq) (Ne.symm hne)] at hpending
        cases hpending

/-- Evidence only grows. -/
theorem Safe.keeps_next (hs : s.Safe treeOf) (h : s.next treeOf step = some s')
    (hfinals : s'.finals id = s.finals id) (hkeeps : s.Keeps treeOf id commits) :
    s'.Keeps treeOf id commits := by
  refine hkeeps.mono (fun oid => .imp_left fun hrecorded => ?_) hfinals
  exact hrecorded.next hs.toEvident (next_proceeds hs.toWf hs.unclaimed h)

/-- A step that launches and edits nothing. -/
theorem Safe.next_of_still (hs : s.Safe treeOf) (hguard : s.preserves treeOf step)
    (h : s.next treeOf step = some s') (hstep : ∀ id, step ≠ .lane id .release)
    (hfinals : s'.finals = s.finals) (hcheckouts : s'.checkouts = s.checkouts) :
    s'.Safe treeOf := by
  obtain ⟨hchange, -⟩ := next_change hs.toWf h
  have hkeeps : ∀ {id commits}, s.Keeps treeOf id commits → s'.Keeps treeOf id commits := fun hk =>
    hs.keeps_next h (by rw [hfinals]) hk
  have hlaunched : ∀ {id}, s'.Launched id ↔ s.Launched id := by
    intro id
    rw [Launched, Launched, hfinals]
  have hsafe : ∀ {id row}, s'.stored id = some row →
      (s'.view id).Safe row (s.Launched id) (s'.Keeps treeOf id) ∧ (s.Launched id → ∀ row₀,
        s.stored id = some row₀ →
        row.checkpoint.workspacePath = row₀.checkpoint.workspacePath) := by
    intro id row hrow
    refine (hchange id).safe hs hguard h (hstep id) (fun _ => hkeeps)
      (fun oid commits hoid hk => ?_) hrow
    refine hk.mono (fun _ hoid' => ?_) (by rw [hfinals])
    rcases hoid' with hrecorded | hmem
    · exact .inl (hrecorded.next hs.toEvident (next_proceeds hs.toWf hs.unclaimed h))
    · rcases mem_cons.mp hmem with rfl | hmem
      · exact .inl hoid
      · exact .inr hmem
  have hunlaunched : ∀ {id}, s'.stored id = none → s'.finals id = none := by
    intro id hnone
    rw [hfinals]
    refine hs.unlaunched ?_
    cases hrow : s.stored id with
    | none => rfl
    | some row =>
      obtain ⟨row', hrow', -⟩ := (hchange id).row_evolves hrow
      cases hrow'.symm.trans hnone
  have hoccupies : ∀ {id workspace}, s'.Occupies treeOf id workspace →
      s.Occupies treeOf id workspace := by
    rintro id workspace ⟨hl, hunkept, row', hrow', hpath⟩
    rw [hlaunched] at hl
    refine ⟨hl, fun hk => hunkept (hkeeps hk), ?_⟩
    cases hrow : s.stored id with
    | none =>
      rw [Launched, hs.unlaunched hrow] at hl
      cases hl
    | some row => exact ⟨row, rfl, ((hsafe hrow').2 hl row hrow).symm.trans hpath⟩
  refine hs.of_next (Bool.and_eq_true _ _ ▸ hguard).1 h hunlaunched ?_ ?_ fun hocc =>
    .inl (hoccupies hocc)
  · intro id row hrow
    rw [hlaunched]
    exact (hsafe hrow).1
  · intro id workspace hocc
    rw [hfinals, hcheckouts]
    exact hs.held (hoccupies hocc)

/-- A provider writes to its checkout. -/
theorem edit_spec {c : Checkout} (h : s.next treeOf (.edit p c) = some s') :
    p ∈ s.providers ∧ (∀ id, s'.view id = s.view id) ∧
      s'.checkouts = Function.update s.checkouts p.workspace c ∧
      s'.finals = Function.update s.finals p.executionId (some c) := by
  simp only [next] at h
  split at h
  · rename_i hp
    cases h
    exact ⟨hp, fun _ => rfl, rfl, rfl⟩
  · cases h

/-- After a step that changes what one execution has left, the others occupy what they did. -/
theorem Safe.occupies_of_ne (hs : s.Safe treeOf) (h : s.next treeOf step = some s')
    (hview : s'.view id = s.view id) (hfinals : s'.finals id = s.finals id)
    (hocc : s'.Occupies treeOf id workspace) : s.Occupies treeOf id workspace := by
  obtain ⟨hl, hunkept, row, hrow, hpath⟩ := hocc
  refine ⟨?_, fun hk => hunkept (hs.keeps_next h hfinals hk), row, ?_, hpath⟩
  · rw [Launched, ← hfinals]
    exact hl
  · exact (congrArg View.row hview).symm.trans hrow

theorem Safe.safe_of_ne (hs : s.Safe treeOf) (h : s.next treeOf step = some s')
    (hview : s'.view id = s.view id) (hfinals : s'.finals id = s.finals id)
    (hrow : s'.stored id = some row) :
    (s'.view id).Safe row (s'.Launched id) (s'.Keeps treeOf id) := by
  have hlaunched : s'.Launched id = s.Launched id := by rw [Launched, Launched, hfinals]
  rw [hview, hlaunched]
  refine (hs.safe ?_).mono fun _ hk => hs.keeps_next h hfinals hk
  exact (congrArg View.row hview).symm.trans hrow

theorem Safe.next_of_edit (hs : s.Safe treeOf) {c : Checkout}
    (h : s.next treeOf (.edit p c) = some s') : s'.Safe treeOf := by
  obtain ⟨hp, hview, hcheckouts, hfinals⟩ := edit_spec h
  have hloud := s.loud_of_mem hp
  have hstored : ∀ {id}, s'.stored id = s.stored id := congrArg View.row (hview _)
  have hself : s'.finals p.executionId = some c := by rw [hfinals, Function.update_self]
  have hother : ∀ {id}, id ≠ p.executionId → s'.finals id = s.finals id := fun hne => by
    rw [hfinals, Function.update_of_ne hne]
  -- The checkout is that of the execution of the provider.
  have hpath : ∀ {row}, s.stored p.executionId = some row →
      row.checkpoint.workspacePath = some p.workspace := fun hrow =>
    (hs.kept hrow).path_of_mem (mem_providers.mp hp)
  have hworkspace : ∀ {workspace}, s'.Occupies treeOf p.executionId workspace →
      workspace = p.workspace := by
    rintro workspace ⟨-, -, row, hrow, hrowPath⟩
    rw [hstored] at hrow
    exact some.inj (hrowPath.symm.trans (hpath hrow))
  refine hs.of_next rfl h ?_ ?_ ?_ ?_
  · intro id hnone
    rw [hstored] at hnone
    rw [hother]
    · exact hs.unlaunched hnone
    · rintro rfl
      exact hloud (hs.absent hnone)
  · intro id row hrow
    by_cases hid : id = p.executionId
    · subst hid
      rw [hstored] at hrow
      have hlaunched : s'.Launched p.executionId = s.Launched p.executionId := by
        have := (hs.safe hrow).loud hloud
        rw [Launched] at this ⊢
        simp [Launched, hself, this]
      rw [hview, hlaunched]
      exact (hs.safe hrow).of_loud (hs.kept hrow) hloud
    · exact hs.safe_of_ne h (hview id) (hother hid) hrow
  · intro id workspace hocc
    by_cases hid : id = p.executionId
    · subst hid
      rw [hself, hcheckouts, hworkspace hocc, Function.update_self]
    · -- The workspace of another execution is not the one that was written to.
      have hocc₀ := hs.occupies_of_ne h (hview id) (hother hid) hocc
      have hne : workspace ≠ p.workspace := fun hw => hid (hs.tenants hocc₀ p hp hw.symm).symm
      rw [hother hid, hcheckouts, Function.update_of_ne hne]
      exact hs.held hocc₀
  · intro id workspace hocc
    by_cases hid : id = p.executionId
    · subst hid
      exact .inr (.inr ⟨p, hp, rfl, (hworkspace hocc).symm⟩)
    · exact .inl (hs.occupies_of_ne h (hview id) (hother hid) hocc)

/-- A lane releases its provider. -/
theorem release_spec (hs : s.Exclusive) (h : s.next treeOf (.lane id .release) = some s') :
    ∃ l c copy row, s.lane id = some l ∧ l.phase = .recorded c copy ∧ s.stored id = some row ∧
      s'.view id = (s.view id).moved s.clock l
        { phase := some (.running c copy), providers := .released copy.toLaunch } ∧
      (∀ id', id' ≠ id → s'.view id' = s.view id') ∧ s'.checkouts = s.checkouts ∧
      s'.finals = Function.update s.finals id (some (s.checkouts l.workspace)) := by
  obtain ⟨l, c, copy, hlane, hphase⟩ := release_phase h
  obtain rfl : l.executionId = id := key_of_find? hlane
  obtain ⟨row, hrow, hepoch⟩ := hs.lane_row hlane
  have hkeeps := (hs.kept hrow).phase l hlane
  rw [hphase] at hkeeps
  have hpath : copy.toLaunch.workspacePath = some l.workspace := hkeeps.2.1.copy_path
  have hplan : s.plan treeOf l .release =
      some { phase := some (.running c copy), providers := .released copy.toLaunch } := by
    rw [plan, hphase]
    rfl
  rw [next, hlane, bind_some, hplan, bind_some] at h
  obtain ⟨hself, hother, -⟩ := perform_view h hlane hrow hepoch
  refine ⟨l, c, copy, row, hlane, hphase, hrow, hself, hother, ?_⟩
  rw [perform, map_eq_some_iff] at h
  obtain ⟨_, hcommit, rfl⟩ := h
  rw [goOn_checkouts, goOn_finals, ← (commit_finals hcommit).1, ← (commit_finals hcommit).2]
  simp [change, hpath]

theorem Safe.next_of_release (hs : s.Safe treeOf)
    (h : s.next treeOf (.lane id .release) = some s') : s'.Safe treeOf := by
  obtain ⟨l, c, _, row₀, hlane, hphase, hrow₀, hself, hview, hcheckouts, hfinals⟩ :=
    release_spec hs.toExclusive h
  have hkeeps := (hs.kept hrow₀).phase l hlane
  have hsited := (hs.safe hrow₀).phase l hlane
  rw [hphase] at hkeeps hsited
  obtain ⟨_, _, hstored, hmarked⟩ := hkeeps
  have hlaunching : l.phase.isLaunching := by rw [hphase]; rfl
  have hholds := Phase.holdsLock_of_launching hlaunching
  have hpath := ((hs.kept hrow₀).phase l hlane).path hlaunching
  have hfinal : s'.finals id = some (s.checkouts l.workspace) := by
    rw [hfinals, Function.update_self]
  have hother : ∀ {id'}, id' ≠ id → s'.finals id' = s.finals id' := fun hne => by
    rw [hfinals, Function.update_of_ne hne]
  have hrow : ∀ {row}, s'.stored id = some row → row = row₀ := by
    intro row hrow
    have : (s'.view id).row = some row₀ := by
      rw [hself, View.moved_row, view, hrow₀]
      rfl
    exact some.inj (hrow.symm.trans this)
  have hworkspace : ∀ {workspace}, s'.Occupies treeOf id workspace → workspace = l.workspace := by
    rintro workspace ⟨-, -, row, hstored', hrowPath⟩
    rw [hrow hstored'] at hrowPath
    exact some.inj (hrowPath.symm.trans hpath)
  have hstage : (s.view id).stage = none := by
    cases hstage : (s.view id).stage with
    | none => rfl
    | some stage =>
      have := ((hs.kept hrow₀).aside (by rw [hstage]; rfl) l hlane).2
      rw [hlaunching] at this
      cases this
  refine hs.of_next rfl h ?_ ?_ ?_ ?_
  · intro id' hnone
    by_cases hid : id' = id
    · subst hid
      have : (s'.view id').row = some row₀ := by
        rw [hself, View.moved_row, view, hrow₀]
        rfl
      cases hnone.symm.trans this
    · rw [hother hid]
      exact hs.unlaunched ((congrArg View.row (hview id' hid)).symm.trans hnone)
  · intro id' row hrow'
    by_cases hid : id' = id
    · subst hid
      cases hrow hrow'
      have hplace : row₀.checkpoint.workspacePath = some l.workspace ∧
          row₀.checkpoint.repositoryId = some l.repositoryId ∧ row₀.checkpoint.initialized := by
        rw [hstored]
        exact ⟨hsited.2.path, hsited.2.repository, hsited.2.initialized trivial⟩
      rw [hself]
      refine ⟨fun _ => ?_, fun _ => .inl hmarked, ?_, ?_, ?_,
        fun _ => by rw [Launched, hfinal]; rfl⟩
      · rw [hplace.1, hplace.2.1]
        exact ⟨rfl, rfl, hplace.2.2⟩
      · rintro _ ⟨⟩
        exact hsited
      · intro _ stage h
        rw [View.moved_stage, hstage] at h
        cases h
      · rintro - _ ⟨⟩ -
        rw [View.moved_stage]
        exact ⟨hstage, hplace.1⟩
    · exact hs.safe_of_ne h (hview id' hid) (hother hid) hrow'
  · intro id' workspace hocc
    by_cases hid : id' = id
    · subst hid
      rw [hfinal, hcheckouts, hworkspace hocc]
    · rw [hother hid, hcheckouts]
      exact hs.held (hs.occupies_of_ne h (hview id' hid) (hother hid) hocc)
  · intro id' workspace hocc
    by_cases hid : id' = id
    · subst hid
      exact .inr (.inl ⟨l, hlane, hholds, (hworkspace hocc).symm⟩)
    · exact .inl (hs.occupies_of_ne h (hview id' hid) (hother hid) hocc)

theorem Safe.next (hs : s.Safe treeOf) (hguard : s.preserves treeOf step)
    (h : s.next treeOf step = some s') : s'.Safe treeOf := by
  rcases next_finals h with ⟨p, c, rfl⟩ | ⟨id, rfl⟩ | ⟨hfinals, hcheckouts⟩
  · exact hs.next_of_edit h
  · exact hs.next_of_release h
  · by_cases hstep : ∃ id, step = .lane id .release
    · obtain ⟨id, rfl⟩ := hstep
      exact hs.next_of_release h
    · exact hs.next_of_still hguard h (fun id heq => hstep ⟨id, heq⟩) hfinals hcheckouts

theorem safe_initial (checkouts : WorkspacePath → Checkout) : (initial checkouts).Safe treeOf where
  toExclusive := exclusive_initial checkouts
  unclaimed := (evident_initial checkouts).unclaimed
  acknowledged := (evident_initial checkouts).acknowledged
  finishes := (evident_initial checkouts).finishes
  unlaunched _ := rfl
  safe h := by cases h
  held h := by cases h.launched
  pairs p hp := by cases hp
  tenants h := by cases h.launched
  locked h := by cases h.launched

theorem ReachableBy.safe {checkouts : WorkspacePath → Checkout}
    (h : (workerDaemon treeOf checkouts).ReachableBy (preserves treeOf · ·) s) : s.Safe treeOf := by
  refine h.invariant ?_ fun s _ s' hs hguard hstep => hs.next hguard hstep
  rintro _ rfl
  exact safe_initial checkouts

end Daemon

/-- Work is preserved before it is released.  In every run that meets the condition, when the
stop receipt of an execution is claimed for delivery, the control plane has acknowledged the
discovery of the `HEAD` that its provider has left in the checkout and, unless the checkout
was clean, of a commit that has the files of the checkout. -/
theorem work_preserved {treeOf : Id → Tree} {checkouts : WorkspacePath → Checkout} {s : Daemon}
    (hs : (workerDaemon treeOf checkouts).ReachableBy (Daemon.preserves treeOf · ·) s)
    {horizon now seconds : Int} {destination : Destination} {token : Id} {entry : JournalEntry}
    {j' : Journal}
    (hclaim : s.journal.claim horizon now seconds destination token = .ok (some entry, j'))
    (hfinish : entry.envelope.payload.isFinish) :
    ∀ c, s.finals entry.envelope.executionId = some c → c.Preserved treeOf fun oid =>
      ∃ op ∈ s.acknowledged, op.Records entry.envelope.executionId oid := by
  intro c hc
  have hs₀ := Daemon.ReachableBy.safe hs
  obtain ⟨row, hrow, hunmarked⟩ := hs₀.unmarked_of_claim hclaim hfinish
  have hlaunched : s.Launched entry.envelope.executionId := by rw [Daemon.Launched, hc]; rfl
  rcases (hs₀.safe hrow).marked hlaunched with hmarked | hkeeps
  · cases hunmarked.symm.trans hmarked
  · refine (hkeeps c hc).mono fun oid hoid => ?_
    exact hs₀.acknowledged_of_claim hclaim hfinish (hoid.resolve_right not_mem_nil)

namespace Installation

/-- The trees of the commits of a run: `HEAD` is empty, `2` has a staged file and `3` has the
same file with other content. -/
def trees (oid : Id) : Tree :=
  if oid = 2 then {(5, 1)} else if oid = 3 then {(5, 2)} else ∅

/-- A provider leaves a checkout, its lane takes the snapshot and enqueues the stop receipt, and
the discovered commits are delivered. -/
def leaving (checkout : Checkout) (commits : List Id) : List DaemonStep :=
  [ .pass .start, .pass .finish ] ++ granted 1 1 (.other 1) ++ [ .lane 1 .check ] ++ gated 1 101
  ++ [ .lane 1 .release, .edit ⟨1, .other 1, 101⟩ checkout, .lane 1 (.stop .confirmed true)
     , .lane 1 .settle, .lane 1 (.stopContainer true .succeeded), .lane 1 (.close .succeeded true)
     , .lane 1 (.snapshot 2 3 [1]) ]
  ++ commits.map (fun oid => .lane 1 (.discover (20 + oid) 7))
  ++ [ .lane 1 .snapshotted, .lane 1 .seal, .lane 1 (.announce ⟨31, 8, { status := .succeeded }⟩ 0)
     , .lane 1 .enqueue, .lane 1 .clear ]
  ++ commits.flatMap fun oid =>
    [ .journal (.claim 1000 60 .api (40 + oid))
    , .journal (.settle (20 + oid) (40 + oid) .acknowledged 0 none) ]

/-- The provider has left an untracked file. -/
def untracked : Daemon :=
  System.replay (Daemon.next trees) (Daemon.preserves trees)
    (leaving ⟨1, ∅, false, {(5, 2)}, ∅⟩ [3, 1]) (.initial fun _ => ⟨1, ∅, false, ∅, ∅⟩)

/-- The provider has staged an ignored file and changed it again. -/
def overwritten : Daemon :=
  System.replay (Daemon.next trees) (fun _ _ => true)
    (leaving ⟨1, {(5, 1)}, false, {(5, 2)}, {5}⟩ [2, 1]) (.initial fun _ => ⟨1, ∅, false, ∅, ∅⟩)

/-- What a claim hands out to a deliverer. -/
def handed (s : Daemon) : Option JournalEntry :=
  match s.journal.claim 1000 0 60 .api 99 with
  | .ok (entry, _) => entry
  | .error _ => none

theorem claim_of_handed {entry : JournalEntry} (h : handed s = some entry) :
    ∃ j', s.journal.claim 1000 0 60 .api 99 = .ok (some entry, j') := by
  rw [handed] at h
  split at h
  · rename_i j' hclaim
    subst h
    exact ⟨j', hclaim⟩
  · cases h

end Installation

/-- An untracked file is in an acknowledged commit when the stop receipt is claimed. -/
theorem work_preserved_untracked :
    ∃ c, untracked.finals 1 = some c ∧ c.isClean trees = false ∧
      c.Preserved trees fun oid =>
        ∃ op ∈ untracked.acknowledged, op.Records 1 oid := by
  have hhanded : (handed untracked).any (fun entry =>
      entry.envelope.payload.isFinish && entry.envelope.executionId == 1) = true := by
        decide +kernel
  obtain ⟨entry, hentry, hfinish⟩ := (any_eq_true _ _).mp hhanded
  rw [Bool.and_eq_true, beq_iff_eq] at hfinish
  obtain ⟨j', hclaim⟩ := claim_of_handed hentry
  have hfinal : untracked.finals 1 = some ⟨1, ∅, false, {(5, 2)}, ∅⟩ := by decide +kernel
  refine ⟨_, hfinal, by decide +kernel, ?_⟩
  have hreach : (workerDaemon trees fun _ => ⟨1, ∅, false, ∅, ∅⟩).ReachableBy
      (Daemon.preserves trees · ·) untracked :=
    System.replay_reachable _ _ _
  have := work_preserved hreach hclaim hfinish.1
  rw [hfinish.2] at this
  exact this _ hfinal

/-- An operation that does not record the content of the file. -/
def Installation.misses (op : WorkerOperation) : Bool :=
  match op.payload with
  | .publication .discovered _ oid => decide (trees oid ≠ {(5, 2)})
  | _ => true

/-- The content of a file that is ignored, staged and changed again is lost: the stop receipt is
claimed, and no acknowledged commit has the files that the provider has left. -/
theorem staged_file_lost :
    ∃ s entry j' c, (workerDaemon trees fun _ => ⟨1, ∅, false, ∅, ∅⟩).Reachable s ∧
      s.journal.claim 1000 0 60 .api 99 = .ok (some entry, j') ∧ entry.envelope.payload.isFinish ∧
      s.finals entry.envelope.executionId = some c ∧
      ¬ c.Preserved trees fun oid =>
        ∃ op ∈ s.acknowledged, op.Records entry.envelope.executionId oid := by
  have hhanded : (handed overwritten).any (fun entry =>
      entry.envelope.payload.isFinish && entry.envelope.executionId == 1) = true := by
        decide +kernel
  obtain ⟨entry, hentry, hfinish⟩ := (any_eq_true _ _).mp hhanded
  rw [Bool.and_eq_true, beq_iff_eq] at hfinish
  obtain ⟨j', hclaim⟩ := claim_of_handed hentry
  have hfinal : overwritten.finals 1 = some ⟨1, {(5, 1)}, false, {(5, 2)}, {5}⟩ := by
    decide +kernel
  have hlost : overwritten.acknowledged.all misses = true := by decide +kernel
  refine ⟨overwritten, entry, j', _, (System.replay_reachable _ _ _).reachable, hclaim,
    hfinish.1, by rw [hfinish.2]; exact hfinal, ?_⟩
  rintro ⟨-, hdirty⟩
  obtain ⟨oid, ⟨op, hop, -, _, hpayload⟩, htree⟩ := hdirty (by decide +kernel)
  have := all_eq_true.mp hlost op hop
  rw [misses, hpayload] at this
  exact of_decide_eq_true this (htree.trans (by decide +kernel))

end Horizon
