import Horizon.Worker.Views

/-!
# Exclusive workspaces

A provider runs alone in its workspace.  The daemon keeps others out by a lock on the
workspace while a lane is at work, and by the recovery mark of the stored checkpoint while
a session or a container is not confirmed to have stopped.  So two things have to hold: what
is stored of an execution leads to every provider of it that may be alive (`View.Kept`), and
a lane that has the lock of a workspace is alone there (`Daemon.Exclusive`).

`execute` looks for the marks before it takes the lock and not again, so a lane can enter
behind a lane that leaves a provider (`lock_without_check_enters`).  `provider_released_alone`
is about the runs in which this does not happen.
-/

namespace Horizon

open List LocalExecution

variable {m : Move} {cleanupFailed includeRunning : Bool} {outcome : ExecutionOutcome}
  {name : LockName}
  {rows : List LocalExecution} {pstep : PassStep} {phase' phase : Phase} {s : Daemon}
  {treeOf : Id → Tree} {stage : Stage} {clock : HostClock} {row prow : LocalExecution}
  {stored value c : Checkpoint} {l : Lane} {v' v : View} {id : Id} {dead' dead : Prop}
  {workspace : WorkspacePath} {launch : Launch} {lstep : LaneStep} {p : Provider}

/-! ## The condition -/

namespace Daemon

/-- The sessions and containers that were not confirmed to have stopped. -/
def providers (s : Daemon) : List Provider := s.sessions ++ s.containers

/-- Whether a listed row still has the launch data that are stored. -/
def isCurrent (s : Daemon) (row : LocalExecution) : Bool :=
  (s.stored row.executionId).all fun current =>
    decide (current.checkpoint.toLaunch = row.checkpoint.toLaunch)

/-- A lane takes a lock while no other execution is marked in its workspace, a failed stop of
a session is one that is known to be unconfirmed, and a recovery works from launch data that
are still the stored ones. -/
def excludes (s : Daemon) : DaemonStep → Bool
  | .lane id .lock => (s.lane id).all fun l => !s.hasPending id l.workspace
  | .lane _ (.stop .failed _) => false
  | .pass .take | .pass (.fail _) => s.pass.all fun p => p.rows.head?.all s.isCurrent
  | _ => true

end Daemon

/-! ## What is stored leads to the providers -/

/-- No session and no container of an execution is left. -/
def View.Quiet (v : View) : Prop := v.sessions = [] ∧ v.containers = []

/-- Launch data that lead to every provider of an execution. -/
structure Launch.Covers (launch : Launch) (v : View) : Prop where
  sessions : ∀ p ∈ v.sessions, launch.workspacePath = some p.workspace ∧
    launch.process = some p.name ∧ launch.requestId.isSome
  containers : ∀ p ∈ v.containers, launch.workspacePath = some p.workspace ∧
    launch.containerName = some p.name ∧ launch.requestId.isSome

/-- The checkpoint of `_execute`. -/
structure Checkpoint.At (workspace : WorkspacePath) (c : Checkpoint) : Prop where
  path : c.workspacePath = some workspace
  process : c.process = none
  marked : c.recoveryPending

/-- The copy of it that `ProcessSupervisor.run` keeps for a request. -/
structure Checkpoint.Copies (copy : Checkpoint) (workspace : WorkspacePath) (c : Checkpoint) : Prop
    extends c.At workspace where
  copy_path : copy.workspacePath = some workspace
  name : copy.containerName = c.containerName
  request : copy.requestId.isSome
  copy_marked : copy.recoveryPending

theorem Checkpoint.Copies.leaves {c copy : Checkpoint} (h : copy.Copies workspace c)
    (hstored : stored.toLaunch = copy.toLaunch) :
    c.At workspace ∧ stored.workspacePath = some workspace
      ∧ stored.containerName = c.containerName :=
  ⟨h.toAt, (congrArg Launch.workspacePath hstored).trans h.copy_path,
    (congrArg Launch.containerName hstored).trans h.name⟩

/-- The phases from the start of a request to the removal of its container. -/
def Phase.isLaunching : Phase → Bool
  | begun .. | saved .. | spawned .. | recorded .. | running .. | returning .. | leaving .. => true
  | _ => false

theorem Phase.holdsLock_of_launching (h : phase.isLaunching) : phase.holdsLock := by
  cases phase with
  | begun | saved | spawned | recorded | running | returning | leaving => rfl
  | _ => cases h

/-- The phases in which a lane asks no more than that no provider is left. -/
def Phase.isStill : Phase → Bool
  | working _ => false
  | phase => !phase.isLaunching

/-- What the phase of a lane says about the providers of its execution and the checkpoint that
is stored.  `dead` says that the lease is lost. -/
def Phase.Keeps (workspace : WorkspacePath) (stored : Checkpoint) (dead : Prop) (v : View) :
    Phase → Prop
  | expired | claimed | checked | entered | refused .. | clearing _ | preserving .. | sealing ..
  | sealed .. | receipted .. => v.Quiet
  | working c => v.Quiet ∧ c.At workspace ∧ (stored.workspacePath = some workspace ∨ dead)
  | begun c copy | saved c copy | spawned c copy =>
    v.Quiet ∧ copy.Copies workspace c ∧ stored.workspacePath = some workspace
  | recorded c copy =>
    v.Quiet ∧ copy.Copies workspace c ∧ stored.toLaunch = copy.toLaunch ∧ stored.recoveryPending
  | running c copy => copy.Copies workspace c ∧ stored.toLaunch = copy.toLaunch
  | returning c copy => v.sessions = [] ∧ copy.Copies workspace c ∧ stored.toLaunch = copy.toLaunch
  | leaving c returned cleanupFailed =>
    (cleanupFailed = false → v.sessions = []) ∧ (returned → cleanupFailed = false) ∧
      c.At workspace ∧ stored.workspacePath = some workspace
      ∧ stored.containerName = c.containerName
  | closing _ c cleanupFailed _ => c.toLaunch.Covers v ∧ (cleanupFailed = false → v.Quiet)
  | deferring c => c.toLaunch.Covers v
  | raised => True

/-- What the stage of a recovery says about the providers of its execution. -/
def Stage.Keeps (v : View) : Stage → Prop
  | locked => True
  | halting c _ => c.toLaunch.Covers v
  | haltingContainer c _ => c.toLaunch.Covers v ∧ v.sessions = []
  | halted .. | fenced .. | preserving .. | preserved .. | recorded .. | enqueued _ => v.Quiet

/-- What is stored of an execution leads to its providers, and the threads at work on it know
of them. -/
structure View.Kept (clock : HostClock) (v : View) (row : LocalExecution) : Prop where
  covers : row.checkpoint.toLaunch.Covers v
  marked : ¬ v.Quiet → row.checkpoint.recoveryPending
  phase : ∀ l, v.lane = some l → l.phase.Keeps l.workspace row.checkpoint (¬ row.Holds clock) v
  stage : ∀ name stage, v.stage = some (name, stage) → stage.Keeps v
  /-- A lane whose execution is being recovered has lost its lease, and launches nothing. -/
  aside : v.stage.isSome → ∀ l, v.lane = some l → ¬ row.Holds clock ∧ l.phase.isLaunching = false

theorem View.Quiet.covers (h : v.Quiet) : launch.Covers v where
  sessions p hp := by rw [h.1] at hp; cases hp
  containers p hp := by rw [h.2] at hp; cases hp

/-- No provider is new. -/
structure View.Within (v' v : View) : Prop where
  sessions : v'.sessions ⊆ v.sessions
  containers : v'.containers ⊆ v.containers

theorem View.Within.of_eq (hsessions : v'.sessions = v.sessions)
    (hcontainers : v'.containers = v.containers) : v'.Within v :=
  ⟨hsessions ▸ Subset.refl _, hcontainers ▸ Subset.refl _⟩

/-- A launch covers what is left of the providers it covers. -/
theorem Launch.Covers.mono (h : launch.Covers v) (hle : v'.Within v) : launch.Covers v' where
  sessions p hp := h.sessions p (hle.sessions hp)
  containers p hp := h.containers p (hle.containers hp)

/-- A checkpoint that has bound nothing covers nothing. -/
theorem Launch.Covers.quiet (h : launch.Covers v) (hbound : launch.isBound = false) : v.Quiet := by
  have hrequest : launch.requestId.isSome = false := by
    simp only [Launch.isBound, Bool.or_eq_false_iff] at hbound
    exact hbound.1.2
  constructor
  · refine eq_nil_iff_forall_not_mem.mpr fun p hp => ?_
    rw [(h.sessions p hp).2.2] at hrequest
    cases hrequest
  · refine eq_nil_iff_forall_not_mem.mpr fun p hp => ?_
    rw [(h.containers p hp).2.2] at hrequest
    cases hrequest

/-- The providers of a view are those of its execution. -/
structure View.Of (v : View) (id : Id) : Prop where
  sessions : ∀ p ∈ v.sessions, p.executionId = id
  containers : ∀ p ∈ v.containers, p.executionId = id

/-- The session that covering launch data name is the only one. -/
theorem Launch.Covers.filter_sessions (h : launch.Covers v) (hv : v.Of id) :
    v.sessions.filter (!·.isOf id launch.process) = [] := by
  refine filter_eq_nil_iff.mpr fun p hp => ?_
  simp [Provider.isOf, hv.sessions p hp, (h.sessions p hp).2.1]

theorem Launch.Covers.filter_containers (h : launch.Covers v) (hv : v.Of id) :
    v.containers.filter (!·.isOf id launch.containerName) = [] := by
  refine filter_eq_nil_iff.mpr fun p hp => ?_
  simp [Provider.isOf, hv.containers p hp, (h.containers p hp).2.1]

theorem Phase.keeps_of_still (hstill : phase.isStill) (hv : v.Quiet) :
    phase.Keeps workspace stored dead v := by
  cases phase with
  | closing => exact ⟨hv.covers, fun _ => hv⟩
  | deferring => exact hv.covers
  | raised => trivial
  | working | begun | saved | spawned | recorded | running | returning | leaving => cases hstill
  | _ => exact hv

section

theorem View.Within.sessions_nil (hle : v'.Within v) (h : v.sessions = []) : v'.sessions = [] :=
  subset_nil.mp (h ▸ hle.sessions)

theorem View.Quiet.mono (h : v.Quiet) (hle : v'.Within v) : v'.Quiet :=
  ⟨hle.sessions_nil h.1, subset_nil.mp (h.2 ▸ hle.containers)⟩

section

variable (h : phase.Keeps workspace stored dead v)

include h

theorem Phase.Keeps.mono (hdead : dead → dead') (hle : v'.Within v) :
    phase.Keeps workspace stored dead' v' := by
  cases phase with
  | working c => exact ⟨h.1.mono hle, h.2.1, h.2.2.imp_right hdead⟩
  | begun | saved | spawned | recorded => exact ⟨h.1.mono hle, h.2⟩
  | running | raised => exact h
  | returning => exact ⟨hle.sessions_nil h.1, h.2⟩
  | leaving => exact ⟨fun hfailed => hle.sessions_nil (h.1 hfailed), h.2⟩
  | closing => exact ⟨h.1.mono hle, fun hfailed => (h.2 hfailed).mono hle⟩
  | deferring => exact Launch.Covers.mono h hle
  | _ => exact View.Quiet.mono h hle

/-- A phase asks of the stored checkpoint only its launch data and its mark. -/
theorem Phase.Keeps.same_launch
    (hlaunch : value.toLaunch = stored.toLaunch) (hmarked : value.recoveryPending) :
    phase.Keeps workspace value dead v := by
  have hpath : value.workspacePath = stored.workspacePath := congrArg Launch.workspacePath hlaunch
  cases phase with
  | working => exact ⟨h.1, h.2.1, h.2.2.imp_left hpath.trans⟩
  | begun | saved | spawned => exact ⟨h.1, h.2.1, hpath.trans h.2.2⟩
  | recorded => exact ⟨h.1, h.2.1, hlaunch.trans h.2.2.1, hmarked⟩
  | running => exact ⟨h.1, hlaunch.trans h.2⟩
  | returning => exact ⟨h.1, h.2.1, hlaunch.trans h.2.2⟩
  | leaving =>
    obtain ⟨h₁, h₂, h₃, h₄, h₅⟩ := h
    exact ⟨h₁, h₂, h₃, hpath.trans h₄, (congrArg Launch.containerName hlaunch).trans h₅⟩
  | _ => exact h

/-- A lane that has lost its lease and launches nothing does not ask what is stored. -/
theorem Phase.Keeps.of_dead {stored' : Checkpoint}
    (hlaunching : phase.isLaunching = false) (hdead : dead') (hle : v'.Within v) :
    phase.Keeps workspace stored' dead' v' := by
  have h' := h.mono (fun _ => hdead) hle
  cases phase with
  | working => exact ⟨h'.1, h'.2.1, .inr hdead⟩
  | begun | saved | spawned | recorded | running | returning | leaving => cases hlaunching
  | _ => exact h'

/-- A lane that launches has its workspace stored. -/
theorem Phase.Keeps.path (hlaunching : phase.isLaunching) :
    stored.workspacePath = some workspace := by
  cases phase with
  | begun | saved | spawned => exact h.2.2
  | recorded => exact (congrArg Launch.workspacePath h.2.2.1).trans h.2.1.copy_path
  | running => exact (congrArg Launch.workspacePath h.2).trans h.1.copy_path
  | returning => exact (congrArg Launch.workspacePath h.2.2).trans h.2.1.copy_path
  | leaving => exact h.2.2.2.1
  | _ => cases hlaunching

end

theorem Stage.Keeps.mono (h : stage.Keeps v) (hle : v'.Within v) : stage.Keeps v' := by
  cases stage with
  | locked => trivial
  | halting => exact Launch.Covers.mono h hle
  | haltingContainer => exact ⟨h.1.mono hle, hle.sessions_nil h.2⟩
  | _ => exact View.Quiet.mono h hle

end

/-- A write does not bring a lost lease back. -/
theorem LocalExecution.holds_of_written {w : Write} (hlease : w.needsLease → row.Holds clock)
    (h : (row.written clock w).Holds clock) : row.Holds clock := by
  cases w with
  | fence _ => cases h.2.1
  | renew _ => exact hlease rfl
  | nothing | checkpoint | begin | receipt | discovery => exact h

/-! ## Lanes -/

/-- What a move of a lane does for the providers of its execution. -/
structure Move.Keeps (clock : HostClock) (l : Lane) (isLaunching : Bool) (row : LocalExecution)
    (v : View) (m : Move) : Prop where
  covers : (row.written clock m.write).checkpoint.toLaunch.Covers (v.moved clock l m)
  marked : ¬ (v.moved clock l m).Quiet → (row.written clock m.write).checkpoint.recoveryPending
  phase : ∀ phase', m.phase = some phase' → phase'.Keeps l.workspace
    (row.written clock m.write).checkpoint (¬ (row.written clock m.write).Holds clock)
    (v.moved clock l m)
  /-- A request starts under a lease. -/
  launches : isLaunching = false → m.providers = .unchanged ∧
    ∀ phase', m.phase = some phase' → phase'.isLaunching → m.write.needsLease
  released : ∀ launch, m.providers = .released launch →
    isLaunching ∧ launch.workspacePath = some l.workspace

theorem View.Within.of_unchanged (h : m.providers = .unchanged) : (v.moved clock l m).Within v := by
  refine .of_eq ?_ ?_
  all_goals
    rw [View.moved, h]
    rfl

namespace Move.Keeps

variable {isLaunching : Bool} {next : Phase}

/-- A move without providers. -/
theorem of_quiet (hv : v.Quiet) (hproviders : m.providers = .unchanged)
    (hlaunch : m.phase.all (!·.isLaunching) ∨ isLaunching ∨ m.write.needsLease)
    (hphase : (v.moved clock l m).Quiet → m.phase.elim True (·.Keeps l.workspace
      (row.written clock m.write).checkpoint (¬ (row.written clock m.write).Holds clock)
      (v.moved clock l m))) : m.Keeps clock l isLaunching row v := by
  have hquiet : (v.moved clock l m).Quiet := hv.mono (.of_unchanged hproviders)
  refine ⟨hquiet.covers, fun h => absurd hquiet h, fun phase' h => by simpa [h] using hphase hquiet,
    fun hfalse => ⟨hproviders, fun phase' h h' => ?_⟩, ?_⟩
  · rcases hlaunch with hlaunch | hlaunch | hlaunch
    · simp [h, h'] at hlaunch
    · rw [hfalse] at hlaunch
      cases hlaunch
    · exact hlaunch
  · intro _ h
    cases hproviders.symm.trans h

/-- A move to a still phase, or to none. -/
theorem of_still (hv : v.Quiet) (hproviders : m.providers = .unchanged)
    (hstill : m.phase.all (·.isStill)) : m.Keeps clock l isLaunching row v := by
  refine of_quiet hv hproviders (.inl ?_) fun hquiet => ?_
  · rw [Option.all_eq_true] at hstill ⊢
    intro phase' h
    have := hstill phase' h
    cases phase' with
    | begun | saved | spawned | recorded | running | returning | leaving => cases this
    | _ => rfl
  · cases h : m.phase with
    | none => trivial
    | some phase => exact Phase.keeps_of_still (by simpa [h] using hstill) hquiet

/-- A move that leaves the checkpoint and the providers alone. -/
theorem of_same (hkept : v.Kept clock row) (hvalue : m.write.value? = none)
    (hproviders : m.providers = .unchanged)
    (hphase : m.phase.elim True (·.Keeps l.workspace row.checkpoint
      (¬ (row.written clock m.write).Holds clock) (v.moved clock l m)))
    (hlaunch : m.phase.all (!·.isLaunching) ∨ isLaunching ∨ m.write.needsLease) :
    m.Keeps clock l isLaunching row v := by
  have hcheckpoint : (row.written clock m.write).checkpoint = row.checkpoint := by
    rw [written_checkpoint, hvalue]
    rfl
  refine ⟨?_, ?_, fun phase' h => ?_, fun hfalse => ⟨hproviders, fun phase' h h' => ?_⟩, ?_⟩
  · rw [hcheckpoint]
    exact hkept.covers.mono (.of_unchanged hproviders)
  · rw [hcheckpoint, View.moved, hproviders]
    exact hkept.marked
  · rw [hcheckpoint]
    rwa [h] at hphase
  · rcases hlaunch with hlaunch | hlaunch | hlaunch
    · simp [h, h'] at hlaunch
    · cases hfalse.symm.trans hlaunch
    · exact hlaunch
  · intro _ h
    cases hproviders.symm.trans h

end Move.Keeps

namespace Daemon

variable {step : LaneStep}

theorem approach_keeps (hplan : s.approach l step phase = some m)
    (hrow : s.stored l.executionId = some row) (hkept : v.Kept clock row)
    (hphase : phase.Keeps l.workspace row.checkpoint (¬ row.Holds clock) v) :
    m.Keeps clock l phase.isLaunching row v := by
  simp only [approach] at hplan
  split at hplan
  case h_6 terminal outcome by_ =>
    -- emit
    cases hplan
    cases by_ with
    | runOnce | execute | handler => exact .of_still hphase rfl rfl
  case h_8 outcome by_ =>
    -- emitFails
    cases hplan
    cases by_ with
    | runOnce | handler | execute => exact .of_still hphase rfl rfl
  case h_9 | h_10 =>
    -- check; lock
    cases hplan
    split
    · exact .of_still hphase rfl rfl
    · exact .of_still hphase rfl rfl
  case h_14 =>
    -- handle: without a bound checkpoint nothing was launched
    rw [hrow, Option.map_some] at hplan
    cases hplan
    split
    · exact .of_same hkept rfl rfl trivial (.inl rfl)
    · rename_i h
      exact .of_still (hkept.covers.quiet (by simpa using h)) rfl rfl
  case h_15 =>
    -- abandon
    cases hplan
    exact .of_same hkept rfl rfl trivial (.inl rfl)
  case h_17 =>
    cases hplan
  all_goals
    cases hplan
    exact .of_still hphase rfl rfl

/-- The copy covers the provider that is released under it. -/
theorem released_covers (hquiet : v.Quiet)
    (hpath : launch.workspacePath = some l.workspace) (hrequest : launch.requestId.isSome)
    {phase' : Option Phase} :
    launch.Covers (v.moved clock l { phase := phase', providers := .released launch }) := by
  have hmoved : v.moved clock l { phase := phase', providers := .released launch } =
      { v.written clock l.executionId l.epoch .nothing with
        lane := phase'.map fun phase => { l with phase }
        sessions := launch.process.toList.map (Provider.mk l.executionId l.workspace)
        containers :=
          launch.containerName.toList.map (Provider.mk l.executionId l.workspace) } := by
    simp [View.moved, View.changed, hpath, View.written, hquiet.1, hquiet.2]
  rw [hmoved]
  constructor
  · intro p hp
    obtain ⟨name, hname, rfl⟩ := mem_map.mp hp
    exact ⟨hpath, Option.mem_toList.mp hname, hrequest⟩
  · intro p hp
    obtain ⟨name, hname, rfl⟩ := mem_map.mp hp
    exact ⟨hpath, Option.mem_toList.mp hname, hrequest⟩

/-- What `_execute` closes with covers the providers that its row covers. -/
theorem persisted_covers (hcovers : row.checkpoint.toLaunch.Covers v)
    (hc : c.At l.workspace) (hpath : row.checkpoint.workspacePath = some l.workspace)
    (hname : row.checkpoint.containerName = c.containerName) :
    (persisted row c).toLaunch.Covers v where
  sessions p hp := by
    obtain ⟨h₁, h₂, h₃⟩ := hcovers.sessions p hp
    refine ⟨hc.path.trans (hpath.symm.trans h₁), ?_, ?_⟩
    · simp [persisted, hc.process, h₂]
    · cases hr : c.requestId <;> simp [persisted, hr, h₃]
  containers p hp := by
    obtain ⟨h₁, h₂, h₃⟩ := hcovers.containers p hp
    refine ⟨hc.path.trans (hpath.symm.trans h₁), ?_, ?_⟩
    · simp [persisted, ← hname, h₂]
    · cases hr : c.requestId <;> simp [persisted, hr, h₃]

/-- A lane without providers enters the `finally` block. -/
theorem close_keeps {preservation : Preservation}
    (hplan : s.close l outcome c cleanupFailed preservation .unchanged = some m) (hv : v.Quiet)
    {isLaunching : Bool} : m.Keeps clock l isLaunching row v := by
  rw [close, Option.map_eq_some_iff] at hplan
  obtain ⟨_, -, rfl⟩ := hplan
  exact .of_still hv rfl rfl

/-- A lane that has tried to remove its container. -/
theorem stopContainer_keeps {returned removed : Bool}
    (hplan : s.supervise l (.stopContainer removed outcome)
      (.leaving c returned cleanupFailed) = some m)
    (hrow : s.stored l.executionId = some row) (hv : v.Of l.executionId)
    (hkept : v.Kept clock row)
    (hphase : Phase.Keeps l.workspace row.checkpoint (¬ row.Holds clock) v
      (.leaving c returned cleanupFailed)) : m.Keeps clock l true row v := by
  obtain ⟨hsessions, hreturned, hc, hpath, hname⟩ := hphase
  have hclosing := persisted_covers hkept.covers hc hpath hname
  have hcontainers : v.containers.filter (!·.isOf l.executionId c.containerName) = [] := by
    rw [← hname]
    exact hkept.covers.filter_containers hv
  simp only [supervise] at hplan
  split at hplan
  · -- the container may be left
    rw [close, hrow, Option.map_some] at hplan
    cases hplan
    refine ⟨hkept.covers.mono (.of_eq rfl rfl), hkept.marked, ?_, nofun, (fun _ h => by cases h)⟩
    rintro _ ⟨⟩
    exact ⟨hclosing.mono (.of_eq rfl rfl), nofun⟩
  · split at hplan
    · rename_i hreturn
      cases hplan
      have hquiet : View.Quiet (v.moved clock l
          { phase := some (.working c), providers := .containerRemoved c.containerName }) :=
        ⟨hsessions (hreturned hreturn), hcontainers⟩
      refine ⟨hquiet.covers, fun h => absurd hquiet h, ?_, nofun, (fun _ h => by cases h)⟩
      rintro _ ⟨⟩
      exact ⟨hquiet, hc, .inl hpath⟩
    · rw [close, hrow, Option.map_some] at hplan
      cases hplan
      refine ⟨hkept.covers.mono ⟨Subset.refl _, filter_subset_self _⟩, ?_, ?_, nofun,
        (fun _ h => by cases h)⟩
      · refine fun h => hkept.marked fun hv => h ⟨hv.1, hcontainers⟩
      · rintro _ ⟨⟩
        refine ⟨hclosing.mono ⟨Subset.refl _, filter_subset_self _⟩, fun h => ?_⟩
        exact ⟨hsessions h, hcontainers⟩

theorem supervise_keeps (hplan : s.supervise l step phase = some m)
    (hrow : s.stored l.executionId = some row) (hv : v.Of l.executionId)
    (hkept : v.Kept clock row)
    (hphase : phase.Keeps l.workspace row.checkpoint (¬ row.Holds clock) v)
    (hlease : m.write.needsLease → row.Holds clock)
    (hguard : ∀ returned, step ≠ .stop .failed returned) :
    m.Keeps clock l phase.isLaunching row v := by
  have hplan₀ := hplan
  have hcovers := hkept.covers
  simp only [supervise] at hplan
  split at hplan
  · -- flag
    cases hplan
    exact .of_quiet hphase rfl (.inl rfl) fun hquiet => ⟨hquiet, ⟨rfl, rfl, rfl⟩, .inl rfl⟩
  · -- initialise
    cases hplan
    obtain ⟨hquiet, hc, -⟩ := hphase
    exact .of_quiet hquiet rfl (.inl rfl) fun hquiet =>
      ⟨hquiet, ⟨hc.path, hc.process, hc.marked⟩, .inl hc.path⟩
  · -- nameContainer
    split at hplan
    · cases hplan
      obtain ⟨hquiet, hc, -⟩ := hphase
      exact .of_quiet hquiet rfl (.inl rfl) fun hquiet =>
        ⟨hquiet, ⟨hc.path, hc.process, hc.marked⟩, .inl hc.path⟩
    · cases hplan
  · -- begin
    split at hplan
    · cases hplan
      obtain ⟨hquiet, hc, hpath⟩ := hphase
      exact .of_quiet hquiet rfl (.inr (.inr rfl)) fun hquiet =>
        ⟨hquiet, ⟨hc, hc.path, rfl, rfl, hc.marked⟩, hpath.resolve_right fun h => h (hlease rfl)⟩
    · cases hplan
  · -- save
    cases hplan
    obtain ⟨hquiet, hcopy, hpath⟩ := hphase
    exact .of_quiet hquiet rfl (.inr (.inl rfl)) fun hquiet => ⟨hquiet, hcopy, hcopy.copy_path⟩
  · -- spawn
    split at hplan
    · cases hplan
      obtain ⟨hquiet, hcopy, hpath⟩ := hphase
      exact .of_quiet hquiet rfl (.inr (.inl rfl)) fun hquiet =>
        ⟨hquiet, ⟨hcopy.toAt, hcopy.copy_path, hcopy.name, hcopy.request, hcopy.copy_marked⟩, hpath⟩
    · cases hplan
  · -- recordProcess
    cases hplan
    obtain ⟨hquiet, hcopy, hpath⟩ := hphase
    exact .of_quiet hquiet rfl (.inr (.inl rfl)) fun hquiet =>
      ⟨hquiet, hcopy, rfl, hcopy.copy_marked⟩
  · -- release
    cases hplan
    obtain ⟨hquiet, hcopy, hstored, hmark⟩ := hphase
    refine ⟨?_, fun _ => hmark, ?_, nofun, ?_⟩
    · change row.checkpoint.toLaunch.Covers _
      rw [hstored]
      exact released_covers hquiet hcopy.copy_path hcopy.request
    · rintro _ ⟨⟩
      exact ⟨hcopy, hstored⟩
    · rintro _ ⟨⟩
      exact ⟨rfl, hcopy.copy_path⟩
  · -- observe
    cases hplan
    obtain ⟨hcopy, hstored⟩ := hphase
    refine ⟨?_, fun _ => hcopy.copy_marked, ?_, nofun, (fun _ h => by cases h)⟩
    · rw [hstored] at hcovers
      exact hcovers.mono (.of_eq rfl rfl)
    · rintro _ ⟨⟩
      exact ⟨hcopy, rfl⟩
  · -- stop: the session that the copy names is the only one
    rename_i returned c copy
    cases hplan
    obtain ⟨hcopy, hstored⟩ := hphase
    have hsessions : v.sessions.filter (!·.isOf l.executionId copy.process) = [] := by
      rw [hstored] at hcovers
      exact hcovers.filter_sessions hv
    refine ⟨hcovers.mono ⟨filter_subset_self _, Subset.refl _⟩, ?_, ?_, nofun,
      (fun _ h => by cases h)⟩
    · exact fun h => hkept.marked fun hv => h ⟨hsessions, hv.2⟩
    · rintro _ ⟨⟩
      cases returned with
      | true => exact ⟨hsessions, hcopy, hstored⟩
      | false =>
        exact ⟨fun _ => hsessions, nofun, hcopy.leaves hstored⟩
  · -- stop, unconfirmed
    cases hplan
    obtain ⟨hcopy, hstored⟩ := hphase
    exact .of_same hkept rfl rfl ⟨nofun, nofun, hcopy.leaves hstored⟩ (.inr (.inl rfl))
  · exact absurd rfl (hguard _)
  · -- settle
    cases hplan
    obtain ⟨hsessions, hcopy, hstored⟩ := hphase
    refine ⟨⟨fun p hp => ?_, fun p hp => ?_⟩, fun _ => hcopy.copy_marked, ?_, nofun,
      (fun _ h => by cases h)⟩
    · change p ∈ v.sessions at hp
      rw [hsessions] at hp
      cases hp
    · rw [hstored] at hcovers
      exact hcovers.containers p hp
    · rintro _ ⟨⟩
      exact ⟨fun _ => hsessions, fun _ => rfl, hcopy.toAt, hcopy.copy_path, hcopy.name⟩
  · -- interrupt
    cases hplan
    obtain ⟨hsessions, hcopy, hstored⟩ := hphase
    exact .of_same hkept rfl rfl ⟨fun _ => hsessions, nofun, hcopy.leaves hstored⟩ (.inr (.inl rfl))
  · exact stopContainer_keeps hplan₀ hrow hv hkept hphase
  · -- close
    exact close_keeps hplan hphase.1
  · -- abort
    exact close_keeps hplan hphase.1
  · exact close_keeps hplan hphase.1
  · exact close_keeps hplan hphase.1
  · exact close_keeps hplan hphase.1
  · exact close_keeps hplan hphase.1
  · -- raise
    split at hplan
    · cases hplan
    · cases hplan
      exact .of_still hphase.1 rfl rfl
  · cases hplan

theorem conclude_keeps (hplan : s.conclude treeOf l step phase = some m)
    (hkept : v.Kept clock row)
    (hphase : phase.Keeps l.workspace row.checkpoint (¬ row.Holds clock) v)
    (hlease : m.write.needsLease → row.Holds clock) : m.Keeps clock l phase.isLaunching row v := by
  have hlaunching : ∀ needsLease : Prop, (!phase.isLaunching) ∨ phase.isLaunching ∨ needsLease := by
    intro needsLease
    cases phase.isLaunching <;> simp
  simp only [conclude] at hplan
  split at hplan
  case h_1 =>
    -- snapshot
    rw [Option.map_eq_some_iff] at hplan
    obtain ⟨_, -, rfl⟩ := hplan
    exact .of_still (hphase.2 rfl) rfl rfl
  case h_4 | h_8 | h_9 =>
    -- snapshotFails; seal
    cases hplan
    exact .of_still (hphase.2 rfl) rfl rfl
  case h_6 =>
    -- fenceLost
    cases hplan
    exact .of_same hkept rfl rfl (hphase.1.mono (.of_eq rfl rfl)) (.inl rfl)
  case h_7 =>
    -- defer
    cases hplan
    refine ⟨Launch.Covers.mono hphase (.of_eq rfl rfl),
      fun _ => rfl, ?_, fun _ => ⟨rfl, ?_⟩,
      (fun _ h => by cases h)⟩
    · rintro _ ⟨⟩
      trivial
    · rintro _ ⟨⟩ ⟨⟩
  case h_14 | h_16 =>
    -- raise
    cases hplan
    exact .of_same hkept rfl rfl trivial (.inl rfl)
  case h_20 =>
    -- renew
    cases hplan
    refine .of_same hkept rfl rfl ?_ (hlaunching _)
    exact hphase.mono (fun h => absurd (hlease rfl) h) (.of_eq rfl rfl)
  case h_21 =>
    -- fence
    split at hplan
    · cases hplan
      refine .of_same hkept rfl rfl ?_ (hlaunching _)
      exact hphase.mono (fun _ h => by cases h.2.1) (.of_eq rfl rfl)
    · cases hplan
  case h_22 =>
    cases hplan
  all_goals
    cases hplan
    exact .of_still hphase rfl rfl

/-- A move of a lane. -/
theorem plan_keeps (hplan : s.plan treeOf l step = some m)
    (hrow : s.stored l.executionId = some row) (hv : v.Of l.executionId)
    (hkept : v.Kept clock row)
    (hphase : l.phase.Keeps l.workspace row.checkpoint (¬ row.Holds clock) v)
    (hlease : m.write.needsLease → row.Holds clock)
    (hguard : ∀ returned, step ≠ .stop .failed returned) :
    m.Keeps clock l l.phase.isLaunching row v := by
  rcases plan_cases hplan with h | h | h
  · exact approach_keeps h hrow hkept hphase
  · exact supervise_keeps h hrow hv hkept hphase hlease hguard
  · exact conclude_keeps h hkept hphase hlease

end Daemon

namespace View.Kept

/-- Time passes. -/
theorem mono {clock' : HostClock} (hv : v.Kept clock row) (hboot : clock'.boot = clock.boot)
    (hle : clock.monotonic ≤ clock'.monotonic) : v.Kept clock' row := by
  have hdead : ¬ row.Holds clock → ¬ row.Holds clock' := by
    rintro h ⟨h₁, h₂, h₃⟩
    exact h ⟨h₁.trans hboot, h₂, lt_of_le_of_lt hle h₃⟩
  refine ⟨hv.covers, hv.marked, fun l hl => ?_, hv.stage, fun h l hl => ?_⟩
  · exact (hv.phase l hl).mono hdead (.of_eq rfl rfl)
  · exact ⟨hdead (hv.aside h l hl).1, (hv.aside h l hl).2⟩

/-- A move of the lane. -/
theorem moved (hv : v.Kept clock row) (hlane : v.lane = some l)
    (hm : m.Keeps clock l l.phase.isLaunching row v)
    (hlease : m.write.needsLease → row.Holds clock) :
    (v.moved clock l m).Kept clock (row.written clock m.write) where
  covers := hm.covers
  marked := hm.marked
  phase l' hl' := by
    rw [moved_lane, Option.map_eq_some_iff] at hl'
    obtain ⟨phase, hphase, rfl⟩ := hl'
    exact hm.phase phase hphase
  stage name stage hstage := by
    rw [moved_stage] at hstage
    obtain ⟨hproviders, -⟩ := hm.launches (hv.aside (by rw [hstage]; rfl) l hlane).2
    exact (hv.stage name stage hstage).mono (.of_unchanged hproviders)
  aside hstage l' hl' := by
    rw [moved_stage] at hstage
    obtain ⟨hdead, hlaunching⟩ := hv.aside hstage l hlane
    refine ⟨fun h => hdead (holds_of_written hlease h), ?_⟩
    rw [moved_lane, Option.map_eq_some_iff] at hl'
    obtain ⟨phase, hphase, rfl⟩ := hl'
    refine Bool.eq_false_iff.mpr fun h => ?_
    exact hdead (hlease ((hm.launches hlaunching).2 phase hphase h))

end View.Kept

/-! ## Recovery -/

/-- What a move of a recovery does for the providers of its execution. -/
structure PassMove.Keeps (clock : HostClock) (prow : LocalExecution) (name : LockName)
    (row : LocalExecution) (v : View) (m : PassMove) : Prop where
  /-- A checkpoint is written when no provider is left, or leads to the same providers. -/
  value : ∀ value, m.write.value? = some value →
    (v.recovered clock prow name m).Quiet ∨
      value.toLaunch = row.checkpoint.toLaunch ∧ value.recoveryPending
  sessions : (v.recovered clock prow name m).sessions ⊆ v.sessions
  containers : (v.recovered clock prow name m).containers ⊆ v.containers
  stage : ∀ stage, m.stage = some stage → stage.Keeps (v.recovered clock prow name m)
  lease : m.write.needsLease = false

namespace PassMove.Keeps

variable {m : PassMove}

theorem within (h : m.Keeps clock prow name row v) : (v.recovered clock prow name m).Within v :=
  ⟨h.sessions, h.containers⟩

/-- A move without providers. -/
theorem of_quiet (hv : v.Quiet) (hproviders : m.providers = .unchanged)
    (hlease : m.write.needsLease = false)
    (hstage : ∀ v : View, v.Quiet → m.stage.elim True (·.Keeps v)) :
    m.Keeps clock prow name row v := by
  have hle : (v.recovered clock prow name m).Within v := by
    refine .of_eq ?_ ?_
    all_goals
      rw [View.recovered, hproviders]
      rfl
  have hquiet := hv.mono hle
  exact ⟨fun _ _ => .inl hquiet, hle.1, hle.2,
    fun stage h => by simpa [h] using hstage _ hquiet, hlease⟩

/-- A move that writes nothing. -/
theorem of_nothing (hwrite : m.write = .nothing)
    (hle : (v.recovered clock prow name m).Within v)
    (hstage : ∀ stage, m.stage = some stage → stage.Keeps (v.recovered clock prow name m)) :
    m.Keeps clock prow name row v where
  value _ h := by rw [hwrite] at h; cases h
  sessions := hle.sessions
  containers := hle.containers
  stage := hstage
  lease := by rw [hwrite]; rfl

end PassMove.Keeps

theorem Daemon.recoverPlan_keeps {step : PassStep} {m : PassMove} (clock : HostClock)
    (name : LockName)
    (hplan : s.recoverPlan treeOf prow step stage = some m)
    (hrow : s.stored prow.executionId = some row) (hv : v.Of prow.executionId)
    (hcovers : row.checkpoint.toLaunch.Covers v) (hstage : stage.Keeps v)
    (hguard : ∀ retryAt, step = .fail retryAt →
      row.checkpoint.toLaunch = prow.checkpoint.toLaunch) :
    m.Keeps clock prow name row v := by
  simp only [recoverPlan] at hplan
  split at hplan
  case h_2 =>
    -- haltSession
    cases hplan
    refine .of_nothing rfl ⟨filter_subset_self _, Subset.refl _⟩ ?_
    have hsessions := Launch.Covers.filter_sessions hstage hv
    rintro _ ⟨⟩
    exact ⟨Launch.Covers.mono hstage ⟨filter_subset_self _, Subset.refl _⟩, hsessions⟩
  case h_3 =>
    -- haltContainer
    cases hplan
    refine .of_nothing rfl ⟨Subset.refl _, filter_subset_self _⟩ ?_
    have hcontainers := hstage.1.filter_containers hv
    rintro _ ⟨⟩
    exact ⟨hstage.2, hcontainers⟩
  case h_4 | h_7 | h_12 =>
    -- fence; preserved; enqueue
    cases hplan
    exact .of_quiet hstage rfl rfl fun _ hv => hv
  case h_5 =>
    -- snapshot
    split at hplan
    · rw [Option.map_eq_some_iff] at hplan
      obtain ⟨_, -, rfl⟩ := hplan
      exact .of_quiet hstage rfl rfl fun _ hv => hv
    · cases hplan
  case h_6 =>
    -- discover
    rw [Option.map_eq_some_iff] at hplan
    obtain ⟨_, -, rfl⟩ := hplan
    exact .of_quiet hstage rfl rfl fun _ hv => hv
  case h_8 =>
    split at hplan
    · cases hplan
    · cases hplan
      exact .of_quiet hstage rfl rfl fun _ hv => hv
  case h_9 | h_10 | h_13 =>
    -- defer; clear
    cases hplan
    exact .of_quiet hstage rfl rfl fun _ _ => trivial
  case h_11 =>
    -- announce
    split at hplan
    · cases hplan
      exact .of_quiet hstage rfl rfl fun _ hv => hv
    · cases hplan
      exact .of_quiet hstage rfl rfl fun _ hv => hv
  case h_14 =>
    -- fail
    cases hplan
    refine ⟨?_, Subset.refl _, Subset.refl _, (fun _ h => by cases h), rfl⟩
    rintro _ ⟨⟩
    exact .inr ⟨(hguard _ rfl).symm, rfl⟩
  case h_15 =>
    cases hplan
  case h_1 =>
    rw [hrow, Option.map_some] at hplan
    cases hplan
    split
    · exact .of_nothing rfl (.of_eq rfl rfl) fun _ h => by cases h
    · refine .of_nothing rfl (.of_eq rfl rfl) ?_
      rintro _ ⟨⟩
      exact hcovers.mono (.of_eq rfl rfl)

namespace View.Kept

/-- The recovery enters another stage, or leaves. -/
theorem with_stage {stage : Option (LockName × Stage)} (hv : v.Kept clock row)
    (hstage : ∀ name stage', stage = some (name, stage') → stage'.Keeps v)
    (haside : stage.isSome → ∀ l, v.lane = some l → ¬ row.Holds clock
      ∧ l.phase.isLaunching = false) :
    View.Kept clock { v with stage } row where
  covers := hv.covers.mono (.of_eq rfl rfl)
  marked := hv.marked
  phase l hl := (hv.phase l hl).mono (fun h => h) (.of_eq rfl rfl)
  stage name stage' h := (hstage name stage' h).mono (.of_eq rfl rfl)
  aside := haside

/-- Nobody is at work any more. -/
theorem abandoned (hv : v.Kept clock row) :
    View.Kept clock { v with lane := none, stage := none } row where
  covers := hv.covers.mono (.of_eq rfl rfl)
  marked := hv.marked
  phase l hl := by cases hl
  stage name stage' h := by cases h
  aside h := by cases h

/-- A checkpoint with the launch data that are stored is as good as the stored one. -/
theorem same_launch (hv : v.Kept clock row) (hlaunch : value.toLaunch = row.checkpoint.toLaunch)
    (hmarked : value.recoveryPending) :
    View.Kept clock { v with row := some { row with checkpoint := value } }
      { row with checkpoint := value } where
  covers := by
    change value.toLaunch.Covers _
    rw [hlaunch]
    exact hv.covers.mono (.of_eq rfl rfl)
  marked _ := hmarked
  phase l hl := ((hv.phase l hl).same_launch hlaunch hmarked).mono (fun h => h) (.of_eq rfl rfl)
  stage name stage h := (hv.stage name stage h).mono (.of_eq rfl rfl)
  aside := hv.aside

/-- A move of the recovery. -/
theorem recovered {m : PassMove} (hv : v.Kept clock row) (hstage : v.stage = some (name, stage))
    (hm : m.Keeps clock prow name row v) :
    (v.recovered clock prow name m).Kept clock (row.written clock m.write) := by
  have hlease : m.write.needsLease → row.Holds clock := fun h => by rw [hm.lease] at h; cases h
  -- Once the recovery has begun, the lane has lost its lease and launches nothing.
  have aside := hv.aside (by rw [hstage]; rfl)
  have hdead : ∀ l, v.lane = some l → ¬ (row.written clock m.write).Holds clock := fun l hl h =>
    (aside l hl).1 (holds_of_written hlease h)
  refine ⟨?_, ?_, ?_, ?_, ?_⟩
  · rw [written_checkpoint]
    cases hvalue : m.write.value? with
    | none => exact hv.covers.mono hm.within
    | some value =>
      rcases hm.value value hvalue with hquiet | ⟨hlaunch, -⟩
      · exact hquiet.covers
      · rw [Option.getD_some, hlaunch]
        exact hv.covers.mono hm.within
  · intro hloud
    rw [written_checkpoint]
    cases hvalue : m.write.value? with
    | none => exact hv.marked fun hquiet => hloud (hquiet.mono hm.within)
    | some value =>
      rcases hm.value value hvalue with hquiet | ⟨-, hmarked⟩
      · exact absurd hquiet hloud
      · exact hmarked
  · intro l hl
    rw [recovered_lane] at hl
    exact (hv.phase l hl).of_dead (aside l hl).2 (hdead l hl) hm.within
  · intro _ stage' h
    rw [recovered_stage, Option.map_eq_some_iff] at h
    obtain ⟨_, hstage'', heq⟩ := h
    cases heq
    exact hm.stage stage' hstage''
  · intro _ l hl
    rw [recovered_lane] at hl
    exact ⟨hdead l hl, (aside l hl).2⟩

end View.Kept

/-! ## Runs -/

namespace Daemon

variable {s' : Daemon} {step : DaemonStep}

theorem view_of (s : Daemon) (id : Id) : (s.view id).Of id where
  sessions p hp := by simpa using (mem_filter.mp hp).2
  containers p hp := by simpa using (mem_filter.mp hp).2

/-- Every provider is known, and a lane that holds the lock of a workspace is alone there. -/
structure Exclusive (s : Daemon) : Prop extends s.Wf where
  kept : ∀ {id row}, s.stored id = some row → (s.view id).Kept s.clock row
  absent : ∀ {id}, s.stored id = none → (s.view id).Quiet
  locks : ∀ {id id' l l'}, s.lane id = some l → s.lane id' = some l' → l.phase.holdsLock →
    l'.phase.holdsLock → l.workspace = l'.workspace → id = id'
  alone : ∀ {id l}, s.lane id = some l → l.phase.holdsLock → ∀ p ∈ s.providers,
    p.workspace = l.workspace → p.executionId = id

/-- Whether a lock is held by a lane. -/
theorem isLocked_of_lane (hlane : s.lane id = some l) (hholds : l.phase.holdsLock) :
    s.isLocked (.workspace l.workspace) := by
  simp only [isLocked, Bool.or_eq_true, any_eq_true]
  exact .inl ⟨l, (Table.mem_of_find? hlane), by simp [hholds]⟩

/-- A lane that launches holds the lock under which its execution would be recovered. -/
theorem Exclusive.not_launching (hs : s.Exclusive)
    (hlane : s.lane prow.executionId = some l) (hrow : s.stored prow.executionId = some row)
    (hlaunch : row.checkpoint.toLaunch = prow.checkpoint.toLaunch)
    (hlock : s.isLocked (lockOf prow) = false) : l.phase.isLaunching = false := by
  refine Bool.eq_false_iff.mpr fun hlaunching => ?_
  have hpath := ((hs.kept hrow).phase l hlane).path hlaunching
  have hlocked := isLocked_of_lane hlane (Phase.holdsLock_of_launching hlaunching)
  rw [lockOf, ← congrArg Launch.workspacePath hlaunch, hpath] at hlock
  rw [hlock] at hlocked
  cases hlocked

theorem holdsLease_of_holds {epoch : Nat} (hrow : s.stored id = some row)
    (hepoch : row.epoch = epoch) (h : row.Holds s.clock) : s.holdsLease id epoch := by
  have hcond : ¬ (row.epoch ≠ epoch ∨ row.bootId ≠ s.clock.boot ∨ row.status ≠ .running
      ∨ row.deadline ≤ s.clock.monotonic) := by
    simp only [not_or, not_not, not_le]
    exact ⟨hepoch, h⟩
  rw [stored] at hrow
  rw [holdsLease, Journal.assertLease, hrow]
  dsimp only
  rw [if_neg hcond]
  rfl

/-- A row that a pass visits has lost its lease, if a lane is still at work on it. -/
theorem Wf.not_holds (hs : s.Wf) (hpass : s.pass = some ⟨prow :: rows, includeRunning, none⟩)
    (hvisits : s.visits includeRunning prow) (hlane : s.lane prow.executionId = some l)
    (hrow : s.stored prow.executionId = some row) : ¬ row.Holds s.clock := by
  intro hholds
  obtain ⟨_, hrow', hevolves⟩ := hs.pass_row hpass prow mem_cons_self
  cases hrow'.symm.trans hrow
  simp only [visits, Bool.and_eq_true] at hvisits
  by_cases hrunning : prow.status = .running
  · rw [if_pos hrunning, Bool.or_eq_true] at hvisits
    rcases hvisits.1 with hinclude | hlost
    · rw [hs.idle (hs.startup hpass hinclude)] at hlane
      cases hlane
    · rw [holdsLease_of_holds hrow hevolves.epoch hholds] at hlost
      cases hlost
  · exact hevolves.ended hrunning hholds.2.1

/-- A row that the guard lets a pass take. -/
theorem isCurrent_of_guard {stage : Option (LockName × Stage)} (hguard : s.excludes (.pass pstep))
    (hpass : s.pass = some ⟨prow :: rows, includeRunning, stage⟩)
    (hstep : pstep = .take ∨ ∃ retryAt, pstep = .fail retryAt)
    (hrow : s.stored prow.executionId = some row) :
    row.checkpoint.toLaunch = prow.checkpoint.toLaunch := by
  rcases hstep with rfl | ⟨retryAt, rfl⟩
  all_goals simpa [excludes, hpass, isCurrent, hrow] using hguard

theorem Exclusive.lane_keeps (hs : s.Exclusive)
    (hguard : s.excludes (.lane id lstep)) (hlane : s.lane id = some l)
    (hplan : s.plan treeOf l lstep = some m) (hrow : s.stored id = some row)
    (hlease : m.write.needsLease → row.Holds s.clock) :
    m.Keeps s.clock l l.phase.isLaunching row (s.view id) := by
  obtain rfl : l.executionId = id := Table.key_of_find? hlane
  have hv := hs.kept hrow
  refine plan_keeps hplan hrow (s.view_of _) hv (hv.phase l hlane) hlease ?_
  rintro _ rfl
  cases hguard

theorem Exclusive.recover_keeps (hs : s.Exclusive) {m : PassMove}
    (hguard : s.excludes (.pass pstep))
    (hpass : s.pass = some ⟨prow :: rows, includeRunning, some (name, stage)⟩)
    (hplan : s.recoverPlan treeOf prow pstep stage = some m)
    (hrow : s.stored prow.executionId = some row) :
    m.Keeps s.clock prow name row (s.view prow.executionId) := by
  have hv := hs.kept hrow
  have hstage : s.stageOf prow.executionId = some (name, stage) := by simp [stageOf, hpass]
  refine recoverPlan_keeps s.clock name hplan hrow (s.view_of _) hv.covers
    (hv.stage name stage hstage) ?_
  exact fun retryAt h => isCurrent_of_guard hguard hpass (.inr ⟨retryAt, h⟩) hrow

theorem Change.kept (hs : s.Exclusive) (hguard : s.excludes step)
    (h : Change treeOf s id step v) (hv : v.row = some row) : v.Kept s.clock row := by
  cases h with
  | same => exact hs.kept hv
  | @resolve _ _ _ _ _ row l hnew hrow hlane =>
    cases hv
    have hquiet : View.Quiet { s.view id with row := some row, lane := some l } := hs.absent hnew
    have hstage : (s.view id).stage = none := hs.stage_none hnew
    refine ⟨hquiet.covers, fun h => absurd hquiet h, ?_, ?_, ?_⟩
    · rintro _ ⟨⟩
      rw [hlane.2.2]
      split
      · exact hquiet
      · exact hquiet
    · intro name stage h
      cases hstage.symm.trans h
    · intro h
      rw [hstage] at h
      cases h
  | @lane _ l m current hlane hplan hrow hlease =>
    have hm := hs.lane_keeps hguard hlane hplan hrow hlease
    rw [View.moved_row, view, hrow, Option.map_some] at hv
    cases hv
    exact (hs.kept hrow).moved hlane hm hlease
  | @take prow rows includeRunning hpass hid hvisits hlock =>
    subst hid
    have hv₀ := hs.kept hv
    refine hv₀.with_stage ?_ ?_
    · rintro _ _ ⟨⟩
      trivial
    · intro _ l hlane
      refine ⟨hs.not_holds hpass hvisits hlane hv, ?_⟩
      exact hs.not_launching hlane hv (isCurrent_of_guard hguard hpass (.inl rfl) hv) hlock
  | @recover _ prow current rows includeRunning name stage m hpass hid hplan hrow hevolves =>
    subst hid
    have hstage : s.stageOf prow.executionId = some (name, stage) := by simp [stageOf, hpass]
    have hm := hs.recover_keeps hguard hpass hplan hrow
    rw [View.recovered_row, view, hrow, Option.map_some] at hv
    cases hv
    exact (hs.kept hrow).recovered hstage hm
  | @fail prow current rows includeRunning retryAt hpass hid hrow hevolves =>
    subst hid
    cases hv
    have hcurrent := isCurrent_of_guard hguard hpass (.inr ⟨retryAt, rfl⟩) hrow
    refine (hs.kept hrow).same_launch ?_ rfl
    exact hcurrent.symm
  | abort =>
    exact (hs.kept hv).with_stage (fun _ _ h => by cases h) fun h => by cases h
  | crash =>
    exact (hs.kept hv).abandoned

/-- An execution that is not stored has no provider. -/
theorem Change.absent (hs : s.Exclusive) (h : Change treeOf s id step v)
    (hv : v.row = none) : v.Quiet := by
  cases hrow : s.stored id with
  | some row =>
    obtain ⟨_, hrow', -⟩ := h.row_evolves hrow
    rw [hv] at hrow'
    cases hrow'
  | none =>
    cases h with
    | resolve => cases hv
    | lane _ _ hrow' | recover _ _ _ hrow' | fail _ _ hrow' => rw [hrow] at hrow'; cases hrow'
    | same | take | abort | crash => exact hs.absent hrow

theorem approach_lock (hplan : s.approach l lstep phase = some m) (hphase : m.phase = some phase')
    (hholds : phase'.holdsLock) :
    phase.holdsLock ∨ lstep = .lock ∧ s.isLocked (.workspace l.workspace) = false := by
  simp only [approach] at hplan
  split at hplan
  case h_10 =>
    -- lock
    cases hplan
    cases hphase
    split at hholds
    · cases hholds
    · rename_i hlocked
      exact .inr ⟨rfl, Bool.eq_false_iff.mpr hlocked⟩
  case h_14 =>
    -- handle
    rw [Option.map_eq_some_iff] at hplan
    obtain ⟨row, -, rfl⟩ := hplan
    split at hphase <;> cases hphase
    cases hholds
  case h_6 by_ =>
    -- emit
    cases hplan
    cases by_ <;> cases hphase
    cases hholds
  case h_8 by_ =>
    -- emitFails
    cases hplan
    cases by_ <;> cases hphase
    cases hholds
  case h_9 =>
    -- check
    cases hplan
    cases hphase
    split at hholds <;> cases hholds
  all_goals
    cases hplan
    try cases hphase
    try first | exact .inl rfl | cases hholds

/-- Requests run under the lock. -/
theorem supervise_lock (hplan : s.supervise l lstep phase = some m) : phase.holdsLock := by
  simp only [supervise] at hplan
  split at hplan
  all_goals first | rfl | cases hplan

theorem conclude_lock (hplan : s.conclude treeOf l lstep phase = some m) :
    phase.holdsLock ∨ m.phase = some phase := by
  simp only [conclude] at hplan
  split at hplan
  case h_20 =>
    -- renew
    cases hplan
    exact .inr rfl
  case h_21 =>
    -- fence
    split at hplan
    · cases hplan
      exact .inr rfl
    · cases hplan
  all_goals first | exact .inl rfl | cases hplan

theorem plan_lock (hplan : s.plan treeOf l lstep = some m) (hphase : m.phase = some phase')
    (hholds : phase'.holdsLock) :
    l.phase.holdsLock ∨ lstep = .lock ∧ s.isLocked (.workspace l.workspace) = false := by
  rcases plan_cases hplan with h | h | h
  · exact approach_lock h hphase hholds
  · exact .inl (supervise_lock h)
  · rcases conclude_lock h with h | h
    · exact .inl h
    · cases h.symm.trans hphase
      exact .inl hholds

/-- A lane that has a lock had it before, or takes it now, where no other execution is marked. -/
theorem Change.lock (hguard : s.excludes step) (h : Change treeOf s id step v)
    (hlane : v.lane = some l) (hholds : l.phase.holdsLock) :
    (∃ l₀, s.lane id = some l₀ ∧ l₀.phase.holdsLock ∧ l₀.workspace = l.workspace) ∨
      step = .lane id .lock ∧ s.isLocked (.workspace l.workspace) = false ∧
        s.hasPending id l.workspace = false := by
  cases h with
  | same | take | abort | fail => exact .inl ⟨l, hlane, hholds, rfl⟩
  | resolve _ _ hlane' =>
    cases hlane
    rw [hlane'.2.2] at hholds
    split at hholds
    · cases hholds
    · cases hholds
  | recover =>
    rw [View.recovered_lane] at hlane
    exact .inl ⟨l, hlane, hholds, rfl⟩
  | crash => cases hlane
  | @lane _ l₀ m row hlane₀ hplan =>
    rw [View.moved_lane, Option.map_eq_some_iff] at hlane
    obtain ⟨phase, hphase, rfl⟩ := hlane
    rcases plan_lock hplan hphase hholds with h | ⟨rfl, hlocked⟩
    · exact .inl ⟨l₀, hlane₀, h, rfl⟩
    · refine .inr ⟨rfl, hlocked, ?_⟩
      simpa [excludes, hlane₀] using hguard

/-- A provider after a release. -/
theorem mem_released {path : WorkspacePath} (hpath : launch.workspacePath = some path)
    (hp : p ∈ (v.changed id (.released launch)).sessions ∨
      p ∈ (v.changed id (.released launch)).containers) :
    p ∈ v.sessions ++ v.containers ∨ p.workspace = path := by
  simp only [View.changed, hpath, mem_append, mem_map] at hp ⊢
  rcases hp with (h | ⟨name, -, rfl⟩) | (h | ⟨name, -, rfl⟩)
  · exact .inl (.inl h)
  · exact .inr rfl
  · exact .inl (.inr h)
  · exact .inr rfl

theorem mem_providers : p ∈ s.providers ↔
    p ∈ (s.view p.executionId).sessions ++ (s.view p.executionId).containers := by
  simp [providers, view]

/-- A provider that is there was there before, or is released by a lane with the lock. -/
theorem Change.provider (hs : s.Exclusive) (hguard : s.excludes step)
    (h : Change treeOf s id step v) (hp : p ∈ v.sessions ++ v.containers) :
    p ∈ (s.view id).sessions ++ (s.view id).containers ∨
      ∃ l, s.lane id = some l ∧ l.phase.holdsLock ∧ l.workspace = p.workspace := by
  cases h with
  | same | resolve | take | fail | abort | crash => exact .inl hp
  | @recover _ _ _ _ _ name _ m hpass hid hplan hrow _ =>
    subst hid
    have hm := hs.recover_keeps hguard hpass hplan hrow
    rw [mem_append] at hp ⊢
    exact .inl (hp.imp (hm.sessions ·) (hm.containers ·))
  | @lane _ l m row hlane hplan hrow hlease =>
    have hm := hs.lane_keeps hguard hlane hplan hrow hlease
    have hsub : ∀ {ps : List Provider} {q : Provider → Bool}, p ∈ ps.filter q → p ∈ ps :=
      fun h => (mem_filter.mp h).1
    rw [mem_append] at hp
    cases hproviders : m.providers with
    | unchanged =>
      rw [View.moved, hproviders] at hp
      exact .inl (mem_append.mpr hp)
    | sessionStopped name =>
      rw [View.moved, hproviders] at hp
      exact .inl (mem_append.mpr (hp.imp_left hsub))
    | containerRemoved name =>
      rw [View.moved, hproviders] at hp
      exact .inl (mem_append.mpr (hp.imp_right hsub))
    | released launch =>
      obtain ⟨hlaunching, hpath⟩ := hm.released launch hproviders
      rw [View.moved, hproviders] at hp
      rcases mem_released hpath hp with h | h
      · exact .inl h
      · exact .inr ⟨l, hlane, Phase.holdsLock_of_launching hlaunching, h.symm⟩

/-- An execution with a provider is marked in the workspace of the provider. -/
theorem Exclusive.hasPending (hs : s.Exclusive)
    (hp : p ∈ (s.view p.executionId).sessions ++ (s.view p.executionId).containers)
    (hne : p.executionId ≠ id) : s.hasPending id p.workspace := by
  have hloud : ¬ (s.view p.executionId).Quiet := by
    rintro ⟨h₁, h₂⟩
    rw [h₁, h₂] at hp
    cases hp
  cases hrow : s.stored p.executionId with
  | none => exact absurd (hs.absent hrow) hloud
  | some row =>
    have hv := hs.kept hrow
    have hpath : row.checkpoint.workspacePath = some p.workspace := by
      rcases mem_append.mp hp with h | h
      · exact (hv.covers.sessions p h).1
      · exact (hv.covers.containers p h).1
    obtain ⟨hmem, hid⟩ := Table.find?_eq_some.mp hrow
    refine any_eq_true.mpr ⟨row, hmem, ?_⟩
    simp [hid, hne, hv.marked hloud, hpath]

theorem Exclusive.next (hs : s.Exclusive) (hguard : s.excludes step)
    (h : s.next treeOf step = some s') : s'.Exclusive := by
  obtain ⟨hchange, hwf, hboot, hle⟩ := next_change hs.toWf h
  refine ⟨hwf, fun hrow => ?_, fun hrow => (hchange _).absent hs hrow, ?_, ?_⟩
  · exact ((hchange _).kept hs hguard hrow).mono hboot hle
  · intro id id' l l' hlane hlane' hholds hholds' hworkspace
    rcases (hchange id).lock hguard hlane hholds with ⟨l₀, hlane₀, hholds₀, hw₀⟩ | ⟨rfl, hlocked, -⟩
    · rcases (hchange id').lock hguard hlane' hholds' with
        ⟨l₁, hlane₁, hholds₁, hw₁⟩ | ⟨-, hlocked, -⟩
      · exact hs.locks hlane₀ hlane₁ hholds₀ hholds₁ (hw₀.trans (hworkspace.trans hw₁.symm))
      · rw [← hworkspace, ← hw₀, isLocked_of_lane hlane₀ hholds₀] at hlocked
        cases hlocked
    · rcases (hchange id').lock hguard hlane' hholds' with ⟨l₁, hlane₁, hholds₁, hw₁⟩ | ⟨heq, -⟩
      · rw [hworkspace, ← hw₁, isLocked_of_lane hlane₁ hholds₁] at hlocked
        cases hlocked
      · cases heq
        rfl
  · intro id l hlane hholds p hp hworkspace
    rw [mem_providers] at hp
    rcases (hchange p.executionId).provider hs hguard hp with hold | ⟨l₁, hlane₁, hholds₁, hw₁⟩
    · rcases (hchange id).lock hguard hlane hholds with
        ⟨l₀, hlane₀, hholds₀, hw₀⟩ | ⟨rfl, -, hpending⟩
      · exact hs.alone hlane₀ hholds₀ p (mem_providers.mpr hold) (hworkspace.trans hw₀.symm)
      · -- The lane has found no other execution marked in the workspace.
        by_contra hne
        rw [← hworkspace, hs.hasPending hold hne] at hpending
        cases hpending
    · rcases (hchange id).lock hguard hlane hholds with ⟨l₀, hlane₀, hholds₀, hw₀⟩ | ⟨-, hlocked, -⟩
      · exact hs.locks hlane₁ hlane₀ hholds₁ hholds₀ (hw₁.trans (hworkspace.trans hw₀.symm))
      · rw [← hworkspace, ← hw₁, isLocked_of_lane hlane₁ hholds₁] at hlocked
        cases hlocked

theorem exclusive_initial (checkouts : WorkspacePath → Checkout) :
    (initial checkouts).Exclusive where
  toWf := wf_initial checkouts
  kept h := by cases h
  absent _ := ⟨rfl, rfl⟩
  locks h := by cases h
  alone h := by cases h

theorem ReachableBy.exclusive {checkouts : WorkspacePath → Checkout}
    (h : (workerDaemon treeOf checkouts).ReachableBy (excludes · ·) s) : s.Exclusive := by
  refine h.invariant ?_ fun s _ s' hs hguard hstep => hs.next hguard hstep
  rintro _ rfl
  exact exclusive_initial checkouts

/-- A lane releases a provider from `recorded`. -/
theorem release_phase (h : s.next treeOf (.lane id .release) = some s') :
    ∃ l c copy, s.lane id = some l ∧ l.phase = .recorded c copy := by
  simp only [next, Option.bind_eq_some_iff] at h
  obtain ⟨l, hlane, m, hplan, -⟩ := h
  refine ⟨l, ?_⟩
  rcases plan_cases hplan with h | h | h
  all_goals
    cases hl : l.phase <;> rw [hl] at h
    case recorded c copy => exact ⟨c, copy, hlane, rfl⟩
    all_goals cases h

end Daemon

/-- A provider is released alone.  In every run that meets the condition, when a lane releases
the provider of an execution, no session and no container of another execution is left in the
workspace of any provider that the execution then has. -/
theorem provider_released_alone {treeOf : Id → Tree} {checkouts : WorkspacePath → Checkout}
    {s s' : Daemon} {id : Id}
    (hs : (workerDaemon treeOf checkouts).ReachableBy (Daemon.excludes · ·) s)
    (hrelease : s.next treeOf (.lane id .release) = some s') :
    ∀ p ∈ s.providers, p.executionId ≠ id → ∀ q ∈ s'.providers, q.executionId = id →
      p.workspace ≠ q.workspace := by
  intro p hp hne q hq hid hworkspace
  have hs₀ := Daemon.ReachableBy.exclusive hs
  obtain ⟨hchange, -⟩ := Daemon.next_change hs₀.toWf hrelease
  subst hid
  rw [Daemon.mem_providers] at hq
  rcases (hchange q.executionId).provider hs₀ rfl hq with hold | ⟨l, hlane, hholds, hw⟩
  · -- Before the release the execution has no provider.
    obtain ⟨l, c, _, hlane, hphase⟩ := Daemon.release_phase hrelease
    obtain ⟨row, hrow, -⟩ := hs₀.lane_row hlane
    have hkeeps := (hs₀.kept hrow).phase l hlane
    rw [hphase] at hkeeps
    rw [hkeeps.1.1, hkeeps.1.2] at hold
    cases hold
  · exact hne (hs₀.alone hlane hholds p hp (hworkspace.trans hw.symm))

namespace Installation

/-- An execution is taken on, in a workspace. -/
def granted (request id : Id) (workspace : WorkspacePath) : List DaemonStep :=
  [ .journal (.claimAttempt 1000 request 1 []), .resolve request id 1 60 workspace 1 ]

/-- A lane locks its workspace and brings a provider to its gate. -/
def gated (id process : Id) : List DaemonStep :=
  [ .lane id .lock, .lane id .flag, .lane id .initialise, .lane id (.begin id "")
  , .lane id .save, .lane id (.spawn process), .lane id .recordProcess ]

/-- Two executions in two workspaces; the provider of the first one runs. -/
def neighbours : Daemon :=
  System.replay (Daemon.next fun _ => ∅) Daemon.excludes
    ([ .pass .start, .pass .finish ] ++ granted 1 1 (.other 1) ++ [ .lane 1 .check ]
      ++ gated 1 101 ++
      [ .lane 1 .release ] ++ granted 2 2 (.other 2) ++ [ .lane 2 .check ] ++ gated 2 102)
    (.initial fun _ => ⟨1, ∅, false, ∅, ∅⟩)

/-- Two executions in one workspace.  The second one looks for marks before the first one has
set its own, and takes the lock when the first one has failed to stop its session. -/
def intruding : Daemon :=
  System.replay (Daemon.next fun _ => ∅) (fun _ _ => true)
    ([ .pass .start, .pass .finish ] ++ granted 1 1 (.other 1) ++ granted 2 2 (.other 1) ++
      [ .lane 2 .check, .lane 1 .check ] ++ gated 1 101 ++
      [ .lane 1 .release, .lane 1 (.stop .unconfirmed false), .lane 1 (.stopContainer true .failed)
      , .lane 1 .fenceLost, .lane 1 .defer, .lane 1 .handle ] ++ gated 2 102)
    (.initial fun _ => ⟨1, ∅, false, ∅, ∅⟩)

end Installation

/-- The provider of the second execution is released next to the first one, in a workspace of
its own. -/
theorem provider_released_alone_neighbours :
    ∃ s' p q, Installation.neighbours.next (fun _ => ∅) (.lane 2 .release) = some s' ∧
      p ∈ Installation.neighbours.providers ∧ q ∈ s'.providers ∧ p.executionId = 1 ∧
      q.executionId = 2 ∧ p.workspace ≠ q.workspace := by
  have hp : (⟨1, .other 1, 101⟩ : Provider) ∈ Installation.neighbours.providers := by decide +kernel
  have hq : ((Installation.neighbours.next (fun _ => ∅) (.lane 2 .release)).any
      fun s' => decide ((⟨2, .other 2, 102⟩ : Provider) ∈ s'.providers)) = true := by decide +kernel
  obtain ⟨s', hs', hq⟩ := (Option.any_eq_true _ _).mp hq
  rw [decide_eq_true_eq] at hq
  refine ⟨s', _, _, hs', hp, hq, rfl, rfl, ?_⟩
  exact provider_released_alone (System.replay_reachable _ _ _) hs' _ hp (by decide) _ hq rfl

/-- A lane takes the lock behind a lane whose session was not confirmed to have stopped, and
releases a second provider in the workspace. -/
theorem lock_without_check_enters :
    ∃ s s' p q, (workerDaemon (fun _ => ∅) fun _ => ⟨1, ∅, false, ∅, ∅⟩).Reachable s ∧
      s.next (fun _ => ∅) (.lane 2 .release) = some s' ∧ p ∈ s.providers ∧ q ∈ s'.providers ∧
      p.executionId = 1 ∧ q.executionId = 2 ∧ p.workspace = q.workspace := by
  have hp : (⟨1, .other 1, 101⟩ : Provider) ∈ Installation.intruding.providers := by decide +kernel
  have hq : ((Installation.intruding.next (fun _ => ∅) (.lane 2 .release)).any
      fun s' => decide ((⟨2, .other 1, 102⟩ : Provider) ∈ s'.providers)) = true := by decide +kernel
  obtain ⟨s', hs', hq⟩ := (Option.any_eq_true _ _).mp hq
  rw [decide_eq_true_eq] at hq
  exact ⟨_, s', _, _, (System.replay_reachable _ _ _).reachable, hs', hp, hq, rfl, rfl, rfl⟩

end Horizon
