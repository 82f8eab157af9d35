import Horizon.Worker.Daemon

/-!
# The daemon, one execution at a time

What a step of the daemon changes, seen from one execution: its stored row, the lane that
works on it, the stage of its recovery, its stop receipts and its providers.  A step of a
lane or of a recovery is a move about one execution and leaves the view of every other one
as it is (`Daemon.next_view`).
-/

namespace Horizon

open Transaction Table List

variable {s' s : Daemon} {l : Lane} {stage : Option (LockName × Stage)} {requestId id id' : Id}
  {v : View} {c : ProviderChange} {m : Move} {name : LockName} {includeRunning : Bool} {epoch : Nat}
  {clock : HostClock} {rows : List LocalExecution} {row : LocalExecution} {w : Write} {j : Journal}
  {f : LocalExecution → LocalExecution} {seconds : Int} {step : DaemonStep}

/-! ## What a write does to the stored executions -/

/-- A stored execution after a write about it. -/
def LocalExecution.written (clock : HostClock) (row : LocalExecution) : Write → LocalExecution
  | .checkpoint value => { row with checkpoint := value }
  | .fence outcome => { row with status := .ended outcome }
  | .renew seconds => { row with deadline := clock.monotonic + seconds }
  | .nothing | .begin .. | .receipt _ | .discovery .. => row

/-- The checkpoint that a write stores. -/
def Write.value? : Write → Option Checkpoint
  | checkpoint value => some value
  | _ => none

theorem LocalExecution.written_checkpoint :
    (row.written clock w).checkpoint = w.value?.getD row.checkpoint := by
  cases w <;> rfl

/-- Whether a write is refused without a lease. -/
def Write.needsLease : Write → Bool
  | renew _ | begin .. => true
  | _ => false

namespace Journal

variable {j' : Journal}

/-- An update of one execution. -/
theorem find?_updateExecutions {p : LocalExecution → Bool}
    {hf : ∀ e, (f e).executionId = e.executionId}
    (hp : ∀ e, p e → e.executionId = id) (hrow : j.executions.find? id = some row) :
    Ensures (updateExecutions p f hf) j fun _ j' =>
      j'.executions.find? id = some (if p row then f row else row) ∧
        ∀ id', id' ≠ id → j'.executions.find? id' = j.executions.find? id' := by
  rintro _ _ ⟨⟩
  refine ⟨?_, fun id' => find?_updateWhere_of_ne (e := hf) hp⟩
  exact (find?_updateWhere (e := hf)).trans (by rw [hrow, Option.map_some])

/-- Likewise at its epoch. -/
theorem find?_updateExecution {hf : ∀ e, (f e).executionId = e.executionId}
    (hrow : j.executions.find? id = some row) (hepoch : row.epoch = epoch) :
    Ensures (updateExecutions (fun e => e.executionId == id && e.epoch == epoch) f hf) j fun _ j' =>
      j'.executions.find? id = some (f row) ∧
        ∀ id', id' ≠ id → j'.executions.find? id' = j.executions.find? id' := by
  refine (find?_updateExecutions (by simp +contextual) hrow).mono fun _ j' h => ⟨?_, h.2⟩
  have hid := key_of_find? hrow
  rw [h.1, if_pos (by simp [hid, hepoch])]

/-- Transactions that leave the stored executions alone. -/
def SameExecutions (j j' : Journal) : Prop := j'.executions = j.executions

instance : Std.Refl SameExecutions := ⟨fun _ => rfl⟩

instance : IsTrans Journal SameExecutions := ⟨fun _ _ _ h h' => h'.trans h⟩

/-- A request begins under a lease that holds, and leaves the executions alone. -/
theorem beginRequest_spec {prompt : String} :
    Ensures (beginRequest clock requestId id epoch prompt) j fun _ j' =>
      j'.executions = j.executions ∧ j.assertLease clock id epoch = .ok () := by
  refine .ask fun _ hlease => ?_
  refine fun _ j' h => ⟨?_, hlease⟩
  dsimp only at h
  split at h
  · split at h
    · cases h
    · cases h; rfl
  · cases h; rfl

theorem holds_of_assertLease (hrow : j.executions.find? id = some row)
    (h : j.assertLease clock id epoch = .ok ()) : row.Holds clock := by
  rw [assertLease, hrow] at h
  dsimp only at h
  split at h
  · cases h
  · rename_i hc
    simp only [not_or, not_not, not_le] at hc
    exact ⟨hc.2.1, hc.2.2⟩

theorem grantLease_spec (hrow : j.executions.find? id = some row) (hepoch : row.epoch = epoch) :
    Ensures (grantLease clock id epoch seconds) j fun _ j' =>
      j'.executions.find? id = some { row with deadline := clock.monotonic + seconds } ∧
        (∀ id', id' ≠ id → j'.executions.find? id' = j.executions.find? id') ∧ row.Holds clock := by
  rw [grantLease]
  refine .guard fun _ => ?_
  rw [ensures_bind, ensures_get, hrow]
  dsimp only
  refine .guard fun hfenced => ensures_ite.mpr
    ⟨fun _ => .raise, fun hexpired => ?_⟩
  have hboot : row.bootId = clock.boot := not_not.mp fun h => hexpired ⟨hepoch.symm, .inl h⟩
  have hstatus : row.status = .running := not_not.mp fun h => hfenced (.inr ⟨hepoch.symm, h⟩)
  have hdeadline : clock.monotonic < row.deadline :=
    not_le.mp fun h => hexpired ⟨hepoch.symm, .inr h⟩
  refine ensures_bind.mpr ((find?_updateExecutions (by simp) hrow).mono fun _ j' h => .pure ?_)
  refine ⟨?_, h.2, hboot, hstatus, hdeadline⟩
  have hid := key_of_find? hrow
  rw [h.1, if_pos (by simp [hid])]
  subst hepoch
  simp [← hboot, ← hstatus]

end Journal

/-- A write about an execution, as the stored executions show it. -/
theorem Write.action_spec (hrow : j.executions.find? id = some row) (hepoch : row.epoch = epoch)
    (w : Write) : Ensures (w.action clock id epoch) j fun _ j' =>
      j'.executions.find? id = some (row.written clock w) ∧
        (∀ id', id' ≠ id → j'.executions.find? id' = j.executions.find? id') ∧
        (w.needsLease → row.Holds clock) := by
  have same : ∀ {j' : Journal}, j'.executions = j.executions →
      j'.executions.find? id = some row ∧
        ∀ id', id' ≠ id → j'.executions.find? id' = j.executions.find? id' :=
    fun h => ⟨by rw [h, hrow], fun _ _ => by rw [h]⟩
  cases w with
  | nothing => exact .pure ⟨hrow, fun _ _ => rfl, nofun⟩
  | checkpoint _ =>
    refine .ite (fun _ => .raise) fun _ => ensures_bind.mpr ?_
    refine (Journal.find?_updateExecution hrow hepoch).mono fun _ j' h => ?_
    exact .ite (fun _ => .raise) fun _ => .pure ⟨h.1, h.2, nofun⟩
  | fence _ =>
    refine ensures_bind.mpr ?_
    exact (Journal.find?_updateExecution hrow hepoch).mono fun _ j' h =>
      .pure ⟨h.1, h.2, nofun⟩
  | renew _ =>
    exact (Journal.grantLease_spec hrow hepoch).mono fun _ _ h => ⟨h.1, h.2.1, fun _ => h.2.2⟩
  | begin _ _ =>
    refine ensures_bind.mpr (Journal.beginRequest_spec.mono fun _ j' h => ?_)
    refine .ite (fun _ => .raise) fun _ => .pure ?_
    obtain ⟨hfind, hother⟩ := same h.1
    exact ⟨hfind, hother, fun _ => Journal.holds_of_assertLease hrow h.2⟩
  | receipt | discovery =>
    refine ensures_bind.mpr
      ((Journal.enqueue_keeps (R := Journal.SameExecutions) (fun _ _ => rfl) j).mono fun _ j' h =>
        .pure ?_)
    exact ⟨(same h).1, (same h).2, nofun⟩

/-- A step that spares the executions leaves them alone. -/
theorem HostStep.action_sameExecutions {step : HostStep}
    (h : step.sparesExecutions) : Keeps Journal.SameExecutions (step.action clock) := by
  cases step with
  | grantLease | checkpoint | fence | resolveClaim | beginRequest | advance | reboot | restart =>
    cases h
  | _ => exact action_keeps (fun _ _ => rfl) (fun _ _ => rfl) (fun _ _ => rfl) rfl

theorem Journal.insertExecution_spec :
    Ensures (insertExecution row) j fun _ j' => j'.executions.find? row.executionId = some row ∧
      ∀ id', id' ≠ row.executionId → j'.executions.find? id' = j.executions.find? id' := by
  intro _ j' h
  rw [insertExecution] at h
  split at h
  · rename_i hnew
    cases h
    exact ⟨find?_insert_self (h := hnew), fun id' hne => find?_insert_of_ne (h := hnew) hne⟩
  · cases h

/-- An answer to a claim stores an execution that is new here, and touches no other. -/
theorem Journal.resolveClaim_spec :
    Ensures (resolveClaim clock requestId (some id) epoch seconds) j fun isFresh j' =>
      (isFresh → j.executions.find? id = none ∧
        j'.executions.find? id = some
          { executionId := id, epoch, bootId := clock.boot,
            deadline := clock.monotonic + max 0 seconds
            status := if 0 < seconds then .running else .ended .lost }) ∧
      (isFresh = false → j'.executions = j.executions) ∧
      ∀ id', id' ≠ id → j'.executions.find? id' = j.executions.find? id' := by
  refine .read ?_
  refine .ite (fun _ => ensures_bind.mpr ?_) fun _ => .pure
    ⟨nofun, fun _ => rfl, fun _ _ => rfl⟩
  -- What follows the stored ownership is about the claims only.
  have hclaims : ∀ (isFresh : Bool) (j₁ : Journal), Ensures (do
      updateClaims (·.requestId == requestId) (fun c => { c with state := .resolved }) fun _ => rfl
      modify fun j => { j with claims := j.claims.restrict fun c =>
        !(c.state == .resolved && !j.recentClaims.contains c.requestId) }
      pure isFresh) j₁ fun r j' => r = isFresh ∧ j'.executions = j₁.executions := by
    rintro isFresh j₁ _ _ ⟨⟩
    exact ⟨rfl, rfl⟩
  refine .read ?_
  refine .ite (fun hnone => ?_) fun _ => .pure ?_
  · rw [Option.isNone_iff_eq_none] at hnone
    refine ensures_bind.mpr (insertExecution_spec.mono fun _ j₁ hinsert => .pure ?_)
    refine (hclaims true j₁).mono fun r j' h => ?_
    obtain ⟨rfl, hexecutions⟩ := h
    rw [hexecutions]
    exact ⟨fun _ => ⟨hnone, hinsert.1⟩, nofun, hinsert.2⟩
  · refine (hclaims false j).mono fun r j' h => ?_
    obtain ⟨rfl, hexecutions⟩ := h
    exact ⟨nofun, fun _ => hexecutions, fun _ _ => by rw [hexecutions]⟩

/-! ## Views -/

theorem Write.filter_receipts :
    (w.receipts id epoch).filter (fun r => decide (r.1 = id)) = w.receipts id epoch := by
  rw [Write.receipts]
  split <;> simp

theorem Write.filter_receipts_of_ne (h : id' ≠ id) :
    (w.receipts id epoch).filter (fun r => decide (r.1 = id')) = [] := by
  rw [Write.receipts]
  split <;> simp [h.symm]

namespace Provider

variable {path : WorkspacePath} {names : List Id}

theorem filter_map_mk :
    (names.map (Provider.mk id path)).filter (fun p => decide (p.executionId = id))
    = names.map (Provider.mk id path) := by
  simp [filter_eq_self]

theorem filter_map_mk_of_ne (h : id' ≠ id) :
    (names.map (Provider.mk id path)).filter (fun p => decide (p.executionId = id')) = [] := by
  simp [filter_eq_nil_iff, h.symm]

theorem filter_stopped {ps : List Provider} {name : Option Id} (h : id' ≠ id) :
    (ps.filter (!·.isOf id name)).filter (fun p => decide (p.executionId = id'))
      = ps.filter fun p => decide (p.executionId = id') := by
  rw [filter_filter]
  refine filter_congr fun p _ => ?_
  by_cases hp : p.executionId = id'
  · simp [hp, isOf, h]
  · simp [hp]

end Provider

/-- What the daemon and its host have of one execution. -/
structure View where
  row : Option LocalExecution
  lane : Option Lane
  /-- The lock and the stage of its recovery. -/
  stage : Option (LockName × Stage)
  receipts : List (Id × Nat)
  sessions : List Provider
  containers : List Provider

namespace View

/-- After a write about the execution. -/
def written (clock : HostClock) (id : Id) (epoch : Nat) (w : Write) (v : View) : View :=
  { v with
    row := v.row.map (·.written clock w)
    receipts := w.receipts id epoch ++ v.receipts }

/-- After a change of its provider. -/
def changed (id : Id) (v : View) : ProviderChange → View
  | .unchanged => v
  | .released launch =>
    match launch.workspacePath with
    | none => v
    | some path =>
      { v with
        sessions := v.sessions ++ launch.process.toList.map (Provider.mk id path)
        containers := v.containers ++ launch.containerName.toList.map (Provider.mk id path) }
  | .sessionStopped name => { v with sessions := v.sessions.filter (!·.isOf id name) }
  | .containerRemoved name => { v with containers := v.containers.filter (!·.isOf id name) }

/-- After a move of the lane that works on it. -/
def moved (clock : HostClock) (l : Lane) (m : Move) (v : View) : View :=
  { (v.written clock l.executionId l.epoch m.write).changed l.executionId m.providers with
    lane := m.phase.map fun phase => { l with phase } }

/-- After a move of its recovery. -/
def recovered (clock : HostClock) (row : LocalExecution) (name : LockName)
    (m : PassMove) (v : View) : View :=
  { (v.written clock row.executionId row.epoch m.write).changed row.executionId m.providers with
    stage := m.stage.map (name, ·) }

@[simp] theorem changed_same :
    (v.changed id c).row = v.row ∧ (v.changed id c).lane = v.lane ∧ (v.changed id c).stage = v.stage
      ∧ (v.changed id c).receipts = v.receipts := by
  cases c with
  | released _ => rw [changed]; split <;> exact ⟨rfl, rfl, rfl, rfl⟩
  | _ => exact ⟨rfl, rfl, rfl, rfl⟩

variable {n : PassMove}

@[simp] theorem moved_row : (v.moved clock l m).row = v.row.map (·.written clock m.write) := by
  simp [moved, written]

@[simp] theorem moved_lane :
    (v.moved clock l m).lane = m.phase.map fun phase => { l with phase } := rfl

@[simp] theorem moved_stage : (v.moved clock l m).stage = v.stage := by simp [moved, written]

@[simp] theorem moved_receipts :
    (v.moved clock l m).receipts = m.write.receipts l.executionId l.epoch ++ v.receipts := by
  simp [moved, written]

@[simp] theorem recovered_row :
    (v.recovered clock row name n).row = v.row.map (·.written clock n.write) := by
  simp [recovered, written]

@[simp] theorem recovered_lane : (v.recovered clock row name n).lane = v.lane := by
  simp [recovered, written]

@[simp] theorem recovered_stage :
    (v.recovered clock row name n).stage = n.stage.map (name, ·) := rfl

@[simp] theorem recovered_receipts :
    (v.recovered clock row name n).receipts
      = n.write.receipts row.executionId row.epoch ++ v.receipts := by
  simp [recovered, written]

end View

namespace RecoveryPass

/-- The stage in which a pass is with an execution. -/
def stageOf (p : RecoveryPass) (id : Id) : Option (LockName × Stage) :=
  match p.rows with
  | [] => none
  | row :: _ => if row.executionId = id then p.stage else none

@[simp] theorem stageOf_none : stageOf ⟨rows, includeRunning, none⟩ id = none := by
  cases rows <;> simp [stageOf]

@[simp] theorem stageOf_cons :
    stageOf ⟨row :: rows, includeRunning, stage⟩ id
      = if row.executionId = id then stage else none :=
  rfl

@[simp] theorem stageOf_after {stage : Option Stage} :
    (after row rows includeRunning name stage).stageOf id
      = if row.executionId = id then stage.map (name, ·) else none := by
  cases stage <;> simp [after]

end RecoveryPass

namespace Daemon

/-- The stage of the recovery of an execution. -/
def stageOf (s : Daemon) (id : Id) : Option (LockName × Stage) := s.pass.bind (·.stageOf id)

theorem stageOf_eq_some {stage : LockName × Stage} :
    s.stageOf id = some stage ↔ ∃ row rows includeRunning,
      s.pass = some ⟨row :: rows, includeRunning, some stage⟩ ∧ row.executionId = id := by
  constructor
  · intro h
    obtain ⟨⟨rows, includeRunning, _⟩, hp, h⟩ := Option.bind_eq_some_iff.mp h
    cases rows with
    | nil => cases h
    | cons row rows =>
      rw [RecoveryPass.stageOf_cons] at h
      split at h
      · subst h
        exact ⟨row, rows, includeRunning, hp, ‹_›⟩
      · cases h
  · rintro ⟨row, rows, includeRunning, hp, rfl⟩
    simp [stageOf, hp]

/-- What there is of an execution. -/
def view (s : Daemon) (id : Id) : View where
  row := s.stored id
  lane := s.lane id
  stage := s.stageOf id
  receipts := s.receipts.filter fun r => decide (r.1 = id)
  sessions := s.sessions.filter fun p => decide (p.executionId = id)
  containers := s.containers.filter fun p => decide (p.executionId = id)

/-- A write that commits. -/
theorem commit_view (h : s.commit id epoch w = some s') (hrow : s.stored id = some row)
    (hepoch : row.epoch = epoch) :
    s'.view id = (s.view id).written s.clock id epoch w ∧
      (∀ id', id' ≠ id → s'.view id' = s.view id') ∧ (w.needsLease → row.Holds s.clock) ∧
      ∃ journal receipts, s' = { s with journal, receipts } := by
  rw [commit] at h
  split at h
  · cases h
  · rename_i _ journal hcommit
    cases h
    obtain ⟨hself, hother, hlease⟩ := w.action_spec hrow hepoch _ _ hcommit
    refine ⟨?_, fun id' hne => ?_, hlease, _, _, rfl⟩
    · simp only [view, View.written, hrow, filter_append, Write.filter_receipts, Option.map_some]
      exact congrArg (View.mk · _ _ _ _ _) hself
    · simp only [view, filter_append, Write.filter_receipts_of_ne hne, nil_append]
      exact congrArg (View.mk · _ _ _ _ _) (hother id' hne)

theorem change_view (s : Daemon) (id : Id) (c : ProviderChange) :
    (s.change id c).view id = (s.view id).changed id c ∧
      ∀ id', id' ≠ id → (s.change id c).view id' = s.view id' := by
  cases c with
  | unchanged => exact ⟨rfl, fun _ _ => rfl⟩
  | released launch =>
    rw [change, View.changed]
    cases launch.workspacePath with
    | none => exact ⟨rfl, fun _ _ => rfl⟩
    | some _ =>
      refine ⟨?_, fun id' hne => ?_⟩
      · simp only [view, filter_append, Provider.filter_map_mk]
        rfl
      · simp only [view, filter_append, Provider.filter_map_mk_of_ne hne, append_nil]
        rfl
  | sessionStopped | containerRemoved =>
    refine ⟨?_, fun id' hne => ?_⟩
    · simp only [view, change, View.changed, filter_comm]
      rfl
    · simp only [view, change, Provider.filter_stopped hne]
      rfl

@[simp] theorem change_same : (s.change id c).lanes = s.lanes
    ∧ (s.change id c).pass = s.pass ∧ (s.change id c).starting = s.starting
    ∧ (s.change id c).clock = s.clock ∧ (s.change id c).journal = s.journal := by
  cases c with
  | released _ => rw [change]; split <;> exact ⟨rfl, rfl, rfl, rfl, rfl⟩
  | _ => exact ⟨rfl, rfl, rfl, rfl, rfl⟩

theorem goOn_view (hlane : s.lane id = some l) (phase : Option Phase) :
    (s.goOn id phase).view id = { s.view id with lane := phase.map fun phase => { l with phase } } ∧
      ∀ id', id' ≠ id → (s.goOn id phase).view id' = s.view id' := by
  have hid : l.executionId = id := key_of_find? hlane
  cases phase with
  | some phase =>
    refine ⟨congrArg (View.mk _ · _ _ _ _) ?_, fun id' hne => congrArg (View.mk _ · _ _ _ _) ?_⟩
    · rw [lane, goOn, find?_modify, ← lane, hlane]
      simp [hid]
    · exact find?_updateWhere_of_ne (T := s.lanes) (f := ({ · with phase })) (e := fun _ => rfl)
        (fun _ => of_decide_eq_true) hne
  | none =>
    refine ⟨congrArg (View.mk _ · _ _ _ _) ?_, fun id' hne => congrArg (View.mk _ · _ _ _ _) ?_⟩
    · rw [lane, goOn, find?_restrict_ne, if_pos rfl]
      rfl
    · rw [lane, goOn, find?_restrict_ne, if_neg hne, ← lane]

/-- A move of a lane. -/
theorem perform_view (h : s.perform l m = some s') (hlane : s.lane l.executionId = some l)
    (hrow : s.stored l.executionId = some row) (hepoch : row.epoch = l.epoch) :
    s'.view l.executionId = (s.view l.executionId).moved s.clock l m ∧
      (∀ id', id' ≠ l.executionId → s'.view id' = s.view id') ∧
      (m.write.needsLease → row.Holds s.clock) ∧ s'.pass = s.pass ∧ s'.starting = s.starting ∧
      s'.clock = s.clock := by
  rw [perform, Option.map_eq_some_iff] at h
  obtain ⟨_, hcommit, rfl⟩ := h
  obtain ⟨hself, hother, hlease, journal, receipts, rfl⟩ := commit_view hcommit hrow hepoch
  obtain ⟨hself₁, hother₁⟩ := change_view { s with journal, receipts } l.executionId m.providers
  have hlane₁ : (({ s with journal, receipts } : Daemon).change l.executionId m.providers).lane
      l.executionId = some l := by
    rw [lane, change_same.1]
    exact hlane
  obtain ⟨hself₂, hother₂⟩ := goOn_view hlane₁ m.phase
  refine ⟨?_, fun id' hne => ?_, hlease, ?_⟩
  · rw [hself₂, hself₁, hself, View.moved]
  · rw [hother₂ id' hne, hother₁ id' hne, hother id' hne]
  · cases hp : m.phase <;> simp [goOn]

/-- A move of a recovery. -/
theorem recover_view {current : LocalExecution} {m : PassMove}
    (h : s.recover row rows includeRunning name m = some s')
    (hstage : ∀ id', id' ≠ row.executionId → s.stageOf id' = none)
    (hrow : s.stored row.executionId = some current) (hepoch : current.epoch = row.epoch) :
    s'.view row.executionId = (s.view row.executionId).recovered s.clock row name m ∧
      (∀ id', id' ≠ row.executionId → s'.view id' = s.view id') ∧
      (m.write.needsLease → current.Holds s.clock) ∧
      s'.pass = some (.after row rows includeRunning name m.stage) ∧ s'.lanes = s.lanes ∧
      s'.starting = s.starting ∧ s'.clock = s.clock := by
  rw [recover, Option.map_eq_some_iff] at h
  obtain ⟨_, hcommit, rfl⟩ := h
  obtain ⟨hself, hother, hlease, journal, receipts, rfl⟩ := commit_view hcommit hrow hepoch
  obtain ⟨hself₁, hother₁⟩ := change_view { s with journal, receipts } row.executionId m.providers
  refine ⟨?_, fun id' hne => ?_, hlease, rfl, by simp⟩
  · rw [View.recovered, ← hself, ← hself₁]
    refine congrArg (View.mk _ _ · _ _ _) ?_
    simp [stageOf]
  · rw [← hother id' hne, ← hother₁ id' hne]
    refine congrArg (View.mk _ _ · _ _ _) ?_
    have hnone := hstage id' hne
    simp only [stageOf] at hnone ⊢
    simp [hne.symm, hnone]

end Daemon

/-! ## Steps -/

/-- A stored execution keeps its epoch, and does not run again once it has ended. -/
structure LocalExecution.Evolves (row row' : LocalExecution) : Prop where
  epoch : row'.epoch = row.epoch
  ended : row.status ≠ .running → row'.status ≠ .running

theorem LocalExecution.Evolves.refl (row : LocalExecution) : row.Evolves row := ⟨rfl, id⟩

theorem LocalExecution.Evolves.trans {row' row'' : LocalExecution} (h : row.Evolves row')
    (h' : row'.Evolves row'') : row.Evolves row'' :=
  ⟨h'.epoch.trans h.epoch, fun hended => h'.ended (h.ended hended)⟩

theorem LocalExecution.written_evolves (w : Write) : row.Evolves (row.written clock w) := by
  cases w with
  | fence _ => exact ⟨rfl, fun _ => nofun⟩
  | _ => exact ⟨rfl, id⟩

namespace Daemon

/-- What every state of a daemon has. -/
structure Wf (s : Daemon) : Prop where
  /-- A lane works on an execution that is stored. -/
  lane_row : ∀ {id l}, s.lane id = some l → ∃ row, s.stored id = some row ∧ row.epoch = l.epoch
  /-- The rows of a pass are stored. -/
  pass_row : ∀ {p}, s.pass = some p → ∀ row ∈ p.rows,
    ∃ row', s.stored row.executionId = some row' ∧ row.Evolves row'
  /-- No lane is at work before the first recovery pass is over. -/
  idle : s.starting → ∀ id, s.lane id = none
  startup : ∀ {p}, s.pass = some p → p.includeRunning → s.starting

/-- Only an execution that is stored is being recovered. -/
theorem Wf.stage_none (hs : s.Wf) (h : s.stored id = none) : s.stageOf id = none := by
  rw [stageOf, Option.bind_eq_none_iff]
  rintro ⟨rows, _⟩ hp
  cases rows with
  | nil => rfl
  | cons row rows =>
    obtain ⟨_, hrow', -⟩ := hs.pass_row hp row mem_cons_self
    refine if_neg fun hid => ?_
    rw [hid, h] at hrow'
    cases hrow'

/-- What a step may make of the view of one execution. -/
inductive Change (treeOf : Id → Tree) (s : Daemon) (id : Id) : DaemonStep → View → Prop
  | same {step : DaemonStep} : Change treeOf s id step (s.view id)
  | resolve {requestId epoch seconds workspace repositoryId} {row : LocalExecution} {l : Lane}
      (hnew : s.stored id = none)
      (hrow : row.status = (if 0 < seconds then .running else .ended .lost) ∧ row.checkpoint = {}
        ∧ row.epoch = epoch)
      (hlane : l.executionId = id ∧ l.epoch = epoch
        ∧ l.phase = (if seconds ≤ 0 then .expired else .claimed)) :
      Change treeOf s id (.resolve requestId id epoch seconds workspace repositoryId)
        { s.view id with row := some row, lane := some l }
  | lane {step : LaneStep} {l : Lane} {m : Move} {row : LocalExecution} (hlane : s.lane id = some l)
      (hplan : s.plan treeOf l step = some m) (hrow : s.stored id = some row)
      (hlease : m.write.needsLease → row.Holds s.clock) :
      Change treeOf s id (.lane id step) ((s.view id).moved s.clock l m)
  | take {row : LocalExecution} {rows : List LocalExecution} {includeRunning : Bool}
      (hpass : s.pass = some ⟨row :: rows, includeRunning, none⟩) (hid : row.executionId = id)
      (hvisits : s.visits includeRunning row) (hlock : s.isLocked (lockOf row) = false) :
      Change treeOf s id (.pass .take) { s.view id with stage := some (lockOf row, .locked) }
  | recover {step : PassStep} {row current : LocalExecution} {rows : List LocalExecution}
      {includeRunning : Bool} {name : LockName} {stage : Stage} {m : PassMove}
      (hpass : s.pass = some ⟨row :: rows, includeRunning, some (name, stage)⟩)
      (hid : row.executionId = id) (hplan : s.recoverPlan treeOf row step stage = some m)
      (hrow : s.stored id = some current) (hevolves : row.Evolves current) :
      Change treeOf s id (.pass step) ((s.view id).recovered s.clock row name m)
  | fail {row current : LocalExecution} {rows : List LocalExecution} {includeRunning : Bool}
      {retryAt : Int} (hpass : s.pass = some ⟨row :: rows, includeRunning, none⟩)
      (hid : row.executionId = id) (hrow : s.stored id = some current)
      (hevolves : row.Evolves current) :
      Change treeOf s id (.pass (.fail retryAt))
        { s.view id with row := some { current with checkpoint :=
          { row.checkpoint with recoveryPending := true, recoveryRetryAt := retryAt } } }
  | abort : Change treeOf s id (.pass .abort) { s.view id with stage := none }
  | crash : Change treeOf s id .crash { s.view id with lane := none, stage := none }

variable {treeOf : Id → Tree}

/-- The stored row of an execution evolves. -/
theorem Change.row_evolves (h : Change treeOf s id step v) (hrow : s.stored id = some row) :
    ∃ row', v.row = some row' ∧ row.Evolves row' := by
  cases h with
  | resolve hnew => rw [hnew] at hrow; cases hrow
  | @lane step l m row' =>
    refine ⟨row.written s.clock m.write, ?_, LocalExecution.written_evolves _⟩
    rw [View.moved_row, view, hrow, Option.map_some]
  | @recover step row' _ _ _ _ _ m =>
    refine ⟨row.written s.clock m.write, ?_, LocalExecution.written_evolves _⟩
    rw [View.recovered_row, view, hrow, Option.map_some]
  | fail _ _ hrow' =>
    cases hrow'.symm.trans hrow
    exact ⟨_, rfl, rfl, fun h => h⟩
  | same | take | abort | crash => exact ⟨row, hrow, .refl row⟩

/-- A lane keeps the epoch that is stored. -/
theorem Change.lane_row (hs : s.Wf) (h : Change treeOf s id step v) (hlane : v.lane = some l) :
    ∃ row, v.row = some row ∧ row.epoch = l.epoch := by
  -- A lane that was there before keeps its epoch, and so does its row.
  have kept : ∀ {l₀ : Lane}, s.lane id = some l₀ → l.epoch = l₀.epoch →
      ∃ row, v.row = some row ∧ row.epoch = l.epoch := by
    intro l₀ hlane₀ hl
    obtain ⟨row, hrow, hepoch⟩ := hs.lane_row hlane₀
    obtain ⟨row', hrow', hevolves⟩ := h.row_evolves hrow
    exact ⟨row', hrow', hevolves.epoch.trans (hepoch.trans hl.symm)⟩
  cases h with
  | resolve _ hrow hlane' =>
    cases hlane
    exact ⟨_, rfl, hrow.2.2.trans hlane'.2.1.symm⟩
  | lane hlane₀ =>
    rw [View.moved_lane, Option.map_eq_some_iff] at hlane
    obtain ⟨_, -, rfl⟩ := hlane
    exact kept hlane₀ rfl
  | recover =>
    rw [View.recovered_lane] at hlane
    exact kept hlane rfl
  | fail | same | take | abort => exact kept hlane rfl
  | crash => cases hlane

/-- What a step leaves well formed, where its changes and its pass are known. -/
theorem Wf.of_change (hs : s.Wf) (hchange : ∀ id, Change treeOf s id step (s'.view id))
    (hpass : ∀ {p'}, s'.pass = some p' → ∀ row ∈ p'.rows,
      (∃ p, s.pass = some p ∧ row ∈ p.rows) ∨ row ∈ s.journal.executions)
    (hidle : s'.starting → ∀ id, s'.lane id = none)
    (hstartup : ∀ {p}, s'.pass = some p → p.includeRunning → s'.starting) : s'.Wf where
  lane_row hlane := (hchange _).lane_row hs hlane
  pass_row hp row hmem := by
    rcases hpass hp row hmem with ⟨p, hp₀, hmem₀⟩ | hmem₀
    · obtain ⟨_, hrow₁, hevolves⟩ := hs.pass_row hp₀ row hmem₀
      obtain ⟨row₂, hrow₂, hevolves₂⟩ := (hchange _).row_evolves hrow₁
      exact ⟨row₂, hrow₂, hevolves.trans hevolves₂⟩
    · exact (hchange _).row_evolves (find?_key hmem₀)
  idle := hidle
  startup := hstartup

/-- The steps of a pass that recovers a row. -/
theorem passNext_recover {step : PassStep} {stage : Stage} (hstep : step ≠ .abort) :
    s.passNext treeOf step (some ⟨row :: rows, includeRunning, some (name, stage)⟩)
      = (s.recoverPlan treeOf row step stage).bind (s.recover row rows includeRunning name) := by
  cases step with
  | abort => exact absurd rfl hstep
  | _ => rfl

/-- What a step of a pass leaves of it. -/
structure PassStepped (s s' : Daemon) : Prop where
  lanes : s'.lanes = s.lanes
  starting : s'.starting → s.starting
  clock : s'.clock = s.clock
  rows : ∀ {p'}, s'.pass = some p' → ∀ row ∈ p'.rows,
    (∃ p, s.pass = some p ∧ row ∈ p.rows) ∨ row ∈ s.journal.executions
  startup : ∀ {p'}, s'.pass = some p' → p'.includeRunning → s'.starting

/-- A pass that is with no execution, before and after. -/
theorem view_of_pass {pass : Option RecoveryPass} (hbefore : s.stageOf id = none)
    (hafter : pass.bind (·.stageOf id) = none) (starting : Bool) :
    ({ s with pass, starting } : Daemon).view id = s.view id :=
  congrArg (View.mk _ _ · _ _ _) (hafter.trans hbefore.symm)

/-- The recovery of the first row of a pass. -/
theorem recover_stepped {m : PassMove} (hs : s.Wf)
    (hpass : s.pass = some ⟨row :: rows, includeRunning, stage⟩)
    (h : s.recover row rows includeRunning name m = some s') :
    ∃ current, s.stored row.executionId = some current ∧ row.Evolves current
      ∧ s'.view row.executionId = (s.view row.executionId).recovered s.clock row name m
      ∧ (∀ id, id ≠ row.executionId → s'.view id = s.view id) ∧ s.PassStepped s' := by
  obtain ⟨current, hrow, hevolves⟩ := hs.pass_row hpass row mem_cons_self
  have hstage : ∀ id', id' ≠ row.executionId → s.stageOf id' = none := by
    intro id' hne
    simp [stageOf, hpass, hne.symm]
  obtain ⟨hself, hother, -, hpass', hlanes, hstarting, hclock⟩ :=
    recover_view h hstage hrow hevolves.epoch
  refine ⟨current, hrow, hevolves, hself, hother, hlanes, fun h => hstarting ▸ h, hclock, ?_, ?_⟩
  · intro p' hp' _ hmem
    cases hpass'.symm.trans hp'
    refine .inl ⟨_, hpass, ?_⟩
    cases hm : m.stage with
    | none =>
      rw [hm] at hmem
      exact mem_cons_of_mem _ hmem
    | some _ =>
      rw [hm] at hmem
      exact hmem
  · intro p' hp' hinclude
    cases hpass'.symm.trans hp'
    rw [hstarting]
    refine hs.startup hpass ?_
    cases hm : m.stage <;> rw [hm] at hinclude <;> exact hinclude

/-- A step that changes one view. -/
theorem changes_of_one (hself : Change treeOf s id step (s'.view id))
    (hother : ∀ id', id' ≠ id → s'.view id' = s.view id') (id' : Id) :
    Change treeOf s id' step (s'.view id') := by
  by_cases hid : id' = id
  · rwa [hid]
  · rw [hother id' hid]
    exact .same

theorem recover_change {step : PassStep} {stage : Stage} {m : PassMove} (hs : s.Wf)
    (hpass : s.pass = some ⟨row :: rows, includeRunning, some (name, stage)⟩)
    (hplan : s.recoverPlan treeOf row step stage = some m)
    (h : s.recover row rows includeRunning name m = some s') :
    (∀ id, Change treeOf s id (.pass step) (s'.view id)) ∧ s.PassStepped s' := by
  obtain ⟨_, hrow, hevolves, hself, hother, hstepped⟩ := recover_stepped hs hpass h
  refine ⟨changes_of_one ?_ hother, hstepped⟩
  rw [hself]
  exact .recover hpass rfl hplan hrow hevolves

/-- An error in the recovery of a row that was not taken yet. -/
theorem fail_change {retryAt : Int} (hs : s.Wf)
    (hpass : s.pass = some ⟨row :: rows, includeRunning, none⟩)
    (h : (s.recoverPlan treeOf row (.fail retryAt) .locked).bind
      (s.recover row rows includeRunning (lockOf row)) = some s') :
    (∀ id, Change treeOf s id (.pass (.fail retryAt)) (s'.view id)) ∧ s.PassStepped s' := by
  obtain ⟨current, hrow, hevolves, hself, hother, hstepped⟩ :=
    recover_stepped (m := { write := .checkpoint _, stage := none }) hs hpass h
  refine ⟨changes_of_one ?_ hother, hstepped⟩
  have hview : s'.view row.executionId = { s.view row.executionId with row := some { current with
      checkpoint :=
        { row.checkpoint with recoveryPending := true, recoveryRetryAt := retryAt } } } := by
    rw [hself]
    simp only [View.recovered, View.written, View.changed, view, hrow, stageOf, hpass,
      Option.bind_some, RecoveryPass.stageOf_none]
    rfl
  rw [hview]
  exact .fail hpass rfl hrow hevolves

/-- A step of a pass that is between two rows. -/
theorem passNext_change_of_none {step : PassStep} (hstep : step ≠ .abort)
    (hs : s.Wf) (hpass : s.pass = some ⟨rows, includeRunning, none⟩)
    (h : s.passNext treeOf step (some ⟨rows, includeRunning, none⟩) = some s') :
    (∀ id, Change treeOf s id (.pass step) (s'.view id)) ∧ s.PassStepped s' := by
  have hstage : ∀ id, s.stageOf id = none := by
    intro id
    simp [stageOf, hpass]
  cases rows with
  | nil =>
    cases step with
    | abort => exact absurd rfl hstep
    | finish =>
      cases h
      refine ⟨fun id => ?_, rfl, nofun, rfl, nofun, nofun⟩
      rw [view_of_pass (hstage id) rfl]
      exact .same
    | _ => cases h
  | cons row rows =>
    cases step with
    | abort => exact absurd rfl hstep
    | skip =>
      simp only [passNext] at h
      split at h
      · cases h
      · cases h
        refine ⟨fun id => ?_, rfl, fun h => h, rfl, ?_, ?_⟩
        · rw [view_of_pass (hstage id) (by simp)]
          exact .same
        · rintro _ ⟨⟩
          exact fun row' hmem => .inl ⟨_, hpass, mem_cons_of_mem _ hmem⟩
        · rintro _ ⟨⟩
          exact fun hinclude => hs.startup hpass hinclude
    | take =>
      simp only [passNext] at h
      split at h
      · rename_i hvisits
        cases h
        simp only [Bool.and_eq_true, Bool.not_eq_true'] at hvisits
        refine ⟨fun id => ?_, rfl, fun h => h, rfl, ?_, ?_⟩
        · by_cases hid : row.executionId = id
          · convert Change.take hpass hid hvisits.1 hvisits.2 using 1
            simp [view, stageOf, stored, lane, hid]
          · rw [view_of_pass (hstage id) (by simp [hid])]
            exact .same
        · rintro _ ⟨⟩
          exact fun row' hmem => .inl ⟨_, hpass, hmem⟩
        · rintro _ ⟨⟩
          exact fun hinclude => hs.startup hpass hinclude
      · cases h
    | fail _ =>
      simp only [passNext] at h
      split at h
      · exact fail_change hs hpass h
      · cases h
    | _ => cases h

/-- A step of a pass. -/
theorem passNext_change {step : PassStep} (hs : s.Wf)
    (h : s.passNext treeOf step s.pass = some s') :
    (∀ id, Change treeOf s id (.pass step) (s'.view id)) ∧ s.PassStepped s' := by
  cases hp : s.pass with
  | none =>
    rw [hp] at h
    cases step with
    | start =>
      cases h
      refine ⟨fun id => ?_, rfl, fun h => h, rfl, ?_, ?_⟩
      · rw [view_of_pass (by simp [stageOf, hp]) (by simp)]
        exact .same
      · rintro _ ⟨⟩
        exact fun row hmem => .inr hmem
      · rintro _ ⟨⟩
        exact fun h => h
    | _ => cases h
  | some p =>
    rw [hp] at h
    obtain ⟨rows, _, stage⟩ := p
    by_cases hstep : step = .abort
    · subst hstep
      cases h
      exact ⟨fun id => .abort, rfl, fun h => h, rfl, nofun, nofun⟩
    cases stage with
    | none => exact passNext_change_of_none hstep hs hp h
    | some stage =>
      cases rows with
      | nil =>
        cases step with
        | abort => exact absurd rfl hstep
        | _ => cases h
      | cons row rows =>
        rw [passNext_recover hstep, Option.bind_eq_some_iff] at h
        obtain ⟨m, hplan, h⟩ := h
        exact recover_change hs hp hplan h

/-- The next move of a lane is one of its approach, of its requests or of its conclusion. -/
theorem plan_cases {step : LaneStep} (h : s.plan treeOf l step = some m) :
    s.approach l step l.phase = some m ∨ s.supervise l step l.phase = some m ∨
      s.conclude treeOf l step l.phase = some m := by
  rw [plan] at h
  cases hone : s.approach l step l.phase with
  | some m' =>
    rw [hone] at h
    exact .inl h
  | none =>
    rw [hone] at h
    cases htwo : s.supervise l step l.phase with
    | some m' =>
      rw [htwo] at h
      exact .inr (.inl h)
    | none =>
      rw [htwo] at h
      exact .inr (.inr h)

/-- A step of a lane. -/
theorem lane_change {step : LaneStep} (hs : s.Wf) (h : s.next treeOf (.lane id step) = some s') :
    (∀ id', Change treeOf s id' (.lane id step) (s'.view id')) ∧ s'.pass = s.pass ∧
      s'.starting = s.starting ∧ s'.clock = s.clock := by
  simp only [next, Option.bind_eq_some_iff] at h
  obtain ⟨l, hlane, m, hplan, h⟩ := h
  obtain rfl : l.executionId = id := key_of_find? hlane
  obtain ⟨row, hrow, hepoch⟩ := hs.lane_row hlane
  obtain ⟨hself, hother, hlease, hpass, hstarting, hclock⟩ := perform_view h hlane hrow hepoch
  refine ⟨changes_of_one ?_ hother, hpass, hstarting, hclock⟩
  rw [hself]
  exact .lane hlane hplan hrow hlease

/-- An answer to a claim. -/
theorem resolve_change {executionId : Id} {workspace : WorkspacePath} {repositoryId : Id}
    (h : s.next treeOf (.resolve requestId executionId epoch seconds workspace repositoryId)
      = some s') :
    (∀ id, Change treeOf s id (.resolve requestId executionId epoch seconds workspace repositoryId)
        (s'.view id)) ∧
      s'.pass = s.pass ∧ s'.starting = false ∧ s.starting = false ∧ s'.clock = s.clock := by
  simp only [next] at h
  split at h
  · cases h
  rename_i hstarting
  rw [Bool.not_eq_true] at hstarting
  split at h
  · rename_i journal hresolve
    rw [Option.map_eq_some_iff] at h
    obtain ⟨_, hinsert, rfl⟩ := h
    obtain ⟨hnew, rfl⟩ := insertNew_eq_some.mp hinsert
    obtain ⟨hfresh, -, hother⟩ := Journal.resolveClaim_spec _ _ hresolve
    obtain ⟨hnone, hsome⟩ := hfresh rfl
    refine ⟨fun id => ?_, rfl, hstarting, hstarting, rfl⟩
    by_cases hid : id = executionId
    · subst hid
      have hlane := find?_insert_self (h := hnew)
      simp only [view, stored, lane, hsome, hlane]
      exact .resolve hnone ⟨rfl, rfl, rfl⟩ ⟨rfl, rfl, rfl⟩
    · convert Change.same using 1
      simp only [view, stored, lane]
      congr 1
      · exact hother id hid
      · exact find?_insert_of_ne (h := hnew) hid
  · rename_i journal hresolve
    cases h
    obtain ⟨-, hsame, -⟩ := Journal.resolveClaim_spec _ _ hresolve
    refine ⟨fun id => ?_, rfl, hstarting, hstarting, rfl⟩
    convert Change.same using 1
    simp only [view, stored, lane, hsame rfl]
    rfl
  · cases h

/-- What one step does to the views. -/
theorem next_change (hs : s.Wf) (h : s.next treeOf step = some s') :
    (∀ id, Change treeOf s id step (s'.view id)) ∧ s'.Wf ∧ s'.clock.boot = s.clock.boot ∧
      s.clock.monotonic ≤ s'.clock.monotonic := by
  -- A step that leaves the pass and the lanes alone.
  have quiet : (∀ id, s'.view id = s.view id) → s'.pass = s.pass → s'.starting = s.starting →
      (∀ id, Change treeOf s id step (s'.view id)) ∧ s'.Wf := by
    intro hview hpass hstarting
    have hchange : ∀ id, Change treeOf s id step (s'.view id) := fun id => by
      rw [hview id]
      exact .same
    refine ⟨hchange, hs.of_change hchange (fun hp row hmem => .inl ⟨_, hpass ▸ hp, hmem⟩) ?_ ?_⟩
    · intro h id
      rw [← hs.idle (hstarting ▸ h) id]
      exact congrArg View.lane (hview id)
    · intro p hp hinclude
      rw [hstarting]
      exact hs.startup (hpass ▸ hp) hinclude
  cases step with
  | journal step =>
    simp only [next] at h
    split at h
    · rename_i hspares
      split at h
      · rename_i journal hcommit
        cases h
        have hsame : journal.executions = s.journal.executions :=
          HostStep.action_sameExecutions hspares _ _ _ hcommit
        have := quiet (fun id => by simp [view, stored, lane, hsame]; rfl) rfl rfl
        exact ⟨this.1, this.2, rfl, le_rfl⟩
      · cases h
    · cases h
  | advance _ _ =>
    cases h
    have := quiet (fun id => rfl) rfl rfl
    exact ⟨this.1, this.2, rfl, by simp⟩
  | edit _ _ =>
    simp only [next] at h
    split at h
    · cases h
      have := quiet (fun id => rfl) rfl rfl
      exact ⟨this.1, this.2, rfl, le_rfl⟩
    · cases h
  | resolve _ _ _ _ _ _ =>
    obtain ⟨hchange, hpass, hstarting', hstarting, hclock⟩ := resolve_change h
    refine ⟨hchange, hs.of_change hchange (fun hp row hmem => .inl ⟨_, hpass ▸ hp, hmem⟩) ?_ ?_,
      by rw [hclock], by rw [hclock]⟩
    · intro h
      rw [hstarting'] at h
      cases h
    · intro p hp hinclude
      have := hs.startup (hpass ▸ hp) hinclude
      rw [hstarting] at this
      cases this
  | lane id step =>
    obtain ⟨hchange, hpass, hstarting, hclock⟩ := lane_change hs h
    refine ⟨hchange, hs.of_change hchange (fun hp row hmem => .inl ⟨_, hpass ▸ hp, hmem⟩) ?_ ?_,
      by rw [hclock], by rw [hclock]⟩
    · intro hstart
      simp only [next, hs.idle (hstarting ▸ hstart) id] at h
      cases h
    · intro p hp hinclude
      rw [hstarting]
      exact hs.startup (hpass ▸ hp) hinclude
  | pass step =>
    obtain ⟨hchange, hstepped⟩ := passNext_change hs h
    refine ⟨hchange, hs.of_change hchange hstepped.rows ?_ hstepped.startup, by rw [hstepped.clock],
      by rw [hstepped.clock]⟩
    intro hstart id
    rw [lane, hstepped.lanes]
    exact hs.idle (hstepped.starting hstart) id
  | crash =>
    cases h
    have hchange : ∀ id, Change treeOf s id .crash
        (({ s with lanes := .empty _, pass := none, starting := true } : Daemon).view id) :=
      fun id => .crash
    exact ⟨hchange, hs.of_change hchange (by rintro _ ⟨⟩) (fun _ _ => rfl) (by rintro _ ⟨⟩),
      rfl, le_rfl⟩

theorem wf_initial (checkouts : WorkspacePath → Checkout) : (initial checkouts).Wf :=
  ⟨nofun, nofun, fun _ _ => rfl, nofun⟩

end Daemon

end Horizon
