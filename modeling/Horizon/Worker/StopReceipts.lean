import Horizon.Worker.Views

/-!
# Stop receipts

Every execution that a daemon has taken on is to end with a stop receipt.  A lane fences an
execution and enqueues its receipt in two transactions, and recovery visits only the rows
that run or are marked for it.  So a receipt is owed, and nothing but the thread at work
knows of it, whenever a row is fenced without the mark (`Daemon.isOwed`).

`stop_receipts_kept` says that no receipt is lost while the daemon does not break off in
such a state; `expired_claim_loses_receipt` shows what happens otherwise.
-/

namespace Horizon

open List Option Bool LocalExecution

variable {value : Checkpoint} {s : Daemon} {treeOf : Id → Tree} {l : Lane}
  {clock : HostClock} {v : View}
  {current row : LocalExecution} {m : Move} {stage : Stage} {done done' : Prop} {phase : Phase}

/-! ## The condition -/

namespace Daemon

/-- Whether the stop receipt of an execution is owed: it has ended, recovery will not visit
it, and no receipt was enqueued. -/
def isOwed (s : Daemon) (id : Id) : Bool :=
  (s.stored id).any fun row =>
    row.status != .running && !row.checkpoint.recoveryPending
      && !s.receipts.contains (id, row.epoch)

/-- The daemon does not break off the work on an execution whose stop receipt is owed: by a
crash, by an error of the journal in a lane or in a recovery pass. -/
def keepsReceipts (s : Daemon) : DaemonStep → Bool
  | .crash => s.journal.executions.rows.all fun row => !s.isOwed row.executionId
  | .lane id .emitFails => (s.lane id).any (fun l => match l.phase with
      | .refused _ .execute => true
      | _ => false) || !s.isOwed id
  | .lane id .abandon => !s.isOwed id
  | .pass .abort => s.pass.all fun p => p.rows.head?.all fun row =>
      p.stage.isNone || !s.isOwed row.executionId
  | _ => true

end Daemon

/-! ## What a lane and a recovery know -/

/-- The phases of a lane that still answers for a stop receipt. -/
def Phase.isEarly : Phase → Bool
  | expired | claimed | refused .. | checked | entered | raised => true
  | _ => false

/-- What the phase of a lane says about the stop receipt of its execution. -/
def Phase.Honest (done : Prop) : Phase → Prop
  | refused _ (.handler checkpoint) => checkpoint.isBound = false
  | clearing _ | receipted .. => done
  | working checkpoint | leaving checkpoint .. | closing _ checkpoint ..
  | preserving _ checkpoint _ =>
    checkpoint.recoveryPending
  | begun checkpoint copy | saved checkpoint copy | spawned checkpoint copy
  | recorded checkpoint copy | running checkpoint copy | returning checkpoint copy =>
    checkpoint.recoveryPending ∧ copy.recoveryPending
  | _ => True

/-- The stages of a recovery that has fenced its execution. -/
def Stage.isFenced : Stage → Bool
  | fenced .. | preserving .. | preserved .. | recorded .. => true
  | _ => false

/-- What the stage of a recovery says about the stop receipt of its execution. -/
def Stage.Honest (done ended : Prop) : Stage → Prop
  | locked => True
  | halting checkpoint _ | haltingContainer checkpoint _ | halted checkpoint _ =>
    checkpoint.isBound → checkpoint.recoveryPending ∨ done
  | fenced checkpoint _ | preserving checkpoint _ _ | preserved checkpoint _
  | recorded checkpoint _ =>
    (checkpoint.isBound → checkpoint.recoveryPending ∨ done) ∧ ended
  | enqueued _ => done

theorem Phase.Honest.mono (hdone : done → done') (h : phase.Honest done) : phase.Honest done' := by
  cases phase with
  | refused _ by_ => cases by_ <;> exact h
  | clearing | receipted => exact hdone h
  | _ => exact h

theorem Stage.Honest.mono {ended ended' : Prop} (hdone : done → done') (hended : ended → ended')
    (h : stage.Honest done ended) : stage.Honest done' ended' := by
  cases stage with
  | locked => exact h
  | halting | haltingContainer | halted => exact fun hbound => (h hbound).imp_right hdone
  | fenced | preserving | preserved | recorded =>
    exact ⟨fun hbound => (h.1 hbound).imp_right hdone, hended h.2⟩
  | enqueued => exact hdone h

theorem Stage.Honest.ended {ended : Prop} (h : stage.Honest done ended) (hfenced : stage.isFenced) :
    ended := by
  cases stage with
  | fenced | preserving | preserved | recorded => exact h.2
  | locked | halting | haltingContainer | halted | enqueued => cases hfenced

/-- Whether a lane, or the status of its row, answers for an execution. -/
def View.isOwned (v : View) (row : LocalExecution) : Bool :=
  match v.lane with
  | none => row.status == .running
  | some l => l.phase.isEarly

/-- Whether a recovery answers for an execution. -/
def View.isAttended (v : View) : Bool := v.stage.any (·.2.isFenced)

/-- Someone answers for the stop receipt of an execution. -/
structure View.Accounted (v : View) (row : LocalExecution) (done : Prop) : Prop where
  covered : row.checkpoint.recoveryPending ∨ done ∨ v.isAttended ∨ v.isOwned row
  bound : row.checkpoint.isBound → row.checkpoint.recoveryPending ∨ done
  phase : ∀ l, v.lane = some l → l.phase.Honest done
  stage : ∀ name stage, v.stage = some (name, stage) → stage.Honest done (row.status ≠ .running)

/-! ## Lanes -/

/-- What a move of a lane does for the stop receipt of its execution.  `row` is stored before
the move. -/
structure Move.Accounts (m : Move) (isEarly : Bool) (row : LocalExecution)
    (done : Prop) : Prop where
  phase : ∀ phase', m.phase = some phase' → phase'.Honest (done ∨ m.write.isReceipt)
  bound : ∀ value, m.write.value? = some value →
    value.isBound → value.recoveryPending ∨ done
  /-- A checkpoint keeps the mark, unless the lane still answers for the receipt. -/
  marked : ∀ value, m.write.value? = some value → value.recoveryPending ∨ done ∨
    ∃ phase', m.phase = some phase' ∧ phase'.isEarly
  /-- A lane that answers for the receipt goes on to do so, or the receipt is there. -/
  early : isEarly → row.checkpoint.recoveryPending ∨ done ∨ m.write.isReceipt ∨
    m.write.value?.isSome ∨ (∃ phase', m.phase = some phase' ∧ phase'.isEarly) ∨
    m.phase = none ∧ m.write = .nothing ∧ row.status = .running

namespace Move.Accounts

variable {isEarly : Bool} {next : Phase}

/-- A lane that goes on to answer for the receipt. -/
theorem of_early (hphase : m.phase = some next) (hearly : next.isEarly)
    (hnext : next.Honest done) (hwrite : m.write.value?.all fun c => !c.isBound) :
    m.Accounts isEarly row done where
  phase phase' h := by
    cases hphase.symm.trans h
    exact hnext.mono .inl
  bound value h hbound := by simp [h, hbound] at hwrite
  marked _ _ := .inr (.inr ⟨next, hphase, hearly⟩)
  early _ := .inr (.inr (.inr (.inr (.inl ⟨next, hphase, hearly⟩))))

/-- A lane that stores a checkpoint with the mark. -/
theorem of_marked (hwrite : m.write.value? = some value) (hvalue : value.recoveryPending)
    (hphase : m.phase = some next) (hnext : next.Honest done) : m.Accounts isEarly row done  where
  phase phase' h := by
    cases hphase.symm.trans h
    exact hnext.mono .inl
  bound value' h _ := by
    cases hwrite.symm.trans h
    exact .inl hvalue
  marked value' h := by
    cases hwrite.symm.trans h
    exact .inl hvalue
  early _ := .inr (.inr (.inr (.inl (by rw [hwrite]; rfl))))

/-- A lane that enqueues the receipt. -/
theorem of_receipt {terminal : TerminalOperation} (hwrite : m.write = .receipt terminal)
    (h : (∃ next, m.phase = some next ∧ next.Honest True) ∨ m.phase = none) :
    m.Accounts isEarly row done where
  phase phase' hphase := by
    rcases h with ⟨next, hnext, hhonest⟩ | hnone
    · cases hnext.symm.trans hphase
      exact hhonest.mono fun _ => .inr (by rw [hwrite]; rfl)
    · rw [hnone] at hphase
      cases hphase
  bound value hvalue := by rw [hwrite] at hvalue; cases hvalue
  marked value hvalue := by rw [hwrite] at hvalue; cases hvalue
  early _ := .inr (.inr (.inl (by rw [hwrite]; rfl)))

/-- A lane that has left the answer to the stored mark. -/
theorem of_late (hwrite : m.write.value? = none) (hearly : isEarly = false)
    (hphase : m.phase = some next) (hnext : next.Honest done) : m.Accounts isEarly row done where
  phase phase' h := by
    cases hphase.symm.trans h
    exact hnext.mono .inl
  bound value h := by rw [hwrite] at h; cases h
  marked value h := by rw [hwrite] at h; cases h
  early h := by rw [hearly] at h; cases h

/-- A lane that ends with the receipt. -/
theorem of_done (hdone : done) (hphase : m.phase = none) : m.Accounts isEarly row done where
  phase phase' h := by rw [hphase] at h; cases h
  bound _ _ _ := .inr hdone
  marked _ _ := .inr (.inl hdone)
  early _ := .inr (.inl hdone)

/-- A lane that ends while the receipt is not owed. -/
theorem of_end (hphase : m.phase = none) (hwrite : m.write = .nothing)
    (h : row.checkpoint.recoveryPending ∨ done ∨ row.status = .running) :
    m.Accounts isEarly row done where
  phase phase' h := by rw [hphase] at h; cases h
  bound value h := by rw [hwrite] at h; cases h
  marked value h := by rw [hwrite] at h; cases h
  early _ := h.imp_right fun h => h.imp_right fun h => .inr (.inr (.inr ⟨hphase, hwrite, h⟩))

end Move.Accounts

namespace Daemon

variable {step : LaneStep}

theorem approach_accounts (hplan : s.approach l step phase = some m)
    (hrow : s.stored l.executionId = some row) (hphase : phase.Honest done)
    (hbound : row.checkpoint.isBound → row.checkpoint.recoveryPending ∨ done)
    (hguard : step = .emitFails ∨ step = .abandon →
      (∃ outcome, phase = .refused outcome .execute) ∨ row.checkpoint.recoveryPending ∨
        done ∨ row.status = .running) :
    m.Accounts phase.isEarly row done := by
  simp only [approach] at hplan
  split at hplan
  case h_5 =>
    -- emit, for an expired claim
    cases hplan
    exact .of_receipt rfl (.inr rfl)
  case h_6 terminal outcome by_ =>
    -- emit
    cases hplan
    cases by_ with
    | runOnce | execute => exact .of_receipt rfl (.inr rfl)
    | handler checkpoint =>
      exact .of_receipt rfl (.inl ⟨_, rfl, trivial⟩)
  case h_7 =>
    -- emitFails, for an expired claim
    cases hplan
    refine .of_end rfl rfl ((hguard (.inl rfl)).resolve_left ?_)
    rintro ⟨outcome, h⟩
    cases h
  case h_8 outcome by_ =>
    -- emitFails
    cases hplan
    cases by_ with
    | execute => exact .of_early rfl rfl trivial rfl
    | runOnce | handler =>
      refine .of_end rfl rfl ((hguard (.inl rfl)).resolve_left ?_)
      rintro ⟨outcome, h⟩
      cases h
  case h_9 | h_10 =>
    -- check; lock
    cases hplan
    split
    · exact .of_early rfl rfl trivial rfl
    · exact .of_early rfl rfl trivial rfl
  case h_14 =>
    -- handle: a bound checkpoint keeps its mark
    rw [hrow, map_some] at hplan
    cases hplan
    split
    · rename_i h
      exact .of_end rfl rfl ((hbound h).imp_right .inl)
    · rename_i h
      exact .of_early rfl rfl (by simpa [Phase.Honest] using h) rfl
  case h_15 =>
    -- abandon
    cases hplan
    refine .of_end rfl rfl ((hguard (.inr rfl)).resolve_left ?_)
    rintro ⟨outcome, h⟩
    cases h
  case h_16 =>
    -- clear
    cases hplan
    exact .of_done hphase rfl
  case h_17 =>
    cases hplan
  all_goals
    cases hplan
    exact .of_early rfl rfl trivial rfl

/-- The checkpoint that `_execute` closes with keeps its mark. -/
theorem close_accounts {outcome : ExecutionOutcome} {checkpoint : Checkpoint} {cleanupFailed : Bool}
    {preservation : Preservation} {providers : ProviderChange}
    (hplan : s.close l outcome checkpoint cleanupFailed preservation providers = some m)
    (hmark : checkpoint.recoveryPending) : m.Accounts false row done := by
  rw [close, map_eq_some_iff] at hplan
  obtain ⟨_, -, rfl⟩ := hplan
  exact .of_late rfl rfl rfl hmark

theorem supervise_accounts (hplan : s.supervise l step phase = some m)
    (hphase : phase.Honest done) : m.Accounts phase.isEarly row done := by
  simp only [supervise] at hplan
  split at hplan
  case h_1 =>
    -- flag
    cases hplan
    exact .of_marked rfl rfl rfl rfl
  case h_2 =>
    -- initialise
    cases hplan
    exact .of_marked rfl hphase rfl hphase
  case h_3 =>
    -- nameContainer
    split at hplan
    · cases hplan
      exact .of_marked rfl hphase rfl hphase
    · cases hplan
  case h_4 =>
    -- begin
    split at hplan
    · cases hplan
      exact .of_late rfl rfl rfl ⟨hphase, hphase⟩
    · cases hplan
  case h_5 | h_7 | h_9 =>
    -- save; recordProcess; observe
    cases hplan
    exact .of_marked rfl hphase.2 rfl hphase
  case h_6 =>
    -- spawn
    split at hplan
    · cases hplan
      exact .of_late rfl rfl rfl hphase
    · cases hplan
  case h_8 =>
    -- release
    cases hplan
    exact .of_late rfl rfl rfl hphase
  case h_10 returned _ _ =>
    -- stop
    cases hplan
    cases returned with
    | true => exact .of_late rfl rfl rfl hphase
    | false => exact .of_late rfl rfl rfl hphase.1
  case h_11 | h_12 | h_14 =>
    -- interrupt
    cases hplan
    exact .of_late rfl rfl rfl hphase.1
  case h_13 =>
    -- settle
    cases hplan
    exact .of_marked rfl hphase.2 rfl hphase.1
  case h_16 | h_17 =>
    -- close; abort
    exact close_accounts hplan hphase
  case h_18 | h_19 | h_20 | h_21 =>
    exact close_accounts hplan hphase.1
  case h_22 =>
    -- raise
    split at hplan
    · cases hplan
    · cases hplan
      exact .of_early rfl rfl trivial rfl
  case h_23 =>
    cases hplan
  case h_15 =>
    split at hplan
    · exact close_accounts hplan hphase
    · split at hplan
      · cases hplan
        exact .of_late rfl rfl rfl hphase
      · exact close_accounts hplan hphase

theorem conclude_accounts (hplan : s.conclude treeOf l step phase = some m)
    (hphase : phase.Honest done) : m.Accounts phase.isEarly row done := by
  simp only [conclude] at hplan
  split at hplan
  case h_1 =>
    -- snapshot
    rw [map_eq_some_iff] at hplan
    obtain ⟨_, -, rfl⟩ := hplan
    exact .of_late rfl rfl rfl hphase
  case h_2 | h_3 | h_4 | h_5 =>
    -- discover; snapshotted; snapshotFails
    cases hplan
    exact .of_late rfl rfl rfl hphase
  case h_6 | h_8 | h_9 =>
    -- fenceLost; seal
    cases hplan
    exact .of_late rfl rfl rfl trivial
  case h_7 | h_10 =>
    -- defer; announce
    cases hplan
    exact .of_marked rfl rfl rfl trivial
  case h_11 =>
    -- enqueue
    cases hplan
    exact .of_receipt rfl (.inl ⟨_, rfl, trivial⟩)
  case h_12 | h_13 =>
    -- clear; leave
    cases hplan
    exact .of_done hphase rfl
  case h_20 =>
    -- renew
    cases hplan
    cases hearly : phase.isEarly with
    | true => exact .of_early rfl hearly hphase rfl
    | false => exact .of_late rfl rfl rfl hphase
  case h_21 =>
    -- fence
    split at hplan
    · rename_i hrenewing
      cases hplan
      refine .of_late rfl ?_ rfl hphase
      cases phase with
      | expired | claimed | refused | checked | entered | raised => cases hrenewing
      | _ => rfl
    · cases hplan
  case h_22 =>
    cases hplan
  all_goals
    cases hplan
    exact .of_early rfl rfl trivial rfl

theorem plan_accounts (hplan : s.plan treeOf l step = some m)
    (hrow : s.stored l.executionId = some row) (hphase : l.phase.Honest done)
    (hbound : row.checkpoint.isBound → row.checkpoint.recoveryPending ∨ done)
    (hguard : step = .emitFails ∨ step = .abandon →
      (∃ outcome, l.phase = .refused outcome .execute) ∨ row.checkpoint.recoveryPending ∨
        done ∨ row.status = .running) :
    m.Accounts l.phase.isEarly row done := by
  rcases plan_cases hplan with h | h | h
  · exact approach_accounts h hrow hphase hbound hguard
  · exact supervise_accounts h hphase
  · exact conclude_accounts h hphase

end Daemon

/-- A move of the lane keeps the receipt accounted for. -/
theorem View.Accounted.moved (hv : v.Accounted row done) (hlane : v.lane = some l)
    (hm : m.Accounts l.phase.isEarly row done) :
    (v.moved clock l m).Accounted (row.written clock m.write) (done ∨ m.write.isReceipt) := by
  constructor
  · rw [written_checkpoint]
    cases hvalue : m.write.value? with
    | some value =>
      rcases hm.marked value hvalue with h | h | ⟨phase', hphase, hearly⟩
      · exact .inl h
      · exact .inr (.inl (.inl h))
      · exact .inr (.inr (.inr (by rw [isOwned, moved_lane, hphase]; exact hearly)))
    | none =>
      rcases hv.covered with h | h | h | h
      · exact .inl h
      · exact .inr (.inl (.inl h))
      · exact .inr (.inr (.inl (by rw [isAttended, moved_stage]; exact h)))
      · rw [isOwned, hlane] at h
        rcases hm.early h with h | h | h | h | ⟨phase', hphase, hearly⟩ | ⟨hphase, hwrite, hstatus⟩
        · exact .inl h
        · exact .inr (.inl (.inl h))
        · exact .inr (.inl (.inr h))
        · rw [hvalue] at h
          cases h
        · exact .inr (.inr (.inr (by rw [isOwned, moved_lane, hphase]; exact hearly)))
        · refine .inr (.inr (.inr ?_))
          rw [isOwned, moved_lane, hphase, hwrite]
          simpa [LocalExecution.written] using hstatus
  · rw [written_checkpoint]
    cases hvalue : m.write.value? with
    | some value => exact fun hbound => (hm.bound value hvalue hbound).imp_right .inl
    | none => exact fun hbound => (hv.bound hbound).imp_right .inl
  · intro l' hl'
    rw [moved_lane, map_eq_some_iff] at hl'
    obtain ⟨phase, hphase, rfl⟩ := hl'
    exact hm.phase phase hphase
  · intro name stage hstage
    rw [moved_stage] at hstage
    exact (hv.stage name stage hstage).mono .inl (written_evolves _).ended

/-! ## Recovery -/

/-- What a move of a recovery does for the stop receipt of its execution. -/
structure PassMove.Accounts (m : PassMove) (isFenced : Bool) (ended done : Prop) : Prop where
  stage : ∀ stage', m.stage = some stage' → stage'.Honest (done ∨ m.write.isReceipt) ended
  bound : ∀ value, m.write.value? = some value →
    value.isBound → value.recoveryPending ∨ done
  marked : ∀ value, m.write.value? = some value → value.recoveryPending ∨ done ∨
    m.stage.any (·.isFenced)
  attended : isFenced → m.write.value?.isSome ∨ m.write.isReceipt ∨ m.stage.any (·.isFenced)
  fenced : ∀ outcome, m.write = .fence outcome → m.stage.any (·.isFenced)

namespace PassMove.Accounts

variable {m : PassMove} {isFenced : Bool} {ended : Prop} {next : Stage}

/-- A recovery that has not fenced its execution. -/
theorem of_before (hwrite : m.write = .nothing) (hbefore : isFenced = false)
    (hstage : ∀ stage', m.stage = some stage' → stage'.Honest done ended) :
    m.Accounts isFenced ended done where
  stage stage' h := (hstage stage' h).mono .inl fun h => h
  bound value h := by rw [hwrite] at h; cases h
  marked value h := by rw [hwrite] at h; cases h
  attended h := by rw [hbefore] at h; cases h
  fenced outcome h := by rw [hwrite] at h; cases h

/-- A recovery that goes on with a fenced execution. -/
theorem of_fenced (hwrite : ∀ value, m.write.value? = some value →
      value.isBound → value.recoveryPending ∨ done)
    (hstage : m.stage = some next) (hfenced : next.isFenced) (hnext : next.Honest done ended) :
    m.Accounts isFenced ended done where
  stage stage' h := by
    cases hstage.symm.trans h
    exact hnext.mono .inl fun h => h
  bound := hwrite
  marked _ _ := .inr (.inr (by rw [hstage]; exact hfenced))
  attended _ := .inr (.inr (by rw [hstage]; exact hfenced))
  fenced _ _ := by rw [hstage]; exact hfenced

/-- A recovery that ends with the mark. -/
theorem of_marked (hwrite : m.write = .checkpoint value) (hvalue : value.recoveryPending)
    (hstage : m.stage = none) : m.Accounts isFenced ended done  where
  stage stage' h := by rw [hstage] at h; cases h
  bound value' h _ := by
    rw [hwrite] at h
    cases h
    exact .inl hvalue
  marked value' h := by
    rw [hwrite] at h
    cases h
    exact .inl hvalue
  attended _ := .inl (by rw [hwrite]; rfl)
  fenced outcome h := by rw [hwrite] at h; cases h

end PassMove.Accounts

theorem Daemon.recoverPlan_accounts {step : PassStep} {m : PassMove} (clock : HostClock)
    (hplan : s.recoverPlan treeOf row step stage = some m)
    (hrow : s.stored row.executionId = some current)
    (hstage : stage.Honest done (current.status ≠ .running))
    (hbound : current.checkpoint.isBound → current.checkpoint.recoveryPending ∨ done) :
    m.Accounts stage.isFenced ((current.written clock m.write).status ≠ .running) done := by
  simp only [recoverPlan] at hplan
  split at hplan
  · -- read
    rw [hrow, map_some] at hplan
    cases hplan
    split
    · exact .of_before rfl rfl fun _ h => by cases h
    · refine .of_before rfl rfl fun _ h => ?_
      cases h
      exact hbound
  · -- haltSession
    cases hplan
    refine .of_before rfl rfl fun _ h => ?_
    cases h
    exact hstage
  · -- haltContainer
    cases hplan
    refine .of_before rfl rfl fun _ h => ?_
    cases h
    exact hstage
  · -- fence
    cases hplan
    exact .of_fenced (fun _ h => by cases h) rfl rfl ⟨hstage, fun h => by cases h⟩
  · -- snapshot
    split at hplan
    · rw [map_eq_some_iff] at hplan
      obtain ⟨_, -, rfl⟩ := hplan
      exact .of_fenced (fun _ h => by cases h) rfl rfl hstage
    · cases hplan
  · -- discover
    rw [map_eq_some_iff] at hplan
    obtain ⟨_, -, rfl⟩ := hplan
    exact .of_fenced (fun _ h => by cases h) rfl rfl hstage
  · -- preserved
    cases hplan
    exact .of_fenced (fun _ h => by cases h) rfl rfl hstage
  · split at hplan
    · cases hplan
    · cases hplan
      exact .of_fenced (fun _ h => by cases h) rfl rfl hstage
  · -- defer
    cases hplan
    exact .of_marked rfl rfl rfl
  · cases hplan
    exact .of_marked rfl rfl rfl
  · -- announce
    rename_i checkpoint outcome
    split at hplan
    · cases hplan
      exact .of_fenced (fun _ h => by cases h) rfl rfl hstage
    · cases hplan
      refine .of_fenced (fun value h hbound => ?_) rfl rfl hstage
      cases h
      exact hstage.1 hbound
  · -- enqueue
    cases hplan
    constructor
    · rintro _ ⟨⟩
      exact .inr rfl
    · intro value h
      cases h
    · intro value h
      cases h
    · exact fun _ => .inr (.inl rfl)
    · intro outcome h
      cases h
  · -- clear
    cases hplan
    constructor
    · intro _ h
      cases h
    · exact fun _ _ _ => .inr hstage
    · exact fun _ _ => .inr (.inl hstage)
    · exact fun _ => .inl rfl
    · intro outcome h
      cases h
  · -- fail
    cases hplan
    exact .of_marked rfl rfl rfl
  · cases hplan

/-- A move of the recovery keeps the receipt accounted for. -/
theorem View.Accounted.recovered {name : LockName} {m : PassMove} (hv : v.Accounted current done)
    (hstage : v.stage = some (name, stage))
    (hm : m.Accounts stage.isFenced ((current.written clock m.write).status ≠ .running) done) :
    (v.recovered clock row name m).Accounted (current.written clock m.write)
      (done ∨ m.write.isReceipt) := by
  have attended : m.stage.any (·.isFenced) → (v.recovered clock row name m).isAttended := by
    intro h
    rw [isAttended, recovered_stage, Option.any_map]
    exact h
  constructor
  · rw [written_checkpoint]
    cases hvalue : m.write.value? with
    | some value =>
      rcases hm.marked value hvalue with h | h | h
      · exact .inl h
      · exact .inr (.inl (.inl h))
      · exact .inr (.inr (.inl (attended h)))
    | none =>
      rcases hv.covered with h | h | h | h
      · exact .inl h
      · exact .inr (.inl (.inl h))
      · rw [isAttended, hstage] at h
        rcases hm.attended h with h | h | h
        · rw [hvalue] at h
          cases h
        · exact .inr (.inl (.inr h))
        · exact .inr (.inr (.inl (attended h)))
      · -- The lane still answers for the receipt, unless the recovery fences the execution.
        by_cases hfence : ∃ outcome, m.write = .fence outcome
        · obtain ⟨outcome, hfence⟩ := hfence
          exact .inr (.inr (.inl (attended (hm.fenced outcome hfence))))
        · refine .inr (.inr (.inr ?_))
          have hstatus : (current.written clock m.write).status = current.status := by
            cases hw : m.write with
            | fence outcome => exact absurd ⟨outcome, hw⟩ hfence
            | _ => rfl
          rw [isOwned, recovered_lane, hstatus]
          exact h
  · rw [written_checkpoint]
    cases hvalue : m.write.value? with
    | some value => exact fun hbound => (hm.bound value hvalue hbound).imp_right .inl
    | none => exact fun hbound => (hv.bound hbound).imp_right .inl
  · intro l hlane
    rw [recovered_lane] at hlane
    exact (hv.phase l hlane).mono .inl
  · intro _ stage' h
    rw [recovered_stage, map_eq_some_iff] at h
    obtain ⟨_, hstage'', heq⟩ := h
    cases heq
    exact hm.stage stage' hstage''

/-! ## Runs -/

namespace Daemon

variable {s' : Daemon} {step : DaemonStep} {id : Id}

/-- The stop receipt of every stored execution is accounted for. -/
structure Accounted (s : Daemon) : Prop extends s.Wf where
  accounted : ∀ id row, (s.view id).row = some row →
    (s.view id).Accounted row ((id, row.epoch) ∈ (s.view id).receipts)

/-- A receipt that is not owed. -/
theorem not_owed (hrow : s.stored id = some row) (h : s.isOwed id = false) :
    row.checkpoint.recoveryPending ∨ (id, row.epoch) ∈ (s.view id).receipts ∨
      row.status = .running := by
  simp only [isOwed, hrow, any_some, and_eq_false_iff, bne_eq_false_iff_eq,
    Bool.not_eq_eq_eq_not, Bool.not_false, contains_iff_mem] at h
  rcases h with (h | h) | h
  · exact .inr (.inr h)
  · exact .inl h
  · exact .inr (.inl (mem_filter.mpr ⟨h, by simp⟩))

theorem mem_receipts {w : Write} {epoch : Nat} {receipts : List (Id × Nat)} :
    (id, epoch) ∈ w.receipts id epoch ++ receipts ↔ (id, epoch) ∈ receipts ∨ w.isReceipt := by
  rw [Write.receipts]
  split
  · simp_all
  · simp_all

theorem guard_lane {lstep : LaneStep} (hguard : s.keepsReceipts (.lane id lstep))
    (hlane : s.lane id = some l) (hrow : s.stored id = some row)
    (hstep : lstep = .emitFails ∨ lstep = .abandon) :
    (∃ outcome, l.phase = .refused outcome .execute) ∨ row.checkpoint.recoveryPending ∨
      (id, row.epoch) ∈ (s.view id).receipts ∨ row.status = .running := by
  rcases hstep with rfl | rfl
  · simp only [keepsReceipts, hlane, any_some, or_eq_true, not_eq_true'] at hguard
    rcases hguard with h | h
    · split at h
      · exact .inl ⟨_, ‹_›⟩
      · cases h
    · exact .inr (not_owed hrow h)
  · simp only [keepsReceipts, not_eq_true'] at hguard
    exact .inr (not_owed hrow hguard)

theorem Change.accounted (hs : s.Accounted) (hguard : s.keepsReceipts step)
    (h : Change treeOf s id step v) (hv : v.row = some row) :
    v.Accounted row ((id, row.epoch) ∈ v.receipts) := by
  cases h with
  | same => exact hs.accounted id row hv
  | @resolve _ epoch _ _ _ row l hnew hrow hlane =>
    cases hv
    have hearly : l.phase.isEarly := by
      rw [hlane.2.2]
      split <;> rfl
    constructor
    · exact .inr (.inr (.inr hearly))
    · intro hbound
      rw [hrow.2.1] at hbound
      cases hbound
    · rintro _ ⟨⟩
      rw [hlane.2.2]
      split <;> trivial
    · intro name stage hstage
      cases (hs.stage_none hnew).symm.trans hstage
  | @lane _ l m current hlane hplan hrow _ =>
    obtain rfl : l.executionId = id := Table.key_of_find? hlane
    have hv₀ := hs.accounted _ current hrow
    have hm := plan_accounts hplan hrow (hv₀.phase l hlane) hv₀.bound (guard_lane hguard hlane hrow)
    obtain ⟨_, hrow₀, hepoch⟩ := hs.lane_row hlane
    cases hrow₀.symm.trans hrow
    rw [View.moved_row, view, hrow, map_some] at hv
    cases hv
    rw [View.moved_receipts, (written_evolves _).epoch, hepoch, mem_receipts, ← hepoch]
    exact hv₀.moved hlane hm
  | @take _ rows includeRunning hpass hid _ _ =>
    have hv₀ := hs.accounted id row hv
    have hstage : s.stageOf id = none := by simp [stageOf, hpass]
    constructor
    · refine hv₀.covered.imp_right fun h => h.imp_right fun h => h.imp_left fun h => ?_
      rw [View.isAttended, view, hstage] at h
      cases h
    · exact hv₀.bound
    · exact hv₀.phase
    · rintro _ _ ⟨⟩
      trivial
  | @recover _ prow current rows includeRunning name stage m hpass hid hplan hrow hevolves =>
    subst hid
    have hv₀ := hs.accounted _ current hrow
    have hstage : s.stageOf prow.executionId = some (name, stage) := by simp [stageOf, hpass]
    have hm := recoverPlan_accounts s.clock hplan hrow (hv₀.stage name stage hstage) hv₀.bound
    rw [View.recovered_row, view, hrow, map_some] at hv
    cases hv
    rw [View.recovered_receipts, (written_evolves _).epoch, ← hevolves.epoch,
      mem_receipts]
    exact hv₀.recovered hstage hm
  | @fail prow current rows includeRunning _ hpass hid hrow hevolves =>
    have hv₀ := hs.accounted _ current hrow
    cases hv
    exact ⟨.inl rfl, fun _ => .inl rfl, hv₀.phase, hv₀.stage⟩
  | abort =>
    have hv₀ := hs.accounted id row hv
    constructor
    · rcases hv₀.covered with h | h | h | h
      · exact .inl h
      · exact .inr (.inl h)
      · -- The recovery has fenced the execution, so its receipt would be owed.
        rw [View.isAttended, Option.any_eq_true] at h
        obtain ⟨⟨name, stage⟩, hstage, hfenced⟩ := h
        obtain ⟨prow, rows, includeRunning, hpass, rfl⟩ := stageOf_eq_some.mp hstage
        simp only [keepsReceipts, hpass, all_some, head?_cons, isNone_some,
          Bool.false_or, Bool.not_eq_true'] at hguard
        rcases not_owed hv hguard with h | h | h
        · exact .inl h
        · exact .inr (.inl h)
        · exact absurd h ((hv₀.stage name stage hstage).ended hfenced)
      · exact .inr (.inr (.inr h))
    · exact hv₀.bound
    · exact hv₀.phase
    · intro name stage h
      cases h
  | crash =>
    have hv₀ := hs.accounted id row hv
    constructor
    · obtain ⟨hmem, hid⟩ := Table.find?_eq_some.mp hv
      have howed := all_eq_true.mp hguard row hmem
      rw [hid, not_eq_true'] at howed
      rcases not_owed hv howed with h | h | h
      · exact .inl h
      · exact .inr (.inl h)
      · exact .inr (.inr (.inr (by simp [View.isOwned, h])))
    · exact hv₀.bound
    · intro l h
      cases h
    · intro name stage h
      cases h

theorem Accounted.next (hs : s.Accounted) (hguard : s.keepsReceipts step)
    (h : s.next treeOf step = some s') : s'.Accounted := by
  obtain ⟨hchange, hwf, -⟩ := next_change hs.toWf h
  exact ⟨hwf, fun id row hrow => (hchange id).accounted hs hguard hrow⟩

theorem accounted_initial (checkouts : WorkspacePath → Checkout) : (initial checkouts).Accounted :=
  ⟨wf_initial checkouts, fun id row h => by cases h⟩

/-- A pass ends with no row left, and leaves the lanes alone. -/
theorem finish_cases (h : s.next treeOf (.pass .finish) = some s') :
    s'.lanes = s.lanes ∧ s'.pass = none := by
  rcases hpass : s.pass with _ | ⟨_ | ⟨row, _⟩, _, _ | ⟨_, stage⟩⟩
  all_goals simp only [next, passNext, hpass] at h
  case some.nil.none =>
    cases h
    exact ⟨rfl, rfl⟩
  case some.cons.some =>
    -- inside a row only the stage's own steps are possible
    cases stage <;> cases h
  all_goals cases h

theorem ReachableBy.accounted {checkouts : WorkspacePath → Checkout}
    (h : (workerDaemon treeOf checkouts).ReachableBy (keepsReceipts · ·) s) : s.Accounted := by
  refine h.invariant ?_ fun s _ s' hs hguard hstep => hs.next hguard hstep
  rintro _ rfl
  exact accounted_initial checkouts

end Daemon

/-- No stop receipt is lost.  In every run that does not break off while a receipt is owed,
once a restarted daemon has finished its recovery pass and nothing is left to recover, every
execution that it has taken on and that does not run has had its stop receipt enqueued. -/
theorem stop_receipts_kept {treeOf : Id → Tree} {checkouts : WorkspacePath → Checkout}
    {s s' : Daemon} (hs : (workerDaemon treeOf checkouts).ReachableBy (Daemon.keepsReceipts · ·) s)
    (hstarting : s.starting = true) (hfinish : s.next treeOf (.pass .finish) = some s')
    (hsettled : ∀ row ∈ s'.journal.executions, row.checkpoint.recoveryPending = false) :
    ∀ row ∈ s'.journal.executions, row.status ≠ .running →
      (row.executionId, row.epoch) ∈ s'.receipts := by
  intro row hrow hended
  have hstored : s'.stored row.executionId = some row := Table.find?_key hrow
  have hs' : s'.Accounted := (Daemon.ReachableBy.accounted hs).next rfl hfinish
  obtain ⟨hlanes, hpass⟩ := Daemon.finish_cases hfinish
  have hlane : (s'.view row.executionId).lane = none := by
    change s'.lanes.find? _ = none
    rw [hlanes]
    exact (Daemon.ReachableBy.accounted hs).idle hstarting _
  have hstage : (s'.view row.executionId).stage = none := by
    change s'.stageOf _ = none
    rw [Daemon.stageOf, hpass]
    rfl
  rcases (hs'.accounted _ row hstored).covered with h | h | h | h
  · rw [hsettled row hrow] at h
    cases h
  · exact (mem_filter.mp h).1
  · rw [View.isAttended, hstage] at h
    cases h
  · rw [View.isOwned, hlane] at h
    exact absurd (by simpa using h) hended

namespace Installation

/-- An empty checkout. -/
def bare : WorkspacePath → Checkout := fun _ => ⟨1, ∅, false, ∅, ∅⟩

/-- A daemon that has started and claims work. -/
def claiming : List DaemonStep :=
  [ .pass .start, .pass .finish, .journal (.claimAttempt 1000 1 1 []) ]

/-- It crashes and starts again; the first pass finds nothing to recover. -/
def restarting : List DaemonStep := [ .crash, .pass .start, .pass .skip ]

/-- A grant that is refused ends with its stop receipt before the daemon crashes. -/
def refusing : Daemon :=
  System.replay (Daemon.next fun _ => ∅) Daemon.keepsReceipts
    (claiming ++ [ .resolve 1 1 1 10 (.other 1) 1, .lane 1 (.refuse .failed)
                 , .lane 1 (.emit ⟨1, 5, { status := .failed }⟩) ] ++ restarting)
    (.initial bare)

/-- A grant whose lease has run out is stored as lost, and the daemon crashes before it has
enqueued the stop receipt. -/
def expiring : Daemon :=
  System.replay (Daemon.next fun _ => ∅) (fun _ _ => true)
    (claiming ++ [ .resolve 1 1 1 0 (.other 1) 1 ] ++ restarting) (.initial bare)

end Installation

/-- The receipt of a refused grant is there after the restart. -/
theorem stop_receipts_kept_refused :
    (1, 1)
      ∈ ({ Installation.refusing with pass := none, starting := false } : Daemon).receipts := by
  have hrow : ∃ row ∈ Installation.refusing.journal.executions,
      row.executionId = 1 ∧ row.epoch = 1 ∧ row.status ≠ .running := by
    refine ⟨_, mem_cons_self, rfl, rfl, ?_⟩
    decide
  obtain ⟨row, hmem, hid, hepoch, hended⟩ := hrow
  have hsettled : (Installation.refusing.journal.executions.rows.all
      fun row => !row.checkpoint.recoveryPending) = true := by decide +kernel
  have hstarting : Installation.refusing.starting = true := by decide +kernel
  have := stop_receipts_kept (System.replay_reachable _ _ _) hstarting rfl
    (fun row hmem => by simpa using all_eq_true.mp hsettled row hmem) row hmem hended
  rwa [hid, hepoch] at this

/-- The receipt of an expired claim is lost in a crash.  The restarted daemon has finished its
recovery pass, nothing is left to recover, and the execution has ended without a receipt. -/
theorem expired_claim_loses_receipt :
    ∃ s s', (workerDaemon (fun _ => ∅) Installation.bare).Reachable s ∧ s.starting = true ∧
      s.next (fun _ => ∅) (.pass .finish) = some s' ∧
      (∀ row ∈ s'.journal.executions, row.checkpoint.recoveryPending = false) ∧
      ∃ row ∈ s'.journal.executions, row.status = .ended .lost ∧ s'.receipts = [] := by
  refine ⟨Installation.expiring, _,
    (System.replay_reachable _ _ _).reachable, by decide +kernel, rfl, ?_, ?_⟩
  · have h : (Installation.expiring.journal.executions.rows.all
        fun row => !row.checkpoint.recoveryPending) = true := by decide +kernel
    intro row hmem
    simpa using all_eq_true.mp h row hmem
  · exact ⟨_, mem_cons_self, rfl, rfl⟩

end Horizon
