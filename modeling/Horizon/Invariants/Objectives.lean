import Horizon.Effects.Operations

/-!
# The phases and the planner of an objective run

An objective run goes through its requested phases in order: a phase is accepted, the next
one is pending until the work of the run has settled, and only then it is entered.  Its
planner rule can be paused by a decision, which only another decision should end.
-/

namespace Horizon

open Table List Installation

variable {r : Run} {runId : Id} {s s' : DB} {ev : Event}

/-! ## Phases -/

/-- The accepted phases are the first requested ones.  The next one is current or pending;
once every one is accepted, the run is no longer open. -/
structure Run.InOrder (r : Run) : Prop where
  accepted : r.phaseHistory.map (·.1.kind) = r.requestedPhases.take r.phaseHistory.length
  current : r.pendingPhase = none → r.requestedPhases[r.phaseHistory.length]? = some r.phase.kind
    ∨ (r.phaseHistory.length = r.requestedPhases.length ∧ r.status.isOpen = false)
  pending : ∀ p, r.pendingPhase = some p →
    p.next.map RunPhase.kind = r.requestedPhases[r.phaseHistory.length]?

namespace Run.InOrder

variable {r' : Run}

theorem length_le (h : r.InOrder) : r.phaseHistory.length ≤ r.requestedPhases.length := by
  have hlen := congrArg length h.accepted
  rw [length_map, length_take] at hlen
  omega

/-- When no requested phase is left, all of them are accepted. -/
theorem all_accepted (h : r.InOrder) (hnone : r.requestedPhases[r.phaseHistory.length]? = none) :
    r.phaseHistory.map (·.1.kind) = r.requestedPhases := by
  rw [h.accepted]
  exact take_of_length_le (getElem?_eq_none_iff.mp hnone)

theorem created (hhist : r.phaseHistory = []) (hpending : r.pendingPhase = none)
    (hfirst : r.requestedPhases.head? = some r.phase.kind) : r.InOrder where
  accepted := by rw [hhist]; rfl
  current _ := .inl (by rw [hhist, length_nil, ← head?_eq_getElem?, hfirst])
  pending p hp := by rw [hpending] at hp; cases hp

theorem samePhase (h : r.InOrder) (hsame : r.SamePhase r') : r'.InOrder where
  accepted := by rw [hsame.phaseHistory, hsame.requestedPhases, h.accepted]
  current hnone := by
    rw [hsame.phaseHistory, hsame.requestedPhases, hsame.phase]
    refine (h.current (hsame.pendingPhase ▸ hnone)).imp_right fun ⟨hlen, hclosed⟩ => ⟨hlen, ?_⟩
    by_contra hopen
    rw [hsame.isOpen (by simpa using hopen)] at hclosed
    cases hclosed
  pending p hp := by
    rw [hsame.phaseHistory, hsame.requestedPhases]
    exact h.pending p (hsame.pendingPhase ▸ hp)

/-- The current phase of an active run is the next requested one, so accepting it extends
the accepted ones. -/
theorem phaseAccepted (h : r.InOrder) (hacc : r.PhaseAccepted r') : r'.InOrder := by
  obtain ⟨_, hhist⟩ := hacc.phaseHistory
  obtain ⟨p, hp, hnext⟩ := hacc.pendingPhase
  have hlen : r'.phaseHistory.length = r.phaseHistory.length + 1 := by
    rw [hhist, length_append, length_singleton]
  have hcurrent : r.requestedPhases[r.phaseHistory.length]? = some r.phase.kind := by
    refine (h.current hacc.idle).resolve_right fun ⟨_, hclosed⟩ => ?_
    rw [hacc.active] at hclosed
    cases hclosed
  constructor
  · rw [hlen, hacc.requestedPhases, take_add_one, hcurrent, hhist, map_append, h.accepted]
    rfl
  · intro hnone
    rw [hp] at hnone
    cases hnone
  · intro p' hp'
    cases hp.symm.trans hp'
    rw [hlen, hacc.requestedPhases, hnext]

/-- The pending phase is the next requested one, so entering it leaves the order. -/
theorem phaseAdvanced (h : r.InOrder) (hadv : r.PhaseAdvanced r') : r'.InOrder where
  accepted := by rw [hadv.phaseHistory, hadv.requestedPhases, h.accepted]
  current _ := by
    rw [hadv.phaseHistory, hadv.requestedPhases]
    rcases hadv.phase with ⟨owner, hp⟩ | ⟨⟨owner, hp⟩, _, hclosed⟩
    · exact .inl (h.pending _ hp).symm
    · have hall := getElem?_eq_none_iff.mp (h.pending _ hp).symm
      exact .inr ⟨le_antisymm h.length_le hall, hclosed⟩
  pending p hp := by
    rw [hadv.settled] at hp
    cases hp

end Run.InOrder

/-- The objective run `runId`, if it is stored, is in order. -/
def DB.InOrder (s : DB) (runId : Id) : Prop :=
  ∀ r ∈ s .run, r.id = runId → r.orchestration = .objective → r.InOrder

theorem DB.InOrder.effect (ho : s.InOrder runId) (h : Effect ev s s')
    (hev : ev ≠ .runReopened runId) : s'.InOrder runId := by
  intro r' hr' hid hobj
  obtain hold | ⟨ht, hw⟩ := h.origin hr'
  · exact ho r' hold hid hobj
  cases ev with
  | runCreated orchestration =>
    obtain ⟨⟨horch, hhist, hpending, hfirst⟩, _⟩ | ⟨_, _, _, ⟨⟩⟩ := hw
    exact .created hhist hpending (hfirst (horch.symm.trans hobj))
  | runChanged =>
    obtain ⟨⟨⟩, _⟩ | ⟨r, hr, hk, hset, hsame⟩ := hw
    exact (ho r hr (hk.symm.trans hid) (hset.orchestration ▸ hobj)).samePhase hsame
  | runReopened id =>
    obtain ⟨⟨⟩, _⟩ | ⟨r, hr, hk, _, hreopened⟩ := hw
    exact absurd (congrArg Event.runReopened (hreopened.symm.trans (hk.symm.trans hid))) hev
  | phaseAccepted =>
    obtain ⟨⟨⟩, _⟩ | ⟨r, hr, hk, hset, _, hacc⟩ := hw
    exact (ho r hr (hk.symm.trans hid) (hset.orchestration ▸ hobj)).phaseAccepted hacc
  | phaseAdvanced =>
    obtain ⟨⟨⟩, _⟩ | ⟨r, hr, hk, hset, _, hadv, _⟩ := hw
    exact (ho r hr (hk.symm.trans hid) (hset.orchestration ▸ hobj)).phaseAdvanced hadv
  | other t hu => cases ht; cases hu
  | _ => cases ht

/-- The steps that do not reopen a run. -/
def Label.keepsClosed (runId : Id) (l : Label) : Bool :=
  match l.operation with
  | .command _ (.run .reopen id _) => id != runId
  | _ => true

theorem ne_runReopened {l : Label} (hl : l.keepsClosed runId) (h : l.Emits s ev) :
    ev ≠ .runReopened runId := by
  rintro rfl
  obtain ⟨_, _, hop⟩ := h.comesFrom
  simp [Label.keepsClosed, hop] at hl

/-- A run keeps its phase, unless its work has settled. -/
theorem Effect.phase (h : Effect ev s s') (hr : (s .run).find? runId = some r)
    (hev : ev ≠ .runReopened runId) : ∃ r', (s' .run).find? runId = some r' ∧ (r'.phase = r.phase
      ∨ ∃ env, ev = .phaseAdvanced env runId ∧ s.phaseSettled env runId) := by
  have hid : r.id = runId := key_of_find? hr
  obtain ⟨r', hr', rfl | ⟨ht, hch⟩⟩ := h.find? (by decide) hr
  · exact ⟨r', hr', .inl rfl⟩
  cases ev with
  | runCreated => cases hch
  | runChanged => exact ⟨r', hr', .inl hch.2.phase⟩
  | runReopened => exact absurd (congrArg Event.runReopened (hch.2.symm.trans hid)) hev
  | phaseAccepted => exact ⟨r', hr', .inl hch.2.2.phase⟩
  | phaseAdvanced env id =>
    obtain ⟨_, hadvanced, _, hsettled⟩ := hch
    obtain rfl := hadvanced.symm.trans hid
    exact ⟨r', hr', hsettled.imp_right fun hsettled => ⟨env, rfl, hsettled⟩⟩
  | other t hu => cases ht; cases hu
  | _ => cases ht

/-- The write by which a run enters another phase, among the writes of a step. -/
theorem Effects.phase {P : Event → Prop} (h : Effects P s s')
    (hP : ∀ ev, P ev → ev ≠ .runReopened runId) {r' : Run} (hr : (s .run).find? runId = some r)
    (hr' : (s' .run).find? runId = some r') (hne : r'.phase ≠ r.phase) :
    ∃ s₁ s₂ env r₁, P (.phaseAdvanced env runId) ∧ Effects P s s₁
      ∧ Effect (.phaseAdvanced env runId) s₁ s₂ ∧ Effects P s₂ s'
      ∧ (s₁ .run).find? runId = some r₁ ∧ r₁.phase ≠ r'.phase ∧ s₁.phaseSettled env runId := by
  induction h generalizing r' with
  | refl =>
    cases hr.symm.trans hr'
    exact absurd rfl hne
  | @tail s₁ s₂ h₁ hmove ih =>
    obtain ⟨ev, hev, he⟩ := hmove
    obtain ⟨r₁, hr₁, _⟩ := Effects.run h₁ hr
    obtain ⟨r₂, hr₂, hphase⟩ := he.phase hr₁ (hP ev hev)
    obtain rfl := Option.some.inj (hr₂.symm.trans hr')
    by_cases hkept : r₂.phase = r₁.phase
    · obtain ⟨s₃, s₄, env, r₃, hPe, h₃, h₄, h₅, hr₃, hne₃, hsettled⟩ := ih hr₁ (hkept ▸ hne)
      exact ⟨s₃, s₄, env, r₃, hPe, h₃, h₄, h₅.trans (Moves.single hev he), hr₃,
        hkept ▸ hne₃, hsettled⟩
    · obtain ⟨env, rfl, hsettled⟩ := hphase.resolve_left hkept
      exact ⟨s₁, s₂, env, r₁, hev, h₁, he, Moves.refl _, hr₁, Ne.symm hkept, hsettled⟩

/-- In every state reached without reopening an objective run: the kinds in its history are the
first requested ones; the kind of its current phase, or of its pending one, is the next requested
one, unless all are accepted and the run is neither active nor paused any more; and its completion
is pending only once all are accepted.  A step enters another phase only by a write made while the
run has no live assignment, no busy execution and no pending delivery. -/
theorem phase_sequence {runId : Id}
    (h : controlPlane.ReachableBy (fun _ l => l.keepsClosed runId = true) s) {run : Run}
    (hrun : (s .run).find? runId = some run) (hobj : run.orchestration = .objective) :
    run.phaseHistory.map (·.1.kind) = run.requestedPhases.take run.phaseHistory.length
    ∧ (run.pendingPhase = none → run.requestedPhases[run.phaseHistory.length]? = some run.phase.kind
      ∨ (run.phaseHistory.length = run.requestedPhases.length ∧ run.status ≠ .active
        ∧ run.status ≠ .paused))
    ∧ (∀ next owner, run.pendingPhase = some ⟨some next, owner⟩ →
      run.requestedPhases[run.phaseHistory.length]? = some next.kind)
    ∧ (∀ owner, run.pendingPhase = some ⟨none, owner⟩ →
      run.phaseHistory.map (·.1.kind) = run.requestedPhases)
    ∧ ∀ l s' run', l.keepsClosed runId = true → controlPlane.step s l s' →
      (s' .run).find? runId = some run' → run'.phase ≠ run.phase →
      ∃ s₁ s₂ run₁, Effects (l.Emits s) s s₁ ∧ Effect (.phaseAdvanced l.env runId) s₁ s₂
        ∧ Effects (l.Emits s) s₂ s' ∧ (s₁ .run).find? runId = some run₁ ∧ run₁.phase ≠ run'.phase
        ∧ s₁.phaseSettled l.env runId = true := by
  have hall : s.InOrder runId := by
    refine invariant_of_events (I := (DB.InOrder · runId)) (fun r hr => absurd hr notMem_empty) ?_ h
    intro _ _ hl ev hev s₁ s₂ _ he ho
    exact ho.effect he (ne_runReopened hl hev)
  obtain ⟨hmem, hid⟩ := find?_eq_some.mp hrun
  have ho : run.InOrder := hall run hmem hid hobj
  refine ⟨ho.accepted, fun hnone => ?_, fun next owner hp => ?_, fun owner hp => ?_, ?_⟩
  · refine (ho.current hnone).imp_right fun ⟨hlen, hclosed⟩ => ⟨hlen, ?_, ?_⟩
    all_goals
      intro hstatus
      rw [hstatus] at hclosed
      cases hclosed
  · exact (ho.pending _ hp).symm
  · exact ho.all_accepted (ho.pending _ hp).symm
  · intro l s' run' hl hstep hrun' hne
    obtain ⟨s₁, s₂, env, run₁, hev, h₁, h₂, h₃, hrun₁, hne₁, hsettled⟩ :=
      (step_effects (sound_of_reachable h) hstep).phase (fun _ => ne_runReopened hl) hrun hrun' hne
    obtain rfl := hev.comesFrom
    exact ⟨s₁, s₂, run₁, h₁, h₂, h₃, hrun₁, hne₁, hsettled⟩

namespace Installation

/-- A run for one phase, which is accepted and settles. -/
def onePhase : List Label := setup ++
  [ byAdmin 2 (.startRun { runOn (some 1) with phase := some (.preprocessing 1) } none)
  , byAdmin 3 (.command 1 (.acceptPhase 1 "Accepted" [.document 1] none))
  , byAdmin 4 .tick ]

/-- A run for two phases, the first of which is accepted. -/
def awaitedPhase : List Label := setup ++
  [ byAdmin 2 (.startRun (runOn (some 1)) none)
  , byAdmin 3 (.command 1 (.acceptPhase 1 "Accepted" [.document 1] none)) ]

end Installation

/-- A run that settled after its last phase has none pending, and its phase is not the next
requested one: there is none. -/
theorem phase_sequence_settled :
    controlPlane.ReachableBy (fun _ l => l.keepsClosed 1 = true)
      (outcomeBy (fun _ => Label.keepsClosed 1) onePhase)
    ∧ ∃ run, (outcomeBy (fun _ => Label.keepsClosed 1) onePhase .run).find? 1 = some run
      ∧ run.orchestration = .objective ∧ run.pendingPhase = none
      ∧ run.requestedPhases[run.phaseHistory.length]? ≠ some run.phase.kind := by
  refine ⟨outcomeBy_reachable _ _, ?_⟩
  have h : ((outcomeBy (fun _ => Label.keepsClosed 1) onePhase .run).find? 1).any (fun run =>
      run.orchestration == .objective && run.pendingPhase == none
        && run.requestedPhases[run.phaseHistory.length]? != some run.phase.kind) = true := by
    decide +kernel
  simpa [Option.any_eq_true, and_assoc] using h

/-- Between its two phases: the first one is accepted, the second one pending. -/
theorem phase_sequence_pending :
    ∃ run, (outcomeBy (fun _ => Label.keepsClosed 1) awaitedPhase .run).find? 1 = some run
      ∧ run.pendingPhase = some ⟨some (.formalization none), none⟩
      ∧ run.phaseHistory.map (·.1.kind) = run.requestedPhases.take run.phaseHistory.length
      ∧ run.requestedPhases[run.phaseHistory.length]? = some .formalization := by
  have hfound : ((outcomeBy (fun _ => Label.keepsClosed 1) awaitedPhase .run).find? 1).any
      (fun run => run.orchestration == .objective
        && run.pendingPhase == some ⟨some (.formalization none), none⟩) = true := by
    decide +kernel
  obtain ⟨run, hrun, hfields⟩ := (Option.any_eq_true _ _).mp hfound
  rw [Bool.and_eq_true, beq_iff_eq, beq_iff_eq] at hfields
  obtain ⟨hobj, hpending⟩ := hfields
  obtain ⟨haccepted, _, hnext, _⟩ := phase_sequence (outcomeBy_reachable _ _) hrun hobj
  exact ⟨run, hrun, hpending, haccepted, hnext _ _ hpending⟩

/-! ## Pauses -/

/-- The planner rule of an objective run is paused by a decision, and its executions are among
those of `s₀`. -/
structure DB.Paused (s₀ : DB) (ruleId runId : Id) (s : DB) : Prop where
  objective : s.isObjectiveRun runId
  paused : ∃ rule, (s .automation).find? ruleId = some rule ∧ rule.runId = runId ∧ rule.isPaused
  admitted : ∀ e ∈ s .execution, ∀ a, (s .assignment).find? e.assignmentId = some a →
    a.automationId = some ruleId → s₀.has .execution e.id

section

variable {s₀ : DB} {ruleId : Id}

/-- Only enabling a rule, and entering a phase of its run, ends its pause. -/
theorem Effect.isPaused (h : Effect ev s s') (hobj : s.isObjectiveRun runId) {rule : Automation}
    (hrule : (s .automation).find? ruleId = some rule) (hrun : rule.runId = runId)
    (hpaused : rule.isPaused) (henable : ev ≠ .ruleEnabled ruleId)
    (hrestart : ∀ id, ev ≠ .ruleRestarted id runId) :
    ∃ rule', (s' .automation).find? ruleId = some rule' ∧ rule'.runId = runId
      ∧ rule'.isPaused := by
  have hid : rule.id = ruleId := key_of_find? hrule
  obtain ⟨rule', hrule', rfl | ⟨ht, hch⟩⟩ := h.find? (by decide) hrule
  · exact ⟨rule', hrule', hrun, hpaused⟩
  cases ev with
  | ruleCreated => cases hch
  | ruleChanged => exact ⟨rule', hrule', hch.1.runId.trans hrun, hch.2.2 (hrun ▸ hobj) hpaused⟩
  | rulesDisabled =>
    obtain ⟨hsame, henabled, hreason⟩ := hch
    refine ⟨rule', hrule', hsame.runId.trans hrun, ?_⟩
    rw [Automation.isPaused, Bool.and_eq_true] at hpaused ⊢
    exact ⟨by rw [henabled]; rfl, hreason ▸ hpaused.2⟩
  | ruleEnabled => exact absurd (congrArg Event.ruleEnabled (hch.2.symm.trans hid)) henable
  | ruleRestarted id =>
    exact absurd (congrArg (Event.ruleRestarted id) (hch.2.2.symm.trans hrun)) (hrestart id)
  | other t hu => cases ht; cases hu
  | _ => cases ht

/-- A paused rule has no occurrence admitted. -/
theorem DB.Paused.effect (hp : DB.Paused s₀ ruleId runId s) (hs : Sound s) (h : Effect ev s s')
    (henable : ev ≠ .ruleEnabled ruleId) (hrestart : ∀ id, ev ≠ .ruleRestarted id runId) :
    DB.Paused s₀ ruleId runId s' := by
  obtain ⟨rule, hrule, hrun, hpaused⟩ := hp.paused
  refine ⟨h.isObjectiveRun_of hp.objective,
    h.isPaused hp.objective hrule hrun hpaused henable hrestart, ?_⟩
  -- The assignment of a stored execution is stored, and keeps its rule.
  have hold : ∀ e ∈ s .execution, ∀ a, (s' .assignment).find? e.assignmentId = some a →
      a.automationId = some ruleId → s₀.has .execution e.id := by
    intro e he a ha hauto
    obtain ⟨a₀, ha₀⟩ := hs.assignmentOf he
    obtain ⟨a', ha', hw, _⟩ := h.assignment ha₀
    cases ha.symm.trans ha'
    exact hp.admitted e he a₀ ha₀ (hw.automationId ▸ hauto)
  intro e' he' a ha hauto
  by_cases ht : ev.table = .execution
  · cases ev with
    | executionAdmitted =>
      rcases h.mem he' with he | ⟨hadm, _⟩ | ⟨_, _, _, hch⟩
      · exact hold e' he a ha hauto
      · rw [h.frame (by decide)] at ha
        have henabled := hadm.enabled a rule ha (by rw [hauto, Option.bind_some, hrule])
        rw [Automation.isPaused, henabled] at hpaused
        cases hpaused
      · exact hch.elim
    | executionChanged | executionEnded | stopConfirmed =>
      rcases h.mem he' with he | ⟨hins, _⟩ | ⟨e, he, hk, hch⟩
      · exact hold e' he a ha hauto
      · exact hins.elim
      · have hid : e'.id = e.id := hk
        rw [hid]
        exact hold e he a (hch.1.assignmentId ▸ ha) hauto
    | other t hu => cases ht; cases hu
    | _ => cases ht
  · rw [h.frame (Ne.symm ht)] at he'
    exact hold e' he' a ha hauto

end

/-- The steps that do not enable a rule, and are not ticks that may enter the next phase of its
run. -/
def Label.keepsPause (ruleId : Id) (s : DB) (l : Label) : Bool :=
  match l.operation with
  | .command _ (.deferAutomation id data) => id != ruleId || data.enabled != some true
  | .tick => ((s .automation).find? ruleId).all fun rule => !s.awaitsPhase rule.runId
  | _ => true

/-- A planner that was paused by a decision stays paused, and has none of its occurrences admitted,
in every run of steps that do not enable it and are not ticks with a phase of its run pending. -/
theorem pause_sticky (h : controlPlane.Reachable s) {rule : Automation}
    (hrule : (s .automation).find? rule.id = some rule) (hobj : s.isObjectiveRun rule.runId = true)
    (hdisabled : rule.enabled = false) {reason : String} (hreason : rule.pauseReason = some reason)
    (hidle : reason ≠ "idle")
    (hruns : controlPlane.RunsBy (Label.keepsPause rule.id · · = true) s s') :
    (∃ rule', (s' .automation).find? rule.id = some rule' ∧ rule'.enabled = false)
      ∧ ∀ e ∈ s' .execution, ∀ a, (s' .assignment).find? e.assignmentId = some a →
        a.automationId = some rule.id → s.has .execution e.id = true := by
  have hpaused : DB.Paused s rule.id rule.runId s := by
    refine ⟨hobj, ⟨rule, hrule, rfl, ?_⟩, fun e he _ _ _ => ?_⟩
    · simpa [Automation.isPaused, hdisabled, hreason] using hidle
    · rw [DB.has, find?_key he]
      rfl
  have hkept := hruns.preserves (I := fun s₁ => Sound s₁ ∧ DB.Paused s rule.id rule.runId s₁) ?_
    ⟨sound_of_reachable h, hpaused⟩
  · obtain ⟨rule', hrule', _, hp⟩ := hkept.2.paused
    rw [Automation.isPaused, Bool.and_eq_true, Bool.not_eq_true'] at hp
    exact ⟨⟨rule', hrule', hp.1⟩, hkept.2.admitted⟩
  · intro s₁ l _ hs₁ hl hstep
    refine step_preserves (fun ev hev _ _ hs₃ he hp => hp.effect hs₃ he ?_ ?_) hs₁ hstep
    · rintro rfl
      obtain ⟨_, _, hop, henabled⟩ := hev.comesFrom
      simp [Label.keepsPause, hop, henabled] at hl
    · rintro id rfl
      obtain ⟨hop, hawaits⟩ := hev.comesFrom
      obtain ⟨_, hrule₁, hrun₁, _⟩ := hs₁.2.paused
      simp [Label.keepsPause, hop, hrule₁, hrun₁, hawaits] at hl

namespace Installation

/-- The operator pauses a planner that runs. -/
def pausedPlanner : List Label := admitted ++
  [byAdmin 21 (.command 1 (.deferAutomation 1 { enabled := some false }))]

/-- The planner ends, and its host asks for more work. -/
def endedPlanner : DB := continuedBy (Label.keepsPause 1)
  [ byHost 22 (.handle ⟨1, 1, 22, .executionFinished { status := .succeeded }⟩)
  , byAdmin 23 .tick, byHost 24 (.claim 1 [1]) ] (outcome pausedPlanner)

/-- A phase is accepted while the planner of the run is paused by the operator. -/
def pausedAtAcceptance : List Label := setup ++
  [ byAdmin 2 (.startRun (runOn (some 1)) none)
  , byAdmin 3 (.command 1 (.deferAutomation 1 { enabled := some false }))
  , byAdmin 4 (.command 1 (.acceptPhase 1 "Accepted" [.document 1] none)) ]

end Installation

open Installation (byAdmin byHost pausedPlanner endedPlanner pausedAtAcceptance)

/-- The steps nobody decides on. -/
def Label.isAutomatic (l : Label) : Bool :=
  match l.operation with
  | .tick | .claim _ _ | .handle _ | .heartbeat _ _ => true
  | _ => false

/-- A tick enables the planner that the operator paused, and the next poll admits it. -/
theorem pause_sticky_fails : controlPlane.Reachable (outcome pausedAtAcceptance)
    ∧ (∃ rule, (outcome pausedAtAcceptance .automation).find? 1 = some rule
      ∧ (outcome pausedAtAcceptance).isObjectiveRun rule.runId = true
      ∧ rule.enabled = false ∧ rule.pauseReason = some "operator")
    ∧ ∃ s', controlPlane.RunsBy (fun _ l => l.isAutomatic = true)
        (outcome pausedAtAcceptance) s'
      ∧ (∃ rule, (s' .automation).find? 1 = some rule ∧ rule.enabled = true)
      ∧ ∃ e ∈ s' .execution, (outcome pausedAtAcceptance).has .execution e.id = false
        ∧ ∃ a, (s' .assignment).find? e.assignmentId = some a ∧ a.automationId = some 1 := by
  let s' := continuedBy (fun _ => Label.isAutomatic) [byAdmin 5 .tick, byHost 6 (.claim 1 [1])]
    (outcome pausedAtAcceptance)
  refine ⟨outcome_reachable _, ?_, s', continuedBy_runs _ _ _, ?_, ?_⟩
  · have h : ((outcome pausedAtAcceptance .automation).find? 1).any (fun rule =>
        (outcome pausedAtAcceptance).isObjectiveRun rule.runId && !rule.enabled
          && rule.pauseReason == some "operator") = true := by
      decide +kernel
    simpa [Option.any_eq_true, and_assoc] using h
  · have h : ((s' .automation).find? 1).any (·.enabled) = true := by decide +kernel
    simpa [Option.any_eq_true] using h
  · have h : (s' .execution).rows.any (fun e => !(outcome pausedAtAcceptance).has .execution e.id
        && ((s' .assignment).find? e.assignmentId).any (·.automationId == some 1)) = true := by
      decide +kernel
    simpa [mem_def, Option.any_eq_true, and_assoc] using h

/-- With no phase pending, the pause of a running planner outlasts its end, a tick and a poll. -/
theorem pause_sticky_pausedPlanner :
    ((endedPlanner .execution).rows.map fun e => (e.id, e.status)) = [(1, .succeeded)]
      ∧ (∃ rule, (endedPlanner .automation).find? 1 = some rule ∧ rule.enabled = false)
      ∧ ∀ e ∈ endedPlanner .execution, ∀ a,
      (endedPlanner .assignment).find? e.assignmentId = some a →
        a.automationId = some 1 → (outcome pausedPlanner).has .execution e.id = true := by
  have hfound : ((outcome pausedPlanner .automation).find? 1).any (fun rule =>
      (outcome pausedPlanner).isObjectiveRun rule.runId && !rule.enabled
        && rule.pauseReason == some "operator") = true := by
    decide +kernel
  obtain ⟨rule, hrule, hfields⟩ := (Option.any_eq_true _ _).mp hfound
  simp only [Bool.and_eq_true, Bool.not_eq_true', beq_iff_eq] at hfields
  obtain ⟨⟨hobj, hdisabled⟩, hreason⟩ := hfields
  have hid : rule.id = 1 := key_of_find? hrule
  refine ⟨by decide +kernel, ?_⟩
  have hruns : controlPlane.RunsBy (Label.keepsPause rule.id · · = true) (outcome pausedPlanner)
      endedPlanner := by
    rw [hid]
    exact continuedBy_runs _ _ _
  have hkept := pause_sticky (outcome_reachable _) (by rw [hid, hrule]) hobj hdisabled hreason
    (by decide) hruns
  rwa [hid] at hkept

end Horizon
