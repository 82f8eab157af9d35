import Horizon.Effects.Operations

/-!
# Reserved capacity over whole runs

A primary claim is held exactly as long as the stop of its execution is unconfirmed.  In
an installation that only starts objective runs, the executions whose stop is unconfirmed
fit into their slots and categories, and no two of them share a workspace.
-/

namespace Horizon

open Transaction Table List Installation DB

variable {e execution e' : Execution} {exempt : Option Id} {id harnessId hostId : Id}
  {receipt : ExecutionFinished} {limit : ResourceLimit} {s s' : DB} {ev : Event} {c : ResourceClaim}
  {l : Label}

/-! ## Reservations -/

namespace DB

/-- A released primary claim belongs to an execution confirmed to have stopped. -/
def ReleasedConfirmed (s : DB) : Prop := ∀ c ∈ s .resourceClaim, c.providerRequestId = none →
  c.releasedAt.isSome → ∀ e, (s .execution).find? c.executionId = some e →
    e.stopConfirmedAt.isSome

/-- Apart from those of `exempt`, unreleased primary claims belong to executions whose stop is
unconfirmed. -/
def HeldUnconfirmed (exempt : Option Id) (s : DB) : Prop := ∀ c ∈ s .resourceClaim,
  c.providerRequestId = none → c.releasedAt = none → some c.executionId ≠ exempt →
    ∀ e, (s .execution).find? c.executionId = some e → e.stopConfirmedAt = none

end DB

/-- The execution of a stored claim. -/
theorem Consistent.executionOf (hc : Consistent s) (h : c ∈ s .resourceClaim) :
    ∃ e, (s .execution).find? c.executionId = some e := by
  have h := hc.wellFormed (t := .resourceClaim) h
  simp only [Horizon.wellFormed, Bool.and_eq_true] at h
  exact Option.isSome_iff_exists.mp h.1.2

/-- Where a primary claim comes from: it was stored and not released before, it is new, or it was
released for a confirmed stop. -/
theorem Effect.primaryClaim (h : Effect ev s s') {c' : ResourceClaim} (hc' : c' ∈ s' .resourceClaim)
    (hp : c'.providerRequestId = none) :
    c' ∈ s .resourceClaim
      ∨ (c'.releasedAt = none
        ∧ ∀ e, (s .execution).find? c'.executionId = some e → e.stopConfirmedAt = none)
      ∨ (c'.releasedAt.isSome
        ∧ ∀ e, (s .execution).find? c'.executionId = some e → e.stopConfirmedAt.isSome) := by
  refine (h.origin hc').imp_right ?_
  rintro ⟨ht, hw⟩
  cases ev with
  | claimAdmitted =>
    obtain ⟨hi, _⟩ | ⟨_, _, _, ⟨⟩⟩ := hw
    exact .inl ⟨hi.1, hi.2.2.1⟩
  | claimAttached =>
    obtain ⟨hi, _⟩ | ⟨_, _, _, ⟨⟩⟩ := hw
    exact .inl hi
  | childClaimed =>
    obtain ⟨hi, _⟩ | ⟨_, _, _, ⟨⟩⟩ := hw
    rw [Event.Inserts, hp] at hi
    cases hi
  | claimReleased =>
    obtain ⟨⟨⟩, _⟩ | ⟨c, _, _, hrel, hconf⟩ := hw
    exact .inr ⟨hrel.after, hrel.executionId ▸ hconf⟩
  | childReleased =>
    obtain ⟨⟨⟩, _⟩ | ⟨c, _, _, hrel, hsome⟩ := hw
    rw [← hrel.providerRequestId, hp] at hsome
    cases hsome
  | other t hu => cases ht; cases hu
  | _ => cases ht

/-- The execution of a claim was stored before the claim was written. -/
theorem Effect.claimedExecution (h : Effect ev s s') (hc : Consistent s)
    (hmem : c ∈ s' .resourceClaim) : ∃ e, (s .execution).find? c.executionId = some e := by
  by_cases ht : ev.table = .execution
  · rw [h.frame (t := .resourceClaim) (ht ▸ nofun)] at hmem
    exact hc.executionOf hmem
  · rw [← h.frame (Ne.symm ht)]
    exact (h.consistent hc).executionOf hmem

theorem DB.ReleasedConfirmed.effect (hr : s.ReleasedConfirmed) (hc : Consistent s)
    (h : Effect ev s s') : s'.ReleasedConfirmed := by
  intro c hmem hp hreleased e' he'
  obtain ⟨e, he⟩ := h.claimedExecution hc hmem
  -- The claim was released for a confirmed stop, now or before.
  have hconf : e.stopConfirmedAt.isSome := by
    rcases h.primaryClaim hmem hp with hold | ⟨hnone, _⟩ | ⟨_, hconf⟩
    · exact hr c hold hp hreleased e he
    · rw [hnone] at hreleased
      cases hreleased
    · exact hconf e he
  obtain ⟨e'', he'', _⟩ := h.keepsConfirmed _ e he hconf
  rwa [Option.some.inj (he'.symm.trans he'')]

theorem DB.HeldUnconfirmed.effect (hh : s.HeldUnconfirmed exempt) (hc : Consistent s)
    (h : Effect ev s s') (hev : ∀ id ended, ev = .stopConfirmed id ended → exempt = some id) :
    s'.HeldUnconfirmed exempt := by
  intro c hmem hp hnone hne e' he'
  obtain ⟨e, he⟩ := h.claimedExecution hc hmem
  have hopen : e.stopConfirmedAt = none := by
    rcases h.primaryClaim hmem hp with hold | ⟨_, hopen⟩ | ⟨hsome, _⟩
    · exact hh c hold hp hnone hne e he
    · exact hopen e he
    · rw [hnone] at hsome
      cases hsome
  obtain ⟨e'', he'', _, hsame | ⟨⟨ended, rfl⟩, _⟩⟩ := h.execution he
  · rw [Option.some.inj (he'.symm.trans he''), hsame, hopen]
  · exact absurd (hev _ ended rfl).symm hne

/-- Once the claims of an execution are released, no exemption is left. -/
theorem DB.HeldUnconfirmed.released (hh : s.HeldUnconfirmed (some id))
    (hreleased : ∀ c ∈ s .resourceClaim, c.executionId = id → c.releasedAt.isSome) :
    s.HeldUnconfirmed none := by
  intro c hmem hp hnone _
  refine hh c hmem hp hnone fun heq => ?_
  have := hreleased c hmem (Option.some.inj heq)
  rw [hnone] at this
  cases this

/-! ### Confirmed stops -/

section

variable {env : Env} {actor : Actor}

/-- Every claim of an execution is released. -/
def DB.Released (s : DB) (id : Id) : Prop :=
  ∀ c ∈ s .resourceClaim, c.executionId = id → c.releasedAt.isSome

theorem releaseClaims_released {now : Instant} :
    Ensures (releaseClaims env id now) s fun _ s' => s'.Released id := by
  rw [releaseClaims, ensures_updateWhere]
  intro c' hmem hid
  rw [Database.write_self] at hmem
  obtain ⟨c, _, rfl⟩ := mem_updateWhere.mp hmem
  split at hid
  · rw [if_pos ‹_›]
    rfl
  · rename_i hp
    rw [if_neg hp]
    cases hreleased : c.releasedAt with
    | some t => rfl
    | none => exact absurd (by simp [hid, hreleased]) hp

theorem confirmStop_id : Ensures (confirmStop env execution) s fun e _ => e.id = execution.id := by
  refine .ite (fun _ => ?_) fun _ => .pure rfl
  rw [ensures_change]
  exact fun e he _ _ => (key_of_find? he :)

theorem executionFinished_released {live : Bool} {occurredAt : Instant} :
    Ensures (executionFinished env actor execution live occurredAt receipt) s
      fun _ s' => s'.Released execution.id := by
  refine .bind confirmStop_id fun e _ hid => ?_
  simp only [ensures_bind]
  intro _ _ _ _ _ _ _ _ _ _ _ _ _ _ _
  exact hid ▸ releaseClaims_released

theorem confirmHostStopped_released {expected : Nat} {machineFenced : Bool}
    {note evidence : String} :
    Ensures (confirmHostStopped env actor id expected machineFenced note evidence) s
      fun _ s' => s'.Released id := by
  have hretire : ∀ {execution : Execution},
      Leaves .resourceClaim (retirePrelaunchContexts env execution) :=
    leaves_updateWhere nofun
  rw [confirmHostStopped]
  simp only [ensures_bind]
  intro execution _ _ _ _ _ _ _ _
  refine releaseClaims_released.mono fun _ s₃ hreleased => ?_
  refine (hretire s₃).mono fun _ s₄ hsame c hmem => hreleased c ?_
  rwa [show s₄ .resourceClaim = s₃ .resourceClaim from hsame] at hmem

theorem handle_released {operation : WorkerOperation}
    (hpayload : operation.payload = .executionFinished receipt) :
    Ensures (handle env actor operation) s fun _ s' => s'.Released operation.executionId := by
  refine ensures_fetch fun _ hfind => ?_
  obtain ⟨_, hid⟩ := find?_eq_some.mp hfind
  refine .ask fun _ _ => ?_
  refine .guard fun _ => ?_
  rw [hpayload]
  exact executionFinished_released.mono fun _ s' hreleased => hid ▸ hreleased

end

/-- A step that may confirm a stop releases every claim of its execution. -/
theorem step_released {ended : Bool} (h : controlPlane.step s l s')
    (hl : l.operation.Allows l.env s (.stopConfirmed id ended)) : s'.Released id := by
  obtain ⟨env, _, op⟩ := l
  rcases hl.comesFrom with ⟨_, _, _, _, rfl⟩ | ⟨operation, _, rfl, rfl, hpayload⟩
  · exact confirmHostStopped_released _ _ (dispatch_of_execute h)
  · exact handle_released hpayload _ _ h

/-- The claims and the stops of executions agree. -/
structure DB.Reserved (s : DB) : Prop where
  released : s.ReleasedConfirmed
  held : s.HeldUnconfirmed none

theorem reserved_of_effects {P : Event → Prop} (h : Effects P s s')
    (hP : ∀ id ended, P (.stopConfirmed id ended) → exempt = some id) (hc : Consistent s)
    (hr : s.ReleasedConfirmed) (hh : s.HeldUnconfirmed exempt) :
    s'.ReleasedConfirmed ∧ s'.HeldUnconfirmed exempt := by
  refine (h.preserves (I := fun s => Consistent s ∧ s.ReleasedConfirmed ∧ s.HeldUnconfirmed exempt)
    ?_ ⟨hc, hr, hh⟩).2
  rintro ev _ _ hev he ⟨hc₁, hr₁, hh₁⟩
  refine ⟨he.consistent hc₁, hr₁.effect hc₁ he, hh₁.effect hc₁ he ?_⟩
  rintro id ended rfl
  exact hP id ended hev

theorem DB.Reserved.step (hr : s.Reserved) (hs : Sound s)
    (h : controlPlane.step s l s') : s'.Reserved := by
  have hroutine : ∀ id ended, l.Emits s (.stopConfirmed id ended) →
      l.operation.Allows l.env s (.stopConfirmed id ended) :=
    fun id ended hev => hev.resolve_left (by rintro ⟨⟩)
  -- The claims of an execution whose stop is confirmed are exempt until they are released.
  by_cases hstop : ∃ id ended, l.operation.Allows l.env s (.stopConfirmed id ended)
  · obtain ⟨id, ended, hid⟩ := hstop
    have hsame : ∀ id' ended', l.Emits s (.stopConfirmed id' ended') → some id = some id' := by
      intro id' ended' hev
      rcases hid.comesFrom with ⟨_, _, _, _, hop⟩ | ⟨_, _, hop, rfl, _⟩ <;>
        rcases hev.comesFrom with ⟨_, _, _, _, hop'⟩ | ⟨_, _, hop', rfl, _⟩ <;>
        cases hop.symm.trans hop' <;> rfl
    obtain ⟨hr', hh'⟩ := reserved_of_effects (step_effects hs h) hsame hs.consistent hr.released
      fun c hmem hp hnone _ => hr.held c hmem hp hnone nofun
    exact ⟨hr', hh'.released (step_released h hid)⟩
  · obtain ⟨hr', hh'⟩ := reserved_of_effects (step_effects hs h)
      (fun id ended hev => absurd ⟨id, ended, hroutine id ended hev⟩ hstop)
      hs.consistent hr.released
      hr.held
    exact ⟨hr', hh'⟩

theorem reserved_of_reachable {guard : DB → Label → Prop} (h : controlPlane.ReachableBy guard s) :
    s.Reserved := by
  refine (h.invariant (I := fun s => Sound s ∧ s.Reserved) ?_ ?_).2
  · rintro _ rfl
    exact ⟨sound_empty, ⟨fun c hc => absurd hc notMem_empty, fun c hc => absurd hc notMem_empty⟩⟩
  · rintro s l s' ⟨hs, hr⟩ _ hstep
    exact ⟨(step_effects hs hstep).sound hs, hr.step hs hstep⟩

/-- A primary claim is held exactly as long as the stop of its execution is unconfirmed. -/
theorem DB.Reserved.held_iff (hr : s.Reserved) (hc : Consistent s)
    (hmem : c ∈ s .resourceClaim) (hp : c.providerRequestId = none) : c.releasedAt = none ↔
      ∃ e, (s .execution).find? c.executionId = some e ∧ e.stopConfirmedAt = none := by
  obtain ⟨e, he⟩ := hc.executionOf hmem
  constructor
  · intro hnone
    exact ⟨e, he, hr.held c hmem hp hnone nofun e he⟩
  · rintro ⟨e', he', hopen⟩
    cases hreleased : c.releasedAt with
    | none => rfl
    | some t =>
      have := hr.released c hmem hp (by rw [hreleased]; rfl) e' he'
      rw [hopen] at this
      cases this

/-- A stored claim stays with its execution and its request. -/
theorem Effect.claim (h : Effect ev s s') (hc : (s .resourceClaim).find? id = some c) :
    ∃ c', (s' .resourceClaim).find? id = some c'
      ∧ c'.executionId = c.executionId ∧ c'.providerRequestId = c.providerRequestId := by
  obtain ⟨c', hc', rfl | ⟨ht, hch⟩⟩ := h.find? (by decide) hc
  · exact ⟨c', hc', rfl, rfl⟩
  cases ev with
  | claimAdmitted | claimAttached | childClaimed => cases hch
  | claimReleased | childReleased =>
    exact ⟨c', hc', hch.1.executionId, hch.1.providerRequestId⟩
  | other t hu => cases ht; cases hu
  | _ => cases ht

/-- In every reachable state a primary claim is unreleased exactly when the stop of its execution
is unconfirmed; and the sweep that expires leases releases none. -/
theorem claim_unreleased_iff (h : controlPlane.Reachable s) {c : ResourceClaim}
    (hmem : c ∈ s .resourceClaim) (hp : c.providerRequestId = none) :
    (c.releasedAt = none ↔
      ∃ e, (s .execution).find? c.executionId = some e ∧ e.stopConfirmedAt = none)
    ∧ ∀ l s', l.operation = .tick → controlPlane.step s l s' → c.releasedAt = none →
      ∃ c', (s' .resourceClaim).find? c.id = some c' ∧ c'.releasedAt = none := by
  have hs := sound_of_reachable h
  have hc := hs.consistent
  have hr := reserved_of_reachable h
  refine ⟨hr.held_iff hc hmem hp, fun l s' hl hstep hnone => ?_⟩
  have heffects := step_effects hs hstep
  -- Nothing in a sweep confirms a stop.
  have hkept : ∃ c' e', (s' .resourceClaim).find? c.id = some c' ∧ c'.executionId = c.executionId
      ∧ c'.providerRequestId = none ∧ (s' .execution).find? c.executionId = some e'
      ∧ e'.stopConfirmedAt = none := by
    obtain ⟨e, he, hopen⟩ := (hr.held_iff hc hmem hp).mp hnone
    refine heffects.preserves (I := fun s' => ∃ c' e', (s' .resourceClaim).find? c.id = some c'
      ∧ c'.executionId = c.executionId ∧ c'.providerRequestId = none
      ∧ (s' .execution).find? c.executionId = some e' ∧ e'.stopConfirmedAt = none)
      ?_ ⟨c, e, find?_key hmem, rfl, hp, he, hopen⟩
    rintro ev _ _ hev heff ⟨_, _, hc₁, hid₁, hp₁, he₁, hopen₁⟩
    obtain ⟨c₂, hc₂, hid₂, hp₂⟩ := heff.claim hc₁
    obtain ⟨e₂, he₂, _, hsame | ⟨⟨_, rfl⟩, _⟩⟩ := heff.execution he₁
    · exact ⟨c₂, e₂, hc₂, hid₂.trans hid₁, hp₂.trans hp₁, he₂, hsame.trans hopen₁⟩
    · rcases hev with hroutine | ha
      · cases hroutine
      · rw [hl] at ha
        simp [Operation.Allows, Event.Ticks, Event.isRoutine, Event.isSettling] at ha
  obtain ⟨c', e', hc', hid, hp', he', hopen⟩ := hkept
  refine ⟨c', hc', ?_⟩
  exact ((hr.step hs hstep).held_iff (heffects.sound hs).consistent (mem_of_find? hc') hp').mpr
    ⟨e', hid ▸ he', hopen⟩

/-- The claim of an admitted planner is held, and stays so when its lease expires. -/
theorem claim_unreleased_iff_admitted :
    ∃ c, (outcome Installation.admitted .resourceClaim).find? 1 = some c
      ∧ c.providerRequestId = none ∧ c.releasedAt = none
      ∧ (∃ e, (outcome Installation.admitted .execution).find? c.executionId = some e
        ∧ e.stopConfirmedAt = none)
      ∧ ∀ l s', l.operation = .tick → controlPlane.step (outcome Installation.admitted) l s' →
        ∃ c', (s' .resourceClaim).find? c.id = some c' ∧ c'.releasedAt = none := by
  have hfind : (outcome Installation.admitted .resourceClaim).find? 1
      = some ⟨1, 1, 1, none, 1, none⟩ := by decide +kernel
  have h := claim_unreleased_iff (outcome_reachable _) (mem_of_find? hfind) rfl
  exact ⟨_, hfind, rfl, rfl, h.1.mp rfl, fun l s' hl hstep => h.2 l s' hl hstep rfl⟩

/-! ## Objective installations -/

/-- The steps of an installation that only starts objective runs. -/
def Label.startsObjective (_ : DB) (l : Label) : Bool :=
  match l.operation with
  | .startRun data _ => data.orchestration == .objective
  | _ => true

/-- Every run is an objective run. -/
def DB.AllObjective (s : DB) : Prop := ∀ r ∈ s .run, r.orchestration = .objective

theorem DB.AllObjective.effect (ho : s.AllObjective) (h : Effect ev s s')
    (hev : ∀ orchestration, ev = .runCreated orchestration → orchestration = .objective) :
    s'.AllObjective := by
  intro r' hr'
  obtain hr | ⟨ht, hw⟩ := h.origin hr'
  · exact ho r' hr
  cases ev with
  | runCreated =>
    obtain ⟨hi, _⟩ | ⟨_, _, _, ⟨⟩⟩ := hw
    exact hi.1.trans (hev _ rfl)
  | runChanged | runReopened | phaseAccepted | phaseAdvanced =>
    obtain ⟨⟨⟩, _⟩ | ⟨r, hr, _, hsetup, _⟩ := hw
    exact hsetup.orchestration.trans (ho r hr)
  | other t hu => cases ht; cases hu
  | _ => cases ht

theorem objective_of_emits (hl : l.startsObjective s) {orchestration : Orchestration}
    (h : l.Emits s (.runCreated orchestration)) : orchestration = .objective := by
  obtain ⟨_, _, hop, rfl⟩ := h.comesFrom
  simpa [Label.startsObjective, hop] using hl

theorem DB.AllObjective.isObjective (ho : s.AllObjective) (hc : Consistent s)
    (he : e ∈ s .execution) : s.isObjective e.assignmentId := by
  obtain ⟨a, ha⟩ := hc.assignmentOf he
  obtain ⟨r, hr⟩ := hc.runOf ha
  simp [DB.isObjective, ha, hr, ho r (mem_of_find? hr)]

/-! ## Workspaces -/

/-- No two executions whose stop is unconfirmed share a workspace. -/
def DB.Separate (s : DB) : Prop := ∀ e ∈ s .execution, ∀ e' ∈ s .execution,
  e.stopConfirmedAt = none → e'.stopConfirmedAt = none → e.workspaceId = e'.workspaceId → e = e'

theorem Execution.SameAdmission.refl (e : Execution) : e.SameAdmission e :=
  ⟨rfl, rfl, rfl, rfl, rfl, rfl, fun h => h⟩

theorem Execution.SameAdmission.weight_eq (h : e.SameAdmission e') : e'.weight = e.weight := by
  rw [Execution.weight, Execution.weight, h.nativeCapacity]

/-- An execution goes on with what it was admitted for, and its stop is not taken back. -/
def Execution.Continues (e e' : Execution) : Prop :=
  e'.id = e.id ∧ e.SameAdmission e' ∧ (e'.stopConfirmedAt = none → e.stopConfirmedAt = none)

/-- A write admits an execution, or lets the stored ones go on. -/
theorem Effect.executions (h : Effect ev s s') :
    (∃ g : Execution → Execution, (s' .execution).rows = (s .execution).rows.map g
      ∧ ∀ e ∈ s .execution, e.Continues (g e))
      ∨ (ev = .executionAdmitted ∧ ∃ row, (s' .execution).rows = (s .execution).rows ++ [row]
        ∧ row.Admitted s ∧ ∀ e ∈ s .execution, e.id ≠ row.id) := by
  have hsame : ∀ {e e' : Execution}, e' = e → e.Continues e' := by
    rintro e e' rfl
    exact ⟨rfl, .refl e', fun h => h⟩
  by_cases ht : ev.table = .execution
  · cases ev with
    | executionAdmitted =>
      rcases h.rows nofun with ⟨row, hrows, hi, hfresh⟩ | ⟨g, hrows, _, hg⟩
      · exact .inr ⟨rfl, row, hrows, hi, hfresh⟩
      · exact .inl ⟨g, hrows, fun e he => hsame ((hg e he).resolve_right id)⟩
    | executionChanged =>
      obtain ⟨_, _, ⟨⟩, _⟩ | ⟨g, hrows, hkey, hg⟩ := h.rows (by decide)
      refine .inl ⟨g, hrows, fun e he => (hg e he).elim hsame fun hch => ?_⟩
      exact ⟨hkey e, hch.1, fun hopen => hch.2.1 ▸ hopen⟩
    | executionEnded =>
      obtain ⟨_, _, ⟨⟩, _⟩ | ⟨g, hrows, hkey, hg⟩ := h.rows (by rintro ⟨⟩)
      refine .inl ⟨g, hrows, fun e he => (hg e he).elim hsame fun hch => ?_⟩
      exact ⟨hkey e, hch.1, fun hopen => hch.2.2 ▸ hopen⟩
    | stopConfirmed =>
      obtain ⟨_, _, ⟨⟩, _⟩ | ⟨g, hrows, hkey, hg⟩ := h.rows nofun
      refine .inl ⟨g, hrows, fun e he => (hg e he).elim hsame fun hch =>
        ⟨hkey e, hch.1, fun hopen => ?_⟩⟩
      have hconf := hch.2.2.1
      rw [hopen] at hconf
      cases hconf
    | other t hu => cases ht; cases hu
    | _ => cases ht
  · exact .inl ⟨id, by rw [h.frame (Ne.symm ht), map_id], fun e _ => hsame rfl⟩

theorem DB.Separate.effect (hs : s.Separate) (ho : s.AllObjective) (hc : Consistent s)
    (h : Effect ev s s') : s'.Separate := by
  intro e₁ h₁ e₂ h₂ hopen₁ hopen₂ hw
  rw [mem_def] at h₁ h₂
  rcases h.executions with ⟨g, hrows, hg⟩ | ⟨_, row, hrows, hadmitted, _⟩
  · rw [hrows] at h₁ h₂
    obtain ⟨o₁, ho₁, rfl⟩ := mem_map.mp h₁
    obtain ⟨o₂, ho₂, rfl⟩ := mem_map.mp h₂
    obtain ⟨_, hsame₁, hstop₁⟩ := hg o₁ ho₁
    obtain ⟨_, hsame₂, hstop₂⟩ := hg o₂ ho₂
    rw [hsame₁.workspaceId, hsame₂.workspaceId] at hw
    rw [hs o₁ ho₁ o₂ ho₂ (hstop₁ hopen₁) (hstop₂ hopen₂) hw]
  · rw [hrows, mem_append, mem_singleton] at h₁ h₂
    rcases h₁ with h₁ | rfl <;> rcases h₂ with h₂ | rfl
    · exact hs e₁ h₁ e₂ h₂ hopen₁ hopen₂ hw
    · exact absurd hw (hadmitted.exclusive e₁ h₁ hopen₁ (ho.isObjective hc h₁))
    · exact absurd hw.symm (hadmitted.exclusive e₂ h₂ hopen₂ (ho.isObjective hc h₂))
    · rfl

/-- In an installation that only starts objective runs, no two executions whose stop is
unconfirmed name the same workspace. -/
theorem workspace_exclusive (h : controlPlane.ReachableBy (Label.startsObjective · · = true) s) :
    ∀ e ∈ s .execution, ∀ e' ∈ s .execution, e.stopConfirmedAt = none → e'.stopConfirmedAt = none →
      e.workspaceId = e'.workspaceId → e = e' := by
  change s.Separate
  refine (invariant_of_events (I := fun s => s.AllObjective ∧ s.Separate)
    ⟨fun r hr => absurd hr notMem_empty, fun e he => absurd he notMem_empty⟩ ?_ h).2
  rintro _ _ hl ev hev _ _ hs₁ he ⟨ho, hs⟩
  exact ⟨ho.effect he (by rintro _ rfl; exact objective_of_emits hl hev),
    hs.effect ho hs₁.consistent he⟩

/-- A registered and an allocated workspace in use at the same time. -/
theorem workspace_exclusive_busy :
    ((outcomeBy Label.startsObjective busy .execution).rows.map fun e =>
        (e.workspaceId, e.stopConfirmedAt)) = [(.registered 1, none), (.allocated 3 1, none)]
      ∧ ∀ e ∈ outcomeBy Label.startsObjective busy .execution,
        ∀ e' ∈ outcomeBy Label.startsObjective busy .execution,
        e.stopConfirmedAt = none → e'.stopConfirmedAt = none →
          e.workspaceId = e'.workspaceId → e = e' :=
  ⟨by decide +kernel, workspace_exclusive (outcomeBy_reachable _ _)⟩

/-! ## Weights -/

/-- The weight of the executions whose stop is unconfirmed. -/
def DB.unconfirmedWeight (s : DB) (p : Execution → Bool) : Nat :=
  total Execution.weight (fun e => p e && e.stopConfirmedAt.isNone) (s .execution).rows

theorem DB.AllObjective.unconfirmedWeight_eq (ho : s.AllObjective) (hc : Consistent s)
    (p : Execution → Bool) : s.unconfirmedWeight p = s.reservedWeight p := by
  refine total_congr fun e he => ?_
  rw [ho.isObjective hc he, Bool.and_true]

section

variable {p p' : Execution → Bool}

variable (h : Effect ev s s') (hc : Consistent s)
  (hp : ∀ e ∈ s .execution, ∀ e', e.SameAdmission e' → p' e' = p e)

include h hc hp

/-- Executions that go on weigh no more than before. -/
theorem Effect.reservedWeight_map_le {g : Execution → Execution}
    (hg : ∀ e ∈ s .execution, e.Continues (g e))
    (hrows : (s' .execution).rows = (s .execution).rows.map g) :
    s'.reservedWeight p' ≤ s.reservedWeight p := by
  rw [reservedWeight, hrows]
  refine total_map_le fun e he hcounted => ?_
  obtain ⟨_, hsame, hstop⟩ := hg e he
  simp only [Bool.and_eq_true, Option.isNone_iff_eq_none] at hcounted ⊢
  obtain ⟨hp', hopen, hobjective⟩ := hcounted
  rw [hp e he _ hsame] at hp'
  rw [hsame.assignmentId, h.sameAccounts.isObjective_eq hc he] at hobjective
  exact ⟨⟨hp', hstop hopen, hobjective⟩, hsame.weight_eq⟩

/-- An admission adds its own weight at most. -/
theorem Effect.reservedWeight_append_le {row : Execution}
    (hrows : (s' .execution).rows = (s .execution).rows ++ [row]) :
    s'.reservedWeight p' ≤ s.reservedWeight p + if p' row then row.weight else 0 := by
  have hold : total Execution.weight (fun e => p' e && (e.stopConfirmedAt.isNone
      && s'.isObjective e.assignmentId)) (s .execution).rows = s.reservedWeight p :=
    total_congr fun e he => by rw [hp e he e (.refl e), h.sameAccounts.isObjective_eq hc he]
  rw [reservedWeight, hrows, total_append, hold, total_cons, total_nil, Nat.add_zero]
  refine Nat.add_le_add_left ?_ _
  cases p' row with
  | false => simp
  | true => split <;> simp

/-- A write raises the reserved weight by an admission at most. -/
theorem Effect.reservedWeight_le :
    s'.reservedWeight p' ≤ s.reservedWeight p ∨ (ev = .executionAdmitted ∧ ∃ row, row.Admitted s
      ∧ p' row ∧ s'.reservedWeight p' ≤ s.reservedWeight p + row.weight) := by
  rcases h.executions with ⟨g, hrows, hg⟩ | ⟨hev, row, hrows, hadmitted, _⟩
  · exact .inl (h.reservedWeight_map_le hc hp hg hrows)
  · have hle := h.reservedWeight_append_le hc hp hrows
    cases hrow : p' row with
    | false => exact .inl (by simpa [hrow] using hle)
    | true => exact .inr ⟨hev, row, hadmitted, hrow, by simpa [hrow] using hle⟩

end

/-! ### Slots -/

/-- The executions of a slot fit into it. -/
def DB.SlotsFit (s : DB) : Prop := ∀ h ∈ s .hostHarness,
  s.reservedWeight (onSlot h.hostId h.harnessId) ≤ h.executionSlots

/-- The slot of a stored execution is stored. -/
theorem Consistent.slotOf (hc : Consistent s) (he : e ∈ s .execution) :
    ∃ h, (s .hostHarness).find? (e.hostId, e.harnessId) = some h := by
  have h := hc.wellFormed (t := .execution) he
  simp only [Horizon.wellFormed, Bool.and_eq_true] at h
  exact Option.isSome_iff_exists.mp h.2

/-- A slot keeps its size, unless it is configured. -/
theorem Effect.slot (h : Effect ev s s') (hev : ev ≠ .slotConfigured) {row' : HostHarness}
    (hrow' : row' ∈ s' .hostHarness) :
    (s .hostHarness).find? (row'.hostId, row'.harnessId) = none ∨ ∃ row,
      (s .hostHarness).find? (row'.hostId, row'.harnessId) = some row
        ∧ row'.executionSlots = row.executionSlots := by
  obtain hrow | ⟨ht, hw⟩ := h.origin hrow'
  · exact .inr ⟨row', find?_key hrow, rfl⟩
  cases ev with
  | slotConfigured => exact absurd rfl hev
  | slotCreated =>
    obtain ⟨_, hfresh⟩ | ⟨_, _, _, ⟨⟩⟩ := hw
    exact .inl (find?_eq_none.mpr hfresh)
  | slotChanged =>
    obtain ⟨⟨⟩, _⟩ | ⟨row, hrow, hkey, hch⟩ := hw
    exact .inr ⟨row, find?_eq_some.mpr ⟨hrow, hkey.symm⟩, hch⟩
  | other t hu => cases ht; cases hu
  | _ => cases ht

theorem DB.SlotsFit.effect (hf : s.SlotsFit) (hc : Consistent s) (h : Effect ev s s')
    (hev : ev ≠ .slotConfigured) : s'.SlotsFit := by
  intro row' hrow'
  have hp : ∀ e ∈ s .execution, ∀ e', e.SameAdmission e' →
      onSlot row'.hostId row'.harnessId e' = onSlot row'.hostId row'.harnessId e :=
    fun e _ e' hsame => by rw [onSlot, onSlot, hsame.hostId, hsame.harnessId]
  rcases h.slot hev hrow' with hnew | ⟨row, hrow, hslots⟩
  · rcases h.reservedWeight_le hc hp with hle | ⟨rfl, _⟩
    · -- A new slot holds no execution yet.
      have hnone : s.reservedWeight (onSlot row'.hostId row'.harnessId) = 0 := by
        refine total_eq_zero fun e he => Bool.eq_false_iff.mpr fun hcounted => ?_
        simp only [onSlot, Bool.and_eq_true, beq_iff_eq] at hcounted
        obtain ⟨row, hrow⟩ := hc.slotOf he
        rw [hcounted.1.1, hcounted.1.2, hnew] at hrow
        cases hrow
      rw [hnone] at hle
      exact hle.trans (Nat.zero_le _)
    · rw [h.frame (by decide)] at hrow'
      exact absurd (find?_key hrow') (hnew ▸ nofun)
  · rw [hslots]
    obtain ⟨hmem, hkey⟩ := find?_eq_some.mp hrow
    obtain ⟨hhost, hharness⟩ : row.hostId = row'.hostId ∧ row.harnessId = row'.harnessId :=
      Prod.mk.inj hkey
    rcases h.reservedWeight_le hc hp with hle | ⟨_, e, hadmitted, hon, hle⟩
    · exact hle.trans (hhost ▸ hharness ▸ hf row hmem)
    · simp only [onSlot, Bool.and_eq_true, beq_iff_eq] at hon
      refine hle.trans ?_
      rw [← hon.1, ← hon.2]
      exact hadmitted.slots row (by rw [hon.1, hon.2]; exact hrow)

/-! ### Categories -/

/-- The executions of a run fit into its categories. -/
def DB.CategoriesFit (s : DB) : Prop := ∀ run ∈ s .run, run.orchestration = .objective →
  ∀ name settings, run.queuePolicies.lookup name = some settings →
    s.reservedWeight (s.inCategory run.id name) ≤ settings.slots

/-- A run keeps its orchestration and its policies. -/
theorem Effect.runOrigin (h : Effect ev s s') {run' : Run} (hrun' : run' ∈ s' .run) :
    ((s .run).find? run'.id = none ∧ ev.table = .run) ∨ ∃ run, (s .run).find? run'.id = some run
      ∧ run'.orchestration = run.orchestration ∧ run'.queuePolicies = run.queuePolicies := by
  obtain hrun | ⟨ht, hw⟩ := h.origin hrun'
  · exact .inr ⟨run', find?_key hrun, rfl, rfl⟩
  cases ev with
  | runCreated =>
    obtain ⟨_, hfresh⟩ | ⟨_, _, _, ⟨⟩⟩ := hw
    exact .inl ⟨find?_eq_none.mpr hfresh, rfl⟩
  | runChanged | runReopened | phaseAccepted | phaseAdvanced =>
    obtain ⟨⟨⟩, _⟩ | ⟨run, hrun, hid, hsetup, _⟩ := hw
    exact .inr ⟨run, find?_eq_some.mpr ⟨hrun, hid.symm⟩, hsetup.orchestration, hsetup.queuePolicies⟩
  | other t hu => cases ht; cases hu
  | _ => cases ht

theorem DB.CategoriesFit.effect (hf : s.CategoriesFit) (hc : Consistent s) (h : Effect ev s s') :
    s'.CategoriesFit := by
  intro run' hrun' ho name settings hsettings
  have hp : ∀ e ∈ s .execution, ∀ e', e.SameAdmission e' →
      s'.inCategory run'.id name e' = s.inCategory run'.id name e := fun e he e' hsame => by
    rw [← h.sameAccounts.inCategory_eq hc he, inCategory, inCategory, hsame.assignmentId]
  rcases h.runOrigin hrun' with ⟨hnew, htable⟩ | ⟨run, hrun, ho', hpolicies⟩
  · rcases h.reservedWeight_le hc hp with hle | ⟨rfl, _⟩
    · -- A new run owns no assignment yet.
      have hnone : s.reservedWeight (s.inCategory run'.id name) = 0 := by
        refine total_eq_zero fun e he => Bool.eq_false_iff.mpr fun hcounted => ?_
        obtain ⟨a, ha⟩ := hc.assignmentOf he
        obtain ⟨run, hrun⟩ := hc.runOf ha
        simp only [inCategory, ha, Option.any_some, Bool.and_eq_true, beq_iff_eq] at hcounted
        rw [hcounted.1.1, hnew] at hrun
        cases hrun
      rw [hnone] at hle
      exact hle.trans (Nat.zero_le _)
    · cases htable
  · rw [hpolicies] at hsettings
    rw [ho'] at ho
    obtain ⟨hmem, hid⟩ : run ∈ s .run ∧ run.id = run'.id := find?_eq_some.mp hrun
    rcases h.reservedWeight_le hc hp with hle | ⟨rfl, e, hadmitted, hin, hle⟩
    · exact hle.trans (hid ▸ hf run hmem ho name settings hsettings)
    · rw [inCategory, h.frame (t := .assignment) (by decide)] at hin
      obtain ⟨a, ha, hrunId, hname⟩ : ∃ a, (s .assignment).find? e.assignmentId = some a
          ∧ a.runId = run'.id ∧ a.category = some name := by
        simpa [Option.any_eq_true] using hin
      have hcategory : category a = name := by rw [category, hname]; rfl
      have hfits := hadmitted.category a run settings ha (hrunId ▸ hrun) ho (hcategory ▸ hsettings)
      rw [hcategory, hid] at hfits
      exact hle.trans hfits

/-! ### Workers -/

/-- Every assignment of an objective run is queued in a category of its role. -/
def DB.Queued (s : DB) : Prop := ∀ a ∈ s .assignment, ∀ run, (s .run).find? a.runId = some run →
  run.orchestration = .objective → ∃ settings, run.queuePolicies.lookup (category a) = some settings
    ∧ settings.role = a.role

theorem DB.Queued.effect (hq : s.Queued) (hc : Consistent s) (h : Effect ev s s') : s'.Queued := by
  intro a' ha' run' hrun' ho
  obtain ⟨_, _⟩ := find?_eq_some.mp hrun'
  have hold : ∀ a ∈ s .assignment, a.SameWork a' → ∃ settings,
      run'.queuePolicies.lookup (category a') = some settings ∧ settings.role = a'.role := by
    intro a ha hwork
    obtain ⟨run, hrun⟩ := hc.runOf (find?_key ha)
    obtain ⟨_, hrun'', hsetup⟩ := h.run hrun
    rw [← hwork.runId] at hrun''
    cases hrun'.symm.trans hrun''
    rw [hwork.category_eq, hwork.role, hsetup.queuePolicies]
    exact hq a ha run hrun (hsetup.orchestration ▸ ho)
  -- The assignment was queued before, or it was checked against its run.
  rcases h.assignment_origin ha' with ⟨rfl, hqueued, _⟩ | ⟨a, ha, hev⟩
  · rw [h.frame (by decide)] at hrun'
    exact hqueued.policy run' hrun' ho
  · exact hold a ha hev.work

/-- The worker admitted last on a slot. -/
def DB.lastWorker (s : DB) (hostId harnessId : Id) : Option Execution :=
  ((s .execution).rows.filter (s.isWorkerOn hostId harnessId)).getLast?

/-- The run an execution was admitted for. -/
def DB.admittingRun (s : DB) (e : Execution) : Option Run :=
  ((s .assignment).find? e.assignmentId).bind fun a => (s .run).find? a.runId

/-- The workers on a slot leave free what the run that admitted the last of them reserves for
maintenance. -/
def DB.WorkersFit (s : DB) : Prop := ∀ h ∈ s .hostHarness, ∀ e run,
  s.lastWorker h.hostId h.harnessId = some e → s.admittingRun e = some run →
    s.reservedWeight (s.isWorkerOn h.hostId h.harnessId)
    ≤ max 1 (h.executionSlots - reservedSlots run)

/-- The worker admitted last stays the last one, until another one is admitted. -/
theorem Effect.lastWorker (h : Effect ev s s') (hc : Consistent s)
    (he' : s'.lastWorker hostId harnessId = some e') :
    (∃ e ∈ s .execution, s.lastWorker hostId harnessId = some e ∧ e.SameAdmission e'
      ∧ s'.reservedWeight (s'.isWorkerOn hostId harnessId)
        ≤ s.reservedWeight (s.isWorkerOn hostId harnessId))
      ∨ (ev = .executionAdmitted ∧ e'.Admitted s ∧ s'.isWorkerOn hostId harnessId e'
        ∧ s'.reservedWeight (s'.isWorkerOn hostId harnessId)
          ≤ s.reservedWeight (s.isWorkerOn hostId harnessId) + e'.weight) := by
  have hp : ∀ e ∈ s .execution, ∀ e', e.SameAdmission e' →
      s'.isWorkerOn hostId harnessId e' = s.isWorkerOn hostId harnessId e := fun e he e' hsame => by
    rw [← h.sameAccounts.isWorkerOn_eq hc he, isWorkerOn, isWorkerOn, hsame.assignmentId,
      hsame.hostId, hsame.harnessId]
  have hmem : ∀ {e}, s.lastWorker hostId harnessId = some e → e ∈ s .execution := fun he =>
    mem_of_mem_filter (mem_of_getLast? he)
  rw [DB.lastWorker] at he'
  rcases h.executions with ⟨g, hrows, hg⟩ | ⟨hev, row, hrows, hadmitted, _⟩
  · left
    have hfilter : (s .execution).rows.filter (s'.isWorkerOn hostId harnessId ∘ g)
        = (s .execution).rows.filter (s.isWorkerOn hostId harnessId) :=
      filter_congr fun e he => hp e he _ (hg e he).2.1
    rw [hrows, filter_map, getLast?_map, hfilter] at he'
    obtain ⟨e, he, rfl⟩ := Option.map_eq_some_iff.mp he'
    exact ⟨e, hmem he, he, (hg e (hmem he)).2.1, h.reservedWeight_map_le hc hp hg hrows⟩
  · have hfilter : (s .execution).rows.filter (s'.isWorkerOn hostId harnessId)
        = (s .execution).rows.filter (s.isWorkerOn hostId harnessId) :=
      filter_congr fun e he => hp e he e (.refl e)
    have hle := h.reservedWeight_append_le hc hp hrows
    rw [hrows, filter_append, hfilter] at he'
    cases hrow : s'.isWorkerOn hostId harnessId row with
    | false =>
      left
      have he : s.lastWorker hostId harnessId = some e' := by simpa [DB.lastWorker, hrow] using he'
      exact ⟨e', hmem he, he, .refl e', by simpa [hrow] using hle⟩
    | true =>
      obtain rfl : row = e' := by simpa [hrow] using he'
      exact .inr ⟨hev, hadmitted, hrow, by simpa [hrow] using hle⟩

theorem isWorkerOn_iff :
    s.isWorkerOn hostId harnessId e ↔ e.hostId = hostId ∧ e.harnessId = harnessId
      ∧ ∃ a, (s .assignment).find? e.assignmentId = some a ∧ a.role = .worker := by
  simp [isWorkerOn, Option.any_eq_true, and_assoc]

theorem DB.WorkersFit.effect (hf : s.WorkersFit) (hq : s.Queued) (ho : s.AllObjective)
    (hc : Consistent s) (h : Effect ev s s') (hev : ev ≠ .slotConfigured) : s'.WorkersFit := by
  intro row' hrow' e' run' he' hrun'
  obtain ⟨a', ha', hrun'⟩ := Option.bind_eq_some_iff.mp hrun'
  rcases h.lastWorker hc he' with ⟨e, he, hlast, hsame, hle⟩ | ⟨rfl, hadmitted, hworker, hle⟩
  · -- The same worker was the last one before, for the same run.
    obtain ⟨hhost, hharness, _⟩ := isWorkerOn_iff.mp (mem_filter.mp (mem_of_getLast? hlast)).2
    obtain ⟨row, hrow, hslots⟩ : ∃ row,
        (s .hostHarness).find? (row'.hostId, row'.harnessId) = some row
        ∧ row'.executionSlots = row.executionSlots := by
      refine (h.slot hev hrow').resolve_left fun hnew => ?_
      obtain ⟨row, hrow⟩ := hc.slotOf he
      rw [hhost, hharness, hnew] at hrow
      cases hrow
    obtain ⟨hmem, hkey⟩ := find?_eq_some.mp hrow
    obtain ⟨hrowHost, hrowHarness⟩ : row.hostId = row'.hostId ∧ row.harnessId = row'.harnessId :=
      Prod.mk.inj hkey
    obtain ⟨a, ha⟩ := hc.assignmentOf he
    obtain ⟨run, hrun⟩ := hc.runOf ha
    obtain ⟨a'', ha'', hwork, _⟩ := h.assignment ha
    obtain rfl : a'' = a' := Option.some.inj (ha''.symm.trans (hsame.assignmentId ▸ ha'))
    obtain ⟨run'', hrun'', _, _, hpolicies⟩ := h.run hrun
    obtain rfl : run'' = run' := Option.some.inj (hrun''.symm.trans (hwork.runId ▸ hrun'))
    have hfits := hf row hmem e run (by rw [hrowHost, hrowHarness]; exact hlast)
      (Option.bind_eq_some_iff.mpr ⟨a, ha, hrun⟩)
    rw [hrowHost, hrowHarness] at hfits
    rw [reservedSlots, hpolicies, ← reservedSlots, hslots]
    exact hle.trans hfits
  · -- The last worker was admitted just now.
    rw [h.frame (by decide)] at ha' hrun' hrow'
    obtain ⟨hhost, hharness, a, ha, hrole⟩ := isWorkerOn_iff.mp hworker
    rw [h.frame (by decide)] at ha
    obtain rfl := Option.some.inj (ha.symm.trans ha')
    have hobjective := ho run' (mem_of_find? hrun')
    obtain ⟨settings, hsettings, hsame⟩ := hq a (mem_of_find? ha) run' hrun' hobjective
    have hslot : (s .hostHarness).find? (e'.hostId, e'.harnessId) = some row' :=
      find?_eq_some.mpr ⟨hrow', by rw [hhost, hharness]⟩
    have hfits := hadmitted.worker a run' settings row' ha hrun' hobjective hsettings
      (hsame.trans hrole) hrole hslot
    rw [hhost, hharness] at hfits
    exact hle.trans hfits

/-! ### Shared limits -/

/-- An admission stays below the maximum of the limit it claims. -/
theorem claimedUnits_of_claimAdmitted (h : Effect .claimAdmitted s s')
    (hlimit : limit ∈ s .resourceLimit) :
    s'.claimedUnits limit.id ≤ s.claimedUnits limit.id
      ∨ limit.maximum.all (s'.claimedUnits limit.id ≤ ·) := by
  rw [claimedUnits]
  rcases h.rows (by decide) with ⟨c, hrows, ⟨hnone, _, _, hmax⟩, _⟩ | ⟨g, hrows, _, hg⟩
  · rw [hrows, total_append, total_cons, total_nil, Nat.add_zero]
    split
    · rename_i hcounted
      simp only [hnone, Option.isNone_none, Bool.and_true, beq_iff_eq] at hcounted
      exact .inr (hmax limit (hcounted ▸ find?_key hlimit))
    · exact .inl (Nat.le_refl _)
  · left
    rw [hrows, map_congr_left fun c hc => (hg c hc).resolve_right id, map_id']
    exact Nat.le_refl _

/-- A poll pushes no limit above its maximum. -/
theorem claim_units_le {harnessIds : List Id} (hs : Sound s)
    (hl : l.operation = .claim hostId harnessIds) (h : controlPlane.step s l s')
    (hlimit : limit ∈ s .resourceLimit) : s'.claimedUnits limit.id ≤ s.claimedUnits limit.id
      ∨ limit.maximum.all (s'.claimedUnits limit.id ≤ ·) := by
  obtain ⟨env, _, op⟩ := l
  obtain rfl : op = .claim hostId harnessIds := hl
  obtain ⟨_, s₁, hclaim, h⟩ := bind_eq_ok.mp h
  cases h
  have heffects : Effects (fun ev => ev.isSteady ∨ ev = .executionAdmitted ∨ ev = .claimAdmitted)
      s s' :=
    (claim_emits (fun _ _ h => .inl h) (fun _ => .inl rfl) (.inr (.inl rfl)) (.inr (.inr rfl))).from
      hs _ _ hclaim
  refine (heffects.preserves (I := fun s₁ => s₁ .resourceLimit = s .resourceLimit
    ∧ (s₁.claimedUnits limit.id ≤ s.claimedUnits limit.id
      ∨ limit.maximum.all (s₁.claimedUnits limit.id ≤ ·))) ?_ ⟨rfl, .inl (Nat.le_refl _)⟩).2
  rintro ev s₁ _ (hsteady | rfl | rfl) he ⟨hsame, hle⟩
  · have hst := he.steady hsteady
    rw [hst.resourceLimit, claimedUnits_steady hst]
    exact ⟨hsame, hle⟩
  · rw [he.frame (by decide), claimedUnits, he.frame (by decide)]
    exact ⟨hsame, hle⟩
  · rw [he.frame (by decide)]
    refine ⟨hsame, ?_⟩
    have hlimit₁ : limit ∈ s₁ .resourceLimit := by rwa [hsame]
    rcases claimedUnits_of_claimAdmitted he hlimit₁ with hle' | hmax
    · refine hle.imp hle'.trans fun hmax => ?_
      rw [Option.all_eq_true] at hmax ⊢
      exact fun n hn => decide_eq_true (hle'.trans (of_decide_eq_true (hmax n hn)))
    · exact .inr hmax

/-! ### Admission capacity -/

/-- The steps of an objective installation whose slots are not reconfigured. -/
def Label.keepsSlots (s : DB) (l : Label) : Bool :=
  l.startsObjective s && !(l.operation matches .configureHostHarness _ _)

theorem ne_slotConfigured_of_emits (hl : l.keepsSlots s) (h : l.Emits s ev) :
    ev ≠ .slotConfigured := by
  rintro rfl
  obtain ⟨id, _, hop⟩ := h.comesFrom
  simp [Label.keepsSlots, hop] at hl

/-- What the executions whose stop is unconfirmed fit into. -/
structure DB.Fits (s : DB) : Prop where
  objective : s.AllObjective
  queued : s.Queued
  slots : s.SlotsFit
  categories : s.CategoriesFit
  workers : s.WorkersFit

theorem fits_of_reachable (h : controlPlane.ReachableBy (Label.keepsSlots · ·) s) : s.Fits := by
  refine invariant_of_events ?_ ?_ h
  · exact ⟨fun _ h => absurd h notMem_empty, fun _ h => absurd h notMem_empty,
      fun _ h => absurd h notMem_empty, fun _ h => absurd h notMem_empty,
      fun _ h => absurd h notMem_empty⟩
  · rintro _ l hl ev hev _ _ hs₁ he ⟨ho, hq, hs, hcat, hw⟩
    have hc := hs₁.consistent
    have hne := ne_slotConfigured_of_emits hl hev
    refine ⟨ho.effect he ?_, hq.effect hc he, hs.effect hc he hne, hcat.effect hc he,
      hw.effect hq ho hc he hne⟩
    rintro _ rfl
    exact objective_of_emits (Bool.and_eq_true_iff.mp hl).1 hev

/-- In an objective installation with fixed slots, the weight of the executions whose stop is
unconfirmed stays within their slots and their categories.  The workers on a slot leave what the
run admitting the last of them reserves for maintenance, and no admission pushes the units
claimed on a limit above its maximum. -/
theorem admission_capacity (h : controlPlane.ReachableBy (Label.keepsSlots · · = true) s) :
    (∀ row ∈ s .hostHarness,
      s.unconfirmedWeight (onSlot row.hostId row.harnessId) ≤ row.executionSlots)
    ∧ (∀ run ∈ s .run, ∀ name settings, run.queuePolicies.lookup name = some settings →
      s.unconfirmedWeight (s.inCategory run.id name) ≤ settings.slots)
    ∧ (∀ row ∈ s .hostHarness, s.unconfirmedWeight (s.isWorkerOn row.hostId row.harnessId) = 0
      ∨ ∃ e run, s.lastWorker row.hostId row.harnessId = some e ∧ s.admittingRun e = some run
        ∧ s.unconfirmedWeight (s.isWorkerOn row.hostId row.harnessId)
          ≤ max 1 (row.executionSlots - reservedSlots run))
    ∧ ∀ l s' hostId harnessIds, l.operation = .claim hostId harnessIds → controlPlane.step s l s' →
      ∀ limit ∈ s .resourceLimit, s'.claimedUnits limit.id ≤ s.claimedUnits limit.id
        ∨ limit.maximum.all (s'.claimedUnits limit.id ≤ ·) = true := by
  have hs := sound_of_reachable h
  have hc := hs.consistent
  have hf := fits_of_reachable h
  refine ⟨fun row hrow => ?_, fun run hrun name settings hp => ?_, fun row hrow => ?_,
    fun l s' hostId harnessIds hl hstep limit hlimit => claim_units_le hs hl hstep hlimit⟩
  · rw [hf.objective.unconfirmedWeight_eq hc]
    exact hf.slots row hrow
  · rw [hf.objective.unconfirmedWeight_eq hc]
    exact hf.categories run hrun (hf.objective run hrun) name settings hp
  · rw [hf.objective.unconfirmedWeight_eq hc]
    cases hlast : s.lastWorker row.hostId row.harnessId with
    | none =>
      have hnone := filter_eq_nil_iff.mp (getLast?_eq_none_iff.mp hlast)
      refine .inl (total_eq_zero fun e he => ?_)
      rw [Bool.eq_false_iff.mpr (hnone e he), Bool.false_and]
    | some e =>
      obtain ⟨a, ha⟩ := hc.assignmentOf (mem_of_mem_filter (mem_of_getLast? hlast))
      obtain ⟨run, hrun⟩ := hc.runOf ha
      have hadmitting : s.admittingRun e = some run := Option.bind_eq_some_iff.mpr ⟨a, ha, hrun⟩
      exact .inr ⟨e, run, rfl, hadmitting, hf.workers row hrow e run hlast hadmitting⟩

/-- Two workers on one slot, the second with a native child. -/
theorem admission_capacity_busy :
    ((outcomeBy Label.keepsSlots busy .execution).rows.map Execution.weight) = [1, 2]
      ∧ (∀ row ∈ outcomeBy Label.keepsSlots busy .hostHarness,
        (outcomeBy Label.keepsSlots busy).unconfirmedWeight
          (onSlot row.hostId row.harnessId) ≤ row.executionSlots) :=
  ⟨by decide +kernel, (admission_capacity (outcomeBy_reachable _ _)).1⟩

end Horizon
