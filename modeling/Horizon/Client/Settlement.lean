import Horizon.Client.Processes

/-!
# The settlement of intents

What holds of the intent journal whatever its client processes do: a mutation is not sent
before its intent is in the journal, requests without a key share the key of a pending intent,
and an intent that is no longer unresolved stays so.

The last transaction of `request` writes the status that its own answer calls for, whatever the
status of the intent is by then.  An answer that comes late therefore takes an intent back that
another process has completed (`late_failure_reopens`).  The results are about the runs in which
this does not happen, and in which no key is given that the journal has already forgotten
(`Clients.settles`).
-/

namespace Horizon

open Table List IntentJournal AgentIntent

variable {j : IntentJournal}

variable {requested : RequestKey}

variable {proc proc' : AgentProcess} {row : AgentIntent}

namespace IntentJournal

/-- Some intent with the key is pending. -/
def Pending (j : IntentJournal) (key : Id) : Prop :=
  ∃ row ∈ j.intents, row.id = key ∧ row.status = .pending

/-- A status may be written over the one that the intent of a key has: an intent that is no longer
unresolved stays so, and a rejected one becomes pending only while no other intent of the same
mutation is. -/
def admits (j : IntentJournal) (key : Id) (status : IntentStatus) : Bool :=
  match j.intents.find? key with
  | none => true
  | some row =>
    decide ((status.isUnresolved → row.status.isUnresolved)
      ∧ (status = .pending → row.status = .pending ∨ j.pendingOf row.mutation = []))

end IntentJournal

namespace Clients

variable (naming : ClientNaming) (s : Clients)

/-- A key that was used before still has its row when the journal has been pruned. -/
def retains (key : Id) : Bool :=
  decide (key ∈ s.journaled → (s.journal.prune.intents.find? key).isSome)

/-- The condition on a step of a process. -/
def actSettles (proc : AgentProcess) (step : ProcessStep) : Bool :=
  match step, proc.sending, proc.job with
  | .request _ (.given key) _, _, _ => s.retains key
  | .replayNext, _, .replay (item :: _) _ => decide (item.status = .rejected) || s.retains item.id
  | .repairObligation, _, .repair item _ _ _ => s.retains (naming.obligationKey item.id)
  | .repairDisposition, _, .repair item _ _ _ => s.retains (naming.dispositionKey item.id)
  | .settle, some c, _ =>
    match c.exchange with
    | .answered r => s.journal.admits c.key r.verdict
    | .unreachable => s.journal.admits c.key .pending
    | _ => true
  | _, _, _ => true

/-- The condition on a step: a status is written only over one that admits it, and a key that
is given explicitly is not that of an intent which the journal has deleted. -/
def settles : ClientStep → Bool
  | .act p step => (s.processes p).all fun proc => s.actSettles naming proc step
  | _ => true

variable {naming} {s s' : Clients} {p key : Id} {m : Mutation}

variable {step : ClientStep} {fresh : Id} {row' : AgentIntent}

/-! ## What a step does -/

/-- A process is sending a mutation under a key. -/
def Sends (s : Clients) (p key : Id) (m : Mutation) : Prop :=
  ∃ proc c, s.processes p = some proc ∧ proc.sending = some c ∧ c.key = key ∧ c.mutation = m

/-- How a step may change the status of an intent. -/
inductive Moves (s : Clients) : ClientStep → AgentIntent → IntentStatus → Prop
  | refl {step : ClientStep} {row : AgentIntent} : Moves s step row row.status
  | answer {p : Id} {proc : AgentProcess} {c : IntentCall} {r : Response} {row : AgentIntent} :
    s.processes p = some proc → proc.sending = some c → c.exchange = .answered r → row.id = c.key →
      Moves s (.act p .settle) row r.verdict
  | unreachable {p : Id} {proc : AgentProcess} {c : IntentCall} {row : AgentIntent} :
    s.processes p = some proc → proc.sending = some c → c.exchange = .unreachable → row.id = c.key →
      Moves s (.act p .settle) row .pending
  | start {p executionId : Id} {maxOfflineSeconds : Nat} {assignmentId : Option Id}
      {row : AgentIntent} :
    row.status = .rejected → row.response.any ResponseBody.contractRejection →
      Moves s (.start p executionId maxOfflineSeconds assignmentId) row .invalid
  | close {p : Id} {proc : AgentProcess} {item row : AgentIntent} {assignmentId : Id}
      {note : String} {resolved : RecordRef} {body : MutationBody} :
    s.processes p = some proc → proc.job = .repair item assignmentId note (.closing resolved body) →
      row.id = item.id → Moves s (.act p .repairClose) row .resolved

/-- The effect of a step: either it changes statuses, or it begins one request. -/
inductive Effect (s : Clients) (step : ClientStep) (s' : Clients) : Prop
  | amends {status : AgentIntent → IntentStatus} :
    s.journal.Amends s'.journal status →
      (∀ row ∈ s.journal.intents, s.Moves step row (status row)) →
      s'.journaled = s.journaled → s.now ≤ s'.now →
      (∀ q key m, s'.Sends q key m → s.Sends q key m) → Effect s step s'
  | begins {key executionId : Id} {m : Mutation} :
    s.retains key → (∀ row ∈ s.journal.intents, row.id = key → row.mutation = m) →
      s'.journal = s.journal.prune.insertOrIgnore
        { id := key, executionId, mutation := m, createdAt := s.now } →
      s'.journaled = key :: s.journaled → s'.now = s.now →
      (∀ q key' m', s'.Sends q key' m' → s.Sends q key' m' ∨ key' = key ∧ m' = m) → Effect s step s'

theorem put_processes_self : (s.put p proc).processes p = some proc :=
  Function.update_self _ _ _

theorem put_processes_of_ne {q : Id} (h : q ≠ p) : (s.put p proc).processes q = s.processes q :=
  Function.update_of_ne h _ _

/-- What is sent after a process has changed. -/
theorem sends_of_put {q : Id} (hput : s'.processes = (s.put p proc).processes)
    (h : s'.Sends q key m) :
    s.Sends q key m ∨ q = p ∧ ∃ c, proc.sending = some c ∧ c.key = key ∧ c.mutation = m := by
  obtain ⟨proc₀, c, hproc₀, hsend, hkey, hm⟩ := h
  rw [hput] at hproc₀
  by_cases hq : q = p
  · subst hq
    cases put_processes_self.symm.trans hproc₀
    exact .inr ⟨rfl, c, hsend, hkey, hm⟩
  · exact .inl ⟨proc₀, c, (put_processes_of_ne hq).symm.trans hproc₀, hsend, hkey, hm⟩

/-- A process goes on with what it was sending, or with nothing. -/
theorem sends_of_put_same (hproc : s.processes p = some proc)
    (hput : s'.processes = (s.put p proc').processes) (hsend : ∀ c', proc'.sending = some c' →
      ∃ c, proc.sending = some c ∧ c.key = c'.key ∧ c.mutation = c'.mutation) :
    ∀ q key m, s'.Sends q key m → s.Sends q key m := by
  intro q key m h
  rcases sends_of_put hput h with h | ⟨rfl, c', hc', rfl, rfl⟩
  · exact h
  · obtain ⟨c, hc, hkey, hm⟩ := hsend c' hc'
    exact ⟨proc, c, hproc, hc, hkey, hm⟩

/-- A step of a process that leaves the intents alone. -/
theorem Effect.of_put (hproc : s.processes p = some proc) (hsend : ∀ c', proc'.sending = some c' →
      ∃ c, proc.sending = some c ∧ c.key = c'.key ∧ c.mutation = c'.mutation) :
    s.Effect step (s.put p proc') :=
  .amends (.of_intents_eq rfl) (fun _ _ => .refl) rfl le_rfl (sends_of_put_same hproc rfl hsend)

theorem exchangeStep_effect {c : IntentCall} {step : ProcessStep}
    (hproc : s.processes p = some proc) (hc : proc.sending = some c)
    (h : s.exchangeStep p proc c step = some s') : s.Effect (.act p step) s' := by
  have hsame : ∀ (e : Exchange) (c' : IntentCall), some { c with exchange := e } = some c' →
      ∃ c₀, proc.sending = some c₀ ∧ c₀.key = c'.key ∧ c₀.mutation = c'.mutation := by
    rintro e _ ⟨⟩
    exact ⟨c, hc, rfl, rfl⟩
  cases step with
  | send | answer r | lose =>
    rw [exchangeStep] at h
    split at h
    · cases h
      exact .of_put hproc (hsame _)
    · cases h
  | settle =>
    rw [exchangeStep] at h
    split at h
    · rename_i r hr
      cases h
      refine .amends (settleIntent_amends _ _) (fun row _ => ?_) rfl le_rfl
        (sends_of_put_same hproc rfl nofun)
      split
      · exact .answer hproc hc hr ‹_›
      · exact .refl
    · rename_i hr
      cases h
      refine .amends (deferIntent_amends _) (fun row _ => ?_) rfl le_rfl
        (sends_of_put_same hproc rfl nofun)
      split
      · exact .unreachable hproc hc hr ‹_›
      · exact .refl
    · cases h
  | _ => cases h

/-- A request is begun, or the process goes on without it. -/
theorem request_effect (proc' : AgentProcess) {forceRetry : Bool}
    {refused : RequestError → Option Job}
    (hproc : s.processes p = some proc) (hidle : proc'.sending = none)
    (hretains : s.retains (s.journal.requestKey m requested fresh))
    (h : s.request naming p proc' m requested fresh forceRetry refused = some s') :
    s.Effect step s' := by
  rw [request] at h
  split at h
  · rename_i key journal hbegin
    cases h
    obtain ⟨hkey, hmutation, hjournal⟩ := beginRequest_eq_ok hbegin
    refine .begins (hkey ▸ hretains) hmutation hjournal rfl rfl fun q _ m' hsends => ?_
    rcases sends_of_put rfl hsends with hsends | ⟨-, _, ⟨⟩, rfl, rfl⟩
    · exact .inl hsends
    · exact .inr ⟨rfl, rfl⟩
  · obtain ⟨job, -, rfl⟩ := Option.map_eq_some_iff.mp h
    refine .of_put hproc fun c' hc' => ?_
    cases hidle.symm.trans hc'

/-- The key that a request without one chooses is retained. -/
theorem retains_requestKey (hfresh : fresh ∉ s.journaled)
    (hgiven : ∀ key, requested = .given key → s.retains key) :
    s.retains (s.journal.requestKey m requested fresh) := by
  have hnew : s.retains fresh := decide_eq_true fun h => absurd h hfresh
  cases requested with
  | blank => exact hnew
  | given key => exact hgiven key rfl
  | absent =>
    rw [requestKey]
    cases hrow : s.journal.oldestPending m with
    | none => exact hnew
    | some row =>
      refine decide_eq_true fun _ => ?_
      obtain ⟨hmem, hpending⟩ := mem_of_oldestPending hrow
      obtain ⟨_, hrow', hstamp, -⟩ := prune_amends.kept hmem (by rw [hpending.2]; rfl)
      exact Option.isSome_of_mem (find?_eq_some.mpr ⟨hrow', congrArg Prod.fst hstamp⟩)

section

variable (hproc : s.processes p = some proc) (hidle : proc.sending = none)

include hproc hidle

theorem callStep_effect {step : ProcessStep} (hguard : s.actSettles naming proc step)
    (h : s.callStep naming p proc step = some s') : s.Effect (.act p step) s' := by
  cases step with
  | request m _ _ =>
    rw [callStep] at h
    split at h
    · cases h
    · rename_i hfresh
      refine request_effect proc hproc hidle (retains_requestKey hfresh ?_) h
      rintro key rfl
      exact hguard
  | replay _ =>
    rw [callStep] at h
    split at h
    · cases h
      exact .of_put hproc fun c' hc' => ⟨c', hc', rfl, rfl⟩
    · cases h
  | observe =>
    cases h
    exact .amends (.of_intents_eq (recoveryState_intents _)) (fun _ _ => .refl) rfl le_rfl
      fun q key m h => h
  | resolve key _ =>
    rw [callStep] at h
    split at h
    · split at h
      · cases h
        exact .of_put hproc fun c' hc' => ⟨c', hc', rfl, rfl⟩
      · cases h
    · cases h
  | _ => cases h

theorem replayStep_effect {items : List AgentIntent} {report : ReplayReport} {step : ProcessStep}
    (hjob : proc.job = .replay items report) (hguard : s.actSettles naming proc step)
    (h : s.replayStep naming p proc items report step = some s') : s.Effect (.act p step) s' := by
  cases step with
  | replayNext =>
    cases items with
    | nil => cases h
    | cons item rest =>
      rw [replayStep] at h
      split at h
      · cases h
        exact .of_put hproc fun c' hc' => ⟨c', hc', rfl, rfl⟩
      · rename_i hstatus
        refine request_effect { proc with job := .replay rest report } hproc hidle ?_ h
        unfold actSettles at hguard
        rw [hjob] at hguard
        rw [Bool.or_eq_true, decide_eq_true_eq] at hguard
        exact hguard.resolve_left hstatus
  | replayEnd =>
    cases items with
    | nil =>
      cases h
      exact .of_put hproc fun c' hc' => ⟨c', hc', rfl, rfl⟩
    | cons item rest => cases h
  | _ => cases h

theorem repairStep_effect {item : AgentIntent} {assignmentId : Id} {note : String}
    {stage : RepairStage} {step : ProcessStep}
    (hjob : proc.job = .repair item assignmentId note stage)
    (hguard : s.actSettles naming proc step)
    (h : s.repairStep naming p proc item assignmentId note stage step = some s') :
    s.Effect (.act p step) s' := by
  unfold repairStep at h
  split at h
  · cases h
    exact .of_put hproc fun c' hc' => ⟨c', hc', rfl, rfl⟩
  · refine request_effect proc hproc hidle ?_ h
    unfold actSettles at hguard
    rw [hjob] at hguard
    exact hguard
  · cases h
    exact .of_put hproc fun c' hc' => ⟨c', hc', rfl, rfl⟩
  · refine request_effect proc hproc hidle ?_ h
    unfold actSettles at hguard
    rw [hjob] at hguard
    exact hguard
  · cases h
    refine .amends (closeIntent_amends _) (fun row _ => ?_) rfl le_rfl
      (sends_of_put_same hproc rfl fun c' hc' => ⟨c', hc', rfl, rfl⟩)
    split
    · rename_i hrow
      rw [Bool.and_eq_true, decide_eq_true_eq] at hrow
      exact .close hproc hjob hrow.1
    · exact .refl
  · cases h

end

/-- What a step does. -/
theorem next_effect (hguard : s.settles naming step)
    (h : s.next naming step = some s') : s.Effect step s' := by
  cases step with
  | tick _ =>
    cases h
    exact .amends (.of_intents_eq rfl) (fun _ _ => .refl) rfl
      (Int.le_add_of_nonneg_right (Int.natCast_nonneg _)) fun q key m h => h
  | start p _ _ _ =>
    rw [next] at h
    split at h
    · cases h
    · obtain ⟨_, hjournal, rfl⟩ := Option.map_eq_some_iff.mp h
      refine .amends (start_amends hjournal) (fun row _ => ?_) rfl le_rfl
        fun q key m hsends => ?_
      · split
        · rename_i hrow
          rw [Bool.and_eq_true, decide_eq_true_eq] at hrow
          exact .start hrow.1 hrow.2
        · exact .refl
      · rcases sends_of_put rfl hsends with hsends | ⟨-, _, ⟨⟩, -⟩
        exact hsends
  | exit p =>
    cases h
    refine .amends (.of_intents_eq rfl) (fun _ _ => .refl) rfl le_rfl fun q key m hsends => ?_
    obtain ⟨proc, c, hproc, hc⟩ := hsends
    dsimp only at hproc
    rw [Function.update_apply] at hproc
    split at hproc
    · cases hproc
    · exact ⟨proc, c, hproc, hc⟩
  | act p step =>
    obtain ⟨proc, hproc, h⟩ := Option.bind_eq_some_iff.mp h
    rw [settles, hproc, Option.all_some] at hguard
    rw [act] at h
    split at h
    · exact exchangeStep_effect hproc ‹_› h
    · rename_i hidle
      split at h
      · exact callStep_effect hproc hidle hguard h
      · exact replayStep_effect hproc hidle ‹_› hguard h
      · exact repairStep_effect hproc hidle ‹_› hguard h

/-! ## Guarded steps -/

/-- What a step that meets the condition does to the table: statuses change as they may, and one
row under a key that was never used may be appended. -/
structure Grows (s s' : Clients) (j : IntentJournal) (status : AgentIntent → IntentStatus)
    (new : Option AgentIntent) : Prop where
  amends : s.journal.Amends j status
  unresolved : ∀ row ∈ s.journal.intents, (status row).isUnresolved → row.status.isUnresolved
  /-- An intent that becomes pending is then the only one of its mutation. -/
  pending : ∀ row ∈ s.journal.intents, status row = .pending → row.status = .pending ∨
    ∀ row' ∈ s'.journal.pendingOf row.mutation, row'.id = row.id
  rows : s'.journal.intents.rows = j.intents.rows ++ new.toList
  new_id : ∀ row ∈ new, row.id ∉ s.journaled ∧ row.id ∈ s'.journaled
  new_createdAt : ∀ row ∈ new, row.createdAt = s.now
  journaled : s.journaled ⊆ s'.journaled
  now : s.now ≤ s'.now

theorem admits_eq_true {status : IntentStatus} (hrow : row ∈ j.intents)
    (h : j.admits row.id status) : (status.isUnresolved → row.status.isUnresolved) ∧
      (status = .pending → row.status = .pending ∨ j.pendingOf row.mutation = []) := by
  rw [admits, find?_key hrow] at h
  exact of_decide_eq_true h

/-- A status is written only over one that admits it. -/
theorem Moves.admitted {status : IntentStatus}
    (h : s.Moves step row status) (hguard : s.settles naming step)
    (hrow : row ∈ s.journal.intents) :
    (status.isUnresolved → row.status.isUnresolved) ∧
      (status = .pending → row.status = .pending ∨ s.journal.pendingOf row.mutation = []) := by
  cases h with
  | refl => exact ⟨fun h => h, .inl⟩
  | answer hproc hc hr hid | unreachable hproc hc hr hid =>
    rw [settles, hproc, Option.all_some] at hguard
    unfold actSettles at hguard
    simp only [hc, hr] at hguard
    exact admits_eq_true hrow (hid ▸ hguard)
  | start | close => exact ⟨nofun, nofun⟩

/-- An intent becomes pending by the request that was sent for it. -/
theorem Moves.pending_inv {status : IntentStatus}
    (h : s.Moves step row status) (hpending : status = .pending) :
    row.status = .pending ∨ ∃ p proc c, step = .act p .settle ∧ s.processes p = some proc ∧
      proc.sending = some c ∧ row.id = c.key := by
  cases h with
  | refl => exact .inl hpending
  | answer hproc hc _ hid | unreachable hproc hc _ hid => exact .inr ⟨_, _, _, rfl, hproc, hc, hid⟩
  | start | close => cases hpending

/-- At most one intent becomes pending in a step. -/
theorem Moves.reopens {row₁ : AgentIntent} {status status₁ : IntentStatus}
    (h : s.Moves step row status) (hpending : status = .pending) (hne : row.status ≠ .pending)
    (h₁ : s.Moves step row₁ status₁) (hpending₁ : status₁ = .pending) :
    row₁.status = .pending ∨ row₁.id = row.id := by
  obtain ⟨p, _, c, rfl, hproc, hc, hid⟩ := (h.pending_inv hpending).resolve_left hne
  refine (h₁.pending_inv hpending₁).imp_right ?_
  rintro ⟨q, _, _, hstep, hproc₁, hc₁, hid₁⟩
  cases hstep
  cases hproc.symm.trans hproc₁
  cases hc.symm.trans hc₁
  exact hid₁.trans hid.symm

theorem insertOrIgnore_rows (j : IntentJournal) (row : AgentIntent) :
    (j.insertOrIgnore row).intents.rows = j.intents.rows ∧ (j.intents.find? row.id).isSome ∨
      (j.insertOrIgnore row).intents.rows = j.intents.rows ++ [row]
      ∧ j.intents.find? row.id = none := by
  rw [insertOrIgnore]
  cases hnew : j.intents.insertNew row with
  | none =>
    refine .inl ⟨rfl, ?_⟩
    rw [Option.isSome_iff_ne_none]
    intro hnone
    have := insertNew_eq_some.mpr ⟨find?_eq_none.mp hnone, rfl⟩
    cases hnew.symm.trans this
  | some T =>
    obtain ⟨hkey, rfl⟩ := insertNew_eq_some.mp hnew
    exact .inr ⟨rfl, find?_eq_none.mpr hkey⟩

theorem mem_insertOrIgnore : row' ∈ (j.insertOrIgnore row).intents → row' ∈ j.intents
      ∨ row' = row := by
  intro h
  rw [mem_def] at h
  obtain ⟨hrows, -⟩ | ⟨hrows, -⟩ := insertOrIgnore_rows j row
  · rw [hrows] at h
    exact .inl h
  · rw [hrows, mem_append, mem_singleton] at h
    exact h

theorem mem_insertOrIgnore_of_mem (h : row' ∈ j.intents) :
    row' ∈ (j.insertOrIgnore row).intents := by
  rw [mem_def]
  obtain ⟨hrows, -⟩ | ⟨hrows, -⟩ := insertOrIgnore_rows j row
  · rw [hrows]
    exact h
  · rw [hrows]
    exact mem_append_left _ h

/-- A request that was begun has its own mutation in its row. -/
theorem mutation_of_insertOrIgnore
    (h : ∀ r ∈ s.journal.intents, r.id = row.id → r.mutation = row.mutation)
    (hrow' : row' ∈ (s.journal.prune.insertOrIgnore row).intents) (hid : row'.id = row.id) :
    row'.mutation = row.mutation := by
  rcases mem_insertOrIgnore hrow' with hrow' | rfl
  · obtain ⟨r, hr, hstamp, -⟩ := prune_amends.origin row' hrow'
    obtain ⟨hid', hm, -⟩ := stamp_eq_iff.mp hstamp
    rw [hm]
    exact h r hr (hid'.symm.trans hid)
  · rfl

theorem Effect.grows (h : s.Effect step s') (hguard : s.settles naming step) :
    ∃ j status new, s.Grows s' j status new := by
  cases h with
  | amends hamends hmoves hjournaled hnow _ =>
    refine ⟨s'.journal, _, none, hamends, fun row hrow => ?_, fun row hrow => ?_, by simp,
      fun _ h => ?_, fun _ h => ?_, hjournaled.symm ▸ Subset.refl _, hnow⟩
    · exact ((hmoves row hrow).admitted hguard hrow).1
    · intro hpending
      by_cases hwas : row.status = .pending
      · exact .inl hwas
      refine .inr fun row' hrow' => ?_
      have hnone := (((hmoves row hrow).admitted hguard hrow).2 hpending).resolve_left hwas
      obtain ⟨hmem, hmut, hstatus⟩ := mem_pendingOf.mp hrow'
      obtain ⟨row₁, hrow₁, hstamp, heq⟩ := hamends.origin row' hmem
      obtain ⟨hid, hmut₁, -⟩ := stamp_eq_iff.mp hstamp
      rcases (hmoves row hrow).reopens hpending hwas (hmoves row₁ hrow₁)
        (heq.symm.trans hstatus) with
        hwas₁ | hid₁
      · have := mem_pendingOf.mpr ⟨hrow₁, hmut₁.symm.trans hmut, hwas₁⟩
        rw [hnone] at this
        cases this
      · exact hid.trans hid₁
    · cases h
    · cases h
  | @begins key executionId m hretains _ hjournal hjournaled hnow _ =>
    have hsub : s.journaled ⊆ s'.journaled := by
      rw [hjournaled]
      exact subset_cons_self _ _
    obtain ⟨hrows, -⟩ | ⟨hrows, hnone⟩ := insertOrIgnore_rows s.journal.prune
      { id := key, executionId, mutation := m, createdAt := s.now }
    · refine ⟨s.journal.prune, _, none, prune_amends, fun _ _ h => h, fun _ _ h => .inl h,
        ?_, fun _ h => ?_, fun _ h => ?_, hsub, hnow.ge⟩
      · rw [hjournal, hrows, Option.toList_none, append_nil]
      · cases h
      · cases h
    · refine ⟨s.journal.prune, _, some _, prune_amends, fun _ _ h => h,
        fun _ _ h => .inl h, hjournal ▸ hrows, ?_, ?_, hsub, hnow.ge⟩
      · rintro _ ⟨⟩
        refine ⟨fun hmem => ?_, by rw [hjournaled]; exact mem_cons_self⟩
        have hsome := of_decide_eq_true hretains hmem
        rw [hnone] at hsome
        cases hsome
      · rintro _ ⟨⟩
        rfl

variable {status : AgentIntent → IntentStatus} {new : Option AgentIntent}

/-- Where a row comes from. -/
theorem Grows.origin (h : s.Grows s' j status new) (hrow' : row' ∈ s'.journal.intents) :
    new = some row' ∨
      ∃ row ∈ s.journal.intents, row'.stamp = row.stamp ∧ row'.status = status row := by
  rw [mem_def, h.rows, mem_append, Option.mem_toList] at hrow'
  rcases hrow' with hrow' | hnew
  · exact .inr (h.amends.origin row' hrow')
  · exact .inl hnew

/-- An intent that is unresolved was so before, or is new. -/
theorem Grows.unresolved_of (h : s.Grows s' j status new) (hkey : key ∈ s.journaled)
    (hunresolved : s'.journal.Unresolved key) : s.journal.Unresolved key := by
  obtain ⟨row', hrow', rfl, hstatus⟩ := hunresolved
  rcases h.origin hrow' with hnew | ⟨row, hrow, hstamp, heq⟩
  · exact absurd hkey (h.new_id row' hnew).1
  · exact ⟨row, hrow, (congrArg Prod.fst hstamp).symm, h.unresolved row hrow (heq ▸ hstatus)⟩

theorem Grows.mutation_eq (h : s.Grows s' j status new) (hkey : key ∈ s.journaled)
    (hm : ∀ row ∈ s.journal.intents, row.id = key → row.mutation = m) :
    ∀ row' ∈ s'.journal.intents, row'.id = key → row'.mutation = m := by
  rintro row' hrow' rfl
  rcases h.origin hrow' with hnew | ⟨row, hrow, hstamp, -⟩
  · exact absurd hkey (h.new_id row' hnew).1
  · obtain ⟨hid, hmut, -⟩ := stamp_eq_iff.mp hstamp
    rw [hmut]
    exact hm row hrow hid.symm

/-- What holds of the journal and of the requests in every state. -/
structure Wf (s : Clients) : Prop where
  /-- The keys of the table have been used. -/
  journaled : ∀ row ∈ s.journal.intents, row.id ∈ s.journaled
  /-- The table is in the order of creation. -/
  sorted : s.journal.intents.rows.Pairwise fun r r' => r.createdAt ≤ r'.createdAt
  past : ∀ row ∈ s.journal.intents, row.createdAt ≤ s.now
  /-- What is sent has been journaled. -/
  sends : ∀ p key m, s.Sends p key m →
    key ∈ s.journaled ∧ ∀ row ∈ s.journal.intents, row.id = key → row.mutation = m

theorem Wf.next (hs : s.Wf) (hguard : s.settles naming step)
    (h : s.next naming step = some s') : s'.Wf := by
  have heffect := next_effect hguard h
  obtain ⟨j, _, new, hgrows⟩ := heffect.grows hguard
  refine ⟨fun row' hrow' => ?_, ?_, fun row' hrow' => ?_, fun p key m hsends => ?_⟩
  · rcases hgrows.origin hrow' with hnew | ⟨row, hrow, hstamp, -⟩
    · exact (hgrows.new_id row' hnew).2
    · rw [(stamp_eq_iff.mp hstamp).1]
      exact hgrows.journaled (hs.journaled row hrow)
  · rw [hgrows.rows, pairwise_append]
    refine ⟨hgrows.amends.sorted hs.sorted, ?_, fun row' hrow' r hr => ?_⟩
    · cases new <;> simp
    · obtain ⟨row, hrow, hstamp, -⟩ := hgrows.amends.origin row' hrow'
      rw [(stamp_eq_iff.mp hstamp).2.2,
        hgrows.new_createdAt r (Option.mem_toList.mp hr)]
      exact hs.past row hrow
  · rcases hgrows.origin hrow' with hnew | ⟨row, hrow, hstamp, -⟩
    · rw [hgrows.new_createdAt row' hnew]
      exact hgrows.now
    · rw [(stamp_eq_iff.mp hstamp).2.2]
      exact (hs.past row hrow).trans hgrows.now
  · cases heffect with
    | amends _ _ hjournaled _ hold =>
      obtain ⟨hkey, hm⟩ := hs.sends p key m (hold p key m hsends)
      exact ⟨hgrows.journaled hkey, hgrows.mutation_eq hkey hm⟩
    | begins _ hm hjournal hjournaled _ hold =>
      rcases hold p key m hsends with hold | ⟨rfl, rfl⟩
      · obtain ⟨hkey, hm⟩ := hs.sends p key m hold
        exact ⟨hgrows.journaled hkey, hgrows.mutation_eq hkey hm⟩
      · refine ⟨by rw [hjournaled]; exact mem_cons_self, fun row' hrow' hid => ?_⟩
        rw [hjournal] at hrow'
        exact mutation_of_insertOrIgnore hm hrow' hid

/-! ## Sharing a key -/

/-- The intent of a key is the first of the pending ones of a mutation. -/
def Oldest (s : Clients) (key : Id) (m : Mutation) : Prop :=
  ∃ row rest, s.journal.pendingOf m = row :: rest ∧ row.id = key

theorem Oldest.requestKey (h : s.Oldest key m) (hs : s.Wf) (fresh : Id) :
    s.journal.requestKey m .absent fresh = key := by
  obtain ⟨row, _, hrows, rfl⟩ := h
  have hsorted : (s.journal.pendingOf m).Pairwise fun r r' => r.createdAt ≤ r'.createdAt :=
    hs.sorted.filter _
  rw [requestKey, oldestPending, hsorted.insertionSort_eq, hrows]
  rfl

theorem oldest_of_forall (hpending : s.journal.Pending key)
    (hmutation : ∀ row ∈ s.journal.intents, row.id = key → row.mutation = m)
    (h : ∀ row ∈ s.journal.pendingOf m, row.id = key) : s.Oldest key m := by
  obtain ⟨row, hrow, hid, hstatus⟩ := hpending
  have hmem := mem_pendingOf.mpr ⟨hrow, hmutation row hrow hid, hstatus⟩
  obtain ⟨first, rest, hrows⟩ := exists_cons_of_ne_nil (ne_nil_of_mem hmem)
  exact ⟨first, rest, hrows, h first (hrows ▸ mem_cons_self)⟩

/-- As long as no intent of a mutation becomes pending, those that are keep their order. -/
theorem Grows.pendingOf_sublist (h : s.Grows s' j status new)
    (hstill : ∀ row ∈ s.journal.intents, row.mutation = m → status row = .pending →
      row.status = .pending) :
    ((s'.journal.pendingOf m).map AgentIntent.id).Sublist
      ((s.journal.pendingOf m).map AgentIntent.id ++ new.toList.map AgentIntent.id) := by
  obtain ⟨keep, f, hrows, hf⟩ := h.amends
  rw [pendingOf, h.rows, filter_append, map_append, hrows, filter_map,
    map_map]
  refine Sublist.append ?_ (filter_sublist.map _)
  have hid : AgentIntent.id ∘ f = AgentIntent.id :=
    funext fun row => (stamp_eq_iff.mp (hf row).1).1
  rw [hid]
  refine Sublist.map _ ?_
  -- a row that is pending now was so before, so the filter of the old list changes nothing
  rw [filter_filter, filter_congr (q := fun row => decide ((f row).mutation = m ∧
    (f row).status = .pending) && keep row && decide (row.mutation = m ∧ row.status = .pending)),
    ← filter_filter]
  · exact filter_sublist
  · intro row hrow
    have hmutation := (stamp_eq_iff.mp (hf row).1).2.1
    by_cases hnow : (f row).mutation = m ∧ (f row).status = .pending
    · have hwas : row.mutation = m ∧ row.status = .pending := by
        rw [hmutation, (hf row).2.1] at hnow
        exact ⟨hnow.1, hstill row hrow hnow.1 hnow.2⟩
      simp [hnow, hwas]
    · simp [hnow]

/-- The key of a request stands for its mutation, and is the oldest whenever it is pending. -/
structure Shared (s : Clients) (key : Id) (m : Mutation) : Prop where
  journaled : key ∈ s.journaled
  mutation : ∀ row ∈ s.journal.intents, row.id = key → row.mutation = m
  oldest : s.journal.Pending key → s.Oldest key m

theorem Shared.grows (h : s.Shared key m) (hgrows : s.Grows s' j status new) : s'.Shared key m := by
  refine ⟨hgrows.journaled h.journaled, hgrows.mutation_eq h.journaled h.mutation,
    fun hpending => ?_⟩
  have hmutation := hgrows.mutation_eq h.journaled h.mutation
  obtain ⟨row', hrow', hid', hstatus'⟩ := hpending
  have hmem := mem_pendingOf.mpr ⟨hrow', hmutation row' hrow' hid', hstatus'⟩
  by_cases hreopens : ∃ r ∈ s.journal.intents, r.mutation = m ∧ status r = .pending
      ∧ r.status ≠ .pending
  · obtain ⟨r, hr, rfl, hpending, hne⟩ := hreopens
    have hall := (hgrows.pending r hr hpending).resolve_left hne
    refine oldest_of_forall ⟨row', hrow', hid', hstatus'⟩ hmutation fun row hrow => ?_
    rw [hall row hrow, ← hall row' hmem, hid']
  · have hstill : ∀ row ∈ s.journal.intents, row.mutation = m → status row = .pending →
        row.status = .pending := by
      intro row hrow hm hpending
      by_contra hne
      exact hreopens ⟨row, hrow, hm, hpending, hne⟩
    have hold : s.journal.Pending key := by
      rcases hgrows.origin hrow' with hnew | ⟨row, hrow, hstamp, heq⟩
      · exact absurd (hid' ▸ h.journaled) (hgrows.new_id row' hnew).1
      · have hid := (stamp_eq_iff.mp hstamp).1.symm.trans hid'
        exact ⟨row, hrow, hid, hstill row hrow (h.mutation row hrow hid) (heq.symm.trans hstatus')⟩
    obtain ⟨row, rest, hrows, rfl⟩ := h.oldest hold
    have hsub := hgrows.pendingOf_sublist hstill
    rw [hrows, map_cons, cons_append] at hsub
    have hnodup : ((row :: rest).map AgentIntent.id).Nodup := by
      rw [← hrows]
      exact s.journal.intents.nodup.sublist (filter_sublist.map _)
    have hnotMem : row.id ∉ rest.map AgentIntent.id ++ new.toList.map AgentIntent.id := by
      rw [mem_append, not_or]
      refine ⟨(nodup_cons.mp hnodup).1, fun hnew => ?_⟩
      obtain ⟨r, hr, hid⟩ := mem_map.mp hnew
      exact (hgrows.new_id r (Option.mem_toList.mp hr)).1 (hid ▸ h.journaled)
    have hmemId := mem_map_of_mem (f := AgentIntent.id) hmem
    rw [hid'] at hmemId
    cases hids : (s'.journal.pendingOf m).map AgentIntent.id with
    | nil => rw [hids] at hmemId; cases hmemId
    | cons _ _ =>
      rw [hids] at hsub hmemId
      cases hsub with
      | cons _ hsub => exact absurd (hsub.subset hmemId) hnotMem
      | cons_cons _ _ =>
        obtain ⟨row₁, rest₁, hrows₁, hid₁, -⟩ := map_eq_cons_iff.mp hids
        exact ⟨row₁, rest₁, hrows₁, hid₁⟩

/-- How a request without a key is begun. -/
theorem request_absent (h : s.next naming (.act p (.request m .absent fresh)) = some s') :
    ∃ executionId, s'.journal = s.journal.prune.insertOrIgnore
        { id := s.journal.requestKey m .absent fresh, executionId, mutation := m,
          createdAt := s.now } ∧
      ∀ key m', s'.Sends p key m' → key = s.journal.requestKey m .absent fresh := by
  obtain ⟨proc, _, h⟩ := Option.bind_eq_some_iff.mp h
  unfold act at h
  split at h
  · cases h
  split at h
  · rw [callStep] at h
    split at h
    · cases h
    rw [request] at h
    split at h
    · rename_i key journal hbegin
      cases h
      obtain ⟨rfl, -, hjournal⟩ := beginRequest_eq_ok hbegin
      refine ⟨proc.executionId, hjournal, fun _ m' hsends => ?_⟩
      obtain ⟨_, c, hproc', hc, rfl, -⟩ := hsends
      cases put_processes_self.symm.trans hproc'
      cases hc
      rfl
    · cases h
  · cases h
  · cases h

/-- The condition does not concern requests without a key. -/
theorem settles_absent (naming : ClientNaming) (s : Clients) (p fresh : Id) (m : Mutation) :
    s.settles naming (.act p (.request m .absent fresh)) := by
  cases hproc : s.processes p <;> simp [settles, hproc, actSettles]

/-- From a request without a key on, its key is shared. -/
theorem shared_of_request (hs : s.Wf)
    (h : s.next naming (.act p (.request m .absent fresh)) = some s') (hsends : s'.Sends p key m) :
    s'.Shared key m := by
  have hguard := settles_absent naming s p fresh m
  obtain ⟨_, hjournal, hkey⟩ := request_absent h
  have hs' := hs.next hguard h
  cases hpending : s.journal.pendingOf m with
  | cons row rest =>
    -- the key is that of the oldest pending intent, and was shared before
    have holdest : s.Oldest row.id m := ⟨row, rest, hpending, rfl⟩
    obtain rfl : key = row.id := (hkey key m hsends).trans (holdest.requestKey hs fresh)
    have hrow := mem_pendingOf.mp (hpending ▸ mem_cons_self)
    have hshared : s.Shared row.id m := by
      refine ⟨hs.journaled row hrow.1, fun r hr hid => ?_, fun _ => holdest⟩
      rw [eq_of_key hr hrow.1 hid]
      exact hrow.2.1
    obtain ⟨j, _, new, hgrows⟩ := (next_effect hguard h).grows hguard
    exact hshared.grows hgrows
  | nil =>
    -- the key is new, and no other intent of the mutation is pending
    obtain ⟨hjournaled, hmutation⟩ := hs'.sends p key m hsends
    refine ⟨hjournaled, hmutation, fun hstill =>
      oldest_of_forall hstill hmutation fun row hrow => ?_⟩
    obtain ⟨hmem, hm, hstatus⟩ := mem_pendingOf.mp hrow
    rw [hjournal] at hmem
    rcases mem_insertOrIgnore hmem with hmem | rfl
    · obtain ⟨r, hr, hstamp, heq⟩ := prune_amends.origin row hmem
      have : r ∈ s.journal.pendingOf m := mem_pendingOf.mpr
        ⟨hr, (stamp_eq_iff.mp hstamp).2.1.symm.trans hm, heq.symm.trans hstatus⟩
      rw [hpending] at this
      cases this
    · exact (hkey key m hsends).symm

/-! ## Leaving the unresolved set -/

/-- The ways in which an intent is closed: by a success, by a rejection without effect, or by hand.
-/
def Closes (s : Clients) (key : Id) : ClientStep → Prop
  | .act p .settle => ∃ proc c r, s.processes p = some proc ∧ proc.sending = some c ∧ c.key = key ∧
      c.exchange = .answered r ∧ (r.isSuccess ∨ r.invalidRequest)
  | .act p .repairClose => ∃ proc item assignmentId note stage, s.processes p = some proc ∧
      proc.job = .repair item assignmentId note stage ∧ item.id = key
  | .start _ _ _ _ => ∃ row ∈ s.journal.intents, row.id = key ∧ row.status = .rejected ∧
      row.response.any ResponseBody.contractRejection
  | _ => False

theorem Moves.closes {status : IntentStatus}
    (h : s.Moves step row status) (hrow : row ∈ s.journal.intents) (hwas : row.status.isUnresolved)
    (hnot : ¬ status.isUnresolved) : s.Closes row.id step := by
  cases h with
  | refl => exact absurd hwas hnot
  | @answer p proc c r _ hproc hc hr hid =>
    refine ⟨proc, c, r, hproc, hc, hid.symm, hr, ?_⟩
    cases hverdict : r.verdict with
    | completed => exact .inl (Response.verdict_eq_completed hverdict)
    | invalid => exact .inr (Response.verdict_eq_invalid hverdict)
    | resolved => exact absurd hverdict Response.verdict_ne_resolved
    | pending | rejected => rw [hverdict] at hnot; exact absurd rfl hnot
  | unreachable => exact absurd rfl hnot
  | start hrejected hresponse => exact ⟨row, hrow, rfl, hrejected, hresponse⟩
  | close hproc hjob hid => exact ⟨_, _, _, _, _, hproc, hjob, hid.symm⟩

theorem Effect.closes (h : s.Effect step s') (hwas : s.journal.Unresolved key)
    (hnot : ¬ s'.journal.Unresolved key) : s.Closes key step := by
  obtain ⟨row, hrow, rfl, hstatus⟩ := hwas
  cases h with
  | @amends _ hamends hmoves _ _ _ =>
    refine (hmoves row hrow).closes hrow hstatus fun hstill => hnot ?_
    obtain ⟨row', hrow', hstamp, heq⟩ := hamends.kept hrow hstill
    exact ⟨row', hrow', (stamp_eq_iff.mp hstamp).1, heq ▸ hstill⟩
  | begins _ _ hjournal _ _ _ =>
    refine absurd ?_ hnot
    obtain ⟨row', hrow', hstamp, heq⟩ := prune_amends.kept hrow hstatus
    refine ⟨row', ?_, (stamp_eq_iff.mp hstamp).1, heq ▸ hstatus⟩
    rw [hjournal]
    exact mem_insertOrIgnore_of_mem hrow'

theorem wf_initial : ({} : Clients).Wf where
  journaled _ h := absurd h notMem_empty
  sorted := .nil
  past _ h := absurd h notMem_empty
  sends := by
    rintro p key m ⟨_, c, hproc, -⟩
    cases hproc

theorem ReachableBy.wf (h : (agentClients naming).ReachableBy (settles naming · ·) s) : s.Wf := by
  refine h.invariant ?_ fun s _ s' hs hguard hstep => hs.next hguard hstep
  rintro _ rfl
  exact wf_initial

/-- An intent that is not unresolved any more stays so. -/
theorem RunsBy.settled (hrun : (agentClients naming).RunsBy (settles naming · ·) s s')
    (hkey : key ∈ s.journaled) (h : ¬ s.journal.Unresolved key) : ¬ s'.journal.Unresolved key := by
  have hboth := hrun.preserves (I := fun s => key ∈ s.journaled ∧ ¬ s.journal.Unresolved key)
    (fun s _ s' hs hguard hstep => ?_) ⟨hkey, h⟩
  · exact hboth.2
  · obtain ⟨j, _, new, hgrows⟩ := (next_effect hguard hstep).grows hguard
    exact ⟨hgrows.journaled hs.1, fun hunresolved => hs.2 (hgrows.unresolved_of hs.1 hunresolved)⟩

theorem RunsBy.shared (hrun : (agentClients naming).RunsBy (settles naming · ·) s s')
    (h : s.Shared key m) : s'.Shared key m := by
  refine hrun.preserves (I := (Shared · key m)) (fun s _ s' hs hguard hstep => ?_) h
  obtain ⟨j, _, new, hgrows⟩ := (next_effect hguard hstep).grows hguard
  exact hs.grows hgrows

end Clients

open Clients in
/-- The settlement of intents.  In every run that meets the condition: a request that is about to
be sent has its intent in the journal, unless the intent is settled already; an intent leaves the
unresolved ones only by a success, by a rejection that is known to have no effect or by hand, and
never returns; and a request without a key, made while the intent of an earlier one for the same
mutation is pending, has the same key. -/
theorem intents_settled {naming : ClientNaming} {s : Clients}
    (hs : (agentClients naming).ReachableBy (settles naming · ·) s) :
    (∀ p proc c n, s.processes p = some proc → proc.sending = some c → c.exchange = .ready n →
      (∃ row ∈ s.journal.intents, row.id = c.key ∧ row.mutation = c.mutation) ∨
        c.key ∈ s.journaled ∧ ¬ s.journal.Unresolved c.key) ∧
    (∀ step s' key, s.settles naming step → s.next naming step = some s' →
      s.journal.Unresolved key → ¬ s'.journal.Unresolved key →
        s.Closes key step ∧ ∀ s'', (agentClients naming).RunsBy (settles naming · ·) s' s'' →
          ¬ s''.journal.Unresolved key) ∧
    (∀ p m fresh s₁ key, s.next naming (.act p (.request m .absent fresh)) = some s₁ →
      s₁.Sends p key m → ∀ s₂, (agentClients naming).RunsBy (settles naming · ·) s₁ s₂ →
        s₂.journal.Pending key → ∀ p' fresh' s₃ key',
          s₂.next naming (.act p' (.request m .absent fresh')) = some s₃ → s₃.Sends p' key' m →
            key' = key) := by
  have hwf := ReachableBy.wf hs
  refine ⟨fun p proc c n hproc hc _ => ?_, fun step s' key hguard hstep hwas hnot => ?_,
    fun p m fresh s₁ key hstep hsends s₂ hrun hpending p' fresh' s₃ key' hstep' hsends' => ?_⟩
  · obtain ⟨hkey, hm⟩ := hwf.sends p c.key c.mutation ⟨proc, c, hproc, hc, rfl, rfl⟩
    by_cases hunresolved : s.journal.Unresolved c.key
    · obtain ⟨row, hrow, hid, -⟩ := hunresolved
      exact .inl ⟨row, hrow, hid, hm row hrow hid⟩
    · exact .inr ⟨hkey, hunresolved⟩
  · have heffect := next_effect hguard hstep
    refine ⟨heffect.closes hwas hnot, fun s'' hrun => RunsBy.settled hrun ?_ hnot⟩
    obtain ⟨row, hrow, rfl, -⟩ := hwas
    obtain ⟨j, _, new, hgrows⟩ := heffect.grows hguard
    exact hgrows.journaled (hwf.journaled row hrow)
  · have hshared := RunsBy.shared hrun (shared_of_request hwf hstep hsends)
    have hwf₂ : s₂.Wf :=
      ReachableBy.wf (hrun.reachable (.step hs (settles_absent naming s p fresh m) hstep))
    obtain ⟨-, -, hkey'⟩ := request_absent hstep'
    exact (hkey' key' m hsends').trans ((hshared.oldest hpending).requestKey hwf₂ fresh')

namespace Clients.Rivals

def naming : ClientNaming := ⟨fun _ => 2, fun key => 2 * key, fun key => 2 * key + 1⟩

def command : Mutation := ⟨.post, ["", "api", "v3", "commands"], .other 0⟩

/-- Two processes of the assignment are running. -/
def started : Clients :=
  System.replay (next naming) (settles naming)
    [.start 1 7 86400 (some 3), .start 2 8 86400 (some 3)] {}

/-- The first one has begun a request. -/
def begun : Clients :=
  (started.next naming (.act 1 (.request command .absent 11))).getD started

/-- It has met no server, and its intent waits to be retried. -/
def deferred : Clients :=
  System.replay (next naming) (settles naming)
    [ .act 1 .send, .act 1 .lose, .act 1 .send, .act 1 .lose, .act 1 .send, .act 1 .lose
    , .act 1 .settle, .tick 10 ] begun

/-- The second process joins the request, and both have an answer. -/
def joined : Clients :=
  System.replay (next naming) (settles naming)
    [ .act 1 .send, .act 2 (.request command .absent 13), .act 2 .send
    , .act 2 (.answer { statusCode := 200 }), .act 1 (.answer { statusCode := 503 }) ] begun

/-- The success is settled. -/
def completed : Clients := (joined.next naming (.act 2 .settle)).getD joined

theorem next_started : started.next naming (.act 1 (.request command .absent 11)) = some begun := by
  have hsome : (started.next naming (.act 1 (.request command .absent 11))).isSome := by
    decide +kernel
  exact (Option.eq_some_of_isSome hsome).trans (congrArg some (Option.get_eq_getD _))

theorem next_joined : joined.next naming (.act 2 .settle) = some completed := by
  have hsome : (joined.next naming (.act 2 .settle)).isSome := by decide +kernel
  exact (Option.eq_some_of_isSome hsome).trans (congrArg some (Option.get_eq_getD _))

theorem begun_reachable : (agentClients naming).ReachableBy (settles naming · ·) begun :=
  .step (System.replay_reachable _ _ _) (settles_absent _ _ _ _ _) next_started

end Clients.Rivals

open Clients Clients.Rivals in
/-- A second process takes up the key of an intent that waits to be retried. -/
theorem intents_settled_shared :
    ∃ s, deferred.next naming (.act 2 (.request command .absent 13)) = some s
      ∧ s.Sends 2 11 command := by
  have hbegun : (begun.processes 1).any (fun proc => proc.sending.any fun c =>
      decide (c.key = 11 ∧ c.mutation = command)) = true := by decide +kernel
  have hsecond : (deferred.next naming (.act 2 (.request command .absent 13))).any (fun s =>
      (s.processes 2).any fun proc => proc.sending.any fun c => decide (c.mutation = command))
        = true := by
    decide +kernel
  have hpending : deferred.journal.Pending 11 := by
    have : (deferred.journal.intents.find? 11).any
        (fun row => decide (row.status = .pending)) = true := by
      decide +kernel
    obtain ⟨row, hrow, hstatus⟩ := (Option.any_eq_true _ _).mp this
    obtain ⟨hmem, hid⟩ := find?_eq_some.mp hrow
    exact ⟨row, hmem, hid, of_decide_eq_true hstatus⟩
  obtain ⟨proc, hproc, h⟩ := (Option.any_eq_true _ _).mp hbegun
  obtain ⟨c, hc, hkey⟩ := (Option.any_eq_true _ _).mp h
  obtain ⟨hkey, hm⟩ := of_decide_eq_true hkey
  obtain ⟨s, hs, h'⟩ := (Option.any_eq_true _ _).mp hsecond
  obtain ⟨proc', hproc', h'⟩ := (Option.any_eq_true _ _).mp h'
  obtain ⟨c', hc', hm'⟩ := (Option.any_eq_true _ _).mp h'
  have hm' := of_decide_eq_true hm'
  have hreach : (agentClients naming).ReachableBy (settles naming · ·) started :=
    System.replay_reachable _ _ _
  have hshared := (intents_settled hreach).2.2 1 command 11 begun 11 next_started
    ⟨proc, c, hproc, hc, hkey, hm⟩ deferred (System.replay_runs _ _ _ _) hpending 2 13 s c'.key hs
    ⟨proc', c', hproc', hc', rfl, hm'⟩
  exact ⟨s, hs, proc', c', hproc', hc', hshared, hm'⟩

open Clients Clients.Rivals in
/-- An answer that is settled late makes an intent pending that was completed. -/
theorem late_failure_reopens :
    ∃ s s' s'' key, (agentClients naming).Reachable s ∧ s.journal.Unresolved key ∧
      s.next naming (.act 2 .settle) = some s' ∧ ¬ s'.journal.Unresolved key ∧
      s'.next naming (.act 1 .settle) = some s'' ∧ s''.journal.Pending key := by
  have hjoined : (joined.journal.intents.find? 11).any (·.status.isUnresolved) = true := by
    decide +kernel
  have hcompleted : (completed.journal.intents.rows.all (!·.status.isUnresolved)) = true := by
    decide +kernel
  have hlate : (completed.next naming (.act 1 .settle)).any (fun s =>
      (s.journal.intents.find? 11).any fun row => decide (row.status = .pending)) = true := by
        decide +kernel
  obtain ⟨row, hrow, hstatus⟩ := (Option.any_eq_true _ _).mp hjoined
  obtain ⟨s'', hs'', h⟩ := (Option.any_eq_true _ _).mp hlate
  obtain ⟨row'', hrow'', hpending⟩ := (Option.any_eq_true _ _).mp h
  obtain ⟨hmem, hid⟩ := find?_eq_some.mp hrow
  obtain ⟨hmem'', hid''⟩ := find?_eq_some.mp hrow''
  refine ⟨joined, completed, s'', 11, ?_, ⟨row, hmem, hid, hstatus⟩, next_joined, ?_, hs'',
    ⟨row'', hmem'', hid'', of_decide_eq_true hpending⟩⟩
  · exact ((System.replay_runs _ _ _ _).reachable begun_reachable).reachable
  · rintro ⟨row', hmem', -, hstatus'⟩
    have := all_eq_true.mp hcompleted row' hmem'
    rw [hstatus'] at this
    cases this

end Horizon
