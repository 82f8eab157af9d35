import Horizon.Integrations.Outbox

/-!
# External deliveries happen at most once

What one step of the outbox, of a connector process or of the remote side can do is said
once, by `Outbox.Change`.  Every interleaving of them, with crashes, lost answers, expired
leases and operator commands, keeps `Outbox.Safe`: one attempt at most may send an
operation, it waits for every request whose fate is open, and an operation that may be sent
next is quiet.  From this follows `at_most_once`.  The labels of a created item are set
again by whoever finds it; they stand outside of this.
-/

namespace Horizon

open Table List

variable {maxAttempts backoff : Nat} {attemptId id owner : Id} {f : Delivery → Delivery}
  {failure : ConnectorFailure} {code : String} {state : RequestState} {r : RemoteRequest}

/-! ## Requests, attempts and operations -/

/-- Whether it is known what has become of a request. -/
def RequestState.isSettled : RequestState → Bool
  | .applied | .refused | .absent => true
  | .inflight | .lost => false

/-- Whether a request may have had, or may still have, an effect. -/
def RequestState.isLive : RequestState → Bool
  | .inflight | .applied | .lost => true
  | .refused | .absent => false

/-- The statuses from which an operation may be claimed to be sent. -/
def DeliveryStatus.isIdle : DeliveryStatus → Bool
  | .pending | .failed | .cancelled => true
  | .running | .completed | .uncertain => false

/-- An attempt that may send the request of its operation. -/
structure Attempt.IsSender (a : Attempt) : Prop where
  sends : a.reconcileOnly = false
  kind : a.kind.reconciles

namespace AttemptPhase

/-- An attempt waits for a request, or has given up not knowing its outcome. -/
def Awaits (requestId : Id) : AttemptPhase → Prop
  | .awaiting _ id => id = requestId
  | .failed failure => failure.uncertain
  | .claimed | .ready | .found | .authorized _ | .done => False

/-- An attempt is about to send a request that is not sent again, or has sent it. -/
def IsWriting : AttemptPhase → Prop
  | .ready => True
  | .authorized role | .awaiting role _ => role ≠ .label
  | .claimed | .found | .done | .failed _ => False

/-- The requests that have no effect while an attempt is in a phase: no object is there
before the request for it is out, and no branch before the one for the branch is. -/
def Frees : AttemptPhase → RequestRole → Prop
  | .ready, .effect | .authorized .effect, .effect => True
  | .authorized .branch, .effect | .authorized .branch, .branch => True
  | .awaiting .branch _, .effect => True
  | _, _ => False

variable {phase : AttemptPhase} {role : RequestRole}

theorem Frees.isWriting (h : phase.Frees role) : phase.IsWriting := by
  cases phase <;> cases role <;> simp_all [Frees, IsWriting] <;> split at h <;> simp_all

theorem Frees.ne_label (h : phase.Frees role) : role ≠ .label := by
  rintro rfl
  cases phase <;> simp_all [Frees]

theorem not_frees_awaiting {id : Id} : ¬ (awaiting role id).Frees role := by
  cases role <;> simp [Frees]

theorem Frees.of_awaiting {role' : RequestRole} {id : Id} (h : (awaiting role id).Frees role') :
    (authorized role).Frees role' := by
  cases role <;> cases role' <;> simp_all [Frees]

theorem frees_authorized (h : role ≠ .label) : (authorized role).Frees role := by
  cases role <;> simp_all [Frees]

end AttemptPhase

namespace Outbox

/-- What an attempt may do without sending. -/
inductive AttemptMove (s : Outbox) (a : Attempt) : AttemptPhase → Prop
  /-- It knows what has become of its request, and sends no other one but for a label. -/
  | rests {phase : AttemptPhase} : (∀ r ∈ s.requests, a.phase.Awaits r.id → r.state.isSettled) →
      ¬ phase.IsWriting → AttemptMove s a phase
  | unanswered {failure : ConnectorFailure} : failure.uncertain → AttemptMove s a (.failed failure)
  | ready : a.phase = .claimed → s.objects a.operationId = [] →
      (a.kind.reconciles → a.reconcileOnly = false) → AttemptMove s a .ready
  | authorized {role : RequestRole} : a.phase = .ready → role ≠ .label →
      (role = .branch → s.branches a.operationId = []) → AttemptMove s a (.authorized role)
  | prepared {r : RemoteRequest} : a.phase = .awaiting .branch r.id → r ∈ s.requests →
      r.state.isSettled → AttemptMove s a .ready
  /-- Labels and edits may do anything. -/
  | again {phase : AttemptPhase} : a.kind.reconciles = false → AttemptMove s a phase

/-- What one step can do. -/
inductive Change (s : Outbox) : OutboxStep → Outbox → Prop
  | phase {step : OutboxStep} {a : Attempt} {phase : AttemptPhase} : a ∈ s.attempts →
      AttemptMove s a phase → Change s step (s.setPhase a.id phase)
  | send {a : Attempt} {role : RequestRole} {requestId : Id}
      (hnew : ∀ r ∈ s.requests, r.id ≠ requestId) : a ∈ s.attempts →
      a.phase = .authorized role → Change s (.send a.id requestId)
        { s.setPhase a.id (.awaiting role requestId) with
          requests := s.requests.insert ⟨requestId, a.operationId, a.kind, role, .inflight⟩ hnew }
  | remote {r : RemoteRequest} {state : RequestState} : r ∈ s.requests → r.state = .inflight →
      state = .applied ∨ state = .refused ∨ state = .lost →
      Change s (.remote r.id state) (s.setRequest r.id state)
  | claim {d : Delivery} {owner attemptId : Id} (hnew : ∀ a ∈ s.attempts, a.id ≠ attemptId) :
      s.nextDelivery = some d → Change s (.claim owner attemptId)
        { s.change d.id (s.leased owner) (fun _ => rfl) with
          attempts := s.attempts.insert (claimOf d owner attemptId) hnew }
  | settle {maxAttempts backoff : Nat} {a : Attempt} {d : Delivery}
      {outcome : Option ConnectorFailure} :
      a ∈ s.attempts → d ∈ s.operations → d.id = a.operationId → a.outcome = some outcome →
      d.isHeldBy s.now a.owner a.epoch → Change s (.settle backoff a.id)
        ((s.change d.id (s.settled maxAttempts backoff a outcome) fun _ => rfl).endAttempt a.id)
  | ended {step : OutboxStep} {id : Id} : Change s step (s.endAttempt id)
  | retry {d : Delivery} : d ∈ s.operations → d.status = .pending ∨ d.status = .failed →
      Change s (.retry d.id) (s.change d.id (commanded .pending) fun _ => rfl)
  | cancel {d : Delivery} : d ∈ s.operations → d.status = .pending ∨ d.status = .failed →
      Change s (.cancel d.id) (s.change d.id (commanded .cancelled) fun _ => rfl)
  | absent {d : Delivery} : d ∈ s.operations → d.status = .uncertain →
      Change s (.recordAbsent d.id) { s.change d.id (commanded .failed) (fun _ => rfl) with
        requests := s.requests.updateWhere (fun r => r.operationId == d.id && r.state == .lost)
          (fun r => { r with state := .absent }) fun _ => rfl }
  | queue {d : Delivery} (hnew : ∀ d' ∈ s.operations, d'.id ≠ d.id) : d.status = .pending →
      d.leaseExpiresAt = none →
      Change s (.queue d) { s with operations := s.operations.insert d hnew }
  | advance {step : OutboxStep} (elapsed : Nat) : Change s step { s with now := s.now + elapsed }

variable {s s' : Outbox} {step : OutboxStep} {a : Attempt} {d : Delivery} {phase : AttemptPhase}
  {role : RequestRole} {requestId : Id}

theorem mem_change {d' : Delivery} (hf : ∀ d, (f d).id = d.id) :
    d' ∈ (s.change id f hf).operations ↔ ∃ d ∈ s.operations, d' = if d.id = id then f d else d :=
  mem_modify (e := hf)

theorem mem_setPhase {a' : Attempt} : a' ∈ (s.setPhase id phase).attempts ↔
      ∃ a ∈ s.attempts, a' = if a.id = id then { a with phase } else a := by
  rw [setPhase, mem_modify]

/-- An attempt that waits for nothing may end, or go on to the labels. -/
theorem AttemptMove.rests_of (h : ∀ id, ¬ a.phase.Awaits id) (hphase : ¬ phase.IsWriting) :
    AttemptMove s a phase :=
  .rests (fun r _ hr => absurd hr (h r.id)) hphase

/-- So may one whose request is settled. -/
theorem AttemptMove.rests_settled (hawaits : a.phase = .awaiting role r.id) (hr : r ∈ s.requests)
    (hset : r.state.isSettled) (hphase : ¬ phase.IsWriting) : AttemptMove s a phase := by
  refine .rests (fun q hq hid => ?_) hphase
  rw [hawaits] at hid
  rwa [s.requests.eq_of_key hq hr hid.symm]

theorem unobserved_eq_none (h : s.unobserved a = none) : a.kind.reconciles = false := by
  unfold unobserved at h
  cases hk : a.kind <;> simp only [hk] at h <;> first | rfl | cases h | (split at h <;> cases h)

theorem lookUp_change {external : Bool} (h : s.lookUp attemptId external = some s') :
    s.Change step s' := by
  obtain ⟨a, hmem, rfl, h⟩ := find?_bind_eq_some.mp h
  cases hphase : a.phase <;> simp only [hphase] at h <;> try cases h
  have hawaits : ∀ id, ¬ a.phase.Awaits id := by simp [hphase, AttemptPhase.Awaits]
  split at h
  · cases h
    exact .phase hmem (.rests_of hawaits (by split <;> exact id))
  rename_i hfound
  split at h <;> cases h
  · exact .phase hmem (.rests_of hawaits id)
  rename_i hrec
  refine .phase hmem (.ready hphase ?_ fun hk => ?_)
  · simp only [Bool.or_eq_true, not_or, Bool.not_eq_true', Bool.not_eq_false] at hfound
    exact isEmpty_iff.mp hfound.1
  · by_contra hr
    rw [if_pos (by simpa using hr)] at hrec
    rw [unobserved_eq_none hrec] at hk
    cases hk

theorem fail_change (h : s.fail attemptId failure = some s') : s.Change step s' := by
  obtain ⟨a, hmem, rfl, h⟩ := find?_bind_eq_some.mp h
  cases hphase : a.phase <;> simp only [hphase] at h <;> cases h <;>
    exact .phase hmem (.rests_of (by simp [hphase, AttemptPhase.Awaits]) id)

theorem mayWrite_cases (h : s.mayWrite a role) : a.phase = .found ∧ role = .label ∨
    a.phase = .ready ∧ role ≠ .label ∧ (role = .branch → s.branches a.operationId = []) := by
  unfold mayWrite at h
  cases hphase : a.phase <;> cases role <;> simp_all [hasBranch]

theorem authorizeMutation_change (h : s.authorizeMutation attemptId role = some s') :
    s.Change step s' := by
  obtain ⟨a, hmem, rfl, h⟩ := find?_bind_eq_some.mp h
  obtain ⟨d, -, -, h⟩ := find?_bind_eq_some.mp h
  split at h
  · rename_i hmay
    have hcases := mayWrite_cases hmay
    have hawaits : ∀ id, ¬ a.phase.Awaits id := by
      rcases hcases with ⟨hphase, -⟩ | ⟨hphase, -⟩ <;> simp [hphase, AttemptPhase.Awaits]
    split at h <;> cases h
    · rcases hcases with ⟨-, rfl⟩ | ⟨hphase, hrole, hbranch⟩
      · exact .phase hmem (.rests_of hawaits fun hw => hw rfl)
      · exact .phase hmem (.authorized hphase hrole hbranch)
    · exact .phase hmem (.rests_of hawaits id)
  · cases h

theorem send_change (h : s.send attemptId requestId = some s') :
    s.Change (.send attemptId requestId) s' := by
  obtain ⟨a, hmem, rfl, h⟩ := find?_bind_eq_some.mp h
  cases hphase : a.phase <;> simp only [hphase] at h <;> try cases h
  obtain ⟨_, hinsert, h⟩ := Option.bind_eq_some_iff.mp h
  obtain ⟨hnew, rfl⟩ := insertNew_eq_some.mp hinsert
  cases h
  exact .send hnew hmem hphase

theorem answer_change {isLast : Bool} (h : s.answer attemptId isLast = some s') :
    s.Change step s' := by
  obtain ⟨a, hmem, rfl, h⟩ := find?_bind_eq_some.mp h
  cases hphase : a.phase <;> simp only [hphase] at h <;> try cases h
  rename_i role requestId
  obtain ⟨r, hrmem, rfl, hr⟩ := find?_bind_eq_some.mp h
  obtain ⟨hstate, hr⟩ := Option.ite_none_right_eq_some.mp hr
  cases hr
  have hset : r.state.isSettled := by
    rcases hstate with hstate | ⟨hstate, -⟩ <;> rw [hstate] <;> rfl
  by_cases hk : a.kind.reconciles
  · cases role with
    | branch => exact .phase hmem (.prepared hphase hrmem hset)
    | label => exact .phase hmem (.rests_settled hphase hrmem hset id)
    | effect =>
      refine .phase hmem (.rests_settled hphase hrmem hset ?_)
      simp only [Attempt.proceed, hk, Bool.or_true, if_true]
      split <;> exact id
  · exact .phase hmem (.again (by simpa using hk))

theorem finish_change (h : s.finish attemptId = some s') : s.Change step s' := by
  obtain ⟨a, hmem, rfl, h⟩ := find?_bind_eq_some.mp h
  cases hphase : a.phase <;> simp only [hphase] at h <;> cases h
  exact .phase hmem (.rests_of (by simp [hphase, AttemptPhase.Awaits]) id)

theorem refusal_change {transient : Bool} {retryAfter : Nat}
    (h : s.refusal attemptId code transient retryAfter = some s') : s.Change step s' := by
  obtain ⟨a, hmem, rfl, h⟩ := find?_bind_eq_some.mp h
  cases hphase : a.phase <;> simp only [hphase] at h <;> try cases h
  obtain ⟨r, hrmem, rfl, hr⟩ := find?_bind_eq_some.mp h
  cases hstate : r.state <;> simp only [hstate] at hr <;> cases hr
  exact .phase hmem (.rests_settled hphase hrmem (by rw [hstate]; rfl) id)

theorem noAnswer_change (h : s.noAnswer attemptId code = some s') : s.Change step s' := by
  obtain ⟨a, hmem, rfl, h⟩ := find?_bind_eq_some.mp h
  cases hphase : a.phase <;> simp only [hphase] at h <;> cases h
  exact .phase hmem (.unanswered rfl)

theorem claimOperation_change (h : s.claimOperation owner attemptId = some s') :
    s.Change (.claim owner attemptId) s' := by
  simp only [claimOperation, Option.bind_eq_bind, Option.bind_eq_some_iff,
    insertNew_eq_some] at h
  obtain ⟨d, hd, _, ⟨hnew, rfl⟩, h⟩ := h
  cases h
  exact .claim hnew hd

theorem settleOperation_change (h : s.settleOperation maxAttempts backoff attemptId = some s') :
    s.Change (.settle backoff attemptId) s' := by
  obtain ⟨a, hmem, rfl, h⟩ := find?_bind_eq_some.mp h
  obtain ⟨d, hdmem, hid, h⟩ := find?_bind_eq_some.mp h
  obtain ⟨_, hout, h⟩ := Option.bind_eq_some_iff.mp h
  split at h <;> cases h
  · exact .settle hmem hdmem hid hout ‹_›
  · exact .ended

/-- An attempt whose epoch is outdated settles nothing. -/
theorem operations_of_settle (ha : a ∈ s.attempts) (hd : d ∈ s.operations)
    (hid : d.id = a.operationId)
    (hepoch : d.leaseEpoch ≠ a.epoch) (h : s.settleOperation maxAttempts backoff a.id = some s') :
    s'.operations = s.operations := by
  obtain ⟨a', hmem, hida, h⟩ := find?_bind_eq_some.mp h
  obtain rfl := s.attempts.eq_of_key hmem ha hida
  obtain ⟨d', hmem', hidd, h⟩ := find?_bind_eq_some.mp h
  obtain ⟨_, -, h⟩ := Option.bind_eq_some_iff.mp h
  obtain rfl := s.operations.eq_of_key hmem' hd (hidd.trans hid.symm)
  rw [if_neg (by simp [Delivery.isHeldBy, hepoch])] at h
  cases h
  rfl

theorem remote_change (h : s.remote requestId state = some s') :
    s.Change (.remote requestId state) s' := by
  obtain ⟨r, hmem, rfl, h⟩ := find?_bind_eq_some.mp h
  split at h <;> cases h
  rename_i hc
  exact .remote hmem hc.1 hc.2

/-- A step is one of these changes. -/
theorem next_change (h : s.next maxAttempts step = some s') : s.Change step s' := by
  cases step with
  | queue d =>
    simp only [next, queue, Option.bind_eq_bind] at h
    split at h
    · rename_i hc
      simp only [Option.bind_eq_some_iff, insertNew_eq_some] at h
      obtain ⟨_, ⟨hnew, rfl⟩, h⟩ := h
      cases h
      exact .queue hnew hc.1 hc.2.2.2.1
    · cases h
  | claim _ attemptId => exact claimOperation_change h
  | lookUp attemptId _ => exact lookUp_change h
  | fail attemptId _ => exact fail_change h
  | authorize attemptId _ => exact authorizeMutation_change h
  | send attemptId requestId => exact send_change h
  | remote requestId _ => exact remote_change h
  | answer attemptId _ => exact answer_change h
  | finish attemptId => exact finish_change h
  | refusal attemptId code _ _ => exact refusal_change h
  | noAnswer attemptId code => exact noAnswer_change h
  | settle _ attemptId => exact settleOperation_change h
  | crash attemptId => cases h; exact .ended
  | retry id =>
    obtain ⟨d, hmem, rfl, h⟩ := find?_bind_eq_some.mp h
    split at h <;> cases h
    exact .retry hmem ‹_›
  | cancel id =>
    obtain ⟨d, hmem, rfl, h⟩ := find?_bind_eq_some.mp h
    split at h <;> cases h
    exact .cancel hmem ‹_›
  | recordAbsent id =>
    obtain ⟨d, hmem, rfl, h⟩ := find?_bind_eq_some.mp h
    split at h <;> cases h
    exact .absent hmem ‹_›
  | advance elapsed => cases h; exact .advance elapsed

/-! ## At most once -/

/-- Nobody may send an operation, and it is known what has become of its requests. -/
structure Quiet (s : Outbox) (id : Id) : Prop where
  attempts : ∀ a ∈ s.attempts, a.operationId = id → a.reconcileOnly
  requests : ∀ r ∈ s.requests, r.operationId = id → r.role ≠ .label → r.state.isSettled

/-- What keeps an operation from being sent twice. -/
structure Safe (s : Outbox) : Prop where
  attempts : ∀ a ∈ s.attempts, ∃ d ∈ s.operations, d.id = a.operationId ∧ d.kind = a.kind
  requests : ∀ r ∈ s.requests, ∃ d ∈ s.operations, d.id = r.operationId ∧ d.kind = r.kind
  /-- One attempt may send an operation. -/
  one : ∀ a ∈ s.attempts, ∀ a' ∈ s.attempts, a.IsSender → a'.IsSender →
    a.operationId = a'.operationId → a = a'
  /-- It waits for every request whose fate is open. -/
  own : ∀ a ∈ s.attempts, a.IsSender → ∀ r ∈ s.requests, r.operationId = a.operationId →
    r.role ≠ .label → r.state.isSettled = false → a.phase.Awaits r.id
  /-- Before it sends, no request has or may have an effect. -/
  free : ∀ a ∈ s.attempts, a.IsSender → ∀ r ∈ s.requests, r.operationId = a.operationId →
    a.phase.Frees r.role → r.state.isLive = false
  /-- An attempt that may only reconcile does not write. -/
  passive : ∀ a ∈ s.attempts, a.kind.reconciles → a.reconcileOnly → ¬ a.phase.IsWriting
  /-- An operation that may be sent next is quiet. -/
  idle : ∀ d ∈ s.operations, d.kind.reconciles → d.status.isIdle → s.Quiet d.id
  single : ∀ r ∈ s.requests, ∀ r' ∈ s.requests, r.kind.reconciles → r.role ≠ .label →
    r.operationId = r'.operationId → r.role = r'.role → r.state.isLive → r'.state.isLive → r = r'

theorem initial_safe : initial.Safe where
  attempts := by rintro _ ⟨⟩
  requests := by rintro _ ⟨⟩
  one := by rintro _ ⟨⟩
  own := by rintro _ ⟨⟩
  free := by rintro _ ⟨⟩
  passive := by rintro _ ⟨⟩
  idle := by rintro _ ⟨⟩
  single := by rintro _ ⟨⟩

theorem Quiet.endAttempt (h : s.Quiet id) : (s.endAttempt attemptId).Quiet id :=
  ⟨fun a ha => h.attempts a (mem_restrict.mp ha).1, h.requests⟩

namespace Safe

variable (hs : s.Safe)

include hs

/-- An attempt is of its operation's kind. -/
theorem kind_eq (ha : a ∈ s.attempts) (hd : d ∈ s.operations) (hid : d.id = a.operationId) :
    a.kind = d.kind := by
  obtain ⟨d', hd', hid', hk⟩ := hs.attempts a ha
  rw [← hk, s.operations.eq_of_key hd' hd (hid'.trans hid.symm)]

theorem advance (elapsed : Nat) : Safe { s with now := s.now + elapsed } :=
  { hs with idle := fun d hd hk hidle => { hs.idle d hd hk hidle with } }

theorem endAttempt (id : Id) : (s.endAttempt id).Safe := by
  have hsub : ∀ a ∈ (s.endAttempt id).attempts, a ∈ s.attempts := fun a ha => (mem_restrict.mp ha).1
  exact
    { hs with
      attempts := fun a ha => hs.attempts a (hsub a ha)
      one := fun a ha a' ha' => hs.one a (hsub a ha) a' (hsub a' ha')
      own := fun a ha => hs.own a (hsub a ha)
      free := fun a ha => hs.free a (hsub a ha)
      passive := fun a ha => hs.passive a (hsub a ha)
      idle := fun d hd hk hidle => (hs.idle d hd hk hidle).endAttempt }

/-- An operation may change as long as it is quiet wherever it becomes idle. -/
theorem change (hf : ∀ d, (f d).id = d.id) (hkind : ∀ d, (f d).kind = d.kind)
    (hidle : ∀ d ∈ s.operations, d.id = id → d.kind.reconciles → (f d).status.isIdle →
      s.Quiet id) : (s.change id f hf).Safe := by
  have hstored {id' kind} (h : ∃ d ∈ s.operations, d.id = id' ∧ d.kind = kind) :
      ∃ d ∈ (s.change id f hf).operations, d.id = id' ∧ d.kind = kind := by
    obtain ⟨d, hd, rfl, rfl⟩ := h
    refine ⟨_, mem_modify_of_mem hf hd, ?_⟩
    split
    · exact ⟨hf d, hkind d⟩
    · exact ⟨rfl, rfl⟩
  refine { hs with
    attempts := fun a ha => hstored (hs.attempts a ha)
    requests := fun r hr => hstored (hs.requests r hr)
    idle := fun d' hd' hk hi => ?_ }
  obtain ⟨d, hd, rfl⟩ := (mem_change hf).mp hd'
  by_cases hid : d.id = id
  · rw [if_pos hid] at hk hi ⊢
    rw [hf, hid]
    exact { hidle d hd hid (by rwa [hkind] at hk) hi with }
  · rw [if_neg hid] at hk hi ⊢
    exact { hs.idle d hd hk hi with }

/-- A claim begins an attempt.  It may send only if its operation is quiet. -/
theorem begin (hnew : ∀ a' ∈ s.attempts, a'.id ≠ a.id) (hphase : a.phase = .claimed)
    (hd : d ∈ s.operations) (hid : d.id = a.operationId) (hkind : d.kind = a.kind)
    (hstatus : d.status.isIdle = false) (hquiet : a.IsSender → s.Quiet a.operationId) :
    Safe { s with attempts := s.attempts.insert a hnew } := by
  have hrow : ∀ a' ∈ s.attempts.insert a hnew, a' ∈ s.attempts ∨ a' = a := fun _ => mem_insert.mp
  refine { hs with attempts := ?_, one := ?_, own := ?_, free := ?_, passive := ?_, idle := ?_ }
  · intro a' ha'
    rcases hrow a' ha' with ha' | rfl
    · exact hs.attempts a' ha'
    · exact ⟨d, hd, hid, hkind⟩
  · intro a₁ h₁ a₂ h₂ hsend₁ hsend₂ hop
    rcases hrow a₁ h₁ with hold₁ | rfl <;> rcases hrow a₂ h₂ with hold₂ | rfl
    · exact hs.one a₁ hold₁ a₂ hold₂ hsend₁ hsend₂ hop
    · exact absurd ((hquiet hsend₂).attempts a₁ hold₁ hop) (by simp [hsend₁.sends])
    · exact absurd ((hquiet hsend₁).attempts a₂ hold₂ hop.symm) (by simp [hsend₂.sends])
    · rfl
  · intro a' ha' hsend r hr hop hrole hopen
    rcases hrow a' ha' with ha' | rfl
    · exact hs.own a' ha' hsend r hr hop hrole hopen
    · exact absurd ((hquiet hsend).requests r hr hop hrole) (by simp [hopen])
  · intro a' ha' hsend r hr hop hfrees
    rcases hrow a' ha' with ha' | rfl
    · exact hs.free a' ha' hsend r hr hop hfrees
    · exact absurd hfrees.isWriting (by simp [AttemptPhase.IsWriting, hphase])
  · intro a' ha' hk hrec
    rcases hrow a' ha' with ha' | rfl
    · exact hs.passive a' ha' hk hrec
    · simp [AttemptPhase.IsWriting, hphase]
  · intro d' hd' hk hidle
    have hq := hs.idle d' hd' hk hidle
    refine ⟨fun a' ha' hop => ?_, hq.requests⟩
    rcases hrow a' ha' with ha' | rfl
    · exact hq.attempts a' ha' hop
    · obtain rfl : d' = d := s.operations.eq_of_key hd' hd (hop.symm.trans hid.symm)
      rw [hstatus] at hidle
      cases hidle

/-- Requests may settle, and lose what effect they may have had. -/
theorem mapRequests {p : RemoteRequest → Bool}
    (hopen : ∀ r ∈ s.requests, p r → state.isSettled = false → r.state.isSettled = false)
    (hlive : ∀ r ∈ s.requests, p r → state.isLive → r.state.isLive) :
    Safe
      { s with requests := s.requests.updateWhere p (fun r => { r with state }) fun _ => rfl } := by
  have hrow : ∀ r' ∈ s.requests.updateWhere p (fun r => { r with state }) (fun _ => rfl),
      ∃ r ∈ s.requests, r'.id = r.id ∧ r'.operationId = r.operationId ∧ r'.kind = r.kind
        ∧ r'.role = r.role ∧ (r'.state.isSettled = false → r.state.isSettled = false)
        ∧ (r'.state.isLive → r.state.isLive) := by
    intro r' hr'
    obtain ⟨r, hr, rfl⟩ := mem_updateWhere.mp hr'
    refine ⟨r, hr, ?_⟩
    split
    · rename_i hp
      exact ⟨rfl, rfl, rfl, rfl, hopen r hr hp, hlive r hr hp⟩
    · exact ⟨rfl, rfl, rfl, rfl, id, id⟩
  refine { hs with requests := ?_, own := ?_, free := ?_, idle := ?_, single := ?_ }
  · intro r' hr'
    obtain ⟨r, hr, -, hop, hk, -⟩ := hrow r' hr'
    rw [hop, hk]
    exact hs.requests r hr
  · intro a ha hsend r' hr' hop hne hu
    obtain ⟨r, hr, hid, hop', -, hrole, hu', -⟩ := hrow r' hr'
    rw [hid]
    exact hs.own a ha hsend r hr (hop'.symm.trans hop) (hrole ▸ hne) (hu' hu)
  · intro a ha hsend r' hr' hop hfrees
    obtain ⟨r, hr, -, hop', -, hrole, -, hl⟩ := hrow r' hr'
    have hfree := hs.free a ha hsend r hr (hop'.symm.trans hop) (hrole ▸ hfrees)
    exact Bool.eq_false_iff.mpr fun h => by simp [hl h] at hfree
  · intro d hd hk hidle
    have hq := hs.idle d hd hk hidle
    refine ⟨hq.attempts, fun r' hr' hop hne => ?_⟩
    obtain ⟨r, hr, -, hop', -, hrole, hu, -⟩ := hrow r' hr'
    have hset := hq.requests r hr (hop'.symm.trans hop) (hrole ▸ hne)
    by_contra h
    simp [hu (by simpa using h)] at hset
  · intro r₁ h₁ r₂ h₂ hk hne hop hrole hl₁ hl₂
    obtain ⟨q₁, hq₁, hid₁, hop₁, hk₁, hrole₁, -, hlive₁⟩ := hrow r₁ h₁
    obtain ⟨q₂, hq₂, hid₂, hop₂, -, hrole₂, -, hlive₂⟩ := hrow r₂ h₂
    have heq : q₁ = q₂ := hs.single q₁ hq₁ q₂ hq₂ (hk₁ ▸ hk) (hrole₁ ▸ hne)
      (by rw [← hop₁, ← hop₂, hop]) (by rw [← hrole₁, ← hrole₂, hrole]) (hlive₁ hl₁) (hlive₂ hl₂)
    exact eq_of_key h₁ h₂ (by rw [hid₁, hid₂, heq])

/-- An attempt may move on as long as it keeps waiting for what is open, and is ready to
send only when nothing stands in its way. -/
theorem setPhase (ha : a ∈ s.attempts)
    (hown : a.IsSender → ∀ r ∈ s.requests, r.state.isSettled = false → a.phase.Awaits r.id →
      phase.Awaits r.id)
    (hfree : a.IsSender → ∀ r ∈ s.requests, r.operationId = a.operationId → phase.Frees r.role →
      r.state.isLive = false)
    (hpassive : a.kind.reconciles → phase.IsWriting → a.reconcileOnly = false) :
    (s.setPhase a.id phase).Safe := by
  have hrow : ∀ a' ∈ (s.setPhase a.id phase).attempts,
      a' ∈ s.attempts ∧ a'.id ≠ a.id ∨ a' = { a with phase } := by
    intro a' ha'
    obtain ⟨b, hb, rfl⟩ := mem_setPhase.mp ha'
    by_cases hid : b.id = a.id
    · rw [if_pos hid, s.attempts.eq_of_key hb ha hid]
      exact .inr rfl
    · rw [if_neg hid]
      exact .inl ⟨hb, hid⟩
  refine { hs with attempts := ?_, one := ?_, own := ?_, free := ?_, passive := ?_, idle := ?_ }
  · intro a' ha'
    rcases hrow a' ha' with ⟨hold, -⟩ | rfl
    · exact hs.attempts a' hold
    · exact hs.attempts a ha
  · intro a₁ h₁ a₂ h₂ hsend₁ hsend₂ hop
    rcases hrow a₁ h₁ with ⟨hold₁, hne₁⟩ | rfl <;> rcases hrow a₂ h₂ with ⟨hold₂, hne₂⟩ | rfl
    · exact hs.one a₁ hold₁ a₂ hold₂ hsend₁ hsend₂ hop
    · exact absurd (congrArg _ (hs.one a₁ hold₁ a ha hsend₁ ⟨hsend₂.sends, hsend₂.kind⟩ hop)) hne₁
    · exact absurd
        (congrArg _ (hs.one a₂ hold₂ a ha hsend₂ ⟨hsend₁.sends, hsend₁.kind⟩ hop.symm)) hne₂
    · rfl
  · intro a' ha' hsend r hr hop hrole hopen
    rcases hrow a' ha' with ⟨hold, -⟩ | rfl
    · exact hs.own a' hold hsend r hr hop hrole hopen
    · have hsender : a.IsSender := ⟨hsend.sends, hsend.kind⟩
      exact hown hsender r hr hopen (hs.own a ha hsender r hr hop hrole hopen)
  · intro a' ha' hsend
    rcases hrow a' ha' with ⟨hold, -⟩ | rfl
    · exact hs.free a' hold hsend
    · exact hfree ⟨hsend.sends, hsend.kind⟩
  · intro a' ha' hk hrec hwrites
    rcases hrow a' ha' with ⟨hold, -⟩ | rfl
    · exact hs.passive a' hold hk hrec hwrites
    · exact absurd hrec (by simp [hpassive hk hwrites])
  · intro d hd hk hidle
    have hq := hs.idle d hd hk hidle
    refine ⟨fun a' ha' hop => ?_, hq.requests⟩
    rcases hrow a' ha' with ⟨hold, -⟩ | rfl
    · exact hq.attempts a' hold hop
    · exact hq.attempts a ha hop

/-- A request is on its way once a waiting attempt has sent it, with no other one of its role
that may have an effect. -/
theorem insertRequest (hnew : ∀ r' ∈ s.requests, r'.id ≠ r.id) (hd : d ∈ s.operations)
    (hid : d.id = r.operationId) (hkind : d.kind = r.kind)
    (hsent : r.kind.reconciles → r.role ≠ .label → ∃ a ∈ s.attempts, a.IsSender ∧
      a.operationId = r.operationId ∧ a.phase = .awaiting r.role r.id)
    (hlive : r.kind.reconciles → r.role ≠ .label → ∀ r' ∈ s.requests,
      r'.operationId = r.operationId → r'.role = r.role → r'.state.isLive = false) :
    Safe { s with requests := s.requests.insert r hnew } := by
  have hrow : ∀ r' ∈ s.requests.insert r hnew, r' ∈ s.requests ∨ r' = r := fun _ => mem_insert.mp
  -- The one attempt that may send this operation is the one that did.
  have hsender : ∀ a ∈ s.attempts, a.IsSender → r.operationId = a.operationId → r.role ≠ .label →
      a.phase = .awaiting r.role r.id := by
    intro a ha hsend hop hrole
    have hk := hs.kind_eq ha hd (hid.trans hop)
    obtain ⟨b, hb, hsend', hop', hphase⟩ := hsent (by rw [← hkind, ← hk]; exact hsend.kind) hrole
    rw [hs.one a ha b hb hsend hsend' (hop.symm.trans hop'.symm)]
    exact hphase
  refine { hs with requests := ?_, own := ?_, free := ?_, idle := ?_, single := ?_ }
  · intro r' hr'
    rcases hrow r' hr' with hold | rfl
    · exact hs.requests r' hold
    · exact ⟨d, hd, hid, hkind⟩
  · intro a ha hsend r' hr' hop hrole hopen
    rcases hrow r' hr' with hold | rfl
    · exact hs.own a ha hsend r' hold hop hrole hopen
    · rw [hsender a ha hsend hop hrole]
      rfl
  · intro a ha hsend r' hr' hop hfrees
    rcases hrow r' hr' with hold | rfl
    · exact hs.free a ha hsend r' hold hop hfrees
    · rw [hsender a ha hsend hop hfrees.ne_label] at hfrees
      exact absurd hfrees AttemptPhase.not_frees_awaiting
  · intro d' hd' hk hidle
    have hq := hs.idle d' hd' hk hidle
    refine ⟨hq.attempts, fun r' hr' hop hrole => ?_⟩
    rcases hrow r' hr' with hold | rfl
    · exact hq.requests r' hold hop hrole
    · obtain rfl : d' = d := s.operations.eq_of_key hd' hd (hop.symm.trans hid.symm)
      obtain ⟨a, ha, hsend, hop', -⟩ := hsent (hkind ▸ hk) hrole
      exact absurd (hq.attempts a ha (hop'.trans hop)) (by simp [hsend.sends])
  · have hother : ∀ r' ∈ s.requests, r'.kind.reconciles → r'.role ≠ .label →
        r'.operationId = r.operationId → r'.role = r.role → r'.state.isLive = false := by
      intro r' hr' hk hne hop hrole
      obtain ⟨d', hd', hid', hk'⟩ := hs.requests r' hr'
      obtain rfl : d' = d := s.operations.eq_of_key hd' hd (by rw [hid', hid, hop])
      exact hlive (by rw [← hkind, hk']; exact hk) (hrole ▸ hne) r' hr' hop hrole
    intro r₁ h₁ r₂ h₂ hk hne hop hrole hl₁ hl₂
    rcases hrow r₁ h₁ with hold₁ | rfl <;> rcases hrow r₂ h₂ with hold₂ | rfl
    · exact hs.single r₁ hold₁ r₂ hold₂ hk hne hop hrole hl₁ hl₂
    · simp [hother r₁ hold₁ hk hne hop hrole] at hl₁
    · simp [hlive hk hne r₂ hold₂ hop.symm hrole.symm] at hl₂
    · rfl

/-- A new operation has neither attempts nor requests. -/
theorem insert (hnew : ∀ d' ∈ s.operations, d'.id ≠ d.id) :
    Safe { s with operations := s.operations.insert d hnew } := by
  have hold : ∀ d' ∈ s.operations, d' ∈ s.operations.insert d hnew := fun _ h =>
    mem_insert.mpr (.inl h)
  refine { hs with
    attempts := fun a ha => (hs.attempts a ha).imp fun d' => .imp_left (hold d')
    requests := fun r hr => (hs.requests r hr).imp fun d' => .imp_left (hold d')
    idle := fun d' hd' hk hidle => ?_ }
  rcases (mem_insert (h := hnew)).mp hd' with hd' | rfl
  · exact { hs.idle d' hd' hk hidle with }
  · refine ⟨fun a ha hop => ?_, fun r hr hop _ => ?_⟩
    · obtain ⟨d', hd', hid, -⟩ := hs.attempts a ha
      exact absurd (hid.trans hop) (hnew d' hd')
    · obtain ⟨d', hd', hid, -⟩ := hs.requests r hr
      exact absurd (hid.trans hop) (hnew d' hd')

end Safe

/-! ### Every step keeps it -/

/-- An attempt keeps waiting for the requests whose fate is open. -/
theorem AttemptMove.awaits (hmove : s.AttemptMove a phase) (hk : a.kind.reconciles)
    (hr : r ∈ s.requests) (hopen : r.state.isSettled = false) (h : a.phase.Awaits r.id) :
    phase.Awaits r.id := by
  cases hmove with
  | rests hset => simp [hset r hr h] at hopen
  | unanswered hu => exact hu
  | ready hphase | authorized hphase =>
    rw [hphase] at h
    cases h
  | prepared hphase hq hset =>
    rw [hphase] at h
    rw [s.requests.eq_of_key hr hq h.symm, hset] at hopen
    cases hopen
  | again hkind => simp [hk] at hkind

/-- A request that may have an effect is open or was carried out. -/
theorem isLive_eq_false (hopen : state.isSettled) (h : state ≠ .applied) :
    state.isLive = false := by
  cases state <;> simp_all [RequestState.isSettled, RequestState.isLive]

/-- While an attempt that may send waits for nothing, a request that was not carried out has
no effect. -/
theorem Safe.isLive_eq_false (hs : s.Safe) (ha : a ∈ s.attempts) (hsend : a.IsSender)
    (hphase : ∀ id, ¬ a.phase.Awaits id) (hr : r ∈ s.requests) (hop : r.operationId = a.operationId)
    (hrole : r.role ≠ .label) (hstate : r.state ≠ .applied) : r.state.isLive = false := by
  refine Outbox.isLive_eq_false ?_ hstate
  by_contra hopen
  exact hphase r.id (hs.own a ha hsend r hr hop hrole (by simpa using hopen))

/-- Where a lookup finds nothing, an attempt that may send is free to. -/
theorem Safe.free_of_objects_eq_nil (hs : s.Safe) (ha : a ∈ s.attempts) (hsend : a.IsSender)
    (hphase : a.phase = .claimed) (hnone : s.objects a.operationId = []) (hr : r ∈ s.requests)
    (hop : r.operationId = a.operationId) (hrole : r.role = .effect) : r.state.isLive = false := by
  refine hs.isLive_eq_false ha hsend (by simp [hphase, AttemptPhase.Awaits]) hr hop
    (by simp [hrole]) fun happ => ?_
  obtain ⟨d, hd, hid, hk⟩ := hs.requests r hr
  have hmem : r ∈ s.objects a.operationId := by
    refine mem_filter.mpr ⟨hr, ?_⟩
    simp [hop, happ, hrole, ← hk, ← hs.kind_eq ha hd (hid.trans hop), hsend.kind]
  rw [hnone] at hmem
  cases hmem

/-- Where no branch was made, one may be asked for. -/
theorem Safe.free_of_branches_eq_nil (hs : s.Safe) (ha : a ∈ s.attempts) (hsend : a.IsSender)
    (hphase : a.phase = .ready) (hnone : s.branches a.operationId = []) (hr : r ∈ s.requests)
    (hop : r.operationId = a.operationId) (hrole : r.role = .branch) : r.state.isLive = false := by
  refine hs.isLive_eq_false ha hsend (by simp [hphase, AttemptPhase.Awaits]) hr hop
    (by simp [hrole]) fun happ => ?_
  have hmem : r ∈ s.branches a.operationId := mem_filter.mpr ⟨hr, by simp [hop, happ, hrole]⟩
  rw [hnone] at hmem
  cases hmem

/-- An attempt that writes may send, where its kind is not simply applied again. -/
theorem Safe.isSender (hs : s.Safe) (ha : a ∈ s.attempts) (hk : a.kind.reconciles)
    (hphase : a.phase.IsWriting) : a.IsSender :=
  ⟨Bool.eq_false_iff.mpr fun hrec => hs.passive a ha hk hrec hphase, hk⟩

theorem Safe.move (hs : s.Safe) (ha : a ∈ s.attempts)
    (hmove : s.AttemptMove a phase) : (s.setPhase a.id phase).Safe := by
  refine hs.setPhase ha (fun hsend r hr hopen => hmove.awaits hsend.kind hr hopen) ?_ ?_
  · intro hsend r hr hop hfrees
    cases hmove with
    | rests _ hno => exact absurd hfrees.isWriting hno
    | unanswered => exact absurd hfrees.isWriting id
    | ready hphase hnone =>
      exact hs.free_of_objects_eq_nil ha hsend hphase hnone hr hop
        (by cases hrole : r.role <;> simp_all [AttemptPhase.Frees])
    | @authorized role hphase _ hbranch =>
      cases hrole : r.role with
      | effect => exact hs.free a ha hsend r hr hop (by rw [hphase, hrole]; trivial)
      | branch =>
        have : role = .branch := by cases role <;> simp_all [AttemptPhase.Frees]
        exact hs.free_of_branches_eq_nil ha hsend hphase (hbranch this) hr hop hrole
      | label => exact absurd hrole hfrees.ne_label
    | prepared hphase =>
      refine hs.free a ha hsend r hr hop ?_
      rw [hphase]
      cases hrole : r.role <;> simp_all [AttemptPhase.Frees]
    | again hkind => simp [hsend.kind] at hkind
  · intro hk hwrites
    cases hmove with
    | rests _ hno => exact absurd hwrites hno
    | unanswered => cases hwrites
    | ready _ _ hrec => exact hrec hk
    | authorized hphase => exact (hs.isSender ha hk (by rw [hphase]; trivial)).sends
    | prepared hphase =>
      exact (hs.isSender ha hk (by rw [hphase]; simp [AttemptPhase.IsWriting])).sends
    | again hkind => simp [hk] at hkind

theorem Safe.send (hs : s.Safe) (hnew : ∀ r ∈ s.requests, r.id ≠ requestId)
    (ha : a ∈ s.attempts) (hphase : a.phase = .authorized role) :
    Safe { s.setPhase a.id (.awaiting role requestId) with
           requests :=
             s.requests.insert ⟨requestId, a.operationId, a.kind, role, .inflight⟩ hnew } := by
  obtain ⟨d, hd, hid, hk⟩ := hs.attempts a ha
  have hsender (hk : a.kind.reconciles) (hrole : role ≠ .label) : a.IsSender :=
    hs.isSender ha hk (by rwa [hphase])
  have hsent : (s.setPhase a.id (.awaiting role requestId)).Safe := by
    refine hs.setPhase ha ?_ ?_ fun hk hw => (hsender hk hw).sends
    · rintro - r - - h
      rw [hphase] at h
      cases h
    · intro hsend r hr hop hfrees
      exact hs.free a ha hsend r hr hop (by rw [hphase]; exact hfrees.of_awaiting)
  refine hsent.insertRequest (r := ⟨requestId, a.operationId, a.kind, role, .inflight⟩) hnew hd hid
    hk (fun hrec hrole => ?_) fun hrec hrole r hr hop hsame => ?_
  · refine ⟨{ a with phase := .awaiting role requestId },
      mem_setPhase.mpr ⟨a, ha, by simp⟩, ?_, rfl, rfl⟩
    exact ⟨(hsender hrec hrole).sends, hrec⟩
  · refine hs.free a ha (hsender hrec hrole) r hr hop ?_
    rw [hphase, hsame]
    exact AttemptPhase.frees_authorized hrole

theorem nextDelivery_eq_some (h : s.nextDelivery = some d) :
    d ∈ s.operations ∧ s.isBlocked d = false ∧ d.isReady s.now := by
  have hmem := mem_of_head? h
  rw [mem_insertionSort] at hmem
  obtain ⟨hd, hc⟩ := mem_filter.mp hmem
  exact ⟨hd, by simpa using hc⟩

theorem Safe.claim (hs : s.Safe) (hnew : ∀ a ∈ s.attempts, a.id ≠ attemptId)
    (hd : s.nextDelivery = some d) :
    Safe { s.change d.id (s.leased owner) (fun _ => rfl) with
           attempts := s.attempts.insert (claimOf d owner attemptId) hnew } := by
  obtain ⟨hmem, -, _⟩ := nextDelivery_eq_some hd
  have hrun : (s.change d.id (s.leased owner) fun _ => rfl).Safe :=
    hs.change (f := s.leased owner) (fun _ => rfl) (fun _ => rfl) fun _ _ _ _ h => by cases h
  have hrow : s.leased owner d ∈ (s.change d.id (s.leased owner) fun _ => rfl).operations :=
    (mem_change _).mpr ⟨d, hmem, by rw [if_pos rfl]⟩
  refine hrun.begin (a := claimOf d owner attemptId) hnew rfl hrow rfl rfl rfl fun hsend => ?_
  have hidle : d.status.isIdle := by
    have hrec := hsend.sends
    simp only [claimOf] at hrec
    cases hst : d.status <;> simp_all [Delivery.isReady, DeliveryStatus.isIdle]
  exact { hs.idle d hmem hsend.kind hidle with }

/-- An attempt that settles an operation as one to be sent again was the only one that
could send it, and knows what has become of its request. -/
theorem Safe.settle (hs : s.Safe) {outcome : Option ConnectorFailure} (ha : a ∈ s.attempts)
    (hd : d ∈ s.operations) (hid : d.id = a.operationId) (hout : a.outcome = some outcome) :
    ((s.change d.id (s.settled maxAttempts backoff a outcome) fun _ => rfl).endAttempt
      a.id).Safe := by
  refine (hs.endAttempt a.id).change (f := s.settled maxAttempts backoff a outcome) (fun _ => rfl)
    (fun _ => rfl) ?_
  intro d' hd' hid' hk hidle
  obtain rfl : d' = d := s.operations.eq_of_key hd' hd hid'
  have hkind : a.kind.reconciles := hs.kind_eq ha hd hid ▸ hk
  -- Only a failure whose outcome is certain leaves the operation idle.
  obtain ⟨failure, hphase, hcertain, hrec⟩ : ∃ failure, a.phase = .failed failure ∧
      failure.uncertain = false ∧ a.reconcileOnly = false := by
    have hlabel : a.kind ≠ .forgeLabel := by
      rintro h
      rw [h] at hkind
      cases hkind
    cases hphase : a.phase <;> simp only [Attempt.outcome, hphase, reduceCtorEq,
      Option.some.injEq] at hout <;> subst hout
    · cases hidle
    · rename_i failure
      refine ⟨failure, rfl, ?_⟩
      simp only [settled, Attempt.reported, hlabel, false_and, if_false, Option.map_some,
        Option.getD_some, failedStatus] at hidle
      split at hidle
      · cases hidle
      · simp_all
  have hsend : a.IsSender := ⟨hrec, hkind⟩
  refine ⟨fun b hb hop => ?_, fun r hr hop hrole => ?_⟩
  · obtain ⟨hb, hne⟩ := mem_restrict.mp hb
    by_contra hsends
    have heq :=
      hs.one b hb a ha ⟨by simpa using hsends, hs.kind_eq hb hd hop.symm ▸ hk⟩ hsend (hop.trans hid)
    simp [heq] at hne
  · by_contra hopen
    have hu := hs.own a ha hsend r hr (hop.trans hid) hrole (by simpa using hopen)
    rw [hphase] at hu
    simp [AttemptPhase.Awaits, hcertain] at hu

/-- Absence is recorded only while no attempt may send the operation and no request of it is
on its way. -/
def recordsRightly (s : Outbox) : OutboxStep → Bool
  | .recordAbsent id =>
    (s.attempts.rows.all fun a => a.operationId != id || a.reconcileOnly)
      && s.requests.rows.all fun r => r.operationId != id || r.state != .inflight
  | _ => true

theorem Safe.absent (hs : s.Safe) (hg : s.recordsRightly (.recordAbsent d.id)) :
    Safe { s.change d.id (commanded .failed) (fun _ => rfl) with
      requests := s.requests.updateWhere (fun r => r.operationId == d.id && r.state == .lost)
        (fun r => { r with state := .absent }) fun _ => rfl } := by
  simp only [recordsRightly, Bool.and_eq_true, all_eq_true, Bool.or_eq_true, bne_iff_ne] at hg
  have hlost : Safe { s with
      requests := s.requests.updateWhere (fun r => r.operationId == d.id && r.state == .lost)
        (fun r => { r with state := .absent }) fun _ => rfl } :=
    hs.mapRequests (fun _ _ _ h => by cases h) fun _ _ _ h => by cases h
  refine hlost.change (f := commanded .failed) (fun _ => rfl) (fun _ => rfl) fun d' _ _ _ _ =>
    ⟨?_, ?_⟩
  · intro a ha hop
    exact (hg.1 a ha).resolve_left (not_not_intro hop)
  · intro r' hr' hop _
    simp only [mem_updateWhere] at hr'
    obtain ⟨r, hr, rfl⟩ := hr'
    split
    · rfl
    · rename_i hstate
      rw [if_neg hstate] at hop
      have hfly := (hg.2 r hr).resolve_left (not_not_intro hop)
      cases hst : r.state <;> simp_all [RequestState.isSettled]

theorem Change.safe (h : s.Change step s') (hg : s.recordsRightly step)
    (hs : s.Safe) : s'.Safe := by
  cases h with
  | phase ha hmove => exact hs.move ha hmove
  | send hnew ha hphase => exact hs.send hnew ha hphase
  | @remote r _ hr hfly _ =>
    refine hs.mapRequests (fun q hq hp _ => ?_) fun q hq hp _ => ?_ <;>
    · rw [s.requests.eq_of_key hq hr (of_decide_eq_true hp), hfly]
      rfl
  | claim hnew hd => exact hs.claim hnew hd
  | settle ha hd hid hout _ => exact hs.settle ha hd hid hout
  | ended => exact hs.endAttempt _
  | retry hd hstatus | cancel hd hstatus =>
    refine hs.change _ (fun _ => rfl) fun d' hd' hid hk _ => ?_
    obtain rfl := s.operations.eq_of_key hd' hd hid
    refine hs.idle d' hd' hk ?_
    rcases hstatus with h | h <;> rw [h] <;> rfl
  | absent => exact hs.absent hg
  | queue hnew _ => exact hs.insert hnew
  | advance elapsed => exact hs.advance elapsed

theorem safe_of_reachable (h : (outbox maxAttempts).ReachableBy (recordsRightly · ·) s) :
    s.Safe := by
  refine h.invariant ?_ ?_
  · rintro _ rfl
    exact initial_safe
  · intro _ _ _ hs hg hstep
    exact (next_change hstep).safe hg hs

theorem Safe.length_objects_le_one (hs : s.Safe) (id : Id) : (s.objects id).length ≤ 1 := by
  refine length_filter_le_one fun r hr r' hr' h h' => ?_
  simp only [Bool.and_eq_true, beq_iff_eq] at h h'
  obtain ⟨⟨hop, hstate⟩, hrole, hk⟩ := h
  obtain ⟨⟨hop', hstate'⟩, hrole', -⟩ := h'
  exact hs.single r hr r' hr' hk (by simp [hrole]) (hop.trans hop'.symm) (hrole.trans hrole'.symm)
    (by rw [hstate]; rfl) (by rw [hstate']; rfl)

/-- A new request was sent by an attempt that was allowed to. -/
theorem Change.sent (h : s.Change step s') (hr : r ∈ s'.requests)
    (hnew : ∀ q ∈ s.requests, q.id ≠ r.id) :
    ∃ a ∈ s.attempts, a.phase = .authorized r.role ∧ a.operationId = r.operationId
      ∧ a.kind = r.kind := by
  have hnot : r ∉ s.requests := fun hmem => hnew r hmem rfl
  cases h with
  | send hnew' ha hphase =>
    rcases (mem_insert (h := hnew')).mp hr with hold | rfl
    · exact absurd hold hnot
    · exact ⟨_, ha, hphase, rfl, rfl⟩
  | remote | absent =>
    simp only [setRequest, mem_modify, mem_updateWhere] at hr
    obtain ⟨q, hq, rfl⟩ := hr
    exact absurd (by split <;> rfl) (hnew q hq)
  | phase | claim | settle | ended | retry | cancel | queue | advance => exact absurd hr hnot

/-- What is known of the requests of an operation when one is about to be sent. -/
theorem Safe.known (hs : s.Safe) (ha : a ∈ s.attempts) (hsend : a.IsSender)
    (hphase : a.phase = .authorized role) (hr : r ∈ s.requests)
    (hop : r.operationId = a.operationId)
    (hrole : r.role ≠ .label) (hwrites : role ≠ .label) : r.state = .refused ∨ r.state = .absent
      ∨ role = .effect ∧ r.role = .branch ∧ r.state = .applied := by
  by_cases hfrees : a.phase.Frees r.role
  · have hdead := hs.free a ha hsend r hr hop hfrees
    cases hst : r.state <;> simp_all [RequestState.isLive]
  · -- The commit of a change goes to its branch.
    have hset : r.state = .applied ∨ r.state.isLive = false := by
      by_cases happ : r.state = .applied
      · exact .inl happ
      · exact .inr
          (hs.isLive_eq_false ha hsend (by simp [hphase, AttemptPhase.Awaits]) hr hop hrole happ)
    rw [hphase] at hfrees
    cases role <;> cases hr' : r.role <;> cases hst : r.state <;>
      simp_all [AttemptPhase.Frees, RequestState.isLive]

end Outbox

open Outbox

/-- A comment that is carried out although its answer never comes, and is found by the
next process. -/
def Outbox.found : Outbox :=
  System.replay (next 5) recordsRightly
    [.queue { id := 1, createdAt := 0, kind := .forgeComment,
              payload := { forgeItemId := some 7 } },
     .claim 10 100, .lookUp 100 false, .authorize 100, .send 100 200,
       .remote 200 .applied, .crash 100,
     .advance 300, .claim 11 101, .lookUp 101 false] .initial

/-- A process stalls after it was allowed to write, and absence is recorded meanwhile. -/
def Outbox.stalled : Outbox :=
  System.replay (next 5) (fun _ _ => true)
    [.queue { id := 1, createdAt := 0, kind := .forgeComment,
              payload := { forgeItemId := some 7 } },
     .claim 10 100, .lookUp 100 false, .authorize 100, .advance 300, .claim 11 101,
       .lookUp 101 false,
     .settle 0 101, .recordAbsent 1, .retry 1, .claim 12 102, .lookUp 102 false, .authorize 102,
     .send 100 200, .remote 200 .applied, .send 102 201, .remote 201 .applied] .initial

/-- The request of an edit gets lost, and the next process sends it again. -/
def Outbox.edited : Outbox :=
  System.replay (next 5) (fun _ _ => true)
    [.queue { id := 1, createdAt := 0, kind := .forgeEdit, payload := { forgeItemId := some 7 } },
     .claim 10 100, .lookUp 100 false, .authorize 100, .send 100 200, .remote 200 .lost,
     .noAnswer 100 "timeout", .settle 0 100, .claim 11 101, .lookUp 101 false, .authorize 101,
     .send 101 201] .initial

/-- The answer to the label of a created item never comes, and the next process, which may
only reconcile, sets the label again. -/
def Outbox.labelled : Outbox :=
  System.replay (next 5) (fun _ _ => true)
    [.queue { id := 1, createdAt := 0, kind := .forgeCreate,
              payload := { repositoryId := some 7 } },
     .claim 10 100, .lookUp 100 false, .authorize 100, .send 100 200, .remote 200 .applied,
     .answer 100 true, .authorize 100 .label, .send 100 201, .remote 201 .applied,
     .noAnswer 100 "timeout", .settle 0 100, .claim 11 101, .lookUp 101 false,
     .authorize 101 .label, .send 101 202] .initial

/-- A change asks for its branch and sends its commit. -/
def Outbox.committed : Outbox :=
  System.replay (next 5) (fun _ _ => true)
    [.queue { id := 1, createdAt := 0, kind := .forgeChange,
              payload := { repositoryId := some 7 } },
     .claim 10 100, .lookUp 100 false, .authorize 100 .branch, .send 100 200, .remote 200 .applied,
     .answer 100 true, .authorize 100, .send 100 201] .initial

end Horizon
