import Horizon.Integrations.Deliveries

/-!
# Deliveries to one target

Operations of one target are delivered one after the other: a claim passes over an operation
that an earlier unsettled one of its target holds back.  `Outbox.Ordered` is what this gives
over whole runs, unless an operation comes back, or is stored late, with a place in the
order that a delivery under way has passed already (`one_lease_per_target`).
-/

namespace Horizon

open Bool

variable {d' d x : Delivery} {maxAttempts : Nat}

namespace Outbox

variable {s s' : Outbox} {step : OutboxStep}

/-! ## The order of operations -/

/-- Two states of an operation agree in what orders it among the others. -/
structure SameWork (d d' : Delivery) : Prop where
  id : d.id = d'.id
  createdAt : d.createdAt = d'.createdAt
  kind : d.kind = d'.kind
  payload : d.payload = d'.payload

theorem SameWork.target_eq (h : SameWork d d') : d.target = d'.target := by
  simp only [Delivery.target, h.id, h.kind, h.payload]

theorem SameWork.precedes_left (h : SameWork d d') : d.precedes x = d'.precedes x := by
  simp only [Delivery.precedes, h.id, h.createdAt]

theorem SameWork.precedes_right (h : SameWork d d') : x.precedes d = x.precedes d' := by
  simp only [Delivery.precedes, h.id, h.createdAt]

theorem precedes_total (h : d.id ≠ d'.id) : d.precedes d' ∨ d'.precedes d := by
  simp only [Delivery.precedes, or_eq_true, decide_eq_true_eq, and_eq_true, beq_iff_eq]
  rcases lt_trichotomy d.createdAt d'.createdAt with hlt | heq | hgt
  · exact .inl (.inl hlt)
  · rcases lt_or_gt_of_ne h with hid | hid
    · exact .inl (.inr ⟨heq, hid⟩)
    · exact .inr (.inr ⟨heq.symm, hid⟩)
  · exact .inr (.inl hgt)

/-- Whether an operation and a later one go to the same target. -/
def Before (d x : Delivery) : Prop := d.target.isSome ∧ d.target = x.target ∧ d.precedes x

theorem Before.ne (h : Before d x) : d ≠ x := by
  rintro rfl
  simpa [Delivery.precedes] using h.2.2

theorem Before.congr {x' : Delivery} (hd : SameWork d d') (hx : SameWork x x') (h : Before d x) :
    Before d' x' := by
  obtain ⟨_, _, _⟩ := h
  refine ⟨?_, ?_, ?_⟩
  · rwa [← hd.target_eq]
  · rwa [← hd.target_eq, ← hx.target_eq]
  · rwa [← hd.precedes_left, ← hx.precedes_right]

theorem unblocked {p : Delivery} (h : s.isBlocked d = false) (hp : p ∈ s.operations)
    (hb : Before p d) : p.status.blocks = false := by
  by_contra hbl
  refine absurd (List.any_eq_true.mpr ⟨p, hp, ?_⟩) (eq_false_iff.mp h)
  simp [hb.1, ← hb.2.1, hb.2.2, of_not_eq_false hbl]

/-- An operation runs under a lease only behind settled ones. -/
structure Ordered (s : Outbox) : Prop where
  behind : ∀ x ∈ s.operations, x.isLeased s.now → ∀ d ∈ s.operations, Before d x →
    d.status.blocks = false
  held : ∀ d ∈ s.operations, d.leaseExpiresAt.isSome → d.status = .running

namespace Ordered

theorem of_eq (hs : s.Ordered) (hop : s'.operations = s.operations) (hnow : s'.now = s.now) :
    s'.Ordered := by
  refine ⟨?_, ?_⟩
  · rw [hop, hnow]
    exact hs.behind
  · rw [hop]
    exact hs.held

/-- Whatever changes an operation keeps the order if it leases the operation only behind
settled ones and makes it block only where nothing later is leased. -/
theorem change (hs : s.Ordered) {id : Id} {f : Delivery → Delivery} (hf : ∀ d, (f d).id = d.id)
    (hsame : ∀ d, SameWork (f d) d)
    (hheld : ∀ d, (f d).leaseExpiresAt.isSome → (f d).status = .running)
    (hleased : ∀ x ∈ s.operations, x.id = id → (f x).isLeased s.now →
      ∀ d ∈ s.operations, Before d x → d.status.blocks = false)
    (hblocks : ∀ d ∈ s.operations, d.id = id → (f d).status.blocks → d.status.blocks = false →
      ∀ x ∈ s.operations, x.isLeased s.now → ¬ Before d x) : (s.change id f hf).Ordered where
  behind x' hx' hl d' hd' hb := by
    obtain ⟨x, hx, rfl⟩ := (mem_change hf).mp hx'
    obtain ⟨d, hd, rfl⟩ := (mem_change hf).mp hd'
    have hmove : ∀ d, SameWork (if d.id = id then f d else d) d := by
      intro d
      split
      · exact hsame d
      · exact ⟨rfl, rfl, rfl, rfl⟩
    have hold : Before d x := hb.congr (hmove d) (hmove x)
    by_cases hidx : x.id = id
    · rw [if_pos hidx] at hl
      have hne : d.id ≠ id := by
        intro hidd
        exact hold.ne (s.operations.eq_of_key hd hx (hidd.trans hidx.symm))
      rw [if_neg hne]
      exact hleased x hx hidx hl d hd hold
    · rw [if_neg hidx] at hl
      have hset := hs.behind x hx hl d hd hold
      split
      · rename_i hidd
        by_contra hbl
        exact hblocks d hd hidd (by simpa using hbl) hset x hx hl hold
      · exact hset
  held d' hd' h := by
    obtain ⟨d, hd, rfl⟩ := (mem_change hf).mp hd'
    split at h
    · rw [if_pos ‹_›]
      exact hheld d h
    · rw [if_neg ‹_›]
      exact hs.held d hd h

/-- A claim takes an operation that no earlier one holds back, and one that blocks its
target already. -/
theorem claim (hs : s.Ordered) {owner : Id} (hd : s.nextDelivery = some d) :
    (s.change d.id (s.leased owner) fun _ => rfl).Ordered := by
  obtain ⟨hmem, hfree, _⟩ := nextDelivery_eq_some hd
  refine hs.change (f := s.leased owner) _ (fun _ => ⟨rfl, rfl, rfl, rfl⟩) (fun _ _ => rfl) ?_ ?_
  · intro x hx hid _ p hp hb
    obtain rfl := s.operations.eq_of_key hx hmem hid
    exact unblocked hfree hp hb
  · intro x hx hid _ _
    obtain rfl := s.operations.eq_of_key hx hmem hid
    cases hst : x.status <;> simp_all [Delivery.isReady, DeliveryStatus.blocks]

/-- Settling gives a lease up. -/
theorem settle (hs : s.Ordered) {backoff : Nat} {a : Attempt} {outcome : Option ConnectorFailure}
    (hd : d ∈ s.operations) (hheld : d.isHeldBy s.now a.owner a.epoch) :
    (s.change d.id (s.settled maxAttempts backoff a outcome) fun _ => rfl).Ordered := by
  refine hs.change (f := s.settled maxAttempts backoff a outcome) _ (fun _ => ⟨rfl, rfl, rfl, rfl⟩)
    (by rintro _ ⟨⟩) ?_ ?_
  · intro x _ _ hl
    simp [Delivery.isLeased, settled] at hl
  · intro x hx hid _ hset
    obtain rfl := s.operations.eq_of_key hx hd hid
    have hrun : x.status = .running := by
      refine hs.held x hx ?_
      simp only [Delivery.isHeldBy, and_eq_true, Option.any_eq_true] at hheld
      obtain ⟨-, _, hexp, -⟩ := hheld
      rw [hexp]
      rfl
    rw [hrun] at hset
    cases hset

/-- A command gives up a lease, and may bring an operation back. -/
theorem command (hs : s.Ordered) {status : DeliveryStatus} (hd : d ∈ s.operations)
    (h : status.blocks → ∀ x ∈ s.operations, x.isLeased s.now → ¬ Before d x) :
    (s.change d.id (commanded status) fun _ => rfl).Ordered := by
  refine hs.change (f := commanded status) _ (fun _ => ⟨rfl, rfl, rfl, rfl⟩) (by rintro _ ⟨⟩) ?_ ?_
  · intro x _ _ hl
    simp [Delivery.isLeased, commanded] at hl
  · intro x hx hid hbl _
    obtain rfl := s.operations.eq_of_key hx hd hid
    exact h hbl

theorem insert (hs : s.Ordered) (hnew : ∀ d' ∈ s.operations, d'.id ≠ d.id)
    (hstatus : d.status = .pending) (hlease : d.leaseExpiresAt = none)
    (h : ∀ x ∈ s.operations, x.isLeased s.now → ¬ Before d x) :
    Ordered { s with operations := s.operations.insert d hnew } where
  behind x hx hl p hp hb := by
    rcases (Table.mem_insert (h := hnew)).mp hx with hold | rfl
    · rcases (Table.mem_insert (h := hnew)).mp hp with hp | rfl
      · exact hs.behind x hold hl p hp hb
      · exact absurd hb (h x hold hl)
    · simp [Delivery.isLeased, hstatus] at hl
  held p hp hsome := by
    rcases (Table.mem_insert (h := hnew)).mp hp with hp | rfl
    · exact hs.held p hp hsome
    · simp [hlease] at hsome

theorem advance (hs : s.Ordered) (elapsed : Nat) : Ordered { s with now := s.now + elapsed } where
  behind x hx hl := by
    refine hs.behind x hx ?_
    simp only [Delivery.isLeased, and_eq_true, Option.any_eq_true, decide_eq_true_eq] at hl ⊢
    obtain ⟨hrun, expiry, hexp, hlt⟩ := hl
    exact ⟨hrun, expiry, hexp, lt_of_le_of_lt (Nat.le_add_right _ _) hlt⟩
  held := hs.held

end Ordered

/-- Whether a later operation of the same target runs under a lease. -/
def isOvertaken (s : Outbox) (d : Delivery) : Bool :=
  s.operations.rows.any fun x => x.isLeased s.now && (d.target.isSome && d.target == x.target)
    && d.precedes x

/-- No operation comes back, or comes late, before one that is being delivered. -/
def keepsOrder (s : Outbox) : OutboxStep → Bool
  | .retry id => s.operations.rows.all fun d => d.id != id || !s.isOvertaken d
  | .queue d => !s.isOvertaken d
  | _ => true

theorem not_before_of_isOvertaken (h : s.isOvertaken d = false) (hx : x ∈ s.operations)
    (hl : x.isLeased s.now) : ¬ Before d x := by
  rintro ⟨hsome, htarget, hprec⟩
  refine absurd (List.any_eq_true.mpr ⟨x, hx, ?_⟩) (eq_false_iff.mp h)
  simp [hl, hsome, ← htarget, hprec]

theorem Change.ordered (h : s.Change step s') (hg : s.keepsOrder step) (hs : s.Ordered) :
    s'.Ordered := by
  cases h with
  | phase | send | remote | ended => exact hs.of_eq rfl rfl
  | claim hnew hd => exact (hs.claim hd).of_eq rfl rfl
  | settle _ hd _ _ hheld => exact (hs.settle hd hheld).of_eq rfl rfl
  | retry hd _ =>
    refine hs.command hd fun _ x hx hl => not_before_of_isOvertaken ?_ hx hl
    simpa using List.all_eq_true.mp hg _ hd
  | cancel hd _ => exact hs.command hd nofun
  | @absent d hd _ =>
    have hfailed : (s.change d.id (commanded .failed) fun _ => rfl).Ordered := hs.command hd nofun
    exact hfailed.of_eq rfl rfl
  | queue hnew hstatus hlease =>
    refine hs.insert hnew hstatus hlease fun x hx hl => not_before_of_isOvertaken ?_ hx hl
    simpa [keepsOrder] using hg
  | advance elapsed => exact hs.advance elapsed

theorem ordered_of_reachable (h : (outbox maxAttempts).ReachableBy (keepsOrder · ·) s) :
    s.Ordered := by
  refine h.invariant ?_ ?_
  · rintro _ rfl
    exact ⟨by rintro _ ⟨⟩, by rintro _ ⟨⟩⟩
  · intro _ _ _ hs hg hstep
    exact (next_change hstep).ordered hg hs

/-- Two leases of one target are one. -/
theorem Ordered.eq_of_isLeased (hs : s.Ordered) {y : Delivery} (hx : x ∈ s.operations)
    (hy : y ∈ s.operations) (hlx : x.isLeased s.now) (hly : y.isLeased s.now)
    (hsome : x.target.isSome)
    (htarget : x.target = y.target) : x = y := by
  have hblocks : ∀ d : Delivery, d.isLeased s.now → d.status.blocks := by
    intro d hl
    simp only [Delivery.isLeased, and_eq_true, beq_iff_eq] at hl
    rw [hl.1]
    rfl
  by_contra hne
  rcases precedes_total fun hid => hne (s.operations.eq_of_key hx hy hid) with hp | hp
  · simpa [hblocks x hlx] using hs.behind y hy hly x hx ⟨hsome, htarget, hp⟩
  · simpa [hblocks y hly] using hs.behind x hx hlx y hy ⟨htarget ▸ hsome, htarget.symm, hp⟩

end Outbox

open Outbox

/-- As long as no operation comes back before one that is being delivered: one operation of
a target runs under a lease at most, and an operation is claimed only behind settled ones. -/
theorem one_lease_per_target {maxAttempts : Nat} {s : Outbox}
    (h : (outbox maxAttempts).ReachableBy (keepsOrder · · = true) s) :
    (∀ x ∈ s.operations, ∀ y ∈ s.operations, x.isLeased s.now = true → y.isLeased s.now = true →
      x.target.isSome = true → x.target = y.target → x = y)
    ∧ ∀ d, s.nextDelivery = some d → ∀ p ∈ s.operations, p.target.isSome = true →
      p.target = d.target → p.precedes d = true → p.status.blocks = false := by
  refine ⟨?_, ?_⟩
  · intro x hx y hy
    exact (ordered_of_reachable h).eq_of_isLeased hx hy
  · intro d hd p hp hsome htarget hprec
    exact unblocked (nextDelivery_eq_some hd).2.1 hp ⟨hsome, htarget, hprec⟩

/-- Two comments on one item, the first of which is refused for good. -/
def Outbox.refused : List OutboxStep :=
  [.queue { id := 1, createdAt := 0, kind := .forgeComment, payload := { forgeItemId := some 7 } },
   .queue { id := 2, createdAt := 0, kind := .forgeComment, payload := { forgeItemId := some 7 } },
   .claim 10 100, .lookUp 100 false, .authorize 100, .send 100 200, .remote 200 .refused,
   .refusal 100 "forge_rejected" false 0, .settle 0 100, .claim 10 101]

theorem one_lease_per_target_refused :
    let s := System.replay (next 5) keepsOrder Outbox.refused .initial
    s.operations.rows.map (·.isLeased s.now) = [false, true]
    ∧ ∀ x ∈ s.operations, ∀ y ∈ s.operations, x.isLeased s.now = true → y.isLeased s.now = true →
      x.target.isSome = true → x.target = y.target → x = y :=
  ⟨by decide, (one_lease_per_target (System.replay_reachable (next 5) keepsOrder _)).1⟩

/-- The first comment is retried while the second one is being delivered. -/
def Outbox.retried : Outbox :=
  System.replay (next 5) (fun _ _ => true) (refused ++ [.retry 1, .claim 11 102]) .initial

theorem two_leases_per_target :
    (outbox 5).Reachable Outbox.retried
    ∧ Outbox.retried.operations.rows.map (fun d => (d.target, d.isLeased retried.now))
      = [(some (.item 7), true), (some (.item 7), true)] :=
  ⟨(System.replay_reachable (next 5) _ _).reachable, by decide⟩

end Horizon
