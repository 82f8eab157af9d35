import Mathlib.Data.Set.Basic

/-!
# Transactions that commit or roll back

A transaction over states `σ` either commits a value together with a new state or raises an error,
in which case the caller keeps the state it started from. `Ensures f s Q` says that *if* `f` commits
from `s`, the outcome satisfies `Q`; it is computed structurally, by one rule for each way of
building a transaction.  `Keeps R f` is the special case of `Ensures` in which the outcome is
compared with the starting state by a relation `R`; when `R` is a preorder it is closed under
sequencing and iteration, so that what a long transaction may change can be read off from what its
single writes may change.
-/

universe u v

/-- A transaction over states `σ` raising errors `ε`. -/
abbrev Transaction (σ : Type u) (ε : Type v) (α : Type u) := StateT σ (Except ε) α

namespace Transaction

open List

variable {σ α β : Type u} {ε : Type v}

/-- Raise an error, rolling the transaction back. -/
def raise (e : ε) : Transaction σ ε α := fun _ => .error e

/-- Read the current state without changing it; the reading may raise. -/
def query (q : σ → Except ε α) : Transaction σ ε α := fun s => (q s).map (·, s)

/-- Run a transaction for every element of a list, in order. -/
def each {ι : Type*} (f : ι → Transaction σ ε PUnit) : List ι → Transaction σ ε PUnit
  | [] => pure ⟨⟩
  | i :: is => do
    f i
    each f is

/-- Run a transaction for the elements of a list, in order, until one yields a
value. -/
def firstSome {ι : Type*} (f : ι → Transaction σ ε (Option α)) : List ι → Transaction σ ε (Option α)
  | [] => pure none
  | i :: is => do
    match ← f i with
    | some a => pure (some a)
    | none => firstSome f is

/-- Run a transaction in a savepoint: an error that is caught undoes its writes. -/
def savepoint (caught : ε → Bool) (f : Transaction σ ε α) : Transaction σ ε (Option α) := fun s =>
  match f s with
  | .ok (a, s') => .ok (some a, s')
  | .error e => if caught e then .ok (none, s) else .error e

/-- If `f` commits from `s`, its outcome satisfies `Q`. -/
def Ensures (f : Transaction σ ε α) (s : σ) (Q : α → σ → Prop) : Prop :=
  ∀ a s', f s = .ok (a, s') → Q a s'

variable {ι : Type*} {c : Prop} {f : Transaction σ ε α} {s : σ} {Q : α → σ → Prop}

/-! ## Checks

A check that may raise is an `Except` computation; what it has established is read off
from the fact that it returned. -/

@[simp] theorem check_bind_eq_ok {x : Except ε α} {f : α → Except ε β} {b : β} :
    (x >>= f) = .ok b ↔ ∃ a, x = .ok a ∧ f a = .ok b := by
  cases x with
  | error e => exact ⟨nofun, fun ⟨_, h, _⟩ => nomatch h⟩
  | ok a => exact ⟨fun h => ⟨a, rfl, h⟩, by rintro ⟨_, ⟨⟩, h⟩; exact h⟩

theorem check_ite_bind_ok {ε α β : Type} [Decidable c] {x y : Except ε α}
    {f : α → Except ε β} {b : β}
    (h : (if c then x >>= f else y >>= f) = .ok b) : ∃ a, f a = .ok b := by
  split at h
  all_goals
    obtain ⟨a, -, h⟩ := check_bind_eq_ok.mp h
    exact ⟨a, h⟩

@[simp] theorem check_pure_eq_ok {a b : α} : (pure a : Except ε α) = .ok b ↔ a = b :=
  ⟨fun h => by cases h; rfl, fun h => by rw [h]; rfl⟩

@[simp] theorem check_map_eq_ok {x : Except ε α} {f : α → β} {b : β} :
    (f <$> x) = .ok b ↔ ∃ a, x = .ok a ∧ f a = b := by
  cases x with
  | error e => exact ⟨nofun, fun ⟨_, h, _⟩ => nomatch h⟩
  | ok a => exact ⟨fun h => ⟨a, rfl, (Except.ok.inj h)⟩, by rintro ⟨_, ⟨⟩, rfl⟩; rfl⟩

/-- A check made for every element of a list, without leaving the loop early. -/
theorem check_forIn_eq_ok {g : ι → PUnit → Except ε (ForInStep PUnit)} {is : List ι} {u v : PUnit}
    (hg : ∀ i x, g i ⟨⟩ = .ok x → x = .yield ⟨⟩) (h : forIn is u g = .ok v) :
    ∀ i ∈ is, ∃ x, g i ⟨⟩ = .ok x := by
  induction is with
  | nil => exact fun _ hi => absurd hi not_mem_nil
  | cons i is ih =>
    rw [forIn_cons, check_bind_eq_ok] at h
    obtain ⟨x, hx, h⟩ := h
    obtain rfl := hg i x hx
    intro j hj
    rcases mem_cons.mp hj with rfl | hj
    · exact ⟨_, hx⟩
    · exact ih h j hj

theorem check_filterAuxM_eq_ok {ι : Type} {f : ι → Except ε Bool} {is acc is' : List ι}
    (h : filterAuxM f is acc = .ok is') {i : ι} :
    i ∈ is' ↔ i ∈ acc ∨ (i ∈ is ∧ f i = .ok true) := by
  induction is generalizing acc with
  | nil =>
    cases h
    simp
  | cons j is ih =>
    obtain ⟨b, _, h⟩ := check_bind_eq_ok.mp h
    rw [ih h]
    cases b with
    | false | true => grind

/-- The elements that a test which may raise keeps. -/
theorem check_filterM_eq_ok {ι : Type} {f : ι → Except ε Bool} {is is' : List ι}
    (h : is.filterM f = .ok is') {i : ι} : i ∈ is' ↔ i ∈ is ∧ f i = .ok true := by
  obtain ⟨acc, hacc, h⟩ := check_bind_eq_ok.mp h
  rw [← check_pure_eq_ok.mp h, mem_reverse, check_filterAuxM_eq_ok hacc]
  simp

/-! ## The shape of a committed run -/

theorem bind_apply (f : Transaction σ ε α) (g : α → Transaction σ ε β) (s : σ) :
    (f >>= g) s = match f s with
      | .ok (a, s') => g a s'
      | .error e => .error e := by
  change (f s >>= fun p => g p.1 p.2) = _
  cases f s <;> rfl

theorem query_eq_ok {q : σ → Except ε α} {s' : σ} {a : α} :
    query q s = .ok (a, s') ↔ q s = .ok a ∧ s' = s := by
  rw [query]
  cases q s with
  | error e => exact ⟨nofun, fun h => nomatch h.1⟩
  | ok b =>
    constructor
    · intro h
      cases h
      exact ⟨rfl, rfl⟩
    · rintro ⟨h, rfl⟩
      cases h
      rfl

/-- A sequence that commits passes through the commit of its first part. -/
theorem bind_eq_ok {g : α → Transaction σ ε β} {s' : σ} {b : β} :
    (f >>= g) s = .ok (b, s') ↔ ∃ a s₁, f s = .ok (a, s₁) ∧ g a s₁ = .ok (b, s') := by
  rw [bind_apply]
  constructor
  · intro h
    cases hf : f s with
    | error e => rw [hf] at h; cases h
    | ok r => rw [hf] at h; exact ⟨r.1, r.2, rfl, h⟩
  · rintro ⟨a, s₁, hf, hg⟩
    rw [hf]
    exact hg

/-! ## Rules for `Ensures` -/

@[simp] theorem ensures_pure {a : α} : Ensures (pure a : Transaction σ ε α) s Q ↔ Q a s :=
  ⟨fun h => h a s rfl, by rintro h _ _ ⟨⟩; exact h⟩

@[simp] theorem ensures_get {Q : σ → σ → Prop} : Ensures (get : Transaction σ ε σ) s Q ↔ Q s s :=
  ⟨fun h => h s s rfl, by rintro h _ _ ⟨⟩; exact h⟩

@[simp] theorem ensures_set {s' : σ} {Q : PUnit → σ → Prop} :
    Ensures (set s' : Transaction σ ε PUnit) s Q ↔ Q ⟨⟩ s' :=
  ⟨fun h => h ⟨⟩ s' rfl, by rintro h _ _ ⟨⟩; exact h⟩

@[simp] protected theorem Ensures.raise {e : ε} : Ensures (raise e : Transaction σ ε α) s Q :=
  fun _ _ h => by cases h

@[simp] theorem ensures_query {q : σ → Except ε α} :
    Ensures (query q) s Q ↔ ∀ a, q s = .ok a → Q a s := by
  constructor
  · intro h a ha
    exact h a s (by rw [query, ha]; rfl)
  · intro h a s' ha
    rw [query] at ha
    cases hq : q s with
    | error e => rw [hq] at ha; cases ha
    | ok b => rw [hq] at ha; cases ha; exact h a hq

@[simp] theorem ensures_bind {g : α → Transaction σ ε β} {Q : β → σ → Prop} :
    Ensures (f >>= g) s Q ↔ Ensures f s fun a s₁ => Ensures (g a) s₁ Q := by
  constructor
  · intro h a s₁ hf b s' hg
    exact h b s' (bind_eq_ok.mpr ⟨a, s₁, hf, hg⟩)
  · intro h b s' hfg
    obtain ⟨a, s₁, hf, hg⟩ := bind_eq_ok.mp hfg
    exact h a s₁ hf b s' hg

@[simp] theorem ensures_map {g : α → β} {Q : β → σ → Prop} :
    Ensures (g <$> f) s Q ↔ Ensures f s fun a s' => Q (g a) s' := by
  rw [map_eq_pure_bind, ensures_bind]
  simp only [ensures_pure]

theorem ensures_ite [Decidable c] {g : Transaction σ ε α} :
    Ensures (if c then f else g) s Q ↔ (c → Ensures f s Q) ∧ (¬ c → Ensures g s Q) := by
  by_cases h : c <;> simp [h]

protected theorem Ensures.pure {a : α} (h : Q a s) :
    Ensures (pure a : Transaction σ ε α) s Q := ensures_pure.mpr h

protected theorem Ensures.ite [Decidable c] {g : Transaction σ ε α}
    (hf : c → Ensures f s Q) (hg : ¬ c → Ensures g s Q) : Ensures (if c then f else g) s Q :=
  ensures_ite.mpr ⟨hf, hg⟩

/-- What a check that did not refuse leaves to show. -/
protected theorem Ensures.guard [Decidable c] {e : ε} (hf : ¬ c → Ensures f s Q) :
    Ensures (if c then raise e else f) s Q :=
  ensures_ite.mpr ⟨fun _ => Ensures.raise, hf⟩

protected theorem Ensures.read {g : σ → Transaction σ ε α} (hg : Ensures (g s) s Q) :
    Ensures (get >>= g) s Q :=
  ensures_bind.mpr (ensures_get.mpr hg)

protected theorem Ensures.ask {q : σ → Except ε β} {g : β → Transaction σ ε α}
    (hg : ∀ b, q s = .ok b → Ensures (g b) s Q) : Ensures (query q >>= g) s Q :=
  ensures_bind.mpr (ensures_query.mpr hg)

theorem Ensures.mono {P : α → σ → Prop} (h : Ensures f s P)
    (hPQ : ∀ a s', P a s' → Q a s') : Ensures f s Q :=
  fun a s' hf => hPQ a s' (h a s' hf)

/-- A sequence, one part after the other. -/
protected theorem Ensures.bind {g : α → Transaction σ ε β} {P : α → σ → Prop}
    {Q : β → σ → Prop} (hf : Ensures f s P) (hg : ∀ a s₁, P a s₁ → Ensures (g a) s₁ Q) :
    Ensures (f >>= g) s Q :=
  ensures_bind.mpr (hf.mono hg)

theorem Ensures.and {P : α → σ → Prop} (hP : Ensures f s P)
    (hQ : Ensures f s Q) : Ensures f s fun a s' => P a s' ∧ Q a s' :=
  fun a s' hf => ⟨hP a s' hf, hQ a s' hf⟩

/-- What every pass of a loop establishes again holds after it. -/
theorem ensures_each {J : σ → Prop} {f : ι → Transaction σ ε PUnit} {is : List ι} (hs : J s)
    (hf : ∀ i ∈ is, ∀ s, J s → Ensures (f i) s fun _ s' => J s') :
    Ensures (each f is) s fun _ s' => J s' := by
  induction is generalizing s with
  | nil => exact ensures_pure.mpr hs
  | cons i is ih =>
    rw [each]
    refine .bind (hf i mem_cons_self s hs) fun _ s' hs' => ?_
    exact ih hs' fun j hj => hf j (mem_cons_of_mem i hj)

/-- A loop whose invariant speaks about the passes still to come. -/
theorem ensures_each_rest {J : List ι → σ → Prop} {f : ι → Transaction σ ε PUnit} {is : List ι}
    (hs : J is s) (hf : ∀ i rest s, J (i :: rest) s → Ensures (f i) s fun _ s' => J rest s') :
    Ensures (each f is) s fun _ s' => J [] s' := by
  induction is generalizing s with
  | nil => exact ensures_pure.mpr hs
  | cons i is ih =>
    exact .bind (hf i is s hs) fun _ s' hs' => ih hs'

/-- A search keeps `J` while it finds nothing and ends in `Q`. -/
theorem ensures_firstSome {J : σ → Prop} {Q : Option α → σ → Prop}
    {f : ι → Transaction σ ε (Option α)} {is : List ι} (hs : J s)
    (hf : ∀ i ∈ is, ∀ s, J s → Ensures (f i) s fun r s' => Q r s' ∧ (r = none → J s'))
    (hnone : ∀ s, J s → Q none s) : Ensures (firstSome f is) s Q := by
  induction is generalizing s with
  | nil => exact ensures_pure.mpr (hnone s hs)
  | cons i is ih =>
    rw [firstSome]
    refine .bind (hf i mem_cons_self s hs) fun r s' hr => ?_
    cases r with
    | some a => exact ensures_pure.mpr hr.1
    | none => exact ih (hr.2 rfl) fun j hj => hf j (mem_cons_of_mem i hj)

/-! ## Relations kept by a transaction -/

/-- Every commit of `f` relates the state it starts from to the one it leaves. -/
def Keeps (R : σ → σ → Prop) (f : Transaction σ ε α) : Prop := ∀ s, Ensures f s fun _ s' => R s s'

section

variable {q : σ → Except ε α} {g : α → Transaction σ ε β} {R : σ → σ → Prop}

theorem Keeps.mono {R' : σ → σ → Prop} (h : Keeps R f)
    (hR : ∀ s s', R s s' → R' s s') : Keeps R' f :=
  fun s a s' hf => hR s s' (h s a s' hf)

protected theorem Keeps.raise {e : ε} : Keeps R (raise e : Transaction σ ε α) :=
  fun _ => Ensures.raise

protected theorem Keeps.ite [Decidable c] {g : Transaction σ ε α} (hf : c → Keeps R f)
    (hg : ¬ c → Keeps R g) : Keeps R (if c then f else g) := by
  by_cases h : c
  · simpa only [h, if_true] using hf h
  · simpa only [h, if_false] using hg h

/-- A check that refuses. -/
protected theorem Keeps.guard [Decidable c] {e : ε} (hf : Keeps R f) :
    Keeps R (if c then raise e else f) :=
  Keeps.ite (fun _ => Keeps.raise) fun _ => hf

protected theorem Keeps.pure [Std.Refl R] {a : α} : Keeps R (pure a : Transaction σ ε α) :=
  fun s => ensures_pure.mpr (refl s)

protected theorem Keeps.get [Std.Refl R] : Keeps R (get : Transaction σ ε σ) := fun s =>
  ensures_get.mpr (refl s)

/-- A case in which there is nothing to do. -/
protected theorem Keeps.unless [Std.Refl R] [Decidable c] {a : α} (hf : Keeps R f) :
    Keeps R (if c then pure a else f) :=
  Keeps.ite (fun _ => Keeps.pure) fun _ => hf

protected theorem Keeps.query [Std.Refl R] : Keeps R (query q) :=
  fun s => ensures_query.mpr fun _ _ => refl s

protected theorem Keeps.map {g : α → β} (hf : Keeps R f) : Keeps R (g <$> f) :=
  fun s => ensures_map.mpr (hf s)

variable [IsTrans σ R]

/-- Sequencing from a fixed state: the second part is only looked at in the
states the first part can leave. -/
theorem Ensures.bind_keeps (hf : Ensures f s fun _ s' => R s s')
    (hg : Ensures f s fun a s₁ => Ensures (g a) s₁ fun _ s' => R s₁ s') :
    Ensures (f >>= g) s fun _ s' => R s s' := by
  rw [ensures_bind]
  intro a s₁ h b s' h'
  exact IsTrans.trans _ _ _ (hf a s₁ h) (hg a s₁ h b s' h')

protected theorem Keeps.bind (hf : Keeps R f) (hg : ∀ a, Keeps R (g a)) : Keeps R (f >>= g) :=
  fun s => (hf s).bind_keeps fun a s₁ _ => hg a s₁

/-- A sequence that ends with a value. -/
protected theorem Keeps.done [Std.Refl R] {g : α → β} (hf : Keeps R f) :
    Keeps R (f >>= fun a => pure (g a)) :=
  Keeps.bind hf fun _ => Keeps.pure

protected theorem Keeps.read [Std.Refl R] {g : σ → Transaction σ ε β} (hg : ∀ s, Keeps R (g s)) :
    Keeps R (get >>= g) :=
  Keeps.bind Keeps.get hg

protected theorem Keeps.ask [Std.Refl R] (hg : ∀ a, Keeps R (g a)) : Keeps R (query q >>= g) :=
  Keeps.bind Keeps.query hg

protected theorem Keeps.each [Std.Refl R] {f : ι → Transaction σ ε PUnit} {is : List ι}
    (hf : ∀ i ∈ is, Keeps R (f i)) : Keeps R (each f is) := by
  induction is with
  | nil => exact Keeps.pure
  | cons i is ih =>
    refine Keeps.bind (hf i mem_cons_self) fun _ => ih fun j hj => ?_
    exact hf j (mem_cons_of_mem i hj)

end

protected theorem Keeps.savepoint {R : σ → σ → Prop} [Std.Refl R] {caught : ε → Bool}
    (hf : Keeps R f) : Keeps R (savepoint caught f) := by
  intro s a s' h
  rw [savepoint] at h
  cases hs : f s with
  | ok r =>
    rw [hs] at h
    cases h
    exact hf s r.1 r.2 hs
  | error e =>
    rw [hs] at h
    by_cases he : caught e
    · simp only [he, if_true] at h
      cases h
      exact refl s
    · simp [he] at h

end Transaction
