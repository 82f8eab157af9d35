import Horizon.Worker.Journal

/-!
# The operations of a journal

What the transactions of the journal do to the operations it holds.  A row stays the same
operation until it is acknowledged, and an acknowledged row is not touched: a transaction
reworks the rows that are not acknowledged (`Journal.Reworked`), acknowledges one of them
(`Journal.Acknowledges`), appends a new one (`Journal.enqueue_cases`) or forgets
acknowledged ones.
-/

namespace Horizon

open Transaction Table List

variable {e e' : JournalEntry} {p : JournalEntry → Bool} {f : JournalEntry → JournalEntry}
  {now horizon seconds retryAt : Int} {destination : Destination} {token id : Id}
  {error : Option String}

/-! ## Rows -/

/-- Two rows of one operation. -/
structure JournalEntry.SameOperation (e e' : JournalEntry) : Prop where
  operationId : e'.operationId = e.operationId
  envelope : e'.envelope = e.envelope
  destination : e'.destination = e.destination
  createdAt : e'.createdAt = e.createdAt

/-- A row stays the same operation; once it is acknowledged it is not touched. -/
structure JournalEntry.Keeps (e e' : JournalEntry) : Prop extends e.SameOperation e' where
  kept : e.state = .acknowledged → e' = e

/-- A row stays the same operation, and is not acknowledged by the change. -/
structure JournalEntry.Reworked (e e' : JournalEntry) : Prop extends e.Keeps e' where
  not_new : e'.state = .acknowledged → e' = e

namespace JournalEntry

variable {e'' : JournalEntry}

theorem SameOperation.refl (e : JournalEntry) : e.SameOperation e := ⟨rfl, rfl, rfl, rfl⟩

theorem SameOperation.trans (h : e.SameOperation e') (h' : e'.SameOperation e'') :
    e.SameOperation e'' where
  operationId := h'.operationId.trans h.operationId
  envelope := h'.envelope.trans h.envelope
  destination := h'.destination.trans h.destination
  createdAt := h'.createdAt.trans h.createdAt

namespace Reworked

theorem refl (e : JournalEntry) : e.Reworked e := ⟨⟨.refl e, fun _ => rfl⟩, fun _ => rfl⟩

theorem trans (h : e.Reworked e') (h' : e'.Reworked e'') : e.Reworked e'' where
  toSameOperation := h.toSameOperation.trans h'.toSameOperation
  kept he := by
    have heq := h.kept he
    rw [h'.kept (heq ▸ he), heq]
  not_new he := by
    have heq := h'.not_new he
    rw [heq, h.not_new (heq ▸ he)]

/-- A row that is not acknowledged, before or after. -/
theorem of_ne (hsame : e.SameOperation e') (h : e.state ≠ .acknowledged)
    (h' : e'.state ≠ .acknowledged) : e.Reworked e' :=
  ⟨⟨hsame, fun he => (h he).elim⟩, fun he => (h' he).elim⟩

end Reworked

end JournalEntry

/-! ## Journals -/

namespace Journal

/-- The operations of a journal, in order. -/
def log (j : Journal) : List (Id × WorkerOperation) :=
  j.operations.rows.map fun e => (e.operationId, e.envelope)

/-- The operations that are acknowledged. -/
def acknowledged (j : Journal) : Set Id :=
  {i | ∃ e ∈ j.operations, e.operationId = i ∧ e.state = .acknowledged}

/-- Row by row, the journal is reworked. -/
def Reworked (j j' : Journal) : Prop :=
  ∃ g : JournalEntry → JournalEntry, j'.operations.rows = j.operations.rows.map g
    ∧ ∀ e ∈ j.operations, e.Reworked (g e)

/-- Every operation of `j` is in `j'`. -/
def Retains (j j' : Journal) : Prop := ∀ e ∈ j.operations, ∃ e' ∈ j'.operations, e.Keeps e'

variable {j j' j'' : Journal}

namespace Reworked

theorem of_eq (h : j'.operations = j.operations) : j.Reworked j' :=
  ⟨id, by rw [h, map_id], fun e _ => .refl e⟩

variable (h : j.Reworked j')

include h

theorem trans (h' : j'.Reworked j'') : j.Reworked j'' := by
  obtain ⟨g, hrows, hg⟩ := h
  obtain ⟨g', hrows', hg'⟩ := h'
  refine ⟨g' ∘ g, by rw [hrows', hrows, map_map], fun e he => (hg e he).trans (hg' _ ?_)⟩
  rw [mem_def, hrows]
  exact mem_map_of_mem he

theorem exists_of_mem (he : e' ∈ j'.operations) : ∃ e ∈ j.operations, e.Reworked e' := by
  obtain ⟨g, hrows, hg⟩ := h
  rw [mem_def, hrows] at he
  obtain ⟨e, hmem, rfl⟩ := mem_map.mp he
  exact ⟨e, hmem, hg e hmem⟩

theorem exists_mem (he : e ∈ j.operations) : ∃ e' ∈ j'.operations, e.Reworked e' := by
  obtain ⟨g, hrows, hg⟩ := h
  refine ⟨g e, ?_, hg e he⟩
  rw [mem_def, hrows]
  exact mem_map_of_mem he

theorem retains : j.Retains j' := by
  intro e he
  obtain ⟨e', he', hr⟩ := h.exists_mem he
  exact ⟨e', he', hr.toKeeps⟩

/-- The acknowledged rows are the same. -/
theorem mem_iff (he : e.state = .acknowledged) : e ∈ j'.operations ↔ e ∈ j.operations := by
  constructor
  · intro hmem
    obtain ⟨_, _, hr⟩ := h.exists_of_mem hmem
    rwa [hr.not_new he]
  · intro hmem
    obtain ⟨g, hrows, hg⟩ := h
    rw [mem_def, hrows, ← (hg e hmem).kept he]
    exact mem_map_of_mem hmem

end Reworked

theorem updateOperations_reworked {hf : ∀ e, (f e).operationId = e.operationId}
    (h : ∀ e ∈ j.operations, p e → e.Reworked (f e)) :
    Ensures (updateOperations p f hf) j fun _ j' => j.Reworked j' := by
  rintro _ _ ⟨⟩
  refine ⟨fun e => if p e then f e else e, rfl, fun e he => ?_⟩
  dsimp only
  split
  · exact h e he ‹_›
  · exact .refl e

theorem isBeyondHorizon_state (h : isBeyondHorizon horizon now e) : e.state ≠ .acknowledged := by
  intro he
  simp [isBeyondHorizon, he] at h

theorem isDue_state (h : j.isDue destination now e) : e.state ≠ .acknowledged := by
  intro he
  simp [isDue, he] at h

/-- A claim reworks the journal; what it returns is an operation that is not acknowledged. -/
theorem claim_reworked :
    Ensures (claim horizon now seconds destination token) j fun r j' => j.Reworked j' ∧
      ∀ row, r = some row → ∃ e ∈ j.operations, e.operationId = row.operationId
        ∧ e.envelope = row.envelope ∧ e.state ≠ .acknowledged := by
  rw [claim]
  refine .bind (updateOperations_reworked ?_) fun _ j₁ h₁ => ?_
  · intro e _ hp
    exact .of_ne ⟨rfl, rfl, rfl, rfl⟩ (isBeyondHorizon_state hp) (by simp)
  refine .read ?_
  cases hrow : j₁.operations.rows.find? (j₁.isDue destination now) with
  | none =>
    rw [ensures_pure]
    exact ⟨h₁, fun _ h => by cases h⟩
  | some row =>
    have hmem : row ∈ j₁.operations := mem_of_find?_eq_some hrow
    have hdue := isDue_state (find?_some hrow)
    refine ensures_bind.mpr (Ensures.mono (updateOperations_reworked ?_) fun _ _ h₂ => ?_)
    · intro e he hp
      obtain rfl : e = row := j₁.operations.eq_of_key he hmem (by simpa using hp)
      exact .of_ne ⟨rfl, rfl, rfl, rfl⟩ hdue (by simp)
    · obtain ⟨e, he, hr⟩ := h₁.exists_of_mem hmem
      refine .pure ⟨h₁.trans h₂, ?_⟩
      rintro _ ⟨⟩
      refine ⟨e, he, hr.operationId.symm, hr.envelope.symm, fun hack => hdue ?_⟩
      rw [hr.kept hack]
      exact hack

/-- Only a claim that is held is renewed. -/
theorem renewDelivery_reworked :
    Ensures (renewDelivery now seconds id token) j fun _ j' => j.Reworked j' := by
  rw [renewDelivery]
  refine .bind (updateOperations_reworked ?_) fun _ j' h' => .pure h'
  intro e _ hp
  simp only [Bool.and_eq_true, beq_iff_eq] at hp
  exact .of_ne ⟨rfl, rfl, rfl, rfl⟩ (by simp [hp.2]) (by simp [hp.2])

theorem retryPublication_reworked {note : Option String} :
    Ensures (retryPublication id note) j fun _ j' => j.Reworked j' := by
  refine .guard fun _ => .read ?_
  cases hrow : j.operations.find? id with
  | none => exact .raise
  | some row =>
    obtain ⟨hmem, rfl⟩ := find?_eq_some.mp hrow
    refine .ite (fun hc => ?_) fun _ => .raise
    refine ensures_bind.mpr
      (Ensures.mono (updateOperations_reworked ?_) fun _ j' h' => .pure h')
    intro e he hp
    obtain rfl : e = row := j.operations.eq_of_key he hmem (by simpa using hp)
    refine .of_ne ⟨rfl, rfl, rfl, rfl⟩ (fun hack => ?_) (by simp)
    simp [hack] at hc

/-- Settling an operation without success reworks the journal. -/
theorem settle_reworked {state : DeliveryState}
    (hclaim : ∀ e ∈ j.operations, e.state = .acknowledged → e.claimToken = none)
    (hstate : state ≠ .acknowledged) :
    Ensures (settle now id token state retryAt error) j fun _ j' => j.Reworked j' := by
  rw [settle]
  refine .guard fun _ => ?_
  refine .bind (updateOperations_reworked ?_) fun n j' h' => ?_
  · intro e he hp
    refine .of_ne ⟨rfl, rfl, rfl, rfl⟩ (fun hack => ?_) hstate
    simp [hclaim e he hack] at hp
  · exact .ite (fun _ => .raise) fun _ => .pure h'

/-- A journal goes on to one in which an operation is acknowledged as well. -/
structure Acknowledges (id : Id) (j j' : Journal) : Prop where
  log : j'.log = j.log
  acknowledged : j'.acknowledged = insert id j.acknowledged
  unclaimed : ∀ e ∈ j'.operations, e.state = .acknowledged → e.claimToken = none
  retains : j.Retains j'

theorem acknowledges_updateWhere {hf : ∀ e, (f e).operationId = e.operationId}
    (hclaim : ∀ e ∈ j.operations, e.state = .acknowledged → e.claimToken = none)
    (hid : ∀ e, p e → e.operationId = id ∧ e.claimToken ≠ none)
    (hsame : ∀ e : JournalEntry, e.SameOperation (f e)) (hstate : ∀ e, (f e).state = .acknowledged)
    (htoken : ∀ e, (f e).claimToken = none) (hex : ∃ e ∈ j.operations, p e) :
    j.Acknowledges id { j with operations := j.operations.updateWhere p f hf } where
  log := by
    rw [Journal.log, Journal.log, rows_updateWhere, map_map]
    refine map_congr_left fun e _ => ?_
    rw [Function.comp]
    split
    · rw [hf, (hsame e).envelope]
    · rfl
  acknowledged := by
    ext i
    constructor
    · rintro ⟨_, hmem, rfl, hack⟩
      obtain ⟨e, he, rfl⟩ := (mem_updateWhere (e := hf)).mp hmem
      by_cases hp : p e
      · rw [if_pos hp, hf]
        exact .inl (hid e hp).1
      · rw [if_neg hp] at hack ⊢
        exact .inr ⟨e, he, rfl, hack⟩
    · rintro (rfl | ⟨e, he, rfl, hack⟩)
      · obtain ⟨e, he, hp⟩ := hex
        refine ⟨f e, (mem_updateWhere (e := hf)).mpr ⟨e, he, if_pos hp⟩, ?_, hstate e⟩
        rw [hf, (hid e hp).1]
      · refine ⟨_, (mem_updateWhere (e := hf)).mpr ⟨e, he, rfl⟩, ?_, ?_⟩
        · split
          · exact hf e
          · rfl
        · split
          · exact hstate e
          · exact hack
  unclaimed := by
    rintro _ hmem hack
    obtain ⟨e, he, rfl⟩ := (mem_updateWhere (e := hf)).mp hmem
    by_cases hp : p e
    · rw [if_pos hp]
      exact htoken e
    · rw [if_neg hp] at hack ⊢
      exact hclaim e he hack
  retains := by
    intro e he
    refine ⟨_, (mem_updateWhere (e := hf)).mpr ⟨e, he, rfl⟩, ?_⟩
    split
    · exact ⟨hsame e, fun hack => ((hid e ‹_›).2 (hclaim e he hack)).elim⟩
    · exact ⟨.refl e, fun _ => rfl⟩

/-- Settling an operation with success acknowledges it. -/
theorem settle_acknowledges
    (hclaim : ∀ e ∈ j.operations, e.state = .acknowledged → e.claimToken = none) :
    Ensures (settle now id token .acknowledged retryAt error) j fun _ j' =>
      j.Acknowledges id j' := by
  rw [settle]
  refine .guard fun _ => ?_
  rw [ensures_bind]
  rintro n j' ⟨⟩
  refine .ite (fun _ => .raise) fun hone => .pure ?_
  have hex := countP_pos_iff.mp (Nat.lt_of_lt_of_eq Nat.one_pos (not_not.mp hone).symm)
  refine acknowledges_updateWhere hclaim ?_ (fun _ => ⟨rfl, rfl, rfl, rfl⟩) (fun _ => rfl)
    (fun _ => rfl) hex
  intro e hp
  simp only [Bool.and_eq_true, beq_iff_eq] at hp
  exact ⟨hp.1, by simp [hp.2]⟩

/-- A new operation is appended; one that is known leaves the journal as it is. -/
theorem enqueue_cases {clock : HostClock} {refusal : Option String} {envelope : WorkerOperation} :
    Ensures (enqueue clock refusal id envelope destination) j fun _ j' => j' = j ∨
      id ∉ j.log.map Prod.fst ∧ ∃ row : JournalEntry, row.operationId = id ∧
        row.envelope = envelope ∧ row.state = .pending ∧
        j'.operations.rows = j.operations.rows ++ [row] := by
  rintro r j' h
  rw [enqueue] at h
  split at h
  · split at h
    · cases h
    · cases h
      exact .inl rfl
  · rename_i hnone
    cases refusal with
    | some _ => cases h
    | none =>
      cases h
      refine .inr ⟨?_, _, rfl, rfl, rfl, rfl⟩
      rw [log, map_map]
      intro hid
      obtain ⟨e, he, rfl⟩ := mem_map.mp hid
      exact find?_eq_none.mp hnone e he rfl

end Journal

end Horizon
