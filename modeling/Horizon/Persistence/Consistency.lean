import Horizon.Persistence.Records

/-!
# Consistent databases

A database is consistent when every stored row satisfies the constraints it was stored
under, against the rows stored now: its foreign keys point somewhere, its checks hold,
and no unique index holds two rows in one place.  The three primitive writes keep a
database consistent; a bulk update, which nothing checks row by row, does so because it
only takes rows out of the reach of a unique index.
-/

namespace Horizon

open Table Bool Database

variable {t : TableName} {db : DB}

/-- Every stored row satisfies its constraints. -/
def Consistent (db : DB) : Prop := ∀ t, ∀ r ∈ db t, admissible t db r

/-- A database keeps the keys that foreign keys point to. -/
def KeepsKeys (db db' : DB) : Prop :=
  ∀ t, t ≠ .hostHarnessLimit → ∀ k, db.has t k → db'.has t k

theorem conflicts_symm (t : TableName) (r r' : Row t) : conflicts t r r' = conflicts t r' r := by
  rw [Bool.eq_iff_iff]
  cases t
  all_goals simp only [conflicts, and_eq_true, or_eq_true, beq_iff_eq]
  all_goals grind

theorem wellFormed_of_keepsKeys {db' : DB} (h : KeepsKeys db db') {r : Row t}
    (hr : wellFormed t db r) : wellFormed t db' r := by
  have hall : ∀ {t : TableName} {k : Option (Key t)}, t ≠ .hostHarnessLimit →
      k.all (db.has t) → k.all (db'.has t) := by
    intro t k ht hk
    cases k with
    | none => rfl
    | some k => exact h t ht k hk
  cases t
  all_goals simp only [wellFormed, and_eq_true] at hr ⊢
  all_goals grind [KeepsKeys]

theorem admissible_iff {row : Row t} :
    admissible t db row ↔ wellFormed t db row
      ∧ ∀ r ∈ db t, key t r ≠ key t row → conflicts t row r = false := by
  simp only [admissible, and_eq_true, List.all_eq_true, or_eq_true, decide_eq_true_eq,
    not_eq_true', ← mem_def]
  grind

theorem has_iff {k : Key t} : db.has t k ↔ ∃ r ∈ db t, key t r = k := by
  rw [DB.has, Option.isSome_iff_exists]
  simp only [find?_eq_some]

/-! ## The primitive writes -/

theorem keepsKeys_write {T : Table (key t)} (h : t = .hostHarnessLimit ∨ ∀ k,
    (∃ r ∈ db t, key t r = k) → ∃ r ∈ T, key t r = k) : KeepsKeys db (db.write t T) := by
  intro t' ht' k hk
  by_cases htt : t' = t
  · subst htt
    rw [has_iff] at hk ⊢
    rw [write_self]
    exact (h.resolve_left ht') k hk
  · rwa [DB.has, write_of_ne _ htt]

/-- A written table is consistent when its rows are well-formed and no two of them
conflict. -/
theorem consistent_write (hc : Consistent db) {T : Table (key t)}
    (hk : KeepsKeys db (db.write t T)) (hwf : ∀ r ∈ T, wellFormed t db r)
    (hu : ∀ r ∈ T, ∀ r' ∈ T, key t r' ≠ key t r → conflicts t r r' = false) :
    Consistent (db.write t T) := by
  intro t' r hr
  rw [admissible_iff]
  by_cases htt : t' = t
  · subst htt
    rw [write_self] at hr ⊢
    exact ⟨wellFormed_of_keepsKeys hk (hwf r hr), hu r hr⟩
  · rw [write_of_ne _ htt] at hr ⊢
    have ha := admissible_iff.mp (hc t' r hr)
    exact ⟨wellFormed_of_keepsKeys hk ha.1, ha.2⟩

theorem keepsKeys_insert {row : Row t} {h : ∀ r ∈ db t, key t r ≠ key t row} :
    KeepsKeys db (db.write t ((db t).insert row h)) :=
  keepsKeys_write <| .inr fun _ ⟨r, hr, hk⟩ => ⟨r, mem_insert.mpr (.inl hr), hk⟩

theorem Consistent.insert (hc : Consistent db) {row : Row t} {h : ∀ r ∈ db t, key t r ≠ key t row}
    (ha : admissible t db row) : Consistent (db.write t ((db t).insert row h)) := by
  have ha' := admissible_iff.mp ha
  refine consistent_write hc keepsKeys_insert ?_ ?_
  · intro r hr
    rcases mem_insert.mp hr with hr | rfl
    · exact (admissible_iff.mp (hc t r hr)).1
    · exact ha'.1
  · intro r hr r' hr' hne
    rcases mem_insert.mp hr with h₁ | h₁ <;> rcases mem_insert.mp hr' with h₂ | h₂
    · exact (admissible_iff.mp (hc t r h₁)).2 r' h₂ hne
    · subst h₂
      rw [conflicts_symm]
      exact ha'.2 r h₁ hne.symm
    · subst h₁
      exact ha'.2 r' h₂ hne
    · exact absurd (by rw [h₁, h₂]) hne

section

variable {p : Row t → Bool} {f : Row t → Row t} {hf : ∀ r, key t (f r) = key t r}

theorem keepsKeys_updateWhere : KeepsKeys db (db.write t ((db t).updateWhere p f hf)) := by
  refine keepsKeys_write <| .inr ?_
  rintro k ⟨r, hr, rfl⟩
  refine ⟨_, mem_updateWhere.mpr ⟨r, hr, rfl⟩, ?_⟩
  cases p r <;> simp [hf]

theorem Consistent.updateWhere (hc : Consistent db)
    (hwf : ∀ r ∈ db t, p r → wellFormed t db (f r))
    (hu : ∀ r ∈ db t, ∀ r' ∈ db t, key t r' ≠ key t r →
      conflicts t (if p r then f r else r) (if p r' then f r' else r') = false) :
    Consistent (db.write t ((db t).updateWhere p f hf)) := by
  have hkey : ∀ r, key t (if p r then f r else r) = key t r := fun r => by cases p r <;> simp [hf]
  refine consistent_write hc keepsKeys_updateWhere ?_ ?_
  · rw [forall_mem_updateWhere]
    intro r hr
    cases hp : p r
    · exact (admissible_iff.mp (hc t r hr)).1
    · exact hwf r hr hp
  · simp only [forall_mem_updateWhere]
    intro r hr r' hr' hne
    rw [hkey, hkey] at hne
    exact hu r hr r' hr' hne

/-- A checked change of one row. -/
theorem Consistent.change (hc : Consistent db) {k : Key t} {old : Row t}
    (hold : (db t).find? k = some old) (ha : admissible t db (f old)) :
    Consistent (db.write t ((db t).updateWhere (fun r => decide (key t r = k)) f hf)) := by
  obtain ⟨hmem, rfl⟩ := find?_eq_some.mp hold
  have ha' := admissible_iff.mp ha
  have honly : ∀ r ∈ db t, key t r = key t old → r = old := fun r hr hk =>
    (db t).eq_of_key hr hmem hk
  refine hc.updateWhere ?_ ?_
  · intro r hr hp
    rw [honly r hr (by simpa using hp)]
    exact ha'.1
  · intro r hr r' hr' hne
    by_cases h : key t r = key t old <;> by_cases h' : key t r' = key t old
    · exact absurd (h'.trans h.symm) hne
    · rw [honly r hr h] at hne ⊢
      simpa [h'] using ha'.2 r' hr' (by rwa [hf])
    · rw [honly r' hr' h'] at hne ⊢
      rw [conflicts_symm]
      simpa [h] using ha'.2 r hr (by rw [hf]; exact hne.symm)
    · simpa [h, h'] using (admissible_iff.mp (hc t r hr)).2 r' hr' hne

/-- An unchecked bulk update that takes up no place of a unique index. -/
theorem Consistent.bulk (hc : Consistent db)
    (hu : ∀ r ∈ db t, p r → wellFormed t db (f r)
      ∧ ∀ r', conflicts t (f r) r' → conflicts t r r') :
    Consistent (db.write t ((db t).updateWhere p f hf)) := by
  have hle : ∀ r ∈ db t, ∀ r', conflicts t (if p r then f r else r) r' →
      conflicts t r r' := by
    intro r hr r' h
    cases hp : p r
    · simpa [hp] using h
    · exact (hu r hr hp).2 r' (by simpa [hp] using h)
  refine hc.updateWhere (fun r hr hp => (hu r hr hp).1) ?_
  intro r hr r' hr' hne
  rw [← not_eq_true]
  intro h
  have h₁ := hle r hr _ h
  rw [conflicts_symm] at h₁
  have h₂ := hle r' hr' _ h₁
  rw [(admissible_iff.mp (hc t r' hr')).2 r hr hne.symm] at h₂
  cases h₂

end

theorem Consistent.restrict (hc : Consistent db) {p : HostHarnessLimit → Bool} :
    Consistent (db.write .hostHarnessLimit ((db .hostHarnessLimit).restrict p)) := by
  have hmem : ∀ r ∈ (db .hostHarnessLimit).restrict p, r ∈ db .hostHarnessLimit := fun r hr =>
    (mem_restrict.mp hr).1
  refine consistent_write hc (keepsKeys_write (.inl rfl)) ?_ ?_
  · exact fun r hr => (admissible_iff.mp (hc _ r (hmem r hr))).1
  · exact fun r hr r' hr' => (admissible_iff.mp (hc _ r (hmem r hr))).2 r' (hmem r' hr')

/-! ## Foreign keys -/

theorem Consistent.wellFormed (hc : Consistent db) {r : Row t} (hr : r ∈ db t) :
    Horizon.wellFormed t db r :=
  (admissible_iff.mp (hc t r hr)).1

/-- The assignment of a stored execution. -/
theorem Consistent.assignmentOf (hc : Consistent db) {e : Execution} (he : e ∈ db .execution) :
    ∃ a, (db .assignment).find? e.assignmentId = some a := by
  have h := hc.wellFormed he
  simp only [Horizon.wellFormed, and_eq_true] at h
  exact Option.isSome_iff_exists.mp h.1.1

/-- The run of a stored assignment. -/
theorem Consistent.runOf (hc : Consistent db) {id : Id} {a : Assignment}
    (ha : (db .assignment).find? id = some a) : ∃ r, (db .run).find? a.runId = some r := by
  have h := hc.wellFormed (mem_of_find? ha)
  simp only [Horizon.wellFormed, and_eq_true] at h
  exact Option.isSome_iff_exists.mp h.1.1.1.1

/-- Two stored rows that a unique index refuses to store together are one. -/
theorem Consistent.eq_of_conflicts (hc : Consistent db) {r r' : Row t} (hr : r ∈ db t)
    (hr' : r' ∈ db t) (h : conflicts t r r') : r = r' := by
  by_contra hne
  refine absurd h (eq_false_iff.mp ((admissible_iff.mp (hc t r hr)).2 r' hr' fun hk => ?_))
  exact hne ((db t).eq_of_key hr hr' hk.symm)

theorem consistent_empty : Consistent (empty key) := fun _ _ hr => absurd hr notMem_empty

end Horizon
