import Mathlib.Data.List.Nodup
import Mathlib.Logic.Function.Basic

/-!
# Keyed tables and databases

A `Table key` is a finite list of rows, in insertion order, no two of which have
the same `key`.  A table grows by `insert`, changes by `updateWhere`, which applies a
key-preserving update to the rows satisfying a predicate, and shrinks by `restrict`.

A `Database key` is a family of tables indexed by table names.  Writing one
table leaves every other table alone (`Database.write_of_ne`), which is the only
frame fact the development ever needs.
-/

open List

variable {κ ρ : Type}

/-- Rows in insertion order, unique by `key`. -/
structure Table (key : ρ → κ) where
  /-- The rows, oldest first. -/
  rows : List ρ
  /-- No two rows share a key. -/
  nodup : (rows.map key).Nodup

namespace Table

variable {r r' : ρ} {k : κ} {g : ρ → ρ} {q : ρ → Bool} {key : ρ → κ} {T : Table key}

/-- The table without rows. -/
def empty (key : ρ → κ) : Table key := ⟨[], nodup_nil⟩

instance : Membership ρ (Table key) := ⟨fun T r => r ∈ T.rows⟩

theorem mem_def : r ∈ T ↔ r ∈ T.rows := Iff.rfl

@[simp] theorem notMem_empty : r ∉ empty key := not_mem_nil

/-- A key determines its row. -/
theorem eq_of_key (h : r ∈ T) (h' : r' ∈ T) (hk : key r = key r') : r = r' :=
  inj_on_of_nodup_map T.nodup h h' hk

/-! ## Looking up a key -/

section

variable [DecidableEq κ]

/-- The row with a given key. -/
def find? (T : Table key) (k : κ) : Option ρ := T.rows.find? fun r => key r = k

theorem find?_eq_some : T.find? k = some r ↔ r ∈ T ∧ key r = k := by
  constructor
  · intro h
    exact ⟨mem_of_find?_eq_some h, by simpa using find?_some h⟩
  · rintro ⟨hr, rfl⟩
    cases hf : T.find? (key r) with
    | none => simpa using find?_eq_none.mp hf r hr
    | some r' =>
      have hk : key r' = key r := by simpa using find?_some hf
      rw [T.eq_of_key (mem_of_find?_eq_some hf) hr hk]

theorem find?_bind_eq_some {β : Type} {f : ρ → Option β} {b : β} :
    (T.find? k).bind f = some b ↔ ∃ r ∈ T, key r = k ∧ f r = some b := by
  simp only [Option.bind_eq_some_iff, find?_eq_some, and_assoc]

theorem mem_of_find? (h : T.find? k = some r) : r ∈ T := (find?_eq_some.mp h).1

theorem key_of_find? (h : T.find? k = some r) : key r = k := (find?_eq_some.mp h).2

theorem find?_key (h : r ∈ T) : T.find? (key r) = some r := find?_eq_some.mpr ⟨h, rfl⟩

theorem find?_eq_none : T.find? k = none ↔ ∀ r ∈ T, key r ≠ k := by
  simp [find?, List.find?_eq_none, mem_def]

end

/-! ## Insertion -/

/-- Append a row whose key is new. -/
def insert (T : Table key) (r : ρ) (h : ∀ r' ∈ T, key r' ≠ key r) : Table key where
  rows := T.rows ++ [r]
  nodup := by
    rw [map_append, nodup_append]
    refine ⟨T.nodup, by simp, ?_⟩
    intro k hk k' hk'
    obtain ⟨r', hr', rfl⟩ := mem_map.mp hk
    rw [map_singleton, mem_singleton] at hk'
    rw [hk']
    exact h r' hr'

@[simp] theorem rows_insert {h : ∀ r' ∈ T, key r' ≠ key r} :
    (T.insert r h).rows = T.rows ++ [r] := rfl

@[simp] theorem mem_insert {h : ∀ r' ∈ T, key r' ≠ key r} :
    r' ∈ T.insert r h ↔ r' ∈ T ∨ r' = r := by
  simp [mem_def]

theorem find?_insert_self [DecidableEq κ] {h : ∀ r' ∈ T, key r' ≠ key r} :
    (T.insert r h).find? (key r) = some r :=
  find?_eq_some.mpr ⟨mem_insert.mpr (.inr rfl), rfl⟩

theorem find?_insert_of_ne [DecidableEq κ] {h : ∀ r' ∈ T, key r' ≠ key r} (hk : k ≠ key r) :
    (T.insert r h).find? k = T.find? k := by
  rw [find?, find?, rows_insert, find?_append]
  simp [Ne.symm hk]

/-- Append a row, if its key is new. -/
def insertNew [DecidableEq κ] (T : Table key) (r : ρ) : Option (Table key) :=
  if h : ∀ r' ∈ T.rows, key r' ≠ key r then some (T.insert r h) else none

theorem insertNew_eq_some [DecidableEq κ] {T' : Table key} :
    T.insertNew r = some T' ↔ ∃ h : ∀ r' ∈ T, key r' ≠ key r, T' = T.insert r h := by
  rw [insertNew]
  split
  · rename_i h
    exact ⟨fun h' => ⟨h, (Option.some.inj h').symm⟩, fun ⟨_, h'⟩ => by rw [h']⟩
  · rename_i h
    exact ⟨nofun, fun ⟨h', _⟩ => absurd h' h⟩

/-! ## Updates -/

/-- Apply `f` to the rows satisfying `p`. -/
def updateWhere (T : Table key) (p : ρ → Bool) (f : ρ → ρ) (hf : ∀ r, key (f r) = key r) :
    Table key where
  rows := T.rows.map fun r => if p r then f r else r
  nodup := by
    have hk : (T.rows.map fun r => if p r then f r else r).map key = T.rows.map key := by
      rw [map_map]
      refine map_congr_left fun r _ => ?_
      cases hp : p r <;> simp [hp, hf]
    rw [hk]
    exact T.nodup

variable {p : ρ → Bool} {f : ρ → ρ} {e : ∀ r, key (f r) = key r}

@[simp] theorem rows_updateWhere :
    (T.updateWhere p f e).rows = T.rows.map fun r => if p r then f r else r := rfl

theorem mem_updateWhere : r' ∈ T.updateWhere p f e ↔ ∃ r ∈ T, (if p r then f r else r) = r' := by
  simp [mem_def]

/-- An updated table relates to the old one row by row. -/
theorem forall_mem_updateWhere {P : ρ → Prop} :
    (∀ r ∈ T.updateWhere p f e, P r) ↔ ∀ r ∈ T, P (if p r then f r else r) := by
  simp only [mem_updateWhere]
  constructor
  · intro h r hr
    exact h _ ⟨r, hr, rfl⟩
  · rintro h _ ⟨r, hr, rfl⟩
    exact h r hr

theorem find?_updateWhere [DecidableEq κ] :
    (T.updateWhere p f e).find? k = (T.find? k).map fun r => if p r then f r else r := by
  rw [find?, find?, rows_updateWhere, find?_map]
  congr 2
  funext r
  by_cases h : p r = true <;> simp [h, e]

/-- An update of the row with a key leaves the others alone. -/
theorem find?_updateWhere_of_ne [DecidableEq κ] {k' : κ} (h : ∀ r, p r → key r = k) (hne : k' ≠ k) :
    (T.updateWhere p f e).find? k' = T.find? k' := by
  rw [find?_updateWhere]
  cases hr : T.find? k' with
  | none => rfl
  | some r => rw [Option.map_some, if_neg fun hp => hne ((key_of_find? hr).symm.trans (h r hp))]

/-- Apply `f` to the row with a key. -/
def modify [DecidableEq κ] (T : Table key) (k : κ) (f : ρ → ρ) (hf : ∀ r, key (f r) = key r) :
    Table key :=
  T.updateWhere (fun r => decide (key r = k)) f hf

theorem mem_modify [DecidableEq κ] :
    r' ∈ T.modify k f e ↔ ∃ r ∈ T, r' = if key r = k then f r else r := by
  simp only [modify, mem_updateWhere, decide_eq_true_eq]
  exact exists_congr fun r => and_congr_right fun _ => eq_comm

theorem find?_modify [DecidableEq κ] {k' : κ} :
    (T.modify k f e).find? k' = (T.find? k').map fun r => if key r = k then f r else r := by
  rw [modify, find?_updateWhere]
  simp only [decide_eq_true_eq]

theorem mem_modify_of_mem [DecidableEq κ] (hf : ∀ r, key (f r) = key r) (h : r ∈ T) :
    (if key r = k then f r else r) ∈ T.modify k f hf :=
  mem_modify.mpr ⟨r, h, rfl⟩

/-- Two updates of one row are one update. -/
theorem modify_modify [DecidableEq κ] (hf : ∀ r, key (f r) = key r) (hg : ∀ r, key (g r) = key r) :
    (T.modify k f hf).modify k g hg
      = T.modify k (fun r => g (f r)) fun r => (hg (f r)).trans (hf r) := by
  rw [modify, modify, modify, updateWhere, updateWhere, updateWhere, Table.mk.injEq, map_map]
  refine map_congr_left fun r _ => ?_
  by_cases h : key r = k <;> simp [h, hf]

/-! ## Counting rows -/

/-- A key stands for one row at most. -/
theorem countP_key_le_one [DecidableEq κ] (k : κ) :
    T.rows.countP (fun r => decide (key r = k)) ≤ 1 := by
  have h := nodup_iff_count_le_one.mp T.nodup k
  rw [count, countP_map] at h
  refine Nat.le_trans (countP_mono_left fun r _ hr => ?_) h
  simpa using hr

/-- Rewriting the row with one key adds one row at most to those that are counted. -/
theorem countP_map_le [DecidableEq κ] (hg : ∀ r ∈ T, key r ≠ k → g r = r) :
    (T.rows.map g).countP q ≤ (T.rows.filter fun r => decide (key r ≠ k)).countP q + 1 := by
  rw [countP_map, countP_eq_countP_filter_add T.rows (q ∘ g) fun r => decide (key r ≠ k)]
  refine Nat.add_le_add (countP_mono_left fun r hr h => ?_) ?_
  · obtain ⟨hmem, hk⟩ := mem_filter.mp hr
    rwa [Function.comp, hg r hmem (of_decide_eq_true hk)] at h
  · have hone := countP_key_le_one (T := T) k
    rw [countP_eq_length_filter] at hone
    exact Nat.le_trans countP_le_length (by simpa using hone)

/-- Of rows that are all the same there is one at most. -/
theorem length_filter_le_one (h : ∀ r ∈ T, ∀ r' ∈ T, q r → q r' → r = r') :
    (T.rows.filter q).length ≤ 1 := by
  have hnodup : (T.rows.filter q).Nodup := (Nodup.of_map key T.nodup).filter q
  have heq : ∀ r ∈ T.rows.filter q, ∀ r' ∈ T.rows.filter q, r = r' := by
    intro r hr r' hr'
    obtain ⟨hmem, hq⟩ := mem_filter.mp hr
    obtain ⟨hmem', hq'⟩ := mem_filter.mp hr'
    exact h r hmem r' hmem' hq hq'
  match hl : T.rows.filter q with
  | [] | [_] => simp
  | r :: r' :: _ =>
    rw [hl] at hnodup heq
    obtain rfl : r = r' := heq r (by simp) r' (by simp)
    exact absurd hnodup (by simp)

/-! ## Deletion -/

/-- Keep only the rows satisfying `p`. -/
def restrict (T : Table key) (p : ρ → Bool) : Table key where
  rows := T.rows.filter p
  nodup := T.nodup.sublist ((filter_sublist).map key)

@[simp] theorem mem_restrict : r ∈ T.restrict p ↔ r ∈ T ∧ p r :=
  mem_filter

/-- Take a row out of a table and put it back. -/
theorem perm_cons_restrict_ne [DecidableEq κ] (h : r ∈ T) :
    (r :: (T.restrict fun r' => decide (key r' ≠ key r)).rows).Perm T.rows := by
  refine (perm_ext_iff_of_nodup (nodup_cons.mpr ⟨?_, ?_⟩) (.of_map key T.nodup)).mpr ?_
  · exact fun hr => absurd rfl (of_decide_eq_true (mem_restrict.mp hr).2)
  · exact .of_map key (T.restrict _).nodup
  · intro r'
    by_cases hk : key r' = key r
    · simp [restrict, hk, ← mem_def, show r' ∈ T ↔ r' = r from
        ⟨fun h' => eq_of_key h' h hk, fun h' => h' ▸ h⟩]
    · simp [restrict, hk, show r' ≠ r from fun h' => hk (h' ▸ rfl)]

/-- Deleting the row with a key. -/
theorem find?_restrict_ne [DecidableEq κ] {k' : κ} :
    (T.restrict fun r => decide (key r ≠ k)).find? k' = if k' = k then none else T.find? k' := by
  split
  · rename_i hk
    refine find?_eq_none.mpr fun r hr hkey => ?_
    simp [hkey, hk] at hr
  · rename_i hk
    cases h : T.find? k' with
    | none =>
      refine find?_eq_none.mpr fun r hr => find?_eq_none.mp h r (mem_restrict.mp hr).1
    | some r =>
      obtain ⟨hr, rfl⟩ := find?_eq_some.mp h
      exact find?_eq_some.mpr ⟨mem_restrict.mpr ⟨hr, by simp [hk]⟩, rfl⟩

end Table

/-! ## Databases -/

variable {ι : Type} {Row Key : ι → Type}

/-- One table for every table name. -/
abbrev Database (key : ∀ t, Row t → Key t) := ∀ t, Table (key t)

namespace Database

variable {key : ∀ t, Row t → Key t}

/-- The database without rows. -/
def empty (key : ∀ t, Row t → Key t) : Database key := fun t => Table.empty (key t)

variable [DecidableEq ι]

/-- Replace one table. -/
def write (db : Database key) (t : ι) (T : Table (key t)) : Database key := Function.update db t T

@[simp] theorem write_self (db : Database key) (t : ι) (T : Table (key t)) :
    db.write t T t = T := Function.update_self ..

@[simp] theorem write_of_ne (db : Database key) {t t' : ι} (h : t' ≠ t) (T : Table (key t)) :
    db.write t T t' = db t' := Function.update_of_ne h ..

/-- Writes to different tables commute. -/
theorem write_comm (db : Database key) {t t' : ι} (h : t ≠ t')
    (T : Table (key t)) (T' : Table (key t')) :
    (db.write t T).write t' T' = (db.write t' T').write t T := Function.update_comm h ..

end Database
