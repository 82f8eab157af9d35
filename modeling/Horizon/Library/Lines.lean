import Mathlib.Data.List.Infix

/-!
# Lines of a growing file

A file is a list of bytes.  A line begins at the start of the file or behind a newline, and ends
with the first newline from there (`LineAt`); what follows the last newline is not a line yet.
Lines stay where they are when the file grows.
-/

open List

namespace Lines

variable {β : Type} (nl : β)

/-- A line may begin at the offset. -/
def Begins (file : List β) (start : ℕ) : Prop :=
  start ≤ file.length ∧ (start = 0 ∨ file[start - 1]? = some nl)

/-- The line that begins at the offset. -/
structure LineAt (file : List β) (start : ℕ) (line : List β) : Prop where
  begins : Begins nl file start
  ends : ∃ body, line = body ++ [nl] ∧ nl ∉ body
  here : line <+: file.drop start

/-- No line of the file, finished or not, has more than `max` bytes before its newline. -/
def Short (max : ℕ) (file : List β) : Prop := ∀ body, body <:+: file → nl ∉ body → body.length ≤ max

/-- Read up to the first newline, and at most `limit` bytes. -/
def readline [DecidableEq β] : ℕ → List β → List β
  | 0, _ | _, [] => []
  | limit + 1, b :: rest => if b = nl then [b] else b :: readline limit rest

variable {nl} {file more line line' : List β} {start start' max limit : ℕ}

theorem Begins.append (h : Begins nl file start) : Begins nl (file ++ more) start := by
  refine ⟨h.1.trans (by simp), h.2.imp_right fun hnl => ?_⟩
  rw [getElem?_append_left (List.getElem?_eq_some_iff.mp hnl).1]
  exact hnl

section

variable (h : LineAt nl file start line)

include h

theorem LineAt.append : LineAt nl (file ++ more) start line where
  begins := h.begins.append
  ends := h.ends
  here := by
    rw [drop_append_of_le_length h.begins.1]
    exact h.here.trans (prefix_append _ _)

/-- The byte at an offset within a line. -/
theorem LineAt.getElem? {i : ℕ} (hi : i < line.length) : file[start + i]? = (line)[i]? := by
  obtain ⟨_, hrest⟩ := h.here
  rw [← List.getElem?_drop, ← hrest, getElem?_append_left hi]

/-- No newline is before the end of a line. -/
theorem LineAt.getElem?_ne {i : ℕ} (hi : i + 1 < line.length) : file[start + i]? ≠ some nl := by
  obtain ⟨_, rfl, hbody⟩ := h.ends
  rw [h.getElem? (by omega), getElem?_append_left (by simpa using hi)]
  exact fun hnl => hbody (mem_of_getElem? hnl)

/-- The next line begins behind a line. -/
theorem LineAt.next : Begins nl file (start + line.length) := by
  obtain ⟨body, rfl, -⟩ := h.ends
  have hle := h.here.length_le
  have hlast := h.getElem? (i := body.length) (by simp)
  rw [length_append, length_singleton] at *
  refine ⟨by rw [length_drop] at hle; omega, .inr ?_⟩
  rw [Nat.add_succ_sub_one, hlast]
  simp

/-- A line ends before any other line begins. -/
theorem LineAt.le_of_lt (h' : Begins nl file start') (hlt : start < start') :
    start + line.length ≤ start' := by
  by_contra hgt
  obtain hzero | hnl := h'.2
  · omega
  · refine h.getElem?_ne (i := start' - 1 - start) (by omega) ?_
    rwa [Nat.add_sub_cancel' (by omega)]

theorem LineAt.length_pos : 0 < line.length := by
  obtain ⟨_, rfl, -⟩ := h.ends
  simp

theorem LineAt.unique (h' : LineAt nl file start line') : line = line' := by
  have hle := h.le_of_lt h'.next (Nat.lt_add_of_pos_right h'.length_pos)
  have hge := h'.le_of_lt h.next (Nat.lt_add_of_pos_right h.length_pos)
  exact (prefix_of_prefix_length_le h.here h'.here (by omega)).eq_of_length (by omega)

end

/-- What lies before the beginning of a line was a line before the file grew. -/
theorem LineAt.of_append (h : LineAt nl (file ++ more) start line) (h' : Begins nl file start')
    (hlt : start < start') : LineAt nl file start line := by
  have hend := h.le_of_lt h'.append hlt
  have hfile := h'.1
  refine ⟨⟨by omega, h.begins.2.imp_right fun hnl => ?_⟩, h.ends, ?_⟩
  · rwa [getElem?_append_left (by omega)] at hnl
  · have hhere := h.here
    rw [drop_append_of_le_length (by omega)] at hhere
    exact prefix_of_prefix_length_le hhere (prefix_append _ _) (by rw [length_drop]; omega)

variable [DecidableEq β]

theorem readline_spec (limit : ℕ) (l : List β) :
    readline nl limit l <+: l ∧
      ((∃ body, readline nl limit l = body ++ [nl] ∧ nl ∉ body) ∨ nl ∉ readline nl limit l) := by
  fun_induction readline nl limit l with
  | case1 | case2 => exact ⟨ nil_prefix, .inr not_mem_nil⟩
  | case3 limit rest => exact ⟨by simp, .inl ⟨[], rfl, not_mem_nil⟩⟩
  | case4 limit b rest hb ih =>
    refine ⟨(prefix_cons_inj b).mpr ih.1, ih.2.imp ?_ fun h => ?_⟩
    · rintro ⟨body, hbody, hnl⟩
      exact ⟨b :: body, by rw [hbody]; rfl, by simp [Ne.symm hb, hnl]⟩
    · simp [Ne.symm hb, h]

/-- Of a longer line only the first bytes are read. -/
theorem readline_replicate {b : β} (hb : b ≠ nl) :
    readline nl limit (replicate limit b ++ more) = replicate limit b := by
  induction limit with
  | zero => rfl
  | succ limit ih => rw [replicate_succ, cons_append, readline, if_neg hb, ih]

/-- A bounded read of a short file from the beginning of a line is the line, or the unfinished end
of the file. -/
theorem readline_cases (hshort : Short nl max file) (h : Begins nl file start) :
    LineAt nl file start (readline nl (max + 1) (file.drop start)) ∨
      nl ∉ readline nl (max + 1) (file.drop start) ∧
        (readline nl (max + 1) (file.drop start)).length ≤ max := by
  obtain ⟨hpre, hline | hnl⟩ := readline_spec (max + 1) (file.drop start)
  · exact .inl ⟨h, hline, hpre⟩
  · exact .inr ⟨hnl, hshort _ (hpre.isInfix.trans (drop_suffix _ _).isInfix) hnl⟩

end Lines
