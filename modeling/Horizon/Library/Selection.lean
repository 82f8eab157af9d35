import Mathlib.Data.List.Sort

/-!
# Bounded selection

A scan that meets the elements of a list in any order and keeps the `bound` greatest of them in a
heap: the elements it leaves out lie below every element it keeps.  A heap is written as the
increasing list of its elements, the least of them at the head.
-/

open List

variable {α : Type*} [LinearOrder α]

namespace Selection

/-- Offer an element to a heap of at most `bound` elements: a full heap exchanges its least element
for a greater one. -/
def push (bound : Nat) (heap : List α) (a : α) : List α :=
  if heap.length < bound then heap.orderedInsert (· ≤ ·) a
  else match heap with
    | [] => []
    | least :: others => if least < a then others.orderedInsert (· ≤ ·) a else heap

/-- The heap holds the greatest of the elements offered, and `rest` are the others. -/
structure Selects (bound : Nat) (heap rest : List α) : Prop where
  sorted : heap.Pairwise (· ≤ ·)
  below : ∀ a ∈ heap, ∀ b ∈ rest, b ≤ a
  full : heap.length < bound → rest = []

variable {bound : Nat} {heap rest : List α}

/-- One offer: what the heap does not keep joins the rest. -/
theorem Selects.push (h : Selects bound heap rest) (a : α) :
    ∃ rest', Selects bound (push bound heap a) rest' ∧
      (Selection.push bound heap a ++ rest').Perm (a :: (heap ++ rest)) := by
  unfold Selection.push
  split
  case isTrue hroom =>
    refine ⟨[], ⟨h.sorted.orderedInsert a _, by simp, fun _ => rfl⟩, ?_⟩
    simpa [h.full hroom] using perm_orderedInsert _ a heap
  case isFalse hfull =>
    cases heap with
    | nil => exact ⟨a :: rest, ⟨.nil, by simp, fun hroom => absurd hroom hfull⟩, .refl _⟩
    | cons least others =>
      obtain ⟨hleast, hothers⟩ := pairwise_cons.mp h.sorted
      have hrest : ∀ b ∈ rest, b ≤ least := h.below least (by simp)
      dsimp only
      split
      case isTrue hlt =>
        -- `least` leaves the heap: it is below the others and below `a`.
        refine ⟨least :: rest, ⟨hothers.orderedInsert a _, ?_, ?_⟩, ?_⟩
        · intro c hc
          have hle : least ≤ c := by
            rcases (mem_orderedInsert _).mp hc with rfl | hc
            · exact hlt.le
            · exact hleast c hc
          simpa using ⟨hle, fun b hb => (hrest b hb).trans hle⟩
        · intro hroom
          exact absurd (by simpa [orderedInsert_length] using hroom) hfull
        · calc others.orderedInsert (· ≤ ·) a ++ least :: rest
            _ |>.Perm (a :: others ++ least :: rest) :=
            (perm_orderedInsert _ a others).append_right _
            _ |>.Perm (a :: (least :: others ++ rest)) := (perm_middle).cons a
      case isFalse hle =>
        refine ⟨a :: rest, ⟨h.sorted, ?_, fun hroom => absurd hroom hfull⟩, perm_middle⟩
        intro c hc
        have hc : least ≤ c := by
          rcases mem_cons.mp hc with rfl | hc
          · exact le_rfl
          · exact hleast c hc
        simpa using ⟨(not_lt.mp hle).trans hc, fun b hb => (hrest b hb).trans hc⟩

/-- A whole scan keeps the greatest elements, whatever the order it meets them in. -/
theorem selects_foldl (as : List α) (h : Selects bound heap rest) :
    ∃ rest', Selects bound (as.foldl (push bound) heap) rest' ∧
      (as.foldl (push bound) heap ++ rest').Perm (as ++ (heap ++ rest)) := by
  induction as generalizing heap rest with
  | nil => exact ⟨rest, h, .refl _⟩
  | cons a as ih =>
    obtain ⟨_, h₁, hperm₁⟩ := h.push a
    obtain ⟨rest₂, h₂, hperm₂⟩ := ih h₁
    exact ⟨rest₂, h₂, hperm₂.trans ((hperm₁.append_left as).trans perm_middle)⟩

/-- The kept elements, greatest first, start the decreasing list of all elements. -/
theorem Selects.sort_eq_append (h : Selects bound heap rest) {as : List α}
    (hperm : (heap ++ rest).Perm as) :
    ∃ more, as.insertionSort (· ≥ ·) = heap.reverse ++ more
      ∧ (heap.length < bound → more = []) := by
  refine ⟨rest.insertionSort (· ≥ ·), ?_, fun hroom => by simp [h.full hroom]⟩
  refine Perm.eq_of_pairwise' (r := (· ≥ ·)) (pairwise_insertionSort _ _) ?_ ?_
  · refine pairwise_append.mpr ⟨pairwise_reverse.mpr h.sorted,
      pairwise_insertionSort _ _, ?_⟩
    simpa using h.below
  · calc as.insertionSort (· ≥ ·)
      _ |>.Perm as := perm_insertionSort _ _
      _ |>.Perm (heap ++ rest) := hperm.symm
      _ |>.Perm (heap.reverse ++ rest.insertionSort (· ≥ ·)) :=
        heap.reverse_perm.symm.append (perm_insertionSort _ _).symm

end Selection
