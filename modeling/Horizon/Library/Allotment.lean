import Horizon.Library.Totals

/-!
# Greedy allotments over shared limits

Places are filled one after another, each as far as its own room and the limits that it shares
with others allow.  What is allotted can all be placed at once.
-/

universe u v

variable {α : Type u} {ι : Type v} [DecidableEq ι] (room : α → Nat) (uses : α → List ι)

/-- How much fits into a place, given what is left of the limits. -/
def fit (left : ι → Nat) (a : α) : Nat := (uses a).foldl (fun n i => min n (left i)) (room a)

/-- What is left of the limits after some use of a place. -/
def spend (left : ι → Nat) (a : α) (n : Nat) (i : ι) : Nat :=
  if i ∈ uses a then left i - n else left i

/-- The places, with what is allotted to each. -/
def allot : (ι → Nat) → List α → List (α × Nat)
  | _, [] => []
  | left, a :: l => (a, fit room uses left a) :: allot (spend uses left a (fit room uses left a)) l

variable {room uses} {left : ι → Nat} {l : List α}

omit [DecidableEq ι] in
theorem foldl_min_le (is : List ι) (n : Nat) :
    is.foldl (fun n i => min n (left i)) n ≤ n
      ∧ ∀ i ∈ is, is.foldl (fun n i => min n (left i)) n ≤ left i := by
  induction is generalizing n with
  | nil => exact ⟨Nat.le_refl n, fun i hi => by cases hi⟩
  | cons j is ih =>
    obtain ⟨hn, his⟩ := ih (min n (left j))
    refine ⟨Nat.le_trans hn (Nat.min_le_left _ _), fun i hi => ?_⟩
    rcases List.mem_cons.mp hi with rfl | hi
    · exact Nat.le_trans hn (Nat.min_le_right _ _)
    · exact his i hi

omit [DecidableEq ι] in
theorem fit_le_room (a : α) : fit room uses left a ≤ room a := (foldl_min_le _ _).1

omit [DecidableEq ι] in
theorem fit_le_left {a : α} {i : ι} (h : i ∈ uses a) : fit room uses left a ≤ left i :=
  (foldl_min_le _ _).2 i h

/-- Every place is allotted something, in order. -/
@[simp] theorem allot_map_fst : (allot room uses left l).map Prod.fst = l := by
  induction l generalizing left with
  | nil => rfl
  | cons a l ih => simp [allot, ih]

/-- A place holds what it is allotted. -/
theorem allot_le_room {x : α × Nat} (h : x ∈ allot room uses left l) : x.2 ≤ room x.1 := by
  induction l generalizing left with
  | nil => cases h
  | cons a l ih =>
    rcases List.mem_cons.mp h with rfl | h
    · exact fit_le_room a
    · exact ih h

/-- What is allotted to the places that share a limit stays within it. -/
theorem allot_le_left (i : ι) :
    total Prod.snd (fun x => decide (i ∈ uses x.1)) (allot room uses left l) ≤ left i := by
  induction l generalizing left with
  | nil => exact Nat.zero_le _
  | cons a l ih =>
    have hrest := @ih (spend uses left a (fit room uses left a))
    rw [allot, total_cons]
    by_cases hi : i ∈ uses a
    · have hfit : fit room uses left a ≤ left i := fit_le_left hi
      simp only [spend, hi, if_true] at hrest
      simp only [hi, decide_true, if_true]
      omega
    · simp only [spend, hi, if_false] at hrest
      simp only [hi, decide_false, Bool.false_eq_true, if_false]
      omega
