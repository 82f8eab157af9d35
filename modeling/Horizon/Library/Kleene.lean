import Mathlib.Data.List.Forall2

/-!
# Strong Kleene logic

Truth values that may be unknown, with the conjunctions and disjunctions of a list of them.
Values are ordered by information: an unknown value is below every other one, and the
connectives are monotone in this order.
-/

/-- A truth value that may be unknown. -/
inductive Truth where
  | true | false | unknown
deriving DecidableEq

namespace Truth

variable {a b a' b' : Truth} {ts ts' : List Truth}

def not : Truth → Truth
  | .true => .false
  | .false => .true
  | .unknown => .unknown

/-- False as soon as one side is. -/
def and : Truth → Truth → Truth
  | .false, _ | _, .false => .false
  | .true, .true => .true
  | _, _ => .unknown

/-- True as soon as one side is. -/
def or : Truth → Truth → Truth
  | .true, _ | _, .true => .true
  | .false, .false => .false
  | _, _ => .unknown

/-- The conjunction of a list. -/
def all (ts : List Truth) : Truth := ts.foldr and .true

/-- The disjunction of a list. -/
def any (ts : List Truth) : Truth := ts.foldr or .false

/-- A conjunction is decided by a false conjunct, and otherwise held up by an unknown one. -/
theorem all_eq (ts : List Truth) : all ts
    = if .false ∈ ts then .false else if .unknown ∈ ts then .unknown else .true := by
  induction ts with
  | nil => rfl
  | cons t ts ih =>
    change and t (all ts) = _
    rw [ih]
    by_cases hf : Truth.false ∈ ts <;> by_cases hu : Truth.unknown ∈ ts <;>
      cases t <;> simp [and, hf, hu]

/-- A disjunction is decided by a true disjunct, and otherwise held up by an unknown one. -/
theorem any_eq (ts : List Truth) : any ts
    = if .true ∈ ts then .true else if .unknown ∈ ts then .unknown else .false := by
  induction ts with
  | nil => rfl
  | cons t ts ih =>
    change or t (any ts) = _
    rw [ih]
    by_cases ht : Truth.true ∈ ts <;> by_cases hu : Truth.unknown ∈ ts <;>
      cases t <;> simp [or, ht, hu]

/-! ## Information -/

/-- `a` is unknown where it differs from `b`. -/
def Below (a b : Truth) : Prop := a = .unknown ∨ a = b

theorem Below.refl (a : Truth) : Below a a := .inr rfl

/-- What is definite stays as it is. -/
theorem Below.eq_of_ne (h : Below a b) (ha : a ≠ .unknown) : b = a :=
  (h.resolve_left ha).symm

theorem Below.not (h : Below a b) : Below a.not b.not := by
  rcases h with rfl | rfl
  · exact .inl rfl
  · exact .refl _

theorem Below.and (h : Below a b) (h' : Below a' b') : Below (a.and a') (b.and b') := by
  rcases h with rfl | rfl <;> rcases h' with rfl | rfl
  · exact .inl rfl
  · cases a' <;> cases b <;> first | exact .inl rfl | exact .inr rfl
  · cases a <;> cases b' <;> first | exact .inl rfl | exact .inr rfl
  · exact .refl _

theorem Below.or (h : Below a b) (h' : Below a' b') : Below (a.or a') (b.or b') := by
  rcases h with rfl | rfl <;> rcases h' with rfl | rfl
  · exact .inl rfl
  · cases a' <;> cases b <;> first | exact .inl rfl | exact .inr rfl
  · cases a <;> cases b' <;> first | exact .inl rfl | exact .inr rfl
  · exact .refl _

theorem Below.all (h : List.Forall₂ Below ts ts') : Below (Truth.all ts) (Truth.all ts') := by
  induction h with
  | nil => exact .refl _
  | cons hhead _ ih => exact hhead.and ih

theorem Below.any (h : List.Forall₂ Below ts ts') : Below (Truth.any ts) (Truth.any ts') := by
  induction h with
  | nil => exact .refl _
  | cons hhead _ ih => exact hhead.or ih

end Truth
