import Horizon.Environment

/-!
# Evaluating start conditions

`missions/conditions.py`: `evaluate`, which reads a condition as a three-valued expression over
the observations of its caller, and says when it is worth looking again; and the bounds that the
`Condition` contract of `models.py` puts on what is stored.  The recursion shares one budget of
visits.  A stored condition never exhausts it, so that its evaluation is the one of the plain
expression.
-/

namespace Horizon

open List

/-- `Evaluation`. -/
structure Evaluation where
  truth : Truth
  reason : String
  nextCheckAt : Option Instant := none
deriving DecidableEq

/-- A timestamp of a condition, as text and as an instant. -/
structure Timestamp where
  instant : Instant
  aware : Bool
  isoformat : String

/-- What a Forge count selects. -/
structure ForgeSelector where
  projectId : Id
  originRunId : Option Id
  reviewPhase : Option PhaseKind
  repositoryIds : List Id
  pullRequests : Bool
  issues : Bool
  labels : List String
  matchAll : Bool
  atLeast : Nat

/-- The leaves of a condition that the caller observes. -/
inductive Observable where
  | statusIn (target : ObjectRef) (values : List String)
  | obligationAccounted (obligationId : ObligationId)
  | publicationVerified (publicationId : Id)
  | queueBelow (runId : Id) (count : Nat)
  | revisionAfter (target : ObjectRef) (revision : Nat)
  | planningNeeded (runId : Id)
  | discussionChanged (discussionId : Id) (fingerprint : String)
  | forgeOpenCount (selector : ForgeSelector)
  | forgeActionableCount (selector : ForgeSelector)

/-- The operators of a group. -/
inductive GroupOp where
  | all | any

/-- `Expr`. -/
inductive Expr where
  | group (op : GroupOp) (args : List Expr)
  | not (arg : Expr)
  | after (at_ : Timestamp)
  | observed (o : Observable)

/-- What holds of an expression if it holds of its arguments holds of every one. -/
@[elab_as_elim, induction_eliminator]
theorem Expr.induction {P : Expr → Prop} (group : ∀ op args, (∀ a ∈ args, P a) → P (.group op args))
    (not : ∀ arg, P arg → P (.not arg)) (after : ∀ at_, P (.after at_))
    (observed : ∀ o, P (.observed o)) (e : Expr) : P e :=
  @Expr.rec P (fun args => ∀ a ∈ args, P a) group not after observed
    (fun _ h => absurd h not_mem_nil)
    (fun _ _ hhead htail _ ha => (mem_cons.mp ha).elim (fun h => h ▸ hhead) (htail _)) e

/-- A leaf that is a threshold of scheduling, and no external event. -/
def Observable.isThreshold : Observable → Bool
  | .queueBelow _ _ | .planningNeeded _ => true
  | _ => false

/-! ## Evaluation -/

/-- The truth of an argument that decides its group. -/
def GroupOp.decisive : GroupOp → Truth
  | .all => .false
  | .any => .true

/-- The evaluation of a group from those of its arguments. -/
def GroupOp.combine (op : GroupOp) (children : List Evaluation) : Evaluation :=
  match children.find? (·.truth = op.decisive) with
  | some selected => selected
  | none =>
    let unknown := children.find? (·.truth = .unknown)
    { truth := if unknown.isSome then .unknown else op.decisive.not
      reason := match unknown with
        | some child => child.reason
        | none => "; ".intercalate (children.map (·.reason))
      nextCheckAt := (children.filterMap (·.nextCheckAt)).min? }

def Evaluation.negate (result : Evaluation) : Evaluation :=
  { truth := result.truth.not, reason := "Not: " ++ result.reason,
    nextCheckAt := result.nextCheckAt }

/-- Whether a time has come. -/
def Timestamp.reached (at_ : Timestamp) (now : Instant) : Evaluation :=
  if !at_.aware then { truth := .unknown, reason := "Condition timestamp has no timezone" }
  else if at_.instant ≤ now then { truth := .true, reason := "Ready" }
  else { truth := .false, reason := "Waiting until " ++ at_.isoformat,
         nextCheckAt := some at_.instant }

/-- The evaluation of an empty group. -/
def emptyCondition : Evaluation := { truth := .unknown, reason := "Empty condition" }

/-- The evaluation of a threshold where only events count. -/
def notAnEvent : Evaluation :=
  { truth := .unknown, reason := "Scheduling threshold is not an external event" }

/-- A visit takes one unit of the remaining budget, and goes on unless it exceeds a bound. -/
def bounded (depth : Nat) (remaining : Int) (visit : Int → Evaluation × Int) : Evaluation × Int :=
  let remaining := remaining - 1
  if depth > 8 ∨ remaining < 0 then
    ({ truth := .unknown, reason := "Condition exceeds its evaluation bound" }, remaining)
  else visit remaining

section

variable (now : Instant) (observe : Observable → Evaluation) (eventsOnly : Bool)

mutual

/-- `visit`: evaluate an expression, and return the remaining budget. -/
def visit : Expr → Nat → Int → Evaluation × Int
  | .group op args, depth, remaining => bounded depth remaining fun remaining =>
    if args.isEmpty then (emptyCondition, remaining)
    else
      let children := visitArgs args (depth + 1) remaining
      (op.combine children.1, children.2)
  | .not arg, depth, remaining => bounded depth remaining fun remaining =>
    let result := visit arg (depth + 1) remaining
    (result.1.negate, result.2)
  | .after at_, depth, remaining => bounded depth remaining fun remaining =>
    (if eventsOnly then notAnEvent else at_.reached now, remaining)
  | .observed o, depth, remaining => bounded depth remaining fun remaining =>
    (if eventsOnly && o.isThreshold then notAnEvent else observe o, remaining)

/-- Visit the arguments of a group one after the other. -/
def visitArgs : List Expr → Nat → Int → List Evaluation × Int
  | [], _, remaining => ([], remaining)
  | arg :: args, depth, remaining =>
    let child := visit arg depth remaining
    let children := visitArgs args depth child.2
    (child.1 :: children.1, children.2)

end

/-- A condition as it is stored. -/
structure StoredCondition where
  version : Nat
  expression : Expr

/-- `evaluate`. -/
def evaluate : Option StoredCondition → Evaluation
  | none => { truth := .true, reason := "Ready" }
  | some condition =>
    if condition.version ≠ 1 then { truth := .unknown, reason := "Unsupported condition version" }
    else (visit now observe eventsOnly condition.expression 0 128).1

end

/-! ## Validation -/

/-- The arguments of an expression. -/
def Expr.arguments : Expr → List Expr
  | .group _ args => args
  | .not arg => [arg]
  | .after _ | .observed _ => []

/-- `bounded_tree`: count the nodes of an expression from a stack of pending ones.  The count that
is left is an argument, and the top of the stack comes first. -/
def boundedTree : Nat → List (Expr × Nat) → Bool
  | _, [] => true
  | 0, _ :: _ => false
  | left + 1, (node, depth) :: pending =>
    decide (depth ≤ 8)
      && boundedTree left ((node.arguments.reverse.map fun child => (child, depth + 1)) ++ pending)

mutual

/-- The fields of an expression are as their contracts say: groups have arguments, at most 128
of them, and times have a timezone. -/
def Expr.wellFormed : Expr → Bool
  | .group _ args => !args.isEmpty && decide (args.length ≤ 128) && Expr.allWellFormed args
  | .not arg => arg.wellFormed
  | .after at_ => at_.aware
  | .observed _ => true

def Expr.allWellFormed : List Expr → Bool
  | [] => true
  | arg :: args => arg.wellFormed && Expr.allWellFormed args

end

/-- A condition that passed the `Condition` contract. -/
structure ValidCondition extends StoredCondition where
  current : version = 1
  wellFormed : expression.wellFormed
  bounded : boundedTree 128 [(expression, 1)]

theorem Expr.allWellFormed_iff {args : List Expr} :
    Expr.allWellFormed args ↔ ∀ a ∈ args, a.wellFormed := by
  induction args with
  | nil => simp [Expr.allWellFormed]
  | cons a args ih => simp [Expr.allWellFormed, ih]

theorem Expr.wellFormed_group {op : GroupOp} {args : List Expr}
    (h : (Expr.group op args).wellFormed) : args ≠ [] ∧ ∀ a ∈ args, a.wellFormed := by
  simp only [Expr.wellFormed, Bool.and_eq_true, Expr.allWellFormed_iff] at h
  exact ⟨by simpa using h.1.1, h.2⟩

/-! ## The plain expression -/

section

variable (now : Instant) (observe : Observable → Evaluation) (eventsOnly : Bool)

mutual

/-- The evaluation of an expression without bounds. -/
def Expr.value : Expr → Evaluation
  | .group op args => if args.isEmpty then emptyCondition else op.combine (Expr.values args)
  | .not arg => arg.value.negate
  | .after at_ => if eventsOnly then notAnEvent else at_.reached now
  | .observed o => if eventsOnly && o.isThreshold then notAnEvent else observe o

def Expr.values : List Expr → List Evaluation
  | [] => []
  | arg :: args => arg.value :: Expr.values args

end

mutual

/-- The number of nodes of an expression. -/
def Expr.size : Expr → Nat
  | .group _ args => Expr.sizes args + 1
  | .not arg => arg.size + 1
  | .after _ | .observed _ => 1

def Expr.sizes : List Expr → Nat
  | [] => 0
  | arg :: args => arg.size + Expr.sizes args

end

mutual

/-- How deep the nodes of an expression lie below it. -/
def Expr.height : Expr → Nat
  | .group _ args => Expr.heights args
  | .not arg => arg.height + 1
  | .after _ | .observed _ => 0

/-- The height of a group with these arguments. -/
def Expr.heights : List Expr → Nat
  | [] => 0
  | arg :: args => max (arg.height + 1) (Expr.heights args)

end

mutual

/-- The strong Kleene value of an expression. -/
def Expr.kleene : Expr → Truth
  | .group .all args => Truth.all (Expr.kleenes args)
  | .group .any args => Truth.any (Expr.kleenes args)
  | .not arg => arg.kleene.not
  | .after at_ => if eventsOnly then .unknown else if at_.instant ≤ now then .true else .false
  | .observed o => if eventsOnly && o.isThreshold then .unknown else (observe o).truth

def Expr.kleenes : List Expr → List Truth
  | [] => []
  | arg :: args => arg.kleene :: Expr.kleenes args

end

end

section

variable {remaining : Int} {depth : Nat} {now : Instant} {observe : Observable → Evaluation}
  {eventsOnly : Bool}

@[simp] theorem Expr.sizes_append (as bs : List Expr) :
    Expr.sizes (as ++ bs) = Expr.sizes as + Expr.sizes bs := by
  induction as with
  | nil => simp [Expr.sizes]
  | cons a as ih => simp [Expr.sizes, ih, Nat.add_assoc]

theorem Expr.sizes_reverse (as : List Expr) : Expr.sizes as.reverse = Expr.sizes as := by
  induction as with
  | nil => rfl
  | cons a as ih => simp [Expr.sizes, ih, Nat.add_comm]

theorem Expr.size_eq (e : Expr) : e.size = Expr.sizes e.arguments + 1 := by
  cases e <;> simp [Expr.size, Expr.sizes, Expr.arguments]

theorem Expr.heights_le {args : List Expr} {n : Nat} :
    Expr.heights args ≤ n ↔ ∀ a ∈ args, a.height + 1 ≤ n := by
  induction args with
  | nil => simp [Expr.heights]
  | cons a args ih => rw [Expr.heights, Nat.max_le, ih, forall_mem_cons]

theorem Expr.height_eq (e : Expr) : e.height = Expr.heights e.arguments := by
  cases e <;> simp [Expr.height, Expr.heights, Expr.arguments]

/-- The contract bounds the pending nodes: their number by what is left of the count, and their
depth by eight. -/
theorem boundedTree_ok {left : Nat} {pending : List (Expr × Nat)} (h : boundedTree left pending) :
    Expr.sizes (pending.map (·.1)) ≤ left ∧ ∀ p ∈ pending, p.2 + p.1.height ≤ 8 := by
  induction left generalizing pending with
  | zero =>
    cases pending with
    | nil => exact ⟨Nat.le_refl 0, nofun⟩
    | cons p pending => cases h
  | succ left ih =>
    cases pending with
    | nil => exact ⟨Nat.zero_le _, nofun⟩
    | cons p pending =>
      obtain ⟨node, depth⟩ := p
      rw [boundedTree, Bool.and_eq_true, decide_eq_true_eq] at h
      obtain ⟨_, h⟩ := h
      obtain ⟨hsize, hheight⟩ := ih h
      constructor
      · rw [map_append, map_map, Expr.sizes_append] at hsize
        have hargs : ((fun p : Expr × Nat => p.1) ∘ fun child => (child, depth + 1)) = id := rfl
        rw [hargs, map_id, Expr.sizes_reverse] at hsize
        rw [map_cons, Expr.sizes, Expr.size_eq]
        dsimp only
        omega
      · intro q hq
        rcases mem_cons.mp hq with rfl | hq
        · have hle : Expr.heights node.arguments ≤ 8 - depth := by
            refine Expr.heights_le.mpr fun a ha => ?_
            have hchild := hheight (a, depth + 1) (mem_append_left _ (mem_map.mpr
              ⟨a, mem_reverse.mpr ha, rfl⟩))
            dsimp only at hchild
            omega
          rw [← Expr.height_eq] at hle
          dsimp only
          omega
        · exact hheight q (mem_append_right _ hq)

theorem bounded_eq {visit : Int → Evaluation × Int} (hd : depth ≤ 8) (hr : 1 ≤ remaining) :
    bounded depth remaining visit = visit (remaining - 1) := by
  rw [bounded, if_neg (by omega)]

/-- Within the bounds a visit takes as many units as there are nodes. -/
theorem visit_eq (e : Expr) (hd : depth + e.height ≤ 8) (hr : e.size ≤ remaining) :
    visit now observe eventsOnly e depth remaining
      = (e.value now observe eventsOnly, remaining - e.size) := by
  induction e generalizing depth remaining with
  | group op args ih =>
    have hargs : ∀ (as : List Expr) (r : Int), (∀ a ∈ as, a ∈ args) → Expr.sizes as ≤ r →
        visitArgs now observe eventsOnly as (depth + 1) r
          = (Expr.values now observe eventsOnly as, r - Expr.sizes as) := by
      intro as
      induction as with
      | nil =>
        intro r _ _
        simp [visitArgs, Expr.values, Expr.sizes]
      | cons a as ihas =>
        intro r hmem hle
        rw [Expr.sizes] at hle
        have hheight :=
          Expr.heights_le.mp (Nat.le_refl (Expr.heights args)) a (hmem a mem_cons_self)
        rw [Expr.height] at hd
        rw [visitArgs, ih a (hmem a mem_cons_self) (by omega) (by omega),
          ihas _ (fun b hb => hmem b (mem_cons_of_mem a hb)) (by omega)]
        rw [Expr.values, Expr.sizes]
        exact Prod.ext rfl (by push_cast; omega)
    rw [Expr.size] at hr ⊢
    rw [visit, bounded_eq (by omega) (by omega), Expr.value]
    cases hempty : args.isEmpty with
    | true =>
      rw [isEmpty_iff.mp hempty]
      simp [Expr.sizes]
    | false =>
      simp only [Bool.false_eq_true, if_false]
      rw [hargs args _ (fun _ h => h) (by omega)]
      exact Prod.ext rfl (by push_cast; omega)
  | not arg ih =>
    rw [Expr.size] at hr ⊢
    rw [Expr.height] at hd
    rw [visit, bounded_eq (by omega) (by omega), ih (by omega) (by omega), Expr.value]
    exact Prod.ext rfl (by push_cast; omega)
  | after at_ | observed o =>
    rw [Expr.size] at hr ⊢
    rw [visit, bounded_eq (by omega) (by omega), Expr.value]
    rfl

/-- A stored condition is evaluated as the plain expression. -/
theorem evaluate_eq (c : ValidCondition) :
    evaluate now observe eventsOnly (some c.toStoredCondition)
    = c.expression.value now observe eventsOnly := by
  obtain ⟨hsize, hheight⟩ := boundedTree_ok c.bounded
  have hheight : 1 + c.expression.height ≤ 8 := hheight _ mem_cons_self
  simp only [map_cons, map_nil, Expr.sizes] at hsize
  rw [evaluate, if_neg (not_not.mpr c.current), visit_eq c.expression (by omega) (by omega)]

/-! ## Kleene values -/

theorem Expr.values_eq (args : List Expr) :
    Expr.values now observe eventsOnly args = args.map (Expr.value now observe eventsOnly) := by
  induction args with
  | nil => rfl
  | cons a args ih => rw [Expr.values, ih, map_cons]

theorem Expr.kleenes_eq (args : List Expr) :
    Expr.kleenes now observe eventsOnly args = args.map (Expr.kleene now observe eventsOnly) := by
  induction args with
  | nil => rfl
  | cons a args ih => rw [Expr.kleenes, ih, map_cons]

/-- The strong Kleene value of a group. -/
def GroupOp.kleene : GroupOp → List Truth → Truth
  | .all => Truth.all
  | .any => Truth.any

/-- A group is decided by a decisive argument, and otherwise held up by an unknown one. -/
theorem GroupOp.kleene_eq (op : GroupOp) (ts : List Truth) : op.kleene ts
    = if op.decisive ∈ ts then op.decisive else if .unknown ∈ ts then .unknown
      else op.decisive.not := by
  cases op with
  | all => exact Truth.all_eq ts
  | any => exact Truth.any_eq ts

theorem Expr.kleene_group (op : GroupOp) (args : List Expr) :
    (Expr.group op args).kleene now observe eventsOnly
      = op.kleene (args.map (Expr.kleene now observe eventsOnly)) := by
  rw [← Expr.kleenes_eq]
  cases op <;> rfl

/-- Whether a child with a truth was found says whether there is one. -/
theorem find?_truth {children : List Evaluation} {t : Truth} :
    (children.find? (·.truth = t)).isSome ↔ t ∈ children.map (·.truth) := by
  rw [find?_isSome, mem_map]
  simp only [decide_eq_true_eq]

theorem GroupOp.combine_truth (op : GroupOp) (children : List Evaluation) :
    (op.combine children).truth = op.kleene (children.map (·.truth)) := by
  rw [GroupOp.kleene_eq, GroupOp.combine]
  cases hfind : children.find? (·.truth = op.decisive) with
  | some _ =>
    have hmem : op.decisive ∈ children.map (·.truth) := find?_truth.mp (by rw [hfind]; rfl)
    rw [if_pos hmem]
    simpa using find?_some hfind
  | none =>
    have hnone : op.decisive ∉ children.map (·.truth) := fun hmem => by
      have := find?_truth.mpr hmem
      rw [hfind] at this
      cases this
    rw [if_neg hnone]
    simp only [find?_truth]

/-- The truth of a well-formed expression is its strong Kleene value. -/
theorem Expr.value_truth {e : Expr} (h : e.wellFormed) :
    (e.value now observe eventsOnly).truth = e.kleene now observe eventsOnly := by
  induction e with
  | group op _ ih =>
    obtain ⟨hne, hargs⟩ := Expr.wellFormed_group h
    rw [Expr.value, if_neg (by simpa using hne), Expr.values_eq, GroupOp.combine_truth,
      Expr.kleene_group, map_map]
    exact congrArg _ (map_congr_left fun a ha => ih a ha (hargs a ha))
  | not arg ih =>
    rw [Expr.wellFormed] at h
    rw [Expr.value, Evaluation.negate, Expr.kleene, ih h]
  | after at_ =>
    have haware : at_.aware := h
    rw [Expr.value, Expr.kleene, Timestamp.reached, haware]
    cases eventsOnly with
    | true => rfl
    | false =>
      by_cases hat : at_.instant ≤ now <;> simp [hat]
  | observed o =>
    rw [Expr.value, Expr.kleene]
    split <;> rfl

/-- More information leaves what is definite. -/
theorem Expr.kleene_below {observe' : Observable → Evaluation} {eventsOnly' : Bool} (e : Expr)
    (hevents : eventsOnly' → eventsOnly)
    (hobserve : ∀ o, Truth.Below (observe o).truth (observe' o).truth) :
    Truth.Below (e.kleene now observe eventsOnly) (e.kleene now observe' eventsOnly') := by
  induction e with
  | group op args ih =>
    have hargs : Forall₂ Truth.Below (args.map (Expr.kleene now observe eventsOnly))
        (args.map (Expr.kleene now observe' eventsOnly')) :=
      forall₂_map_left_iff.mpr (forall₂_map_right_iff.mpr (forall₂_same.mpr ih))
    rw [Expr.kleene_group, Expr.kleene_group]
    cases op with
    | all => exact Truth.Below.all hargs
    | any => exact Truth.Below.any hargs
  | not arg ih => exact ih.not
  | after at_ =>
    rw [Expr.kleene, Expr.kleene]
    cases eventsOnly with
    | true => exact .inl rfl
    | false =>
      cases eventsOnly' with
      | true => cases hevents rfl
      | false => exact .refl _
  | observed o =>
    rw [Expr.kleene, Expr.kleene]
    cases eventsOnly with
    | true =>
      cases o.isThreshold with
      | true => exact .inl rfl
      | false => simpa using hobserve o
    | false =>
      cases eventsOnly' with
      | true => cases hevents rfl
      | false => exact hobserve o

end

/-- The evaluation of a stored condition never meets its bounds: it is the one of the plain
expression.  Its truth is the strong Kleene value, observations that become definite change no
definite result, and what the events alone decide is what the whole condition says. -/
theorem condition_evaluated (c : ValidCondition) (now : Instant)
    (observe : Observable → Evaluation) :
    (∀ eventsOnly, evaluate now observe eventsOnly (some c.toStoredCondition)
        = c.expression.value now observe eventsOnly)
    ∧ (∀ eventsOnly, (evaluate now observe eventsOnly (some c.toStoredCondition)).truth
        = c.expression.kleene now observe eventsOnly)
    ∧ (∀ eventsOnly observe',
      (∀ o, (observe o).truth ≠ .unknown → (observe' o).truth = (observe o).truth) →
        (evaluate now observe eventsOnly (some c.toStoredCondition)).truth ≠ .unknown →
        (evaluate now observe' eventsOnly (some c.toStoredCondition)).truth
          = (evaluate now observe eventsOnly (some c.toStoredCondition)).truth)
    ∧ ((evaluate now observe true (some c.toStoredCondition)).truth ≠ .unknown →
        (evaluate now observe false (some c.toStoredCondition)).truth
          = (evaluate now observe true (some c.toStoredCondition)).truth) := by
  have htruth : ∀ observe eventsOnly,
      (evaluate now observe eventsOnly (some c.toStoredCondition)).truth
      = c.expression.kleene now observe eventsOnly := fun observe eventsOnly => by
    rw [evaluate_eq, Expr.value_truth c.wellFormed]
  refine ⟨fun _ => evaluate_eq c, htruth observe, fun eventsOnly observe' hobserve hdefinite => ?_,
    fun hdefinite => ?_⟩
  · rw [htruth] at hdefinite ⊢
    rw [htruth]
    refine (Expr.kleene_below c.expression id fun o => ?_).eq_of_ne hdefinite
    by_cases ho : (observe o).truth = .unknown
    · exact .inl ho
    · exact .inr (hobserve o ho).symm
  · rw [htruth] at hdefinite ⊢
    rw [htruth]
    exact (Expr.kleene_below c.expression (fun _ => rfl) fun _ => .refl _).eq_of_ne hdefinite

/-- A wait until a time that a full queue may cut short. -/
def waitOrFull : ValidCondition where
  version := 1
  expression := .group .any [.after ⟨10, true, "1970-01-01T00:00:10+00:00"⟩,
    .not (.observed (.queueBelow 1 3))]
  current := rfl
  wellFormed := rfl
  bounded := rfl

/-- A full queue decides the wait, whether or not the rest of the condition is observed. -/
theorem condition_evaluated_full :
    (evaluate 5 (fun _ => ⟨.false, "The queue is full", none⟩) false
        (some waitOrFull.toStoredCondition)).truth ≠ .unknown
    ∧ (evaluate 5 (fun o => if o.isThreshold then ⟨.false, "The queue is full", none⟩
          else ⟨.unknown, "Unobserved", none⟩) false (some waitOrFull.toStoredCondition)).truth
        = (evaluate 5 (fun _ => ⟨.false, "The queue is full", none⟩) false
          (some waitOrFull.toStoredCondition)).truth :=
  have h := condition_evaluated waitOrFull 5 fun o => if o.isThreshold then
    ⟨.false, "The queue is full", none⟩ else ⟨.unknown, "Unobserved", none⟩
  ⟨by decide, (h.2.2.1 false (fun _ => ⟨.false, "The queue is full", none⟩)
    (fun o ho => by cases hth : o.isThreshold <;> simp_all) (by decide)).symm⟩

/-! ## The next check -/

section

variable {now t : Instant} {observe : Observable → Evaluation} {eventsOnly : Bool}

/-- The earliest date of some evaluations is after a time only if all of them are. -/
theorem lt_of_lt_min {children : List Evaluation}
    (h : ∀ d, (children.filterMap (·.nextCheckAt)).min? = some d → t < d) {child : Evaluation}
    (hmem : child ∈ children) {d : Instant} (hd : child.nextCheckAt = some d) : t < d := by
  have hdate : d ∈ children.filterMap (·.nextCheckAt) := mem_filterMap.mpr ⟨child, hmem, hd⟩
  cases hmin : (children.filterMap (·.nextCheckAt)).min? with
  | none =>
    rw [min?_eq_none_iff.mp hmin] at hdate
    cases hdate
  | some m => exact Nat.lt_of_lt_of_le (h m hmin) ((min?_eq_some_iff.mp hmin).2 d hdate)

/-- An expression keeps its value until its next check. -/
theorem Expr.kleene_lasts {e : Expr} (hwf : e.wellFormed) (hle : now ≤ t)
    (hnext : ∀ d, (e.value now observe eventsOnly).nextCheckAt = some d → t < d) :
    e.kleene t observe eventsOnly = e.kleene now observe eventsOnly := by
  induction e with
  | group op args ih =>
    obtain ⟨hne, hargs⟩ := Expr.wellFormed_group hwf
    rw [Expr.value, if_neg (by simpa using hne), Expr.values_eq, GroupOp.combine] at hnext
    rw [Expr.kleene_group, Expr.kleene_group]
    cases hfind : (args.map (Expr.value now observe eventsOnly)).find? (·.truth = op.decisive) with
    | some _ =>
      -- The selected argument goes on to decide the group, whatever becomes of the others.
      rw [hfind] at hnext
      obtain ⟨a, ha, rfl⟩ := mem_map.mp (mem_of_find?_eq_some hfind)
      have hnow : a.kleene now observe eventsOnly = op.decisive := by
        rw [← Expr.value_truth (hargs a ha)]
        simpa using find?_some hfind
      have hthen := ih a ha (hargs a ha) hnext
      rw [GroupOp.kleene_eq, GroupOp.kleene_eq, if_pos (mem_map.mpr ⟨a, ha, hthen.trans hnow⟩),
        if_pos (mem_map.mpr ⟨a, ha, hnow⟩)]
    | none =>
      rw [hfind] at hnext
      refine congrArg op.kleene (map_congr_left fun a ha => ih a ha (hargs a ha) fun d hd => ?_)
      exact lt_of_lt_min hnext (mem_map.mpr ⟨a, ha, rfl⟩) hd
  | not arg ih =>
    rw [Expr.wellFormed] at hwf
    rw [Expr.kleene, Expr.kleene, ih hwf hnext]
  | after at_ =>
    have haware : at_.aware := hwf
    rw [Expr.value, Timestamp.reached, haware] at hnext
    rw [Expr.kleene, Expr.kleene]
    cases eventsOnly with
    | true => rfl
    | false =>
      by_cases hat : at_.instant ≤ now
      · simp [hat, Nat.le_trans hat hle]
      · have hlater : t < at_.instant := hnext _ (by simp [hat])
        simp [hat, hlater]
  | observed o => rfl

end

/-- Until the time at which it is to be checked again, the truth of a stored condition stays as it
is, and for ever if there is no such time. -/
theorem next_check_sound (c : ValidCondition) (now : Instant) (observe : Observable → Evaluation)
    (eventsOnly : Bool) :
    (∀ d, (evaluate now observe eventsOnly (some c.toStoredCondition)).nextCheckAt = some d →
      ∀ t, now ≤ t → t < d → (evaluate t observe eventsOnly (some c.toStoredCondition)).truth
        = (evaluate now observe eventsOnly (some c.toStoredCondition)).truth)
    ∧ ((evaluate now observe eventsOnly (some c.toStoredCondition)).nextCheckAt = none →
      ∀ t, now ≤ t → (evaluate t observe eventsOnly (some c.toStoredCondition)).truth
        = (evaluate now observe eventsOnly (some c.toStoredCondition)).truth) := by
  have hlasts : ∀ t, now ≤ t →
      (∀ d, (c.expression.value now observe eventsOnly).nextCheckAt = some d → t < d) →
      (evaluate t observe eventsOnly (some c.toStoredCondition)).truth
        = (evaluate now observe eventsOnly (some c.toStoredCondition)).truth := by
    intro t hle hnext
    rw [evaluate_eq, evaluate_eq, Expr.value_truth c.wellFormed, Expr.value_truth c.wellFormed,
      Expr.kleene_lasts c.wellFormed hle hnext]
  constructor
  · intro d hd t hle _
    rw [evaluate_eq] at hd
    refine hlasts t hle fun d' hd' => ?_
    rwa [Option.some.inj (hd'.symm.trans hd)]
  · intro hnone t hle
    rw [evaluate_eq] at hnone
    refine hlasts t hle fun d hd => ?_
    rw [hnone] at hd
    cases hd

/-- The wait holds back until its time. -/
theorem next_check_sound_wait :
    (evaluate 5 (fun _ => ⟨.true, "There is room", none⟩) false
        (some waitOrFull.toStoredCondition)).nextCheckAt = some 10
    ∧ (evaluate 9 (fun _ => ⟨.true, "There is room", none⟩) false
        (some waitOrFull.toStoredCondition)).truth
      = (evaluate 5 (fun _ => ⟨.true, "There is room", none⟩) false
        (some waitOrFull.toStoredCondition)).truth :=
  ⟨by decide, (next_check_sound waitOrFull 5 _ false).1 10 (by decide) 9 (by decide) (by decide)⟩

end Horizon
