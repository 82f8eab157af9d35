import Mathlib.Logic.Relation

/-!
# Labelled transition systems

A `System` has initial states and a step relation labelled by what caused the step.
`S.ReachableBy guard s` says that `s` is reached by steps that all satisfy `guard`, a
condition on the state before the step and on its label; `S.Reachable s` puts no
condition on them.  `S.RunsBy guard s s'` is a run of such steps from any state.

An invariant of a system is proved once for the initial states and once for a single
step (`ReachableBy.invariant`).  A step that is itself a sequence of smaller moves
`Moves P`, each of them of a kind that satisfies `P`, keeps whatever every such move
keeps (`Moves.preserves`).
-/

universe u v

/-- A transition system with labelled steps. -/
structure System (σ : Type u) (L : Type v) where
  /-- The states a run may start from. -/
  init : σ → Prop
  /-- `step s l s'`: the label `l` may take `s` to `s'`. -/
  step : σ → L → σ → Prop

namespace System

variable {σ : Type u} {L : Type v} (S : System σ L)

/-- The states reached by steps that satisfy `guard`. -/
inductive ReachableBy (guard : σ → L → Prop) : σ → Prop
  | init {s : σ} : S.init s → ReachableBy guard s
  | step {s s' : σ} {l : L} : ReachableBy guard s → guard s l → S.step s l s' → ReachableBy guard s'

/-- The states reached by any steps. -/
abbrev Reachable : σ → Prop := S.ReachableBy fun _ _ => True

variable {S} {guard : σ → L → Prop} {s : σ}

theorem ReachableBy.mono {guard' : σ → L → Prop} (h : S.ReachableBy guard s)
    (hg : ∀ s l, guard s l → guard' s l) : S.ReachableBy guard' s := by
  induction h with
  | init hs => exact .init hs
  | step _ hl hs ih => exact .step ih (hg _ _ hl) hs

theorem ReachableBy.reachable (h : S.ReachableBy guard s) : S.Reachable s :=
  h.mono fun _ _ _ => trivial

/-- What holds initially and is kept by every guarded step holds in every state reached. -/
theorem ReachableBy.invariant {I : σ → Prop} (hinit : ∀ s, S.init s → I s)
    (hstep : ∀ s l s', I s → guard s l → S.step s l s' → I s')
    (h : S.ReachableBy guard s) : I s := by
  induction h with
  | init hs => exact hinit _ hs
  | step _ hl hs ih => exact hstep _ _ _ ih hl hs

variable (S) in
/-- The runs from a state by steps that satisfy `guard`. -/
inductive RunsBy (guard : σ → L → Prop) (s : σ) : σ → Prop
  | refl : RunsBy guard s s
  | step {s₁ s₂ : σ} {l : L} : RunsBy guard s s₁ → guard s₁ l → S.step s₁ l s₂ → RunsBy guard s s₂

theorem RunsBy.mono {guard' : σ → L → Prop} {s' : σ} (h : S.RunsBy guard s s')
    (hg : ∀ s l, guard s l → guard' s l) : S.RunsBy guard' s s' := by
  induction h with
  | refl => exact .refl
  | step _ hl hs ih => exact .step ih (hg _ _ hl) hs

theorem RunsBy.reachable {s' : σ} (h : S.RunsBy guard s s') (hs : S.ReachableBy guard s) :
    S.ReachableBy guard s' := by
  induction h with
  | refl => exact hs
  | step _ hl h ih => exact .step ih hl h

theorem RunsBy.head {l : L} {s₁ s' : σ} (hl : guard s l) (hs : S.step s l s₁)
    (h : S.RunsBy guard s₁ s') : S.RunsBy guard s s' := by
  induction h with
  | refl => exact .step .refl hl hs
  | step _ hl h ih => exact .step ih hl h

/-- What every guarded step keeps is kept by a run of them. -/
theorem RunsBy.preserves {I : σ → Prop} {s' : σ}
    (hstep : ∀ s l s', I s → guard s l → S.step s l s' → I s')
    (h : S.RunsBy guard s s') (hs : I s) :
    I s' := by
  induction h with
  | refl => exact hs
  | step _ hl h ih => exact hstep _ _ _ ih hl h

/-! ## Systems whose steps are computed -/

/-- The system of a partial step function. -/
def ofFun (s₀ : σ) (next : σ → L → Option σ) : System σ L where
  init s := s = s₀
  step s l s' := next s l = some s'

variable {s₀ : σ} (next : σ → L → Option σ)

/-- Take guarded steps one after the other.  A step that is not possible, or not within the
guard, is left out. -/
def replay (guard : σ → L → Bool) : List L → σ → σ
  | [], s => s
  | l :: ls, s => replay guard ls (if guard s l then (next s l).getD s else s)

theorem replay_runs (guard : σ → L → Bool) (ls : List L) (s : σ) :
    (ofFun s₀ next).RunsBy (guard · ·) s (replay next guard ls s) := by
  induction ls generalizing s with
  | nil => exact .refl
  | cons l ls ih =>
    rw [replay]
    split
    · cases hn : next s l with
      | none => exact ih s
      | some s₁ => exact .head ‹_› hn (ih s₁)
    · exact ih s

theorem replay_reachable (guard : σ → L → Bool) (ls : List L) :
    (ofFun s₀ next).ReachableBy (guard · ·) (replay next guard ls s₀) :=
  (replay_runs next guard ls s₀).reachable (.init rfl)

end System

/-! ## Steps made of smaller moves -/

section

variable {σ : Type u} {E : Type v} {move : E → σ → σ → Prop}

/-- Finitely many moves, each of a kind satisfying `P`. -/
def Moves (move : E → σ → σ → Prop) (P : E → Prop) : σ → σ → Prop :=
  Relation.ReflTransGen fun s s' => ∃ e, P e ∧ move e s s'

variable {P Q : E → Prop} {s s' s'' : σ}

theorem Moves.refl (s : σ) : Moves move P s s := Relation.ReflTransGen.refl

theorem Moves.single {e : E} (he : P e) (h : move e s s') : Moves move P s s' :=
  Relation.ReflTransGen.single ⟨e, he, h⟩

theorem Moves.trans (h : Moves move P s s') (h' : Moves move P s' s'') : Moves move P s s'' :=
  Relation.ReflTransGen.trans h h'

instance : Std.Refl (Moves move P) := ⟨Moves.refl⟩

instance : IsTrans σ (Moves move P) := ⟨fun _ _ _ => Moves.trans⟩

theorem Moves.mono (h : Moves move P s s') (hPQ : ∀ e, P e → Q e) : Moves move Q s s' :=
  Relation.ReflTransGen.mono (fun _ _ ⟨e, he, hm⟩ => ⟨e, hPQ e he, hm⟩) _ _ h

/-- Moves keep what every single one of them keeps. -/
theorem Moves.preserves {I : σ → Prop}
    (hmove : ∀ e s s', P e → move e s s' → I s → I s') (h : Moves move P s s')
    (hs : I s) : I s' := by
  induction h with
  | refl => exact hs
  | tail _ hm ih =>
    obtain ⟨e, he, hm⟩ := hm
    exact hmove e _ _ he hm ih

/-- Moves respect every preorder that every single one of them respects. -/
theorem Moves.le {R : σ → σ → Prop} [Std.Refl R] [IsTrans σ R]
    (hmove : ∀ e s s', P e → move e s s' → R s s') (h : Moves move P s s') : R s s' := by
  induction h with
  | refl => exact Std.Refl.refl _
  | tail _ hm ih =>
    obtain ⟨e, he, hm⟩ := hm
    exact IsTrans.trans _ _ _ ih (hmove e _ _ he hm)

end
