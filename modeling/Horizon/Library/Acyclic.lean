import Mathlib.Data.List.Perm.Subperm

/-!
# Acyclic relations

A relation is acyclic when no element reaches itself.  Dropping edges keeps a relation
acyclic, and so does adding edges that leave one element for elements that do not reach
it.  In an acyclic relation, every path through a finite list is short
(`Acyclic.exists_path`): this is what makes a bounded walk find whatever can be reached.
-/

open Relation

variable {α : Type*} {R R' : α → α → Prop}

/-- No element reaches itself. -/
def Acyclic (R : α → α → Prop) : Prop := ∀ a, ¬ TransGen R a a

namespace Acyclic

theorem mono (h : Acyclic R) (hsub : ∀ a b, R' a b → R a b) : Acyclic R' :=
  fun a ha => h a (TransGen.mono hsub _ _ ha)

/-- A path with new edges out of `x` is an old one, or it passes through a new edge last. -/
theorem split_path {x : α} (hsub : ∀ a b, R' a b → R a b ∨ (a = x ∧ ¬ ReflTransGen R b x)) {a b : α}
    (h : TransGen R' a b) :
    TransGen R a b ∨ ∃ p, ReflTransGen R a x ∧ ¬ ReflTransGen R p x ∧ ReflTransGen R p b := by
  induction h with
  | single hab =>
    rcases hsub _ _ hab with h | ⟨rfl, h⟩
    · exact .inl (.single h)
    · exact .inr ⟨_, .refl, h, .refl⟩
  | @tail b c _ hbc ih =>
    rcases hsub _ _ hbc with h | ⟨rfl, h⟩
    · rcases ih with ih | ⟨p, hx, hp, hb⟩
      · exact .inl (ih.tail h)
      · exact .inr ⟨p, hx, hp, hb.tail h⟩
    · rcases ih with ih | ⟨p, _, hp, hb⟩
      · exact .inr ⟨c, ih.to_reflTransGen, h, .refl⟩
      · exact absurd hb hp

/-- Edges out of one element, to elements that do not reach it, close no cycle. -/
theorem of_new_edges {x : α} (h : Acyclic R)
    (hsub : ∀ a b, R' a b → R a b ∨ (a = x ∧ ¬ ReflTransGen R b x)) : Acyclic R' := by
  intro a ha
  rcases split_path hsub ha with ha | ⟨p, hx, hp, hpa⟩
  · exact h a ha
  · exact hp (hpa.trans hx)

/-- Without cycles, what is reached is reached along a path without repetition. -/
theorem exists_path (h : Acyclic R) {a b : α} (hab : ReflTransGen R a b) :
    ∃ l : List α, l.Nodup ∧ List.IsChain R (a :: l) ∧ (a :: l).getLast? = some b
      ∧ a ∉ l ∧ ∀ c ∈ l, TransGen R a c := by
  induction hab using ReflTransGen.head_induction_on with
  | refl => exact ⟨[], .nil, .singleton _, rfl, List.not_mem_nil, nofun⟩
  | @head a a' ha _ ih =>
    obtain ⟨l, hnodup, hchain, _, hnotin, hreach⟩ := ih
    have hreach' : ∀ c ∈ a' :: l, TransGen R a c := by
      rintro c (_ | ⟨_, hc⟩)
      · exact .single ha
      · exact .head ha (hreach c hc)
    refine ⟨a' :: l, List.nodup_cons.mpr ⟨hnotin, hnodup⟩, ?_, ?_, fun hmem =>
      h a (hreach' a hmem), hreach'⟩
    · exact List.IsChain.cons_cons ha hchain
    · rwa [List.getLast?_cons_cons]

end Acyclic
