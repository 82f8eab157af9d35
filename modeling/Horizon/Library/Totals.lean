import Mathlib.Algebra.Ring.Nat
import Mathlib.Algebra.Order.BigOperators.Group.List

/-!
# Totals of weighted rows

The total weight of the elements of a list that satisfy a predicate: what is reserved,
used up or occupied.  A total is compared with another one element by element.
-/

universe u

open List

variable {α : Type u} {weight : α → Nat} {p q : α → Bool} {l : List α}

/-- The total weight of the elements satisfying `p`. -/
def total (weight : α → Nat) (p : α → Bool) (l : List α) : Nat := ((l.filter p).map weight).sum

@[simp] theorem total_nil : total weight p [] = 0 := rfl

theorem total_cons (a : α) :
    total weight p (a :: l) = (if p a then weight a else 0) + total weight p l := by
  cases h : p a <;> simp [total, h]

theorem total_append (l l' : List α) :
    total weight p (l ++ l') = total weight p l + total weight p l' := by
  simp [total]

theorem total_eq_zero (h : ∀ a ∈ l, p a = false) : total weight p l = 0 := by
  rw [total, filter_eq_nil_iff.mpr fun a ha => Bool.eq_false_iff.mp (h a ha)]
  rfl

/-- A weaker predicate has a larger total. -/
theorem total_le_total (h : ∀ a ∈ l, p a → q a) : total weight p l ≤ total weight q l := by
  induction l with
  | nil => exact Nat.le_refl 0
  | cons a l ih =>
    have ih := ih fun b hb => h b (mem_cons_of_mem a hb)
    have ha := h a mem_cons_self
    rw [total_cons, total_cons]
    cases hp : p a
    · simp only [Bool.false_eq_true, if_false]
      omega
    · simp only [ha hp, if_true]
      omega

theorem total_congr (h : ∀ a ∈ l, p a = q a) : total weight p l = total weight q l :=
  Nat.le_antisymm (total_le_total fun a ha hp => h a ha ▸ hp)
    (total_le_total fun a ha hq => (h a ha).symm ▸ hq)

/-- Rewriting the elements does not raise a total if it adds none to it and keeps the
weights of those it leaves there. -/
theorem total_map_le {g : α → α} (h : ∀ a ∈ l, q (g a) → p a ∧ weight (g a) = weight a) :
    total weight q (l.map g) ≤ total weight p l := by
  induction l with
  | nil => exact Nat.le_refl 0
  | cons a l ih =>
    have ih := ih fun b hb => h b (mem_cons_of_mem a hb)
    have ha := h a mem_cons_self
    rw [map_cons, total_cons, total_cons]
    cases hq : q (g a)
    · simp only [Bool.false_eq_true, if_false]
      omega
    · simp only [(ha hq).1, (ha hq).2, if_true]
      omega
