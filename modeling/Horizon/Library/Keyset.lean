import Mathlib.Data.List.Sort

/-!
# Reading rows in pages by their keys

Rows are read in a strict total order `lt` of their keys.  `behind lt key start rows` lists the rows
behind a position; a page is a `take` of it, and what lies behind the last row of the page is the
`drop` (`drop_behind`).
-/

open List

namespace Keyset

variable {α κ : Type} (lt : κ → κ → Prop) [DecidableRel lt] (key : α → κ)

/-- The rows whose key lies behind a position, all of them without one, in order. -/
def behind (start : Option κ) (rows : List α) : List α :=
  (rows.filter fun r => start.all fun p => lt p (key r)).insertionSort fun a b =>
    ¬ lt (key b) (key a)

variable {lt key} {start : Option κ} {rows l : List α} {n : ℕ} {r c : α}

theorem mem_behind : r ∈ behind lt key start rows ↔ r ∈ rows ∧ ∀ p ∈ start, lt p (key r) := by
  simp [behind, Option.all_eq_true]

theorem behind_none_perm : (behind lt key none rows).Perm rows := by
  simpa [behind] using perm_insertionSort (fun a b => ¬ lt (key b) (key a)) rows

variable [IsStrictTotalOrder κ lt]

theorem behind_pairwise (h : (rows.map key).Nodup) :
    (behind lt key start rows).Pairwise fun a b => lt (key a) (key b) := by
  have htotal : Std.Total fun a b => ¬ lt (key b) (key a) := ⟨fun a b => by
    by_contra hab
    obtain ⟨hba, hab⟩ := not_or.mp hab
    exact asymm_of lt (not_not.mp hba) (not_not.mp hab)⟩
  have htrans : IsTrans α fun a b => ¬ lt (key b) (key a) := ⟨fun a b c hab hbc hca => by
    obtain hlt | heq | hlt := trichotomous_of lt (key b) (key c)
    · exact hab (trans_of lt hlt hca)
    · exact hab (heq ▸ hca)
    · exact hbc hlt⟩
  have hdistinct : ((behind lt key start rows).map key).Nodup :=
    ((perm_insertionSort _ _).map key).nodup_iff.mpr (h.sublist (filter_sublist.map key))
  have hle : (behind lt key start rows).Pairwise fun a b => ¬ lt (key b) (key a) :=
    pairwise_insertionSort _ _
  refine hle.imp₂ (fun a b hle hne => ?_) (pairwise_map.mp hdistinct)
  obtain hlt | heq | hlt := trichotomous_of lt (key a) (key b)
  · exact hlt
  · exact absurd heq hne
  · exact absurd hlt hle

omit [DecidableRel lt] in
/-- Where the first `n` rows end with `c`, they are the rows up to `c`. -/
theorem mem_take
    (hl : l.Pairwise fun a b => lt (key a) (key b)) (hc : (l.take n).getLast? = some c) :
    r ∈ l.take n ↔ r ∈ l ∧ ¬ lt (key c) (key r) := by
  obtain ⟨_, hfront⟩ := getLast?_eq_some_iff.mp hc
  rw [← take_append_drop n l] at hl
  obtain ⟨htake, -, hcross⟩ := pairwise_append.mp hl
  constructor
  · intro hr
    refine ⟨mem_of_mem_take hr, fun hlt => ?_⟩
    rw [hfront] at hr htake
    obtain hr | rfl := by simpa using hr
    · exact asymm_of lt hlt ((pairwise_append.mp htake).2.2 r hr c (by simp))
    · exact irrefl_of lt (key r) hlt
  · rintro ⟨hr, hle⟩
    rw [← take_append_drop n l] at hr
    exact (mem_append.mp hr).resolve_right fun hdrop => hle (hcross c (by simp [hfront]) r hdrop)

/-- What lies behind the last of the first `n` rows is what they leave. -/
theorem drop_behind (h : (rows.map key).Nodup)
    (hc : ((behind lt key start rows).take n).getLast? = some c) :
    (behind lt key start rows).drop n = behind lt key (some (key c)) rows := by
  have hl : (behind lt key start rows).Pairwise _ := behind_pairwise h
  have : Std.Irrefl fun a b => lt (key a) (key b) := ⟨fun a => irrefl_of lt (key a)⟩
  have : Std.Antisymm fun a b => lt (key a) (key b) :=
    ⟨fun a b hab hba => absurd hba (asymm_of lt hab)⟩
  refine (hl.sublist (drop_sublist _ _)).eq_of_mem_iff (behind_pairwise h) fun r => ?_
  have hmem := mem_of_getLast? hc
  simp only [mem_behind, Option.mem_some_iff, forall_eq']
  constructor
  · intro hr
    refine ⟨(mem_behind.mp (mem_of_mem_drop hr)).1, ?_⟩
    rw [← take_append_drop n (behind lt key start rows)] at hl
    exact (pairwise_append.mp hl).2.2 c hmem r hr
  · rintro ⟨hr, hlt⟩
    have hstart : ∀ p ∈ start, lt p (key r) :=
      fun p hp => trans_of lt ((mem_behind.mp (mem_of_mem_take hmem)).2 p hp) hlt
    have hbehind : r ∈ (behind lt key start rows).take n ++ (behind lt key start rows).drop n := by
      rw [take_append_drop]
      exact mem_behind.mpr ⟨hr, hstart⟩
    exact (mem_append.mp hbehind).resolve_left fun htake => ((mem_take hl hc).mp htake).2 hlt

end Keyset
