import Horizon.Missions.MissionTree
import Mathlib.Data.Fintype.EquivFin

/-!
# Scope containment

`scope_contains` compares normalized scopes.  It only looks at which records and paths a
scope names (`scopeContains_iff`), so it does not see normalization, and it is a
transitive relation: what a mission may not reach, nothing delegated from it may.  On
validated scopes it is the order of what they denote, once the child names anything.
-/

namespace Horizon

open List

variable {row : RepositoryScope} {allowed : List RepositoryScope} {s parent child : MissionScope}

/-- Every record and path a scope names is covered by another scope. -/
structure MissionScope.CoveredBy (child parent : MissionScope) : Prop where
  nodeIds : child.nodeIds ⊆ parent.nodeIds
  documentIds : child.documentIds ⊆ parent.documentIds
  repositoryPaths : ∀ row ∈ child.repositoryPaths, pathAllowed parent.repositoryPaths row

theorem pathAllowed_iff :
    pathAllowed allowed row ↔ ∃ a ∈ allowed, a.repositoryId = row.repositoryId
      ∧ ∀ dir ∈ a.path, ∃ path ∈ row.path, path = dir ∨ isBelow path dir := by
  simp only [pathAllowed, Bool.or_eq_true, contains_iff_mem, Option.any_eq_true,
    any_eq_true, Bool.and_eq_true, beq_iff_eq, or_assoc]
  constructor
  · rintro (h | h | ⟨path, hpath, a, ha, hrepo, dir, hdir, hb⟩)
    · exact ⟨row, h, rfl, fun dir hdir => ⟨dir, hdir, .inl rfl⟩⟩
    · exact ⟨_, h, rfl, by simp⟩
    · refine ⟨a, ha, hrepo, fun _ hdir' => ⟨path, hpath, .inr ?_⟩⟩
      rwa [← Option.mem_unique hdir hdir']
  · obtain ⟨_, p⟩ := row
    rintro ⟨⟨_, _ | dir⟩, ha, rfl, h⟩
    · exact .inr (.inl ha)
    · obtain ⟨path, rfl, rfl | hb⟩ := h dir rfl
      · exact .inl ha
      · exact .inr (.inr ⟨path, rfl, _, ha, rfl, dir, rfl, hb⟩)

/-! ## Normalization -/

@[simp] theorem mem_normalizedScope_nodeIds {id : Id} :
    id ∈ (normalizedScope s).nodeIds ↔ id ∈ s.nodeIds := by
  simp [normalizedScope]

@[simp] theorem mem_normalizedScope_documentIds {id : Id} :
    id ∈ (normalizedScope s).documentIds ↔ id ∈ s.documentIds := by
  simp [normalizedScope]

@[simp] theorem mem_normalizedScope_repositoryPaths :
    row ∈ (normalizedScope s).repositoryPaths ↔ row ∈ s.repositoryPaths := by
  simp [normalizedScope]

@[simp] theorem pathAllowed_normalizedScope :
    pathAllowed (normalizedScope s).repositoryPaths row = pathAllowed s.repositoryPaths row := by
  rw [Bool.eq_iff_iff, pathAllowed_iff, pathAllowed_iff]
  simp only [mem_normalizedScope_repositoryPaths]

theorem isEmpty_iff : s.isEmpty ↔ s.nodeIds = [] ∧ s.documentIds = [] ∧ s.repositoryPaths = [] := by
  simp [MissionScope.isEmpty, and_assoc]

@[simp] theorem isEmpty_normalizedScope : (normalizedScope s).isEmpty = s.isEmpty := by
  rw [Bool.eq_iff_iff, isEmpty_iff, isEmpty_iff]
  simp only [eq_nil_iff_forall_not_mem, mem_normalizedScope_nodeIds,
    mem_normalizedScope_documentIds, mem_normalizedScope_repositoryPaths]

/-- What `scope_contains` decides. -/
theorem scopeContains_iff :
    scopeContains parent child ↔
      parent.isEmpty ∨ (child.isEmpty = false ∧ child.CoveredBy parent) := by
  simp only [scopeContains, isEmpty_normalizedScope]
  cases parent.isEmpty <;> cases child.isEmpty
  · simp only [Bool.false_eq_true, if_false, Bool.and_eq_true, all_eq_true,
      contains_iff_mem, mem_normalizedScope_nodeIds, mem_normalizedScope_documentIds,
      mem_normalizedScope_repositoryPaths, pathAllowed_normalizedScope, false_or, true_and]
    exact ⟨fun ⟨⟨hn, hd⟩, hr⟩ => ⟨hn, hd, hr⟩, fun ⟨hn, hd, hr⟩ => ⟨⟨hn, hd⟩, hr⟩⟩
  all_goals simp

@[simp] theorem scopeContains_normalizedScope :
    scopeContains parent (normalizedScope child) = scopeContains parent child := by
  rw [Bool.eq_iff_iff, scopeContains_iff, scopeContains_iff, isEmpty_normalizedScope]
  refine or_congr_right (and_congr_right fun _ => ?_)
  constructor <;> rintro ⟨hn, hd, hr⟩
  · exact ⟨fun id h => hn (by simpa using h), fun id h => hd (by simpa using h),
      fun row h => hr row (by simpa using h)⟩
  · exact ⟨fun id h => hn (by simpa using h), fun id h => hd (by simpa using h),
      fun row h => hr row (by simpa using h)⟩

/-! ## Transitivity -/

theorem below_trans {path dir root : String} (h : path = dir ∨ isBelow path dir)
    (h' : dir = root ∨ isBelow dir root) : path = root ∨ isBelow path root := by
  rcases h with rfl | h
  · exact h'
  · refine .inr ?_
    rcases h' with rfl | h'
    · exact h
    · simp only [isBelow, isPrefixOf_iff_prefix, String.toList_append] at h h' ⊢
      exact h'.trans ((prefix_append _ _).trans h)

theorem pathAllowed_trans {middle : List RepositoryScope} (h : ∀ r ∈ middle, pathAllowed allowed r)
    (hrow : pathAllowed middle row) : pathAllowed allowed row := by
  obtain ⟨m, hm, hrepo, hdirs⟩ := pathAllowed_iff.mp hrow
  obtain ⟨a, ha, hrepo', hroots⟩ := pathAllowed_iff.mp (h m hm)
  refine pathAllowed_iff.mpr ⟨a, ha, hrepo'.trans hrepo, fun root hroot => ?_⟩
  obtain ⟨dir, hdir, hd⟩ := hroots root hroot
  obtain ⟨path, hpath, hp⟩ := hdirs dir hdir
  exact ⟨path, hpath, below_trans hp hd⟩

theorem scopeContains_trans {a b c : MissionScope} (hab : scopeContains a b)
    (hbc : scopeContains b c) : scopeContains a c := by
  rw [scopeContains_iff] at hab hbc ⊢
  rcases hab with ha | ⟨hb, hab⟩
  · exact .inl ha
  · rcases hbc with hb' | ⟨hc, hbc⟩
    · rw [hb] at hb'
      cases hb'
    · exact .inr ⟨hc, Subset.trans hbc.nodeIds hab.nodeIds,
        Subset.trans hbc.documentIds hab.documentIds,
        fun row hrow => pathAllowed_trans hab.repositoryPaths (hbc.repositoryPaths row hrow)⟩

/-! ## What a scope denotes -/

/-- `str(PurePosixPath(value))` of a relative path. -/
def posixPath (value : List Char) : List Char :=
  match (value.splitOn '/').filter fun part => part ≠ [] ∧ part ≠ ['.'] with
  | [] => ['.']
  | parts => ['/'].intercalate parts

/-- What `_nonblank` and `_relative_path` accept. -/
structure IsRelativePath (value : String) : Prop where
  nonblank : hasText value ∧ '\x00' ∉ value.toList
  within : value.toList.head? ≠ some '/' ∧ '\\' ∉ value.toList
    ∧ ['.', '.'] ∉ value.toList.splitOn '/'
  normalized : posixPath value.toList = value.toList ∧ value ≠ "."

/-- A scope whose paths were validated. -/
structure ValidScope extends MissionScope where
  relative : ∀ row ∈ repositoryPaths, ∀ path ∈ row.path, IsRelativePath path

/-- What a scope can denote. -/
inductive Denotation where
  | node (id : Id)
  | document (id : Id)
  | path (repositoryId : Id) (path : { path // IsRelativePath path })

/-- A path denotes itself and everything below it, a missing one the whole repository. -/
def MissionScope.Denotes (s : MissionScope) : Denotation → Prop
  | .node id => id ∈ s.nodeIds
  | .document id => id ∈ s.documentIds
  | .path repositoryId path => ∃ row ∈ s.repositoryPaths, row.repositoryId = repositoryId
      ∧ ∀ dir ∈ row.path, path = dir ∨ isBelow path dir

/-- Every repository has a path that is neither one of the rows' nor below one of them. -/
theorem exists_fresh_path (rows : List RepositoryScope) : ∃ path, IsRelativePath path
    ∧ ∀ row ∈ rows, ∀ dir ∈ row.path, ¬(path = dir ∨ isBelow path dir) := by
  -- One component, of a length no row's path has.
  obtain ⟨n, hn⟩ :=
    Infinite.exists_notMem_finset (rows.map fun row => (row.path.getD "").length - 1).toFinset
  let path := 'x' :: replicate n 'x'
  have hsplit : path.splitOn '/' = [path] := splitOnP_eq_singleton fun c _ => by
    simp_all [path, ← replicate_succ]
  have hx : isSpace 'x' = false := rfl
  refine ⟨String.ofList path, ⟨by simp [hasText, path, hx], ?_, ?_⟩, ?_⟩
  · rw [String.toList_ofList, hsplit]
    simp [path]
  · rw [String.toList_ofList, posixPath, hsplit]
    simp [path, String.ext_iff]
  · rintro row hrow dir hdir (rfl | hbelow)
    · refine hn (mem_toFinset.mpr (mem_map.mpr ⟨row, hrow, ?_⟩))
      simp only [Option.mem_def.mp hdir, Option.getD_some, String.length_ofList]
      simp [path]
    · simp only [isBelow, isPrefixOf_iff_prefix] at hbelow
      have := hbelow.subset (a := '/')
      simp [path] at this

/-- Within a scope that names anything, `scope_contains` compares what scopes denote, except
that it refuses a child that names nothing. -/
theorem scopeContains_order :
    (∀ s : ValidScope, scopeContains s.toMissionScope s.toMissionScope)
    ∧ (∀ a b c : ValidScope, scopeContains a.toMissionScope b.toMissionScope →
      scopeContains b.toMissionScope c.toMissionScope →
      scopeContains a.toMissionScope c.toMissionScope)
    ∧ ∀ parent child : ValidScope, parent.isEmpty = false →
      (scopeContains parent.toMissionScope child.toMissionScope ↔
        child.isEmpty = false ∧ ∀ d, child.Denotes d → parent.Denotes d) := by
  refine ⟨fun s => ?_, fun a b c => scopeContains_trans, fun parent child hparent => ?_⟩
  · rw [scopeContains_iff]
    cases h : s.isEmpty with
    | true => exact .inl rfl
    | false =>
      refine .inr ⟨rfl, Subset.refl _, Subset.refl _, fun row hrow => ?_⟩
      exact pathAllowed_iff.mpr ⟨row, hrow, rfl, fun dir hdir => ⟨dir, hdir, .inl rfl⟩⟩
  rw [scopeContains_iff, hparent]
  simp only [Bool.false_eq_true, false_or]
  refine and_congr_right fun _ => ⟨fun h d hd => ?_, fun h => ⟨?_, ?_, fun row hrow => ?_⟩⟩
  · cases d with
    | node id => exact h.nodeIds hd
    | document id => exact h.documentIds hd
    | path repositoryId path =>
      obtain ⟨row, hrow, rfl, hdirs⟩ := hd
      obtain ⟨a, ha, hrepo, hroots⟩ := pathAllowed_iff.mp (h.repositoryPaths row hrow)
      refine ⟨a, ha, hrepo, fun root hroot => ?_⟩
      obtain ⟨dir, hdir, hd⟩ := hroots root hroot
      exact below_trans (hdirs dir hdir) hd
  · exact fun id => h (.node id)
  · exact fun id => h (.document id)
  · cases hpath : row.path with
    | none =>
      obtain ⟨path, hvalid, hfresh⟩ := exists_fresh_path parent.repositoryPaths
      obtain ⟨a, ha, hrepo, hdirs⟩ := h (.path row.repositoryId ⟨path, hvalid⟩)
        ⟨row, hrow, rfl, by simp [hpath]⟩
      exact pathAllowed_iff.mpr ⟨a, ha, hrepo, fun dir hdir =>
        absurd (hdirs dir hdir) (hfresh a ha dir hdir)⟩
    | some path =>
      obtain ⟨a, ha, hrepo, hdirs⟩ := h (.path row.repositoryId
        ⟨path, child.relative row hrow path hpath⟩) ⟨row, hrow, rfl, by simp [hpath]⟩
      exact pathAllowed_iff.mpr ⟨a, ha, hrepo, fun dir hdir => ⟨path, hpath, hdirs dir hdir⟩⟩

/-- A child that names nothing denotes nothing, and is refused. -/
theorem scopeContains_nothing : ∃ parent child : ValidScope, parent.isEmpty = false
    ∧ (∀ d, child.Denotes d → parent.Denotes d)
    ∧ scopeContains parent.toMissionScope child.toMissionScope = false := by
  refine ⟨⟨⟨[1], [], []⟩, by simp⟩, ⟨.empty, by simp [MissionScope.empty]⟩, rfl, ?_, rfl⟩
  rintro (id | id | ⟨_, _⟩) h
  all_goals simp [MissionScope.Denotes, MissionScope.empty] at h

end Horizon
