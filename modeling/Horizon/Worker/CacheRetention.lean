import Mathlib.Algebra.Ring.Nat
import Horizon.Library.Selection
import Horizon.Library.Table
import Mathlib.Algebra.BigOperators.Group.List.Basic
import Mathlib.Data.Char
import Mathlib.Data.List.Lex
import Mathlib.Data.Prod.Lex

/-!
# Cache retention

The two eviction loops of `worker/cache_retention.py`.  Both scan a directory that may hold more
files than fit in memory, keep the 2048 oldest candidates in a heap, delete them oldest first until
the limits hold, and scan again when the heap is used up.  `run_prunes` says that the passes
together delete what one sorted pass over the whole directory would delete.

The clock, the free space of the file system and the order in which a walk lists the files are
arbitrary (`Host`).  Free space is read once for each number of deleted files, so that number is
what the reading may depend on.  Whether a modification time lies before the cutoff is decided by a
floating-point comparison; the model takes its answer as a function of the time.
-/

namespace Horizon.CacheRetention

open List Table

/-- A file below the pruned directory, as `lstat` reports it; `size` is `st_blocks * 512`. -/
structure CacheFile where
  mtime : Int
  path : List Char
  ino : Nat
  size : Nat
  regular : Bool

/-- The tuple the heap compares: older files are greater.  No two files share a path, so nothing
behind the path decides a comparison. -/
def CacheFile.entry (file : CacheFile) : Int ×ₗ (List Char ×ₗ (Nat ×ₗ (Nat ×ₗ Bool))) :=
  toLex (-file.mtime, toLex (file.path, toLex (file.ino, toLex (file.size, file.regular))))

theorem CacheFile.entry_injective : Function.Injective CacheFile.entry := by
  rintro ⟨⟩ ⟨⟩ h
  simpa [CacheFile.entry] using h

instance : LinearOrder CacheFile := LinearOrder.lift' CacheFile.entry CacheFile.entry_injective

/-- The files of a directory. -/
abbrev Tree := Table CacheFile.path

variable {file : CacheFile} {files deleted : List CacheFile} {now : Tree}

/-- What a run reads of its surroundings. -/
structure Host where
  /-- Whether the given reading of the clock is past the deadline. -/
  late : Nat → Bool
  /-- Free space once that many files are deleted. -/
  free : Nat → Nat
  /-- The files in the order of a walk. -/
  walk : Tree → List CacheFile
  walk_perm : ∀ tree, (walk tree).Perm tree.rows

/-- In what the two loops differ. -/
structure Policy where
  /-- The files whose size counts. -/
  counted : CacheFile → Bool
  /-- The files that may be deleted. -/
  candidate : CacheFile → Bool
  sound : ∀ file, candidate file → counted file ∧ file.regular
  /-- Whether the pass stops before a file, given the total and the free space. -/
  satisfied : Nat → CacheFile → Nat → Bool

structure Scan where
  clock : Nat
  total : Nat
  oldest : List CacheFile

structure State where
  tree : Tree
  deleted : List CacheFile
  clock : Nat

/-- `path.lstat()` and `path.unlink()`: a file that is gone or was replaced is left alone. -/
def State.unlink (s : State) (file : CacheFile) : Option State :=
  match s.tree.find? file.path with
  | none => none
  | some current =>
    if current.regular && current.ino == file.ino && current.mtime == file.mtime then
      some { s with
        tree := s.tree.restrict fun other => decide (other.path ≠ file.path)
        deleted := s.deleted ++ [current] }
    else none

section

variable (p : Policy) (host : Host)

/-- The scan of one pass; `none` when the deadline passes. -/
def scan : List CacheFile → Scan → Option Scan
  | [], r => some r
  | file :: files, r =>
    if host.late r.clock then none
    else scan files
      { clock := r.clock + 1
        total := if p.counted file then r.total + file.size else r.total
        oldest := if p.candidate file then Selection.push 2048 r.oldest file else r.oldest }

/-- The deletions of one pass: the value returned, or `none` for another pass. -/
def evict : List CacheFile → Nat → Bool → State → Option Bool × State
  | [], _, deleted, s => (if deleted then none else some true, s)
  | file :: files, total, deleted, s =>
    if host.late s.clock then (some false, s)
    else
      let s := { s with clock := s.clock + 1 }
      if p.satisfied total file (host.free s.deleted.length) then (some true, s)
      else match s.unlink file with
        | none => evict files total deleted s
        | some s => evict files (total - file.size) true s

/-- One pass. -/
def sweep (s : State) : Option Bool × State :=
  match scan p host (host.walk s.tree) ⟨s.clock, 0, []⟩ with
  | none => (some false, s)
  | some r =>
    if r.oldest = [] then (some true, { s with clock := r.clock })
    else evict p host r.oldest.reverse r.total false { s with clock := r.clock }

/-- At most the given number of passes; `none` when another one is due. -/
def run : Nat → State → Option Bool × State
  | 0, s => (none, s)
  | passes + 1, s =>
    match sweep p host s with
    | (none, s) => run passes s
    | result => result

end

/-- The limits of the artifact store: a pass stops at a file that has not expired. -/
def artifactPolicy (maxBytes minimumFree : Nat) (expired : Int → Bool) : Policy where
  counted file := file.regular
  candidate file := file.regular
  sound _ h := ⟨h, h⟩
  satisfied total file free := total ≤ maxBytes && !expired file.mtime && minimumFree ≤ free

/-- `_prune`. -/
def prune (maxBytes minimumFree : Nat) (expired : Int → Bool) (host : Host) (passes : Nat)
    (tree : Tree) : Option Bool × State :=
  run (artifactPolicy maxBytes minimumFree expired) host passes ⟨tree, [], 0⟩

/-- Native output and, as every walked file is below the directory of generated code, its
metadata. -/
def disposable (path : List Char) : Bool :=
  [".c", ".o", ".o.export", ".bc", ".ll", ".json", ".hash"].any (·.toList.isSuffixOf path)

/-- The limits of the native outputs: young files count but stay. -/
def nativePolicy (tracked : List (List Char)) (maximum reserve : Nat) (young : Int → Bool) :
    Policy where
  counted file := disposable file.path && !tracked.contains file.path && file.regular
  candidate file :=
    disposable file.path && !tracked.contains file.path && file.regular && !young file.mtime
  sound file h := by
    simp only [Bool.and_eq_true] at h ⊢
    exact ⟨h.1, h.1.2⟩
  satisfied total _ free := total ≤ maximum && reserve ≤ free

/-- `_prune_native`; `tracked` is what `git ls-files` printed, if it succeeded. -/
def pruneNative (tracked : Option (List (List Char))) (maximum reserve : Nat) (young : Int → Bool)
    (host : Host) (passes : Nat) (tree : Tree) : Option Bool × State :=
  match tracked with
  | none => (some false, ⟨tree, [], 0⟩)
  | some tracked => run (nativePolicy tracked maximum reserve young) host passes ⟨tree, [], 0⟩

/-! ## One sorted pass -/

namespace Policy

variable (p : Policy) (tree : Tree)

/-- The candidates oldest first, ties by path descending. -/
def order : List CacheFile := (tree.rows.filter p.candidate).insertionSort (· ≥ ·)

def total : Nat := ((tree.rows.filter p.counted).map (·.size)).sum

/-- The total once the first `n` files of the order are gone. -/
def left (n : Nat) : Nat := p.total tree - (((p.order tree).take n).map (·.size)).sum

/-- After `n` deletions the limits hold, or no candidate is left. -/
def Stops (host : Host) (n : Nat) : Prop :=
  ∀ file, (p.order tree)[n]? = some file → p.satisfied (p.left tree n) file (host.free n)

variable {p tree}

theorem mem_order : file ∈ p.order tree ↔ file ∈ tree ∧ p.candidate file := by
  rw [order, mem_insertionSort, mem_filter, mem_def]

theorem eq_order
    (hsorted : files.Pairwise (· ≥ ·)) (hperm : files.Perm (tree.rows.filter p.candidate)) :
    files = p.order tree :=
  Perm.eq_of_pairwise' (r := (· ≥ ·)) hsorted (pairwise_insertionSort _ _)
    (hperm.trans (perm_insertionSort _ _).symm)

end Policy

/-- The files deleted so far start the order, and no shorter start was enough. -/
structure Prunes (p : Policy) (host : Host) (tree : Tree) (deleted : List CacheFile) (now : Tree) :
    Prop where
  order : p.order tree = deleted ++ p.order now
  kept : (deleted ++ now.rows).Perm tree.rows
  needed : ∀ n < deleted.length, ¬ p.Stops tree host n

variable {p : Policy} {host : Host} {tree : Tree} {s : State} {more : List CacheFile}

theorem Prunes.total_eq (h : Prunes p host tree deleted now) :
    p.total now = p.left tree deleted.length := by
  have hcounted : deleted.filter p.counted = deleted := by
    refine filter_eq_self.mpr fun file hfile => (p.sound file ?_).1
    exact (Policy.mem_order.mp (h.order ▸ mem_append_left _ hfile)).2
  have htotal := ((h.kept.filter p.counted).map (·.size)).sum_eq
  rw [filter_append, hcounted, map_append, sum_append] at htotal
  rw [Policy.left, h.order, take_left, Policy.total, Policy.total]
  omega

theorem Prunes.stops (h : Prunes p host tree deleted now)
    (hstops : ∀ file, (p.order now).head? = some file →
      p.satisfied (p.total now) file (host.free deleted.length)) :
    p.Stops tree host deleted.length := by
  intro file hfile
  rw [h.order, getElem?_append_right le_rfl, Nat.sub_self, ← head?_eq_getElem?] at hfile
  exact h.total_eq ▸ hstops file hfile

/-- The next file of the order is still there and is deleted. -/
theorem Prunes.unlink (h : Prunes p host tree s.deleted s.tree)
    (horder : p.order s.tree = file :: files)
    (hmore : ¬ p.satisfied (p.total s.tree) file (host.free s.deleted.length)) :
    ∃ s', s.unlink file = some s' ∧ Prunes p host tree s'.deleted s'.tree ∧
      p.order s'.tree = files ∧ p.total s'.tree = p.total s.tree - file.size ∧
      s.deleted.length < s'.deleted.length := by
  obtain ⟨hmem, hcandidate⟩ := Policy.mem_order.mp (horder ▸ mem_cons_self)
  obtain ⟨hcounted, hregular⟩ := p.sound file hcandidate
  have hperm : (file :: (s.tree.restrict fun other => decide (other.path ≠ file.path)).rows).Perm
      s.tree.rows := perm_cons_restrict_ne hmem
  have hfiles : files = p.order (s.tree.restrict fun other => decide (other.path ≠ file.path)) := by
    have hsorted := pairwise_insertionSort (· ≥ ·) (s.tree.rows.filter p.candidate)
    rw [← Policy.order, horder] at hsorted
    refine Policy.eq_order (pairwise_cons.mp hsorted).2 ((perm_cons file).mp ?_)
    have hfilter := hperm.filter p.candidate
    rw [filter_cons_of_pos hcandidate] at hfilter
    exact (horder ▸ perm_insertionSort _ _ : (file :: files).Perm _).trans hfilter.symm
  refine ⟨{ s with
    tree := s.tree.restrict fun other => decide (other.path ≠ file.path)
    deleted := s.deleted ++ [file] }, ?_, ⟨?_, ?_, ?_⟩, hfiles.symm, ?_, by simp⟩
  · simp [State.unlink, find?_key hmem, hregular]
  · rw [h.order, horder, ← hfiles, append_assoc, singleton_append]
  · rw [append_assoc, singleton_append]
    exact (hperm.append_left _).trans h.kept
  · intro n hn
    rw [length_append, length_singleton, Nat.lt_succ_iff_lt_or_eq] at hn
    rcases hn with hn | rfl
    · exact h.needed n hn
    · intro hstops
      refine hmore (h.total_eq ▸ hstops file ?_)
      rw [h.order, horder, getElem?_append_right le_rfl, Nat.sub_self, getElem?_cons_zero]
  · have htotal := ((hperm.filter p.counted).map (·.size)).sum_eq
    rw [filter_cons_of_pos hcounted, map_cons, sum_cons] at htotal
    exact Nat.eq_sub_of_add_eq' htotal

/-- A result of the loop: the value `true` is returned only where the limits hold, the value `false`
only past the deadline, and another pass is due only after so many deletions. -/
structure Right (p : Policy) (host : Host) (tree : Tree) (least : Nat)
    (result : Option Bool × State) : Prop where
  prunes : Prunes p host tree result.2.deleted result.2.tree
  stops : result.1 = some true → p.Stops tree host result.2.deleted.length
  late : result.1 = some false → ∃ n, host.late n
  advances : result.1 = none → least ≤ result.2.deleted.length

variable {least : Nat}

theorem evict_right (h : Prunes p host tree s.deleted s.tree)
    (horder : p.order s.tree = files ++ more) {deleted : Bool}
    (hdeleted : files = [] → deleted ∧ least ≤ s.deleted.length)
    (hleast : least ≤ s.deleted.length + 1) :
    Right p host tree least (evict p host files (p.total s.tree) deleted s) := by
  induction files generalizing s deleted with
  | nil =>
    exact ⟨h, by simp [evict, hdeleted rfl], by simp [evict, hdeleted rfl], fun _ =>
      (hdeleted rfl).2⟩
  | cons _ files ih =>
    rw [evict]
    split
    case isTrue hlate => exact ⟨h, by simp, fun _ => ⟨s.clock, hlate⟩, by simp⟩
    case isFalse =>
      dsimp only
      split
      case isTrue hsatisfied =>
        refine ⟨h, fun _ => h.stops fun _ hnext => ?_, by simp, by simp⟩
        rw [horder] at hnext
        cases hnext
        exact hsatisfied
      case isFalse hmore =>
        obtain ⟨s', hunlink, h', horder', htotal, hlonger⟩ :=
          Prunes.unlink (s := { s with clock := s.clock + 1 }) h horder hmore
        have hleast' : least ≤ s'.deleted.length := hleast.trans hlonger
        rw [hunlink, ← htotal]
        exact ih h' horder' (fun _ => ⟨rfl, hleast'⟩) (Nat.le_succ_of_le hleast')

theorem scan_eq_some {r r' : Scan} (h : scan p host files r = some r') :
    r'.total = r.total + ((files.filter p.counted).map (·.size)).sum ∧
      r'.oldest = (files.filter p.candidate).foldl (Selection.push 2048) r.oldest := by
  induction files generalizing r with
  | nil =>
    cases h
    exact ⟨rfl, rfl⟩
  | cons file files ih =>
    rw [scan] at h
    split at h
    case isTrue => cases h
    case isFalse =>
      obtain ⟨htotal, holdest⟩ := ih h
      rw [htotal, holdest, filter_cons, filter_cons]
      constructor
      · cases p.counted file <;> simp [Nat.add_assoc]
      · cases p.candidate file <;> rfl

/-- A scan is given up past the deadline only. -/
theorem late_of_scan {r : Scan} (h : scan p host files r = none) : ∃ n, host.late n := by
  induction files generalizing r with
  | nil => cases h
  | cons file files ih =>
    rw [scan] at h
    split at h
    case isTrue hlate => exact ⟨r.clock, hlate⟩
    case isFalse => exact ih h

theorem sweep_right (h : Prunes p host tree s.deleted s.tree) :
    Right p host tree (s.deleted.length + 1) (sweep p host s) := by
  rw [sweep]
  split
  case h_1 hscan => exact ⟨h, by simp, fun _ => late_of_scan hscan, by simp⟩
  case h_2 r hscan =>
    obtain ⟨htotal, holdest⟩ := scan_eq_some hscan
    obtain ⟨_, hselects, hperm⟩ :=
      Selection.selects_foldl ((host.walk s.tree).filter p.candidate)
        (⟨.nil, by simp, fun _ => rfl⟩ : Selection.Selects 2048 [] [])
    rw [← holdest] at hselects hperm
    obtain ⟨_, horder, hall⟩ := hselects.sort_eq_append
      ((hperm.trans (by simp)).trans ((host.walk_perm s.tree).filter p.candidate))
    have htotal : r.total = p.total s.tree := by
      rw [htotal, Nat.zero_add]
      exact (((host.walk_perm s.tree).filter p.counted).map (·.size)).sum_eq
    split
    case isTrue hempty =>
      refine ⟨h, fun _ => h.stops fun _ hfile => ?_, by simp, by simp⟩
      rw [Policy.order, horder, hall (by simp [hempty]), hempty] at hfile
      cases hfile
    case isFalse hsome =>
      rw [htotal]
      exact evict_right (s := { s with clock := r.clock }) h horder
        (fun hnil => absurd (reverse_eq_nil_iff.mp hnil) hsome) le_rfl

/-- The passes together: each deletes a file or is the last. -/
theorem run_right {passes : Nat} (h : Prunes p host tree s.deleted s.tree) :
    Right p host tree (s.deleted.length + passes) (run p host passes s) := by
  induction passes generalizing s with
  | zero => exact ⟨h, by simp [run], by simp [run], fun _ => le_rfl⟩
  | succ passes ih =>
    have hsweep := sweep_right h
    rw [run]
    split
    case h_1 s' heq =>
      rw [heq] at hsweep
      have hrun := ih hsweep.prunes
      refine ⟨hrun.prunes, hrun.stops, hrun.late, fun hnone => le_trans ?_ (hrun.advances hnone)⟩
      have hlonger := hsweep.advances rfl
      dsimp only at hlonger ⊢
      omega
    case h_2 hsome =>
      refine ⟨hsweep.prunes, hsweep.stops, hsweep.late, fun hnone =>
        absurd ?_ (hsome (sweep p host s).2)⟩
      exact Prod.ext hnone rfl

/-- What the loop does to a tree.  Whatever it returns, the files it deleted are the start of the
order, and it could not stop earlier.  It returns, and does so with `true` unless the deadline has
passed; then the limits hold or no candidate is left. -/
structure Evicts (p : Policy) (host : Host) (passes : Nat) (tree : Tree)
    (result : Option Bool × State) : Prop where
  prunes : Prunes p host tree result.2.deleted result.2.tree
  stops : result.1 = some true → p.Stops tree host result.2.deleted.length
  returns : tree.rows.length < passes → result.1 ≠ none
  inTime : tree.rows.length < passes → (∀ n, host.late n = false) → result.1 = some true

theorem run_evicts (p : Policy) (host : Host) (passes : Nat) (tree : Tree) :
    Evicts p host passes tree (run p host passes ⟨tree, [], 0⟩) := by
  have hrun : Right p host tree (0 + passes) (run p host passes ⟨tree, [], 0⟩) :=
    run_right (s := ⟨tree, [], 0⟩) ⟨rfl, .refl _, by simp⟩
  have hreturns : tree.rows.length < passes → (run p host passes ⟨tree, [], 0⟩).1 ≠ none := by
    intro hpasses h
    have hdeleted := hrun.advances h
    have hlength := hrun.prunes.kept.length_eq
    rw [length_append] at hlength
    omega
  refine ⟨hrun.prunes, hrun.stops, hreturns, fun hpasses hlate => ?_⟩
  cases hresult : (run p host passes ⟨tree, [], 0⟩).1 with
  | none => exact absurd hresult (hreturns hpasses)
  | some value =>
    cases value with
    | true => rfl
    | false =>
      obtain ⟨n, hn⟩ := hrun.late hresult
      simp [hlate n] at hn

/-- Only candidates are deleted. -/
theorem Prunes.candidate (h : Prunes p host tree deleted now) (hfile : file ∈ tree)
    (hgone : file ∉ now) : p.candidate file := by
  have hdeleted := (mem_append.mp (h.kept.mem_iff.mpr hfile)).resolve_right hgone
  exact (Policy.mem_order.mp (h.order ▸ mem_append_left _ hdeleted)).2

/-- `_prune` evicts as one sorted pass would.  So does `_prune_native` among its candidates, once it
knows the tracked files; whatever it returns, it deletes no tracked file, no young one and none of
another kind. -/
theorem retention_exact :
    (∀ maxBytes minimumFree expired host passes tree,
      Evicts (artifactPolicy maxBytes minimumFree expired) host passes tree
        (prune maxBytes minimumFree expired host passes tree)) ∧
    (∀ names maximum reserve young host passes tree,
      Evicts (nativePolicy names maximum reserve young) host passes tree
        (pruneNative (some names) maximum reserve young host passes tree)) ∧
    ∀ tracked maximum reserve young host passes tree, ∀ file ∈ tree,
      file ∉ (pruneNative tracked maximum reserve young host passes tree).2.tree →
      ∃ names, tracked = some names ∧ file.path ∉ names ∧ ¬ young file.mtime
      ∧ disposable file.path := by
  refine ⟨fun maxBytes minimumFree expired => run_evicts _, fun names maximum reserve young =>
    run_evicts _, ?_⟩
  intro tracked maximum reserve young host passes tree file hfile hgone
  cases tracked with
  | none => exact absurd hfile hgone
  | some names =>
    have hcandidate :=
      (run_evicts (nativePolicy names maximum reserve young) host passes tree).prunes.candidate
      hfile hgone
    simp only [nativePolicy, Bool.and_eq_true, Bool.not_eq_true', contains_eq_mem,
      decide_eq_false_iff_not] at hcandidate
    obtain ⟨⟨⟨hkind, huntracked⟩, -⟩, hold⟩ := hcandidate
    exact ⟨names, rfl, huntracked, by simp [hold], hkind⟩

/-- A host whose clock never runs out. -/
def sampleHost : Host := ⟨fun _ => false, fun _ => 100, rows, fun _ => .refl _⟩

/-- A directory with files of several ages and kinds. -/
def sampleTree : Tree :=
  ⟨[⟨50, ['b', '.', 'o'], 2, 512, true⟩, ⟨10, ['a', '.', 'o'], 1, 512, true⟩,
    ⟨5, ['t', '.', 'c'], 3, 512, true⟩,
    ⟨12, ['d', '.', 'c'], 4, 512, true⟩, ⟨3, ['r', '.', 'm', 'd'], 5, 512, true⟩], by decide⟩

/-- The expired files are deleted. -/
def samplePruned : State := (prune 4096 0 (· < 11) sampleHost 6 sampleTree).2

/-- The native outputs are pruned to two files. -/
def sampleNative : State :=
  (pruneNative (some [['t', '.', 'c']]) 1024 0 (40 < ·) sampleHost 6 sampleTree).2

/-- The expired files are deleted oldest first; of the native outputs the oldest that is neither
tracked nor of another kind. -/
theorem retention_exact_sample :
    (samplePruned.deleted.map (·.ino) = [5, 3, 1] ∧
      (artifactPolicy 4096 0 (· < 11)).Stops sampleTree sampleHost samplePruned.deleted.length) ∧
    sampleNative.deleted.map (·.ino) = [1] ∧
      (nativePolicy [['t', '.', 'c']] 1024 0 (40 < ·)).Stops sampleTree sampleHost
      sampleNative.deleted.length := by
  have hpruned := retention_exact.1 4096 0 (· < 11) sampleHost 6 sampleTree
  have hnative := retention_exact.2.1 [['t', '.', 'c']] 1024 0 (40 < ·) sampleHost 6 sampleTree
  exact ⟨⟨by decide +kernel,
    hpruned.stops (hpruned.inTime (by decide) fun _ => rfl)⟩, by decide +kernel,
    hnative.stops (hnative.inTime (by decide) fun _ => rfl)⟩

end Horizon.CacheRetention
