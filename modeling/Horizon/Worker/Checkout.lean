import Horizon.Persistence.Schema
import Mathlib.Data.Finset.Image

/-!
# Snapshots of a checkout

`worker/git_recovery.py`: a snapshot records commits for what the checkout of a workspace
holds.  `_checkpoint_dirty` writes the staged content as one tree and the files of the
working directory as another, without touching the index of the agent; `reconcile` records
the commits that `HEAD` and its reflog name.

The tree of the working directory is collected on top of `HEAD` and not of the index.  So
it is the tree of the files that `git status` speaks of only where the index and `HEAD`
agree about the ignored paths (`Checkout.dirtyTree_eq_files`).
-/

namespace Horizon

/-- The tree of a commit: paths with the content they have. -/
abbrev Tree := Finset (Id × Id)

/-- The paths of a tree. -/
def Tree.paths (t : Tree) : Finset Id := t.image Prod.fst

/-- What a snapshot reads of a checkout. -/
structure Checkout where
  /-- The commit that `HEAD` names. -/
  head : Id
  index : Tree
  /-- Whether the index has conflicting entries, so that it is no tree. -/
  unmerged : Bool := false
  worktree : Tree
  /-- The paths that the trusted Git directory ignores: those that the `.gitignore` files of the
  working directory match.  It has no `info/exclude`, and reads neither that of the agent's own
  repository nor a `core.excludesFile`. -/
  ignored : Finset Id
deriving DecidableEq

namespace Checkout

/-- The files of the working directory that are tracked or not ignored. -/
def files (checkout : Checkout) : Tree :=
  checkout.worktree.filter fun f => f.1 ∈ checkout.index.paths ∨ f.1 ∉ checkout.ignored

variable (treeOf : Id → Tree) (checkout : Checkout)

/-- `git status --porcelain --untracked-files=all` prints nothing. -/
def isClean : Bool :=
  !checkout.unmerged && checkout.index == treeOf checkout.head && checkout.files == checkout.index

/-- `git read-tree HEAD` and `git add -A`: files that `HEAD` tracks or that are not ignored. -/
def dirtyTree : Tree :=
  checkout.worktree.filter fun f =>
    f.1 ∈ (treeOf checkout.head).paths ∨ f.1 ∉ checkout.ignored

/-- The commits that `_checkpoint_dirty` records, where `staged` and `dirty` are those made of
the two trees. -/
def dirtyCommits (staged dirty : Id) : List Id :=
  if checkout.isClean treeOf then []
  else
    (if checkout.unmerged || checkout.index == treeOf checkout.head then [] else [staged])
      ++ if checkout.dirtyTree treeOf = treeOf checkout.head then [] else [dirty]

/-- The commits of a whole snapshot, if the given ones are what Git answers: `staged` and
`dirty` have the trees they were made of, and `HEAD` is among the tips. -/
def snapshot (staged dirty : Id) (tips : List Id) : Option (List Id) :=
  let commits := checkout.dirtyCommits treeOf staged dirty
  if (staged ∈ commits → treeOf staged = checkout.index)
      ∧ (dirty ∈ commits → treeOf dirty = checkout.dirtyTree treeOf) ∧ checkout.head ∈ tips then
    some (commits ++ tips)
  else none

/-- The commits `recorded` keep what the checkout holds: its `HEAD`, and all files together
when there is anything that `HEAD` does not have. -/
def Preserved (recorded : Id → Prop) : Prop :=
  recorded checkout.head ∧
    (checkout.isClean treeOf = false → ∃ oid, recorded oid ∧ treeOf oid = checkout.files)

/-- The index and `HEAD` track the same ignored files. -/
def agrees : Bool :=
  decide (∀ f ∈ checkout.worktree, f.1 ∈ checkout.ignored →
    (f.1 ∈ checkout.index.paths ↔ f.1 ∈ (treeOf checkout.head).paths))

variable {treeOf} {checkout : Checkout}

theorem dirtyTree_eq_files (h : checkout.agrees treeOf) :
    checkout.dirtyTree treeOf = checkout.files := by
  refine Finset.filter_congr fun f hf => ?_
  by_cases hi : f.1 ∈ checkout.ignored
  · simp only [hi, not_true_eq_false, or_false]
    exact (of_decide_eq_true h f hf hi).symm
  · simp [hi]

theorem Preserved.mono {recorded recorded' : Id → Prop} (h : checkout.Preserved treeOf recorded)
    (hle : ∀ oid, recorded oid → recorded' oid) : checkout.Preserved treeOf recorded' := by
  refine ⟨hle _ h.1, fun hdirty => ?_⟩
  obtain ⟨oid, hoid, htree⟩ := h.2 hdirty
  exact ⟨oid, hle _ hoid, htree⟩

/-- A snapshot keeps what the checkout holds. -/
theorem preserved_of_snapshot {staged dirty : Id} {tips commits : List Id}
    (hagrees : checkout.agrees treeOf)
    (h : checkout.snapshot treeOf staged dirty tips = some commits) :
    checkout.Preserved treeOf (· ∈ commits) := by
  rw [snapshot] at h
  split at h
  · rename_i hgit
    obtain ⟨-, hdirty, hhead⟩ := hgit
    cases h
    refine ⟨List.mem_append_right _ hhead, fun hclean => ?_⟩
    rw [← dirtyTree_eq_files hagrees]
    by_cases hsame : checkout.dirtyTree treeOf = treeOf checkout.head
    · exact ⟨checkout.head, List.mem_append_right _ hhead, hsame.symm⟩
    · have hmem : dirty ∈ checkout.dirtyCommits treeOf staged dirty := by
        rw [dirtyCommits, hclean]
        simp [hsame]
      exact ⟨dirty, List.mem_append_left _ hmem, hdirty hmem⟩
  · cases h

end Checkout

end Horizon
