import Horizon.Library.ObjectStore

/-!
# Verifying a change

`integrations/forge_change_transport.py`: `_verify_changes`, which compares the tree of a commit
with the tree of its base, and accepts it when they differ by the expected file operations.  The
two trees are walked together, from a list of pending directories.  Equal directories are skipped,
and every difference takes one operation out of the remaining ones.  The listings of `_tree` are
complete here, and the budget counts directories.
-/

universe u v

namespace Horizon

open List Option Entry

variable {V : TreePath → Prop} {path : TreePath} {allowed : String → Prop}

/-- `(action, old_oid, new_oid)` of a file. -/
inductive FileOp (B : Type v) where
  | create (new : B)
  | update (old new : B)
  | delete (old : B)

/-- The ways a verification fails. -/
inductive ChangeFailure where
  | branchOutcomeConflicts
  | verificationBudgetExceeded
deriving DecidableEq

/-- Whether a path lies in the directory of another: `target.startswith(relative + "/")`. -/
abbrev Beneath (path target : TreePath) : Prop := path <+: target ∧ path ≠ target

/-- The `expected` operations: of the `files` of a change, whose paths are unique and do not
overlap, and whose updates are not no-ops. -/
structure ExpectedFiles (B : Type v) where
  files : List (TreePath × FileOp B)
  nodup : (files.map Prod.fst).Nodup
  nonempty : ∀ f ∈ files, f.1 ≠ []
  apart : ∀ f ∈ files, ∀ g ∈ files, ¬Beneath f.1 g.1
  moves : ∀ path old new, (path, FileOp.update old new) ∈ files → old ≠ new

variable {T : Type u} {B : Type v}

namespace FileOp

/-- `action == "create"`. -/
def isCreate : FileOp B → Bool
  | .create _ => true
  | _ => false

/-- `action == "delete"`. -/
def isDelete : FileOp B → Bool
  | .delete _ => true
  | _ => false

def oldOid : FileOp B → Option B
  | .create _ => none
  | .update old _ | .delete old => some old

def newOid : FileOp B → Option B
  | .create new | .update _ new => some new
  | .delete _ => none

end FileOp

/-- The modes of regular files. -/
def regularModes : List String := ["100644", "100755"]

/-- The test of a file before and after against its operation. -/
def FileOp.accepts [DecidableEq B] (op : FileOp B) (before after : Option (Leaf B)) : Bool :=
  (match before with
    | some file => file.kind = .blob ∧ file.mode ∈ regularModes ∧ some file.oid = op.oldOid
    | none => op.isCreate)
  && match after with
    | some file => file.kind = .blob ∧ file.mode = (before.map Leaf.mode).getD "100644"
        ∧ some file.oid = op.newOid
    | none => op.isDelete

/-- A pending pair of directories at a path. -/
structure Directory (T : Type u) where
  path : TreePath
  old : Option T
  new : Option T

/-- The two entries of a name. -/
structure Cell (T : Type u) (B : Type v) where
  path : TreePath
  old : Option (Entry T B)
  new : Option (Entry T B)

/-- The pair of directories that the entries of a name are. -/
def Cell.directory (c : Cell T B) : Directory T := ⟨c.path, c.old.bind tree?, c.new.bind tree?⟩

/-- The variables of the loop. -/
structure Traversal (T : Type u) (B : Type v) where
  pending : List (Directory T)
  remaining : List (TreePath × FileOp B)

section

variable [DecidableEq T] [DecidableEq B] (store : ObjectStore T B)

/-- The end of the body of the loop over names, where a file is new, changed or gone. -/
def settleFile (st : Traversal T B) (relative : TreePath) (before after : Option (Leaf B)) :
    Except ChangeFailure (Traversal T B) :=
  match st.remaining.find? (·.1 = relative) with
  | none => .error .branchOutcomeConflicts
  | some (_, op) =>
    if op.accepts before after then
      .ok { st with remaining := st.remaining.filter (·.1 ≠ relative) }
    else .error .branchOutcomeConflicts

/-- The body of the loop over names. -/
def visitName (files : List (TreePath × FileOp B)) (st : Traversal T B) (c : Cell T B) :
    Except ChangeFailure (Traversal T B) :=
  if c.old = c.new then .ok st
  else
    let oldDir := (c.old.bind tree?).isSome
    let newDir := (c.new.bind tree?).isSome
    if (oldDir || newDir) && !files.any (fun f => Beneath c.path f.1) then
      .error .branchOutcomeConflicts
    else
      let st := if oldDir || newDir then { st with pending := c.directory :: st.pending } else st
      if oldDir && newDir then .ok st
      else
        let before := c.old.bind leaf?
        let after := c.new.bind leaf?
        if before = none ∧ after = none then .ok st
        else settleFile st c.path before after

/-- The entries of a pair of directories, in an order that a set of names may have. -/
def Directory.cells (order : TreePath → List String → List String) (d : Directory T) :
    List (Cell T B) :=
  (order d.path (store.names d.old d.new)).map fun name =>
    ⟨d.path ++ [name], store.entry d.old name, store.entry d.new name⟩

/-- The loop over pending directories. -/
def verifyFrom (order : TreePath → List String → List String) (files : List (TreePath × FileOp B)) :
    Nat → Traversal T B → Except ChangeFailure Unit
  | _, ⟨[], remaining⟩ => if remaining.isEmpty then .ok () else .error .branchOutcomeConflicts
  | 0, _ => .error .verificationBudgetExceeded
  | budget + 1, ⟨d :: pending, remaining⟩ =>
    if d.old = d.new then verifyFrom order files budget ⟨pending, remaining⟩
    else
      match (d.cells store order).foldlM (visitName files) ⟨pending, remaining⟩ with
      | .error failure => .error failure
      | .ok st => verifyFrom order files budget st

/-- `_verify_changes`. -/
def verifyChanges (order : TreePath → List String → List String) (budget : Nat) (base commit : T)
    (expected : ExpectedFiles B) : Except ChangeFailure Unit :=
  verifyFrom store order expected.files budget ⟨[⟨[], some base, some commit⟩], expected.files⟩

end

/-! ## What is verified -/

/-- The effect of an operation on its path, on files of the `allowed` modes. -/
def FileOp.Applied (allowed : String → Prop) (op : FileOp B)
    (before after : Option (Entry T B)) : Prop :=
  match op with
  | .create new => before = none ∧ after = some (.leaf ⟨.blob, "100644", new⟩)
  | .update old new => ∃ mode, allowed mode ∧ before = some (.leaf ⟨.blob, mode, old⟩)
      ∧ after = some (.leaf ⟨.blob, mode, new⟩)
  | .delete old => ∃ mode, allowed mode ∧ before = some (.leaf ⟨.blob, mode, old⟩) ∧ after = none

/-- What the entries at a path may be, given the operations of the change and those that are
left. -/
structure Cell.Explained (files remaining : List (TreePath × FileOp B)) (c : Cell T B) : Prop where
  leaf : (∀ op, (c.path, op) ∉ remaining) → c.old.bind leaf? = c.new.bind leaf?
  op : ∀ op, (c.path, op) ∈ remaining → op.Applied (· ∈ regularModes) c.old c.new
  dir : (∀ f ∈ files, ¬Beneath c.path f.1) → c.old.bind dirMode = c.new.bind dirMode

/-- Two trees differ by the operations, on files of the `allowed` modes, and by nothing else: no
other file, and no directory in which there is nothing to change. -/
structure Differs (store : ObjectStore T B) (allowed : String → Prop) (base commit : T)
    (expected : ExpectedFiles B) : Prop where
  applied : ∀ path op, (path, op) ∈ expected.files →
    op.Applied allowed (store.at_ (some base) path) (store.at_ (some commit) path)
  otherFiles : ∀ path, (∀ op, (path, op) ∉ expected.files) →
    (store.at_ (some base) path).bind leaf? = (store.at_ (some commit) path).bind leaf?
  directories : ∀ path, (∀ f ∈ expected.files, ¬Beneath path f.1) →
    (store.at_ (some base) path).bind dirMode = (store.at_ (some commit) path).bind dirMode

section

variable {op : FileOp B} {a b : Option (Entry T B)}

theorem FileOp.Applied.ne (h : op.Applied allowed a b)
    (hmoves : ∀ old new, op = .update old new → old ≠ new) : a ≠ b := by
  rintro rfl
  cases op with
  | create new =>
    obtain ⟨hbefore, hafter⟩ := h
    cases hbefore.symm.trans hafter
  | update old new =>
    obtain ⟨mode, -, hbefore, hafter⟩ := h
    cases hbefore.symm.trans hafter
    exact hmoves old old rfl rfl
  | delete old =>
    obtain ⟨mode, -, hbefore, hafter⟩ := h
    cases hbefore.symm.trans hafter

theorem FileOp.Applied.no_dir (h : op.Applied allowed a b) :
    a.bind tree? = none ∧ b.bind tree? = none := by
  cases op with
  | create new =>
    obtain ⟨rfl, rfl⟩ := h
    exact ⟨rfl, rfl⟩
  | update old new | delete old =>
    obtain ⟨_, -, rfl, rfl⟩ := h
    exact ⟨rfl, rfl⟩

/-- Where there is no directory, the test is what the operation does. -/
theorem FileOp.accepts_iff [DecidableEq B] (ha : a.bind tree? = none) (hb : b.bind tree? = none) :
    op.accepts (a.bind leaf?) (b.bind leaf?) ↔ op.Applied (· ∈ regularModes) a b := by
  rcases a with _ | (⟨mode, oid⟩ | ⟨_, mode, oid⟩)
  · rcases b with _ | (⟨mode', oid'⟩ | ⟨kind', mode', oid'⟩)
    · cases op <;> simp [FileOp.accepts, FileOp.Applied, FileOp.isCreate, FileOp.isDelete]
    · simp [tree?] at hb
    · cases op <;> simp [FileOp.accepts, FileOp.Applied, FileOp.isCreate, leaf?, FileOp.newOid]
  · simp [tree?] at ha
  · rcases b with _ | (⟨mode', oid'⟩ | ⟨kind', mode', oid'⟩)
    · cases op <;> simp [FileOp.accepts, FileOp.Applied, FileOp.isDelete, leaf?, FileOp.oldOid]
      aesop
    · simp [tree?] at hb
    · cases op <;> simp [FileOp.accepts, FileOp.Applied, leaf?, FileOp.oldOid, FileOp.newOid]
      aesop

end

/-! ## The walk

The paths that are still looked at are those below the names `cells` of the directory being listed,
and below the pending directories.  `Explains` says what is still to be found there.  A step of the
walk drops paths at which nothing is to be done (`Comparison.Explains.drop`), settles a file
(`Comparison.Explains.settle`), or fails where `Explains` is false. -/

section

variable {c : Cell T B}

/-- The two trees, and the operations that they are to differ by. -/
structure Comparison (T : Type u) (B : Type v) where
  store : ObjectStore T B
  base : T
  commit : T
  expected : ExpectedFiles B

variable {x : Comparison T B} {remaining : List (TreePath × FileOp B)} {cells : List (Cell T B)}
  {st : Traversal T B}

/-- The entries of the two trees at a path. -/
def Comparison.trees (x : Comparison T B) (path : TreePath) : Cell T B :=
  ⟨path, x.store.at_ (some x.base) path, x.store.at_ (some x.commit) path⟩

/-- The entries at a path below a name. -/
def Cell.below (store : ObjectStore T B) (c : Cell T B) (path : TreePath) : Cell T B :=
  ⟨c.path ++ path, store.below c.old path, store.below c.new path⟩

/-- The entries at a path below a pair of directories. -/
def Directory.below (store : ObjectStore T B) (d : Directory T) (path : TreePath) : Cell T B :=
  ⟨d.path ++ path, store.at_ d.old path, store.at_ d.new path⟩

/-- The paths that are still looked at. -/
def Open (cells : List (Cell T B)) (st : Traversal T B) (path : TreePath) : Prop :=
  (∃ c ∈ cells, c.path <+: path) ∨ ∃ d ∈ st.pending, Beneath d.path path

/-- The operations that are left are those of the paths in `U`, and explain what is there. -/
structure Comparison.Explains (x : Comparison T B) (U : TreePath → Prop)
    (remaining : List (TreePath × FileOp B)) : Prop where
  explained : ∀ path, U path → (x.trees path).Explained x.expected.files remaining
  covered : ∀ f ∈ remaining, U f.1

/-- What is still to be found in the middle of the walk. -/
abbrev Comparison.Finds (x : Comparison T B)
    (cells : List (Cell T B)) (st : Traversal T B) : Prop :=
  x.Explains (Open cells st) st.remaining

/-- Nothing is to be done at a path. -/
structure Cell.Idle (files remaining : List (TreePath × FileOp B)) (c : Cell T B) : Prop where
  leaf : c.old.bind leaf? = c.new.bind leaf?
  dir : (∀ f ∈ files, ¬Beneath c.path f.1) → c.old.bind dirMode = c.new.bind dirMode
  op : ∀ op, (c.path, op) ∈ remaining → ¬op.Applied (· ∈ regularModes) c.old c.new

/-- An operation that is left has something to do. -/
theorem Cell.Idle.of_eq (hsub : remaining.Sublist x.expected.files) (h : c.old = c.new) :
    c.Idle x.expected.files remaining := by
  refine ⟨by rw [h], fun _ => by rw [h], fun op hop happlied => ?_⟩
  refine happlied.ne (fun old new hupdate => ?_) h
  subst hupdate
  exact x.expected.moves c.path old new (hsub.subset hop)

theorem Comparison.Explains.drop {U : TreePath → Prop} (hVU : ∀ path, V path → U path)
    (hidle : ∀ path, U path → ¬V path → (x.trees path).Idle x.expected.files remaining) :
    x.Explains U remaining ↔ x.Explains V remaining := by
  constructor
  · intro h
    refine ⟨fun path hV => h.explained path (hVU path hV), fun f hf => ?_⟩
    by_contra hV
    have hU := h.covered f hf
    exact (hidle f.1 hU hV).op f.2 hf ((h.explained f.1 hU).op f.2 hf)
  · intro h
    refine ⟨fun path hU => ?_, fun f hf => hVU f.1 (h.covered f hf)⟩
    by_cases hV : V path
    · exact h.explained path hV
    · exact ⟨fun _ => (hidle path hU hV).leaf, fun op hop => absurd (h.covered _ hop) hV,
        (hidle path hU hV).dir⟩

/-- Away from a path, it does not matter whether its operation is left. -/
theorem Cell.explained_filter {files : List (TreePath × FileOp B)} (h : c.path ≠ path) :
    c.Explained files (remaining.filter (·.1 ≠ path)) ↔ c.Explained files remaining := by
  have hmem : ∀ op, (c.path, op) ∈ remaining.filter (·.1 ≠ path) ↔ (c.path, op) ∈ remaining := by
    intro op
    simp [h]
  constructor
  · rintro ⟨hleaf, hop, hdir⟩
    exact ⟨fun hnone => hleaf fun op => (hmem op).not.mpr (hnone op), fun op h =>
      hop op ((hmem op).mpr h), hdir⟩
  · rintro ⟨hleaf, hop, hdir⟩
    exact ⟨fun hnone => hleaf fun op => (hmem op).not.mp (hnone op), fun op h =>
      hop op ((hmem op).mp h), hdir⟩

theorem Comparison.Explains.settle (hpath : ¬V path)
    (h : (x.trees path).Explained x.expected.files remaining) :
    x.Explains (fun p => p = path ∨ V p) remaining
      ↔ x.Explains V (remaining.filter (·.1 ≠ path)) := by
  have hne : ∀ p, V p → p ≠ path := by
    rintro p hp rfl
    exact hpath hp
  constructor
  · intro hU
    refine ⟨fun p hp => (Cell.explained_filter (hne p hp)).mpr (hU.explained p (.inr hp)),
      fun f hf => ?_⟩
    obtain ⟨hmem, hfne⟩ := mem_filter.mp hf
    exact (hU.covered f hmem).resolve_left (by simpa using hfne)
  · intro hV
    refine ⟨fun p hp => ?_, fun f hf => ?_⟩
    · rcases hp with rfl | hp
      · exact h
      · exact (Cell.explained_filter (hne p hp)).mp (hV.explained p hp)
    · by_cases hfp : f.1 = path
      · exact .inl hfp
      · exact .inr (hV.covered f (mem_filter.mpr ⟨hf, by simpa using hfp⟩))

/-- What holds along the walk: names and directories are those of the two trees, and no path is
looked at twice. -/
structure Comparison.Walks (x : Comparison T B)
    (cells : List (Cell T B)) (st : Traversal T B) : Prop where
  remaining : st.remaining.Sublist x.expected.files
  listed : ∀ c ∈ cells, ∀ path, x.trees (c.path ++ path) = c.below x.store path
  pending : ∀ d ∈ st.pending, ∀ path, path ≠ [] → x.trees (d.path ++ path) = d.below x.store path
  listedOnce : cells.Pairwise fun c c' => ∀ path, c.path <+: path → ¬c'.path <+: path
  pendingOnce : st.pending.Pairwise fun d d' => ∀ path, Beneath d.path path → ¬Beneath d'.path path
  apart : ∀ c ∈ cells, ∀ d ∈ st.pending, ∀ path, c.path <+: path → ¬Beneath d.path path

theorem Comparison.Walks.tail (h : x.Walks (c :: cells) st) : x.Walks cells st where
  __ := h
  listed c' hc' := h.listed c' (mem_cons_of_mem c hc')
  listedOnce := h.listedOnce.tail
  apart c' hc' := h.apart c' (mem_cons_of_mem c hc')

/-- A name is found nowhere else. -/
theorem Comparison.Walks.not_open (h : x.Walks (c :: cells) st) : ¬Open cells st c.path := by
  rintro (⟨c', hc', hp⟩ | ⟨d, hd, hp⟩)
  · exact rel_of_pairwise_cons h.listedOnce hc' c.path prefix_rfl hp
  · exact h.apart c mem_cons_self d hd c.path prefix_rfl hp

theorem Comparison.Walks.head (h : x.Walks (c :: cells) st) : x.trees c.path = c := by
  simpa [Cell.below, ObjectStore.below] using h.listed c mem_cons_self []

/-- What leaves the paths below the first name leaves a path below it. -/
theorem Open.below (h : Open (c :: cells) st path) (hnot : ¬Open cells st path) :
    ∃ rest, path = c.path ++ rest := by
  rcases h with ⟨c', hc', rest, hrest⟩ | hd
  · rcases mem_cons.mp hc' with rfl | hc'
    · exact ⟨rest, hrest.symm⟩
    · exact absurd (.inl ⟨c', hc', rest, hrest⟩) hnot
  · exact absurd (.inr hd) hnot

theorem Open.cons (h : Open cells st path) : Open (c :: cells) st path :=
  h.imp_left fun ⟨c', hc', hp⟩ => ⟨c', mem_cons_of_mem c hc', hp⟩

theorem beneath_append {rest : TreePath} (h : rest ≠ []) : Beneath path (path ++ rest) := by
  refine ⟨prefix_append path rest, fun he => h ?_⟩
  simpa using he

theorem exists_of_beneath {target : TreePath} (h : Beneath path target) :
    ∃ name rest, target = path ++ name :: rest := by
  obtain ⟨⟨rest, rfl⟩, hne⟩ := h
  cases rest with
  | nil => simp at hne
  | cons name rest => exact ⟨name, rest, rfl⟩

section

variable (h : x.Walks (c :: cells) st)

include h

/-- A name whose entries are equal is done with. -/
theorem explains_skip (hsame : c.old = c.new) : x.Finds (c :: cells) st ↔ x.Finds cells st := by
  refine Comparison.Explains.drop (fun path => Open.cons) fun path hopen hnot => ?_
  obtain ⟨_, rfl⟩ := hopen.below hnot
  rw [h.listed c mem_cons_self]
  exact .of_eq h.remaining (by rw [Cell.below, hsame])

/-- A name with a directory is taken up later, where no operation is at its own path. -/
theorem explains_descend (hpath : ∀ op, (c.path, op) ∉ st.remaining)
    (hleaf : c.old.bind leaf? = c.new.bind leaf?)
    (hdir : ∃ f ∈ x.expected.files, Beneath c.path f.1) :
    x.Finds (c :: cells) st ↔ x.Finds cells { st with pending := c.directory :: st.pending } := by
  refine Comparison.Explains.drop (fun path hopen => ?_) fun path hopen hnot => ?_
  · rcases hopen with ⟨c', hc', hp⟩ | ⟨d, hd, hp⟩
    · exact .inl ⟨c', mem_cons_of_mem c hc', hp⟩
    · rcases mem_cons.mp hd with rfl | hd
      · exact .inl ⟨c, mem_cons_self, hp.1⟩
      · exact .inr ⟨d, hd, hp⟩
  · obtain ⟨rest, rfl⟩ := hopen.below fun hopen => hnot (hopen.imp_right fun ⟨d, hd, hp⟩ =>
      ⟨d, mem_cons_of_mem _ hd, hp⟩)
    -- Only the name itself is dropped.
    obtain rfl : rest = [] := by
      by_contra hrest
      exact hnot (.inr ⟨c.directory, mem_cons_self, beneath_append hrest⟩)
    obtain ⟨f, hf, hp⟩ := hdir
    rw [append_nil, h.head]
    exact ⟨hleaf, fun hnone => absurd hp (hnone f hf), fun op hop => absurd hop (hpath op)⟩

theorem Comparison.Walks.descend :
    x.Walks cells { st with pending := c.directory :: st.pending } := by
  refine ⟨h.remaining, h.tail.listed, fun d hd path hp => ?_, h.listedOnce.tail,
    pairwise_cons.mpr ⟨fun d hd path hp => ?_, h.pendingOnce⟩, fun c' hc' d hd path hp => ?_⟩
  · rcases mem_cons.mp hd with rfl | hd
    · change x.trees (c.path ++ path) = _
      rw [h.listed c mem_cons_self path, Cell.below, ObjectStore.below_eq_at _ hp,
        ObjectStore.below_eq_at _ hp]
      rfl
    · exact h.pending d hd path hp
  · exact h.apart c mem_cons_self d hd path hp.1
  · rcases mem_cons.mp hd with rfl | hd
    · exact fun hp' => rel_of_pairwise_cons h.listedOnce hc' path hp'.1 hp
    · exact h.apart c' (mem_cons_of_mem c hc') d hd path hp

/-- A file that its operation explains is done with, and so is the operation. -/
theorem explains_settle {op : FileOp B} (hop : (c.path, op) ∈ st.remaining)
    (happlied : op.Applied (· ∈ regularModes) c.old c.new) :
    x.Finds (c :: cells) st ↔
      x.Finds cells { st with remaining := st.remaining.filter (·.1 ≠ c.path) } := by
  obtain ⟨hold, hnew⟩ := happlied.no_dir
  have hexplained : (x.trees c.path).Explained x.expected.files st.remaining := by
    rw [h.head]
    refine ⟨fun hnone => absurd hop (hnone op), fun op' hop' => ?_, fun _ => ?_⟩
    · have hsame :=
        inj_on_of_nodup_map x.expected.nodup (h.remaining.subset hop) (h.remaining.subset hop') rfl
      obtain rfl : op = op' := congrArg Prod.snd hsame
      exact happlied
    · rw [dirMode_eq_none hold, dirMode_eq_none hnew]
  refine (Comparison.Explains.drop (fun path hp => ?_) fun path hopen hnot => ?_).trans
    (Comparison.Explains.settle h.not_open hexplained)
  · rcases hp with rfl | hp
    · exact .inl ⟨c, mem_cons_self, prefix_rfl⟩
    · exact hp.cons
  · -- Nothing lies below a file.
    obtain ⟨rest, rfl⟩ := hopen.below fun hp => hnot (.inr hp)
    have hrest : rest ≠ [] := by
      rintro rfl
      exact hnot (.inl (append_nil _))
    rw [h.listed c mem_cons_self]
    refine .of_eq h.remaining ?_
    rw [Cell.below, ObjectStore.below_eq_none hold hrest, ObjectStore.below_eq_none hnew hrest]

/-- A directory with nothing to change in it is the same in both trees. -/
theorem Comparison.Walks.eq_of_explained (hexp : x.Finds (c :: cells) st)
    (hnone : ∀ f ∈ x.expected.files, ¬Beneath c.path f.1)
    (hdir : (c.old.bind tree?).isSome ∨ (c.new.bind tree?).isSome) : c.old = c.new := by
  have hbelow : ∀ path, (c.below x.store path).Explained x.expected.files st.remaining :=
    fun path => by
    rw [← h.listed c mem_cons_self]
    exact hexp.explained _ (.inl ⟨c, mem_cons_self, prefix_append _ _⟩)
  have hroot : c.Explained x.expected.files st.remaining := by
    rw [← h.head]
    exact hexp.explained _ (.inl ⟨c, mem_cons_self, prefix_rfl⟩)
  -- No operation is at the path, since there is a directory.
  have hpath : ∀ op, (c.path, op) ∉ st.remaining := by
    intro op hop
    obtain ⟨hold, hnew⟩ := (hroot.op op hop).no_dir
    simp [hold, hnew] at hdir
  have hmode := hroot.dir hnone
  obtain ⟨mode, r, r', hold, hnew⟩ : ∃ mode r r', c.old = some (.tree mode r)
      ∧ c.new = some (.tree mode r') := by
    rcases hold : c.old with _ | (⟨mode, r⟩ | _) <;> rcases hnew : c.new with _ | (⟨_, r'⟩ | _) <;>
      simp_all [tree?, dirMode]
  have hr : r = r' := by
    have hat : ∀ path, path ≠ [] →
        (x.store.at_ (some r) path).bind leaf? = (x.store.at_ (some r') path).bind leaf?
        ∧ (x.store.at_ (some r) path).bind dirMode = (x.store.at_ (some r') path).bind dirMode := by
      intro path hp
      have hpair := hbelow path
      simp only [Cell.below, ObjectStore.below_eq_at _ hp, hold, hnew, bind_some, tree?] at hpair
      refine ⟨hpair.leaf fun op hop => hnone _ (h.remaining.subset hop) (beneath_append hp),
        hpair.dir fun f hf hbeneath => hnone f hf ⟨(prefix_append _ _).trans hbeneath.1, ?_⟩⟩
      intro he
      have hlen := hbeneath.1.length_le
      rw [← he, length_append] at hlen
      exact hp (length_eq_zero_iff.mp (by omega))
    refine x.store.eq_of_same (fun path => ?_) fun path => ?_ <;> by_cases hp : path = []
    · rw [hp]; rfl
    · exact (hat path hp).1
    · rw [hp]; rfl
    · exact (hat path hp).2
  rw [hold, hnew, hr]

end

variable {order : TreePath → List String → List String} {d : Directory T}
  {pending : List (Directory T)}

section

variable (horder : ∀ path names, (order path names).Perm names)

include horder

theorem Directory.mem_cells :
    c ∈ d.cells x.store order ↔ ∃ name ∈ x.store.names d.old d.new,
      c = ⟨d.path ++ [name], x.store.entry d.old name, x.store.entry d.new name⟩ := by
  simp only [Directory.cells, List.mem_map, (horder _ _).mem_iff, eq_comm]

/-- Listing a pair of directories puts their names in its place. -/
theorem Comparison.Walks.expand (h : x.Walks [] ⟨d :: pending, remaining⟩) :
    x.Walks (d.cells x.store order) ⟨pending, remaining⟩ := by
  refine ⟨h.remaining, fun c hc path => ?_, fun d' hd' => h.pending d' (mem_cons_of_mem d hd'), ?_,
    h.pendingOnce.tail, fun c hc d' hd' path hp => ?_⟩
  · obtain ⟨name, -, rfl⟩ := (Directory.mem_cells horder).mp hc
    rw [append_assoc, singleton_append, h.pending d mem_cons_self _ (cons_ne_nil name path)]
    simp only [Cell.below, Directory.below, ObjectStore.at_, append_assoc, singleton_append]
  · have hnodup : (order d.path (x.store.names d.old d.new)).Nodup :=
      (horder _ _).nodup_iff.mpr (nodup_dedup _)
    refine pairwise_map.mpr (hnodup.imp fun {name name'} hne path hp hp' => hne ?_)
    have hlen := prefix_of_prefix_length_le hp hp' (by simp)
    simpa using hlen.eq_of_length (by simp)
  · obtain ⟨name, -, rfl⟩ := (Directory.mem_cells horder).mp hc
    obtain ⟨rest, rfl⟩ := hp
    rw [append_assoc, singleton_append]
    exact rel_of_pairwise_cons h.pendingOnce hd' _ (beneath_append (cons_ne_nil name rest))

theorem explains_expand (h : x.Walks [] ⟨d :: pending, remaining⟩) :
    x.Finds [] ⟨d :: pending, remaining⟩ ↔
      x.Finds (d.cells x.store order) ⟨pending, remaining⟩ := by
  refine Comparison.Explains.drop (fun path hopen => ?_) fun path hopen hnot => ?_
  · rcases hopen with ⟨c, hc, rest, rfl⟩ | ⟨d', hd', hp⟩
    · obtain ⟨name, -, rfl⟩ := (Directory.mem_cells horder).mp hc
      refine .inr ⟨d, mem_cons_self, ?_⟩
      rw [append_assoc, singleton_append]
      exact beneath_append (cons_ne_nil name rest)
    · exact .inr ⟨d', mem_cons_of_mem d hd', hp⟩
  · rcases hopen with ⟨c, hc, -⟩ | ⟨d', hd', hp⟩
    · cases hc
    rcases mem_cons.mp hd' with rfl | hd'
    · -- A name of neither directory has nothing below it.
      obtain ⟨name, rest, rfl⟩ := exists_of_beneath hp
      have hname : name ∉ x.store.names d'.old d'.new := fun hname => hnot (.inl
        ⟨_, (Directory.mem_cells horder).mpr ⟨name, hname, rfl⟩, rest, by
          rw [append_assoc, singleton_append]⟩)
      obtain ⟨hold, hnew⟩ : name ∉ x.store.keys d'.old ∧ name ∉ x.store.keys d'.new := by
        simpa [ObjectStore.names, not_or] using hname
      rw [h.pending d' mem_cons_self _ (cons_ne_nil name rest)]
      refine .of_eq h.remaining ?_
      simp only [Directory.below, ObjectStore.at_, ObjectStore.entry_eq_none hold,
        ObjectStore.entry_eq_none hnew]
    · exact absurd (.inr ⟨d', hd', hp⟩) hnot

end

theorem Comparison.Walks.next (h : x.Walks [] ⟨d :: pending, remaining⟩) :
    x.Walks [] ⟨pending, remaining⟩ where
  __ := h
  pending d' hd' := h.pending d' (mem_cons_of_mem d hd')
  pendingOnce := h.pendingOnce.tail
  apart c hc := by cases hc

/-- A pair of equal directories is done with. -/
theorem explains_equal (h : x.Walks [] ⟨d :: pending, remaining⟩) (hsame : d.old = d.new) :
    x.Finds [] ⟨d :: pending, remaining⟩ ↔ x.Finds [] ⟨pending, remaining⟩ := by
  refine Comparison.Explains.drop (fun path => Or.imp_right fun ⟨d', hd', hp⟩ =>
    ⟨d', mem_cons_of_mem d hd', hp⟩) fun path hopen hnot => ?_
  rcases hopen with ⟨c, hc, -⟩ | ⟨d', hd', hp⟩
  · cases hc
  rcases mem_cons.mp hd' with rfl | hd'
  · obtain ⟨name, rest, rfl⟩ := exists_of_beneath hp
    rw [h.pending d' mem_cons_self _ (cons_ne_nil name rest)]
    exact .of_eq h.remaining (by rw [Directory.below, hsame])
  · exact absurd (.inr ⟨d', hd', hp⟩) hnot

/-- What a part of the walk comes to: it leaves the names `cells'` to be visited and takes up some
of its own, or fails because there is a difference without an operation, or an operation without
its difference. -/
def Comparison.Advances (x : Comparison T B) (cells : List (Cell T B)) (st : Traversal T B)
    (cells' : List (Cell T B)) : Except ChangeFailure (Traversal T B) → Prop
  | .error failure => failure = .branchOutcomeConflicts
      ∧ ¬x.Finds cells st
  | .ok st' => x.Walks cells' st'
      ∧ (∃ added : List (Cell T B), st'.pending = added.map Cell.directory ++ st.pending
        ∧ added ⊆ cells)
      ∧ (x.Finds cells st ↔ x.Finds cells' st')

variable [DecidableEq B]

/-- A name without directories takes its operation. -/
theorem settleFile_advances (h : x.Walks (c :: cells) st)
    (hold : c.old.bind tree? = none) (hnew : c.new.bind tree? = none)
    (hne : c.old.bind leaf? ≠ c.new.bind leaf?) :
    x.Advances (c :: cells) st cells
      (settleFile st c.path (c.old.bind leaf?) (c.new.bind leaf?)) := by
  have hroot : x.Finds (c :: cells) st → c.Explained x.expected.files st.remaining := fun hexp => by
    rw [← h.head]
    exact hexp.explained _ (.inl ⟨c, mem_cons_self, prefix_rfl⟩)
  cases hfind : st.remaining.find? (·.1 = c.path) with
  | none =>
    simp only [settleFile, hfind]
    refine ⟨rfl, fun hexp => hne ((hroot hexp).leaf fun op hop => ?_)⟩
    simpa using find?_eq_none.mp hfind _ hop
  | some f =>
    obtain ⟨path, op⟩ := f
    obtain rfl : path = c.path := by simpa using find?_some hfind
    have hop := mem_of_find?_eq_some hfind
    simp only [settleFile, hfind]
    by_cases haccepts : op.accepts (c.old.bind leaf?) (c.new.bind leaf?)
    · rw [if_pos haccepts]
      exact ⟨{ h.tail with remaining := filter_sublist.trans h.remaining },
        ⟨[], rfl, nil_subset _⟩, explains_settle h hop ((FileOp.accepts_iff hold hnew).mp haccepts)⟩
    · rw [if_neg haccepts]
      exact ⟨rfl, fun hexp =>
        haccepts ((FileOp.accepts_iff hold hnew).mpr ((hroot hexp).op op hop))⟩

/-- A file in the place of a directory in which there is something to change is no operation's. -/
theorem settleFile_directory (st : Traversal T B) (hpath : ∀ op, (path, op) ∉ st.remaining)
    (before after : Option (Leaf B)) :
    settleFile st path before after = .error .branchOutcomeConflicts := by
  have hfind : st.remaining.find? (·.1 = path) = none := by
    refine find?_eq_none.mpr fun f _ he => hpath f.2 ?_
    rw [decide_eq_true_eq] at he
    rwa [← he]
  simp only [settleFile, hfind]

variable [DecidableEq T]

/-- The body of the loop over names. -/
theorem visitName_advances (h : x.Walks (c :: cells) st) :
    x.Advances (c :: cells) st cells (visitName x.expected.files st c) := by
  unfold visitName
  by_cases hsame : c.old = c.new
  · rw [if_pos hsame]
    exact ⟨h.tail, ⟨[], rfl, nil_subset _⟩, explains_skip h hsame⟩
  rw [if_neg hsame]
  by_cases hdir : ((c.old.bind tree?).isSome || (c.new.bind tree?).isSome)
  · by_cases htarget : ∃ f ∈ x.expected.files, Beneath c.path f.1
    · -- A directory in which there is something to change.
      obtain ⟨f, hf, hp⟩ := htarget
      have hpath : ∀ op, (c.path, op) ∉ st.remaining := fun op hop =>
        x.expected.apart _ (h.remaining.subset hop) f hf hp
      have hany : (x.expected.files.any fun f => Beneath c.path f.1) :=
        any_eq_true.mpr ⟨f, hf, by simpa using hp⟩
      have hdescend : ∀ hleaf : c.old.bind leaf? = c.new.bind leaf?,
          x.Advances (c :: cells) st cells
            (.ok { st with pending := c.directory :: st.pending }) :=
        fun hleaf => ⟨h.descend, ⟨[c], rfl, by simp⟩, explains_descend h hpath hleaf ⟨f, hf, hp⟩⟩
      simp only [hdir, hany, Bool.not_true, Bool.and_false, Bool.false_eq_true, if_false, if_true]
      split
      · next hboth =>
        rw [Bool.and_eq_true] at hboth
        exact hdescend (by rw [leaf_eq_none hboth.1, leaf_eq_none hboth.2])
      · split
        · next hnone => exact hdescend (by rw [hnone.1, hnone.2])
        · next hboth hnone =>
          rw [settleFile_directory { st with pending := c.directory :: st.pending } hpath]
          refine ⟨rfl, fun hexp => hnone ?_⟩
          have hleaf := (hexp.explained c.path (.inl ⟨c, mem_cons_self, prefix_rfl⟩)).leaf hpath
          rw [h.head] at hleaf
          rcases Bool.or_eq_true .. ▸ hdir with hd | hd
          · rw [← hleaf, leaf_eq_none hd]
            exact ⟨rfl, rfl⟩
          · rw [hleaf, leaf_eq_none hd]
            exact ⟨rfl, rfl⟩
    · -- A directory in which there is nothing to change, and which differs.
      have hany : (x.expected.files.any fun f => Beneath c.path f.1) = false := by
        refine any_eq_false.mpr fun f hf => ?_
        simpa using fun h hne => htarget ⟨f, hf, h, hne⟩
      simp only [hdir, hany, Bool.not_false, Bool.and_true, if_true]
      refine ⟨rfl, fun hexp => hsame ?_⟩
      exact h.eq_of_explained hexp (fun f hf hp => htarget ⟨f, hf, hp⟩) (by simpa using hdir)
  · have hold : c.old.bind tree? = none := by
      by_contra hd
      simp [isSome_iff_ne_none.mpr hd] at hdir
    have hnew : c.new.bind tree? = none := by
      by_contra hd
      simp [isSome_iff_ne_none.mpr hd] at hdir
    have hne : c.old.bind leaf? ≠ c.new.bind leaf? := fun h => hsame (eq_of_leaf hold hnew h)
    simp only [hold, hnew, isSome_none, Bool.or_self, Bool.and_self, Bool.false_and,
      Bool.false_eq_true, if_false]
    rw [if_neg fun h => hne (h.1.trans h.2.symm)]
    exact settleFile_advances h hold hnew hne

/-- The loop over names. -/
theorem visitNames_advances (h : x.Walks cells st) :
    x.Advances cells st [] (cells.foldlM (visitName x.expected.files) st) := by
  induction cells generalizing st with
  | nil => exact ⟨h, ⟨[], rfl, nil_subset _⟩, Iff.rfl⟩
  | cons c cells ih =>
    have hvisit : x.Advances (c :: cells) st cells _ := visitName_advances h
    rw [foldlM_cons]
    cases hv : visitName x.expected.files st c with
    | error failure => rwa [hv] at hvisit
    | ok st' =>
      rw [hv] at hvisit
      obtain ⟨h', ⟨first, hfirst, hfirst_sub⟩, hiff⟩ := hvisit
      have hrest := ih h'
      change x.Advances (c :: cells) st [] (cells.foldlM (visitName x.expected.files) st')
      cases hf : cells.foldlM (visitName x.expected.files) st' with
      | error failure =>
        rw [hf] at hrest
        exact ⟨hrest.1, hiff.not.mpr hrest.2⟩
      | ok _ =>
        rw [hf] at hrest
        obtain ⟨h'', ⟨added, hadded, hsub⟩, hiff'⟩ := hrest
        refine ⟨h'', ⟨added ++ first, by rw [hadded, hfirst, map_append, append_assoc], ?_⟩,
          hiff.trans hiff'⟩
        exact append_subset.mpr ⟨subset_cons_of_subset c hsub, hfirst_sub⟩

/-- With no directory left, no operation may be left. -/
theorem verifyFrom_done (budget : Nat) (remaining : List (TreePath × FileOp B)) :
    verifyFrom x.store order x.expected.files budget ⟨[], remaining⟩ = .ok () ↔
      x.Finds [] ⟨[], remaining⟩ := by
  have hclosed : ∀ path, ¬Open [] (⟨[], remaining⟩ : Traversal T B) path := by
    rintro path (⟨c, hc, -⟩ | ⟨d, hd, -⟩)
    · cases hc
    · cases hd
  cases remaining with
  | nil =>
    refine iff_of_true (by cases budget <;> rfl) ⟨fun path hopen => absurd hopen (hclosed path),
      fun f hf => ?_⟩
    cases hf
  | cons f fs =>
    refine iff_of_false ?_ fun h => hclosed f.1 (h.covered f mem_cons_self)
    cases budget <;> exact nofun

/-- The loop over pending directories, unless its budget ends it. -/
theorem verifyFrom_cases (horder : ∀ path names, (order path names).Perm names) (budget : Nat)
    (h : x.Walks [] st) :
    verifyFrom x.store order x.expected.files budget st = .error .verificationBudgetExceeded
      ∨ (verifyFrom x.store order x.expected.files budget st = .ok () ↔ x.Finds [] st) := by
  induction budget generalizing st with
  | zero =>
    obtain ⟨_ | ⟨d, pending⟩, remaining⟩ := st
    · exact .inr (verifyFrom_done 0 remaining)
    · exact .inl rfl
  | succ budget ih =>
    obtain ⟨_ | ⟨d, pending⟩, remaining⟩ := st
    · exact .inr (verifyFrom_done _ remaining)
    · by_cases hsame : d.old = d.new
      · simp only [verifyFrom, if_pos hsame, explains_equal h hsame]
        exact ih h.next
      · have hvisit : x.Advances (d.cells x.store order) ⟨pending, remaining⟩ [] _ :=
          visitNames_advances (h.expand horder)
        rw [explains_expand horder h]
        cases hf : (d.cells x.store order).foldlM (visitName x.expected.files)
          ⟨pending, remaining⟩ with
        | error _ =>
          rw [hf] at hvisit
          simp only [verifyFrom, if_neg hsame, hf]
          exact .inr (iff_of_false (fun h => nomatch h) hvisit.2)
        | ok st' =>
          rw [hf] at hvisit
          obtain ⟨h', -, hiff⟩ := hvisit
          simp only [verifyFrom, if_neg hsame, hf, hiff]
          exact ih h'

/-! ### The walk ends -/

/-- The loop ends within some budget, whatever operations are left. -/
def Comparison.Halts (x : Comparison T B) (order : TreePath → List String → List String)
    (pending : List (Directory T)) : Prop :=
  ∀ remaining, x.Walks [] ⟨pending, remaining⟩ → ∃ enough, ∀ budget, enough ≤ budget →
    verifyFrom x.store order x.expected.files budget ⟨pending, remaining⟩
    ≠ .error .verificationBudgetExceeded

/-- The ranks of the directories of a pair are below a number. -/
def Directory.Within (store : ObjectStore T B) (d : Directory T) (n : Nat) : Prop :=
  ∀ r, d.old = some r ∨ d.new = some r → store.rank r < n

omit [DecidableEq B] [DecidableEq T] in
theorem Directory.Within.child (horder : ∀ path names, (order path names).Perm names) {n : Nat}
    (h : d.Within x.store (n + 1)) (hc : c ∈ d.cells x.store order) :
    c.directory.Within x.store n := by
  obtain ⟨_, -, rfl⟩ := (Directory.mem_cells horder).mp hc
  rintro r (hr | hr)
  · obtain ⟨r', hr', hlt⟩ := ObjectStore.rank_lt_of_entry hr
    exact Nat.lt_of_lt_of_le hlt (Nat.lt_succ_iff.mp (h r' (.inl hr')))
  · obtain ⟨r', hr', hlt⟩ := ObjectStore.rank_lt_of_entry hr
    exact Nat.lt_of_lt_of_le hlt (Nat.lt_succ_iff.mp (h r' (.inr hr')))

theorem Comparison.Halts.equal (hsame : d.old = d.new) (h : x.Halts order pending) :
    x.Halts order (d :: pending) := by
  intro remaining hw
  obtain ⟨enough, henough⟩ := h remaining hw.next
  refine ⟨enough + 1, fun budget hbudget => ?_⟩
  obtain ⟨budget, rfl⟩ : ∃ k, budget = k + 1 := ⟨budget - 1, by omega⟩
  simp only [verifyFrom, if_pos hsame]
  exact henough budget (Nat.le_of_succ_le_succ hbudget)

/-- A pair of directories is walked within some budget: below it the ranks are lower. -/
theorem Comparison.Halts.cons
    (horder : ∀ path names, (order path names).Perm names) {n : Nat} (hd : d.Within x.store n)
    (h : x.Halts order pending) : x.Halts order (d :: pending) := by
  induction n generalizing d pending with
  | zero =>
    -- No directory ranks below zero, so that the two sides are equal.
    have hold : d.old = none := eq_none_iff_forall_ne_some.mpr fun r hr =>
      Nat.not_lt_zero _ (hd r (.inl hr))
    have hnew : d.new = none := eq_none_iff_forall_ne_some.mpr fun r hr =>
      Nat.not_lt_zero _ (hd r (.inr hr))
    exact h.equal (hold.trans hnew.symm)
  | succ n ih =>
    by_cases hsame : d.old = d.new
    · exact h.equal hsame
    intro remaining hw
    have hvisit : x.Advances (d.cells x.store order) ⟨pending, remaining⟩ [] _ :=
      visitNames_advances (hw.expand horder)
    cases hf : (d.cells x.store order).foldlM (visitName x.expected.files) ⟨pending, remaining⟩ with
    | error failure =>
      rw [hf] at hvisit
      refine ⟨1, fun budget hbudget => ?_⟩
      obtain ⟨budget, rfl⟩ : ∃ k, budget = k + 1 := ⟨budget - 1, by omega⟩
      obtain rfl : failure = .branchOutcomeConflicts := hvisit.1
      simp only [verifyFrom, if_neg hsame, hf]
      exact nofun
    | ok st' =>
      rw [hf] at hvisit
      obtain ⟨hw', ⟨added, hadded, hsub⟩, -⟩ := hvisit
      have hhalts : x.Halts order (added.map Cell.directory ++ pending) := by
        clear hadded
        induction added with
        | nil => exact h
        | cons c added ih' =>
          obtain ⟨hc, hsub⟩ := cons_subset.mp hsub
          exact ih (hd.child horder hc) (ih' hsub)
      obtain ⟨pending', remaining'⟩ := st'
      obtain rfl : pending' = _ := hadded
      obtain ⟨enough, henough⟩ := hhalts remaining' hw'
      refine ⟨enough + 1, fun budget hbudget => ?_⟩
      obtain ⟨budget, rfl⟩ : ∃ k, budget = k + 1 := ⟨budget - 1, by omega⟩
      simp only [verifyFrom, if_neg hsame, hf]
      exact henough budget (Nat.le_of_succ_le_succ hbudget)

/-! ### The verification -/

omit [DecidableEq B] [DecidableEq T] in
/-- At the start of the walk, what is to be found is the change itself. -/
theorem Comparison.explains_start (x : Comparison T B) :
    x.Finds [] ⟨[⟨[], some x.base, some x.commit⟩], x.expected.files⟩
      ↔ Differs x.store (· ∈ regularModes) x.base x.commit x.expected := by
  have hopen : ∀ path,
      Open [] (⟨[⟨[], some x.base, some x.commit⟩], x.expected.files⟩ : Traversal T B) path ↔
      path ≠ [] := by
    intro path
    simp [Open, Beneath, eq_comm]
  constructor
  · intro h
    refine ⟨fun path op hop => ?_, fun path hnone => ?_, fun path hnone => ?_⟩
    · exact (h.explained path ((hopen path).mpr (x.expected.nonempty _ hop))).op op hop
    · by_cases hp : path = []
      · rw [hp]
        rfl
      · exact (h.explained path ((hopen path).mpr hp)).leaf hnone
    · by_cases hp : path = []
      · rw [hp]
        rfl
      · exact (h.explained path ((hopen path).mpr hp)).dir hnone
  · intro h
    exact ⟨fun path _ => ⟨h.otherFiles path, h.applied path, h.directories path⟩,
      fun f hf => (hopen f.1).mpr (x.expected.nonempty f hf)⟩

omit [DecidableEq B] [DecidableEq T] in
theorem Comparison.walks_start (x : Comparison T B) :
    x.Walks [] ⟨[⟨[], some x.base, some x.commit⟩], x.expected.files⟩ where
  remaining := Sublist.refl _
  listed c hc := by cases hc
  pending d hd path _ := by
    obtain rfl := mem_singleton.mp hd
    rfl
  listedOnce := Pairwise.nil
  pendingOnce := pairwise_singleton _ _
  apart c hc := by cases hc

end

/-- Within enough budget, the verification of a change ends; and unless its budget ends it, it
succeeds exactly for the trees that differ by the expected operations and by nothing else, where
what is updated or deleted is a regular file.  The names of a directory come in any order. -/
theorem verifyChanges_iff [DecidableEq T] [DecidableEq B] (store : ObjectStore T B)
    (order : TreePath → List String → List String)
    (horder : ∀ path names, (order path names).Perm names)
    (base commit : T) (expected : ExpectedFiles B) :
    (∃ enough, ∀ budget, enough ≤ budget →
        verifyChanges store order budget base commit expected ≠ .error .verificationBudgetExceeded)
      ∧ ∀ budget, verifyChanges store order budget base commit expected
      ≠ .error .verificationBudgetExceeded →
        (verifyChanges store order budget base commit expected = .ok ()
          ↔ Differs store (· ∈ regularModes) base commit expected) := by
  let x : Comparison T B := ⟨store, base, commit, expected⟩
  constructor
  · have hdone : x.Halts order [] := fun remaining _ => ⟨0, fun budget _ => by
      cases budget <;> cases remaining <;> exact nofun⟩
    have hwithin : (⟨[], some base, some commit⟩ : Directory T).Within store
        (max (store.rank base) (store.rank commit) + 1) := by
      rintro r (hr | hr)
      · cases hr
        exact Nat.lt_succ_of_le (Nat.le_max_left _ _)
      · cases hr
        exact Nat.lt_succ_of_le (Nat.le_max_right _ _)
    exact hdone.cons horder hwithin expected.files x.walks_start
  · intro budget hbudget
    exact ((verifyFrom_cases horder budget x.walks_start).resolve_left hbudget).trans
      x.explains_start

/-- Two trees with a file in a directory, and the two directories; they differ in the contents of
the file. -/
def nestedStore : ObjectStore (Bool × Bool) Nat where
  listing
    | (false, r) => [("docs", .tree "040000" (true, r))]
    | (true, r) => [("note", .leaf ⟨.blob, "100755", r.toNat⟩)]
  rank r := if r.1 then 0 else 1
  rank_lt {r _ _ _} h := by
    obtain ⟨_ | _, r⟩ := r
    · cases mem_singleton.mp h
      exact Nat.zero_lt_one
    · cases mem_singleton.mp h
  ext {r r'} h := by
    have hdocs := h "docs"
    have hnote := h "note"
    obtain ⟨_ | _, _ | _⟩ := r <;> obtain ⟨_ | _, _ | _⟩ := r' <;> simp_all [lookup_cons]

/-- The update of that file. -/
def nestedUpdate : ExpectedFiles Nat where
  files := [(["docs", "note"], .update 0 1)]
  nodup := by decide
  nonempty := by decide
  apart := by decide
  moves path old new h := by
    obtain ⟨-, h⟩ := Prod.mk.inj (mem_singleton.mp h)
    cases h
    decide

theorem verifyChanges_iff_update :
    Differs nestedStore (· ∈ regularModes) (false, false) (false, true) nestedUpdate := by
  have h := (verifyChanges_iff nestedStore (fun _ names => names) (fun _ _ => .rfl) (false, false)
    (false, true) nestedUpdate).2 2
  exact (h (by decide)).mp (by decide)

/-- Two directories of one file, which differ in its contents. -/
def noteStore (mode : String) : ObjectStore Bool Nat where
  listing r := [("note", .leaf ⟨.blob, mode, r.toNat⟩)]
  rank _ := 0
  rank_lt h := by simp at h
  ext {r r'} h := by
    have hnote : r.toNat = r'.toNat := by simpa using h "note"
    cases r <;> cases r' <;> first | rfl | cases hnote

theorem noteStore_at (mode : String) (r : Bool) (path : TreePath) :
    (noteStore mode).at_ (some r) path
      = if path = ["note"] then some (.leaf ⟨.blob, mode, r.toNat⟩) else none := by
  have hentry : ∀ name, (noteStore mode).entry (some r) name
      = if name = "note" then some (.leaf ⟨.blob, mode, r.toNat⟩) else none := by
    intro name
    by_cases h : name = "note"
    · simp [ObjectStore.entry, noteStore, h]
    · simp [ObjectStore.entry, noteStore, lookup_cons, h, beq_eq_false_iff_ne.mpr h]
  rcases path with _ | ⟨name, _ | ⟨name', rest⟩⟩
  · rfl
  · simp [ObjectStore.at_, ObjectStore.below, hentry]
  · rw [if_neg (by simp)]
    refine ObjectStore.below_eq_none ?_ (cons_ne_nil name' rest)
    rw [hentry]
    split <;> rfl

/-- The update of that file. -/
def noteUpdate : ExpectedFiles Nat where
  files := [(["note"], .update 0 1)]
  nodup := by decide
  nonempty := by decide
  apart := by decide
  moves path old new h := by
    obtain ⟨-, h⟩ := Prod.mk.inj (mem_singleton.mp h)
    cases h
    decide

/-- A symbolic link keeps its mode and moves from the given blob to the new one, and the
verification refuses it. -/
theorem link_update_refused :
    Differs (noteStore "120000") (fun _ => True) false true noteUpdate
      ∧ ∀ budget,
      verifyChanges (noteStore "120000") (fun _ names => names) (budget + 1) false true noteUpdate
        = .error .branchOutcomeConflicts := by
  refine ⟨⟨fun path op hop => ?_, fun path hnone => ?_, fun path hnone => ?_⟩, fun budget => rfl⟩
  · obtain ⟨rfl, rfl⟩ := Prod.mk.inj (mem_singleton.mp hop)
    exact ⟨"120000", trivial, rfl, rfl⟩
  · have hpath : path ≠ ["note"] := fun h => hnone (.update 0 1) (mem_singleton.mpr (by rw [h]))
    simp only [noteStore_at, if_neg hpath]
  · simp only [noteStore_at]
    split <;> rfl

end Horizon
