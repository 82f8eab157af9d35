import Mathlib.Data.List.Dedup
import Mathlib.Data.List.Lookmap

/-!
# Content-addressed directories

A store of directories in which a directory is named by what it contains.  Two directories with
the same files and the same directories below them are one (`ObjectStore.eq_of_same`), which is
what lets a comparison of two trees skip everything below equal names.
-/

universe u v

/-- What is stored beside directories: contents of files, and commits of other repositories. -/
inductive LeafKind where
  | blob | commit
deriving DecidableEq

/-- An entry that is no directory. -/
structure Leaf (B : Type v) where
  kind : LeafKind
  mode : String
  oid : B
deriving DecidableEq

/-- An entry of a directory. -/
inductive Entry (T : Type u) (B : Type v) where
  | tree (mode : String) (oid : T)
  | leaf (file : Leaf B)
deriving DecidableEq

variable {T : Type u} {B : Type v}

namespace Entry

variable {a : Option (Entry T B)}

/-- The directory an entry names. -/
def tree? : Entry T B → Option T
  | .tree _ oid => some oid
  | .leaf _ => none

/-- The mode of a directory. -/
def dirMode : Entry T B → Option String
  | .tree mode _ => some mode
  | .leaf _ => none

/-- What an entry holds that is no directory. -/
def leaf? : Entry T B → Option (Leaf B)
  | .tree _ _ => none
  | .leaf file => some file

/-- What is no directory has no mode of one. -/
theorem dirMode_eq_none (h : a.bind tree? = none) : a.bind dirMode = none := by
  rcases a with _ | (⟨_, oid⟩ | _)
  · rfl
  · cases h
  · rfl

/-- Where there is no directory, an entry is what it holds. -/
theorem eq_of_leaf {b : Option (Entry T B)} (ha : a.bind tree? = none) (hb : b.bind tree? = none)
    (h : a.bind leaf? = b.bind leaf?) : a = b := by
  rcases a with _ | (⟨_, oid⟩ | _) <;> rcases b with _ | (⟨_, _⟩ | _) <;>
    simp_all [tree?, leaf?]

/-- A directory holds nothing else. -/
theorem leaf_eq_none (h : (a.bind tree?).isSome) : a.bind leaf? = none := by
  rcases a with _ | (⟨_, oid⟩ | _)
  · rfl
  · rfl
  · cases h

end Entry

/-- The names from a directory down to an entry. -/
abbrev TreePath := List String

/-- Directories by name, without cycles. -/
structure ObjectStore (T : Type u) (B : Type v) where
  listing : T → List (String × Entry T B)
  rank : T → Nat
  rank_lt : ∀ {r : T} {name mode : String} {oid : T}, (name, .tree mode oid) ∈ listing r →
    rank oid < rank r
  ext : ∀ {r r' : T}, (∀ name, (listing r).lookup name = (listing r').lookup name) → r = r'

namespace ObjectStore

open Entry

variable {name : String} {path : TreePath}

variable (store : ObjectStore T B) (r : Option T)

/-- The entry of a name in a directory, if there is one. -/
def entry (name : String) : Option (Entry T B) :=
  r.bind fun r => (store.listing r).lookup name

/-- The names of a directory. -/
def keys : List String := (r.map fun r => (store.listing r).map Prod.fst).getD []

/-- The names of either of two directories. -/
def names (r r' : Option T) : List String := (store.keys r ++ store.keys r').dedup

/-- What lies at a path below an entry; the entry itself lies at the empty path. -/
def below (a : Option (Entry T B)) : TreePath → Option (Entry T B)
  | [] => a
  | name :: path => below (store.entry (a.bind tree?) name) path

/-- What lies at a path in a directory. -/
def at_ : TreePath → Option (Entry T B)
  | [] => none
  | name :: path => store.below (store.entry r name) path

variable {store} {r r' : Option T} {a : Option (Entry T B)}

theorem entry_eq_none (h : name ∉ store.keys r) : store.entry r name = none := by
  cases r with
  | none => rfl
  | some r =>
    refine List.lookup_eq_none_iff.mpr fun p hp => ?_
    rw [bne_iff_ne]
    rintro rfl
    exact h (List.mem_map.mpr ⟨p, hp, rfl⟩)

theorem mem_of_entry {r : T} {e : Entry T B} (h : store.entry (some r) name = some e) :
    (name, e) ∈ store.listing r := by
  obtain ⟨l₁, _, hl, _⟩ := List.lookup_eq_some_iff.mp h
  rw [hl]
  exact List.mem_append_right l₁ List.mem_cons_self

/-- The entries of a directory rank lower. -/
theorem rank_lt_of_entry {oid : T} (h : (store.entry r name).bind tree? = some oid) :
    ∃ r', r = some r' ∧ store.rank oid < store.rank r' := by
  cases r with
  | none => cases h
  | some r' =>
    obtain ⟨e, he, htree⟩ := Option.bind_eq_some_iff.mp h
    cases e with
    | leaf _ => cases htree
    | tree _ _ =>
      cases htree
      exact ⟨r', rfl, store.rank_lt (mem_of_entry he)⟩

theorem below_eq_at (a : Option (Entry T B)) (h : path ≠ []) :
    store.below a path = store.at_ (a.bind tree?) path := by
  cases path with
  | nil => exact absurd rfl h
  | cons _ path => rfl

@[simp] theorem at_none (path : TreePath) : store.at_ none path = none := by
  induction path with
  | nil => rfl
  | cons _ path ih =>
    change store.below none path = none
    cases path with
    | nil => rfl
    | cons _ path => exact ih

/-- Nothing lies below what is no directory. -/
theorem below_eq_none (ha : a.bind tree? = none) (h : path ≠ []) : store.below a path = none := by
  rw [below_eq_at a h, ha, at_none]

/-- Directories with the same files and directories below them are one. -/
theorem eq_of_same (store : ObjectStore T B) {r r' : T}
    (hleaf : ∀ path, (store.at_ (some r) path).bind leaf? = (store.at_ (some r') path).bind leaf?)
    (hdir : ∀ path, (store.at_ (some r) path).bind dirMode
      = (store.at_ (some r') path).bind dirMode) : r = r' := by
  induction hn : store.rank r using Nat.strongRecOn generalizing r r' with
  | _ n ih =>
    refine store.ext fun name => ?_
    have hl := hleaf [name]
    have hd := hdir [name]
    change store.entry (some r) name = store.entry (some r') name
    simp only [at_, below] at hl hd
    cases ha : store.entry (some r) name with
    | none =>
      cases hb : store.entry (some r') name with
      | none => rfl
      | some e => cases e <;> simp [ha, hb, leaf?, dirMode] at hl hd
    | some e =>
      cases hb : store.entry (some r') name with
      | none => cases e <;> simp [ha, hb, leaf?, dirMode] at hl hd
      | some e' =>
        cases e with
        | leaf file => cases e' <;> simp_all [leaf?, dirMode]
        | tree mode oid =>
          cases e' with
          | leaf file => simp [ha, hb, dirMode] at hd
          | tree mode' oid' =>
            obtain rfl : mode = mode' := by simpa [ha, hb, dirMode] using hd
            -- What lies below the two entries agrees, and the first of them ranks lower.
            have hbelow : ∀ path, store.at_ (some oid) path = none
                ∧ store.at_ (some oid') path = none
                ∨ store.at_ (some oid) path = store.at_ (some r) (name :: path)
                  ∧ store.at_ (some oid') path = store.at_ (some r') (name :: path) := by
              intro path
              cases path with
              | nil => exact .inl ⟨rfl, rfl⟩
              | cons _ path => exact .inr ⟨by simp [at_, below, ha, tree?],
                  by simp [at_, below, hb, tree?]⟩
            have hoid : oid = oid' := by
              refine ih (store.rank oid) ?_ (fun path => ?_) (fun path => ?_) rfl
              · rw [← hn]
                exact store.rank_lt (mem_of_entry ha)
              · rcases hbelow path with ⟨h, h'⟩ | ⟨h, h'⟩
                · rw [h, h']
                · rw [h, h', hleaf]
              · rcases hbelow path with ⟨h, h'⟩ | ⟨h, h'⟩
                · rw [h, h']
                · rw [h, h', hdir]
            rw [hoid]

end ObjectStore
