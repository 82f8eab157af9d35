import Horizon.Effects.Operations
import Horizon.Library.Acyclic

/-!
# The mission tree over whole runs

Missions form a forest whose scopes only narrow on the way down.  Open missions stay
below open missions, and no mission has more open children than its budget, as long as a
run is reopened, and a phase accepted, where the missions they touch allow it.
-/

namespace Horizon

open Relation Table List Installation DB

variable {p c x : Id} {l : List Id} {m' m : Mission} {g : Mission → Mission}
  {s s' : DB} {ev : Event}

/-! ## Lineage -/

namespace DB

/-- `s.ChildOf c p`: the mission `c` was delegated from `p`. -/
def ChildOf (s : DB) (c p : Id) : Prop := ∃ m, (s .mission).find? c = some m ∧ m.parentId = some p

theorem mem_lineage_succ {n : Nat} (h : x ∈ s.lineage n c) : x ∈ s.lineage (n + 1) c := by
  induction n generalizing c with
  | zero => exact absurd h not_mem_nil
  | succ n ih =>
    rw [lineage] at h ⊢
    cases hm : (s .mission).find? c with
    | none => rw [hm] at h; exact h
    | some m =>
      rw [hm] at h
      dsimp only at h ⊢
      cases hp : m.parentId with
      | none => rw [hp] at h; exact h
      | some p =>
        rw [hp] at h
        rcases mem_cons.mp h with rfl | h
        · exact mem_cons_self
        · exact mem_cons_of_mem c (ih h)

theorem mem_lineage_mono {n k : Nat} (hnk : n ≤ k) (h : x ∈ s.lineage n c) : x ∈ s.lineage k c := by
  induction hnk with
  | refl => exact h
  | step _ ih => exact mem_lineage_succ ih

/-- A path upwards is found by a walk of its length. -/
theorem mem_lineage_of_path
    (hchain : IsChain s.ChildOf (c :: l)) (hlast : (c :: l).getLast? = some x)
    (hx : (s .mission).find? x ≠ none) : x ∈ s.lineage (l.length + 1) c := by
  induction l generalizing c with
  | nil =>
    obtain rfl : c = x := by simpa using hlast
    obtain ⟨m, hm⟩ := Option.ne_none_iff_exists'.mp hx
    rw [lineage, hm]
    exact mem_cons_self
  | cons p l ih =>
    obtain ⟨⟨m, hm, hp⟩, hchain⟩ := isChain_cons_cons.mp hchain
    rw [lineage, hm]
    dsimp only
    rw [hp]
    exact mem_cons_of_mem c (ih hchain (by rwa [getLast?_cons_cons] at hlast))

/-- A path upwards to a stored mission visits stored missions. -/
theorem stored_of_path (hchain : IsChain s.ChildOf (c :: l)) (hlast : (c :: l).getLast? = some x)
    (hx : (s .mission).find? x ≠ none) : ∀ y ∈ c :: l, (s .mission).find? y ≠ none := by
  induction l generalizing c with
  | nil =>
    obtain rfl : c = x := by simpa using hlast
    simpa using hx
  | cons p l ih =>
    obtain ⟨⟨m, hm, _⟩, hchain⟩ := isChain_cons_cons.mp hchain
    rintro y (_ | ⟨_, hy⟩)
    · simp [hm]
    · exact ih hchain (by rwa [getLast?_cons_cons] at hlast) y hy

/-- In a forest, `contains_mission` finds every ancestor. -/
theorem containsMission_of_reaches (hacyclic : Acyclic s.ChildOf)
    (h : ReflTransGen s.ChildOf c x) (hx : (s .mission).find? x ≠ none) :
    s.containsMission x c := by
  obtain ⟨l, hnodup, hchain, hlast, hc, _⟩ := hacyclic.exists_path h
  -- The path visits stored missions, each of them once.
  have hstored : ∀ y ∈ c :: l, y ∈ (s .mission).rows.map (·.id) := by
    intro y hy
    obtain ⟨m, hm⟩ := Option.ne_none_iff_exists'.mp (stored_of_path hchain hlast hx y hy)
    obtain ⟨hmem, hid⟩ := find?_eq_some.mp hm
    exact mem_map.mpr ⟨m, hmem, hid⟩
  have hlen : l.length + 1 ≤ (s .mission).rows.length := by
    have := (subperm_of_subset (nodup_cons.mpr ⟨hc, hnodup⟩) hstored).length_le
    simpa using this
  rw [containsMission, contains_iff_mem]
  exact mem_lineage_mono hlen (mem_lineage_of_path hchain hlast hx)

end DB

/-! ## The forest and its scopes -/

/-- Missions form a forest, and each one stays within the scope of its parent. -/
structure DB.IsForest (s : DB) : Prop where
  acyclic : Acyclic s.ChildOf
  within : ∀ m ∈ s .mission, ∀ parent ∈ s .mission, m.parentId = some parent.id →
    scopeContains parent.scope m.scope

/-- The parent of a stored mission is stored. -/
theorem Consistent.parentOf (hc : Consistent s) (hm : m ∈ s .mission)
    (hp : m.parentId = some p) : ∃ parent, (s .mission).find? p = some parent := by
  have h := hc.wellFormed (t := .mission) hm
  simp only [Horizon.wellFormed, hp, Bool.and_eq_true, Option.all_some] at h
  exact Option.isSome_iff_exists.mp h.1.1.2

theorem Consistent.parentId_ne (hc : Consistent s) (hm : m ∈ s .mission) :
    m.parentId ≠ some m.id := by
  have h := hc.wellFormed (t := .mission) hm
  simp only [Horizon.wellFormed, Bool.and_eq_true, bne_iff_ne] at h
  exact h.1.2

/-- Nothing was delegated from a mission that is not stored. -/
theorem Consistent.not_childOf (hc : Consistent s) (hp : (s .mission).find? p = none) :
    ¬ s.ChildOf c p := by
  rintro ⟨m, hm, hparent⟩
  obtain ⟨_, hfind⟩ := hc.parentOf (mem_of_find? hm) hparent
  rw [hp] at hfind
  cases hfind

/-- The events that leave every mission where it is. -/
def Event.isPlaced : Event → Bool
  | .missionCreated | .missionRevised _ _ => false
  | _ => true

theorem Effect.sameContract (h : Effect ev s s') (hev : ev.isPlaced) (hm' : m' ∈ s' .mission) :
    ∃ m ∈ s .mission, m'.id = m.id ∧ m.SameContract m' := by
  obtain hm | ⟨ht, hw⟩ := h.origin hm'
  · exact ⟨m', hm, rfl, rfl, rfl, rfl, rfl⟩
  cases ev with
  | missionCreated | missionRevised => cases hev
  | missionTouched | missionOpened | missionClosed =>
    obtain ⟨⟨⟩, _⟩ | ⟨m, hm, hkey, hsame, _⟩ := hw
    exact ⟨m, hm, hkey, hsame⟩
  | other t hu => cases ht; cases hu
  | _ => cases ht

theorem DB.IsForest.of_sameContract (hf : s.IsForest)
    (hsame : ∀ m' ∈ s' .mission, ∃ m ∈ s .mission, m'.id = m.id ∧ m.SameContract m') :
    s'.IsForest where
  acyclic := by
    refine hf.acyclic.mono fun c p ⟨m', hm', hp⟩ => ?_
    obtain ⟨hmem', rfl⟩ := find?_eq_some.mp hm'
    obtain ⟨m, hm, hid, hm'⟩ := hsame m' hmem'
    exact ⟨m, find?_eq_some.mpr ⟨hm, hid.symm⟩, hm'.parentId.symm.trans hp⟩
  within m' hm' parent' hparent' hp := by
    obtain ⟨m, hm, hid, hsame₁⟩ := hsame m' hm'
    obtain ⟨parent, hparent, hid', hsame₂⟩ := hsame parent' hparent'
    rw [hsame₁.scope, hsame₂.scope]
    exact hf.within m hm parent hparent (by rw [← hsame₁.parentId, hp, hid'])

/-- The parent a mission was checked against. -/
theorem withinParent_iff : s.withinParent m ↔ ∀ p, m.parentId = some p →
    ∃ parent, (s .mission).find? p = some parent ∧ scopeContains parent.scope m.scope := by
  rw [withinParent]
  cases m.parentId with
  | none => simp
  | some p => simp [Option.any_eq_true]

theorem DB.IsForest.created (hf : s.IsForest) (hc : Consistent s)
    (h : Effect .missionCreated s s') : s'.IsForest := by
  rcases h.rows nofun with ⟨row, hrows, ⟨_, _, _, hwithin⟩, hfresh⟩ | ⟨g, hrows, _, hg⟩
  · have hmem : ∀ m, m ∈ s' .mission ↔ m ∈ s .mission ∨ m = row := fun m => by
      rw [mem_def, mem_def, hrows, mem_append, mem_singleton]
    have hnone : (s .mission).find? row.id = none := find?_eq_none.mpr hfresh
    constructor
    · refine hf.acyclic.of_new_edges (x := row.id) fun c p ⟨m, hfind, hp⟩ => ?_
      obtain ⟨hm, rfl⟩ := find?_eq_some.mp hfind
      rcases (hmem m).mp hm with hm | rfl
      · exact .inl ⟨m, find?_key hm, hp⟩
      · refine .inr ⟨rfl, fun hreach => ?_⟩
        obtain ⟨parent, hparent, _⟩ := withinParent_iff.mp hwithin p hp
        rcases ReflTransGen.cases_tail hreach with rfl | ⟨_, _, hlast⟩
        · exact nomatch hnone.symm.trans hparent
        · exact hc.not_childOf hnone hlast
    · intro m hm parent hparent hp
      rcases (hmem m).mp hm with hm | rfl <;> rcases (hmem parent).mp hparent with hparent | rfl
      · exact hf.within m hm parent hparent hp
      · exact absurd ⟨m, find?_key hm, hp⟩ (hc.not_childOf hnone)
      · obtain ⟨parent', hfind, hscope⟩ := withinParent_iff.mp hwithin _ hp
        obtain rfl : parent' = parent :=
          Option.some.inj (hfind.symm.trans (find?_key hparent))
        exact hscope
      · obtain ⟨parent, hfind, _⟩ := withinParent_iff.mp hwithin _ hp
        exact nomatch hnone.symm.trans hfind
  · refine hf.of_sameContract fun m' hm' => ?_
    rw [mem_def, hrows] at hm'
    obtain ⟨m, hm, rfl⟩ := mem_map.mp hm'
    rw [(hg m hm).resolve_right id]
    exact ⟨m, hm, rfl, rfl, rfl, rfl, rfl⟩

theorem DB.IsForest.revised (hf : s.IsForest) (hc : Consistent s) {id : Id} {solelyOwned : Bool}
    (h : Effect (.missionRevised id solelyOwned) s s') : s'.IsForest := by
  -- Only the revised mission moves, and it does not move below itself.
  have hold : ∀ m' ∈ s' .mission, m' ∈ s .mission ∨ ∃ m ∈ s .mission, m'.id = m.id ∧ m.id = id
      ∧ m.Revised s m' := by
    intro m' hm'
    obtain hm | ⟨⟨⟩, _⟩ | ⟨m, hm, hkey, hrev, hid, _⟩ := h.mem hm'
    · exact .inl hm
    · exact .inr ⟨m, hm, hkey, hid, hrev⟩
  constructor
  · refine hf.acyclic.of_new_edges (x := id) fun c p ⟨m', hfind, hp⟩ => ?_
    obtain ⟨hm', rfl⟩ := find?_eq_some.mp hfind
    rcases hold m' hm' with hm | ⟨m, hm, hkey, rfl, hrev⟩
    · exact .inl ⟨m', find?_key hm, hp⟩
    · have hstored : (s .mission).find? m.id = some m := find?_key hm
      rcases hrev.placed with hsame | ⟨_, _, hnot⟩
      · exact .inl ⟨m, find?_eq_some.mpr ⟨hm, hkey.symm⟩, hsame ▸ hp⟩
      · refine .inr ⟨hkey, fun hreach => ?_⟩
        rw [hp] at hnot
        have := containsMission_of_reaches hf.acyclic hreach (hstored ▸ nofun)
        simp [this] at hnot
  · intro m' hm' parent' hparent' hp
    rcases hold m' hm' with hm | ⟨m, hm, hkey, rfl, hrev⟩
    · rcases hold parent' hparent' with hparent | ⟨parent, hparent, hkey', rfl, hrev'⟩
      · exact hf.within m' hm parent' hparent hp
      · rw [hkey'] at hp
        rcases hrev'.covers with hsame | hcovers
        · exact hsame ▸ hf.within m' hm parent hparent hp
        · exact hcovers m' hm hp
    · rcases hold parent' hparent' with hparent | ⟨parent, _, hkey', hid, _⟩
      · obtain ⟨parent'', hfind, hscope⟩ := withinParent_iff.mp hrev.within _ hp
        obtain rfl : parent'' = parent' :=
          Option.some.inj (hfind.symm.trans (find?_key hparent))
        exact hscope
      · exact absurd (hp.trans (congrArg some (hkey'.trans (hid.trans hkey.symm))))
          ((h.consistent hc).parentId_ne hm')

/-- Every event keeps the forest. -/
theorem DB.IsForest.effect (hf : s.IsForest) (hc : Consistent s) (h : Effect ev s s') :
    s'.IsForest := by
  cases ev with
  | missionCreated => exact hf.created hc h
  | missionRevised => exact hf.revised hc h
  | _ => exact hf.of_sameContract fun m' hm' => h.sameContract rfl hm'

theorem isForest_of_reachable {guard : DB → Label → Prop} (h : controlPlane.ReachableBy guard s) :
    s.IsForest := by
  refine invariant_of_events ⟨fun c hc => ?_, fun m hm => absurd hm notMem_empty⟩
    (fun _ _ _ _ _ _ _ hs he hf => hf.effect hs.consistent he) h
  obtain ⟨_, ⟨m, hm, _⟩, _⟩ := TransGen.head'_iff.mp hc
  cases hm

/-- What lies above a mission covers its scope. -/
theorem DB.IsForest.within_above (hf : s.IsForest) (hc : Consistent s) {above : Mission}
    (habove : above ∈ s .mission) (h : TransGen s.ChildOf c above.id) :
    ∀ m, (s .mission).find? c = some m → scopeContains above.scope m.scope := by
  induction h using TransGen.head_induction_on with
  | single hlast =>
    rintro m hm
    obtain ⟨m', hm', hp⟩ := hlast
    cases hm.symm.trans hm'
    exact hf.within m (mem_of_find? hm) above habove hp
  | head hstep _ ih =>
    rintro m hm
    obtain ⟨m', hm', hp⟩ := hstep
    cases hm.symm.trans hm'
    obtain ⟨hmem, _⟩ := find?_eq_some.mp hm
    obtain ⟨parent, hparent⟩ := hc.parentOf hmem hp
    obtain ⟨hmem', rfl⟩ := find?_eq_some.mp hparent
    exact scopeContains_trans (ih parent hparent) (hf.within m hmem parent hmem' hp)

/-- In every reachable state missions form a forest.  The scope of a mission lies within the
scope of the mission it was delegated from, and of every mission above that one:
delegation never widens authority. -/
theorem mission_forest (h : controlPlane.Reachable s) :
    Acyclic s.ChildOf
      ∧ (∀ m ∈ s .mission, ∀ p, m.parentId = some p → ∃ parent, (s .mission).find? p = some parent
        ∧ scopeContains parent.scope m.scope = true)
      ∧ ∀ m ∈ s .mission, ∀ above ∈ s .mission, TransGen s.ChildOf m.id above.id →
        scopeContains above.scope m.scope = true := by
  have hf := isForest_of_reachable h
  have hc := consistent_of_reachable h
  refine ⟨hf.acyclic, fun m hm p hp => ?_, fun m hm above habove hreach => ?_⟩
  · obtain ⟨parent, hparent⟩ := hc.parentOf hm hp
    obtain ⟨hmem, rfl⟩ := find?_eq_some.mp hparent
    exact ⟨parent, hparent, hf.within m hm parent hmem hp⟩
  · exact hf.within_above hc habove hreach m (find?_key hm)

/-- A mission with a child and a grandchild. -/
def Installation.delegations : List Label :=
  setup ++ [byAdmin 2 (missionUnder 1 1), byAdmin 2 (missionUnder 2 1)]

theorem mission_forest_delegations :
    (((outcome delegations) .mission).rows.map (·.parentId) = [none, some 1, some 2])
      ∧ Acyclic (outcome delegations).ChildOf :=
  ⟨by decide +kernel, (mission_forest (outcome_reachable _)).1⟩

/-! ## Open missions below open missions -/

theorem parentOpen_iff : s.parentOpen m ↔ ∀ p, m.parentId = some p →
    ∃ parent, (s .mission).find? p = some parent ∧ parent.status = .opened := by
  rw [parentOpen]
  cases m.parentId with
  | none => simp
  | some p => simp [Option.any_eq_true]

/-- Every open mission that has a parent has an open parent. -/
def DB.OpenUnderOpen (s : DB) : Prop := ∀ m ∈ s .mission, m.status = .opened → ∀ p,
  m.parentId = some p → ∃ parent, (s .mission).find? p = some parent ∧ parent.status = .opened

/-- The events that open a mission under an open parent, and close one without open children. -/
def Event.keepsTree : Event → Bool
  | .missionOpened _ parentOpen _ => parentOpen
  | .missionClosed _ childless => childless
  | _ => true

/-- An open mission was open at the same place before, or its new place was checked. -/
theorem Effect.opened (h : Effect ev s s') (hev : ev.keepsTree) (hm' : m' ∈ s' .mission)
    (ho : m'.status = .opened) :
    (∃ m ∈ s .mission, m.status = .opened ∧ m'.parentId = m.parentId)
      ∨ (s.parentOpen m' ∧ ∀ id childless, ev ≠ .missionClosed id childless) := by
  obtain hm | ⟨ht, hw⟩ := h.origin hm'
  · exact .inl ⟨m', hm, ho, rfl⟩
  cases ev with
  | missionCreated =>
    obtain ⟨hi, _⟩ | ⟨_, _, _, ⟨⟩⟩ := hw
    exact .inr ⟨hi.2.1, nofun⟩
  | missionRevised =>
    obtain ⟨⟨⟩, _⟩ | ⟨m, hm, _, hrev, _⟩ := hw
    exact hrev.placed.imp (fun hp => ⟨m, hm, hrev.opened, hp⟩) fun hp => ⟨hp.1, nofun⟩
  | missionTouched =>
    obtain ⟨⟨⟩, _⟩ | ⟨m, hm, _, hsame, hstatus⟩ := hw
    exact .inl ⟨m, hm, hstatus ▸ ho, hsame.parentId⟩
  | missionOpened id parentOpen =>
    obtain ⟨⟨⟩, _⟩ | ⟨m, hm, _, hsame, _, _, hopen, _⟩ := hw
    refine (hopen hev).imp (fun hm₀ => ⟨m, hm, hm₀, hsame.parentId⟩) fun hp => ⟨?_, nofun⟩
    rwa [DB.parentOpen, hsame.parentId]
  | missionClosed =>
    obtain ⟨⟨⟩, _⟩ | ⟨_, _, _, _, _, hclosed, _⟩ := hw
    exact absurd ho hclosed
  | other t hu => cases ht; cases hu
  | _ => cases ht

/-- An open mission with an open child stays open. -/
theorem Effect.staysOpen (h : Effect ev s s') (hev : ev.keepsTree) {parent : Mission}
    (hparent : (s .mission).find? p = some parent) (ho : parent.status = .opened)
    (hchild : ∀ id childless, ev = .missionClosed id childless → s.openChildren p ≠ []) :
    ∃ parent', (s' .mission).find? p = some parent' ∧ parent'.status = .opened := by
  obtain ⟨parent', hfind, rfl | ⟨ht, hch⟩⟩ := h.find? (by decide) hparent
  · exact ⟨parent', hfind, ho⟩
  cases ev with
  | missionCreated => cases hch
  | missionRevised => exact ⟨parent', hfind, hch.1.status.trans ho⟩
  | missionTouched => exact ⟨parent', hfind, hch.2.trans ho⟩
  | missionOpened => exact ⟨parent', hfind, hch.2.2.1⟩
  | missionClosed id childless =>
    obtain rfl : childless := hev
    obtain ⟨_, rfl⟩ := find?_eq_some.mp hparent
    exact absurd (hch.2.2.2 rfl) (hchild id true rfl)
  | other t hu => cases ht; cases hu
  | _ => cases ht

theorem DB.OpenUnderOpen.effect (ho : s.OpenUnderOpen) (h : Effect ev s s') (hev : ev.keepsTree) :
    s'.OpenUnderOpen := by
  intro m' hm' hstatus p hp
  rcases h.opened hev hm' hstatus with ⟨m, hm, hopen, hsame⟩ | ⟨hparent, hne⟩
  · obtain ⟨parent, hparent, hopen'⟩ := ho m hm hopen p (hsame ▸ hp)
    refine h.staysOpen hev hparent hopen' fun _ _ _ hnil => ?_
    have hchild : m ∈ s.openChildren p :=
      mem_filter.mpr ⟨hm, by simp [hopen, ← hsame, hp]⟩
    rw [hnil] at hchild
    cases hchild
  · obtain ⟨parent, hparent, hopen'⟩ := parentOpen_iff.mp hparent p hp
    exact h.staysOpen hev hparent hopen' fun id childless heq => absurd heq (hne id childless)

/-- The steps that open and close missions where the tree allows it: a run is reopened while
its mission is open or has an open parent, and a phase is accepted while nothing is open below the
missions of the planners it supersedes. -/
def Label.keepsTree (s : DB) (l : Label) : Bool :=
  match l.operation with
  | .command _ (.run .reopen id _) => ((s .run).find? id).all fun r =>
      ((s .mission).find? r.missionId).all fun m => m.status == .opened || s.parentOpen m
  | .command _ (.acceptPhase id _ _ _) => (s .assignment).rows.all fun a =>
      !(a.recurrenceKey == some (.plannerNext id) && a.status == .pending)
        || (s.openChildren a.missionId).isEmpty
  | _ => true

theorem keepsTree_of_emits {l : Label} (hl : l.keepsTree s) (h : l.Emits s ev) : ev.keepsTree := by
  cases ev with
  | missionOpened id _ _ =>
    rcases h.comesFrom with ⟨rfl, _⟩ | ⟨_, _, _, r, m, hop, hr, hm, hev⟩
    · rfl
    · cases hev
      simp only [Label.keepsTree, hop, hr, hm, Option.all_some] at hl
      simpa [Event.keepsTree] using hl
  | missionClosed id _ =>
    rcases h.comesFrom with rfl | ⟨_, _, _, _, _, a, hmem, hop, hkey, hstatus, hev⟩
    · rfl
    · cases hev
      simp only [Label.keepsTree, hop, all_eq_true] at hl
      simpa [hkey, hstatus, Event.keepsTree] using hl a hmem
  | _ => rfl

/-- In every state reached by steps that open and close missions where the tree allows it, an
open mission that has a parent has an open parent. -/
theorem open_parent (h : controlPlane.ReachableBy (Label.keepsTree · · = true) s) :
    ∀ m ∈ s .mission, m.status = .opened → ∀ p, m.parentId = some p →
      ∃ parent, (s .mission).find? p = some parent ∧ parent.status = .opened := by
  change s.OpenUnderOpen
  refine invariant_of_events (fun m hm => absurd hm notMem_empty) ?_ h
  intro _ _ hl ev hev _ _ _ he ho
  exact ho.effect he (keepsTree_of_emits hl hev)

/-- Whether an open mission has a parent that is not open. -/
def DB.hasOrphan (s : DB) : Bool := (s .mission).rows.any fun m => m.status == .opened
  && m.parentId.any fun p => ((s .mission).find? p).all (·.status != .opened)

theorem hasOrphan_iff : s.hasOrphan ↔ ∃ m ∈ s .mission, m.status = .opened ∧ ∃ p,
    m.parentId = some p ∧ ∀ parent, (s .mission).find? p = some parent →
      parent.status ≠ .opened := by
  simp [hasOrphan, any_eq_true, Option.any_eq_true, Option.all_eq_true, mem_def]

namespace Installation

/-- A run on a delegated mission. -/
def delegatedRun : List Label :=
  setup ++ [byAdmin 2 (missionUnder 1 1), byAdmin 2 (.startRun (runOn (some 2)) none)]

/-- The run is drained and its missions settled bottom-up; then it is reopened, with the parent
of its mission still closed. -/
def reopenedRun : List Label := delegatedRun ++
  [ byAdmin 3 (.command 2 (.cancelAssignment 1 none))
  , byAdmin 3 (.command 1 (.mission .cancel 3 "Superseded"))
  , byAdmin 3 (.command 3 (.mission .complete 2 "Done"))
  , byAdmin 3 (.command 1 (.run .drain 1 none))
  , byAdmin 3 (.command 3 (.mission .complete 1 "Done"))
  , byAdmin 4 (.command 2 (.run .reopen 1 none)) ]

/-- The mission of a queued planner has an open child when the phase is accepted. -/
def acceptedPhase : List Label := setup ++
  [ byAdmin 2 (.startRun (runOn (some 1)) none)
  , byAdmin 2 (missionUnder 2 1)
  , byAdmin 3 (.command 1 (.acceptPhase 1 "Accepted" [.document 1] none)) ]

end Installation

/-- Both runs leave an open mission below a closed one. -/
theorem open_parent_fails : [reopenedRun, acceptedPhase].Forall fun run =>
    controlPlane.Reachable (outcome run) ∧ ∃ m ∈ (outcome run) .mission, m.status = .opened
      ∧ ∃ p, m.parentId = some p
        ∧ ∀ parent, ((outcome run) .mission).find? p = some parent → parent.status ≠ .opened := by
  refine ⟨⟨outcome_reachable _, hasOrphan_iff.mp ?_⟩, outcome_reachable _, hasOrphan_iff.mp ?_⟩
  · decide +kernel
  · decide +kernel

/-- A run on a delegated mission stays within the guard. -/
theorem open_parent_delegatedRun :
    (outcomeBy Label.keepsTree delegatedRun .mission).rows.map
        (fun m => (m.parentId, m.status)) = [(none, .opened), (some 1, .opened), (some 2, .opened)]
      ∧ ∀ m ∈ outcomeBy Label.keepsTree delegatedRun .mission,
        m.status = .opened → ∀ p, m.parentId = some p →
        ∃ parent, (outcomeBy Label.keepsTree delegatedRun .mission).find? p = some parent
          ∧ parent.status = .opened :=
  ⟨by decide +kernel, open_parent (outcomeBy_reachable _ _)⟩

/-! ## The child budget -/

/-- Whether a mission is an open child of another one. -/
def Mission.isOpenChild (p : Id) (m : Mission) : Bool := m.parentId == some p && m.status == .opened

theorem Mission.isOpenChild_iff : m.isOpenChild p ↔ m.parentId = some p ∧ m.status = .opened := by
  simp [isOpenChild]

theorem length_openChildren :
    (s.openChildren p).length = (s .mission).rows.countP (Mission.isOpenChild p) :=
  (countP_eq_length_filter).symm

/-- The open children of a mission that keep their place. -/
theorem length_openChildren_le (hrows : (s' .mission).rows = (s .mission).rows.map g)
    (hg : ∀ m ∈ s .mission, (g m).isOpenChild p → m.isOpenChild p) :
    (s'.openChildren p).length ≤ (s.openChildren p).length := by
  rw [length_openChildren, length_openChildren, hrows, countP_map]
  exact countP_mono_left hg

/-- One mission at most comes to be an open child. -/
theorem length_openChildren_le_succ {k : Id} (hrows : (s' .mission).rows = (s .mission).rows.map g)
    (hg : ∀ m ∈ s .mission, m.id ≠ k → g m = m) :
    (s'.openChildren p).length ≤ ((s.openChildren p).filter (·.id != k)).length + 1 := by
  rw [length_openChildren, hrows]
  refine (countP_map_le hg).trans (Nat.add_le_add_right (le_of_eq ?_) 1)
  rw [countP_eq_length_filter, openChildren, filter_filter, filter_filter]
  congr 1
  refine filter_congr fun m _ => ?_
  rw [Bool.and_comm]
  exact congrArg (· && m.isOpenChild p) (decide_not ..)

theorem roomLeft_iff : s.roomLeft m ↔ ∀ p, m.parentId = some p →
    ∃ parent, (s .mission).find? p = some parent
      ∧ ((s.openChildren p).filter (·.id != m.id)).length < parent.maxOpenChildren := by
  rw [roomLeft]
  cases m.parentId with
  | none => simp
  | some p => simp [Option.any_eq_true]

/-- No mission has more open children than its budget. -/
def DB.WithinBudget (s : DB) : Prop :=
  ∀ m ∈ s .mission, (s.openChildren m.id).length ≤ m.maxOpenChildren

/-- The events that open a mission where its parent has room for it. -/
def Event.keepsBudget : Event → Bool
  | .missionOpened _ _ roomLeft => roomLeft
  | _ => true

/-- The effect on the children of `p` of rewriting the mission `k` in place. -/
theorem openChildren_le_of_map (hc : Consistent s') {k : Id}
    (hrows : (s' .mission).rows = (s .mission).rows.map g) (hkey : ∀ m, (g m).id = m.id)
    (hg : ∀ m ∈ s .mission, m.id ≠ k → g m = m)
    (hroom : ∀ m ∈ s .mission, m.id = k → (g m).isOpenChild p →
      ¬ (m.parentId = some p ∧ m.status = .opened) → s.roomLeft (g m)) :
    (s'.openChildren p).length ≤ (s.openChildren p).length ∨ ∃ parent,
      (s' .mission).find? p = some parent
      ∧ (s'.openChildren p).length ≤ parent.maxOpenChildren := by
  by_cases hex : ∃ m ∈ s .mission, m.id = k ∧ (g m).isOpenChild p
      ∧ ¬ (m.parentId = some p ∧ m.status = .opened)
  · obtain ⟨m, hm, rfl, hchild, hnot⟩ := hex
    have hm' : g m ∈ s' .mission := by
      rw [mem_def, hrows]
      exact mem_map_of_mem hm
    have hp : (g m).parentId = some p := (Mission.isOpenChild_iff.mp hchild).1
    obtain ⟨parent, hparent, hlt⟩ := roomLeft_iff.mp (hroom m hm rfl hchild hnot) p hp
    -- A mission is not its own parent, so the row of `p` is not the one rewritten.
    obtain ⟨hmem, hid⟩ := find?_eq_some.mp hparent
    have hne : parent.id ≠ m.id := by
      intro h
      refine hc.parentId_ne hm' ?_
      rw [hp, hkey, ← h]
      exact congrArg some hid.symm
    have hmem' : parent ∈ s' .mission := by
      rw [mem_def, hrows]
      exact mem_map.mpr ⟨parent, hmem, hg parent hmem hne⟩
    rw [hkey] at hlt
    exact .inr ⟨parent, find?_eq_some.mpr ⟨hmem', hid⟩,
      (length_openChildren_le_succ hrows hg).trans hlt⟩
  · refine .inl (length_openChildren_le hrows fun m hm hchild => ?_)
    by_cases hid : m.id = k
    · by_contra hnot
      exact hex ⟨m, hm, hid, hchild, hnot ∘ Mission.isOpenChild_iff.mpr⟩
    · rwa [hg m hm hid] at hchild

theorem openChildren_le_of_created (h : Effect .missionCreated s s') (p : Id) :
    (s'.openChildren p).length ≤ (s.openChildren p).length ∨ ∃ parent,
      (s' .mission).find? p = some parent
      ∧ (s'.openChildren p).length ≤ parent.maxOpenChildren := by
  rcases h.rows nofun with ⟨row, hrows, ⟨_, _, hroom, _⟩, hfresh⟩ | ⟨g, hrows, _, hg⟩
  · have hlen : (s'.openChildren p).length
        = (s.openChildren p).length + if row.isOpenChild p = true then 1 else 0 := by
      rw [length_openChildren, length_openChildren, hrows, countP_append, countP_singleton]
    by_cases hchild : row.isOpenChild p
    · have hp : row.parentId = some p := (Mission.isOpenChild_iff.mp hchild).1
      obtain ⟨parent, hparent, hlt⟩ := roomLeft_iff.mp hroom p hp
      obtain ⟨parent', hparent', rfl | ⟨_, ⟨⟩⟩⟩ := h.find? (by decide) hparent
      · have hall : (s.openChildren p).filter (·.id != row.id) = s.openChildren p := by
          refine filter_eq_self.mpr fun m hm => ?_
          exact bne_iff_ne.mpr (hfresh m (mem_filter.mp hm).1)
        rw [hall] at hlt
        rw [if_pos hchild] at hlen
        exact .inr ⟨parent', hparent', by omega⟩
    · rw [if_neg hchild] at hlen
      exact .inl hlen.le
  · refine .inl (length_openChildren_le hrows fun m hm hchild => ?_)
    rwa [(hg m hm).resolve_right id] at hchild

theorem Effect.openChildren_le (h : Effect ev s s') (hc : Consistent s) (hev : ev.keepsBudget)
    (p : Id) : (s'.openChildren p).length ≤ (s.openChildren p).length ∨ ∃ parent,
      (s' .mission).find? p = some parent
      ∧ (s'.openChildren p).length ≤ parent.maxOpenChildren := by
  have hc' := h.consistent hc
  -- A mission that comes to be an open child was changed.
  have hchanged : ∀ {m m' : Mission} {C : Prop}, m' = m ∨ C → m'.isOpenChild p →
      ¬ (m.parentId = some p ∧ m.status = .opened) → C := fun h hin hout =>
    h.resolve_left fun heq => hout (Mission.isOpenChild_iff.mp (heq ▸ hin))
  by_cases ht : ev.table = .mission
  · cases ev with
    | missionCreated => exact openChildren_le_of_created h p
    | missionRevised k =>
      obtain ⟨_, _, ⟨⟩, _⟩ | ⟨g, hrows, hkey, hg⟩ := h.rows (by rintro ⟨⟩)
      refine openChildren_le_of_map (k := k) hc' hrows hkey (fun m hm hne => ?_)
        fun m hm _ hin hout => ?_
      · exact (hg m hm).resolve_right fun hch => hne hch.2.1
      · obtain ⟨hrev, _⟩ := hchanged (hg m hm) hin hout
        refine (hrev.placed.resolve_left fun hsame => hout ⟨?_, hrev.opened⟩).2.1
        rw [← hsame, (Mission.isOpenChild_iff.mp hin).1]
    | missionOpened k _ roomLeft =>
      obtain ⟨_, _, ⟨⟩, _⟩ | ⟨g, hrows, hkey, hg⟩ := h.rows (by rintro ⟨⟩)
      refine openChildren_le_of_map (k := k) hc' hrows hkey (fun m hm hne => ?_)
        fun m hm _ hin hout => ?_
      · exact (hg m hm).resolve_right fun hch => hne hch.2.1
      · obtain ⟨hsame, _, _, _, hroom⟩ := hchanged (hg m hm) hin hout
        have hleft := (hroom hev).resolve_left fun ho => hout ⟨?_, ho⟩
        · have hid : (g m).id = m.id := hkey m
          rwa [DB.roomLeft, hsame.parentId, hid]
        · rw [← hsame.parentId, (Mission.isOpenChild_iff.mp hin).1]
    | missionTouched =>
      obtain ⟨_, _, ⟨⟩, _⟩ | ⟨g, hrows, _, hg⟩ := h.rows (by decide)
      refine .inl (length_openChildren_le hrows fun m hm hin => ?_)
      by_contra hout
      obtain ⟨hsame, hstatus⟩ := hchanged (hg m hm) hin (hout ∘ Mission.isOpenChild_iff.mpr)
      rw [Mission.isOpenChild, hsame.parentId, hstatus] at hin
      exact hout hin
    | missionClosed =>
      obtain ⟨_, _, ⟨⟩, _⟩ | ⟨g, hrows, _, hg⟩ := h.rows (by rintro ⟨⟩)
      refine .inl (length_openChildren_le hrows fun m hm hin => ?_)
      by_contra hout
      obtain ⟨_, _, hclosed, _⟩ := hchanged (hg m hm) hin (hout ∘ Mission.isOpenChild_iff.mpr)
      exact hclosed (Mission.isOpenChild_iff.mp hin).2
    | other t hu => cases ht; cases hu
    | _ => cases ht
  · left
    rw [openChildren, openChildren, h.frame (Ne.symm ht)]

/-- The budget of a mission changes only to one its open children fit in. -/
theorem Effect.budget (h : Effect ev s s') (hm' : m' ∈ s' .mission) :
    (s .mission).find? m'.id = none ∨ ∃ m ∈ s .mission, m'.id = m.id
      ∧ (m'.maxOpenChildren = m.maxOpenChildren
        ∨ (s.openChildren m.id).length ≤ m'.maxOpenChildren) := by
  by_cases hev : ev.isPlaced
  · obtain ⟨m, hm, hid, hsame⟩ := h.sameContract hev hm'
    exact .inr ⟨m, hm, hid, .inl hsame.maxOpenChildren⟩
  · cases ev with
    | missionCreated =>
      obtain hm | ⟨_, hfresh⟩ | ⟨_, _, _, ⟨⟩⟩ := h.mem hm'
      · exact .inr ⟨m', hm, rfl, .inl rfl⟩
      · exact .inl (find?_eq_none.mpr hfresh)
    | missionRevised =>
      obtain hm | ⟨⟨⟩, _⟩ | ⟨m, hm, hid, hrev, _⟩ := h.mem hm'
      · exact .inr ⟨m', hm, rfl, .inl rfl⟩
      · exact .inr ⟨m, hm, hid, hrev.budget⟩
    | _ => exact absurd rfl hev

theorem DB.WithinBudget.effect (hb : s.WithinBudget) (hc : Consistent s) (h : Effect ev s s')
    (hev : ev.keepsBudget) : s'.WithinBudget := by
  intro m' hm'
  rcases h.openChildren_le hc hev m'.id with hle | ⟨parent, hparent, hle⟩
  · rcases h.budget hm' with hnew | ⟨m, hm, hid, hsame | hfits⟩
    · -- A new mission has no children yet.
      have hnil : s.openChildren m'.id = [] := by
        refine filter_eq_nil_iff.mpr fun c hcm hchild => hc.not_childOf (c := c.id) hnew ?_
        exact ⟨c, find?_key hcm, (Mission.isOpenChild_iff.mp hchild).1⟩
      rw [hnil] at hle
      exact hle.trans (Nat.zero_le _)
    · rw [hsame]
      exact hle.trans (hid ▸ hb m hm)
    · exact hle.trans (hid ▸ hfits)
  · obtain rfl : parent = m' := Option.some.inj (hparent.symm.trans (find?_key hm'))
    exact hle

/-- The steps that open a mission within the budget of its parent: a run is reopened while its
mission is open or the parent has room for it. -/
def Label.keepsBudget (s : DB) (l : Label) : Bool :=
  match l.operation with
  | .command _ (.run .reopen id _) => ((s .run).find? id).all fun r =>
      ((s .mission).find? r.missionId).all fun m => m.status == .opened || s.roomLeft m
  | _ => true

theorem keepsBudget_of_emits {l : Label} (hl : l.keepsBudget s) (h : l.Emits s ev) :
    ev.keepsBudget := by
  cases ev with
  | missionOpened id _ _ =>
    rcases h.comesFrom with ⟨_, rfl⟩ | ⟨_, _, _, r, m, hop, hr, hm, hev⟩
    · rfl
    · cases hev
      simp only [Label.keepsBudget, hop, hr, hm, Option.all_some] at hl
      simpa [Event.keepsBudget] using hl
  | _ => rfl

/-- In every state reached by steps that open missions within the budget of their parent, every
mission has at most `max_open_children` open children. -/
theorem within_budget (h : controlPlane.ReachableBy (Label.keepsBudget · · = true) s) :
    ∀ m ∈ s .mission, (s.openChildren m.id).length ≤ m.maxOpenChildren := by
  change s.WithinBudget
  refine invariant_of_events (fun m hm => absurd hm notMem_empty) ?_ h
  intro _ _ hl ev hev _ _ hs he hb
  exact hb.effect hs.consistent he (keepsBudget_of_emits hl hev)

namespace Installation

/-- A mission with room for one child settles the child of a run and takes another one. -/
def replacedChild : List Label := setup ++
  [ byAdmin 2
    (.mission { projectId := 1, title := "Narrow", objective := "Narrow", maxOpenChildren := 1 })
  , byAdmin 2 (missionUnder 2 1)
  , byAdmin 2 (.startRun (runOn (some 3)) none)
  , byAdmin 3 (.command 2 (.cancelAssignment 1 none))
  , byAdmin 3 (.command 1 (.mission .cancel 4 "Superseded"))
  , byAdmin 3 (.command 3 (.mission .complete 3 "Done"))
  , byAdmin 3 (.command 1 (.run .drain 1 none))
  , byAdmin 3 (missionUnder 2 3) ]

/-- Reopening the run opens the settled child beside its replacement. -/
def reopenedChild : List Label := replacedChild ++ [byAdmin 4 (.command 2 (.run .reopen 1 none))]

end Installation

theorem within_budget_fails : controlPlane.Reachable (outcome reopenedChild)
    ∧ ∃ m ∈ outcome reopenedChild .mission,
      m.maxOpenChildren < ((outcome reopenedChild).openChildren m.id).length := by
  refine ⟨outcome_reachable _, ?_⟩
  have h : (outcome reopenedChild .mission).rows.any (fun m =>
      m.maxOpenChildren < ((outcome reopenedChild).openChildren m.id).length) = true := by
    decide +kernel
  simpa [mem_def] using h

/-- The budget is used up, and kept, before the run is reopened. -/
theorem within_budget_replacedChild :
    ((outcomeBy Label.keepsBudget replacedChild .mission).rows.map fun m =>
        (m.id, m.maxOpenChildren,
          ((outcomeBy Label.keepsBudget replacedChild).openChildren m.id).length))
        = [(1, 8, 0), (2, 1, 1), (3, 8, 0), (4, 8, 0), (5, 8, 0)]
      ∧ ∀ m ∈ outcomeBy Label.keepsBudget replacedChild .mission,
        ((outcomeBy Label.keepsBudget replacedChild).openChildren m.id).length
          ≤ m.maxOpenChildren :=
  ⟨by decide +kernel, within_budget (outcomeBy_reachable _ _)⟩

end Horizon
