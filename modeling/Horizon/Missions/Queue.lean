import Horizon.Effects.Operations
import Mathlib.Data.Prod.Lex

/-!
# The order of a queue

`move_before` and `move_after` rewrite the ranks of all pending assignments of a run.  The
order of a queue is the only list of its assignments that is sorted by rank, so that it is
enough to follow what the ranks become (`Reranked`).
-/

namespace Horizon

open Transaction Table List DB Database Installation

variable {s s' : DB} {env : Env} {actor : Actor} {id otherId runId : Id} {expected : Nat}
  {after : Bool} {order l pre post : List Id}

namespace DB

/-- The pending assignments of a run. -/
def pendingOf (s : DB) (runId : Id) : List Id :=
  ((s .assignment).rows.filter fun a => a.runId == runId && a.status == .pending).map (·.id)

/-- The rank of an assignment. -/
def rankOf (s : DB) (id : Id) : Int := ((s .assignment).find? id).elim 0 (·.queueRank)

/-- By rank, and then by identifier. -/
def Precedes (s : DB) (a b : Id) : Prop := toLex (s.rankOf a, a) ≤ toLex (s.rankOf b, b)

theorem rankOf_eq {a : Assignment} (h : a ∈ s .assignment) : s.rankOf a.id = a.queueRank := by
  have hfind : (s .assignment).find? a.id = some a := find?_key h
  rw [rankOf, hfind, Option.elim_some]

theorem queueOrder_perm : (s.queueOrder runId).Perm (s.pendingOf runId) := by
  refine ((mergeSort_perm _ _).map Prod.snd).trans ?_
  rw [map_map]
  exact .refl _

theorem queueOrder_nodup : (s.queueOrder runId).Nodup :=
  queueOrder_perm.nodup_iff.mpr ((s .assignment).nodup.sublist (filter_sublist.map _))

theorem mem_queueOrder : id ∈ s.queueOrder runId ↔
    ∃ a, (s .assignment).find? id = some a ∧ a.runId = runId ∧ a.status = .pending := by
  rw [queueOrder_perm.mem_iff]
  simp only [pendingOf, mem_map, mem_filter, Bool.and_eq_true, beq_iff_eq, find?_eq_some, mem_def]
  refine exists_congr fun a => ?_
  constructor <;> rintro ⟨⟨hm, h⟩, h'⟩ <;> exact ⟨⟨hm, h'⟩, h⟩

theorem queueOrder_pairwise : (s.queueOrder runId).Pairwise s.Precedes := by
  have hle : ∀ x y : Int × Id, (decide (x.1 < y.1) || (x.1 == y.1 && decide (x.2 ≤ y.2))) ↔
      toLex x ≤ toLex y := fun x y => by simp [Prod.Lex.toLex_le_toLex]
  rw [queueOrder, pairwise_map]
  refine (pairwise_mergeSort (fun x y z => ?_) (fun x y => ?_) _).imp_of_mem fun {x y} hx hy h => ?_
  · rw [hle, hle, hle]
    exact le_trans
  · rw [Bool.or_eq_true, hle, hle]
    exact le_total _ _
  · rw [mem_mergeSort, mem_map] at hx hy
    obtain ⟨a, ha, rfl⟩ := hx
    obtain ⟨b, hb, rfl⟩ := hy
    rw [Precedes, rankOf_eq (mem_filter.mp ha).1, rankOf_eq (mem_filter.mp hb).1]
    exact (hle _ _).mp h

/-- The order of a queue is the only sorted one. -/
theorem queueOrder_eq (hperm : l.Perm (s.pendingOf runId)) (h : l.Pairwise s.Precedes) :
    s.queueOrder runId = l := by
  refine Perm.eq_of_pairwise (fun a b _ _ hab hba => ?_) queueOrder_pairwise h
    (queueOrder_perm.trans hperm.symm)
  exact (Prod.mk.inj (toLex.injective (le_antisymm hab hba))).2

end DB

/-! ## Moving an assignment -/

/-- The moved assignment stands next to the other one, and the rest is as it was. -/
theorem moved_eq (horder : order.Nodup) (h : order.filter (· != id) = pre ++ otherId :: post) :
    moved order id otherId after = pre
      ++ (if after then [otherId, id] else [id, otherId]) ++ post := by
  have hnodup : (pre ++ otherId :: post).Nodup := h ▸ horder.filter _
  obtain ⟨-, hpost, hpre⟩ := nodup_append.mp hnodup
  rw [moved, h, flatMap_append, flatMap_cons, if_pos rfl, append_assoc,
    flatMap_congr fun i hi => ?_,
    flatMap_singleton', flatMap_congr fun i hi => ?_, flatMap_singleton']
  · exact if_neg (ne_of_mem_of_not_mem hi (nodup_cons.mp hpost).1)
  · exact if_neg (hpre i hi otherId mem_cons_self)

theorem moved_perm (after : Bool) (horder : order.Nodup) (hid : id ∈ order)
    (h : order.filter (· != id) = pre ++ otherId :: post) :
    (pre ++ (if after then [otherId, id] else [id, otherId]) ++ post).Perm order := by
  have hpair : (if after then [otherId, id] else [id, otherId]).Perm [id, otherId] := by
    cases after with
    | true => exact .swap _ _ _
    | false => exact .refl _
  calc pre ++ (if after then [otherId, id] else [id, otherId]) ++ post
    _ ~ pre ++ [id, otherId] ++ post := (hpair.append_left pre).append_right post
    _ ~ id :: (pre ++ otherId :: post) := by
      rw [append_assoc]
      exact perm_middle
    _ = id :: order.erase id := by rw [← h, horder.erase_eq_filter]
    _ ~ order := (perm_cons_erase hid).symm

/-- The assignments of a list get increasing ranks above a bound. -/
structure Reranked (l : List Id) (bound : Int) (s s' : DB) : Prop where
  pending : s'.pendingOf = s.pendingOf
  kept : ∀ i ∉ l, s'.rankOf i = s.rankOf i
  above : ∀ i ∈ l, bound < s'.rankOf i
  increasing : l.Pairwise (s'.rankOf · < s'.rankOf ·)

/-- A new rank changes nothing else of a queue. -/
theorem change_rank {rank : Int}
    {hf : ∀ a, key .assignment { a with queueRank := rank } = key .assignment a} :
    Ensures (change env .assignment id none (fun a => { a with queueRank := rank }) hf) s
      fun _ s' =>
      s'.pendingOf = s.pendingOf ∧ s'.rankOf id = rank ∧ ∀ i ≠ id, s'.rankOf i = s.rankOf i := by
  rw [ensures_change]
  intro old hold _ _
  refine ⟨funext fun runId => ?_, ?_, fun i hi => ?_⟩
  · simp only [pendingOf, write_self, rows_updateWhere, filter_map, map_map]
    refine (map_congr_left fun a _ => ?_).trans (congrArg _ (filter_congr fun a _ => ?_))
    all_goals
      simp only [Function.comp_apply]
      split <;> rfl
  · rw [rankOf, write_self, find?_updateWhere, hold]
    have hid : key .assignment old = id := key_of_find? hold
    rw [Option.map_some, if_pos (decide_eq_true hid)]
    rfl
  · rw [rankOf, write_self, find?_updateWhere_of_ne (k := id) (fun r h => of_decide_eq_true h) hi]
    rfl

/-- Give an assignment the rank of a position. -/
def setRank (env : Env) (id : Id) (position : Nat) : Tx Unit := do
  let _ ← change env .assignment id none fun a =>
    { a with queueRank := (position + 1 : Int) * 1024 }

/-- The ranks of a list, counted from `k`. -/
def rerank (env : Env) (l : List Id) (k : Nat) : Tx Unit :=
  each (fun entry => setRank env entry.1 entry.2) (l.zipIdx k)

theorem rerank_ensures {k : Nat} (hl : l.Nodup) :
    Ensures (rerank env l k) s fun _ s' => Reranked l (k * 1024) s s' := by
  induction l generalizing k s with
  | nil => exact .pure ⟨rfl, fun _ _ => rfl, nofun, .nil⟩
  | cons i l ih =>
    obtain ⟨hi, hl⟩ := nodup_cons.mp hl
    rw [rerank, zipIdx_cons, each, ensures_bind, setRank, ensures_bind]
    refine change_rank.mono fun _ s₁ hs₁ => ?_
    obtain ⟨hpending, hrank, hkept⟩ := hs₁
    rw [ensures_pure]
    refine (ih hl).mono fun _ s' h => ?_
    have habove : ∀ j ∈ l, s'.rankOf i < s'.rankOf j := fun j hj => by
      rw [h.kept i hi, hrank]
      exact_mod_cast h.above j hj
    refine ⟨h.pending.trans hpending, fun j hj => ?_, fun j hj => ?_, .cons habove h.increasing⟩
    · rw [mem_cons, not_or] at hj
      rw [h.kept j hj.2, hkept j hj.1]
    · have hfirst : k * 1024 < s'.rankOf i := by
        rw [h.kept i hi, hrank]
        omega
      rcases mem_cons.mp hj with rfl | hj
      · exact hfirst
      · exact hfirst.trans (habove j hj)

/-- An assignment of the highest rank is the last one. -/
theorem queueOrder_insert {t : DB} {row : Assignment} {hnew : ∀ a ∈ s .assignment, a.id ≠ row.id}
    (ht : t .assignment = (s .assignment).insert row hnew) (hpending : row.status = .pending)
    (hrank : ∀ a ∈ s .assignment, a.runId = row.runId → a.queueRank < row.queueRank) :
    t.queueOrder row.runId = s.queueOrder row.runId ++ [row.id] := by
  have hmem : ∀ a, a ∈ t .assignment ↔ a ∈ s .assignment ∨ a = row := fun a => by
    rw [ht, mem_insert]
  have hold : ∀ i ∈ s.queueOrder row.runId, t.rankOf i = s.rankOf i
      ∧ s.rankOf i < row.queueRank := by
    intro i hi
    obtain ⟨a, hfind, hrun, -⟩ := mem_queueOrder.mp hi
    obtain ⟨ha, rfl⟩ := find?_eq_some.mp hfind
    have hkept : t.rankOf a.id = a.queueRank := rankOf_eq ((hmem a).mpr (.inl ha))
    exact ⟨hkept.trans (rankOf_eq ha).symm, (rankOf_eq ha).trans_lt (hrank a ha hrun)⟩
  refine queueOrder_eq ?_ (pairwise_append.mpr ⟨?_, pairwise_singleton _ _, fun i hi j hj => ?_⟩)
  · rw [pendingOf, ht, rows_insert, filter_append, map_append]
    refine (queueOrder_perm.append_right _).trans ?_
    simp [pendingOf, hpending]
  · refine queueOrder_pairwise.imp_of_mem fun ha hb h => ?_
    rwa [Precedes, (hold _ ha).1, (hold _ hb).1]
  · obtain rfl := mem_singleton.mp hj
    refine Prod.Lex.toLex_le_toLex.mpr (.inl ?_)
    rw [(hold i hi).1, rankOf_eq ((hmem row).mpr (.inr rfl))]
    exact (hold i hi).2

theorem le_max?_getD {ranks : List Int} {rank : Int} (h : rank ∈ ranks) :
    rank ≤ ranks.max?.getD 0 := by
  cases hmax : ranks.max? with
  | none => simp [max?_eq_none_iff.mp hmax] at h
  | some m => exact (max?_eq_some_iff.mp hmax).2 rank h

/-- Queueing puts an assignment at the end of its queue. -/
theorem assignment_last {data : AssignmentCreate} {automationId : Option Id}
    {internal repair : Bool} :
    Ensures (assignment env actor data automationId internal repair) s fun row s' =>
      s'.queueOrder data.runId = s.queueOrder data.runId ++ [row.id] := by
  refine .read (.ask fun _ _ => ?_)
  rw [ensures_bind, ensures_create]
  intro hfresh _
  refine .bind (.read ?_) fun _ _ h => .pure h
  rw [ensures_create]
  intro _ _
  refine queueOrder_insert ((write_of_ne _ (by decide) _).trans (write_self _ _ _)) rfl
    fun a ha hrun => ?_
  have hmem : a ∈ (s .assignment).rows.filter (·.runId == data.runId) :=
    mem_filter.mpr ⟨ha, beq_iff_eq.mpr hrun⟩
  exact (le_max?_getD (mem_map_of_mem hmem)).trans_lt (Int.lt_add_of_pos_right _ (by decide))

/-! ## The command -/

/-- What `move_before` and `move_after` ask of the actor and the two assignments. -/
structure DB.IsMovable (s : DB) (env : Env) (actor : Actor) (id expected otherId : Id)
    (item other : Assignment) : Prop where
  target : s.targetAssignment env actor id expected = .ok item
  pending : item.status = .pending
  neighbor : (s .assignment).find? otherId = some other
  inRun : other.runId = item.runId
  neighborPending : other.status = .pending
  apart : otherId ≠ id
  authority : s.requireAssignmentAuthority env.now actor other = .ok ()

namespace DB.IsMovable

variable {item other : Assignment} (h : s.IsMovable env actor id expected otherId item other)

include h

theorem mem : id ∈ s.queueOrder item.runId :=
  mem_queueOrder.mpr ⟨item, targetAssignment_ok h.target, rfl, h.pending⟩

/-- The neighbor is among the other pending assignments of the run. -/
theorem split :
    ∃ pre post, (s.queueOrder item.runId).filter (· != id) = pre ++ otherId :: post := by
  refine append_of_mem (mem_filter.mpr ⟨mem_queueOrder.mpr ?_, ?_⟩)
  · exact ⟨other, h.neighbor, h.inRun, h.neighborPending⟩
  · simpa using h.apart

end DB.IsMovable

/-- A new rank breaks no constraint. -/
theorem change_rank_eq_ok (hs : Consistent s) (env : Env) (rank : Int)
    (hid : s.has .assignment id) :
    ∃ row s', change env .assignment id none (fun a => { a with queueRank := rank })
      (fun _ => rfl) s
        = .ok (row, s')
      ∧ Consistent s' ∧ ∀ i, s.has .assignment i → s'.has .assignment i := by
  obtain ⟨old, hold⟩ := Option.isSome_iff_exists.mp hid
  have hadmissible : admissible .assignment s
      (touch env.now .assignment { old with queueRank := rank }) :=
    hs .assignment old (mem_of_find? hold)
  have hrun : change env .assignment id none (fun a => { a with queueRank := rank })
      (fun _ => rfl) s = .ok (touch env.now .assignment { old with queueRank := rank },
        s.write .assignment ((s .assignment).updateWhere (fun a => decide (key .assignment a = id))
          (fun a => touch env.now .assignment { a with queueRank := rank }) fun _ => rfl)) := by
    rw [change, bind_eq_ok]
    refine ⟨s, s, rfl, bind_eq_ok.mpr ⟨old, s, query_eq_ok.mpr ⟨get_eq_ok.mpr hold, rfl⟩, ?_⟩⟩
    simp only [Option.any_none, Bool.false_eq_true, if_false, if_pos hadmissible]
    rfl
  exact ⟨_, _, hrun, hs.change hold hadmissible, keepsKeys_updateWhere .assignment (by decide)⟩

theorem rerank_eq_ok (hs : Consistent s) (env : Env) (hl : ∀ i ∈ l, s.has .assignment i) (k : Nat) :
    ∃ s', rerank env l k s = .ok ((), s') := by
  induction l generalizing k s with
  | nil => exact ⟨s, rfl⟩
  | cons i l ih =>
    obtain ⟨row, s₁, hrun, hs₁, hkeeps⟩ :=
      change_rank_eq_ok hs env ((k + 1 : Int) * 1024) (hl i mem_cons_self)
    obtain ⟨s', hrest⟩ := ih hs₁ (fun j hj => hkeeps j (hl j (mem_cons_of_mem i hj))) (k + 1)
    refine ⟨s', ?_⟩
    rw [rerank, zipIdx_cons, each, bind_eq_ok]
    exact ⟨(), s₁, bind_eq_ok.mpr ⟨row, s₁, hrun, rfl⟩, hrest⟩

/-- A move is a check and new ranks. -/
theorem moveAssignment_eq_ok :
    moveAssignment env actor id expected otherId after s = .ok ((), s')
      ↔ ∃ item other, s.IsMovable env actor id expected otherId item other
        ∧ rerank env (moved (s.queueOrder item.runId) id otherId after) 0 s = .ok ((), s') := by
  rw [moveAssignment, bind_eq_ok]
  simp only [query_eq_ok, check_bind_eq_ok, ite_refuse_bind_eq_ok, check_pure_eq_ok, not_or,
    ne_eq, not_not]
  constructor
  · rintro ⟨item, _,
      ⟨⟨_, htarget, hpending, other, hother, hneighbor, _, hauthority, rfl⟩, rfl⟩, hrun⟩
    have hid : other.id = otherId := key_of_find? (get_eq_ok.mp hother)
    exact ⟨_, other, ⟨htarget, hpending, get_eq_ok.mp hother, hneighbor.1, hneighbor.2.1,
      hid ▸ hneighbor.2.2, hauthority⟩, hrun⟩
  · rintro ⟨item, other, h, hrun⟩
    have hid : other.id = otherId := key_of_find? h.neighbor
    refine ⟨item, s,
      ⟨⟨item, h.target, h.pending, other, get_eq_ok.mpr h.neighbor, ?_, (), h.authority, rfl⟩,
      rfl⟩, hrun⟩
    exact ⟨h.inRun, h.neighborPending, hid ▸ h.apart⟩

/-- A valid move is committed.  The moved assignment then stands next to the other one, all others
are as they were, the ranks increase along the queue, and what is queued afterwards comes last. -/
theorem queue_move {s : DB} (hs : Consistent s) {env : Env} {actor : Actor}
    {id expected otherId : Id}
    {item other : Assignment} (h : s.IsMovable env actor id expected otherId item other)
    (after : Bool) :
    ∃ s', moveAssignment env actor id expected otherId after s = .ok ((), s') ∧ ∃ pre post,
      (s.queueOrder item.runId).filter (· != id) = pre ++ otherId :: post
      ∧ s'.queueOrder item.runId = pre ++ (if after then [otherId, id] else [id, otherId]) ++ post
      ∧ (s'.queueOrder item.runId).Pairwise (s'.rankOf · < s'.rankOf ·)
      ∧ ∀ env actor data automationId internal repair t row t', data.runId = item.runId →
        assignment env actor data automationId internal repair t = .ok (row, t') →
        t'.queueOrder item.runId = t.queueOrder item.runId ++ [row.id] := by
  have horder : (s.queueOrder item.runId).Nodup := queueOrder_nodup
  obtain ⟨pre, post, hsplit⟩ := h.split
  have hperm := moved_perm after horder h.mem hsplit
  have hmoved : moved (s.queueOrder item.runId) id otherId after = _ := moved_eq horder hsplit
  have hstored : ∀ i ∈ pre ++ (if after then [otherId, id] else [id, otherId]) ++ post,
      s.has .assignment i := fun i hi => by
    obtain ⟨a, ha, -⟩ := mem_queueOrder.mp (hperm.mem_iff.mp hi)
    exact Option.isSome_iff_exists.mpr ⟨a, ha⟩
  obtain ⟨s', hrun⟩ := rerank_eq_ok hs env hstored 0
  have hranks := rerank_ensures (hperm.nodup_iff.mpr horder) _ _ hrun
  have hqueue : s'.queueOrder item.runId = _ := queueOrder_eq
    ((hperm.trans queueOrder_perm).trans (hranks.pending ▸ .refl _))
    (hranks.increasing.imp fun hlt => Prod.Lex.toLex_le_toLex.mpr (.inl hlt))
  refine ⟨s', moveAssignment_eq_ok.mpr ⟨item, other, h, hmoved ▸ hrun⟩, pre, post, hsplit, hqueue,
    hqueue ▸ hranks.increasing, ?_⟩
  intro env actor data automationId internal repair t row t' hdata ht
  exact hdata ▸ assignment_last row t' ht

/-- A run with a planner and two workers that wait. -/
def Installation.waiting : DB := outcome (admitted ++
  [ byAdmin 21 (missionUnder 1 3)
  , byAdmin 21 (.assignment { runId := 1, missionId := 4 })
  , byAdmin 22 (missionUnder 1 4)
  , byAdmin 22 (.assignment { runId := 1, missionId := 5 }) ])

/-- The second worker is moved before the first one. -/
theorem queue_move_waiting :
    ∃ s', controlPlane.step waiting (byAdmin 30 (.command 1 (.move 4 3 false))) s'
    ∧ s'.queueOrder 1 = [2, 4, 3] := by
  have hs : Consistent waiting := (sound_of_reachable (outcome_reachable _)).consistent
  have horder : waiting.queueOrder 1 = [2, 3, 4] := by
    refine queueOrder_eq ?_ ?_
    · have hpending : waiting.pendingOf 1 = [2, 3, 4] := by decide +kernel
      rw [hpending]
    · have hranks : [2, 3, 4].map waiting.rankOf = [2048, 3072, 4096] := by decide +kernel
      simp only [map_cons, map_nil, cons.injEq, and_true] at hranks
      simp [DB.Precedes, hranks, Prod.Lex.toLex_le_toLex]
  have htarget : (waiting.targetAssignment (env 30) admin 4 1).toOption.any
      (fun item => item.status == .pending && item.runId == 1) = true := by decide +kernel
  have hother : ((waiting .assignment).find? 3).any
      (fun other => other.runId == 1 && other.status == .pending) = true := by decide +kernel
  generalize waiting = s at hs horder htarget hother ⊢
  cases hitem : s.targetAssignment (env 30) admin 4 1 with
  | error e => rw [hitem] at htarget; cases htarget
  | ok item =>
    cases hfind : (s .assignment).find? 3 with
    | none => rw [hfind] at hother; cases hother
    | some other =>
      simp only [hitem, hfind, Except.toOption, Option.any_some, Bool.and_eq_true,
        beq_iff_eq] at htarget hother
      obtain ⟨s', hrun, pre, post, hsplit, hqueue, -⟩ := queue_move hs ⟨hitem, htarget.1, hfind,
        hother.1.trans htarget.2.symm, hother.2, by decide, rfl⟩ false
      rw [htarget.2] at hsplit hqueue
      rw [horder] at hsplit
      refine ⟨s', hrun, ?_⟩
      obtain ⟨rfl, rfl⟩ : pre = [2] ∧ post = [] := by
        have hrest : [2, 3] = pre ++ 3 :: post := hsplit
        rcases pre with _ | ⟨a, _ | ⟨b, pre⟩⟩ <;> simp_all
      rw [hqueue]
      rfl

end Horizon
