import Horizon.Auth
import Mathlib.Data.List.Sort
import Mathlib.Data.List.Dedup

/-!
# The mission tree

`missions/mission_tree.py`: scopes and their containment, the lineage of a
mission, the checks that guard delegation, re-parenting and closing, and the
authority an agent has over a mission.

The two recursive queries are modelled by walking parent links.  A lineage
visits a mission at most once, so the number of missions is enough fuel.
-/

namespace Horizon

/-- The white space that `str.strip` removes. -/
def isSpace (c : Char) : Bool :=
  (9 ≤ c.toNat && c.toNat ≤ 13) || (28 ≤ c.toNat && c.toNat ≤ 32)
    || (0x2000 ≤ c.toNat && c.toNat ≤ 0x200a)
    || [0x85, 0xa0, 0x1680, 0x2028, 0x2029, 0x202f, 0x205f, 0x3000].contains c.toNat

/-- `str.strip`. -/
def strip (s : String) : String :=
  String.ofList ((s.toList.dropWhile isSpace).reverse.dropWhile isSpace).reverse

/-- Whether a text has a character that is not white space. -/
def hasText (s : String) : Bool := s.toList.any fun c => !isSpace c

/-! ## Scopes -/

namespace MissionScope

/-- The scope that names nothing; for a root mission it is the whole project. -/
def empty : MissionScope := ⟨[], [], []⟩

/-- Whether a scope names nothing. -/
def isEmpty (s : MissionScope) : Bool :=
  s.nodeIds.isEmpty && s.documentIds.isEmpty && s.repositoryPaths.isEmpty

end MissionScope

/-- The order in which repository paths are stored. -/
def RepositoryScope.le (a b : RepositoryScope) : Bool :=
  decide (a.repositoryId < b.repositoryId)
    || (a.repositoryId == b.repositoryId && decide (a.path.getD "" ≤ b.path.getD ""))

/-- `normalized_scope`: identifiers without repetition, everything sorted. -/
def normalizedScope (s : MissionScope) : MissionScope where
  nodeIds := s.nodeIds.dedup.insertionSort (· ≤ ·)
  documentIds := s.documentIds.dedup.insertionSort (· ≤ ·)
  repositoryPaths := s.repositoryPaths.insertionSort (RepositoryScope.le · ·)

/-- Whether a path lies strictly below a directory: `path.startswith(dir + "/")`. -/
def isBelow (path dir : String) : Bool := (dir ++ "/").toList.isPrefixOf path.toList

/-- Whether one repository path of a child is covered by the parent's paths. -/
def pathAllowed (allowed : List RepositoryScope) (row : RepositoryScope) : Bool :=
  allowed.contains row
    || allowed.contains ⟨row.repositoryId, none⟩
    || row.path.any fun path => allowed.any fun a =>
        a.repositoryId == row.repositoryId && a.path.any (isBelow path)

/-- `scope_contains`: whether `child` is no broader than `parent`. -/
def scopeContains (parent child : MissionScope) : Bool :=
  let parent := normalizedScope parent
  let child := normalizedScope child
  if parent.isEmpty then true
  else if child.isEmpty then false
  else child.nodeIds.all parent.nodeIds.contains
    && child.documentIds.all parent.documentIds.contains
    && child.repositoryPaths.all (pathAllowed parent.repositoryPaths)

/-- `validate_scope_links`: explicit scopes include the linked records. -/
def validateScopeLinks (scope : MissionScope) (nodeIds documentIds : List Id) : Except Error Unit :=
  if scope.isEmpty then pure ()
  else if !nodeIds.all scope.nodeIds.contains then
    refuse .scopeLinkMismatch "Mission node links must remain inside its explicit scope" 422
  else if !documentIds.all scope.documentIds.contains then
    refuse .scopeLinkMismatch "Mission document links must remain inside its explicit scope" 422
  else pure ()

/-- `validate_child`: the effective scope of a delegated mission. -/
def validateChild (parent : Mission) (scope : Option MissionScope)
    (acceptanceCriteria : List String)
    (delegationNote : Option String) : Except Error MissionScope :=
  let effective := normalizedScope (scope.getD parent.scope)
  if !scopeContains parent.scope effective then
    refuse .scopeWidening "A child mission must remain within its parent's scope" 422
  else if acceptanceCriteria.isEmpty then
    refuse .acceptanceCriteriaRequired "Delegated missions require acceptance criteria" 422
  else if !delegationNote.any hasText then
    refuse .delegationNoteRequired "Delegation requires a concrete handoff note" 422
  else pure effective

namespace DB

variable (db : DB)

/-- `validate_scope_references`. -/
def validateScopeReferences (projectId : Id) (scope : MissionScope) : Except Error Unit := do
  for node in scope.nodeIds do
    let _ ← sameProject Node.projectId (db.get .node node) projectId
  for document in scope.documentIds do
    let _ ← sameProject Document.projectId (db.get .document document) projectId
  for item in scope.repositoryPaths do
    let _ ← sameProject Repository.projectId (db.get .repository item.repositoryId) projectId

/-! ## Lineage -/

/-- The identifiers met when walking up from a mission, for at most `fuel` steps. -/
def lineage : Nat → Id → List Id
  | 0, _ => []
  | fuel + 1, id =>
    match (db .mission).find? id with
    | none => []
    | some m => id :: (match m.parentId with
      | none => []
      | some parent => lineage fuel parent)

/-- `contains_mission`: whether `ancestor` is `child` or above it. -/
def containsMission (ancestor child : Id) : Bool :=
  (db.lineage (db .mission).rows.length child).contains ancestor

/-- Whether a mission is strictly below another one. -/
def isDescendant (ancestor : Id) (m : Mission) : Bool :=
  m.parentId.any (db.containsMission ancestor)

/-- The open direct children of a mission. -/
def openChildren (id : Id) : List Mission :=
  (db .mission).rows.filter fun m => m.parentId == some id && m.status == .opened

/-! ## Guards -/

/-- `parent_for_child`: the open parent of a new child, at its current revision
and with child budget left. -/
def parentForChild (projectId : Id) (parentId : Option Id) (expectedRevision : Option Nat) :
    Except Error (Option Mission) := do
  match parentId with
  | none =>
    if expectedRevision.isSome then
      refuse .invalidParentRevision "A parent revision requires a parent mission" 422
    else pure none
  | some parentId =>
    let parent ← sameProject Mission.projectId (db.get .mission parentId) projectId
    if parent.status != .opened then
      refuse .parentClosed "A child can only be delegated from an open mission" 409
    else if expectedRevision.isNone then
      refuse .parentRevisionRequired "Child delegation requires the current parent revision" 422
    else if expectedRevision != some parent.revision then
      refuse .revisionConflict "The parent mission changed; refresh before delegating" 409
    else if parent.maxOpenChildren ≤ (db.openChildren parentId).length then
      refuse .childBudgetExhausted
        ("The mission child budget is exhausted. Reconcile delivered child "
        ++ "missions, or explicitly adjust max_open_children through MissionUpdate for distinct "
        ++ "remaining work. This contract is separate from worker capacity.") 409
    else pure (some parent)

/-- `validate_reparent`. -/
def validateReparent (missionId : Id) (parentId : Option Id) : Except Error Unit :=
  if parentId.any (db.containsMission missionId) then
    refuse .missionCycle "A mission cannot be placed under itself or one of its descendants" 422
  else pure ()

/-- `require_mission_authority`: an agent acts only inside its delegated subtree. -/
def requireMissionAuthority (now : Instant) (actor : Actor) (missionId : Id) :
    Except Error Mission := do
  let mission ← db.get .mission missionId
  if actor.kind != .agent then pure mission
  else
    let live ← db.liveExecution now actor
    if live.projectId != mission.projectId then
      refuse .forbidden "The mission is outside this execution's project" 403
    else
      let item := live.assignment
      let run ← db.get .run item.runId
      -- Only a server-created objective planner, and item maintainers, plan objective-wide.
      let planner :=
        item.automationId.bind (db .automation).find? |>.any (·.name == .objectivePlanner)
      let owned := if run.orchestration = .objective ∧ (planner ∨ item.role = .maintainer)
        then run.missionId else item.missionId
      if db.containsMission owned missionId then pure mission
      else refuse .forbidden "The mission is outside this execution's delegated subtree" 403

/-- `require_assignment_authority`. -/
def requireAssignmentAuthority (now : Instant) (actor : Actor) (item : Assignment) :
    Except Error Unit := do
  if actor.kind != .agent then pure ()
  else
    let live ← db.liveExecution now actor
    if item.runId != live.assignment.runId then
      refuse .forbidden "The assignment belongs to another run" 403
    else
      let _ ← db.requireMissionAuthority now actor item.missionId
      pure ()

/-- `ensure_closure_allowed`: no open mission may remain below a closed one, and
a cancelled mission leaves no live assignment behind. -/
def ensureClosureAllowed (mission : Mission) (cancel : Bool) : Except Error Unit :=
  if (db .mission).rows.any fun m => m.status == .opened && db.isDescendant mission.id m then
    refuse .openChildren ("Cannot close while an open child mission remains. Settle the listed "
      ++ "missions; finishing or cancelling assignments does not close their missions.") 409
  else if cancel && (db .assignment).rows.any fun a => a.status.isLive
      && (a.missionId == mission.id
        || (db .mission).rows.any fun m => m.id == a.missionId && db.isDescendant mission.id m) then
    refuse .activeAssignments "Settle assignments before closing this mission" 409
  else pure ()

end DB

/-- `bump_parent`: record that the children of a mission changed. -/
def bumpParent (env : Env) (parent : Mission) : Tx Mission :=
  change env .mission parent.id (some parent.revision)
    fun m => { m with delegationNote := parent.delegationNote }

end Horizon
