import Mathlib.Algebra.Ring.Nat
import Horizon.Auth

/-!
# Start conditions

`missions/conditions.py`: the dependency-cycle check shared by start conditions
and obligation resolutions, and `Service.validate_condition`, which checks that
a condition refers to records of its project and closes no cycle of waits.
-/

namespace Horizon

section

variable {α : Type} [DecidableEq α] (edges : List (α × List α))

/-- The recorded successors of a node. -/
def successors (node : α) : List α :=
  ((edges.filter fun e => e.1 = node).map Prod.snd).flatten

/-- The depth-first traversal of `reject_cycle`: a stack of nodes to enter or to
leave, the nodes on the current path, and the finished ones. -/
def traverse (edges : List (α × List α)) :
    Nat → List (α × Bool) → List α → List α → Except Error (List α)
  | 0, _, _, done => pure done
  | _, [], _, done => pure done
  | fuel + 1, (node, leaving) :: stack, active, done =>
    if leaving then traverse edges fuel stack (active.filter (· ≠ node)) (node :: done)
    else if node ∈ active then refuse .dependencyCycle "Dependency would create a cycle" 409
    else if node ∈ done then traverse edges fuel stack active done
    else traverse edges fuel
      ((successors edges node).reverse.map (·, false) ++ (node, true) :: stack)
      (node :: active) done

/-- Every node is entered and left once and pushed once for each edge into it. -/
def traversalFuel : Nat :=
  edges.length + 2 * (edges.map (·.2.length)).sum + 2

/-- `reject_cycle`. -/
def rejectCycle : Except Error Unit :=
  (edges.foldlM (fun done e => traverse edges (traversalFuel edges) [(e.1, false)] [] done) []).map
    fun _ => ()

end

namespace DB

variable (db : DB)

/-- The assignments a condition waits for: those it names, and the owners of the
open obligations it names. -/
def waitsFor (condition : Option Condition) : Except Error (List Id) :=
  ((condition.map Condition.references).getD []).foldlM (fun acc ref =>
    match ref with
    | .assignment id => pure (acc ++ [id])
    | .obligation id => do
      let row ← db.get .obligation id
      pure (if row.status = .opened then acc ++ [row.assignmentId] else acc)
    | _ => pure acc) []

/-- `validate_condition`: for a new condition of `assignmentId`, the waits of the
project's unfinished assignments must stay acyclic. -/
def validateCondition (projectId : Id) (condition : Option Condition) (assignmentId : Option Id) :
    Except Error Unit := do
  match condition with
  | none => pure ()
  | some condition =>
    for ref in condition.references do
      db.requireSameProject projectId ref
    match assignmentId with
    | none => pure ()
    | some assignmentId =>
      let rows := (db .assignment).rows.filter fun a =>
        (a.status == .pending || a.status == .running) && a.id != assignmentId
          && (match db.projectOfRun a.runId with
            | .ok p => p == projectId
            | .error _ => false)
      let edges ← ((assignmentId, some condition) :: rows.map fun a =>
          (a.id, a.startCondition)).mapM
        fun (owner, current) => do pure (owner, ← db.waitsFor current)
      rejectCycle edges

end DB

end Horizon
