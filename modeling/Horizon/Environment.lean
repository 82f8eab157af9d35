import Horizon.Persistence.Schema
import Horizon.Library.Kleene

/-!
# What a transaction reads from outside the modelled tables

Every operation runs at a database time, with identifiers drawn by `uuid4`,
under the installation's configuration, and observing tables that are not
modelled (deliveries, notifications, usage records, Forge observations).
`Env` collects these readings.  Theorems quantify over all environments, one
for every step of a run.
-/

namespace Horizon

/-- Installation settings read by the scheduler. -/
structure Config where
  leaseSeconds : Nat
  hostStaleSeconds : Nat
  plannerMinIntervalSeconds : Nat
  plannerMaxIdleSeconds : Nat
  plannerMaxUnchangedPasses : Nat
  automationIdleRecheckSeconds : Nat

/-- Readings of unmodelled tables and of the provider and host environment. -/
structure Observations where
  /-- `condition_readiness` of an assignment. -/
  conditionReadiness : DB → Assignment → Truth
  /-- `condition_readiness` with `events_only`. -/
  eventReadiness : DB → Assignment → Truth
  /-- Whether a recurring owner is held back (`root_maintenance.admission_blocker`,
  `recurring_maintenance_blocker`). -/
  recurrenceBlocked : DB → Assignment → Automation → Bool
  /-- The admission limit that holds a run back, if any (`admission.reason`). -/
  runLimit : DB → Run → Assignment → Option String
  /-- Whether a checkpointed assignment still waits for its deliveries. -/
  awaitsDelivery : DB → Assignment → Bool
  /-- `Service.pending_deliveries`. -/
  pendingDeliveries : DB → Id → Bool
  /-- The notification, delivery and goal findings of `settlement_findings`. -/
  settlementNotices : DB → Id → Bool → List String
  /-- `Service.progress_stalled`. -/
  progressStalled : DB → Id → Nat → Bool
  /-- `Scheduler._verified_publication`. -/
  verifiedPublication : DB → Id → Bool
  /-- Whether an assignment has unsettled publications. -/
  unpublished : DB → Id → Bool
  /-- Whether a run has unsettled publications or external deliveries. -/
  undelivered : DB → Id → Bool
  /-- Tokens used by a category of a run; `none` needs reconciliation. -/
  categoryUsage : DB → Run → Category → Option Nat
  /-- `objectives.frontier`. -/
  objectiveFrontier : DB → Run → Id
  /-- `coordination_memory.frontier`. -/
  coordinationFrontier : DB → Id → Id
  /-- `milestones.require_baseline` accepts a snapshot. -/
  baselineAccepted : DB → Id → Bool
  /-- `root_maintenance.default_condition`. -/
  defaultCondition : Option Condition → Bool
  /-- `root_maintenance.previous_condition`: the condition the latest execution of
  a rule was admitted under, if one was recorded. -/
  previousCondition : DB → Automation → Option Condition
  /-- Whether the condition of a rule is ready, as `recovery_cause` asks. -/
  ruleReadiness : DB → Automation → Bool
  /-- `recurring_maintenance_blocker` of a rule about to be replenished. -/
  maintenanceBlocked : DB → Automation → Bool
  /-- `maintainer_admission_available`. -/
  maintainerAdmission : DB → Bool
  /-- `operations.storage.pressure` reports `pause`. -/
  storagePaused : Bool
  /-- Whether the idle-queue heuristics of `refill.recheck` wake a planner. -/
  idleRecheck : DB → Assignment → Bool
  /-- Whether `coordination_memory.follow_up_status` requires attention. -/
  followUpAttention : DB → Id → Bool
  /-- The note on the follow-up of a run's recovery decision. -/
  followUpNote : DB → Id → String
  /-- `coordination_memory.recovery_due`. -/
  recoveryDue : DB → Id → Bool
  /-- The harness pinned by the manifest that `prepare_assignment` stores with a
  reviewer assignment. -/
  reviewHarness : DB → Assignment → Id × Adapter
  /-- `prefer_other_workspace_host`, with the readings it caches during a poll. -/
  prefersOtherHost : DB → Assignment → WorkspaceId → Bool
  /-- The number of enabled review policies of a repository for a phase. -/
  reviewPolicies : DB → Id → PhaseKind → Nat
  /-- `Scheduler.admission_blocker` reports a physical blocker. -/
  admissionBlocked : DB → Assignment → Bool
  /-- Whether the time gate of a condition is already known to be closed. -/
  timeGateClosed : Option Condition → Instant → Bool

/-- What one transaction reads from outside the modelled tables. -/
structure Env where
  /-- The transaction time. -/
  now : Instant
  /-- `uuid4`, given the identifiers already used. -/
  uuid : List Id → Id
  uuid_fresh : ∀ used, uuid used ∉ used
  /-- `random.uniform(delay / 2, delay)`. -/
  jitter : Nat → Nat
  config : Config
  obs : Observations
  /-- The page of queue candidates a poll of a host sees: the rotating cursor and
  the order of the queue are hints that only select among the candidates. -/
  page : DB → Id → Bool → List Assignment → List Assignment
  page_subset : ∀ db host supervisory items, page db host supervisory items ⊆ items
  /-- The page of review candidates of a run, by the same kind of cursor. -/
  reviewPage : DB → Id → List ForgeItem → List ForgeItem
  reviewPage_subset : ∀ db run items, reviewPage db run items ⊆ items

end Horizon
