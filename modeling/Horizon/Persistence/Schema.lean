import Horizon.Library.Table

/-!
# The control-plane schema

Row types of the PostgreSQL schema in `persistence/schema.py`, one structure a
table, and the database they make up.  A column appears here when a modelled
function reads or writes it; event, artifact, activity and search tables are
append-only evidence and are left out.

Identifiers are natural numbers.  Two tables also have *derived* identifiers:
a claim allocates the workspace `uuid5(assignment, "workspace:" + host)`, and
the journal blocker of an assignment has the identifier `blocker_id`.  Those
two key types are inductive, so that derived and drawn identifiers never clash.
-/

namespace Horizon

/-- A record identifier. -/
abbrev Id := Nat

/-- A point in time, in seconds. -/
abbrev Instant := Nat

/-! ## Enumerated columns -/

inductive MissionStatus where
  | opened | completed | cancelled
deriving DecidableEq

inductive RunStatus where
  | active | paused | draining | stopping | completed | cancelled
deriving DecidableEq

inductive Orchestration where
  | legacy | objective
deriving DecidableEq

inductive AssignmentStatus where
  | pending | running | stopping | completed | failed | cancelled
deriving DecidableEq

inductive ExecutionStatus where
  | starting | running | stopping | succeeded | failed | cancelled | lost
deriving DecidableEq

inductive ThreadKind where
  | primary | child
deriving DecidableEq

inductive ThreadStatus where
  | creating | available | unavailable | closed
deriving DecidableEq

/-- Why a provider request was submitted. -/
inductive RequestReason where
  | assignment | continuation | review
deriving DecidableEq

inductive RequestStatus where
  | pending | submitted | running | completed | failed | interrupted | uncertain
deriving DecidableEq

inductive ObligationKind where
  | deliverable | decision | delegation | blocker | review
deriving DecidableEq

inductive ObligationStatus where
  | opened | done | handled | superseded
deriving DecidableEq

inductive WorkspaceStatus where
  | preparing | ready | unavailable | retired
deriving DecidableEq

inductive HostMode where
  | enabled | draining | disabled
deriving DecidableEq

inductive LimitKind where
  | providerAccount | buildPool
deriving DecidableEq

inductive DocumentKind where
  | roadmap | specification | notes | referenceList
deriving DecidableEq

inductive RepositoryPurpose where
  | workspace | knowledge | reference | library
deriving DecidableEq

inductive Workflow where
  | graph | legacy | milestones
deriving DecidableEq

inductive PhaseKind where
  | preprocessing | formalization | postprocessing
deriving DecidableEq

inductive ItemStatus where
  | opened | merged | closed
deriving DecidableEq

inductive PrincipalKind where
  | human | host | agent | service
deriving DecidableEq

inductive CredentialKind where
  | browserSession | apiKey | hostKey | executionToken | internal
deriving DecidableEq

/-- The permission role of a queue category and of its assignments. -/
inductive Role where
  | worker | maintainer
deriving DecidableEq

/-- The role a project grant gives a principal, in increasing order. -/
inductive GrantRole where
  | viewer | worker | maintainer

/-- The functions of an assignment.  The catalog knows four; a request may name
others, which the service refuses. -/
inductive AgentFunction where
  | planner | debugger | reviewer | orchestrator
  | unknown (name : String)
deriving DecidableEq

/-- A queue category of a run. -/
inductive Category where
  | work | maintenance
  | custom (slug : String)
deriving DecidableEq

/-- The durable key under which recurring work is owned. -/
inductive RecurrenceKey where
  | plannerNext (run : Id)
  | plannerActive (run : Id)
  | review (item : Id)
  | maintenance (run digest : Id)
deriving DecidableEq

/-- The name of an automation rule. -/
inductive AutomationName where
  | objectivePlanner | rootMaintainer
  | other (name : String)
deriving DecidableEq

/-! ## Structured columns -/

/-- One repository path of a mission scope; `none` is the whole repository. -/
structure RepositoryScope where
  repositoryId : Id
  path : Option String
deriving DecidableEq

/-- The scope of a mission. -/
structure MissionScope where
  nodeIds : List Id
  documentIds : List Id
  repositoryPaths : List RepositoryScope
deriving DecidableEq

structure RetryPolicy where
  maxRecoveryAttempts : Nat
  initialDelaySeconds : Nat
  maxDelaySeconds : Nat
  maxNoProgressRequests : Nat

/-- The scheduling policy of one queue category. -/
structure QueuePolicy where
  role : Role
  slots : Nat
  maxPending : Nat
  maxSessions : Option Nat
  tokenBudget : Option Nat
  reservedSlots : Nat
  harnessId : Option Id
  retryPolicy : RetryPolicy

/-- A workspace is registered, or allocated to an assignment on a host. -/
inductive WorkspaceId where
  | registered (id : Id)
  | allocated (assignment host : Id)
deriving DecidableEq

/-- The phase of a run, with the inputs its kind needs. -/
inductive RunPhase where
  | preprocessing (roadmapDocumentId : Id)
  | formalization (roadmapSnapshotId : Option Id)
  | postprocessing (sourceWorkspaceId : WorkspaceId) (targetRepositoryId sourceCommitOid : Id)
deriving DecidableEq

/-- The kind of a phase. -/
def RunPhase.kind : RunPhase → PhaseKind
  | .preprocessing _ => .preprocessing
  | .formalization _ => .formalization
  | .postprocessing _ _ _ => .postprocessing

/-- An accepted phase that has not settled: the next phase, or `none` when the
objective is complete, and the session that accepted it. -/
structure PendingPhase where
  next : Option RunPhase
  ownerSessionId : Option Id
deriving DecidableEq

/-- The failure codes the scheduler tells apart. -/
inductive FailureCode where
  | connectionError | rateLimited | providerOverloaded | timeout | hostLost | leaseExpired
  | localOperationTimeout | localExecutionUnavailable | requestDeadline
  | authenticationFailed | invalidConfiguration | storageFull | providerMissing
  | executionFailed | executionStopConfirmed | agentIntentReconciliationStalled
  | other (slug : String)
deriving DecidableEq

inductive FailureKind where
  | provider | transport | host | storage | configuration | execution
deriving DecidableEq

structure Failure where
  kind : FailureKind
  code : FailureCode
  message : String
deriving DecidableEq

/-! ## Identifiers -/

/-- The directory of a workspace, and the branch checked out in it: the one of an
assignment under the host's workspace root, or any other. -/
inductive WorkspacePath where
  | assignment (id : Id)
  | other (path : Id)
deriving DecidableEq

/-- An obligation is recorded, or is the journal blocker of an assignment. -/
inductive ObligationId where
  | recorded (id : Id)
  | journalBlocker (assignment : Id)
deriving DecidableEq

/-- The native identifier of a provider context or call.  Its last path component
may be the label of a prepared review. -/
inductive NativeId where
  | plain (id : Id)
  | reviewLabel (path request : Id)
deriving DecidableEq

/-- The adapter through which a harness runs its provider. -/
inductive Adapter where
  | codexAppServer | codexExec | claudeExec
deriving DecidableEq

/-- Where the state of a provider context is kept: the context of an assignment, a
native child under a parent context, the placeholder of a prepared review, or a
duplicate reconciled into one. -/
inductive StateRef where
  | assignment (id : Id)
  | recovered (id : Id)
  | nativeChild (parent : Id) (adapter : Adapter) (native : NativeId)
  | preparedReview (request : Id)
  | reconciledReview (thread : Id)
deriving DecidableEq

/-- A reference to a stored record.  Records of tables that are not modelled are
referred to by their project. -/
inductive ObjectRef where
  | project (id : Id)
  | mission (id : Id)
  | run (id : Id)
  | assignment (id : Id)
  | obligation (id : ObligationId)
  | node (id : Id)
  | document (id : Id)
  | repository (id : Id)
  | forgeItem (id : Id)
  | external (projectId : Id)
deriving DecidableEq

/-- How a settled obligation was accounted for. -/
inductive Resolution where
  | completed (note : String) (evidence : List ObjectRef)
  | delegated (note : String) (assignmentIds : List Id)
  | scheduled (note : String) (assignmentId : Id)
  | reconsider (note : String) (assignmentId : Id) (evidence : List ObjectRef)
  | superseded (note : String) (replacementObligationIds : List ObligationId)

/-- A start condition: the identity of its canonical expression and the records
it refers to.  What it observes is supplied by the environment. -/
structure Condition where
  expression : Id
  references : List ObjectRef
deriving DecidableEq

/-! ## Rows -/

structure Project where
  id : Id
  workflow : Workflow

structure Document where
  id : Id
  projectId : Id
  kind : DocumentKind
  title : String
  sourceRepositoryId : Id
  sourceCommitOid : Id

structure Node where
  id : Id
  projectId : Id

structure Repository where
  id : Id
  projectId : Id
  purpose : RepositoryPurpose
  archivedAt : Option Instant

structure RoadmapSnapshot where
  id : Id
  projectId : Id
  roadmapDocumentId : Id
  sourceCommitOid : Id
  frozen : Bool

structure Mission where
  id : Id
  revision : Nat
  projectId : Id
  number : Nat
  parentId : Option Id
  roadmapDocumentId : Option Id
  title : String
  objective : String
  status : MissionStatus
  acceptanceCriteria : List String
  delegationNote : Option String
  scope : MissionScope
  maxOpenChildren : Nat
  closedAt : Option Instant
  closureNote : Option String
deriving DecidableEq

structure MissionNode where
  missionId : Id
  nodeId : Id

structure MissionDocument where
  missionId : Id
  documentId : Id

structure Run where
  id : Id
  revision : Nat
  missionId : Id
  phase : RunPhase
  objectiveId : Option Id
  orchestration : Orchestration
  queuePolicies : List (Category × QueuePolicy)
  requestedPhases : List PhaseKind
  phaseHistory : List (RunPhase × String)
  pendingPhase : Option PendingPhase
  autoAdvance : Bool
  adoptedRoadmapSnapshotId : Option Id
  status : RunStatus
  statusNote : Option String
  finishedAt : Option Instant
  maxAssignments : Option Nat
  tokenBudget : Option Nat
  expiresAt : Option Instant
  retryPolicy : RetryPolicy

structure RunHost where
  runId : Id
  hostId : Id
  enabled : Bool

structure Automation where
  id : Id
  revision : Nat
  updatedAt : Instant
  runId : Id
  name : AutomationName
  missionId : Id
  frontierHash : Option Id
  pauseReason : Option String
  role : Role
  functions : List AgentFunction
  enabled : Bool
  startCondition : Option Condition
  notBefore : Option Instant
  cooldownSeconds : Nat
  noProgressCount : Nat

structure Assignment where
  id : Id
  revision : Nat
  createdAt : Instant
  runId : Id
  number : Nat
  missionId : Id
  category : Option Category
  recurrenceKey : Option RecurrenceKey
  pauseReason : Option String
  parentId : Option Id
  automationId : Option Id
  reviewerDescriptorId : Option Id
  role : Role
  functions : List AgentFunction
  harnessId : Option Id
  status : AssignmentStatus
  statusNote : Option String
  queueRank : Int
  notBefore : Option Instant
  expiresAt : Option Instant
  startCondition : Option Condition
  checkpointRequestedAt : Option Instant
  retryAt : Option Instant
  startedAt : Option Instant
  finishedAt : Option Instant
  recoveryAttempts : Nat

structure Execution where
  id : Id
  revision : Nat
  assignmentId : Id
  number : Nat
  hostId : Id
  workspaceId : WorkspaceId
  harnessId : Id
  nativeCapacity : Option Nat
  status : ExecutionStatus
  leaseExpiresAt : Instant
  heartbeatAt : Option Instant
  startedAt : Option Instant
  finishedAt : Option Instant
  stopConfirmedAt : Option Instant
  failure : Option Failure
deriving DecidableEq

/-- The revisions that the input of a request was prepared from. -/
structure InputRevisions where
  /-- The mission and the number of its revision. -/
  mission : Option (Id × Nat) := none
  run : Option Nat := none
  roadmapSnapshotId : Option Id := none
deriving DecidableEq

structure ProviderThread where
  id : Id
  revision : Nat
  updatedAt : Instant
  assignmentId : Id
  number : Nat
  kind : ThreadKind
  parentRequestId : Option Id
  workspaceId : WorkspaceId
  label : Option String
  description : Option String
  /-- The harness whose pinned revision the context was created with. -/
  harnessId : Id
  /-- The adapter of that pinned revision. -/
  adapter : Adapter
  providerThreadId : Option NativeId
  providerStateRef : StateRef
  predecessorId : Option Id
  status : ThreadStatus
  /-- The latest revisions that a completed request consumed. -/
  applied : InputRevisions := {}

structure ProviderRequest where
  id : Id
  createdAt : Instant
  providerThreadId : Id
  executionId : Id
  number : Nat
  reason : RequestReason
  reviewerDescriptorId : Option Id
  providerTurnId : Option NativeId
  nativeBackground : Option Bool
  status : RequestStatus
  submittedAt : Option Instant
  startedAt : Option Instant
  finishedAt : Option Instant
  failure : Option Failure
  input : InputRevisions := {}

structure Obligation where
  id : ObligationId
  revision : Nat
  updatedAt : Instant
  assignmentId : Id
  createdByExecutionId : Option Id
  number : Nat
  kind : ObligationKind
  description : String
  status : ObligationStatus
  resolution : Option Resolution

/-- The progress watch of a legacy run. -/
structure RunCoordination where
  runId : Id
  frontierHash : Id
  lastProgressAt : Instant
  checkedAt : Instant
  auditObligationId : Option ObligationId
  auditFrontierHash : Option Id

structure ForgeItem where
  id : Id
  repositoryId : Id
  originRunId : Option Id
  reviewPhase : Option PhaseKind
  status : ItemStatus
  awaitingReview : Bool
  fingerprint : Id

structure ReviewDemand where
  forgeItemId : Id
  runId : Id
  assignmentId : Option Id
  fingerprint : Id
  generation : Nat
  ownerGeneration : Nat
  handledGeneration : Nat
  attention : Bool
  observedLabel : Bool

structure Host where
  id : Id
  mode : HostMode
  /-- Whether the reported health status is a storage or resource pressure. -/
  pressure : Bool
  /-- Whether the host advertises workspace preparation, version 1. -/
  canPrepareWorkspace : Bool
  heartbeatAt : Option Instant

structure Harness where
  id : Id
  adapter : Adapter
  enabled : Bool

structure HostHarness where
  hostId : Id
  harnessId : Id
  enabled : Bool
  executionSlots : Nat
  maxParallelSubagents : Option Nat
  credentialRef : Id

structure Workspace where
  id : WorkspaceId
  projectId : Id
  hostId : Id
  repositoryId : Id
  path : WorkspacePath
  branchName : WorkspacePath
  baseCommitOid : Id
  headCommitOid : Option Id
  status : WorkspaceStatus

structure ResourceLimit where
  id : Id
  kind : LimitKind
  /-- The slug, or the credential an automatic provider guard stands for. -/
  slug : Id
  maxConcurrent : Option Nat
  cooldownUntil : Option Instant
  failureCount : Nat
  circuitOpen : Bool
deriving DecidableEq

structure HostHarnessLimit where
  hostId : Id
  harnessId : Id
  resourceLimitId : Id

structure ResourceClaim where
  id : Id
  resourceLimitId : Id
  executionId : Id
  providerRequestId : Option Id
  units : Nat
  releasedAt : Option Instant
deriving DecidableEq

structure Principal where
  id : Id
  kind : PrincipalKind
  executionId : Option Id
  /-- Whether this is the principal of the scheduler service. -/
  scheduler : Bool

structure SystemGrant where
  principalId : Id

structure ProjectGrant where
  principalId : Id
  projectId : Id
  role : GrantRole

/-! ## The database -/

/-- The modelled tables. -/
inductive TableName where
  | project | document | node | repository | roadmapSnapshot
  | mission | missionNode | missionDocument
  | run | runHost | automation | assignment | execution
  | providerThread | providerRequest | obligation | runCoordination
  | forgeItem | reviewDemand
  | host | harness | hostHarness | workspace
  | resourceLimit | hostHarnessLimit | resourceClaim
  | principal | systemGrant | projectGrant
deriving DecidableEq

/-- The rows of a table. -/
abbrev Row : TableName → Type
  | .project => Project
  | .document => Document
  | .node => Node
  | .repository => Repository
  | .roadmapSnapshot => RoadmapSnapshot
  | .mission => Mission
  | .missionNode => MissionNode
  | .missionDocument => MissionDocument
  | .run => Run
  | .runHost => RunHost
  | .automation => Automation
  | .assignment => Assignment
  | .execution => Execution
  | .providerThread => ProviderThread
  | .providerRequest => ProviderRequest
  | .obligation => Obligation
  | .runCoordination => RunCoordination
  | .forgeItem => ForgeItem
  | .reviewDemand => ReviewDemand
  | .host => Host
  | .harness => Harness
  | .hostHarness => HostHarness
  | .workspace => Workspace
  | .resourceLimit => ResourceLimit
  | .hostHarnessLimit => HostHarnessLimit
  | .resourceClaim => ResourceClaim
  | .principal => Principal
  | .systemGrant => SystemGrant
  | .projectGrant => ProjectGrant

/-- The primary keys of a table. -/
abbrev Key : TableName → Type
  | .workspace => WorkspaceId
  | .obligation => ObligationId
  | .missionNode | .missionDocument | .runHost | .hostHarness | .projectGrant => Id × Id
  | .hostHarnessLimit => Id × Id × Id
  | _ => Id

instance : (t : TableName) → DecidableEq (Key t)
  | .workspace => inferInstanceAs (DecidableEq WorkspaceId)
  | .obligation => inferInstanceAs (DecidableEq ObligationId)
  | .missionNode | .missionDocument | .runHost | .hostHarness | .projectGrant =>
    inferInstanceAs (DecidableEq (Id × Id))
  | .hostHarnessLimit => inferInstanceAs (DecidableEq (Id × Id × Id))
  | .project | .document | .node | .repository | .roadmapSnapshot | .mission | .run
  | .automation | .assignment | .execution | .providerThread | .providerRequest
  | .runCoordination | .forgeItem | .reviewDemand | .host | .harness | .resourceLimit
  | .resourceClaim | .principal | .systemGrant => inferInstanceAs (DecidableEq Id)

/-- The primary key of a row. -/
abbrev key : (t : TableName) → Row t → Key t
  | .project => Project.id
  | .document => Document.id
  | .node => Node.id
  | .repository => Repository.id
  | .roadmapSnapshot => RoadmapSnapshot.id
  | .mission => Mission.id
  | .missionNode => fun r => (r.missionId, r.nodeId)
  | .missionDocument => fun r => (r.missionId, r.documentId)
  | .run => Run.id
  | .runHost => fun r => (r.runId, r.hostId)
  | .automation => Automation.id
  | .assignment => Assignment.id
  | .execution => Execution.id
  | .providerThread => ProviderThread.id
  | .providerRequest => ProviderRequest.id
  | .obligation => Obligation.id
  | .runCoordination => RunCoordination.runId
  | .forgeItem => ForgeItem.id
  | .reviewDemand => ReviewDemand.forgeItemId
  | .host => Host.id
  | .harness => Harness.id
  | .hostHarness => fun r => (r.hostId, r.harnessId)
  | .workspace => Workspace.id
  | .resourceLimit => ResourceLimit.id
  | .hostHarnessLimit => fun r => (r.hostId, r.harnessId, r.resourceLimitId)
  | .resourceClaim => ResourceClaim.id
  | .principal => Principal.id
  | .systemGrant => SystemGrant.principalId
  | .projectGrant => fun r => (r.principalId, r.projectId)

/-- A database state. -/
abbrev DB := Database key

end Horizon
