import Horizon.Persistence.Records
import Mathlib.Data.List.Sort

/-!
# Review decisions

`review/decisions.py` and the panel of `projects/milestones.py`: which reviews of a pull
request count for its current head, what a review policy still misses, and when a merge may be
queued.

A delivered review is a row of `forge_review` together with the payload of the operation that
delivered it.  The panel reads both, and the descriptors, revisions, requests, checks and
artifacts they refer to, which other parts of the control plane write; these are collected in
`Records`.  Commits are compared only, and are identifiers here.
-/

namespace Horizon.Forge

/-! ## Records -/

inductive ItemKind where
  | pullRequest | issue
deriving DecidableEq

/-- A row of `forge_item`. -/
structure Item where
  id : Id
  repositoryId : Id
  remoteNumber : Nat
  kind : ItemKind
  originRunId : Option Id
  reviewPhase : Option PhaseKind
  targetBranch : Option String
  status : ItemStatus
  headCommitOid : Option Id

inductive Verdict where
  | approved | changesRequested | commented | dismissed
deriving DecidableEq

/-- A row of `forge_review`. -/
structure Review where
  id : Id
  createdAt : Instant
  forgeItemId : Id
  remoteId : Id
  reviewerDescriptorId : Option Id
  reviewerDescriptorRevisionId : Option Id
  providerRequestId : Option Id
  verdict : Verdict
  summary : String
  commitOid : Id
  observedAt : Instant

inductive GateStatus where
  | pending | accepted | rejected | stale
deriving DecidableEq

/-- A row of `review_gate`, of which an item has at most one. -/
structure Gate where
  id : Id
  forgeItemId : Id
  policyId : Id
  policyRevisionId : Id
  maintainerReviewId : Option Id
  status : GateStatus
  acceptedCommitOid : Option Id

inductive SpecialistMode where
  | required | advisory
deriving DecidableEq

/-- A row of `review_policy`, with its repositories and reviewers. -/
structure Policy where
  id : Id
  revision : Nat
  projectId : Id
  enabled : Bool
  phases : List PhaseKind
  specialistMode : SpecialistMode
  maintainerIdentityId : Option Id
  repositoryIds : List Id
  reviewerIds : List Id
deriving DecidableEq

/-- A row of `reviewer_descriptor`, with its guidance documents at their revisions. -/
structure Descriptor where
  id : Id
  revision : Nat
  projectId : Id
  slug : String
  enabled : Bool
  guidance : List (Id × Nat)
deriving DecidableEq

/-- A row of `record_revision`: the policy its reference names, if it names one, and the
identifier in its content. -/
structure Revision where
  id : Id
  reviewPolicyId : Option Id
  objectRevision : Nat
  contentId : Id

/-- A review invocation, a row of `provider_request`. -/
structure Request where
  id : Id
  status : RequestStatus
  reason : RequestReason
  reviewerDescriptorId : Option Id
  reviewerDescriptorRevisionId : Option Id
  guidanceManifestArtifactId : Option Id

inductive CheckKind where
  | route | contract | graph | proof | library
deriving DecidableEq

/-- A row of `milestone_check`, with what its report says of ancestors and milestones. -/
structure Check where
  id : Id
  createdAt : Instant
  repositoryId : Id
  sourceCommitOid : Id
  baseCommitOid : Id
  kind : CheckKind
  ancestorCommits : List Id
  milestoneKeys : List String

structure Artifact where
  id : Id
  projectId : Id
  isBlob : Bool
  sha256 : Option String

structure Identity where
  id : Id
  integrationId : Id
  remoteUserId : Id
  enabled : Bool

structure Repository where
  id : Id
  projectId : Id
  integrationId : Id
  purpose : RepositoryPurpose

/-- What the panel reads besides items, reviews and gates. -/
structure Records where
  projects : List Project := []
  repositories : List Repository := []
  policies : List Policy := []
  descriptors : List Descriptor := []
  revisions : List Revision := []
  requests : List Request := []
  checks : List Check := []
  artifacts : List Artifact := []
  identities : List Identity := []
  /-- The runs that review demands are bound to, by item. -/
  demandRuns : List (Id × Id) := []
  /-- The runs with an objective orchestration. -/
  objectiveRuns : List Id := []

/-! ## Payloads -/

/-- `ReviewCarryForwardEvidence`. -/
structure Evidence where
  forgeItemId : Id
  sourceReviewId : Id
  sourceCommitOid : Id
  headCommitOid : Id
  targetBranch : String
  baseCommitOid : Id

/-- An approval of an earlier head that a maintainer reuses. -/
structure Carry where
  sourceReviewId : Id
  evidenceArtifactId : Id
  evidenceSha256 : String
  evidence : Evidence
  reviewerDescriptorId : Id
  reviewerDescriptorRevisionId : Id
  guidanceRevisions : List (Id × Nat)
  policyRevisionId : Option Id

/-- The payload of a `forge_review` operation. -/
structure Payload where
  forgeItemId : Id
  commitOid : Id
  summary : String
  historical : Bool := false
  reviewerSubmission : Bool := false
  targetBranch : Option String
  policyRevisionId : Option Id
  reviewerDescriptorId : Option Id := none
  reviewerDescriptorRevisionId : Option Id := none
  providerRequestId : Option Id := none
  integrationIdentityId : Option Id := none
  /-- Whether the reviewer followed a review plan, which pins a target base. -/
  reviewPlan : Bool := false
  reviewBaseVerified : Bool := false
  expectedBaseOid : Option Id := none
  /-- The reviews whose findings the assessment resolves. -/
  resolutions : List Id := []
  carryForwardEvidence : Option (List Carry) := none

/-- A completed `forge_review` operation with the review it resulted in. -/
structure Delivered where
  operationId : Id
  createdAt : Instant
  payload : Payload
  reviewId : Id

end Forge

/-- The Forge items of an installation with their reviews and gates. -/
structure Forge where
  records : Forge.Records
  items : Table Forge.Item.id
  reviews : Table Forge.Review.id
  deliveries : List Forge.Delivered
  gates : Table Forge.Gate.forgeItemId

namespace Forge

/-! ## Reading records -/

/-- `get`: the record with an identifier. -/
def fetch {α : Type} (kind : String) (id : α → Id) (rows : List α) (identifier : Id) :
    Except Error α :=
  match rows.find? fun r => id r = identifier with
  | some r => .ok r
  | none => refuse .notFound (kind ++ " was not found") 404

/-- `get` of a reference that may be missing. -/
def fetchSome {α : Type} (kind : String) (id : α → Id) (rows : List α) : Option Id → Except Error α
  | some identifier => fetch kind id rows identifier
  | none => refuse .invalidIdentifier "Record identifier must be a UUID" 422

namespace Records

variable (r : Records)

def project (id : Id) : Except Error Project := fetch "Project" Project.id r.projects id

def repository (id : Id) : Except Error Repository :=
  fetch "Repository" Repository.id r.repositories id

def policy (id : Id) : Except Error Policy := fetch "Review policy" Policy.id r.policies id

def descriptor (id : Option Id) : Except Error Descriptor :=
  fetchSome "Reviewer descriptor" Descriptor.id r.descriptors id

def revision (id : Option Id) : Except Error Revision :=
  fetchSome "Record revision" Revision.id r.revisions id

def request (id : Option Id) : Except Error Request :=
  fetchSome "Provider request" Request.id r.requests id

/-- Whether a repository is the roadmap of a project that keeps the milestone workflow
(`milestones.enabled`). -/
def isMilestoneRoadmap (repo : Repository) : Except Error Bool :=
  if repo.purpose ≠ .knowledge then pure false
  else do
    let project ← r.project repo.projectId
    pure (project.workflow == .milestones)

/-- `head_check`: the latest check of the item's head that is not a proof check. -/
def headCheck (item : Item) : Option Check :=
  ((r.checks.filter fun c => c.repositoryId = item.repositoryId
      ∧ some c.sourceCommitOid = item.headCommitOid ∧ c.kind ≠ .proof).insertionSort
    fun c c' => c'.createdAt ≤ c.createdAt).head?

/-- The enabled reviewers of a policy, by their slugs. -/
def required (policy : Policy) : List Descriptor :=
  (r.descriptors.filter fun d => d.id ∈ policy.reviewerIds ∧ d.enabled).insertionSort
    fun d d' => d.slug ≤ d'.slug

end Records

/-! ## Texts -/

/-- Whether a text occurs in another. -/
def occursIn (sub : List Char) : List Char → Bool
  | [] => sub.isEmpty
  | c :: cs => sub.isPrefixOf (c :: cs) || occursIn sub cs

/-- Whether a slug is a perspective, possibly with a preset prefix. -/
def isPerspective (name slug : String) : Bool :=
  slug == name || ("-" ++ name).toList.isSuffixOf slug.toList

def historicalMarker : String := "**Historical reviewer feedback:**"

/-- Whether a review only preserves findings on an earlier revision. -/
def Review.isHistorical (row : Review) : Bool :=
  occursIn historicalMarker.toList row.summary.toList

/-! ## Review histories -/

/-- The order of a history: newest first. -/
def Review.notBefore (row row' : Review) : Bool :=
  decide (row'.observedAt < row.observedAt ∨ (row'.observedAt = row.observedAt
    ∧ (row'.createdAt < row.createdAt ∨ (row'.createdAt = row.createdAt ∧ row'.id ≤ row.id))))

/-- The first review of every descriptor. -/
def firstOfEach : List Review → List Review
  | [] => []
  | row :: rows =>
    row :: (firstOfEach rows).filter fun row' =>
      row'.reviewerDescriptorId ≠ row.reviewerDescriptorId

/-- `_latest_current_reviews`: for every descriptor its latest review of the head. -/
def latestCurrentReviews (item : Item) (rows : List Review) : List Review :=
  firstOfEach (rows.filter fun row => some row.commitOid = item.headCommitOid
    ∧ row.reviewerDescriptorId.isSome ∧ row.isHistorical = false)

/-- `_current_approval`. -/
def currentApproval (r : Records) (row : Review) (payload : Option Payload) (item : Item)
    (policy : Policy) (carried : Bool) : Except Error Bool :=
  match payload with
  | none => pure false
  | some payload =>
    if row.verdict ≠ .approved ∨ (carried = false ∧ some row.commitOid ≠ item.headCommitOid)
        ∨ row.providerRequestId = none ∨ row.reviewerDescriptorRevisionId = none
        ∨ row.isHistorical = true then
      pure false
    else do
      let descriptor ← r.descriptor row.reviewerDescriptorId
      let revision ← r.revision row.reviewerDescriptorRevisionId
      let request ← r.request row.providerRequestId
      if descriptor.enabled = false ∨ revision.objectRevision ≠ descriptor.revision
          ∨ request.status ≠ .completed ∨ request.reason ≠ .review
          ∨ request.reviewerDescriptorId ≠ some descriptor.id
          ∨ request.reviewerDescriptorRevisionId ≠ some revision.id
          ∨ request.guidanceManifestArtifactId = none ∨ payload.policyRevisionId = none then
        pure false
      else
        let policyRevision ← r.revision payload.policyRevisionId
        pure (!payload.historical && payload.targetBranch == item.targetBranch
          && policyRevision.contentId == policy.id
          && policyRevision.objectRevision == policy.revision
          && (!payload.reviewPlan || payload.reviewBaseVerified))

/-! ## Panels -/

/-- What a policy requires of an item, and what is missing. -/
structure Panel where
  required : List String
  reviewed : List String
  missing : List String
  carriedForward : List String := []
  invalidCarryForward : List Error := []
  checkId : Option Id := none
  baseCommitOid : Option Id := none
  unresolvedReviewIds : List Id := []

/-- Whether more than one base is named. -/
def disagree (bases : List Id) : Bool := bases.any fun base => bases.any fun base' => base ≠ base'

/-- The base that is named, if it is the only one. -/
def onlyBase (bases : List Id) : Option Id := if disagree bases then none else bases.head?

def differentBases : String := "<reviewers inspected different target bases>"

variable (s : Forge) (item : Item) (policy : Policy) (checked : Check)

/-- The rows of `_review_history`. -/
def historyOf : List Review :=
  (s.reviews.rows.filter fun row => row.forgeItemId = item.id).insertionSort
    fun row row' => row.notBefore row'

/-- The payloads of `_review_history`. -/
def payloadOf (reviewId : Id) : Option Payload :=
  (s.deliveries.reverse.find? fun d => d.reviewId = reviewId).map Delivered.payload

/-- Whether a review confirms that an objection is resolved. -/
def resolves (row objection : Review) : Bool :=
  match s.payloadOf row.id with
  | none => false
  | some payload => payload.resolutions.contains objection.id
    && objection.reviewerDescriptorId == row.reviewerDescriptorId
    && decide (objection.observedAt ≤ row.observedAt)

/-- Whether a review is a reviewer's own current approval, of the head or carried forward. -/
def confirms (latestIds carriedReviewIds : List Id) (row : Review) : Except Error Bool :=
  if row.id ∉ latestIds ∧ row.id ∉ carriedReviewIds then pure false
  else match s.payloadOf row.id with
    | none => pure false
    | some payload =>
      if payload.reviewerSubmission then
        currentApproval s.records row (some payload) item policy (carriedReviewIds.contains row.id)
      else pure false

/-- `_unresolved_reviews`: an objection survives a push until its reviewer confirms that it is
resolved. -/
def unresolvedReviews (carriedReviewIds : List Id) : Except Error (List Id) := do
  let rows := s.historyOf item
  let objections := rows.filter fun row => row.verdict = .changesRequested
    ∧ row.reviewerDescriptorId.isSome
  if objections.isEmpty then pure []
  else
    let latestIds := (latestCurrentReviews item rows).map Review.id
    let confirming ← rows.filterM (s.confirms item policy latestIds carriedReviewIds)
    let unresolved := objections.filter fun objection => !confirming.any (s.resolves · objection)
    pure ((unresolved.map Review.id).insertionSort (· ≤ ·))

/-- Whether a review is a current approval that pins a target base by its plan. -/
def pinsBase (row : Review) : Except Error Bool :=
  match s.payloadOf row.id with
  | none => pure false
  | some payload =>
    if payload.reviewPlan ∧ payload.expectedBaseOid ≠ none then
      currentApproval s.records row (some payload) item policy false
    else pure false

/-- The base that the delivery of a review pins. -/
def baseOf (row : Review) : Option Id := (s.payloadOf row.id).bind Payload.expectedBaseOid

/-- `_with_findings`. -/
def withFindings (panel : Panel) (item : Item) (policy : Policy) (carriedReviewIds : List Id) :
    Except Error Panel := do
  let unresolved ← s.unresolvedReviews item policy carriedReviewIds
  let pinning ← (latestCurrentReviews item (s.historyOf item)).filterM (s.pinsBase item policy)
  let bases := panel.baseCommitOid.toList ++ pinning.filterMap s.baseOf
  let missing :=
    if disagree bases ∧ differentBases ∉ panel.missing then panel.missing ++ [differentBases]
    else panel.missing
  pure { panel with
    unresolvedReviewIds := unresolved
    baseCommitOid := onlyBase bases
    missing := missing ++ unresolved.map fun id => "unresolved-review:" ++ toString id }

/-! ## Approvals carried forward -/

/-- `_carry_source`. -/
def carrySource (sourceId : Id) : Except Error (Review × Descriptor) := do
  let source ← fetch "Forge review" Review.id s.reviews.rows sourceId
  refuseIf (source.forgeItemId ≠ item.id ∨ source.verdict ≠ .approved
      ∨ source.reviewerDescriptorId = none ∨ source.providerRequestId = none
      ∨ source.reviewerDescriptorRevisionId = none ∨ source.isHistorical)
    .reviewCarryInvalid "Reuse requires a same-PR, nonhistorical specialist approval" 409
  let descriptor ← s.records.descriptor source.reviewerDescriptorId
  let revision ← s.records.revision source.reviewerDescriptorRevisionId
  refuseIf (descriptor.enabled = false ∨ revision.objectRevision ≠ descriptor.revision
      ∨ revision.contentId ≠ descriptor.id ∨ descriptor.projectId ≠ policy.projectId
      ∨ descriptor.id ∉ policy.reviewerIds)
    .reviewCarryStale "The specialist rubric or required panel changed; obtain a fresh review" 409
  let request ← s.records.request source.providerRequestId
  refuseIf (request.status ≠ .completed ∨ request.reason ≠ .review
      ∨ request.reviewerDescriptorId ≠ some descriptor.id
      ∨ request.reviewerDescriptorRevisionId ≠ some revision.id
      ∨ request.guidanceManifestArtifactId = none)
    .reviewCarryInvalid
    "The original specialist invocation is not completed with pinned provenance" 409
  let latest := (s.historyOf item).find? fun row =>
    row.reviewerDescriptorId = some descriptor.id ∧ row.isHistorical = false
  refuseIf (latest.map Review.id ≠ some source.id)
    .reviewCarrySuperseded
    "A later specialist review supersedes this approval; reconcile its findings" 409
  pure (source, descriptor)

/-- Whether two tables of guidance revisions are the same. -/
def sameGuidance (l l' : List (Id × Nat)) : Bool := l.all l'.contains && l'.all l.contains

/-- One approval of `_validate_carries`: its descriptor and the base it was compared with. -/
def validateCarry (carry : Carry) : Except Error (Id × Id) := do
  let (source, descriptor) ← s.carrySource item policy carry.sourceReviewId
  let artifact ← fetch "Artifact" Artifact.id s.records.artifacts carry.evidenceArtifactId
  refuseIf (artifact.projectId ≠ descriptor.projectId)
    .scopeMismatch "Referenced records must belong to the same project" 422
  let policyRevision ← s.records.revision carry.policyRevisionId
  refuseIf (artifact.isBlob = false ∨ artifact.sha256 ≠ some carry.evidenceSha256
      ∨ policyRevision.objectRevision ≠ policy.revision ∨ policyRevision.contentId ≠ policy.id
      ∨ source.reviewerDescriptorRevisionId ≠ some carry.reviewerDescriptorRevisionId
      ∨ descriptor.id ≠ carry.reviewerDescriptorId
      ∨ sameGuidance descriptor.guidance carry.guidanceRevisions = false
      ∨ carry.evidence.forgeItemId ≠ item.id ∨ carry.evidence.sourceReviewId ≠ source.id
      ∨ carry.evidence.sourceCommitOid ≠ source.commitOid
      ∨ some carry.evidence.headCommitOid ≠ item.headCommitOid
      ∨ some carry.evidence.targetBranch ≠ item.targetBranch)
    .reviewCarryStale "Carry-forward evidence no longer matches the PR, rubric or policy" 409
  pure (descriptor.id, carry.evidence.baseCommitOid)

/-- The loop of `_validate_carries` over descriptors that were seen and their base. -/
def validateEach (item : Item) (policy : Policy) :
    List Carry → List Id → Option Id → Except Error (List Id × Option Id)
  | [], descriptors, base => pure (descriptors, base)
  | carry :: carries, descriptors, base => do
    let (descriptorId, carryBase) ← s.validateCarry item policy carry
    refuseIf (descriptorId ∈ descriptors ∨ (base ≠ none ∧ base ≠ some carryBase))
      .reviewCarryInvalid "Reuse dimensions must be distinct and inspect one target base" 422
    validateEach item policy carries (descriptorId :: descriptors) (some carryBase)

/-- `_validate_carries`. -/
def validateCarries (carries : List Carry) : Except Error (List Id × Option Id) := do
  refuseIf (policy.enabled = false ∨ ∀ phase ∈ policy.phases, item.reviewPhase ≠ some phase)
    .reviewCarryStale "Review policy is no longer applicable" 409
  s.validateEach item policy carries [] none

/-- The reviews that deliver the carried approvals of an accepted gate. -/
def carriedDeliveries : List (Review × Delivered) :=
  s.deliveries.flatMap fun d => (s.reviews.rows.filter fun row => row.id = d.reviewId
    ∧ d.payload.carryForwardEvidence ≠ none
    ∧ (s.gates.rows.any fun gate => gate.maintainerReviewId == some row.id
        && gate.policyId == policy.id && gate.status == .accepted)
    ∧ row.forgeItemId = item.id ∧ some row.commitOid = item.headCommitOid
    ∧ row.reviewerDescriptorId = none ∧ row.verdict = .approved
    ∧ d.payload.targetBranch = item.targetBranch).map (·, d)

/-- `carried_review_payload`: reuse is authoritative only after its maintainer assessment
reached Forge. -/
def carriedReviewPayload : Option Payload :=
  ((s.carriedDeliveries item policy).insertionSort fun p p' =>
      p'.1.observedAt < p.1.observedAt
        ∨ (p'.1.observedAt = p.1.observedAt ∧ p'.2.createdAt ≤ p.2.createdAt)).head?.map
    fun p => p.2.payload

/-! ## Milestone panels -/

/-- Whether a descriptor covers its perspective: its latest review of the head is a current
approval that could be carried. -/
def coversPerspective (d : Descriptor) : Bool :=
  let latest := (s.historyOf item).find? fun row =>
    some row.commitOid = item.headCommitOid ∧ row.reviewerDescriptorId = some d.id
  match latest with
  | none => false
  | some row =>
    match s.carrySource item policy row.id,
        currentApproval s.records row (s.payloadOf row.id) item policy false with
    | .ok _, .ok true => true
    | _, _ => false

/-- `CONTRACT_REVIEWERS`, or the reviewers of a route. -/
def perspectives : CheckKind → List String
  | .route => ["decomposition"]
  | _ => ["decomposition", "definitions", "library-api", "statement-fidelity"]

/-- The specialist part of `milestones.review_panel`. -/
def perspectivePanel (routeMissing : List String) : Panel :=
  let names := perspectives checked.kind
  let covered := names.filter fun name => (s.records.required policy).any fun d =>
    isPerspective name d.slug && s.coversPerspective item policy d
  { required := names ++ routeMissing
    reviewed := covered
    missing := names.filter (fun name => !covered.contains name) ++ routeMissing
    checkId := some checked.id
    baseCommitOid := some checked.baseCommitOid }

/-- A panel of which a check is all that is required. -/
def checkedPanel : Panel :=
  { required := [], reviewed := [], missing := [], checkId := some checked.id,
    baseCommitOid := some checked.baseCommitOid }

/-- The panel of a route, which needs no other pull request. -/
def routePanel : Panel :=
  match policy.specialistMode with
  | .advisory => checkedPanel checked
  | .required => s.perspectivePanel item policy checked []

/-- `accepted_gate` of a route that covers the milestones of a contract. -/
def isAcceptedRoute (repositoryId : Id) (checked : Check) (gate : Gate) : Bool :=
  match s.items.find? gate.forgeItemId, s.records.policy gate.policyId,
      s.records.revision (some gate.policyRevisionId) with
  | some item, .ok policy, .ok revision =>
    item.repositoryId == repositoryId && item.status == .merged && gate.status == .accepted
      && gate.acceptedCommitOid == item.headCommitOid
      && (checked.ancestorCommits.any fun commit => item.headCommitOid == some commit)
      && match s.records.headCheck item with
        | none => false
        | some route => route.kind == .route && policy.enabled
          && revision.objectRevision == policy.revision
          && (s.routePanel item policy route).missing.isEmpty
          && checked.milestoneKeys.all route.milestoneKeys.contains
  | _, _, _ => false

/-- `milestones.review_panel`: the panel of a roadmap in a project that keeps the milestone
workflow. -/
def milestonePanel : Except Error (Option Panel) := do
  let repo ← s.records.repository item.repositoryId
  let strict ← s.records.isMilestoneRoadmap repo
  if strict = false then pure none
  else match s.records.headCheck item with
    | none => pure (some
        { required := ["milestone-check"], reviewed := [], missing := ["milestone-check"] })
    | some checked =>
      if policy.specialistMode = .advisory ∨ checked.kind = .graph then
        pure (some (checkedPanel checked))
      else
        let routeMissing :=
          if checked.kind = .contract
            ∧ (s.gates.rows.any (s.isAcceptedRoute repo.id checked)) = false then
            ["accepted-route"]
          else []
        pure (some (s.perspectivePanel item policy checked routeMissing))

/-! ## The panel of a repository -/

/-- The approvals of a delivered payload that are carried forward: their descriptors, the base
they were compared with, their reviews, and the error of those that are not valid. -/
def carriedForward (payload : Option Payload) : List Id × Option Id × List Id × List Error :=
  match payload.bind Payload.carryForwardEvidence with
  | none | some [] => ([], none, [], [])
  | some carries =>
    match s.validateCarries item policy carries with
    | .ok (descriptors, base) => (descriptors, base, carries.map Carry.sourceReviewId, [])
    | .error e => ([], none, [], [e])

/-- The panel of selected reviewers for a post-processing item. -/
def postprocessingPanel (checked : Option Check)
    (payload : Option Payload) : Except Error Panel := do
  let required := s.records.required policy
  let latest := latestCurrentReviews item (s.historyOf item)
  let approving ← latest.filterM fun row =>
    currentApproval s.records row (s.payloadOf row.id) item policy false
  let (carried, carryBase, carriedReviewIds, invalid) := s.carriedForward item policy payload
  let bases := approving.filterMap s.baseOf ++ (checked.map Check.baseCommitOid).toList
    ++ carryBase.toList
  let covers (d : Descriptor) : Bool :=
    approving.any (·.reviewerDescriptorId == some d.id) || carried.contains d.id
  let missing := if required.isEmpty then
      ["<no enabled post-processing reviewer descriptors configured>"]
    else (required.filter fun d => !covers d).map Descriptor.slug
  s.withFindings
    { required := required.map Descriptor.slug
      reviewed := (required.filter covers).map Descriptor.slug
      missing := if disagree bases then missing ++ [differentBases] else missing
      carriedForward := (required.filter fun d => carried.contains d.id).map Descriptor.slug
      invalidCarryForward := invalid
      checkId := checked.map Check.id
      baseCommitOid := onlyBase bases } item policy carriedReviewIds

/-- Whether the library check of an item's head is required: its review belongs to an
objective. -/
def needsLibraryCheck (repo : Repository) : Bool :=
  let reviewRun :=
    ((s.records.demandRuns.find? fun p => p.1 = item.id).map Prod.snd).or item.originRunId
  repo.purpose == .library && reviewRun.any s.records.objectiveRuns.contains

/-- The check of the head, where it is required. -/
def libraryCheck (repo : Repository) : Option Check :=
  if s.needsLibraryCheck item repo then s.records.headCheck item else none

/-- `repository_review_panel`. -/
def repositoryReviewPanel (deliveredPayload : Option Payload) : Except Error Panel := do
  let repo ← s.records.repository item.repositoryId
  let checked := s.libraryCheck item repo
  if s.needsLibraryCheck item repo ∧ checked.all (·.kind ≠ .library) then
    s.withFindings { required := ["library-check"], reviewed := [], missing := ["library-check"] }
      item policy []
  else if policy.specialistMode = .advisory then
    let strict ← s.records.isMilestoneRoadmap repo
    let checked := if strict then s.records.headCheck item else checked
    s.withFindings
      { required := []
        reviewed := []
        missing := if strict && checked.isNone then ["milestone-check"] else []
        checkId := checked.map Check.id
        baseCommitOid := checked.map Check.baseCommitOid } item policy []
  else
    match ← s.milestonePanel item policy with
    | some panel => s.withFindings panel item policy []
    | none =>
      if item.reviewPhase ≠ some .postprocessing then
        s.withFindings { required := [], reviewed := [], missing := [] } item policy []
      else
        s.postprocessingPanel item policy checked
          (deliveredPayload.or (s.carriedReviewPayload item policy))

/-- Whether a panel leaves nothing open. -/
def Panel.isComplete (panel : Panel) : Bool :=
  panel.missing.isEmpty && panel.invalidCarryForward.isEmpty

/-- `review_readiness`: the policy that applies to an item, if there is just one, and whether
its panel is complete. -/
def reviewReadiness (deliveredPayload : Option Payload) : Except Error (Option Policy × Bool) :=
  match s.records.policies.filter fun policy => item.repositoryId ∈ policy.repositoryIds
      ∧ policy.enabled ∧ ∃ phase ∈ policy.phases, item.reviewPhase = some phase with
  | [policy] => do
    let panel ← s.repositoryReviewPanel item policy deliveredPayload
    pure (some policy, panel.isComplete)
  | _ => pure (none, false)

/-! ## Queueing a merge -/

/-- What the actor of a merge may do. -/
structure Authority where
  /-- The projects it maintains. -/
  maintains : Id → Bool
  isAdmin : Bool

/-- `ForgeMerge`. -/
structure MergeRequest where
  forgeItemId : Id
  reviewGateId : Id
  expectedHeadOid : Id
  integrationIdentityId : Option Id := none

/-- The payload of a queued merge. -/
structure MergePayload where
  request : MergeRequest
  expectedBase : Option String
  expectedBaseOid : Option Id
  integrationIdentityId : Option Id

/-- `maintainer_identity`. -/
def maintainerIdentity (authority : Authority) (policy : Policy) (integrationId : Id)
    (requested : Option Id) : Except Error (Option Id) := do
  let overrides := requested.isSome && requested != policy.maintainerIdentityId
  refuseIf (overrides ∧ authority.isAdmin = false)
    .forbidden "Use the policy's configured maintainer identity" 403
  match if overrides then requested else policy.maintainerIdentityId with
  | none => pure none
  | some identifier =>
    let identity ← fetch "Integration identity" Identity.id s.records.identities identifier
    refuseIf (identity.enabled = false ∨ identity.integrationId ≠ integrationId)
      .maintainerIdentityUnavailable "Policy's Forge maintainer identity is not available" 409
    pure (some identifier)

/-- The project of an item. -/
def projectOfItem : Except Error Id :=
  Repository.projectId <$> s.records.repository item.repositoryId

/-- The gate that a merge request names, in the project of its item. -/
def gateOf (projectId : Id) (request : MergeRequest) : Except Error Gate := do
  let gate ← fetch "Review gate" Gate.id s.gates.rows request.reviewGateId
  let owner ← fetch "Forge item" Item.id s.items.rows gate.forgeItemId
  refuseIf ((← s.projectOfItem owner) ≠ projectId)
    .scopeMismatch "Referenced records must belong to the same project" 422
  pure gate

/-- `queue_merge`. -/
def queueMerge (authority : Authority) (request : MergeRequest) : Except Error MergePayload := do
  let item ← fetch "Forge item" Item.id s.items.rows request.forgeItemId
  let projectId ← s.projectOfItem item
  refuseIf (authority.maintains projectId = false)
    .forbidden "The credential does not grant this project operation" 403
  let gate ← s.gateOf projectId request
  refuseIf (gate.forgeItemId ≠ item.id ∨ gate.status ≠ .accepted
      ∨ item.headCommitOid ≠ some request.expectedHeadOid
      ∨ gate.acceptedCommitOid ≠ some request.expectedHeadOid)
    .reviewGateStale "An accepted review of this exact head is required" 409
  let policy ← s.records.policy gate.policyId
  let panel ← s.repositoryReviewPanel item policy none
  refuseIf (panel.isComplete = false) .reviewPanelIncomplete
    ((if item.reviewPhase = some .postprocessing then "Post-processing merge"
      else "Milestone merge")
      ++ " requires the current-head checks and specialist coverage required by the "
      ++ "repository workflow")
    409
  let carriedBase ← match (s.carriedReviewPayload item policy).bind
      Payload.carryForwardEvidence with
    | none => pure none
    | some carries => (some ∘ Prod.snd) <$> s.validateCarries item policy carries
  let repository ← s.records.repository item.repositoryId
  let identity ← s.maintainerIdentity authority policy repository.integrationId
    request.integrationIdentityId
  pure
    { request := request
      expectedBase := item.targetBranch
      expectedBaseOid := carriedBase.getD panel.baseCommitOid
      integrationIdentityId := identity }

end Horizon.Forge
