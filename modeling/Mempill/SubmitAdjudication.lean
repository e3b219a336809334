import Mempill.Ledger
import Mempill.Persistence
import Mempill.ValidTimeHelpers

set_option autoImplicit false

/-!
# Verdicts and sweep

Applying an oracle verdict to a pending handle, and the two reversions of the
sweep.
-/
namespace Mempill.SubmitAdjudication
open Mempill.Types Mempill.Persistence Mempill.Ledger Mempill.ValidTimeHelpers

/-- The latest disposition of one claim as the verdict and the sweep read it. -/
def currentDisposition (σ : Store) (agentId : AgentId) (claimRef : ClaimRef) :
    Option Disposition :=
  latestDispositionFromLedger (loadLedgerForClaims σ agentId [claimRef] none) claimRef

def cascadeRationale (target overturning : ClaimRef) : Json :=
  .obj [("event", .str "depends_on_cascade"), ("superseded_parent", .uuid target.uuid),
    ("overturning_claim", .uuid overturning.uuid)]

/-- The dependents of the bounded claim, each once, in first-occurrence order. -/
def dependentsOf (target : ClaimRef) (preloadedEdges : List ClaimEdge) : List ClaimRef :=
  ((preloadedEdges.filter fun e => e.kind == .dependsOn && e.toClaim == target).map
    (·.fromClaim)).eraseDups

def supersessionRationale (overturning : ClaimRef) (boundAt : Instant) (verdict : String) :
    Json :=
  .obj [("event", .str "oracle_supersession"), ("overturning_claim", .uuid overturning.uuid),
    ("bound_at", .time boundAt), ("verdict", .str verdict)]

def oracleAssertion (agentId : AgentId) (target : ClaimRef) (boundAt : Instant)
    (boundAtGranularity : Option DateGranularity) (now : Instant) (assertionRef : Uuid) :
    ValidityAssertion where
  assertionRef := assertionRef
  agentId := agentId
  targetClaim := target
  kind := .bound boundAt boundAtGranularity
  provenance := .external .externalFirstHand
  -- 1.0 in binary32
  confidence := ⟨.ofScaled (2 ^ 149), .ofScaled (2 ^ 149)⟩
  assertedAt := now

def supersededEntry (agentId : AgentId) (target overturning : ClaimRef) (boundAt now : Instant)
    (verdict : String) : LedgerEntry where
  agentId := agentId
  claimRef := target
  eventKind := .validityAsserted
  disposition := .superseded
  rationale := some (supersessionRationale overturning boundAt verdict)
  recordedAt := now

def cascadeEntries (agentId : AgentId) (target overturning : ClaimRef) (now : Instant)
    (preloadedEdges : List ClaimEdge) : List LedgerEntry :=
  (dependentsOf target preloadedEdges).map fun dependent =>
    { agentId := agentId
      claimRef := dependent
      eventKind := .dependentFlaggedPendingReview
      disposition := .pendingReview
      rationale := some (cascadeRationale target overturning)
      recordedAt := now }

def boundClaim (σ : Store) (agentId : AgentId) (target overturning : ClaimRef)
    (boundAt : Instant) (boundAtGranularity : Option DateGranularity) (now : Instant)
    (preloadedEdges : List ClaimEdge) (verdict : String) (assertionRef : Uuid) : Store :=
  appendLedgerEntries
    (appendLedgerEntry
      (appendValidityAssertion σ
        (oracleAssertion agentId target boundAt boundAtGranularity now assertionRef))
      (supersededEntry agentId target overturning boundAt now verdict))
    (cascadeEntries agentId target overturning now preloadedEdges)

def provenanceJson : ProvenanceLabel → Json
  | .external .userAsserted =>
    .obj [("type", .str "External"), ("kind", .str "UserAsserted")]
  | .external .externalFirstHand =>
    .obj [("type", .str "External"), ("kind", .str "ExternalFirstHand")]
  | .recallReEntry => .obj [("type", .str "RecallReEntry")]
  | .modelDerived => .obj [("type", .str "ModelDerived")]

def resolvedEntry (agentId : AgentId) (claimRef : ClaimRef) (disposition : Disposition)
    (rationale : Json) (now : Instant) : LedgerEntry where
  agentId := agentId
  claimRef := claimRef
  eventKind := .adjudicationResolved
  disposition := disposition
  rationale := some rationale
  recordedAt := now

def affirmRationale (evidenceProvenance : ProvenanceLabel) : Json :=
  .obj [("event", .str "oracle_affirm"), ("verdict", .str "Affirm"),
    ("evidence_provenance", provenanceJson evidenceProvenance)]

def abstainRationale : Json :=
  .obj [("event", .str "oracle_abstain"), ("verdict", .str "Unknown")]

/-- Where an affirmed challenger bounds the incumbent: at its own trusted start,
    else at the transaction time. -/
def affirmBoundAt (config : EngineConfig) (challenger : Claim) (now : Instant) :
    Instant × Option DateGranularity :=
  if claimIsTrusted challenger config.validTimeConfidenceThreshold then
    (challenger.validTime.start.getD now, challenger.validTime.startGranularity)
  else (now, none)

def applyVerdict (σ : Store) (verdict : AdjudicationVerdict)
    (evidenceProvenance : ProvenanceLabel) (agentId : AgentId) (challenger incumbent : ClaimRef)
    (now : Instant) (boundAt : Instant) (boundAtGranularity : Option DateGranularity)
    (incumbentEdges challengerEdges : List ClaimEdge) (assertionRef : Uuid) : Store :=
  match verdict with
  | .affirm =>
    appendLedgerEntry
      (boundClaim σ agentId incumbent challenger boundAt boundAtGranularity now incumbentEdges
        "affirm" assertionRef)
      (resolvedEntry agentId challenger .committedCheap (affirmRationale evidenceProvenance) now)
  | .deny =>
    boundClaim σ agentId challenger incumbent now none now challengerEdges "deny" assertionRef
  | .unknown =>
    appendLedgerEntries σ
      [resolvedEntry agentId challenger .contested abstainRationale now,
        resolvedEntry agentId incumbent .contested abstainRationale now]

def verdictDisposition : AdjudicationVerdict → Disposition
  | .affirm => .committedCheap
  | .deny => .superseded
  | .unknown => .contested

def expiredEntry (row : PendingAdjudicationRow) (rationale : Json) (now : Instant) :
    LedgerEntry where
  agentId := row.agentId
  claimRef := row.challengerClaimRef
  eventKind := .adjudicationExpired
  disposition := .contested
  rationale := some rationale
  recordedAt := now

def lazyExpiryRationale (row : PendingAdjudicationRow) (expiresAt : Instant) : Json :=
  .obj [("event", .str "adjudication_ttl_expired_lazy"), ("handle_id", .uuid row.handleId),
    ("expired_at", .time expiresAt), ("incumbent_claim_ref", .uuid row.incumbentClaimRef.uuid)]

/-- The handle has outlived its ttl: a challenger still queued reverts to
    contested, and the caller gets an error either way. -/
def lazyExpire (σ : Store) (row : PendingAdjudicationRow) (expiresAt now : Instant) : Store :=
  if currentDisposition σ row.agentId row.challengerClaimRef = some .queuedForAdjudication then
    markExpired (appendLedgerEntry σ (expiredEntry row (lazyExpiryRationale row expiresAt) now))
      row.handleId
  else σ

def execute (config : EngineConfig) (σ : Store) (handleId : Uuid)
    (response : AdjudicationResponse) (now : Instant) (assertionRef : Uuid) :
    Except MemError AdjudicationOutcome × Store :=
  -- the row is returned whatever its status
  match getPending σ handleId with
  | none => (.error (.adjudicationHandleNotFound handleId), σ)
  | some row =>
    match row.expiresAt.filter (fun t => decide (t ≤ now)) with
    | some expiresAt =>
      (.error (.adjudicationHandleNotFound handleId), lazyExpire σ row expiresAt now)
    | none =>
      if currentDisposition σ row.agentId row.challengerClaimRef ≠
          some .queuedForAdjudication then
        (.error (.adjudicationHandleNotFound handleId), σ)
      else match loadClaim σ row.agentId row.challengerClaimRef with
        | none => (.error (.claimNotFound row.challengerClaimRef), σ)
        | some challengerClaim =>
          let (boundAt, boundAtGranularity) := affirmBoundAt config challengerClaim now
          let applied := applyVerdict σ response.verdict response.evidenceProvenance row.agentId
            row.challengerClaimRef row.incumbentClaimRef now boundAt boundAtGranularity
            (loadEdgesFor σ row.agentId row.incumbentClaimRef)
            (loadEdgesFor σ row.agentId row.challengerClaimRef) assertionRef
          (.ok ⟨handleId, verdictDisposition response.verdict, row.challengerClaimRef⟩,
            markResolved applied handleId)

section Sweep

structure OrphanedQueuedClaim where
  agentId : AgentId
  challengerClaimRef : ClaimRef
  incumbentClaimRef : Option ClaimRef
  subject : String
  predicate : String
  deriving DecidableEq

def expiryRationale (row : PendingAdjudicationRow) (now : Instant) : Json :=
  .obj [("event", .str "adjudication_ttl_expired"), ("handle_id", .uuid row.handleId),
    ("expired_at", .time now), ("incumbent_claim_ref", .uuid row.incumbentClaimRef.uuid)]

def revertExpiredRow (σ : Store) (row : PendingAdjudicationRow) (now : Instant) : Bool × Store :=
  if currentDisposition σ row.agentId row.challengerClaimRef ≠ some .queuedForAdjudication then
    (false, σ)
  else
    (true, markExpired (appendLedgerEntry σ (expiredEntry row (expiryRationale row now) now))
      row.handleId)

def orphanRationale (orphan : OrphanedQueuedClaim) (now : Instant) : Json :=
  .obj [("event", .str "orphaned_queued_claim_recovery"),
    ("reason", .str
      "QueuedForAdjudication claim had no matching pending_adjudications row"),
    ("recovered_at", .time now),
    ("incumbent_claim_ref",
      (orphan.incumbentClaimRef.map fun r => Json.uuid r.uuid).getD (.str "unknown")),
    ("subject", .str orphan.subject), ("predicate", .str orphan.predicate)]

def orphanEntry (orphan : OrphanedQueuedClaim) (now : Instant) : LedgerEntry where
  agentId := orphan.agentId
  claimRef := orphan.challengerClaimRef
  eventKind := .adjudicationExpired
  disposition := .contested
  rationale := some (orphanRationale orphan now)
  recordedAt := now

def revertOrphan (σ : Store) (orphan : OrphanedQueuedClaim) (now : Instant) : Bool × Store :=
  if currentDisposition σ orphan.agentId orphan.challengerClaimRef ≠
      some .queuedForAdjudication then
    (false, σ)
  else (true, appendLedgerEntry σ (orphanEntry orphan now))

end Sweep

end Mempill.SubmitAdjudication
