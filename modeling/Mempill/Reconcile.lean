import Mempill.IngestClaim

set_option autoImplicit false

/-!
# Reconcile

The re-classification pass over given subject lines. It writes one ledger entry
for each live claim and never bounds anything.
-/
namespace Mempill.Reconcile
open Mempill.Types Mempill.Persistence Mempill.TruthEngine Mempill.Ledger Mempill.Gate
open Mempill.IngestClaim

structure ReconcileRequest where
  agentId : AgentId
  subjectLines : List (String × String)
  deriving DecidableEq

structure ReconcileResponse where
  outcomes : List (ClaimRef × Disposition)
  oracleEscalations : ℕ
  deriving DecidableEq

/-- The first other claim among the fold's live ones, else among the candidates. -/
def incumbentOf (candidate : Claim) (foldResult : FoldResult) (allLiveClaims : List Claim) :
    Option Belief :=
  let isOther (other : Claim) : Bool := other.claimRef != candidate.claimRef
  (((foldResult.liveClaims.map (·.claim)).find? isOther) <|> allLiveClaims.find? isOther).map
    claimToBelief

/-- The decisions on one line, from the scans of the whole request. -/
def decideLine (eng : Engine) (σ : Store) (agentId : AgentId)
    (latestDisposition : ClaimRef → Option Disposition) (denied : ClaimRef → Bool)
    (now : Instant) (claims : List Claim) : List (ClaimRef × GateDecision) :=
  let foldResult :=
    fold claims (loadValidityAssertionsFor σ agentId) now none eng.config latestDisposition
  let allLiveClaims := buildConflictCandidateClaims foldResult denied
  foldResult.liveClaims.map fun cs =>
    (cs.claim.claimRef, adjudicate (reconcile
      { candidate := cs.claim
        incumbent := incumbentOf cs.claim foldResult allLiveClaims
        supersededClaimRefs := []
        measuredConfidence := cs.claim.confidence.valueConfidence
        oraclePresent := eng.oraclePresent
        successionThreshold := eng.config.validTimeConfidenceThreshold
        allLiveClaims := allLiveClaims }) eng.config)

def decisions (eng : Engine) (σ : Store) (req : ReconcileRequest) (now : Instant) :
    List (ClaimRef × GateDecision) :=
  let lines := req.subjectLines.map fun line =>
    loadSubjectLine σ req.agentId line.1 line.2 none
  let ledger := loadLedgerForClaims σ req.agentId
    ((lines.flatMap id).map (·.claimRef)) none
  lines.flatMap (decideLine eng σ req.agentId (buildLatestDispositionMap ledger)
    (buildDeniedViaAdjudicationSet ledger) now)

def decisionEntry (agentId : AgentId) (now : Instant) (d : ClaimRef × GateDecision) :
    LedgerEntry where
  agentId := agentId
  claimRef := d.1
  eventKind := .adjudicationResolved
  disposition := d.2.disposition
  rationale := some d.2.rationale
  recordedAt := now

def execute (eng : Engine) (σ : Store) (req : ReconcileRequest) (now : Instant) :
    ReconcileResponse × Store :=
  if req.subjectLines.isEmpty then (⟨[], 0⟩, σ)
  else
    let ds := decisions eng σ req now
    ({ outcomes := ds.map fun d => (d.1, d.2.disposition)
       oracleEscalations := ds.countP fun d => d.2.route == .heavyPath },
      appendLedgerEntries σ (ds.map (decisionEntry req.agentId now)))

end Mempill.Reconcile
