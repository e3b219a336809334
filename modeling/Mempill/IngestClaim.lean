import Mempill.Gate
import Mempill.Ledger
import Mempill.Persistence
import Mempill.TruthEngine

set_option autoImplicit false

/-!
# Ingest

Gateway, amplification guard, classification and gate of one write, and its
rows. An operation returns its result and the store it leaves behind.
-/
namespace Mempill.IngestClaim
open Mempill.Types Mempill.Persistence Mempill.TruthEngine Mempill.Ledger Mempill.Gate

/-- An engine handle: its tunables and the optional ports it was built with. -/
structure Engine where
  config : EngineConfig
  oraclePresent : Bool
  pendingStorePresent : Bool

structure IngestClaimRequest where
  agentId : AgentId
  subject : String
  predicate : String
  value : Json
  provenance : ProvenanceLabel
  cardinality : Cardinality
  validTime : Option ValidTime
  confidence : Confidence
  criticality : Criticality
  derivedFrom : List ClaimRef
  deriving DecidableEq

structure IngestClaimResponse where
  claimRef : ClaimRef
  disposition : Disposition
  contestedWith : List ClaimRef
  deriving DecidableEq

def unknownValidTime : ValidTime := ⟨none, none, .ofScaled 0, none, none⟩

/-- `gateway::stamp`; the request always carries a provenance. -/
def stamp (req : IngestClaimRequest) (claimRef : ClaimRef) (txTime : Instant) : Claim where
  claimRef := claimRef
  agentId := req.agentId
  fact := ⟨req.subject, req.predicate, req.value⟩
  cardinality := req.cardinality
  provenance := req.provenance
  externalAnchor := ⟨none, 0⟩
  transactionTime := txTime
  validTime := req.validTime.getD unknownValidTime
  confidence := req.confidence
  criticality := req.criticality
  derivedFrom := req.derivedFrom
  metadata := none
  snapshotSchemaVersion := none

inductive FirewallVerdict where
  | admitted
  | corroborateByIdentity (existingClaim : ClaimRef)
  | quarantine
  | depthCapExceeded (depth cap : ℕ)

/-- `AmplificationGuard::check`. -/
def check (config : EngineConfig) (candidate : Claim) (injectedClaimRefs : List ClaimRef)
    (burstCountThisBatch : ℕ) : FirewallVerdict :=
  if burstCountThisBatch ≥ config.quarantineBurstThreshold then .quarantine
  else
    let existing :=
      if candidate.provenance.isRecallReentry then
        candidate.derivedFrom.head? <|> injectedClaimRefs.head?
      else none
    match existing with
    | some existingClaim => .corroborateByIdentity existingClaim
    | none =>
      let depth := candidate.externalAnchor.derivationDepth
      let cap := config.derivationDepthCapForOverturning
      if depth > cap then .depthCapExceeded depth cap else .admitted

/-- The rows of one line at the full current state, and the two scans of its
    ledger. -/
structure LineReads where
  claims : List Claim
  latestDisposition : ClaimRef → Option Disposition
  deniedViaAdjudication : ClaimRef → Bool
  ledger : List LedgerEntry

def readLine (σ : Store) (agentId : AgentId) (subject predicate : String)
    (asOf : Option Instant) : LineReads :=
  let claims := loadSubjectLine σ agentId subject predicate asOf
  let ledger := loadLedgerForClaims σ agentId (claims.map (·.claimRef)) asOf
  { claims := claims
    latestDisposition := buildLatestDispositionMap ledger
    deniedViaAdjudication := buildDeniedViaAdjudicationSet ledger
    ledger := ledger }

/-- The incumbent handed to the classifier: the fold's first live claim, else the
    first conflict candidate. -/
def incumbentBelief (foldResult : FoldResult) (allLiveClaims : List Claim) : Option Belief :=
  (foldResult.liveClaims.head?.map fun cs => claimToBelief cs.claim) <|>
    allLiveClaims.head?.map claimToBelief

def foldForWrite (config : EngineConfig) (σ : Store) (agentId : AgentId)
    (subject predicate : String) (now : Instant) : FoldResult :=
  let reads := readLine σ agentId subject predicate none
  fold reads.claims (loadValidityAssertionsFor σ agentId) now none config reads.latestDisposition

def conflictCandidates (config : EngineConfig) (σ : Store) (agentId : AgentId)
    (subject predicate : String) (now : Instant) : List Claim :=
  buildConflictCandidateClaims (foldForWrite config σ agentId subject predicate now)
    (readLine σ agentId subject predicate none).deniedViaAdjudication

def incumbentFor (config : EngineConfig) (σ : Store) (agentId : AgentId)
    (subject predicate : String) (now : Instant) : Option Belief :=
  incumbentBelief (foldForWrite config σ agentId subject predicate now)
    (conflictCandidates config σ agentId subject predicate now)

def gateDecision (eng : Engine) (σ : Store) (req : IngestClaimRequest) (claim : Claim)
    (now : Instant) : GateDecision :=
  adjudicate (reconcile
    { candidate := claim
      incumbent := incumbentFor eng.config σ req.agentId req.subject req.predicate now
      supersededClaimRefs := []
      measuredConfidence := req.confidence.valueConfidence
      oraclePresent := eng.oraclePresent
      successionThreshold := eng.config.validTimeConfidenceThreshold
      allLiveClaims := conflictCandidates eng.config σ req.agentId req.subject req.predicate now })
    eng.config

def committedEntry (claim : Claim) (decision : GateDecision) (now : Instant) : LedgerEntry where
  agentId := claim.agentId
  claimRef := claim.claimRef
  eventKind := .claimCommitted
  disposition := decision.disposition
  rationale := some decision.rationale
  recordedAt := now

def lineageEdges (claim : Claim) (now : Instant) : List ClaimEdge :=
  claim.derivedFrom.map fun parent =>
    { agentId := claim.agentId
      fromClaim := claim.claimRef
      toClaim := parent
      kind := .derivedFrom
      createdAt := now }

def appendWithinTxn (σ : Store) (claim : Claim) (decision : GateDecision) (now : Instant) :
    Store :=
  appendClaimEdges
    (appendLedgerEntry (appendClaim σ claim) (committedEntry claim decision now))
    (lineageEdges claim now)

def contestedWith (decision : GateDecision) (incumbent : Option Belief) : List ClaimRef :=
  if decision.disposition = .contested ∨ decision.disposition = .queuedForAdjudication then
    (incumbent.map (·.claimRef)).toList
  else []

/-- The largest `chrono::Duration`, `i64::MAX` milliseconds, in nanoseconds. -/
def maxDuration : ℕ := (2 ^ 63 - 1) * 10 ^ 6

/-- A ttl that `Duration::from_std` rejects counts as zero seconds. -/
def expiresAt (now : Instant) (ttl : ℕ) : Instant :=
  now + if ttl ≤ maxDuration then (ttl : ℤ) else 0

def pendingRow (eng : Engine) (req : IngestClaimRequest) (claim : Claim) (incumbent : Belief)
    (now : Instant) (handleId : Uuid) : PendingAdjudicationRow where
  handleId := handleId
  agentId := req.agentId
  subject := req.subject
  predicate := req.predicate
  challengerClaimRef := claim.claimRef
  incumbentClaimRef := incumbent.claimRef
  requestPayload :=
    { subjectLine := ⟨req.agentId, req.subject, req.predicate⟩
      incumbent := incumbent
      challenger := claim
      criticality := req.criticality
      reason := .externalContradiction }
  queuedAt := now
  expiresAt := eng.config.defaultAdjudicationTtl.map (expiresAt now)
  status := .pending

/-- Steps 3 to 6, for a claim the guard lets through. The claim row is committed
    before the oracle is asked, so an error of the oracle or of the pending store
    leaves it behind. -/
def executeAdmitted (eng : Engine) (σ : Store) (req : IngestClaimRequest) (claim : Claim)
    (now : Instant) (oracleReply : Except String Uuid) :
    Except MemError IngestClaimResponse × Store :=
  let decision := gateDecision eng σ req claim now
  let incumbent := incumbentFor eng.config σ req.agentId req.subject req.predicate now
  let committed := appendWithinTxn σ claim decision now
  let response : IngestClaimResponse :=
    { claimRef := claim.claimRef
      disposition := decision.disposition
      contestedWith := contestedWith decision incumbent }
  if decision.disposition = .queuedForAdjudication ∧ eng.oraclePresent ∧
      eng.pendingStorePresent then
    match incumbent with
    | none => (.ok response, committed)
    | some incumbent =>
      match oracleReply with
      | .error reason => (.error (.oracleError reason), committed)
      | .ok handleId =>
        match insertPending committed (pendingRow eng req claim incumbent now handleId) with
        | none => (.error .pendingStore, committed)
        | some queued => (.ok response, queued)
  else (.ok response, committed)

/-- `execute_with_time`; `claimRef` is the identifier minted by the gateway. -/
def execute (eng : Engine) (σ : Store) (req : IngestClaimRequest) (now : Instant)
    (claimRef : ClaimRef) (oracleReply : Except String Uuid) :
    Except MemError IngestClaimResponse × Store :=
  let claim := stamp req claimRef now
  match check eng.config claim (loadInjectedClaims σ req.agentId) 0 with
  | .corroborateByIdentity existingClaim => (.ok ⟨existingClaim, .committedCheap, []⟩, σ)
  | .quarantine => (.ok ⟨claim.claimRef, .quarantined, []⟩, σ)
  | .admitted | .depthCapExceeded _ _ => executeAdmitted eng σ req claim now oracleReply

end Mempill.IngestClaim
