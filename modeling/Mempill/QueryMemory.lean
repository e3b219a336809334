import Mempill.IngestClaim

set_option autoImplicit false

/-!
# Query memory

The recall path: the fold at an as-of point, the valid-at narrowing, and the
belief projection.
-/
namespace Mempill.QueryMemory
open Mempill.Types Mempill.Persistence Mempill.TruthEngine Mempill.IngestClaim

section Projection

/-- Whole seconds against whole days. The source divides in binary64, which is
    exact enough never to cross a threshold below `2^32` days. -/
def computeCurrencyState (lastRefreshedAt now : Instant) (config : EngineConfig) :
    CurrencyState :=
  let seconds := (now - lastRefreshedAt).tdiv 1000000000
  if seconds < 86400 * config.agingUnconfirmedThresholdDays then .fresh
  else if seconds < 86400 * config.decayedThresholdDays then .agingUnconfirmed
  else .decayed

def buildCurrencySignal (belief : Belief) (now : Instant) (config : EngineConfig) :
    CurrencySignal where
  lastRefreshedAt := belief.transactionTime
  state := computeCurrencyState belief.transactionTime now config
  corroborationCount := belief.currencySignal.corroborationCount

def computeStaleness (primary : Option Belief) (fold : FoldResult) (now : Instant)
    (config : EngineConfig) : StalenessFlag :=
  if fold.liveClaims.isEmpty then ⟨true, some .noLiveClaim⟩
  else match primary with
    | some b =>
      match computeCurrencyState b.transactionTime now config with
      | .decayed => ⟨true, some (.currencyDecayed b.transactionTime)⟩
      | .agingUnconfirmed => ⟨false, some .agingUnconfirmed⟩
      | .fresh => foldStaleness fold
    | none => foldStaleness fold

def pendingReviewRefs (ledgerEntries : List LedgerEntry) : List ClaimRef :=
  (ledgerEntries.filter fun e =>
    e.eventKind == .dependentFlaggedPendingReview && e.disposition == .pendingReview).map
      (·.claimRef)

def buildMarkers (fold : FoldResult) (pendingReviewClaimRefs : List ClaimRef)
    (contested : Bool) (config : EngineConfig) : List Marker :=
  let anyPending :=
    fold.liveClaims.any fun cs => pendingReviewClaimRefs.contains cs.claim.claimRef
  let anyRecall := fold.liveClaims.any fun cs => cs.claim.provenance.isRecallReentry
  let anyLowAnchor := fold.liveClaims.any fun cs =>
    decide (cs.claim.externalAnchor.derivationDepth > config.derivationDepthCapForCurrencyBoost)
  (if contested || fold.hasConflict then [.contested] else []) ++
    (if anyPending then [.pendingReview] else []) ++
    (if anyRecall then [.recallTainted] else []) ++
    (if anyLowAnchor then [.lowDerivationAnchor] else [])

def liveBelief (now : Instant) (config : EngineConfig) (cs : ClaimWithStatus) : Belief :=
  let b := claimToBelief cs.claim
  { b with currencySignal := buildCurrencySignal b now config }

def maxCriticality (cs : List Criticality) : Criticality :=
  cs.foldl (fun best c => if best.rank ≤ c.rank then c else best) .low

def projectStatus (fold : FoldResult) (contested : Bool) : BeliefStatus :=
  match fold.liveClaims with
  | [] => .noBelief
  | [cs] =>
    if contested || fold.hasConflict then .contested
    else if cs.claim.validTime.isUnknown then .timingUncertain else .resolved
  | _ => if contested || fold.hasConflict then .contested else .resolved

def project (fold : FoldResult) (ledgerEntries : List LedgerEntry) (now : Instant)
    (config : EngineConfig) (contested : Bool) : BeliefProjection :=
  let liveBeliefs := fold.liveClaims.map (liveBelief now config)
  let (primary, alternatives) : Option Belief × List Belief :=
    match liveBeliefs with
    | [] => (none, [])
    | [b] => if fold.hasConflict then (none, [b]) else (some b, [])
    | bs => (none, bs)
  let primaryForCurrency := primary <|> liveBeliefs.head?
  { status := projectStatus fold contested
    primary := primary
    alternatives := alternatives
    currency := (primaryForCurrency.map fun b => (buildCurrencySignal b now config).state).getD
      .decayed
    criticality := maxCriticality (fold.liveClaims.map (·.claim.criticality))
    staleness := computeStaleness primary fold now config
    markers := buildMarkers fold (pendingReviewRefs ledgerEntries) contested config }

section Lemmas

variable {fold : FoldResult} (ledgerEntries : List LedgerEntry) (now : Instant)
variable (config : EngineConfig) (contested : Bool)

theorem project_of_nil (h : fold.liveClaims = []) :
    (project fold ledgerEntries now config contested).status = .noBelief ∧
      (project fold ledgerEntries now config contested).primary = none ∧
      (project fold ledgerEntries now config contested).alternatives = [] := by
  simp [project, projectStatus, h]

theorem project_of_singleton {cs : ClaimWithStatus} (h : fold.liveClaims = [cs])
    (hc : fold.hasConflict = false) :
    (project fold ledgerEntries now config contested).status =
        (if contested then .contested
          else if cs.claim.validTime.isUnknown then .timingUncertain else .resolved) ∧
      (project fold ledgerEntries now config contested).primary =
        some (liveBelief now config cs) ∧
      (project fold ledgerEntries now config contested).alternatives = [] := by
  simp [project, projectStatus, h, hc]

theorem project_of_many (h : 1 < fold.liveClaims.length) :
    (project fold ledgerEntries now config contested).status =
        (if contested || fold.hasConflict then .contested else .resolved) ∧
      (project fold ledgerEntries now config contested).primary = none ∧
      (project fold ledgerEntries now config contested).alternatives =
        fold.liveClaims.map (liveBelief now config) := by
  match hl : fold.liveClaims with
  | [] => simp [hl] at h
  | [_] => simp [hl] at h
  | _ :: _ :: _ => simp [project, projectStatus, hl]

@[simp] theorem liveBelief_claimRef (cs : ClaimWithStatus) :
    (liveBelief now config cs).claimRef = cs.claim.claimRef := rfl

@[simp] theorem liveBelief_validTime (cs : ClaimWithStatus) :
    (liveBelief now config cs).validTime = cs.claim.validTime := rfl

end Lemmas

end Projection

structure QueryMemoryRequest where
  agentId : AgentId
  subject : String
  predicate : String
  asOfTxTime : Option Instant
  validAt : Option Instant
  deriving DecidableEq

def queryFold (config : EngineConfig) (σ : Store) (req : QueryMemoryRequest) (now : Instant) :
    FoldResult :=
  let asOf := req.asOfTxTime.getD now
  let reads := readLine σ req.agentId req.subject req.predicate (some asOf)
  let folded := fold reads.claims (loadValidityAssertionsFor σ req.agentId) asOf req.validAt
    config reads.latestDisposition
  match req.validAt with
  | some instant =>
    narrowLiveClaimsForValidAt folded instant reads.deniedViaAdjudication config
  | none => folded

def anyContested (liveClaims : List ClaimWithStatus) : Bool :=
  liveClaims.any fun cs => cs.lastDisposition == some .contested

def execute (config : EngineConfig) (σ : Store) (req : QueryMemoryRequest) (now : Instant) :
    BeliefProjection :=
  let asOf := req.asOfTxTime.getD now
  let reads := readLine σ req.agentId req.subject req.predicate (some asOf)
  let folded := queryFold config σ req now
  let ledgerEntries := reads.claims.flatMap fun c =>
    reads.ledger.filter (fun e => e.claimRef == c.claimRef)
  project folded ledgerEntries now config (anyContested folded.liveClaims)

/-- Recall of one line, with no as-of point. -/
def recallNow (config : EngineConfig) (σ : Store) (agentId : AgentId) (subject predicate : String)
    (now : Instant) : BeliefProjection :=
  execute config σ ⟨agentId, subject, predicate, none, none⟩ now

def recallAt (config : EngineConfig) (σ : Store) (agentId : AgentId) (subject predicate : String)
    (now t : Instant) : BeliefProjection :=
  execute config σ ⟨agentId, subject, predicate, none, some t⟩ now

end Mempill.QueryMemory
