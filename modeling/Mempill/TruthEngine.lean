import Mempill.Lib.StampedLog
import Mempill.ValidTimeHelpers

set_option autoImplicit false

/-!
# Truth engine

The canonical fold of one subject line, the effective windows of its claims, and
the two candidate sets that widen the fold by bounded claims.
-/
namespace Mempill.TruthEngine
open Mempill.Types Mempill.ValidTimeHelpers StampedLog

def isNonLiveDisposition : Disposition → Bool
  | .quarantined | .superseded | .invalidated | .rejected => true
  | _ => false

def isHardExcludedDisposition : Disposition → Bool
  | .quarantined | .invalidated | .rejected => true
  | _ => false

theorem isNonLive_iff {d : Disposition} :
    isNonLiveDisposition d = true ↔ d = .superseded ∨ isHardExcludedDisposition d = true := by
  cases d <;> simp [isNonLiveDisposition, isHardExcludedDisposition]

theorem isHardExcluded_of_isNonLive {d : Disposition} (h : isNonLiveDisposition d = false) :
    isHardExcludedDisposition d = false :=
  Bool.eq_false_iff.mpr fun hhard => Bool.eq_false_iff.mp h (isNonLive_iff.mpr (.inr hhard))

structure ClaimWithStatus where
  claim : Claim
  isLive : Bool
  lastDisposition : Option Disposition
  boundAt : Option Instant
  boundAtGranularity : Option DateGranularity
  deriving DecidableEq

structure FoldResult where
  liveClaims : List ClaimWithStatus
  hasConflict : Bool
  successionSelected : Bool
  allClaims : List ClaimWithStatus
  deriving DecidableEq

/-- The start where it is trusted, else the transaction time. -/
def primaryKey (claim : Claim) (config : EngineConfig) : Instant :=
  if claim.validTime.validTimeConfidence.ge config.validTimeConfidenceThreshold then
    claim.validTime.start.getD claim.transactionTime
  else claim.transactionTime

def orderingKey (claim : Claim) (config : EngineConfig) : Instant ×ₗ Instant ×ₗ Uuid :=
  toLex (primaryKey claim config, toLex (claim.transactionTime, claim.claimRef.uuid))

structure BoundState where
  boundAt : Instant
  assertionRef : Uuid
  boundAtGranularity : Option DateGranularity
  deriving DecidableEq

def assertionKey (assertion : ValidityAssertion) : Instant ×ₗ Uuid :=
  toLex (assertion.assertedAt, assertion.assertionRef)

/-- One assertion of the toggle walk. Assertions and instants after the cutoff
    are skipped. -/
def applyAssertion (asOfTxTime : Instant) (state : Option BoundState)
    (assertion : ValidityAssertion) : Option BoundState :=
  if assertion.assertedAt > asOfTxTime then state
  else match assertion.kind with
    | .bound boundAt granularity =>
      if boundAt ≤ asOfTxTime then some ⟨boundAt, assertion.assertionRef, granularity⟩ else state
    | .reopen reopenAt => if reopenAt ≤ asOfTxTime then none else state

def activeBoundAt (assertions : List ValidityAssertion) (asOfTxTime : Instant) :
    Option BoundState :=
  (inOrder assertionKey assertions).foldl (applyAssertion asOfTxTime) none

def isClaimLive (assertions : List ValidityAssertion) (asOfTxTime : Instant) : Bool :=
  (activeBoundAt assertions asOfTxTime).isNone

def claimStatus (assertionsFor : ClaimRef → List ValidityAssertion) (asOfTxTime : Instant)
    (latestDisposition : ClaimRef → Option Disposition) (claim : Claim) : ClaimWithStatus :=
  let lastDisp := latestDisposition claim.claimRef
  let dispositionLive := (lastDisp.map fun d => !isNonLiveDisposition d).getD true
  let activeBound := activeBoundAt (assertionsFor claim.claimRef) asOfTxTime
  { claim := claim
    isLive := activeBound.isNone && dispositionLive
    lastDisposition := lastDisp
    boundAt := activeBound.map (·.boundAt)
    boundAtGranularity := activeBound.bind (·.boundAtGranularity) }

/-- The rows whose claim the selection by instant names; none in a gap. -/
def selectMember (rows : List ClaimWithStatus) (windows : List Claim) (instant : Instant) :
    List ClaimWithStatus :=
  match selectByValidTimeInstant windows instant with
  | some selected => rows.filter (fun cs => cs.claim.claimRef == selected.claimRef)
  | none => []

/-- Step 5 of the fold: values are never compared. -/
def structuralConflict (live : List ClaimWithStatus) : Bool :=
  let functionalLiveCount := live.countP (fun cs => cs.claim.cardinality == .functional)
  decide (functionalLiveCount > 1) ||
    (decide (live.length > 1) && live.any (fun cs => cs.claim.cardinality != .setValued))

/-- Steps 3 to 5 of the fold, on the rows in key order. -/
def foldStatuses (withStatus : List ClaimWithStatus) (vtInstant : Instant)
    (config : EngineConfig) : FoldResult :=
  let live := withStatus.filter (·.isLive)
  let liveRefs := live.map (·.claim)
  let (liveClaims, successionSelected) :=
    if live.length > 1 then
      if isTrustedSuccession liveRefs config.validTimeConfidenceThreshold then
        (selectMember live liveRefs vtInstant, true)
      else (live, false)
    else (live, false)
  { liveClaims := liveClaims
    hasConflict := structuralConflict liveClaims
    successionSelected := successionSelected
    allClaims := withStatus }

def fold (claims : List Claim) (assertionsFor : ClaimRef → List ValidityAssertion)
    (asOfTxTime : Instant) (validAtInstant : Option Instant) (config : EngineConfig)
    (latestDisposition : ClaimRef → Option Disposition) : FoldResult :=
  let sorted := inOrder (orderingKey · config) claims
  let withStatus := sorted.map (claimStatus assertionsFor asOfTxTime latestDisposition)
  foldStatuses withStatus (validAtInstant.getD asOfTxTime) config

def narrowedValidEnd (claim : Claim) (boundAt : Option Instant)
    (boundAtGranularity : Option DateGranularity) : Option Instant × Option DateGranularity :=
  match claim.validTime.stop, boundAt with
  | some oe, some ba =>
    if ba < oe then (some ba, boundAtGranularity) else (some oe, claim.validTime.stopGranularity)
  | some oe, none => (some oe, claim.validTime.stopGranularity)
  | none, some ba => (some ba, boundAtGranularity)
  | none, none => (none, none)

def endIsBoundDerived (claim : Claim) (boundAt : Option Instant) : Bool :=
  match claim.validTime.stop, boundAt with
  | some oe, some ba => decide (ba < oe)
  | none, some _ => true
  | _, _ => false

def claimWithEffectiveWindow (cs : ClaimWithStatus) : Claim :=
  let (stop, stopGranularity) := narrowedValidEnd cs.claim cs.boundAt cs.boundAtGranularity
  { cs.claim with
    validTime := { cs.claim.validTime with stop := stop, stopGranularity := stopGranularity } }

/-- The filter that the valid-at set and the conflict set share. -/
def isCandidate (denied : ClaimRef → Bool) (cs : ClaimWithStatus) : Bool :=
  let hardExcluded := (cs.lastDisposition.map isHardExcludedDisposition).getD false
  if hardExcluded then false
  else cs.isLive || (cs.boundAt.isSome && !denied cs.claim.claimRef)

def narrowLiveClaimsForValidAt (foldResult : FoldResult) (validAtInstant : Instant)
    (deniedViaAdjudication : ClaimRef → Bool) (config : EngineConfig) : FoldResult :=
  let candidates := foldResult.allClaims.filter (isCandidate deniedViaAdjudication)
  let narrowedClaims := candidates.map claimWithEffectiveWindow
  if isTrustedSuccession narrowedClaims config.validTimeConfidenceThreshold then
    { liveClaims := selectMember candidates narrowedClaims validAtInstant
      hasConflict := false
      successionSelected := true
      allClaims := foldResult.allClaims }
  else foldResult

def buildConflictCandidateClaims (foldResult : FoldResult)
    (deniedViaAdjudication : ClaimRef → Bool) : List Claim :=
  (foldResult.allClaims.filter (isCandidate deniedViaAdjudication)).map fun cs =>
    if cs.isLive then cs.claim else claimWithEffectiveWindow cs

def claimToBelief (claim : Claim) : Belief where
  claimRef := claim.claimRef
  fact := claim.fact
  provenance := claim.provenance
  validTime := claim.validTime
  transactionTime := claim.transactionTime
  confidence := claim.confidence
  currencySignal := ⟨claim.transactionTime, .fresh, 0⟩
  criticality := claim.criticality

def foldStaleness (fold : FoldResult) : StalenessFlag :=
  if fold.liveClaims.isEmpty then ⟨true, some .noLiveClaimOnSubjectLine⟩ else ⟨false, none⟩

structure HistoryWindow where
  validUntil : Option Instant
  validUntilGranularity : Option DateGranularity
  contested : Bool
  containsNow : Bool
  deriving DecidableEq

def primaryKeyAndGranularity (claim : Claim) (config : EngineConfig) :
    Instant × Option DateGranularity :=
  if claim.validTime.validTimeConfidence.ge config.validTimeConfidenceThreshold then
    match claim.validTime.start with
    | some s => (s, claim.validTime.startGranularity)
    | none => (claim.transactionTime, none)
  else (claim.transactionTime, none)

/-- The next row with a strictly later primary key, live or not. -/
def successorRow (cs : ClaimWithStatus) (later : List ClaimWithStatus) (config : EngineConfig) :
    Option ClaimWithStatus :=
  let myKey := (primaryKeyAndGranularity cs.claim config).1
  later.find? fun succ => decide (myKey < (primaryKeyAndGranularity succ.claim config).1)

/-- Both rows are trusted and the bound-adjusted window of the first reaches into
    the raw window of its successor. -/
def overlapsSuccessor (cs succ : ClaimWithStatus) (config : EngineConfig) : Bool :=
  let threshold := config.validTimeConfidenceThreshold
  let ownEnd := (narrowedValidEnd cs.claim cs.boundAt cs.boundAtGranularity).1
  claimIsTrusted cs.claim threshold && claimIsTrusted succ.claim threshold &&
    match cs.claim.validTime.start, succ.claim.validTime.start with
    | some start, some succStart =>
      !windowsNonOverlappingBounds start ownEnd succStart succ.claim.validTime.stop
    | _, _ => false

def historyWindow (cs : ClaimWithStatus) (later : List ClaimWithStatus) (hasConflict : Bool)
    (now : Instant) (config : EngineConfig) : HistoryWindow :=
  let (ownEnd, ownEndGran) := narrowedValidEnd cs.claim cs.boundAt cs.boundAtGranularity
  let (validUntil, validUntilGranularity, pairwiseOverlap) :=
    match successorRow cs later config with
    | none => (ownEnd, ownEndGran, false)
    | some succ =>
      let (succKey, succGran) := primaryKeyAndGranularity succ.claim config
      let overlapping := overlapsSuccessor cs succ config
      let boundDerivedNoGran := ownEndGran.isNone && endIsBoundDerived cs.claim cs.boundAt
      match ownEnd with
      | some oe =>
        if overlapping then (some oe, ownEndGran, true)
        else if oe ≤ succKey then
          let atSuccKey := if boundDerivedNoGran && oe == succKey then succGran else none
          (some oe, ownEndGran.or atSuccKey, false)
        else (some succKey, succGran, false)
      | none => if overlapping then (none, none, true) else (some succKey, succGran, false)
  let contested := pairwiseOverlap || (cs.isLive && hasConflict)
  let startOk := cs.claim.validTime.start.all (fun s => decide (s ≤ now))
  let endOk := validUntil.all (fun vu => decide (now < vu))
  { validUntil := validUntil
    validUntilGranularity := validUntilGranularity
    contested := contested
    containsNow := startOk && endOk }

def computeHistoryWindows : List ClaimWithStatus → Bool → Instant → EngineConfig →
    List HistoryWindow
  | [], _, _, _ => []
  | cs :: later, hasConflict, now, config =>
    historyWindow cs later hasConflict now config ::
      computeHistoryWindows later hasConflict now config

end Mempill.TruthEngine
