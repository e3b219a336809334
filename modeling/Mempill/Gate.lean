import Mempill.ValidTimeHelpers

set_option autoImplicit false

/-!
# Reconciler and adjudication gate

The write-time classification of a candidate against its subject line, and the
routing decision taken on it.
-/
namespace Mempill.Gate
open Mempill.Types Mempill.ValidTimeHelpers

inductive ConflictType where
  | noConflict | sameLineConflict | crossLineConflict | dependsOnSuperseded | succession
  deriving DecidableEq, Repr

/-- The `Debug` rendering that the rationale records. -/
def ConflictType.debug : ConflictType → String
  | .noConflict => "NoConflict"
  | .sameLineConflict => "SameLineConflict"
  | .crossLineConflict => "CrossLineConflict"
  | .dependsOnSuperseded => "DependsOnSuperseded"
  | .succession => "Succession"

structure ReconcilerInput where
  candidate : Claim
  incumbent : Option Belief
  supersededClaimRefs : List ClaimRef
  measuredConfidence : F32
  oraclePresent : Bool
  successionThreshold : F32
  allLiveClaims : List Claim

structure Proposal where
  candidate : Claim
  incumbent : Option Belief
  conflictType : ConflictType
  measuredConfidence : F32
  oraclePresent : Bool

/-- A claim without a start is left out of the scan on either side. -/
def overlapsDifferentValue (candidate : Claim) (allLiveClaims : List Claim) : Bool :=
  candidate.validTime.start.isSome &&
    allLiveClaims.any fun other =>
      other.claimRef != candidate.claimRef && other.fact.value != candidate.fact.value &&
        other.validTime.start.isSome && !windowsNonOverlapping candidate other

def classifyConflict (input : ReconcilerInput) : ConflictType :=
  match input.incumbent with
  | none => .noConflict
  | some incumbent =>
    if input.candidate.derivedFrom.any (fun r => input.supersededClaimRefs.contains r) then
      .dependsOnSuperseded
    else if input.candidate.fact.subject = incumbent.fact.subject ∧
        input.candidate.fact.predicate = incumbent.fact.predicate then
      if input.candidate.fact.value = incumbent.fact.value ∧
          overlapsDifferentValue input.candidate input.allLiveClaims = false then .noConflict
      else
        let group := input.candidate ::
          input.allLiveClaims.filter (fun c => c.claimRef != input.candidate.claimRef)
        if isTrustedSuccession group input.successionThreshold then .succession
        else .sameLineConflict
    else if input.candidate.fact.subject = incumbent.fact.subject then .crossLineConflict
    else .noConflict

def reconcile (input : ReconcilerInput) : Proposal where
  candidate := input.candidate
  incumbent := input.incumbent
  conflictType := classifyConflict input
  measuredConfidence := input.measuredConfidence
  oraclePresent := input.oraclePresent

inductive Route where
  | cheapPath | inferred | recallTainted | heavyPath | quarantine
  deriving DecidableEq, Repr

structure GateDecision where
  route : Route
  disposition : Disposition
  rationale : Json

def isTemporallyIncoherent (claim : Claim) (config : EngineConfig) : Bool :=
  if claim.validTime.validTimeConfidence.lt config.validTimeConfidenceThreshold then false
  else
    (match claim.validTime.start, claim.validTime.stop with
      | some start, some stop => decide (stop < start)
      | _, _ => false) ||
    match claim.validTime.start with
    | some start => decide (claim.transactionTime < start)
    | none => false

def adjudicate (proposal : Proposal) (config : EngineConfig) : GateDecision :=
  if proposal.candidate.provenance.isRecallReentry then
    { route := .recallTainted
      disposition := .committedCheap
      rationale := .obj [("route", .str "recall_reentry")] }
  else if isTemporallyIncoherent proposal.candidate config then
    { route := .quarantine
      disposition := .quarantined
      rationale := .obj [("route", .str "quarantine"),
        ("reason", .str "incoherent_temporal_window")] }
  else if proposal.candidate.provenance = .modelDerived then
    { route := .inferred
      disposition := .committedInferred
      rationale := .obj [("route", .str "inferred"),
        ("derivation_depth", .int proposal.candidate.externalAnchor.derivationDepth)] }
  else if proposal.conflictType = .noConflict ∨ proposal.incumbent.isNone = true then
    { route := .cheapPath
      disposition := .committedCheap
      rationale := .obj [("route", .str "cheap_path")] }
  else if proposal.conflictType = .succession then
    { route := .cheapPath
      disposition := .committedCheap
      rationale := .obj [("route", .str "succession_cheap_path"),
        ("reason", .str "trusted_temporal_succession")] }
  else
    let isFreshExternalContradiction := proposal.candidate.provenance.isCheapPathEligible &&
      (proposal.conflictType == .sameLineConflict || proposal.conflictType == .crossLineConflict)
    if isFreshExternalContradiction && !proposal.oraclePresent then
      { route := .heavyPath
        disposition := .contested
        rationale := .obj [("route", .str "heavy_path_contested_oracle_absent"),
          ("conflict_type", .str proposal.conflictType.debug),
          ("measured_confidence", .float proposal.measuredConfidence),
          ("oracle_present", .bool false)] }
    else
      { route := .heavyPath
        disposition := .queuedForAdjudication
        rationale := .obj [("route", .str "heavy_path"),
          ("conflict_type", .str proposal.conflictType.debug),
          ("corroboration_count", .int 0),
          ("measured_confidence", .float proposal.measuredConfidence),
          ("oracle_present", .bool proposal.oraclePresent)] }

end Mempill.Gate
