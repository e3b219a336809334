import Mempill.Ledger
import Mempill.Persistence
import Mempill.TruthEngine

set_option autoImplicit false

/-!
# Assert validity

The host-facing bound and reopen of one claim.
-/
namespace Mempill.AssertValidity
open Mempill.Types Mempill.Persistence Mempill.TruthEngine Mempill.Ledger

inductive ValidityAssertionInput where
  | bound (at_ : Instant) (atGranularity : Option DateGranularity)
  | reopen
  deriving DecidableEq

structure AssertValidityRequest where
  agentId : AgentId
  target : ClaimRef
  assertion : ValidityAssertionInput
  provenance : ProvenanceLabel
  confidence : Confidence
  deriving DecidableEq

structure AssertValidityResponse where
  claimRef : ClaimRef
  assertionRef : Option Uuid
  kind : AssertionKind
  effectiveAt : Option Instant
  disposition : Disposition
  noOp : Bool
  deriving DecidableEq

/-- `VERDICT_HOST_BOUND`. -/
def verdictHostBound : String := "host_bound"

def hostAssertion (req : AssertValidityRequest) (kind : AssertionKind) (now : Instant)
    (assertionRef : Uuid) : ValidityAssertion where
  assertionRef := assertionRef
  agentId := req.agentId
  targetClaim := req.target
  kind := kind
  provenance := req.provenance
  confidence := req.confidence
  assertedAt := now

def hostEntry (req : AssertValidityRequest) (disposition : Disposition) (rationale : Json)
    (now : Instant) : LedgerEntry where
  agentId := req.agentId
  claimRef := req.target
  eventKind := .validityAsserted
  disposition := disposition
  rationale := some rationale
  recordedAt := now

def writeValidityAndLedger (σ : Store) (assertion : ValidityAssertion) (entry : LedgerEntry) :
    Store :=
  appendLedgerEntry (appendValidityAssertion σ assertion) entry

/-- Gate 2.5, on the full ledger of the target. -/
def underAdjudication (σ : Store) (agentId : AgentId) (target : ClaimRef) : Bool :=
  let targetLedger := loadLedgerForClaims σ agentId [target] none
  buildLatestDispositionMap targetLedger target == some .queuedForAdjudication ||
    buildDeniedViaAdjudicationSet targetLedger target

def hostBoundRationale (at_ : Instant) : Json :=
  .obj [("event", .str "assert_validity_bound"), ("bound_at", .time at_),
    ("verdict", .str verdictHostBound)]

def reopenRationale (now : Instant) : Json :=
  .obj [("event", .str "assert_validity_reopen"), ("reopen_at", .time now)]

def executeBound (σ : Store) (req : AssertValidityRequest) (targetClaim : Claim)
    (activeBound : Option BoundState) (at_ : Instant) (atGranularity : Option DateGranularity)
    (now : Instant) (assertionRef : Uuid) : Except MemError AssertValidityResponse × Store :=
  if underAdjudication σ req.agentId req.target then
    (.error (.targetUnderAdjudication req.target), σ)
  else if targetClaim.validTime.start.any (fun start => decide (at_ < start)) then
    (.error (.incoherentTemporalWindow (targetClaim.validTime.start.getD 0) at_), σ)
  else match activeBound with
    | some existing =>
      if existing.boundAt = at_ then
        (.ok { claimRef := req.target
               assertionRef := some existing.assertionRef
               kind := .bound existing.boundAt existing.boundAtGranularity
               effectiveAt := some existing.boundAt
               disposition := .superseded
               noOp := true }, σ)
      else (.error (.alreadyBound req.target existing.boundAt), σ)
    | none =>
      match targetClaim.validTime.stop.filter (fun ownEnd => decide (ownEnd ≤ at_)) with
      | some ownEnd =>
        (.ok { claimRef := req.target
               assertionRef := none
               kind := .bound ownEnd targetClaim.validTime.stopGranularity
               effectiveAt := some ownEnd
               disposition := .superseded
               noOp := true }, σ)
      | none =>
        (.ok { claimRef := req.target
               assertionRef := some assertionRef
               kind := .bound at_ atGranularity
               effectiveAt := some at_
               disposition := .superseded
               noOp := false },
          writeValidityAndLedger σ
            (hostAssertion req (.bound at_ atGranularity) now assertionRef)
            (hostEntry req .superseded (hostBoundRationale at_) now))

/-- A reopen without an active bound is a no-op. -/
def executeReopen (σ : Store) (req : AssertValidityRequest) (activeBound : Option BoundState)
    (now : Instant) (assertionRef : Uuid) : Except MemError AssertValidityResponse × Store :=
  match activeBound with
  | none =>
    (.ok { claimRef := req.target
           assertionRef := none
           kind := .reopen now
           effectiveAt := none
           disposition := .reinstated
           noOp := true }, σ)
  | some _ =>
    (.ok { claimRef := req.target
           assertionRef := some assertionRef
           kind := .reopen now
           effectiveAt := some now
           disposition := .reinstated
           noOp := false },
      writeValidityAndLedger σ (hostAssertion req (.reopen now) now assertionRef)
        (hostEntry req .reinstated (reopenRationale now) now))

def execute (σ : Store) (req : AssertValidityRequest) (now : Instant) (assertionRef : Uuid) :
    Except MemError AssertValidityResponse × Store :=
  if !req.provenance.isCheapPathEligible then
    (.error (.insufficientProvenanceForOverturn req.provenance), σ)
  else match loadClaim σ req.agentId req.target with
    | none => (.error (.claimNotFound req.target), σ)
    | some targetClaim =>
      let activeBound := activeBoundAt (loadValidityAssertionsFor σ req.agentId req.target) now
      match req.assertion with
      | .bound at_ atGranularity =>
        executeBound σ req targetClaim activeBound at_ atGranularity now assertionRef
      | .reopen => executeReopen σ req activeBound now assertionRef

end Mempill.AssertValidity
