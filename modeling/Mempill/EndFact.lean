import Mempill.Engine

set_option autoImplicit false

/-!
# End fact

The ergonomic ending of a fact: a step that resolves the line to one claim, and a
step that bounds it. Other operations may run in between.
-/
namespace Mempill.EndFact
open Mempill.Types Mempill.Persistence Mempill.TruthEngine Mempill.IngestClaim
open Mempill.AssertValidity Mempill.Engine

inductive LiveClaimResolution where
  | empty
  | single (claimRef : ClaimRef)
  | ambiguous (liveCount : ℕ)
  deriving DecidableEq

/-- The canonical fold of a line, on the rows stamped up to `now`. -/
def foldForClose (config : EngineConfig) (σ : Store) (agentId : AgentId)
    (subject predicate : String) (now : Instant) : FoldResult :=
  let reads := readLine σ agentId subject predicate (some now)
  fold reads.claims (loadValidityAssertionsFor σ agentId) now none config reads.latestDisposition

def resolveLiveClaimForLine (config : EngineConfig) (σ : Store) (agentId : AgentId)
    (subject predicate : String) (now : Instant) : LiveClaimResolution :=
  match (foldForClose config σ agentId subject predicate now).liveClaims with
  | [] => .empty
  | [cs] => .single cs.claim.claimRef
  | liveClaims => .ambiguous liveClaims.length

/-- The arguments of a call; `at` is the text of a date. -/
structure EndFactRequest where
  agentId : AgentId
  subject : String
  predicate : String
  at_ : String
  provenance : Option ProvenanceLabel
  confidence : Option F32
  deriving DecidableEq

structure EndFactReceipt where
  claimRef : ClaimRef
  disposition : Disposition
  effectiveAt : Instant
  noOp : Bool
  deriving DecidableEq

inductive MempillDxError where
  | unparsableDate (input hint : String)
  | engine (error : MemError)
  | noLiveClaimForClose (subject predicate : String)
  deriving DecidableEq

def unparsableHint : String :=
  "Use YYYY, YYYY-MM, YYYY-MM-DD, or RFC3339 (e.g. 2026-01-01T00:00:00Z). " ++
    "Natural-language dates must be resolved by the caller before passing to end_fact()."

def boundRequest (req : EndFactRequest) (target : ClaimRef) (atDt : Instant)
    (atGran : DateGranularity) : AssertValidityRequest :=
  let valueConfidence := req.confidence.getD certain
  { agentId := req.agentId
    target := target
    assertion := .bound atDt (some atGran)
    provenance := req.provenance.getD (.external .userAsserted)
    confidence := ⟨valueConfidence, valueConfidence⟩ }

/-- Resolves the line on `seen`, at `resolvedAt`, and bounds the claim on `σ`, at `now`.
    The parser of dates is a library's. -/
def endFact (parse : String → Option (Instant × DateGranularity)) (config : EngineConfig)
    (seen : Store) (resolvedAt : Instant) (σ : Store) (req : EndFactRequest) (now : Instant)
    (assertionRef : Uuid) : Except MempillDxError EndFactReceipt × Store :=
  match parse req.at_ with
  | none => (.error (.unparsableDate req.at_ unparsableHint), σ)
  | some (atDt, atGran) =>
    match resolveLiveClaimForLine config seen req.agentId req.subject req.predicate
      resolvedAt with
    | .empty => (.error (.noLiveClaimForClose req.subject req.predicate), σ)
    | .ambiguous liveCount =>
      (.error (.engine (.ambiguousLineForClose req.subject req.predicate liveCount)), σ)
    | .single target =>
      match AssertValidity.execute σ (boundRequest req target atDt atGran) now assertionRef with
      | (.error e, σ') => (.error (.engine e), σ')
      | (.ok resp, σ') =>
        (.ok { claimRef := resp.claimRef
               disposition := resp.disposition
               effectiveAt := resp.effectiveAt.getD atDt
               noOp := resp.noOp }, σ')

end Mempill.EndFact
