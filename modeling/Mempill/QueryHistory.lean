import Mempill.IngestClaim

set_option autoImplicit false

/-!
# Query history

The audit timeline of one subject line.
-/
namespace Mempill.QueryHistory
open Mempill.Types Mempill.Persistence Mempill.TruthEngine Mempill.IngestClaim

structure QueryHistoryRequest where
  agentId : AgentId
  subject : String
  predicate : String
  deriving DecidableEq

structure HistoryEntry where
  claimRef : ClaimRef
  value : Json
  validFrom : Option Instant
  validUntil : Option Instant
  validFromGranularity : Option DateGranularity
  validUntilGranularity : Option DateGranularity
  status : HistoryEntryStatus
  provenance : ProvenanceLabel
  valueConfidence : F32
  deriving DecidableEq

def entryStatus (liveClaims : List ClaimWithStatus) (cs : ClaimWithStatus) (w : HistoryWindow) :
    HistoryEntryStatus :=
  if !cs.isLive then .superseded
  else if w.contested then .contested
  else if liveClaims.any (fun live => live.claim.claimRef == cs.claim.claimRef) &&
      w.containsNow then .current
  else .ended

def historyEntry (liveClaims : List ClaimWithStatus) (cs : ClaimWithStatus) (w : HistoryWindow) :
    HistoryEntry where
  claimRef := cs.claim.claimRef
  value := cs.claim.fact.value
  validFrom := cs.claim.validTime.start
  validUntil := w.validUntil
  validFromGranularity := cs.claim.validTime.startGranularity
  validUntilGranularity := w.validUntilGranularity
  status := entryStatus liveClaims cs w
  provenance := cs.claim.provenance
  valueConfidence := cs.claim.confidence.valueConfidence

/-- The entries in key order. The source returns early on an empty line, which
    gives the same empty list. -/
def execute (config : EngineConfig) (σ : Store) (req : QueryHistoryRequest) (now : Instant) :
    List HistoryEntry :=
  let folded := foldForWrite config σ req.agentId req.subject req.predicate now
  let windows := computeHistoryWindows folded.allClaims folded.hasConflict now config
  List.zipWith (historyEntry folded.liveClaims) folded.allClaims windows

end Mempill.QueryHistory
