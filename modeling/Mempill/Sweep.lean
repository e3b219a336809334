import Mempill.IngestClaim
import Mempill.SubmitAdjudication

set_option autoImplicit false

/-!
# Sweep

The listings behind a sweep, and the sweep over both. A sweep that meets no error
of its ports is one pass over the expired rows and one over the orphans.
-/
namespace Mempill.Sweep
open Mempill.Types Mempill.Persistence Mempill.IngestClaim Mempill.SubmitAdjudication StampedLog

/-- The pending rows past their expiry, in the order in which they expire. -/
def listExpired (σ : Store) (now : Instant) : List PendingAdjudicationRow :=
  inOrder (fun row => row.expiresAt.getD 0) (σ.pending.filter fun row =>
    row.expiresAt.any (fun t => decide (t ≤ now)) && row.status == .pending)

/-- The entry is stamped `MAX(recorded_at)` of its claim. -/
def isLatestEntry (σ : Store) (entry : LedgerEntry) : Bool :=
  σ.ledger.all fun e =>
    !(e.agentId == entry.agentId && e.claimRef == entry.claimRef) ||
      decide (e.recordedAt ≤ entry.recordedAt)

def hasPendingRow (σ : Store) (agentId : AgentId) (challenger : ClaimRef) : Bool :=
  σ.pending.any fun row =>
    row.challengerClaimRef == challenger && row.agentId == agentId && row.status == .pending

/-- The claim row that a ledger entry joins with. -/
def claimsOf (σ : Store) (entry : LedgerEntry) : List Claim :=
  σ.claims.filter fun c => c.claimRef == entry.claimRef && c.agentId == entry.agentId

/-- A claim of the line committed cheaply by its latest entry; the query leaves the
    order of equal stamps open. -/
def findCommittedCheapClaim (σ : Store) (agentId : AgentId) (subject predicate : String) :
    Option ClaimRef :=
  (firstMax LedgerEntry.recordedAt (σ.ledger.filter fun e =>
    e.agentId == agentId && e.disposition == .committedCheap && isLatestEntry σ e &&
      (claimsOf σ e).any fun c =>
        c.fact.subject == subject && c.fact.predicate == predicate)).map (·.claimRef)

/-- One orphan for each latest queued entry of a claim without a pending row. -/
def listQueuedOrphanClaims (σ : Store) : List OrphanedQueuedClaim :=
  (σ.ledger.filter fun e => e.disposition == .queuedForAdjudication && isLatestEntry σ e &&
      !hasPendingRow σ e.agentId e.claimRef).flatMap fun e =>
    (claimsOf σ e).map fun c =>
      { agentId := e.agentId
        challengerClaimRef := e.claimRef
        incumbentClaimRef :=
          findCommittedCheapClaim σ e.agentId c.fact.subject c.fact.predicate
        subject := c.fact.subject
        predicate := c.fact.predicate }

/-- A pass counts the items it reverts. -/
def sweepPass {α : Type} (revert : Store → α → Bool × Store) (items : List α)
    (start : ℕ × Store) : ℕ × Store :=
  items.foldl (fun acc item =>
    let (reverted, σ) := revert acc.2 item
    (acc.1 + reverted.toNat, σ)) start

def sweepExpiredAdjudications (eng : Engine) (σ : Store) (now : Instant) : ℕ × Store :=
  if eng.pendingStorePresent then
    let expired := sweepPass (fun σ row => revertExpiredRow σ row now) (listExpired σ now) (0, σ)
    sweepPass (fun σ orphan => revertOrphan σ orphan now) (listQueuedOrphanClaims expired.2)
      expired
  else (0, σ)

end Mempill.Sweep
