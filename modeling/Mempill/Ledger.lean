import Mempill.Lib.StampedLog
import Mempill.Types

set_option autoImplicit false

/-!
# Ledger scans

What the use cases read off a loaded slice of the ledger.
-/
namespace Mempill.Ledger
open Mempill.Types StampedLog

/-- The map keeps, for each claim, the first entry of greatest `recordedAt`. -/
def buildLatestDispositionMap (ledger : List LedgerEntry) : ClaimRef → Option Disposition :=
  fun claimRef =>
    (latestBy LedgerEntry.recordedAt LedgerEntry.claimRef ledger claimRef).map (·.disposition)

/-- `max_by_key` keeps the last of several maxima. -/
def latestDispositionFromLedger (ledger : List LedgerEntry) (target : ClaimRef) :
    Option Disposition :=
  (lastMax LedgerEntry.recordedAt (ledger.filter (fun e => e.claimRef == target))).map
    (·.disposition)

def verdictField (entry : LedgerEntry) : Option String :=
  (entry.rationale.bind (·.get "verdict")).bind (·.asStr)

def afterLastReinstated (entries : List LedgerEntry) : List LedgerEntry :=
  (entries.reverse.takeWhile (fun e => e.disposition != .reinstated)).reverse

def hasQueuedThenSuperseded : List LedgerEntry → Bool
  | e :: f :: rest =>
    (e.disposition == .queuedForAdjudication && f.disposition == .superseded) ||
      hasQueuedThenSuperseded (f :: rest)
  | _ => false

/-- The per-claim test on the entries in `recordedAt` order. An entry without a
    verdict field is a legacy row and is judged by what precedes it. -/
def deniedByEntries (entries : List LedgerEntry) : Bool :=
  match entries.getLast? with
  | none => false
  | some last =>
    if last.disposition != .superseded then false
    else match verdictField last with
      | some v => v == "deny"
      | none => hasQueuedThenSuperseded (afterLastReinstated entries)

def buildDeniedViaAdjudicationSet (ledger : List LedgerEntry) : ClaimRef → Bool :=
  fun claimRef =>
    deniedByEntries (inOrder LedgerEntry.recordedAt
      (ledger.filter (fun e => e.claimRef == claimRef)))

end Mempill.Ledger
