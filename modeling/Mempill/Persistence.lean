import Mempill.Lib.TieOrder
import Mempill.Types

set_option autoImplicit false

/-!
# Store

The append-only tables behind the persistence and pending-adjudication ports,
in commit order. Every read filters a table and orders it by its stamp. Equal stamps
come back from the ledger in the store's own order of ties; in the other tables, which
are read into sorts and selections with keys of their own, they stay in commit order.
-/
namespace Mempill.Persistence
open Mempill.Types StampedLog

structure Store where
  claims : List Claim
  assertions : List ValidityAssertion
  ledger : List LedgerEntry
  edges : List ClaimEdge
  pending : List PendingAdjudicationRow
  /-- How a select that orders by `recorded_at` alone returns equal stamps. -/
  ties : TieOrder LedgerEntry

namespace Store

def empty (ties : TieOrder LedgerEntry) : Store := ⟨[], [], [], [], [], ties⟩

/-- A store as the migrations leave it, whatever its order of ties. -/
def New (σ : Store) : Prop := ∃ ties, σ = empty ties

theorem new_empty (ties : TieOrder LedgerEntry) : New (empty ties) := ⟨ties, rfl⟩

/-- SQLite walks `idx_ledger_agent_time`, which descends, backwards. -/
abbrev sqlite : Store := empty .newestFirst

theorem new_sqlite : New sqlite := ⟨_, rfl⟩

variable {σ τ : Store}

theorem eq_iff_of_ties (h : σ.ties = τ.ties) :
    σ = τ ↔ σ.claims = τ.claims ∧ σ.assertions = τ.assertions ∧ σ.ledger = τ.ledger ∧
      σ.edges = τ.edges ∧ σ.pending = τ.pending := by
  cases σ
  cases τ
  cases h
  simp

/-- Stores with one order of ties are compared by their rows. -/
def decEqOfTies (h : σ.ties = τ.ties) : Decidable (σ = τ) := decidable_of_iff' _ (eq_iff_of_ties h)

end Store

section Reads

def onLine (agentId : AgentId) (subject predicate : String) (claim : Claim) : Bool :=
  claim.agentId == agentId && claim.fact.subject == subject && claim.fact.predicate == predicate

/-- `stamp <= ?` where a cutoff is given. -/
def withinCutoff (asOf : Option Instant) (stamp : Instant) : Bool :=
  asOf.all (fun t => decide (stamp ≤ t))

def loadSubjectLine (σ : Store) (agentId : AgentId) (subject predicate : String)
    (asOfTxTime : Option Instant) : List Claim :=
  inOrder Claim.transactionTime (σ.claims.filter fun c =>
    onLine agentId subject predicate c && withinCutoff asOfTxTime c.transactionTime)

def loadClaim (σ : Store) (agentId : AgentId) (claimRef : ClaimRef) : Option Claim :=
  σ.claims.find? (fun c => c.agentId == agentId && c.claimRef == claimRef)

def loadValidityAssertionsFor (σ : Store) (agentId : AgentId) (claimRef : ClaimRef) :
    List ValidityAssertion :=
  inOrder ValidityAssertion.assertedAt (σ.assertions.filter fun a =>
    a.agentId == agentId && a.targetClaim == claimRef)

def loadLedgerForClaims (σ : Store) (agentId : AgentId) (claimRefs : List ClaimRef)
    (asOfTxTime : Option Instant) : List LedgerEntry :=
  inOrder LedgerEntry.recordedAt (σ.ties.arrange (σ.ledger.filter fun e =>
    e.agentId == agentId && claimRefs.contains e.claimRef &&
      withinCutoff asOfTxTime e.recordedAt))

def loadEdgesFor (σ : Store) (agentId : AgentId) (claimRef : ClaimRef) : List ClaimEdge :=
  inOrder ClaimEdge.createdAt (σ.edges.filter fun e =>
    e.agentId == agentId && (e.fromClaim == claimRef || e.toClaim == claimRef))

/-- One reference for each injected claim, by its earliest entry. -/
def loadInjectedClaims (σ : Store) (agentId : AgentId) : List ClaimRef :=
  ((inOrder LedgerEntry.recordedAt (σ.ties.arrange (σ.ledger.filter fun e =>
    e.agentId == agentId && e.eventKind == .servedAsInjected))).map (·.claimRef)).eraseDups

def getPending (σ : Store) (handleId : Uuid) : Option PendingAdjudicationRow :=
  σ.pending.find? (fun row => row.handleId == handleId)

end Reads

section Writes

def appendClaim (σ : Store) (claim : Claim) : Store :=
  { σ with claims := σ.claims ++ [claim] }

def appendValidityAssertion (σ : Store) (assertion : ValidityAssertion) : Store :=
  { σ with assertions := σ.assertions ++ [assertion] }

def appendLedgerEntries (σ : Store) (entries : List LedgerEntry) : Store :=
  { σ with ledger := σ.ledger ++ entries }

def appendLedgerEntry (σ : Store) (entry : LedgerEntry) : Store := appendLedgerEntries σ [entry]

def appendClaimEdges (σ : Store) (edges : List ClaimEdge) : Store :=
  { σ with edges := σ.edges ++ edges }

/-- The handle is the primary key of the pending table. -/
def insertPending (σ : Store) (row : PendingAdjudicationRow) : Option Store :=
  if (getPending σ row.handleId).isSome then none
  else some { σ with pending := σ.pending ++ [row] }

def setPendingStatus (σ : Store) (handleId : Uuid) (status : PendingStatus) : Store :=
  { σ with pending := σ.pending.map fun row =>
      if row.handleId == handleId then { row with status := status } else row }

def markResolved (σ : Store) (handleId : Uuid) : Store := setPendingStatus σ handleId .resolved

def markExpired (σ : Store) (handleId : Uuid) : Store := setPendingStatus σ handleId .expired

end Writes

def uuids (σ : Store) : List Uuid :=
  σ.claims.map (·.claimRef.uuid) ++
    σ.assertions.flatMap (fun a => [a.assertionRef, a.targetClaim.uuid]) ++
    σ.ledger.map (·.claimRef.uuid) ++
    σ.edges.flatMap (fun e => [e.fromClaim.uuid, e.toClaim.uuid]) ++
    σ.pending.flatMap (fun r =>
      [r.handleId, r.challengerClaimRef.uuid, r.incumbentClaimRef.uuid])

/-- What `Uuid::new_v4` supplies: an identifier no table holds yet. -/
def Fresh (uuid : Uuid) (σ : Store) : Prop := uuid ∉ uuids σ

instance (uuid : Uuid) (σ : Store) : Decidable (Fresh uuid σ) := by unfold Fresh; infer_instance

structure StampsBy (σ : Store) (t : Instant) : Prop where
  claims : ∀ c ∈ σ.claims, c.transactionTime ≤ t
  assertions : ∀ a ∈ σ.assertions, a.assertedAt ≤ t
  ledger : ∀ e ∈ σ.ledger, e.recordedAt ≤ t

theorem StampsBy.mono {σ : Store} {t u : Instant} (h : StampsBy σ t) (hle : t ≤ u) :
    StampsBy σ u where
  claims c hc := le_trans (h.claims c hc) hle
  assertions a ha := le_trans (h.assertions a ha) hle
  ledger e he := le_trans (h.ledger e he) hle

end Mempill.Persistence
