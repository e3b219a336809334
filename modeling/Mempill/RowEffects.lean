import Mempill.Invariants

set_option autoImplicit false

/-!
# Effects on rows

How an append changes the rows of a line: a claim without new entries keeps its
row, and a write adds one.
-/
namespace Mempill.RowEffects
open Mempill.Types Mempill.Persistence Mempill.TruthEngine Mempill.Rows Mempill.IngestClaim
open Mempill.Engine Mempill.Steps Mempill.Invariants StampedLog

variable {σ σ' : Store} {w : Written} {agentId : AgentId}

/-- The step writes no assertion and no entry for this claim of this agent. -/
structure Untouched (w : Written) (agentId : AgentId) (r : ClaimRef) : Prop where
  assertions : ∀ a ∈ w.assertions, a.agentId = agentId → a.targetClaim ≠ r
  ledger : ∀ e ∈ w.ledger, e.agentId = agentId → e.claimRef ≠ r

theorem assertionsOf_of_untouched (h : Appends σ σ' w) {r : ClaimRef}
    (hr : Untouched w agentId r) : assertionsOf σ' agentId r = assertionsOf σ agentId r := by
  rw [assertionsOf_append h, List.filter_eq_nil_iff.mpr, List.append_nil]
  intro a ha hp
  simp only [Bool.and_eq_true, beq_iff_eq] at hp
  exact hr.assertions a ha hp.1 hp.2

theorem entriesOf_of_untouched (h : Appends σ σ' w) {r : ClaimRef}
    (hr : Untouched w agentId r) (cutoff : Option Instant) :
    entriesOf σ' agentId cutoff r = entriesOf σ agentId cutoff r := by
  rw [entriesOf_append h, List.filter_eq_nil_iff.mpr, List.append_nil]
  intro e he hp
  simp only [Bool.and_eq_true, beq_iff_eq] at hp
  exact hr.ledger e he hp.1.1 hp.1.2

theorem rowOf_congr {cutoff : Option Instant} {asOf : Instant} {c : Claim}
    (hties : σ'.ties = σ.ties)
    (ha : assertionsOf σ' agentId c.claimRef = assertionsOf σ agentId c.claimRef)
    (he : entriesOf σ' agentId cutoff c.claimRef = entriesOf σ agentId cutoff c.claimRef) :
    rowOf σ' agentId cutoff asOf c = rowOf σ agentId cutoff asOf c := by
  simp only [rowOf, claimStatus, ha, latestOf, he, hties]

theorem rowOf_of_untouched (h : Appends σ σ' w) {cutoff : Option Instant} {asOf : Instant}
    {c : Claim} (hc : Untouched w agentId c.claimRef) :
    rowOf σ' agentId cutoff asOf c = rowOf σ agentId cutoff asOf c :=
  rowOf_congr h.ties (assertionsOf_of_untouched h hc) (entriesOf_of_untouched h hc cutoff)

section Ingested

abbrev ingestWritten (claim : Claim) (decision : Gate.GateDecision) (now : Instant) : Written :=
  { claims := [claim]
    ledger := [committedEntry claim decision now]
    edges := lineageEdges claim now }

variable {claim : Claim} {decision : Gate.GateDecision} {now : Instant}

theorem untouched_of_ingested {r : ClaimRef} (h : r ≠ claim.claimRef) :
    Untouched (ingestWritten claim decision now) agentId r := by
  constructor
  · intro a ha
    cases ha
  · intro e he _ heq
    rw [List.mem_singleton.mp he] at heq
    exact h heq.symm

theorem loadSubjectLine_ingested (h : Appends σ σ' (ingestWritten claim decision now))
    {subject predicate : String} {cutoff : Option Instant}
    (hline : onLine agentId subject predicate claim = true)
    (hcut : withinCutoff cutoff claim.transactionTime = true) :
    (loadSubjectLine σ' agentId subject predicate cutoff).Perm
      (claim :: loadSubjectLine σ agentId subject predicate cutoff) := by
  have hfilter : (σ'.claims.filter fun c =>
      onLine agentId subject predicate c && withinCutoff cutoff c.transactionTime) =
        (σ.claims.filter fun c =>
          onLine agentId subject predicate c && withinCutoff cutoff c.transactionTime) ++
          [claim] := by
    rw [h.claims, List.filter_append]
    simp [hline, hcut]
  unfold loadSubjectLine
  rw [hfilter]
  refine (inOrder_perm _ _).trans (List.perm_append_singleton claim _ |>.trans ?_)
  exact (inOrder_perm _ _).symm.cons claim

theorem lineRows_ingested (config : EngineConfig) (asOf : Instant)
    (h : Appends σ σ' (ingestWritten claim decision now))
    (hfresh : Fresh claim.claimRef.uuid σ) {subject predicate : String}
    {cutoff : Option Instant}
    (hline : onLine agentId subject predicate claim = true)
    (hcut : withinCutoff cutoff claim.transactionTime = true) :
    (lineRows config σ' agentId subject predicate cutoff asOf).Perm
      (rowOf σ' agentId cutoff asOf claim ::
        lineRows config σ agentId subject predicate cutoff asOf) := by
  have hclaims : (lineClaims config σ' agentId subject predicate cutoff).Perm
      (claim :: lineClaims config σ agentId subject predicate cutoff) :=
    (inOrder_perm _ _).trans
      ((loadSubjectLine_ingested h hline hcut).trans ((inOrder_perm _ _).symm.cons claim))
  have hold : lineRows config σ agentId subject predicate cutoff asOf =
      (lineClaims config σ agentId subject predicate cutoff).map
        (rowOf σ' agentId cutoff asOf) := by
    refine List.map_congr_left fun c hc => ?_
    have hne : c.claimRef ≠ claim.claimRef := fun heq =>
      Fresh.claim hfresh (mem_lineClaims.mp hc).1 (congrArg ClaimRef.uuid heq)
    exact (rowOf_of_untouched h (untouched_of_ingested hne)).symm
  rw [hold]
  exact hclaims.map (rowOf σ' agentId cutoff asOf)

theorem entriesOf_ingested (h : Appends σ σ' (ingestWritten claim decision now))
    (hfresh : Fresh claim.claimRef.uuid σ) (hagent : claim.agentId = agentId)
    {cutoff : Option Instant} (hcut : withinCutoff cutoff now = true) :
    entriesOf σ' agentId cutoff claim.claimRef = [committedEntry claim decision now] := by
  rw [entriesOf_append h, entriesOf_of_fresh hfresh]
  simp [committedEntry, hagent, hcut]

theorem assertionsOf_ingested (h : Appends σ σ' (ingestWritten claim decision now))
    (hfresh : Fresh claim.claimRef.uuid σ) : assertionsOf σ' agentId claim.claimRef = [] := by
  rw [assertionsOf_append h, assertionsOf_of_fresh hfresh]
  rfl

theorem rowOf_ingested (h : Appends σ σ' (ingestWritten claim decision now))
    (hfresh : Fresh claim.claimRef.uuid σ) (hagent : claim.agentId = agentId)
    {cutoff : Option Instant} (hcut : withinCutoff cutoff now = true) (asOf : Instant) :
    rowOf σ' agentId cutoff asOf claim =
      { claim := claim
        isLive := !isNonLiveDisposition decision.disposition
        lastDisposition := some decision.disposition
        boundAt := none
        boundAtGranularity := none } := by
  have hbound : activeBoundAt [] asOf = none := rfl
  simp only [rowOf, claimStatus, assertionsOf_ingested h hfresh, hbound, latestOf,
    entriesOf_ingested h hfresh hagent hcut, TieOrder.first_singleton]
  rfl

end Ingested

end Mempill.RowEffects
