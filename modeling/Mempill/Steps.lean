import Mempill.Engine
import Mempill.Rows

set_option autoImplicit false

/-!
# Steps

What one operation can append to the tables, with the guards under which it
does so. Every invariant of a run is read off these cases.
-/
namespace Mempill.Steps
open Mempill.Types Mempill.Persistence Mempill.TruthEngine Mempill.Gate Mempill.Rows
open Mempill.IngestClaim Mempill.AssertValidity Mempill.SubmitAdjudication Mempill.Reconcile
open Mempill.Engine

structure Written where
  claims : List Claim := []
  assertions : List ValidityAssertion := []
  ledger : List LedgerEntry := []
  edges : List ClaimEdge := []

structure Appends (σ σ' : Store) (w : Written) : Prop where
  claims : σ'.claims = σ.claims ++ w.claims
  assertions : σ'.assertions = σ.assertions ++ w.assertions
  ledger : σ'.ledger = σ.ledger ++ w.ledger
  edges : σ'.edges = σ.edges ++ w.edges
  ties : σ'.ties = σ.ties

theorem Appends.nothing (σ : Store) : Appends σ σ {} := by
  constructor <;> simp

/-- The guard lets the request through to the classifier. -/
def Admitted (config : EngineConfig) (σ : Store) (req : IngestClaimRequest)
    (claimRef : ClaimRef) (now : Instant) : Prop :=
  match check config (stamp req claimRef now) (loadInjectedClaims σ req.agentId) 0 with
  | .admitted | .depthCapExceeded _ _ => True
  | _ => False

/-- The gates that a bound passes before it is written. -/
structure BoundAccepted (σ : Store) (req : AssertValidityRequest) (target : Claim)
    (at_ : Instant) (now : Instant) : Prop where
  provenance : req.provenance.isCheapPathEligible = true
  load : loadClaim σ req.agentId req.target = some target
  free : underAdjudication σ req.agentId req.target = false
  coherent : ∀ s, target.validTime.start = some s → s ≤ at_
  notBound : activeBoundAt (assertionsOf σ req.agentId req.target) now = none
  narrows : ∀ e, target.validTime.stop = some e → at_ < e

structure ReopenAccepted (σ : Store) (req : AssertValidityRequest) (now : Instant) : Prop where
  provenance : req.provenance.isCheapPathEligible = true
  load : ∃ target, loadClaim σ req.agentId req.target = some target
  isBound : ∃ b, activeBoundAt (assertionsOf σ req.agentId req.target) now = some b

structure VerdictAccepted (σ : Store) (handleId : Uuid) (now : Instant)
    (row : PendingAdjudicationRow) (challenger : Claim) : Prop where
  pending : getPending σ handleId = some row
  unexpired : ∀ t, row.expiresAt = some t → now < t
  queued : currentDisposition σ row.agentId row.challengerClaimRef = some .queuedForAdjudication
  load : loadClaim σ row.agentId row.challengerClaimRef = some challenger

def verdictWritten (config : EngineConfig) (σ : Store) (row : PendingAdjudicationRow)
    (challenger : Claim) (response : AdjudicationResponse) (now : Instant)
    (assertionRef : Uuid) : Written :=
  match response.verdict with
  | .affirm =>
    let boundAt := affirmBoundAt config challenger now
    { assertions := [oracleAssertion row.agentId row.incumbentClaimRef boundAt.1 boundAt.2 now
        assertionRef]
      ledger := [supersededEntry row.agentId row.incumbentClaimRef row.challengerClaimRef
          boundAt.1 now "affirm"] ++
        cascadeEntries row.agentId row.incumbentClaimRef row.challengerClaimRef now
          (loadEdgesFor σ row.agentId row.incumbentClaimRef) ++
        [resolvedEntry row.agentId row.challengerClaimRef .committedCheap
          (affirmRationale response.evidenceProvenance) now] }
  | .deny =>
    { assertions := [oracleAssertion row.agentId row.challengerClaimRef now none now assertionRef]
      ledger := [supersededEntry row.agentId row.challengerClaimRef row.incumbentClaimRef now now
          "deny"] ++
        cascadeEntries row.agentId row.challengerClaimRef row.incumbentClaimRef now
          (loadEdgesFor σ row.agentId row.challengerClaimRef) }
  | .unknown =>
    { ledger := [resolvedEntry row.agentId row.challengerClaimRef .contested abstainRationale now,
        resolvedEntry row.agentId row.incumbentClaimRef .contested abstainRationale now] }

@[simp] theorem verdictWritten_claims (config : EngineConfig) (σ : Store)
    (row : PendingAdjudicationRow) (challenger : Claim) (response : AdjudicationResponse)
    (now : Instant) (assertionRef : Uuid) :
    (verdictWritten config σ row challenger response now assertionRef).claims = [] := by
  cases hv : response.verdict <;> simp only [verdictWritten, hv]

inductive Outcome (eng : Engine) (σ : Store) : Op → Written → Prop where
  | silent (op : Op) : Outcome eng σ op {}
  | ingested {req : IngestClaimRequest} {now : Instant} {claimRef : ClaimRef}
      {reply : Except String Uuid} (hadmitted : Admitted eng.config σ req claimRef now) :
      Outcome eng σ (.ingestClaim req now claimRef reply)
        { claims := [stamp req claimRef now]
          ledger := [committedEntry (stamp req claimRef now)
            (gateDecision eng σ req (stamp req claimRef now) now) now]
          edges := lineageEdges (stamp req claimRef now) now }
  | bounded {req : AssertValidityRequest} {now : Instant} {assertionRef : Uuid} {target : Claim}
      {at_ : Instant} {granularity : Option DateGranularity}
      (hassert : req.assertion = .bound at_ granularity)
      (haccepted : BoundAccepted σ req target at_ now) :
      Outcome eng σ (.assertValidity req now assertionRef)
        { assertions := [hostAssertion req (.bound at_ granularity) now assertionRef]
          ledger := [hostEntry req .superseded (hostBoundRationale at_) now] }
  | reopened {req : AssertValidityRequest} {now : Instant} {assertionRef : Uuid}
      (hassert : req.assertion = .reopen) (haccepted : ReopenAccepted σ req now) :
      Outcome eng σ (.assertValidity req now assertionRef)
        { assertions := [hostAssertion req (.reopen now) now assertionRef]
          ledger := [hostEntry req .reinstated (reopenRationale now) now] }
  | resolved {handleId : Uuid} {response : AdjudicationResponse} {now : Instant}
      {assertionRef : Uuid} {row : PendingAdjudicationRow} {challenger : Claim}
      (haccepted : VerdictAccepted σ handleId now row challenger) :
      Outcome eng σ (.submitAdjudication handleId response now assertionRef)
        (verdictWritten eng.config σ row challenger response now assertionRef)
  | lazilyExpired {handleId : Uuid} {response : AdjudicationResponse} {now : Instant}
      {assertionRef : Uuid} {row : PendingAdjudicationRow} {rationale : Json}
      (hrow : getPending σ handleId = some row)
      (hqueued : currentDisposition σ row.agentId row.challengerClaimRef =
        some .queuedForAdjudication) :
      Outcome eng σ (.submitAdjudication handleId response now assertionRef)
        { ledger := [expiredEntry row rationale now] }
  | reconciled {req : ReconcileRequest} {now : Instant} :
      Outcome eng σ (.reconcile req now)
        { ledger := (decisions eng σ req now).map (decisionEntry req.agentId now) }
  | sweptRow {row : PendingAdjudicationRow} {now : Instant}
      (hqueued : currentDisposition σ row.agentId row.challengerClaimRef =
        some .queuedForAdjudication) :
      Outcome eng σ (.sweepExpired row now)
        { ledger := [expiredEntry row (expiryRationale row now) now] }
  | sweptOrphan {orphan : OrphanedQueuedClaim} {now : Instant}
      (hqueued : currentDisposition σ orphan.agentId orphan.challengerClaimRef =
        some .queuedForAdjudication) :
      Outcome eng σ (.sweepOrphan orphan now) { ledger := [orphanEntry orphan now] }
  | edged {edge : ClaimEdge} : Outcome eng σ (.appendEdge edge) { edges := [edge] }

section Ingest

variable {eng : Engine} {σ : Store} {req : IngestClaimRequest} {now : Instant}
variable {claimRef : ClaimRef} {reply : Except String Uuid}

theorem execute_of_admitted (h : Admitted eng.config σ req claimRef now) :
    IngestClaim.execute eng σ req now claimRef reply =
      executeAdmitted eng σ req (stamp req claimRef now) now reply := by
  unfold Admitted at h
  unfold IngestClaim.execute
  cases hc : check eng.config (stamp req claimRef now) (loadInjectedClaims σ req.agentId) 0 <;>
    simp_all

theorem execute_of_not_admitted (h : ¬ Admitted eng.config σ req claimRef now) :
    (IngestClaim.execute eng σ req now claimRef reply).2 = σ := by
  unfold Admitted at h
  unfold IngestClaim.execute
  cases hc : check eng.config (stamp req claimRef now) (loadInjectedClaims σ req.agentId) 0 <;>
    simp_all

theorem admitted_of_external (hprov : req.provenance.isCheapPathEligible = true)
    (hburst : 0 < eng.config.quarantineBurstThreshold) :
    Admitted eng.config σ req claimRef now := by
  have hrecall : req.provenance.isRecallReentry = false := by
    cases hp : req.provenance <;> simp_all [ProvenanceLabel.isCheapPathEligible,
      ProvenanceLabel.isRecallReentry]
  have hnb : ¬ (0 ≥ eng.config.quarantineBurstThreshold) := by omega
  simp [Admitted, check, stamp, hrecall, hnb]

theorem not_admitted_of_burst (hburst : eng.config.quarantineBurstThreshold = 0) :
    ¬ Admitted eng.config σ req claimRef now := by
  simp [Admitted, check, hburst]

theorem appendWithinTxn_appends (σ : Store) (claim : Claim) (decision : GateDecision)
    (now : Instant) :
    Appends σ (appendWithinTxn σ claim decision now)
      { claims := [claim]
        ledger := [committedEntry claim decision now]
        edges := lineageEdges claim now } := by
  constructor <;> simp [appendWithinTxn, appendClaimEdges, appendLedgerEntry,
    appendLedgerEntries, appendClaim]

theorem insertPending_tables {σ σ' : Store} {row : PendingAdjudicationRow}
    (h : insertPending σ row = some σ') :
    σ' = { σ with pending := σ.pending ++ [row] } := by
  unfold insertPending at h
  split at h
  · cases h
  · exact (Option.some.inj h).symm

theorem Appends.of_insertPending {σ σ₁ σ₂ : Store} {w : Written}
    {row : PendingAdjudicationRow} (h : Appends σ σ₁ w) (hi : insertPending σ₁ row = some σ₂) :
    Appends σ σ₂ w := by
  rw [insertPending_tables hi]
  exact ⟨h.claims, h.assertions, h.ledger, h.edges, h.ties⟩

theorem executeAdmitted_appends (eng : Engine) (σ : Store) (req : IngestClaimRequest)
    (claim : Claim) (now : Instant) (reply : Except String Uuid) :
    Appends σ (executeAdmitted eng σ req claim now reply).2
      { claims := [claim]
        ledger := [committedEntry claim (gateDecision eng σ req claim now) now]
        edges := lineageEdges claim now } := by
  have hbase := appendWithinTxn_appends σ claim (gateDecision eng σ req claim now) now
  unfold executeAdmitted
  dsimp only
  split
  · split
    · exact hbase
    · split
      · exact hbase
      · split
        · exact hbase
        · rename_i hi
          exact hbase.of_insertPending hi
  · exact hbase

/-- An admitted claim is appended with its entry and its lineage. -/
theorem ingest_appends (hadmitted : Admitted eng.config σ req claimRef now)
    (reply : Except String Uuid) :
    Appends σ (IngestClaim.execute eng σ req now claimRef reply).2
      { claims := [stamp req claimRef now]
        ledger := [committedEntry (stamp req claimRef now)
          (gateDecision eng σ req (stamp req claimRef now) now) now]
        edges := lineageEdges (stamp req claimRef now) now } := by
  rw [execute_of_admitted hadmitted]
  exact executeAdmitted_appends eng σ req (stamp req claimRef now) now reply

/-- An admitted request that is answered reports the gate's disposition and the
    incumbent it was classified against. -/
theorem executeAdmitted_ok {claim : Claim} {resp : IngestClaimResponse}
    (h : (executeAdmitted eng σ req claim now reply).1 = .ok resp) :
    resp =
      { claimRef := claim.claimRef
        disposition := (gateDecision eng σ req claim now).disposition
        contestedWith := contestedWith (gateDecision eng σ req claim now)
          (incumbentFor eng.config σ req.agentId req.subject req.predicate now) } := by
  unfold executeAdmitted at h
  dsimp only at h
  split at h
  · split at h
    · exact (Except.ok.inj h).symm
    · split at h
      · cases h
      · split at h
        · cases h
        · exact (Except.ok.inj h).symm
  · exact (Except.ok.inj h).symm

/-- An answered external request was admitted, or parked by the burst gate. -/
theorem external_ok_cases {resp : IngestClaimResponse}
    (hprov : req.provenance.isCheapPathEligible = true)
    (h : (IngestClaim.execute eng σ req now claimRef reply).1 = .ok resp) :
    Admitted eng.config σ req claimRef now ∨
      (eng.config.quarantineBurstThreshold = 0 ∧ resp.disposition = .quarantined) := by
  by_cases hburst : 0 < eng.config.quarantineBurstThreshold
  · exact .inl (admitted_of_external hprov hburst)
  · right
    have hzero : eng.config.quarantineBurstThreshold = 0 := by omega
    refine ⟨hzero, ?_⟩
    simp only [IngestClaim.execute, check, hzero, ge_iff_le, le_refl, if_true] at h
    rw [← Except.ok.inj h]

theorem ingest_outcome (eng : Engine) (σ : Store) (req : IngestClaimRequest) (now : Instant)
    (claimRef : ClaimRef) (reply : Except String Uuid) :
    ∃ w, Outcome eng σ (.ingestClaim req now claimRef reply) w ∧
      Appends σ (IngestClaim.execute eng σ req now claimRef reply).2 w := by
  by_cases h : Admitted eng.config σ req claimRef now
  · exact ⟨_, .ingested h, ingest_appends h reply⟩
  · refine ⟨_, .silent _, ?_⟩
    rw [execute_of_not_admitted h]
    exact .nothing σ

end Ingest

section AssertValidity

variable (σ : Store) {req : AssertValidityRequest} (now : Instant) (assertionRef : Uuid)

theorem writeValidityAndLedger_appends (σ : Store) (assertion : ValidityAssertion)
    (entry : LedgerEntry) :
    Appends σ (writeValidityAndLedger σ assertion entry)
      { assertions := [assertion], ledger := [entry] } := by
  constructor <;> simp [writeValidityAndLedger, appendLedgerEntry, appendLedgerEntries,
    appendValidityAssertion]

theorem execute_of_boundAccepted {at_ : Instant} {granularity : Option DateGranularity}
    (hassert : req.assertion = .bound at_ granularity) {target : Claim}
    (h : BoundAccepted σ req target at_ now) :
    (AssertValidity.execute σ req now assertionRef).2 =
      writeValidityAndLedger σ (hostAssertion req (.bound at_ granularity) now assertionRef)
        (hostEntry req .superseded (hostBoundRationale at_) now) := by
  have hstart : target.validTime.start.any (fun start => decide (at_ < start)) = false := by
    cases hs : target.validTime.start with
    | none => rfl
    | some s => simpa using h.coherent s hs
  have hstop : target.validTime.stop.filter (fun ownEnd => decide (ownEnd ≤ at_)) = none := by
    rw [Option.filter_eq_none_iff]
    intro e he
    simpa using h.narrows e he
  simp [AssertValidity.execute, executeBound, h.provenance, h.load, hassert, h.free, h.notBound,
    hstart, hstop, activeBoundAt_load]

/-- A bound request either passes every gate and writes, or writes nothing. -/
theorem execute_bound_cases {at_ : Instant} {granularity : Option DateGranularity}
    (hassert : req.assertion = .bound at_ granularity) :
    (∃ target, BoundAccepted σ req target at_ now ∧
      AssertValidity.execute σ req now assertionRef =
        (.ok { claimRef := req.target
               assertionRef := some assertionRef
               kind := .bound at_ granularity
               effectiveAt := some at_
               disposition := .superseded
               noOp := false },
          writeValidityAndLedger σ (hostAssertion req (.bound at_ granularity) now assertionRef)
            (hostEntry req .superseded (hostBoundRationale at_) now))) ∨
      ((AssertValidity.execute σ req now assertionRef).2 = σ ∧
        ∀ resp, (AssertValidity.execute σ req now assertionRef).1 = .ok resp →
          resp.noOp = true) := by
  by_cases hprov : req.provenance.isCheapPathEligible = true
  case neg => right; simp [AssertValidity.execute, hprov]
  cases hload : loadClaim σ req.agentId req.target with
  | none => right; simp [AssertValidity.execute, hprov, hload]
  | some target =>
    have hexec : AssertValidity.execute σ req now assertionRef =
        executeBound σ req target (activeBoundAt (assertionsOf σ req.agentId req.target) now)
          at_ granularity now assertionRef := by
      simp [AssertValidity.execute, hprov, hload, hassert, activeBoundAt_load]
    rw [hexec]
    unfold executeBound
    by_cases hfree : underAdjudication σ req.agentId req.target = true
    · right; simp [hfree]
    by_cases hstart : target.validTime.start.any (fun start => decide (at_ < start)) = true
    · right; simp [hfree, hstart]
    cases hactive : activeBoundAt (assertionsOf σ req.agentId req.target) now with
    | some existing =>
      right
      by_cases hat : existing.boundAt = at_ <;> simp [hfree, hstart, hat]
    | none =>
      cases hstop : target.validTime.stop.filter (fun ownEnd => decide (ownEnd ≤ at_)) with
      | some ownEnd => right; simp [hfree, hstart]
      | none =>
        left
        refine ⟨target, ⟨hprov, hload, by simpa using hfree, ?_, hactive, ?_⟩, ?_⟩
        · intro s hs
          rw [hs] at hstart
          simpa using hstart
        · intro e he
          rw [he] at hstop
          simpa [Option.filter] using hstop
        · simp [hfree, hstart]

theorem execute_reopen_cases (hassert : req.assertion = .reopen) :
    (ReopenAccepted σ req now ∧
      (AssertValidity.execute σ req now assertionRef).2 =
        writeValidityAndLedger σ (hostAssertion req (.reopen now) now assertionRef)
          (hostEntry req .reinstated (reopenRationale now) now)) ∨
      (¬ ReopenAccepted σ req now ∧ (AssertValidity.execute σ req now assertionRef).2 = σ) := by
  by_cases hprov : req.provenance.isCheapPathEligible = true
  case neg => right; exact ⟨fun h => hprov h.provenance, by simp [AssertValidity.execute, hprov]⟩
  cases hload : loadClaim σ req.agentId req.target with
  | none =>
    right
    refine ⟨fun h => ?_, by simp [AssertValidity.execute, hprov, hload]⟩
    obtain ⟨target, ht⟩ := h.load
    rw [hload] at ht
    cases ht
  | some target =>
    have hexec : AssertValidity.execute σ req now assertionRef =
        executeReopen σ req (activeBoundAt (assertionsOf σ req.agentId req.target) now) now
          assertionRef := by
      simp [AssertValidity.execute, hprov, hload, hassert, activeBoundAt_load]
    rw [hexec]
    cases hactive : activeBoundAt (assertionsOf σ req.agentId req.target) now with
    | none =>
      right
      refine ⟨fun h => ?_, rfl⟩
      obtain ⟨b, hb⟩ := h.isBound
      rw [hactive] at hb
      cases hb
    | some b => left; exact ⟨⟨hprov, ⟨target, hload⟩, ⟨b, hactive⟩⟩, rfl⟩

theorem assert_outcome (eng : Engine) (σ : Store) (req : AssertValidityRequest) (now : Instant)
    (assertionRef : Uuid) :
    ∃ w, Outcome eng σ (.assertValidity req now assertionRef) w ∧
      Appends σ (AssertValidity.execute σ req now assertionRef).2 w := by
  cases hassert : req.assertion with
  | bound at_ granularity =>
    rcases execute_bound_cases σ now assertionRef hassert with
      ⟨target, haccepted, hexec⟩ | ⟨hexec, _⟩
    · refine ⟨_, .bounded hassert haccepted, ?_⟩
      rw [hexec]
      exact writeValidityAndLedger_appends σ _ _
    · exact ⟨_, .silent _, hexec.symm ▸ .nothing σ⟩
  | reopen =>
    rcases execute_reopen_cases σ now assertionRef hassert with
      ⟨haccepted, hexec⟩ | ⟨_, hexec⟩
    · refine ⟨_, .reopened hassert haccepted, ?_⟩
      rw [hexec]
      exact writeValidityAndLedger_appends σ _ _
    · exact ⟨_, .silent _, hexec.symm ▸ .nothing σ⟩

end AssertValidity

section Verdict

variable (config : EngineConfig) (σ : Store) (handleId : Uuid)
variable (response : AdjudicationResponse) (now : Instant) (assertionRef : Uuid)

theorem setPendingStatus_appends {σ σ' : Store} {w : Written} (h : Appends σ σ' w)
    (handleId : Uuid) (status : PendingStatus) :
    Appends σ (setPendingStatus σ' handleId status) w :=
  ⟨h.claims, h.assertions, h.ledger, h.edges, h.ties⟩

theorem appendLedgerEntry_appends (σ : Store) (entry : LedgerEntry) :
    Appends σ (appendLedgerEntry σ entry) { ledger := [entry] } := by
  constructor <;> simp [appendLedgerEntry, appendLedgerEntries]

theorem execute_of_verdictAccepted {row : PendingAdjudicationRow} {challenger : Claim}
    (h : VerdictAccepted σ handleId now row challenger) :
    ∃ written, SubmitAdjudication.execute config σ handleId response now assertionRef =
        (.ok ⟨handleId, verdictDisposition response.verdict, row.challengerClaimRef⟩,
          markResolved written handleId) ∧
      Appends σ written (verdictWritten config σ row challenger response now assertionRef) ∧
      written.pending = σ.pending := by
  have hopen : row.expiresAt.filter (fun t => decide (t ≤ now)) = none := by
    rw [Option.filter_eq_none_iff]
    intro t ht
    simpa using h.unexpired t ht
  unfold SubmitAdjudication.execute
  rw [h.pending]
  dsimp only
  rw [hopen]
  dsimp only
  rw [if_neg (not_not_intro h.queued), h.load]
  refine ⟨_, rfl, ?_, ?_⟩
  · cases hv : response.verdict <;>
      constructor <;>
      simp [applyVerdict, verdictWritten, hv, boundClaim, appendLedgerEntry,
        appendLedgerEntries, appendValidityAssertion]
  · cases response.verdict <;> rfl

theorem execute_of_lapsed {row : PendingAdjudicationRow} {expiresAt : Instant}
    (hrow : getPending σ handleId = some row) (hexp : row.expiresAt = some expiresAt)
    (hle : expiresAt ≤ now)
    (hqueued : currentDisposition σ row.agentId row.challengerClaimRef =
      some .queuedForAdjudication) :
    SubmitAdjudication.execute config σ handleId response now assertionRef =
      (.error (.adjudicationHandleNotFound handleId),
        markExpired (appendLedgerEntry σ
          (expiredEntry row (lazyExpiryRationale row expiresAt) now)) row.handleId) := by
  have hlapsed : row.expiresAt.filter (fun t => decide (t ≤ now)) = some expiresAt := by
    rw [Option.filter_eq_some_iff]
    exact ⟨hexp, decide_eq_true hle⟩
  unfold SubmitAdjudication.execute
  rw [hrow]
  dsimp only
  rw [hlapsed]
  dsimp only
  rw [lazyExpire, if_pos hqueued]

/-- An applied verdict or a lapsed handle retires its row, and any other call leaves
    the store as it is. -/
theorem submit_spec :
    (∃ row challenger written, VerdictAccepted σ handleId now row challenger ∧
      SubmitAdjudication.execute config σ handleId response now assertionRef =
        (.ok ⟨handleId, verdictDisposition response.verdict, row.challengerClaimRef⟩,
          markResolved written handleId) ∧
      Appends σ written (verdictWritten config σ row challenger response now assertionRef) ∧
      written.pending = σ.pending) ∨
    (∃ row expiresAt, getPending σ handleId = some row ∧ row.expiresAt = some expiresAt ∧
      expiresAt ≤ now ∧
      currentDisposition σ row.agentId row.challengerClaimRef = some .queuedForAdjudication ∧
      SubmitAdjudication.execute config σ handleId response now assertionRef =
        (.error (.adjudicationHandleNotFound handleId),
          markExpired (appendLedgerEntry σ
            (expiredEntry row (lazyExpiryRationale row expiresAt) now)) row.handleId)) ∨
    ∃ e, SubmitAdjudication.execute config σ handleId response now assertionRef =
      (.error e, σ) := by
  by_cases hnot : ∃ row challenger, VerdictAccepted σ handleId now row challenger
  · obtain ⟨row, challenger, haccepted⟩ := hnot
    exact .inl ⟨row, challenger, (execute_of_verdictAccepted config σ handleId response now
      assertionRef haccepted).imp fun _ hwritten => ⟨haccepted, hwritten⟩⟩
  by_cases hlapsed : ∃ row expiresAt, getPending σ handleId = some row ∧
      row.expiresAt = some expiresAt ∧ expiresAt ≤ now ∧
      currentDisposition σ row.agentId row.challengerClaimRef = some .queuedForAdjudication
  · obtain ⟨row, expiresAt, hrow, hexp, hle, hq⟩ := hlapsed
    exact .inr (.inl ⟨row, expiresAt, hrow, hexp, hle, hq, execute_of_lapsed config σ handleId
      response now assertionRef hrow hexp hle hq⟩)
  refine .inr (.inr ?_)
  unfold SubmitAdjudication.execute
  cases hrow : getPending σ handleId with
  | none => exact ⟨_, rfl⟩
  | some row =>
    dsimp only
    cases hexp : row.expiresAt.filter (fun t => decide (t ≤ now)) with
    | some expiresAt =>
      obtain ⟨hsome, hle⟩ := Option.filter_eq_some_iff.mp hexp
      have hq : currentDisposition σ row.agentId row.challengerClaimRef ≠
          some .queuedForAdjudication :=
        fun hq => hlapsed ⟨row, expiresAt, hrow, hsome, of_decide_eq_true hle, hq⟩
      dsimp only
      rw [lazyExpire, if_neg hq]
      exact ⟨_, rfl⟩
    | none =>
      dsimp only
      by_cases hq : currentDisposition σ row.agentId row.challengerClaimRef =
          some .queuedForAdjudication
      · rw [if_neg (not_not_intro hq)]
        cases hload : loadClaim σ row.agentId row.challengerClaimRef with
        | none => exact ⟨_, rfl⟩
        | some challenger =>
          have hun : ∀ t, row.expiresAt = some t → now < t := by
            intro t ht
            rw [ht] at hexp
            simpa [Option.filter] using hexp
          exact absurd ⟨row, challenger, hrow, hun, hq, hload⟩ hnot
      · rw [if_pos hq]
        exact ⟨_, rfl⟩

/-- A verdict is applied, or its handle is refused: a refusal writes nothing but
    the reversion of an expired challenger. -/
theorem submit_cases :
    (∃ row challenger, VerdictAccepted σ handleId now row challenger ∧
      (SubmitAdjudication.execute config σ handleId response now assertionRef).1 =
        .ok ⟨handleId, verdictDisposition response.verdict, row.challengerClaimRef⟩ ∧
      Appends σ (SubmitAdjudication.execute config σ handleId response now assertionRef).2
        (verdictWritten config σ row challenger response now assertionRef)) ∨
      (∃ e, (SubmitAdjudication.execute config σ handleId response now assertionRef).1 =
          .error e) ∧
        (Appends σ (SubmitAdjudication.execute config σ handleId response now assertionRef).2 {} ∨
          ∃ row rationale, getPending σ handleId = some row ∧
            currentDisposition σ row.agentId row.challengerClaimRef =
              some .queuedForAdjudication ∧
            Appends σ (SubmitAdjudication.execute config σ handleId response now assertionRef).2
              { ledger := [expiredEntry row rationale now] }) := by
  rcases submit_spec config σ handleId response now assertionRef with
    ⟨row, challenger, written, haccepted, hexec, happ, _⟩ |
    ⟨row, expiresAt, hrow, _, _, hqueued, hexec⟩ | ⟨e, hexec⟩ <;> rw [hexec]
  · exact .inl ⟨row, challenger, haccepted, rfl, setPendingStatus_appends happ _ _⟩
  · refine .inr ⟨⟨_, rfl⟩, .inr ⟨row, lazyExpiryRationale row expiresAt, hrow, hqueued, ?_⟩⟩
    exact setPendingStatus_appends (appendLedgerEntry_appends σ _) _ _
  · exact .inr ⟨⟨e, rfl⟩, .inl (.nothing σ)⟩

theorem submit_outcome (eng : Engine) (σ : Store) (handleId : Uuid)
    (response : AdjudicationResponse) (now : Instant) (assertionRef : Uuid) :
    ∃ w, Outcome eng σ (.submitAdjudication handleId response now assertionRef) w ∧
      Appends σ (SubmitAdjudication.execute eng.config σ handleId response now assertionRef).2
        w := by
  rcases submit_cases eng.config σ handleId response now assertionRef with
    ⟨row, challenger, haccepted, _, happ⟩ | ⟨_, happ | ⟨row, rationale, hrow, hq, happ⟩⟩
  · exact ⟨_, .resolved haccepted, happ⟩
  · exact ⟨_, .silent _, happ⟩
  · exact ⟨_, .lazilyExpired hrow hq, happ⟩

end Verdict

/-- Every operation appends the rows of one of its outcomes. -/
theorem apply_outcome (eng : Engine) (σ : Store) (op : Op) :
    ∃ w, Outcome eng σ op w ∧ Appends σ (Engine.apply eng σ op) w := by
  cases op with
  | ingestClaim req now claimRef reply => exact ingest_outcome eng σ req now claimRef reply
  | assertValidity req now assertionRef => exact assert_outcome eng σ req now assertionRef
  | submitAdjudication handleId response now assertionRef =>
    exact submit_outcome eng σ handleId response now assertionRef
  | reconcile req now =>
    simp only [Engine.apply, Reconcile.execute]
    by_cases h : req.subjectLines.isEmpty = true
    · rw [if_pos h]
      exact ⟨_, .silent _, .nothing σ⟩
    · rw [if_neg h]
      exact ⟨_, .reconciled, by constructor <;> simp [appendLedgerEntries]⟩
  | sweepExpired row now =>
    simp only [Engine.apply, revertExpiredRow]
    by_cases h : currentDisposition σ row.agentId row.challengerClaimRef =
        some .queuedForAdjudication
    · rw [if_neg (not_not_intro h)]
      exact ⟨_, .sweptRow h, setPendingStatus_appends (appendLedgerEntry_appends σ _) _ _⟩
    · rw [if_pos h]
      exact ⟨_, .silent _, .nothing σ⟩
  | sweepOrphan orphan now =>
    simp only [Engine.apply, revertOrphan]
    by_cases h : currentDisposition σ orphan.agentId orphan.challengerClaimRef =
        some .queuedForAdjudication
    · rw [if_neg (not_not_intro h)]
      exact ⟨_, .sweptOrphan h, appendLedgerEntry_appends σ _⟩
    · rw [if_pos h]
      exact ⟨_, .silent _, .nothing σ⟩
  | appendEdge edge => exact ⟨_, .edged, by constructor <;> simp [Engine.apply, appendClaimEdges]⟩

end Mempill.Steps
