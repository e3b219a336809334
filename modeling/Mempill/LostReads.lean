import Mempill.EndFact
import Mempill.FailedWrites
import Mempill.QueryHistory

set_option autoImplicit false

/-!
# Lost reads

What an operation that folds a line does when a read of validity assertions fails.
-/
namespace Mempill.LostReads
open Mempill.Types Mempill.Persistence Mempill.TruthEngine Mempill.Ledger Mempill.Gate
open Mempill.IngestClaim Mempill.Reconcile Mempill.QueryMemory Mempill.QueryHistory
open Mempill.EndFact Mempill.Engine Mempill.Steps Mempill.WritePhases StampedLog

section Reads

/-- `Result::unwrap_or_default`. -/
def unwrapOrDefault {ε α : Type} : Except ε (List α) → List α
  | .ok rows => rows
  | .error _ => []

/-- The port read of a claim's assertions, where it may fail. -/
def readAssertions (failing : ClaimRef → Option StoreError) (σ : Store) (agentId : AgentId)
    (r : ClaimRef) : Except StoreError (List ValidityAssertion) :=
  match failing r with
  | some e => .error e
  | none => .ok (loadValidityAssertionsFor σ agentId r)

/-- The store without the assertions that an agent fails to read. -/
def lossy (σ : Store) (agentId : AgentId) (failing : ClaimRef → Option StoreError) : Store :=
  { σ with
    assertions := σ.assertions.filter fun a =>
      !(a.agentId == agentId && (failing a.targetClaim).isSome) }

/-- The closure that a fold is given reads what the lossy store holds. -/
theorem loadValidityAssertionsFor_lossy (σ : Store) (agentId : AgentId)
    (failing : ClaimRef → Option StoreError) (r : ClaimRef) :
    loadValidityAssertionsFor (lossy σ agentId failing) agentId r =
      unwrapOrDefault (readAssertions failing σ agentId r) := by
  unfold loadValidityAssertionsFor readAssertions lossy
  rw [List.filter_filter]
  cases hf : failing r with
  | some e =>
    refine congrArg (inOrder _) (List.filter_eq_nil_iff.mpr fun a _ => ?_)
    by_cases hr : a.targetClaim = r <;> simp [hr, hf]
  | none =>
    refine congrArg _ (List.filter_congr fun a _ => ?_)
    by_cases hr : a.targetClaim = r <;> simp [hr, hf]

theorem lossy_of_sound (σ : Store) (agentId : AgentId) : lossy σ agentId (fun _ => none) = σ := by
  simp [lossy]

end Reads

section Operations

/-- The operations that fold a line. -/
inductive FoldingOp where
  | queryMemory (req : QueryMemoryRequest)
  | queryHistory (req : QueryHistoryRequest)
  | ingestClaim (req : IngestClaimRequest) (claimRef : ClaimRef)
      (oracleReply : Except String Uuid)
  | reconcile (req : ReconcileRequest)
  | resolveLiveClaimForLine (agentId : AgentId) (subject predicate : String)

inductive Reply where
  | belief (belief : BeliefProjection)
  | entries (entries : List HistoryEntry)
  | ingested (response : IngestClaimResponse)
  | reconciled (response : ReconcileResponse)
  | resolved (resolution : LiveClaimResolution)
  deriving DecidableEq

/-- Which reads of assertions fail: the lines of an operation are numbered in the order of
    its request. -/
abbrev ReadFaults := ℕ → ClaimRef → Option StoreError

variable (eng : Engine) (failing : ReadFaults) (faults : Faults) (σ : Store) (now : Instant)

def decisionsUnder (req : ReconcileRequest) : List (ClaimRef × GateDecision) :=
  let lines := req.subjectLines.map fun line =>
    loadSubjectLine σ req.agentId line.1 line.2 none
  let ledger := loadLedgerForClaims σ req.agentId
    ((lines.flatMap id).map (·.claimRef)) none
  lines.zipIdx.flatMap fun line =>
    decideLine eng (lossy σ req.agentId (failing line.2)) req.agentId
      (buildLatestDispositionMap ledger) (buildDeniedViaAdjudicationSet ledger) now line.1

def planReconcileUnder (req : ReconcileRequest) : Planned ReconcileResponse :=
  if req.subjectLines.isEmpty then .answered (.ok ⟨[], 0⟩)
  else
    let ds := decisionsUnder eng failing σ now req
    .write ((ds.map (decisionEntry req.agentId now)).map .entry) .nothing
      (.ok { outcomes := ds.map fun d => (d.1, d.2.disposition)
             oracleEscalations := ds.countP fun d => d.2.route == .heavyPath })

/-- The read phase. Only the fold reads assertions, so it sees the lossy store. -/
def planUnder : FoldingOp → Planned Reply
  | .queryMemory req =>
    .answered (.ok (.belief
      (QueryMemory.execute eng.config (lossy σ req.agentId (failing 0)) req now)))
  | .queryHistory req =>
    .answered (.ok (.entries
      (QueryHistory.execute eng.config (lossy σ req.agentId (failing 0)) req now)))
  | .ingestClaim req claimRef oracleReply =>
    (planIngest eng (lossy σ req.agentId (failing 0)) req now claimRef oracleReply).map .ingested
  | .reconcile req => (planReconcileUnder eng failing σ now req).map .reconciled
  | .resolveLiveClaimForLine agentId subject predicate =>
    .answered (.ok (.resolved (EndFact.resolveLiveClaimForLine eng.config
      (lossy σ agentId (failing 0)) agentId subject predicate now)))

/-- The reads of assertions that an operation makes, by line and claim. -/
def readsOf : FoldingOp → List (ℕ × ClaimRef)
  | .queryMemory req =>
    (loadSubjectLine σ req.agentId req.subject req.predicate
      (some (req.asOfTxTime.getD now))).map fun c => (0, c.claimRef)
  | .queryHistory req =>
    (loadSubjectLine σ req.agentId req.subject req.predicate none).map fun c => (0, c.claimRef)
  | .ingestClaim req claimRef _ =>
    match check eng.config (stamp req claimRef now) (loadInjectedClaims σ req.agentId) 0 with
    | .admitted | .depthCapExceeded _ _ =>
      (loadSubjectLine σ req.agentId req.subject req.predicate none).map
        fun c => (0, c.claimRef)
    | .corroborateByIdentity _ | .quarantine => []
  | .reconcile req =>
    req.subjectLines.zipIdx.flatMap fun line =>
      (loadSubjectLine σ req.agentId line.1.1 line.1.2 none).map fun c => (line.2, c.claimRef)
  | .resolveLiveClaimForLine agentId subject predicate =>
    (loadSubjectLine σ agentId subject predicate (some now)).map fun c => (0, c.claimRef)

def ReadFails (op : FoldingOp) : Prop :=
  ∃ read ∈ readsOf eng σ now op, (failing read.1 read.2).isSome = true

/-- Where a read of assertions fails, the operation fails and writes nothing. -/
def FailsLoudly (op : FoldingOp) : Prop :=
  ReadFails eng failing σ now op →
    ∃ e, (planUnder eng failing σ now op).run faults σ = (.error e, σ)

/-- The operation opens a transaction, and a call of it fails. -/
def Aborts {α : Type} : Planned α → Prop
  | .answered _ => False
  | .write appends _ _ => ¬ Commits faults appends

theorem decisionsUnder_of_sound (req : ReconcileRequest) :
    decisionsUnder eng (fun _ _ => none) σ now req = decisions eng σ req now := by
  unfold decisionsUnder decisions
  simp only [lossy_of_sound]
  rw [← List.flatMap_map]
  exact congrArg _ (List.zipIdx_map_fst 0 _)

/-- Where no read of assertions fails, the plan is that of the operation. -/
theorem planReconcileUnder_of_sound (req : ReconcileRequest) :
    planReconcileUnder eng (fun _ _ => none) σ now req = planReconcile eng σ req now := by
  rw [planReconcileUnder, planReconcile, decisionsUnder_of_sound]

end Operations

section Run

variable {α β : Type} {faults : Faults} {σ : Store} {p : Planned α}

theorem aborts_map (f : α → β) : Aborts faults (p.map f) ↔ Aborts faults p := by
  cases p <;> rfl

theorem run_of_aborts (h : Aborts faults p) : ∃ e, p.run faults σ = (.error e, σ) := by
  cases p with
  | answered _ => exact h.elim
  | write appends after result =>
    cases htxn : transact faults σ appends with
    | error e => exact ⟨e, by simp only [Planned.run, htxn]⟩
    | ok committed => exact absurd (transact_eq_ok_iff.mp htxn).1 h

/-- What follows the commit leaves the claims alone. -/
theorem finish_claims (result : Except MemError α) (after : AfterCommit) :
    (Planned.finish faults σ result after).2.claims = σ.claims := by
  cases after with
  | nothing => rfl
  | queue oracleReply row =>
    cases oracleReply with
    | error _ => rfl
    | ok handleId =>
      simp only [Planned.finish]
      split
      · rfl
      · cases hins : insertPending σ (row handleId) with
        | none => rfl
        | some queued =>
          unfold insertPending at hins
          split at hins
          · cases hins
          · cases hins
            rfl
  | resolve _ | expire _ | expireLazily _ =>
    simp only [Planned.finish]
    split <;> rfl

theorem run_write_claims {appends : List Append} {after : AfterCommit}
    {result : Except MemError α} (h : Commits faults appends) :
    ((Planned.write appends after result).run faults σ).2.claims =
      (writeAll σ appends).claims := by
  have htxn : transact faults σ appends = .ok (writeAll σ appends) :=
    transact_eq_ok_iff.mpr ⟨h, rfl⟩
  simp only [Planned.run, htxn, finish_claims]

end Run

section Main

variable {eng : Engine} {failing : ReadFaults} {faults : Faults} {σ : Store} {now : Instant}

theorem admitted_of_mem_readsOf {req : IngestClaimRequest} {claimRef : ClaimRef}
    {oracleReply : Except String Uuid} {read : ℕ × ClaimRef}
    (h : read ∈ readsOf eng σ now (.ingestClaim req claimRef oracleReply)) :
    Admitted eng.config σ req claimRef now := by
  simp only [readsOf] at h
  unfold Admitted
  split at h <;> simp_all

/-- A committed ingest has written its claim. -/
theorem ingest_not_silent {req : IngestClaimRequest} {claimRef : ClaimRef}
    {oracleReply : Except String Uuid} {e : MemError} {seen : Store}
    (hadm : Admitted eng.config seen req claimRef now)
    (hcommit : ¬ Aborts faults (planIngest eng seen req now claimRef oracleReply)) :
    (planIngest eng seen req now claimRef oracleReply).run faults σ ≠ (.error e, σ) := by
  intro hrun
  have hplan : planIngest eng seen req now claimRef oracleReply =
      planAdmitted eng seen req (stamp req claimRef now) now oracleReply := by
    unfold Admitted at hadm
    unfold planIngest
    dsimp only
    split <;> simp_all
  rw [hplan] at hcommit hrun
  have hcommits := not_not.mp hcommit
  have hclaims := congrArg (fun r => r.2.claims) hrun
  dsimp only at hclaims
  rw [planAdmitted, run_write_claims hcommits, writeAll_ingestAppends] at hclaims
  simp [appendWithinTxn, appendClaimEdges, appendLedgerEntry, appendLedgerEntries,
    appendClaim] at hclaims

theorem reconcile_not_silent {req : ReconcileRequest} {e : MemError}
    (hcommit : ¬ Aborts faults (planReconcileUnder eng failing σ now req)) :
    (planReconcileUnder eng failing σ now req).run faults σ ≠ (.error e, σ) := by
  intro hrun
  unfold planReconcileUnder at hcommit hrun
  split at hcommit
  case isTrue h =>
    rw [if_pos h] at hrun
    cases hrun
  case isFalse h =>
    rw [if_neg h] at hrun
    have htxn := transact_eq_ok_iff.mpr ⟨not_not.mp hcommit, Eq.refl (writeAll σ _)⟩
    simp only [Planned.run, htxn, Planned.finish] at hrun
    cases hrun

theorem map_run_error_iff {α β : Type} {f : α → β} {p : Planned α} {e : MemError} :
    (p.map f).run faults σ = (.error e, σ) ↔ p.run faults σ = (.error e, σ) := by
  rw [map_run]
  constructor
  · intro h
    obtain ⟨hresult, hstore⟩ := Prod.mk.inj h
    cases hp : (p.run faults σ).1 with
    | error e' =>
      rw [hp] at hresult
      cases hresult
      exact Prod.ext hp hstore
    | ok value =>
      rw [hp] at hresult
      cases hresult
  · intro h
    rw [h]
    rfl

/-- A failed read of assertions makes an operation fail and write nothing exactly if none
    of its reads fails, or its transaction fails anyhow. -/
theorem failed_reads_fail_loudly_iff (eng : Engine) (failing : ReadFaults) (faults : Faults)
    (σ : Store) (now : Instant) (op : FoldingOp) :
    FailsLoudly eng failing faults σ now op ↔
      ¬ ReadFails eng failing σ now op ∨ Aborts faults (planUnder eng failing σ now op) := by
  constructor
  · intro hloud
    by_contra hneither
    obtain ⟨hfails, hcommit⟩ := not_or.mp hneither
    obtain ⟨e, hrun⟩ := hloud (not_not.mp hfails)
    cases op with
    | queryMemory req => cases hrun
    | queryHistory req => cases hrun
    | resolveLiveClaimForLine agentId subject predicate => cases hrun
    | ingestClaim req claimRef oracleReply =>
      obtain ⟨read, hread, _⟩ := not_not.mp hfails
      have hadm : Admitted eng.config σ req claimRef now := admitted_of_mem_readsOf hread
      rw [planUnder, aborts_map] at hcommit
      rw [planUnder, map_run_error_iff] at hrun
      -- the guard reads no assertions, so it lets the request through here too
      have hseen : Admitted eng.config (lossy σ req.agentId (failing 0)) req claimRef now := hadm
      exact ingest_not_silent hseen hcommit hrun
    | reconcile req =>
      rw [planUnder, aborts_map] at hcommit
      rw [planUnder, map_run_error_iff] at hrun
      exact reconcile_not_silent hcommit hrun
  · rintro (hsound | haborts)
    · exact fun hfails => absurd hfails hsound
    · exact fun _ => run_of_aborts haborts

/-- A fact that began at 1 is ended at 5. -/
def endedParis : List Op :=
  [.ingestClaim (remember "Paris" (some (dated 1 none))) 10 ⟨1⟩ (.ok 0),
    .assertValidity (assertOn 1 (.bound 5 none)) 20 500]

/-- A fact that overlaps it is remembered while its assertions cannot be read. -/
def overlappingBerlin : FoldingOp :=
  .ingestClaim (remember "Berlin" (some (dated 3 none))) ⟨2⟩ (.ok 0)

theorem lost_bound_commits_overlap :
    let σ := run (defaultEngine false) Store.sqlite endedParis
    let failing : ReadFaults := fun _ _ => some .txnAlreadyOpen
    let sound : ReadFaults := fun _ _ => none
    let outcome := fun failing : ReadFaults =>
      ((planUnder (defaultEngine false) failing σ 30 overlappingBerlin).run .none σ).1
    Reachable (defaultEngine false) σ ∧
      outcome failing = .ok (.ingested ⟨⟨2⟩, .committedCheap, []⟩) ∧
      outcome sound = .ok (.ingested ⟨⟨2⟩, .contested, [⟨1⟩]⟩) ∧
      ¬ FailsLoudly (defaultEngine false) failing .none σ 30 overlappingBerlin := by
  refine ⟨run_reachable (by decide), by decide, by decide, fun h => ?_⟩
  obtain ⟨e, he⟩ := h ⟨(0, ⟨1⟩), by decide, rfl⟩
  have hok : (((planUnder (defaultEngine false) (fun _ _ => some .txnAlreadyOpen)
      (run (defaultEngine false) Store.sqlite endedParis) 30 overlappingBerlin).run .none
        (run (defaultEngine false) Store.sqlite endedParis)).1) =
      .ok (.ingested ⟨⟨2⟩, .committedCheap, []⟩) := by decide
  rw [he] at hok
  cases hok

end Main

end Mempill.LostReads
