import Mempill.Steps
import Mempill.WritePhases

set_option autoImplicit false

/-!
# Failed writes

What an operation leaves behind when one of its port calls fails.
-/
namespace Mempill.FailedWrites
open Mempill.Types Mempill.Persistence Mempill.Gate Mempill.IngestClaim Mempill.AssertValidity
open Mempill.Reconcile Mempill.Engine Mempill.Steps Mempill.WritePhases

section Statement

variable (eng : Engine) (faults : Faults) (σ : Store)

/-- The operations whose failures are told. Of a verdict: one on a handle that has not
    lapsed, and whose row can be marked. -/
def Covered : Op → Prop
  | .ingestClaim _ _ _ _ => True
  | .assertValidity _ _ _ => True
  | .submitAdjudication handleId _ now _ => faults.markPending = false ∧
    ∀ row ∈ getPending σ handleId, row.expiresAt.any (fun t => decide (t ≤ now)) = false
  | .reconcile _ _ => True
  | _ => False

/-- The rows of the transaction of an ingest are committed. -/
def ingestCommitted (req : IngestClaimRequest) (now : Instant) (claimRef : ClaimRef) : Store :=
  appendWithinTxn σ (stamp req claimRef now)
    (gateDecision eng σ req (stamp req claimRef now) now) now

/-- An ingest commits a claim queued for adjudication and then fails to queue it: the
    oracle gives no handle, or the row of the handle is not inserted. -/
structure QueueFails (req : IngestClaimRequest) (now : Instant) (claimRef : ClaimRef)
    (oracleReply : Except String Uuid) : Prop where
  admitted : Admitted eng.config σ req claimRef now
  queued : (gateDecision eng σ req (stamp req claimRef now) now).disposition =
    .queuedForAdjudication
  ports : eng.oraclePresent ∧ eng.pendingStorePresent
  incumbent : (incumbentFor eng.config σ req.agentId req.subject req.predicate now).isSome
  commits : Commits faults (ingestAppends (stamp req claimRef now)
    (gateDecision eng σ req (stamp req claimRef now) now) now)
  unqueued : ∀ handleId, oracleReply = .ok handleId →
    faults.insertPending = true ∨ (getPending σ handleId).isSome

/-- What a failed operation leaves: the store as it was, or the committed rows of a claim
    that could not be queued. -/
def Leaves (op : Op) (σ' : Store) : Prop :=
  match op with
  | .ingestClaim req now claimRef oracleReply =>
    (QueueFails eng faults σ req now claimRef oracleReply →
      σ' = ingestCommitted eng σ req now claimRef) ∧
      (¬ QueueFails eng faults σ req now claimRef oracleReply → σ' = σ)
  | _ => σ' = σ

end Statement

section Plans

variable {α : Type} {eng : Engine} {faults : Faults} {σ : Store} {error : MemError}

/-- The plans of the operations that end with their transaction, or mark a row after it. -/
inductive Plain (faults : Faults) : Planned α → Prop where
  | answered (result : Except MemError α) : Plain faults (.answered result)
  | write (appends : List Append) (value : α) :
      Plain faults (.write appends .nothing (.ok value))
  | resolve (appends : List Append) (handleId : Uuid) (value : α)
      (hmark : faults.markPending = false) :
      Plain faults (.write appends (.resolve handleId) (.ok value))

theorem run_of_plain {p : Planned α} (hp : Plain faults p)
    (herr : (p.run faults σ).1 = .error error) : (p.run faults σ).2 = σ := by
  cases hp with
  | answered _ => rfl
  | write appends value =>
    simp only [Planned.run] at herr ⊢
    cases htxn : transact faults σ appends with
    | error _ => rfl
    | ok committed => simp [htxn, Planned.finish] at herr
  | resolve appends handleId value hmark =>
    simp only [Planned.run] at herr ⊢
    cases htxn : transact faults σ appends with
    | error _ => rfl
    | ok committed => simp [htxn, Planned.finish, hmark] at herr

theorem planAssert_plain (req : AssertValidityRequest) (now : Instant) (assertionRef : Uuid) :
    Plain faults (planAssert σ req now assertionRef) := by
  unfold planAssert
  split_ifs
  · exact .answered _
  · cases loadClaim σ req.agentId req.target with
    | none => exact .answered _
    | some targetClaim =>
      cases req.assertion with
      | bound at_ atGranularity =>
        dsimp only
        unfold planBound
        split_ifs
        · exact .answered _
        · exact .answered _
        · split
          · split_ifs <;> exact .answered _
          · split
            · exact .answered _
            · exact .write _ _
      | reopen =>
        dsimp only
        unfold planReopen
        split
        · exact .answered _
        · exact .write _ _

theorem planSubmit_plain {config : EngineConfig} {handleId : Uuid}
    {response : AdjudicationResponse} {now : Instant} {assertionRef : Uuid}
    (hmark : faults.markPending = false)
    (hlapsed : ∀ row ∈ getPending σ handleId,
      row.expiresAt.any (fun t => decide (t ≤ now)) = false) :
    Plain faults (planSubmit config σ handleId response now assertionRef) := by
  unfold planSubmit
  cases hrow : getPending σ handleId with
  | none => exact .answered _
  | some row =>
    have hnone : row.expiresAt.filter (fun t => decide (t ≤ now)) = none := by
      rw [Option.filter_eq_none_iff]
      intro t ht hle
      have hany := hlapsed row hrow
      rw [ht] at hany
      simp [hle] at hany
    simp only [hnone]
    split_ifs
    · exact .answered _
    · cases loadClaim σ row.agentId row.challengerClaimRef with
      | none => exact .answered _
      | some _ => exact .resolve _ _ _ hmark

theorem planReconcile_plain (req : ReconcileRequest) (now : Instant) :
    Plain faults (planReconcile eng σ req now) := by
  unfold planReconcile
  split_ifs
  · exact .answered _
  · exact .write _ _

end Plans

section Ingest

variable {eng : Engine} {faults : Faults} {σ : Store} {error : MemError}
variable {req : IngestClaimRequest} {now : Instant} {claimRef : ClaimRef}
variable {oracleReply : Except String Uuid}

theorem planIngest_of_admitted (h : Admitted eng.config σ req claimRef now) :
    planIngest eng σ req now claimRef oracleReply =
      planAdmitted eng σ req (stamp req claimRef now) now oracleReply := by
  unfold Admitted at h
  unfold planIngest
  cases hc : check eng.config (stamp req claimRef now) (loadInjectedClaims σ req.agentId) 0 <;>
    simp_all

theorem planIngest_of_not_admitted (h : ¬ Admitted eng.config σ req claimRef now) :
    ∃ resp, planIngest eng σ req now claimRef oracleReply = .answered (.ok resp) := by
  unfold Admitted at h
  unfold planIngest
  cases hc : check eng.config (stamp req claimRef now) (loadInjectedClaims σ req.agentId) 0 <;>
    simp_all

/-- The handle under which a row would go in is not taken by the claim's own rows. -/
theorem getPending_writeAll (appends : List Append) (handleId : Uuid) :
    getPending (writeAll σ appends) handleId = getPending σ handleId := by
  have hpending : (writeAll σ appends).pending = σ.pending := by
    induction appends generalizing σ with
    | nil => rfl
    | cons a appends ih =>
      rw [writeAll, List.foldl_cons, ← writeAll, ih]
      cases a <;> rfl
  rw [getPending, getPending, hpending]

theorem leaves_of_commit (hfails : QueueFails eng faults σ req now claimRef oracleReply)
    {committed : Store}
    (hcommitted : writeAll σ (ingestAppends (stamp req claimRef now)
      (gateDecision eng σ req (stamp req claimRef now) now) now) = committed) :
    Leaves eng faults σ (.ingestClaim req now claimRef oracleReply) committed := by
  refine ⟨fun _ => ?_, fun hnot => absurd hfails hnot⟩
  rw [← hcommitted, writeAll_ingestAppends]
  rfl

theorem leaves_of_ingest
    (herr : ((planIngest eng σ req now claimRef oracleReply).run faults σ).1 = .error error) :
    Leaves eng faults σ (.ingestClaim req now claimRef oracleReply)
      ((planIngest eng σ req now claimRef oracleReply).run faults σ).2 := by
  by_cases hadmitted : Admitted eng.config σ req claimRef now
  case neg =>
    have hplan : ∃ resp, planIngest eng σ req now claimRef oracleReply = .answered (.ok resp) :=
      planIngest_of_not_admitted hadmitted
    obtain ⟨resp, hplan⟩ := hplan
    rw [hplan] at herr
    cases herr
  rw [planIngest_of_admitted hadmitted] at herr ⊢
  cases htxn : transact faults σ (ingestAppends (stamp req claimRef now)
      (gateDecision eng σ req (stamp req claimRef now) now) now) with
  | error e =>
    have hrun : ((planAdmitted eng σ req (stamp req claimRef now) now oracleReply).run faults
        σ).2 = σ := by simp only [planAdmitted, Planned.run, htxn]
    rw [hrun]
    refine ⟨fun hfails => ?_, fun _ => rfl⟩
    rw [transact_eq_ok_iff.mpr ⟨hfails.commits, rfl⟩] at htxn
    cases htxn
  | ok committed =>
    obtain ⟨hcommits, hcommitted⟩ := transact_eq_ok_iff.mp htxn
    simp only [planAdmitted, Planned.run, htxn] at herr ⊢
    split_ifs at herr ⊢ with hqueue
    case neg => cases herr
    obtain ⟨hqueued, hports⟩ := hqueue
    cases hinc : incumbentFor eng.config σ req.agentId req.subject req.predicate now with
    | none =>
      rw [hinc] at herr
      cases herr
    | some incumbent =>
      rw [hinc] at herr
      have hfails (h : ∀ handleId, oracleReply = .ok handleId →
          faults.insertPending = true ∨ (getPending σ handleId).isSome) :
          QueueFails eng faults σ req now claimRef oracleReply :=
        ⟨hadmitted, hqueued, hports, by rw [hinc]; rfl, hcommits, h⟩
      cases oracleReply with
      | error reason => exact leaves_of_commit (hfails fun _ h => by cases h) hcommitted
      | ok handleId =>
        simp only [Planned.finish] at herr ⊢
        split_ifs at herr ⊢ with hinsert
        case pos => exact leaves_of_commit (hfails fun _ _ => .inl hinsert) hcommitted
        cases hins : insertPending committed
            (pendingRow eng req (stamp req claimRef now) incumbent now handleId) with
        | some queued =>
          rw [hins] at herr
          cases herr
        | none =>
          refine leaves_of_commit (hfails fun handleId' h => .inr ?_) hcommitted
          cases h
          unfold insertPending at hins
          split_ifs at hins with htaken
          rwa [← hcommitted, getPending_writeAll] at htaken

end Ingest

section Main

variable {eng : Engine} {faults : Faults} {σ : Store}

/-- A failed operation leaves the store as it was, except where an ingest has committed
    a claim that it then fails to queue: there the rows of its transaction stay. -/
theorem failed_write_leaves_no_trace {op : Op} (hcovered : Covered faults σ op)
    {error : MemError} (herr : ((planOf eng σ op).run faults σ).1 = .error error) :
    Leaves eng faults σ op ((planOf eng σ op).run faults σ).2 := by
  have hmapped : ∀ {α : Type} {f : α → Response} {p : Planned α},
      ((p.map f).run faults σ).1 = .error error → (p.run faults σ).1 = .error error := by
    intro α f p h
    rw [map_run] at h
    cases hp : (p.run faults σ).1 with
    | error e =>
      rw [hp] at h
      cases h
      rfl
    | ok value =>
      rw [hp] at h
      cases h
  cases op with
  | ingestClaim req now claimRef oracleReply =>
    rw [planOf, map_run]
    exact leaves_of_ingest (hmapped herr)
  | assertValidity req now assertionRef =>
    rw [planOf, map_run]
    exact run_of_plain (planAssert_plain req now assertionRef) (hmapped herr)
  | submitAdjudication handleId response now assertionRef =>
    rw [planOf, map_run]
    exact run_of_plain (planSubmit_plain hcovered.1 hcovered.2) (hmapped herr)
  | reconcile req now =>
    rw [planOf, map_run]
    exact run_of_plain (planReconcile_plain req now) (hmapped herr)
  | sweepExpired _ _ => exact hcovered.elim
  | sweepOrphan _ _ => exact hcovered.elim
  | appendEdge _ => exact hcovered.elim

/-- The second of two rival facts, with an oracle that is down. -/
def unheard : Op :=
  .ingestClaim (remember "Berlin" (some (dated 5 none))) 20 ⟨2⟩ (.error "down")

def beforeUnheard : Store := run (defaultEngine true) Store.sqlite (rivals.take 1)

def commitFails : Faults := { Faults.none with commit := some (.driver "disk full") }

/-- A commit that fails takes the claim with it. -/
theorem uncommitted_leaves_no_trace :
    ((planOf (defaultEngine true) beforeUnheard unheard).run commitFails beforeUnheard).2 =
      beforeUnheard := by
  have herr : ((planOf (defaultEngine true) beforeUnheard unheard).run commitFails
      beforeUnheard).1 = .error (.persistence (.driver "disk full")) := by decide
  have hleaves : Leaves (defaultEngine true) commitFails beforeUnheard unheard _ :=
    failed_write_leaves_no_trace trivial herr
  exact hleaves.2 fun hfails => absurd hfails.commits.2.2 (by decide)

/-- The oracle fails once the claim is committed: the caller gets an error, and the claim
    stays queued without a pending row. -/
theorem unheard_claim_stays :
    let failed := (planOf (defaultEngine true) beforeUnheard unheard).run .none beforeUnheard
    Reachable (defaultEngine true) beforeUnheard ∧ Supplied beforeUnheard unheard ∧
      failed.1 = .error (.oracleError "down") ∧ failed.2 ≠ beforeUnheard ∧
      (failed.2.ledger.map (·.disposition)).getLast? = some .queuedForAdjudication ∧
      failed.2.pending = [] :=
  ⟨run_reachable (by decide), by decide, by decide,
    fun h => absurd (congrArg Store.claims h) (by decide), by decide, by decide⟩

end Main

end Mempill.FailedWrites
