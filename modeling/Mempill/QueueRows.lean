import Mempill.Invariants

set_option autoImplicit false

/-!
# Queue rows

What each operation does to the pending table, and the keys of its rows.
-/
namespace Mempill.QueueRows
open Mempill.Types Mempill.Persistence Mempill.Gate Mempill.IngestClaim Mempill.SubmitAdjudication
open Mempill.Engine Mempill.Steps Mempill.Invariants Transition

section Tables

variable {eng : Engine} {σ : Store} {row : PendingAdjudicationRow}

def withStatus (handleId : Uuid) (status : PendingStatus) (row : PendingAdjudicationRow) :
    PendingAdjudicationRow :=
  if row.handleId == handleId then { row with status := status } else row

@[simp] theorem withStatus_handleId (handleId : Uuid) (status : PendingStatus)
    (row : PendingAdjudicationRow) : (withStatus handleId status row).handleId = row.handleId := by
  unfold withStatus
  split <;> rfl

@[simp] theorem withStatus_agentId (handleId : Uuid) (status : PendingStatus)
    (row : PendingAdjudicationRow) : (withStatus handleId status row).agentId = row.agentId := by
  unfold withStatus
  split <;> rfl

@[simp] theorem withStatus_challengerClaimRef (handleId : Uuid) (status : PendingStatus)
    (row : PendingAdjudicationRow) :
    (withStatus handleId status row).challengerClaimRef = row.challengerClaimRef := by
  unfold withStatus
  split <;> rfl

theorem withStatus_status (handleId : Uuid) (status : PendingStatus)
    (row : PendingAdjudicationRow) :
    (withStatus handleId status row).status =
      if row.handleId = handleId then status else row.status := by
  unfold withStatus
  by_cases h : row.handleId = handleId <;> simp [h]

/-- The two operations that retire a row. -/
def settling : Op → Bool
  | .submitAdjudication .. | .sweepExpired .. => true
  | _ => false

/-- What an operation appends to the tables, and the pending table it leaves. -/
inductive QueueStep (eng : Engine) (σ : Store) :
    Op → Written → List PendingAdjudicationRow → Prop where
  | ignored (op : Op) : QueueStep eng σ op {} σ.pending
  | aside {op : Op} {w : Written} (h : Outcome eng σ op w) (hop : settling op = false) :
      QueueStep eng σ op w σ.pending
  | queued {req : IngestClaimRequest} {now : Instant} {claimRef : ClaimRef} {handleId : Uuid}
      {incumbent : Belief} (hfree : getPending σ handleId = none)
      (hinc : incumbentFor eng.config σ req.agentId req.subject req.predicate now =
        some incumbent)
      (hgate : (gateDecision eng σ req (stamp req claimRef now) now).disposition =
        .queuedForAdjudication)
      (hadmitted : Admitted eng.config σ req claimRef now) :
      QueueStep eng σ (.ingestClaim req now claimRef (.ok handleId))
        { claims := [stamp req claimRef now]
          ledger := [committedEntry (stamp req claimRef now)
            (gateDecision eng σ req (stamp req claimRef now) now) now]
          edges := lineageEdges (stamp req claimRef now) now }
        (σ.pending ++ [pendingRow eng req (stamp req claimRef now) incumbent now handleId])
  | applied {handleId : Uuid} {response : AdjudicationResponse} {now : Instant}
      {assertionRef : Uuid} {row : PendingAdjudicationRow} {challenger : Claim}
      (haccepted : VerdictAccepted σ handleId now row challenger) :
      QueueStep eng σ (.submitAdjudication handleId response now assertionRef)
        (verdictWritten eng.config σ row challenger response now assertionRef)
        (σ.pending.map (withStatus row.handleId .resolved))
  | lapsed {handleId : Uuid} {response : AdjudicationResponse} {now : Instant}
      {assertionRef : Uuid} {row : PendingAdjudicationRow} {expiresAt : Instant}
      (hrow : getPending σ handleId = some row)
      (hqueued : currentDisposition σ row.agentId row.challengerClaimRef =
        some .queuedForAdjudication) :
      QueueStep eng σ (.submitAdjudication handleId response now assertionRef)
        { ledger := [expiredEntry row (lazyExpiryRationale row expiresAt) now] }
        (σ.pending.map (withStatus row.handleId .expired))
  | swept {row : PendingAdjudicationRow} {now : Instant}
      (hqueued : currentDisposition σ row.agentId row.challengerClaimRef =
        some .queuedForAdjudication) :
      QueueStep eng σ (.sweepExpired row now)
        { ledger := [expiredEntry row (expiryRationale row now) now] }
        (σ.pending.map (withStatus row.handleId .expired))

variable {op : Op} {w : Written} {table : List PendingAdjudicationRow}

theorem QueueStep.outcome (h : QueueStep eng σ op w table) : Outcome eng σ op w := by
  cases h with
  | ignored op => exact .silent op
  | aside h _ => exact h
  | queued _ _ _ hadmitted => exact .ingested hadmitted
  | applied haccepted => exact .resolved haccepted
  | lapsed hrow hqueued => exact .lazilyExpired hrow hqueued
  | swept hqueued => exact .sweptRow hqueued

theorem handleId_of_getPending {handleId : Uuid} (h : getPending σ handleId = some row) :
    row ∈ σ.pending ∧ row.handleId = handleId :=
  ⟨List.mem_of_find?_eq_some h, by simpa using List.find?_some h⟩

/-- An admitted write leaves the pending table as it is, or queues its own row. -/
theorem ingest_table (eng : Engine) (σ : Store) (req : IngestClaimRequest) (claim : Claim)
    (now : Instant) (reply : Except String Uuid) :
    (executeAdmitted eng σ req claim now reply).2.pending = σ.pending ∨
      ∃ incumbent handleId, reply = .ok handleId ∧ getPending σ handleId = none ∧
        incumbentFor eng.config σ req.agentId req.subject req.predicate now = some incumbent ∧
        (gateDecision eng σ req claim now).disposition = .queuedForAdjudication ∧
        (executeAdmitted eng σ req claim now reply).2.pending =
          σ.pending ++ [pendingRow eng req claim incumbent now handleId] := by
  unfold executeAdmitted
  dsimp only
  split
  · rename_i hgate
    split
    · exact .inl rfl
    · rename_i incumbent hinc
      split
      · exact .inl rfl
      · rename_i handleId
        split
        · exact .inl rfl
        · rename_i hins
          refine .inr ⟨incumbent, handleId, rfl, ?_, hinc, hgate.1,
            by rw [insertPending_tables hins]; rfl⟩
          unfold insertPending at hins
          split at hins
          · cases hins
          · rename_i hfree
            exact Option.not_isSome_iff_eq_none.mp hfree
  · exact .inl rfl

theorem gate_of_no_incumbent {req : IngestClaimRequest} {claim : Claim} {now : Instant}
    (h : incumbentFor eng.config σ req.agentId req.subject req.predicate now = none) :
    (gateDecision eng σ req claim now).disposition ≠ .queuedForAdjudication := by
  have hconflict : ∀ input : ReconcilerInput, input.incumbent = none →
      (reconcile input).conflictType = .noConflict := by
    intro input hnone
    simp [reconcile, classifyConflict, hnone]
  rw [gateDecision, h]
  unfold adjudicate
  rw [hconflict _ rfl]
  split_ifs <;> simp_all

/-- With both ports in place a queued write has its row. -/
theorem ingest_row {req : IngestClaimRequest} {claim : Claim} {now : Instant} {handleId : Uuid}
    (horacle : eng.oraclePresent = true) (hstore : eng.pendingStorePresent = true)
    (hgate : (gateDecision eng σ req claim now).disposition = .queuedForAdjudication)
    (hfree : getPending σ handleId = none) :
    (executeAdmitted eng σ req claim now (.ok handleId)).2.pending ≠ σ.pending := by
  unfold executeAdmitted
  dsimp only
  rw [if_pos ⟨hgate, horacle, hstore⟩]
  cases hinc : incumbentFor eng.config σ req.agentId req.subject req.predicate now with
  | none => exact absurd hgate (gate_of_no_incumbent hinc)
  | some incumbent =>
    have hnone : getPending (appendWithinTxn σ claim (gateDecision eng σ req claim now) now)
        (pendingRow eng req claim incumbent now handleId).handleId = none := hfree
    have hinsert : insertPending (appendWithinTxn σ claim (gateDecision eng σ req claim now) now)
        (pendingRow eng req claim incumbent now handleId) = some _ :=
      if_neg (by rw [hnone]; exact Bool.false_ne_true)
    dsimp only
    rw [hinsert]
    intro hsame
    have hlen := congrArg List.length hsame
    simp [appendWithinTxn, appendClaimEdges, appendLedgerEntry, appendLedgerEntries,
      appendClaim] at hlen

theorem apply_queueStep (eng : Engine) (σ : Store) (op : Op) :
    ∃ w, QueueStep eng σ op w (apply eng σ op).pending ∧ Appends σ (apply eng σ op) w := by
  have haside : settling op = false → (apply eng σ op).pending = σ.pending →
      ∃ w, QueueStep eng σ op w (apply eng σ op).pending ∧ Appends σ (apply eng σ op) w := by
    intro hop hpending
    obtain ⟨w, ho, happ⟩ := apply_outcome eng σ op
    exact ⟨w, hpending ▸ .aside ho hop, happ⟩
  cases op with
  | ingestClaim req now claimRef reply =>
    by_cases hadmitted : Admitted eng.config σ req claimRef now
    · have hexec : IngestClaim.execute eng σ req now claimRef reply =
          executeAdmitted eng σ req (stamp req claimRef now) now reply :=
        execute_of_admitted hadmitted
      rcases ingest_table eng σ req (stamp req claimRef now) now reply with
        hkept | ⟨incumbent, handleId, rfl, hfree, hinc, hgate, hrow⟩
      · exact haside rfl (by rw [apply, hexec, hkept])
      · refine ⟨_, ?_, by rw [apply, hexec]; exact executeAdmitted_appends ..⟩
        rw [apply, hexec, hrow]
        exact .queued hfree hinc hgate hadmitted
    · exact haside rfl (by rw [apply, execute_of_not_admitted hadmitted])
  | assertValidity req now assertionRef =>
    refine haside rfl ?_
    change (AssertValidity.execute σ req now assertionRef).2.pending = σ.pending
    cases hassert : req.assertion with
    | bound at_ granularity =>
      rcases execute_bound_cases σ now assertionRef hassert with ⟨_, _, hexec⟩ | ⟨hexec, _⟩ <;>
        rw [hexec]
      rfl
    | reopen =>
      rcases execute_reopen_cases σ now assertionRef hassert with ⟨_, hexec⟩ | ⟨_, hexec⟩ <;>
        rw [hexec]
      rfl
  | submitAdjudication handleId response now assertionRef =>
    rw [apply]
    rcases submit_spec eng.config σ handleId response now assertionRef with
      ⟨row, challenger, written, haccepted, hexec, happ, hpending⟩ |
      ⟨row, expiresAt, hrow, _, _, hqueued, hexec⟩ | ⟨e, hexec⟩ <;> rw [hexec]
    · refine ⟨_, ?_, setPendingStatus_appends happ _ _⟩
      have hhandle := (handleId_of_getPending haccepted.pending).2
      change QueueStep eng σ _ _ (written.pending.map (withStatus handleId .resolved))
      rw [hpending, ← hhandle]
      exact .applied (hhandle.symm ▸ haccepted)
    · exact ⟨_, .lapsed hrow hqueued, setPendingStatus_appends (appendLedgerEntry_appends σ _) _ _⟩
    · exact ⟨_, .ignored _, .nothing σ⟩
  | reconcile req now =>
    refine haside rfl ?_
    change (Reconcile.execute eng σ req now).2.pending = σ.pending
    unfold Reconcile.execute
    split <;> rfl
  | sweepExpired row now =>
    rw [apply, revertExpiredRow]
    by_cases h : currentDisposition σ row.agentId row.challengerClaimRef =
        some .queuedForAdjudication
    · rw [if_neg (not_not_intro h)]
      exact ⟨_, .swept h, setPendingStatus_appends (appendLedgerEntry_appends σ _) _ _⟩
    · rw [if_pos h]
      exact ⟨_, .ignored _, .nothing σ⟩
  | sweepOrphan orphan now =>
    refine haside rfl ?_
    change (revertOrphan σ orphan now).2.pending = σ.pending
    unfold revertOrphan
    split <;> rfl
  | appendEdge edge => exact haside rfl rfl

end Tables

section Keys

variable {eng : Engine} {σ : Store} {row row' : PendingAdjudicationRow}

structure DistinctRows (σ : Store) : Prop where
  handles : (σ.pending.map (·.handleId)).Nodup
  challengers : (σ.pending.map (·.challengerClaimRef)).Nodup

/-- The handle is the key of the table, and every row is for its own claim. -/
theorem distinctRows_of_reachable (hσ : Reachable eng σ) : DistinctRows σ := by
  refine Reach.invariant (P := DistinctRows) hσ (fun σ ⟨_, hσ⟩ => by rw [hσ]; exact ⟨.nil, .nil⟩)
    fun σ op σ' _ hP hst => ?_
  obtain ⟨hsup, rfl⟩ := hst
  obtain ⟨w, hq, _⟩ := apply_queueStep eng σ op
  have hmarked : ∀ handleId status,
      ((σ.pending.map (withStatus handleId status)).map (·.handleId)).Nodup ∧
        ((σ.pending.map (withStatus handleId status)).map (·.challengerClaimRef)).Nodup := by
    intro handleId status
    simpa [List.map_map, Function.comp_def] using And.intro hP.handles hP.challengers
  suffices h : ((apply eng σ op).pending.map (·.handleId)).Nodup ∧
      ((apply eng σ op).pending.map (·.challengerClaimRef)).Nodup from ⟨h.1, h.2⟩
  generalize (apply eng σ op).pending = table at hq
  cases hq with
  | ignored => exact ⟨hP.handles, hP.challengers⟩
  | aside _ _ => exact ⟨hP.handles, hP.challengers⟩
  | queued hfree _ _ _ =>
    simp only [List.map_append, List.map_singleton, List.nodup_append, List.mem_map,
      List.mem_singleton]
    refine ⟨⟨hP.handles, List.nodup_singleton _, ?_⟩,
      ⟨hP.challengers, List.nodup_singleton _, ?_⟩⟩
    · rintro _ ⟨old, hold, rfl⟩ _ rfl hsame
      have hnone := List.find?_eq_none.mp hfree old hold
      simp [hsame] at hnone
    · rintro _ ⟨old, hold, rfl⟩ _ rfl hsame
      exact (Fresh.pending hsup hold).1 (congrArg ClaimRef.uuid hsame)
  | applied _ => exact hmarked _ _
  | lapsed _ _ => exact hmarked _ _
  | swept _ => exact hmarked _ _

theorem DistinctRows.eq_of_handle (h : DistinctRows σ) (hrow : row ∈ σ.pending)
    (hrow' : row' ∈ σ.pending) (hhandle : row.handleId = row'.handleId) : row = row' :=
  List.inj_on_of_nodup_map h.handles hrow hrow' hhandle

theorem DistinctRows.eq_of_challenger (h : DistinctRows σ) (hrow : row ∈ σ.pending)
    (hrow' : row' ∈ σ.pending) (href : row.challengerClaimRef = row'.challengerClaimRef) :
    row = row' :=
  List.inj_on_of_nodup_map h.challengers hrow hrow' href

end Keys

end Mempill.QueueRows
