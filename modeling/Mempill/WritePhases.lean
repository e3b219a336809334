import Mempill.Engine

set_option autoImplicit false

/-!
# Write phases

Each write operation as its read phase, which plans the appends of one transaction,
and the port calls that carry the plan out. Any of the calls may fail.
-/
namespace Mempill.WritePhases
open Mempill.Types Mempill.Persistence Mempill.TruthEngine Mempill.Gate Mempill.IngestClaim
open Mempill.AssertValidity Mempill.SubmitAdjudication Mempill.Reconcile Mempill.Engine

section Calls

inductive Append where
  | claim (c : Claim)
  | assertion (a : ValidityAssertion)
  | entry (e : LedgerEntry)
  | edge (e : ClaimEdge)

def Append.write (σ : Store) : Append → Store
  | .claim c => appendClaim σ c
  | .assertion a => appendValidityAssertion σ a
  | .entry e => appendLedgerEntry σ e
  | .edge e => appendClaimEdges σ [e]

def writeAll (σ : Store) (appends : List Append) : Store := appends.foldl Append.write σ

/-- Which calls of an operation fail, and with what; `append n` is the n-th append of
    its transaction. -/
structure Faults where
  beginAtomic : Option StoreError
  append : ℕ → Option StoreError
  commit : Option StoreError
  insertPending : Bool
  markPending : Bool

def Faults.none : Faults := ⟨.none, fun _ => .none, .none, false, false⟩

def appendAll (faults : Faults) (n : ℕ) (staged : Store) :
    List Append → Except StoreError Store
  | [] => .ok staged
  | a :: appends =>
    match faults.append n with
    | some e => .error e
    | .none => appendAll faults (n + 1) (a.write staged) appends

/-- One transaction. It is rolled back where an append fails, and a failed commit
    persists nothing. -/
def transact (faults : Faults) (σ : Store) (appends : List Append) : Except MemError Store :=
  match faults.beginAtomic with
  | some e => .error (.persistence e)
  | .none =>
    match appendAll faults 0 σ appends with
    | .error e => .error (.persistence e)
    | .ok staged =>
      match faults.commit with
      | some e => .error (.persistence e)
      | .none => .ok staged

/-- What an operation still does once its transaction is committed. -/
inductive AfterCommit where
  | nothing
  /-- Ask the oracle, and insert the pending row under its handle. -/
  | queue (oracleReply : Except String Uuid) (row : Uuid → PendingAdjudicationRow)
  | resolve (handleId : Uuid)
  | expire (handleId : Uuid)
  /-- The lazy expiry ignores a failure to mark the row. -/
  | expireLazily (handleId : Uuid)

/-- What the read phase of an operation settles on. -/
inductive Planned (α : Type) where
  | answered (result : Except MemError α)
  | write (appends : List Append) (after : AfterCommit) (result : Except MemError α)

namespace Planned

variable {α β : Type}

def map (f : α → β) : Planned α → Planned β
  | answered result => answered (result.map f)
  | write appends after result => write appends after (result.map f)

def finish (faults : Faults) (σ : Store) (result : Except MemError α) :
    AfterCommit → Except MemError α × Store
  | .nothing => (result, σ)
  | .queue (.error reason) _ => (.error (.oracleError reason), σ)
  | .queue (.ok handleId) row =>
    if faults.insertPending then (.error .pendingStore, σ)
    else match insertPending σ (row handleId) with
      | .none => (.error .pendingStore, σ)
      | some queued => (result, queued)
  | .resolve handleId =>
    if faults.markPending then (.error .pendingStore, σ) else (result, markResolved σ handleId)
  | .expire handleId =>
    if faults.markPending then (.error .pendingStore, σ) else (result, markExpired σ handleId)
  | .expireLazily handleId =>
    (result, if faults.markPending then σ else markExpired σ handleId)

/-- Carries a plan out on a store. -/
def run (faults : Faults) (σ : Store) : Planned α → Except MemError α × Store
  | answered result => (result, σ)
  | write appends after result =>
    match transact faults σ appends with
    | .error e => (.error e, σ)
    | .ok committed => finish faults committed result after

end Planned

end Calls

section Plans

def ingestAppends (claim : Claim) (decision : GateDecision) (now : Instant) : List Append :=
  [.claim claim, .entry (committedEntry claim decision now)] ++
    (lineageEdges claim now).map .edge

def planAdmitted (eng : Engine) (σ : Store) (req : IngestClaimRequest) (claim : Claim)
    (now : Instant) (oracleReply : Except String Uuid) : Planned IngestClaimResponse :=
  let decision := gateDecision eng σ req claim now
  let incumbent := incumbentFor eng.config σ req.agentId req.subject req.predicate now
  let response : IngestClaimResponse :=
    { claimRef := claim.claimRef
      disposition := decision.disposition
      contestedWith := contestedWith decision incumbent }
  let after : AfterCommit :=
    if decision.disposition = .queuedForAdjudication ∧ eng.oraclePresent ∧
        eng.pendingStorePresent then
      match incumbent with
      | none => .nothing
      | some incumbent => .queue oracleReply (pendingRow eng req claim incumbent now)
    else .nothing
  .write (ingestAppends claim decision now) after (.ok response)

def planIngest (eng : Engine) (σ : Store) (req : IngestClaimRequest) (now : Instant)
    (claimRef : ClaimRef) (oracleReply : Except String Uuid) : Planned IngestClaimResponse :=
  let claim := stamp req claimRef now
  match check eng.config claim (loadInjectedClaims σ req.agentId) 0 with
  | .corroborateByIdentity existingClaim => .answered (.ok ⟨existingClaim, .committedCheap, []⟩)
  | .quarantine => .answered (.ok ⟨claim.claimRef, .quarantined, []⟩)
  | .admitted | .depthCapExceeded _ _ => planAdmitted eng σ req claim now oracleReply

def planBound (σ : Store) (req : AssertValidityRequest) (targetClaim : Claim)
    (activeBound : Option BoundState) (at_ : Instant) (atGranularity : Option DateGranularity)
    (now : Instant) (assertionRef : Uuid) : Planned AssertValidityResponse :=
  if underAdjudication σ req.agentId req.target then
    .answered (.error (.targetUnderAdjudication req.target))
  else if targetClaim.validTime.start.any (fun start => decide (at_ < start)) then
    .answered (.error (.incoherentTemporalWindow (targetClaim.validTime.start.getD 0) at_))
  else match activeBound with
    | some existing =>
      if existing.boundAt = at_ then
        .answered (.ok { claimRef := req.target
                         assertionRef := some existing.assertionRef
                         kind := .bound existing.boundAt existing.boundAtGranularity
                         effectiveAt := some existing.boundAt
                         disposition := .superseded
                         noOp := true })
      else .answered (.error (.alreadyBound req.target existing.boundAt))
    | none =>
      match targetClaim.validTime.stop.filter (fun ownEnd => decide (ownEnd ≤ at_)) with
      | some ownEnd =>
        .answered (.ok { claimRef := req.target
                         assertionRef := none
                         kind := .bound ownEnd targetClaim.validTime.stopGranularity
                         effectiveAt := some ownEnd
                         disposition := .superseded
                         noOp := true })
      | none =>
        .write
          [.assertion (hostAssertion req (.bound at_ atGranularity) now assertionRef),
            .entry (hostEntry req .superseded (hostBoundRationale at_) now)]
          .nothing
          (.ok { claimRef := req.target
                 assertionRef := some assertionRef
                 kind := .bound at_ atGranularity
                 effectiveAt := some at_
                 disposition := .superseded
                 noOp := false })

def planReopen (req : AssertValidityRequest) (activeBound : Option BoundState) (now : Instant)
    (assertionRef : Uuid) : Planned AssertValidityResponse :=
  match activeBound with
  | none =>
    .answered (.ok { claimRef := req.target
                     assertionRef := none
                     kind := .reopen now
                     effectiveAt := none
                     disposition := .reinstated
                     noOp := true })
  | some _ =>
    .write
      [.assertion (hostAssertion req (.reopen now) now assertionRef),
        .entry (hostEntry req .reinstated (reopenRationale now) now)]
      .nothing
      (.ok { claimRef := req.target
             assertionRef := some assertionRef
             kind := .reopen now
             effectiveAt := some now
             disposition := .reinstated
             noOp := false })

def planAssert (σ : Store) (req : AssertValidityRequest) (now : Instant) (assertionRef : Uuid) :
    Planned AssertValidityResponse :=
  if !req.provenance.isCheapPathEligible then
    .answered (.error (.insufficientProvenanceForOverturn req.provenance))
  else match loadClaim σ req.agentId req.target with
    | none => .answered (.error (.claimNotFound req.target))
    | some targetClaim =>
      let activeBound := activeBoundAt (loadValidityAssertionsFor σ req.agentId req.target) now
      match req.assertion with
      | .bound at_ atGranularity =>
        planBound σ req targetClaim activeBound at_ atGranularity now assertionRef
      | .reopen => planReopen req activeBound now assertionRef

/-- `supersession::bound_claim`. -/
def boundAppends (agentId : AgentId) (target overturning : ClaimRef) (boundAt : Instant)
    (boundAtGranularity : Option DateGranularity) (now : Instant)
    (preloadedEdges : List ClaimEdge) (verdict : String) (assertionRef : Uuid) : List Append :=
  [.assertion (oracleAssertion agentId target boundAt boundAtGranularity now assertionRef),
      .entry (supersededEntry agentId target overturning boundAt now verdict)] ++
    (cascadeEntries agentId target overturning now preloadedEdges).map .entry

def verdictAppends (verdict : AdjudicationVerdict) (evidenceProvenance : ProvenanceLabel)
    (agentId : AgentId) (challenger incumbent : ClaimRef) (now boundAt : Instant)
    (boundAtGranularity : Option DateGranularity)
    (incumbentEdges challengerEdges : List ClaimEdge) (assertionRef : Uuid) : List Append :=
  match verdict with
  | .affirm =>
    boundAppends agentId incumbent challenger boundAt boundAtGranularity now incumbentEdges
        "affirm" assertionRef ++
      [.entry (resolvedEntry agentId challenger .committedCheap
        (affirmRationale evidenceProvenance) now)]
  | .deny =>
    boundAppends agentId challenger incumbent now none now challengerEdges "deny" assertionRef
  | .unknown =>
    [.entry (resolvedEntry agentId challenger .contested abstainRationale now),
      .entry (resolvedEntry agentId incumbent .contested abstainRationale now)]

def planSubmit (config : EngineConfig) (σ : Store) (handleId : Uuid)
    (response : AdjudicationResponse) (now : Instant) (assertionRef : Uuid) :
    Planned AdjudicationOutcome :=
  match getPending σ handleId with
  | none => .answered (.error (.adjudicationHandleNotFound handleId))
  | some row =>
    match row.expiresAt.filter (fun t => decide (t ≤ now)) with
    | some expiresAt =>
      if currentDisposition σ row.agentId row.challengerClaimRef =
          some .queuedForAdjudication then
        .write [.entry (expiredEntry row (lazyExpiryRationale row expiresAt) now)]
          (.expireLazily row.handleId) (.error (.adjudicationHandleNotFound handleId))
      else .answered (.error (.adjudicationHandleNotFound handleId))
    | none =>
      if currentDisposition σ row.agentId row.challengerClaimRef ≠
          some .queuedForAdjudication then
        .answered (.error (.adjudicationHandleNotFound handleId))
      else match loadClaim σ row.agentId row.challengerClaimRef with
        | none => .answered (.error (.claimNotFound row.challengerClaimRef))
        | some challengerClaim =>
          let (boundAt, boundAtGranularity) := affirmBoundAt config challengerClaim now
          .write
            (verdictAppends response.verdict response.evidenceProvenance row.agentId
              row.challengerClaimRef row.incumbentClaimRef now boundAt boundAtGranularity
              (loadEdgesFor σ row.agentId row.incumbentClaimRef)
              (loadEdgesFor σ row.agentId row.challengerClaimRef) assertionRef)
            (.resolve handleId)
            (.ok ⟨handleId, verdictDisposition response.verdict, row.challengerClaimRef⟩)

/-- The transaction is opened even where no claim is selected. -/
def planReconcile (eng : Engine) (σ : Store) (req : ReconcileRequest) (now : Instant) :
    Planned ReconcileResponse :=
  if req.subjectLines.isEmpty then .answered (.ok ⟨[], 0⟩)
  else
    let ds := decisions eng σ req now
    .write ((ds.map (decisionEntry req.agentId now)).map .entry) .nothing
      (.ok { outcomes := ds.map fun d => (d.1, d.2.disposition)
             oracleEscalations := ds.countP fun d => d.2.route == .heavyPath })

def planExpiredRow (σ : Store) (row : PendingAdjudicationRow) (now : Instant) : Planned Bool :=
  if currentDisposition σ row.agentId row.challengerClaimRef ≠ some .queuedForAdjudication then
    .answered (.ok false)
  else
    .write [.entry (expiredEntry row (expiryRationale row now) now)] (.expire row.handleId)
      (.ok true)

def planOrphan (σ : Store) (orphan : OrphanedQueuedClaim) (now : Instant) : Planned Bool :=
  if currentDisposition σ orphan.agentId orphan.challengerClaimRef ≠
      some .queuedForAdjudication then
    .answered (.ok false)
  else .write [.entry (orphanEntry orphan now)] .nothing (.ok true)

inductive Response where
  | ingested (response : IngestClaimResponse)
  | asserted (response : AssertValidityResponse)
  | adjudicated (outcome : AdjudicationOutcome)
  | reconciled (response : ReconcileResponse)
  | reverted (done : Bool)
  | edgeAppended
  deriving DecidableEq

/-- The read phase of an operation. -/
def planOf (eng : Engine) (σ : Store) : Op → Planned Response
  | .ingestClaim req now claimRef oracleReply =>
    (planIngest eng σ req now claimRef oracleReply).map .ingested
  | .assertValidity req now assertionRef => (planAssert σ req now assertionRef).map .asserted
  | .submitAdjudication handleId response now assertionRef =>
    (planSubmit eng.config σ handleId response now assertionRef).map .adjudicated
  | .reconcile req now => (planReconcile eng σ req now).map .reconciled
  | .sweepExpired row now => (planExpiredRow σ row now).map .reverted
  | .sweepOrphan orphan now => (planOrphan σ orphan now).map .reverted
  | .appendEdge edge => .write [.edge edge] .nothing (.ok .edgeAppended)

end Plans

section Transactions

variable {faults : Faults} {σ σ' : Store} {appends : List Append}

theorem writeAll_append (σ : Store) (pre post : List Append) :
    writeAll σ (pre ++ post) = writeAll (writeAll σ pre) post :=
  List.foldl_append

theorem writeAll_entries (σ : Store) (es : List LedgerEntry) :
    writeAll σ (es.map .entry) = appendLedgerEntries σ es := by
  induction es generalizing σ with
  | nil => simp [writeAll, appendLedgerEntries]
  | cons e es ih =>
    rw [List.map_cons, writeAll, List.foldl_cons, ← writeAll, ih]
    simp [Append.write, appendLedgerEntry, appendLedgerEntries]

theorem writeAll_edges (σ : Store) (es : List ClaimEdge) :
    writeAll σ (es.map .edge) = appendClaimEdges σ es := by
  induction es generalizing σ with
  | nil => simp [writeAll, appendClaimEdges]
  | cons e es ih =>
    rw [List.map_cons, writeAll, List.foldl_cons, ← writeAll, ih]
    simp [Append.write, appendClaimEdges]

/-- No call of the transaction fails. -/
def Commits (faults : Faults) (appends : List Append) : Prop :=
  faults.beginAtomic = none ∧ (∀ n < appends.length, faults.append n = none) ∧
    faults.commit = none

theorem appendAll_eq_ok_iff (n : ℕ) :
    appendAll faults n σ appends = .ok σ' ↔
      (∀ k < appends.length, faults.append (n + k) = none) ∧ writeAll σ appends = σ' := by
  induction appends generalizing n σ with
  | nil => simp [appendAll, writeAll]
  | cons a appends ih =>
    have hsplit : (∀ k < (a :: appends).length, faults.append (n + k) = none) ↔
        faults.append n = none ∧ ∀ k < appends.length, faults.append (n + 1 + k) = none := by
      constructor
      · intro h
        refine ⟨h 0 (by simp), fun k hk => ?_⟩
        rw [Nat.add_assoc, Nat.add_comm 1 k]
        exact h (k + 1) (by simpa using hk)
      · rintro ⟨hzero, hrest⟩ k hk
        cases k with
        | zero => exact hzero
        | succ k =>
          rw [Nat.add_comm k 1, ← Nat.add_assoc]
          exact hrest k (by simpa using hk)
    rw [hsplit]
    cases hfail : faults.append n with
    | some e => simp [appendAll, hfail]
    | none =>
      simp only [appendAll, hfail, ih, true_and]
      rfl

theorem transact_eq_ok_iff :
    transact faults σ appends = .ok σ' ↔ Commits faults appends ∧ writeAll σ appends = σ' := by
  unfold transact Commits
  cases hbegin : faults.beginAtomic with
  | some e => simp
  | none =>
    have happend := @appendAll_eq_ok_iff faults σ σ' appends 0
    simp only [Nat.zero_add] at happend
    cases happ : appendAll faults 0 σ appends with
    | error e =>
      rw [happ] at happend
      simp only [reduceCtorEq, false_iff, not_and] at happend ⊢
      exact fun h => happend h.2.1
    | ok staged =>
      cases hcommit : faults.commit with
      | some e => simp
      | none =>
        rw [happ] at happend
        simpa using happend

theorem transact_none (σ : Store) (appends : List Append) :
    transact .none σ appends = .ok (writeAll σ appends) :=
  transact_eq_ok_iff.mpr ⟨⟨rfl, fun _ _ => rfl, rfl⟩, rfl⟩

/-- What a plan leaves where no call fails. -/
theorem run_none_write {α : Type} (after : AfterCommit) (result : Except MemError α) :
    (Planned.write appends after result).run .none σ =
      Planned.finish .none (writeAll σ appends) result after := by
  simp only [Planned.run, transact_none]

end Transactions

section Sequential

variable (eng : Engine) (config : EngineConfig) (σ : Store) (now : Instant) (assertionRef : Uuid)

theorem writeAll_ingestAppends (claim : Claim) (decision : GateDecision) :
    writeAll σ (ingestAppends claim decision now) = appendWithinTxn σ claim decision now := by
  rw [ingestAppends, writeAll_append, writeAll_edges]
  rfl

theorem planAdmitted_run (req : IngestClaimRequest) (claim : Claim)
    (oracleReply : Except String Uuid) :
    (planAdmitted eng σ req claim now oracleReply).run .none σ =
      executeAdmitted eng σ req claim now oracleReply := by
  refine (run_none_write _ _).trans ?_
  rw [writeAll_ingestAppends]
  unfold executeAdmitted
  by_cases hqueued : (gateDecision eng σ req claim now).disposition = .queuedForAdjudication ∧
      eng.oraclePresent ∧ eng.pendingStorePresent
  case neg =>
    simp only [if_neg hqueued]
    rfl
  simp only [if_pos hqueued]
  cases incumbentFor eng.config σ req.agentId req.subject req.predicate now with
  | none => rfl
  | some incumbent =>
    cases oracleReply with
    | error _ => rfl
    | ok handleId =>
      cases hins : insertPending
          (appendWithinTxn σ claim (gateDecision eng σ req claim now) now)
          (pendingRow eng req claim incumbent now handleId) <;>
        simp only [Planned.finish, Faults.none, hins, Bool.false_eq_true, if_false]

theorem planIngest_run (req : IngestClaimRequest) (claimRef : ClaimRef)
    (oracleReply : Except String Uuid) :
    (planIngest eng σ req now claimRef oracleReply).run .none σ =
      IngestClaim.execute eng σ req now claimRef oracleReply := by
  unfold planIngest IngestClaim.execute
  dsimp only
  cases check eng.config (stamp req claimRef now) (loadInjectedClaims σ req.agentId) 0 with
  | corroborateByIdentity _ => rfl
  | quarantine => rfl
  | admitted => exact planAdmitted_run eng σ now req _ oracleReply
  | depthCapExceeded _ _ => exact planAdmitted_run eng σ now req _ oracleReply

theorem planBound_run (req : AssertValidityRequest) (targetClaim : Claim)
    (activeBound : Option BoundState) (at_ : Instant) (atGranularity : Option DateGranularity) :
    (planBound σ req targetClaim activeBound at_ atGranularity now assertionRef).run .none σ =
      executeBound σ req targetClaim activeBound at_ atGranularity now assertionRef := by
  unfold planBound executeBound
  split_ifs
  · rfl
  · rfl
  · cases activeBound with
    | some existing => dsimp only; split_ifs <;> rfl
    | none =>
      cases targetClaim.validTime.stop.filter (fun ownEnd => decide (ownEnd ≤ at_)) with
      | some _ => rfl
      | none => exact run_none_write _ _

theorem planReopen_run (req : AssertValidityRequest) (activeBound : Option BoundState) :
    (planReopen req activeBound now assertionRef).run .none σ =
      executeReopen σ req activeBound now assertionRef := by
  cases activeBound with
  | none => rfl
  | some _ => exact run_none_write _ _

theorem planAssert_run (req : AssertValidityRequest) :
    (planAssert σ req now assertionRef).run .none σ =
      AssertValidity.execute σ req now assertionRef := by
  unfold planAssert AssertValidity.execute
  split_ifs
  · rfl
  · cases loadClaim σ req.agentId req.target with
    | none => rfl
    | some targetClaim =>
      cases hassert : req.assertion with
      | bound at_ atGranularity => exact planBound_run σ now assertionRef req _ _ _ _
      | reopen => exact planReopen_run σ now assertionRef req _

theorem writeAll_boundAppends (agentId : AgentId) (target overturning : ClaimRef)
    (boundAt : Instant) (boundAtGranularity : Option DateGranularity)
    (preloadedEdges : List ClaimEdge) (verdict : String) :
    writeAll σ (boundAppends agentId target overturning boundAt boundAtGranularity now
        preloadedEdges verdict assertionRef) =
      boundClaim σ agentId target overturning boundAt boundAtGranularity now preloadedEdges
        verdict assertionRef := by
  rw [boundAppends, writeAll_append, writeAll_entries]
  rfl

theorem writeAll_verdictAppends (verdict : AdjudicationVerdict)
    (evidenceProvenance : ProvenanceLabel) (agentId : AgentId) (challenger incumbent : ClaimRef)
    (boundAt : Instant) (boundAtGranularity : Option DateGranularity)
    (incumbentEdges challengerEdges : List ClaimEdge) :
    writeAll σ (verdictAppends verdict evidenceProvenance agentId challenger incumbent now
        boundAt boundAtGranularity incumbentEdges challengerEdges assertionRef) =
      applyVerdict σ verdict evidenceProvenance agentId challenger incumbent now boundAt
        boundAtGranularity incumbentEdges challengerEdges assertionRef := by
  cases verdict with
  | affirm =>
    rw [verdictAppends, writeAll_append, writeAll_boundAppends]
    rfl
  | deny => exact writeAll_boundAppends σ now assertionRef _ _ _ _ _ _ _
  | unknown => exact writeAll_entries σ [_, _]

theorem planSubmit_run (handleId : Uuid) (response : AdjudicationResponse) :
    (planSubmit config σ handleId response now assertionRef).run .none σ =
      SubmitAdjudication.execute config σ handleId response now assertionRef := by
  unfold planSubmit SubmitAdjudication.execute
  cases getPending σ handleId with
  | none => rfl
  | some row =>
    dsimp only
    cases row.expiresAt.filter (fun t => decide (t ≤ now)) with
    | some expiresAt =>
      unfold lazyExpire
      dsimp only
      split_ifs
      · exact run_none_write _ _
      · rfl
    | none =>
      dsimp only
      split_ifs
      · rfl
      · cases loadClaim σ row.agentId row.challengerClaimRef with
        | none => rfl
        | some challengerClaim =>
          refine (run_none_write _ _).trans ?_
          rw [writeAll_verdictAppends]
          rfl

theorem planReconcile_run (req : ReconcileRequest) :
    (planReconcile eng σ req now).run .none σ =
      (.ok (Reconcile.execute eng σ req now).1, (Reconcile.execute eng σ req now).2) := by
  unfold planReconcile Reconcile.execute
  split_ifs
  · rfl
  · refine (run_none_write _ _).trans ?_
    rw [writeAll_entries]
    rfl

theorem planExpiredRow_run (row : PendingAdjudicationRow) :
    (planExpiredRow σ row now).run .none σ =
      (.ok (revertExpiredRow σ row now).1, (revertExpiredRow σ row now).2) := by
  unfold planExpiredRow revertExpiredRow
  split_ifs
  · rfl
  · exact run_none_write _ _

theorem planOrphan_run (orphan : OrphanedQueuedClaim) :
    (planOrphan σ orphan now).run .none σ =
      (.ok (revertOrphan σ orphan now).1, (revertOrphan σ orphan now).2) := by
  unfold planOrphan revertOrphan
  split_ifs
  · rfl
  · exact run_none_write _ _

theorem map_run {α β : Type} (f : α → β) (faults : Faults) (p : Planned α) :
    (p.map f).run faults σ = ((p.run faults σ).1.map f, (p.run faults σ).2) := by
  cases p with
  | answered _ => rfl
  | write appends after result =>
    simp only [Planned.map, Planned.run]
    cases transact faults σ appends with
    | error _ => rfl
    | ok committed =>
      cases after with
      | nothing => rfl
      | queue reply row =>
        cases reply with
        | error _ => rfl
        | ok handleId =>
          simp only [Planned.finish]
          split_ifs
          · rfl
          · cases insertPending committed (row handleId) <;> rfl
      | resolve _ | expire _ => simp only [Planned.finish]; split_ifs <;> rfl
      | expireLazily _ => rfl

/-- Where no call fails, the phases of an operation do what the operation does. -/
theorem planOf_run (op : Op) :
    ((planOf eng σ op).run .none σ).2 = apply eng σ op := by
  cases op with
  | ingestClaim req now claimRef reply => rw [planOf, map_run, planIngest_run]; rfl
  | assertValidity req now assertionRef => rw [planOf, map_run, planAssert_run]; rfl
  | submitAdjudication handleId response now assertionRef =>
    rw [planOf, map_run, planSubmit_run]; rfl
  | reconcile req now => rw [planOf, map_run, planReconcile_run]; rfl
  | sweepExpired row now => rw [planOf, map_run, planExpiredRow_run]; rfl
  | sweepOrphan orphan now => rw [planOf, map_run, planOrphan_run]; rfl
  | appendEdge edge => exact congrArg Prod.snd (run_none_write _ _)

end Sequential

end Mempill.WritePhases
