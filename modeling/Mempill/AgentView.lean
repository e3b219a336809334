import Mempill.QueueRows
import Mempill.SharedStore

set_option autoImplicit false

/-!
# Agent view

The rows of one agent. Every read for an agent is a read of its view, and an operation
acts on the view of its agent alone.
-/
namespace Mempill.AgentView
open Mempill.Types Mempill.Persistence Mempill.TruthEngine Mempill.Gate Mempill.IngestClaim
open Mempill.AssertValidity Mempill.SubmitAdjudication Mempill.Reconcile Mempill.Sweep
open Mempill.QueryMemory Mempill.QueryHistory Mempill.Queries Mempill.EndFact Mempill.Engine
open Mempill.Steps Mempill.QueueRows Mempill.SharedStore StampedLog

def view (a : AgentId) (σ : Store) : Store where
  claims := σ.claims.filter (·.agentId == a)
  assertions := σ.assertions.filter (·.agentId == a)
  ledger := σ.ledger.filter (·.agentId == a)
  edges := σ.edges.filter (·.agentId == a)
  pending := σ.pending.filter (·.agentId == a)
  ties := σ.ties

section Reads

variable (a : AgentId) (σ : Store)

/-- A selection of rows of one agent is a selection of its own rows. -/
theorem filter_own {α : Type} (agentId : α → AgentId) {p : α → Bool} {rows : List α}
    (h : ∀ x ∈ rows, p x = true → agentId x = a) :
    (rows.filter (agentId · == a)).filter p = rows.filter p := by
  rw [List.filter_filter]
  refine List.filter_congr fun x hx => ?_
  by_cases hp : p x = true
  · simp [hp, h x hx hp]
  · simp [hp]

theorem find?_own {α : Type} (agentId : α → AgentId) {p : α → Bool} {rows : List α}
    (h : ∀ x ∈ rows, p x = true → agentId x = a) :
    (rows.filter (agentId · == a)).find? p = rows.find? p := by
  rw [← List.head?_filter, ← List.head?_filter, filter_own a agentId h]

theorem any_own {α : Type} (agentId : α → AgentId) {p : α → Bool} {rows : List α}
    (h : ∀ x ∈ rows, p x = true → agentId x = a) :
    (rows.filter (agentId · == a)).any p = rows.any p := by
  rw [Bool.eq_iff_iff, List.any_eq_true, List.any_eq_true]
  constructor
  · rintro ⟨x, hx, hp⟩
    exact ⟨x, List.mem_of_mem_filter hx, hp⟩
  · rintro ⟨x, hx, hp⟩
    exact ⟨x, List.mem_filter.mpr ⟨hx, beq_iff_eq.mpr (h x hx hp)⟩, hp⟩

@[simp] theorem loadSubjectLine_view (subject predicate : String) (cutoff : Option Instant) :
    loadSubjectLine (view a σ) a subject predicate cutoff =
      loadSubjectLine σ a subject predicate cutoff := by
  unfold loadSubjectLine
  refine congrArg _ (filter_own a Claim.agentId fun c _ hc => ?_)
  simp only [onLine, Bool.and_eq_true, beq_iff_eq] at hc
  exact hc.1.1.1

@[simp] theorem loadClaim_view (claimRef : ClaimRef) :
    loadClaim (view a σ) a claimRef = loadClaim σ a claimRef := by
  refine find?_own a Claim.agentId fun c _ hc => ?_
  simp only [Bool.and_eq_true, beq_iff_eq] at hc
  exact hc.1

@[simp] theorem loadValidityAssertionsFor_view :
    loadValidityAssertionsFor (view a σ) a = loadValidityAssertionsFor σ a := by
  funext claimRef
  unfold loadValidityAssertionsFor
  refine congrArg _ (filter_own a ValidityAssertion.agentId fun x _ hx => ?_)
  simp only [Bool.and_eq_true, beq_iff_eq] at hx
  exact hx.1

@[simp] theorem loadLedgerForClaims_view (claimRefs : List ClaimRef) (cutoff : Option Instant) :
    loadLedgerForClaims (view a σ) a claimRefs cutoff =
      loadLedgerForClaims σ a claimRefs cutoff := by
  unfold loadLedgerForClaims
  refine congrArg (fun rows => inOrder LedgerEntry.recordedAt (σ.ties.arrange rows))
    (filter_own a LedgerEntry.agentId fun e _ he => ?_)
  simp only [Bool.and_eq_true, beq_iff_eq] at he
  exact he.1.1

@[simp] theorem loadEdgesFor_view (claimRef : ClaimRef) :
    loadEdgesFor (view a σ) a claimRef = loadEdgesFor σ a claimRef := by
  unfold loadEdgesFor
  refine congrArg _ (filter_own a ClaimEdge.agentId fun e _ he => ?_)
  simp only [Bool.and_eq_true, beq_iff_eq] at he
  exact he.1

@[simp] theorem loadInjectedClaims_view :
    loadInjectedClaims (view a σ) a = loadInjectedClaims σ a := by
  unfold loadInjectedClaims
  refine congrArg (fun rows =>
      ((inOrder LedgerEntry.recordedAt (σ.ties.arrange rows)).map (·.claimRef)).eraseDups)
    (filter_own a LedgerEntry.agentId fun e _ he => ?_)
  simp only [Bool.and_eq_true, beq_iff_eq] at he
  exact he.1

@[simp] theorem loadLedger_view (from_ : Option Instant) (limit : ℕ) :
    loadLedger (view a σ) a from_ limit = loadLedger σ a from_ limit := by
  unfold loadLedger
  refine congrArg (fun rows =>
      (inOrder LedgerEntry.recordedAt (σ.ties.arrange rows)).take limit)
    (filter_own a LedgerEntry.agentId fun e _ he => ?_)
  simp only [Bool.and_eq_true, beq_iff_eq] at he
  exact he.1

@[simp] theorem listPredicatesForSubject_view (subject : String) (cutoff : Option Instant) :
    listPredicatesForSubject (view a σ) a subject cutoff =
      listPredicatesForSubject σ a subject cutoff := by
  unfold listPredicatesForSubject
  refine congrArg (fun rows => (rows.map (·.fact.predicate)).dedup)
    (filter_own a Claim.agentId fun c _ hc => ?_)
  simp only [Bool.and_eq_true, beq_iff_eq] at hc
  exact hc.1.1

@[simp] theorem readLine_view (subject predicate : String) (cutoff : Option Instant) :
    readLine (view a σ) a subject predicate cutoff = readLine σ a subject predicate cutoff := by
  simp only [readLine, loadSubjectLine_view, loadLedgerForClaims_view]

@[simp] theorem currentDisposition_view (claimRef : ClaimRef) :
    currentDisposition (view a σ) a claimRef = currentDisposition σ a claimRef := by
  simp only [currentDisposition, loadLedgerForClaims_view]

@[simp] theorem underAdjudication_view (claimRef : ClaimRef) :
    underAdjudication (view a σ) a claimRef = underAdjudication σ a claimRef := by
  simp only [underAdjudication, loadLedgerForClaims_view]

variable (config : EngineConfig)

@[simp] theorem foldForWrite_view (subject predicate : String) (now : Instant) :
    foldForWrite config (view a σ) a subject predicate now =
      foldForWrite config σ a subject predicate now := by
  simp only [foldForWrite, readLine_view, loadValidityAssertionsFor_view]

@[simp] theorem conflictCandidates_view (subject predicate : String) (now : Instant) :
    conflictCandidates config (view a σ) a subject predicate now =
      conflictCandidates config σ a subject predicate now := by
  simp only [conflictCandidates, foldForWrite_view, readLine_view]

@[simp] theorem incumbentFor_view (subject predicate : String) (now : Instant) :
    incumbentFor config (view a σ) a subject predicate now =
      incumbentFor config σ a subject predicate now := by
  simp only [incumbentFor, foldForWrite_view, conflictCandidates_view]

end Reads

section Queries

variable {a : AgentId} (σ : Store) (config : EngineConfig)

theorem queryMemory_view (req : QueryMemoryRequest) (now : Instant) (h : req.agentId = a) :
    QueryMemory.execute config (view a σ) req now = QueryMemory.execute config σ req now := by
  subst h
  simp only [QueryMemory.execute, queryFold, readLine_view, loadValidityAssertionsFor_view]

theorem queryHistory_view (req : QueryHistoryRequest) (now : Instant) (h : req.agentId = a) :
    QueryHistory.execute config (view a σ) req now = QueryHistory.execute config σ req now := by
  subst h
  simp only [QueryHistory.execute, foldForWrite_view]

theorem querySubject_view (req : QuerySubjectRequest) (now : Instant) (h : req.agentId = a) :
    querySubject config (view a σ) req now = querySubject config σ req now := by
  have hmemory : ∀ predicate,
      QueryMemory.execute config (view a σ)
          ⟨req.agentId, req.subject, predicate, req.asOfTxTime, req.validAt⟩ now =
        QueryMemory.execute config σ
          ⟨req.agentId, req.subject, predicate, req.asOfTxTime, req.validAt⟩ now :=
    fun predicate => queryMemory_view σ config _ now h
  subst h
  simp only [querySubject, listPredicatesForSubject_view, hmemory]

theorem queryAudit_view (req : AuditQueryRequest) (h : req.agentId = a) :
    queryAudit (view a σ) req = queryAudit σ req := by
  subst h
  simp only [queryAudit, loadLedger_view]

theorem resolveLiveClaimForLine_view (subject predicate : String) (now : Instant) :
    resolveLiveClaimForLine config (view a σ) a subject predicate now =
      resolveLiveClaimForLine config σ a subject predicate now := by
  simp only [resolveLiveClaimForLine, foldForClose, readLine_view,
    loadValidityAssertionsFor_view]

theorem listPending_view (f : PendingFormats) :
    listPending f (view a σ) (some a) = listPending f σ (some a) := by
  unfold listPending
  refine congrArg (fun rows => (inOrder _ rows).mapM (rowToPending f))
    (filter_own a PendingAdjudicationRow.agentId fun row _ hrow => ?_)
  simp only [Option.all_some, Bool.and_eq_true, beq_iff_eq] at hrow
  exact hrow.1

/-- An answer to an agent is read from its view. -/
theorem answer_view (f : PendingFormats) (eng : Engine) (now : Instant) {q : SharedStore.Query}
    (h : agentOfQuery q = some a) : answer f eng (view a σ) now q = answer f eng σ now q := by
  cases q with
  | memory req => exact congrArg Answer.memory (queryMemory_view σ _ req now (Option.some.inj h))
  | history req =>
    exact congrArg Answer.history (queryHistory_view σ _ req now (Option.some.inj h))
  | subject req =>
    exact congrArg Answer.subject (querySubject_view σ _ req now (Option.some.inj h))
  | audit req => exact congrArg Answer.audit (queryAudit_view σ req (Option.some.inj h))
  | liveClaim agentId subject predicate =>
    cases h
    exact congrArg Answer.liveClaim (resolveLiveClaimForLine_view σ _ subject predicate now)
  | pending agentId =>
    cases h
    simp only [answer, listPending_view]

end Queries

section Writes

variable {a : AgentId} {σ : Store}

theorem appendClaim_view {claim : Claim} (h : claim.agentId = a) :
    appendClaim (view a σ) claim = view a (appendClaim σ claim) := by
  simp [appendClaim, view, h]

theorem appendValidityAssertion_view {assertion : ValidityAssertion}
    (h : assertion.agentId = a) :
    appendValidityAssertion (view a σ) assertion =
      view a (appendValidityAssertion σ assertion) := by
  simp [appendValidityAssertion, view, h]

theorem appendLedgerEntries_view {entries : List LedgerEntry} (h : ∀ e ∈ entries, e.agentId = a) :
    appendLedgerEntries (view a σ) entries = view a (appendLedgerEntries σ entries) := by
  have hall : entries.filter (·.agentId == a) = entries :=
    List.filter_eq_self.mpr fun e he => beq_iff_eq.mpr (h e he)
  simp only [appendLedgerEntries, view, List.filter_append, hall]

theorem appendLedgerEntry_view {entry : LedgerEntry} (h : entry.agentId = a) :
    appendLedgerEntry (view a σ) entry = view a (appendLedgerEntry σ entry) :=
  appendLedgerEntries_view fun e he => by rw [List.mem_singleton.mp he, h]

theorem appendClaimEdges_view {edges : List ClaimEdge} (h : ∀ e ∈ edges, e.agentId = a) :
    appendClaimEdges (view a σ) edges = view a (appendClaimEdges σ edges) := by
  have hall : edges.filter (·.agentId == a) = edges :=
    List.filter_eq_self.mpr fun e he => beq_iff_eq.mpr (h e he)
  simp only [appendClaimEdges, view, List.filter_append, hall]

theorem setPendingStatus_view (handleId : Uuid) (status : PendingStatus) :
    setPendingStatus (view a σ) handleId status = view a (setPendingStatus σ handleId status) := by
  have hpending : (σ.pending.filter (·.agentId == a)).map (withStatus handleId status) =
      (σ.pending.map (withStatus handleId status)).filter (·.agentId == a) := by
    rw [List.filter_map]
    refine congrArg _ (List.filter_congr fun row _ => ?_)
    rw [Function.comp_apply, withStatus_agentId]
  exact congrArg (fun rows => { view a σ with pending := rows }) hpending

theorem insertPending_view {row : PendingAdjudicationRow} (h : row.agentId = a)
    (hhandle : getPending (view a σ) row.handleId = getPending σ row.handleId) :
    insertPending (view a σ) row = (insertPending σ row).map (view a) := by
  unfold insertPending
  rw [hhandle]
  split
  · rfl
  · simp [view, h]

theorem appendWithinTxn_view {claim : Claim} (h : claim.agentId = a) (decision : GateDecision)
    (now : Instant) :
    appendWithinTxn (view a σ) claim decision now =
      view a (appendWithinTxn σ claim decision now) := by
  unfold appendWithinTxn
  rw [appendClaim_view h, appendLedgerEntry_view h, appendClaimEdges_view]
  intro e he
  obtain ⟨parent, _, rfl⟩ := List.mem_map.mp he
  exact h

theorem gateDecision_view {eng : Engine} {req : IngestClaimRequest} (h : req.agentId = a)
    (claim : Claim) (now : Instant) :
    gateDecision eng (view a σ) req claim now = gateDecision eng σ req claim now := by
  subst h
  simp only [gateDecision, incumbentFor_view, conflictCandidates_view]

theorem executeAdmitted_view {eng : Engine} {req : IngestClaimRequest} (h : req.agentId = a)
    {claim : Claim} (hclaim : claim.agentId = a) (now : Instant)
    {oracleReply : Except String Uuid}
    (hhandle : ∀ handleId, oracleReply = .ok handleId →
      getPending (view a σ) handleId = getPending σ handleId) :
    executeAdmitted eng (view a σ) req claim now oracleReply =
      Prod.map id (view a) (executeAdmitted eng σ req claim now oracleReply) := by
  have hincumbent : incumbentFor eng.config (view a σ) req.agentId req.subject req.predicate now =
      incumbentFor eng.config σ req.agentId req.subject req.predicate now := by
    subst h
    exact incumbentFor_view _ σ _ _ _ now
  unfold executeAdmitted
  simp only [gateDecision_view h, hincumbent, appendWithinTxn_view hclaim]
  split_ifs
  · cases incumbentFor eng.config σ req.agentId req.subject req.predicate now with
    | none => rfl
    | some incumbent =>
      cases oracleReply with
      | error reason => rfl
      | ok handleId =>
        have hinsert : insertPending
              (view a (appendWithinTxn σ claim (gateDecision eng σ req claim now) now))
              (pendingRow eng req claim incumbent now handleId) =
            (insertPending (appendWithinTxn σ claim (gateDecision eng σ req claim now) now)
              (pendingRow eng req claim incumbent now handleId)).map (view a) :=
          insertPending_view h (hhandle handleId rfl)
        dsimp only
        rw [hinsert]
        cases insertPending (appendWithinTxn σ claim (gateDecision eng σ req claim now) now)
          (pendingRow eng req claim incumbent now handleId) <;> rfl
  · rfl

theorem injected_view {req : IngestClaimRequest} (h : req.agentId = a) :
    loadInjectedClaims (view a σ) req.agentId = loadInjectedClaims σ req.agentId := by
  subst h
  exact loadInjectedClaims_view _ σ

theorem ingest_view {eng : Engine} {req : IngestClaimRequest} (h : req.agentId = a)
    (now : Instant) (claimRef : ClaimRef) {oracleReply : Except String Uuid}
    (hhandle : ∀ handleId, oracleReply = .ok handleId →
      getPending (view a σ) handleId = getPending σ handleId) :
    IngestClaim.execute eng (view a σ) req now claimRef oracleReply =
      Prod.map id (view a) (IngestClaim.execute eng σ req now claimRef oracleReply) := by
  unfold IngestClaim.execute
  rw [injected_view h]
  dsimp only
  split
  · rfl
  · rfl
  · exact executeAdmitted_view h h now hhandle
  · exact executeAdmitted_view h h now hhandle

theorem writeValidityAndLedger_view {assertion : ValidityAssertion} {entry : LedgerEntry}
    (h : assertion.agentId = a) (hentry : entry.agentId = a) :
    writeValidityAndLedger (view a σ) assertion entry =
      view a (writeValidityAndLedger σ assertion entry) := by
  unfold writeValidityAndLedger
  rw [appendValidityAssertion_view h, appendLedgerEntry_view hentry]

theorem assertValidity_view {req : AssertValidityRequest} (h : req.agentId = a) (now : Instant)
    (assertionRef : Uuid) :
    AssertValidity.execute (view a σ) req now assertionRef =
      Prod.map id (view a) (AssertValidity.execute σ req now assertionRef) := by
  subst h
  unfold AssertValidity.execute
  simp only [loadClaim_view, loadValidityAssertionsFor_view]
  split_ifs
  · rfl
  · cases loadClaim σ req.agentId req.target with
    | none => rfl
    | some targetClaim =>
      cases req.assertion with
      | bound at_ granularity =>
        dsimp only
        unfold executeBound
        simp only [underAdjudication_view]
        split_ifs
        · rfl
        · rfl
        · split
          · split_ifs <;> rfl
          · split
            · rfl
            · rw [writeValidityAndLedger_view (a := req.agentId) rfl rfl]
              rfl
      | reopen =>
        dsimp only
        unfold executeReopen
        split
        · rfl
        · rw [writeValidityAndLedger_view (a := req.agentId) rfl rfl]
          rfl

theorem boundClaim_view (target overturning : ClaimRef) (boundAt : Instant)
    (granularity : Option DateGranularity) (now : Instant) (edges : List ClaimEdge)
    (verdict : String) (assertionRef : Uuid) :
    boundClaim (view a σ) a target overturning boundAt granularity now edges verdict
        assertionRef =
      view a (boundClaim σ a target overturning boundAt granularity now edges verdict
        assertionRef) := by
  unfold boundClaim
  rw [appendValidityAssertion_view (a := a) rfl, appendLedgerEntry_view (a := a) rfl,
    appendLedgerEntries_view]
  intro e he
  obtain ⟨dependent, _, rfl⟩ := List.mem_map.mp he
  rfl

theorem applyVerdict_view (verdict : AdjudicationVerdict) (provenance : ProvenanceLabel)
    (challenger incumbent : ClaimRef) (now boundAt : Instant)
    (granularity : Option DateGranularity) (incumbentEdges challengerEdges : List ClaimEdge)
    (assertionRef : Uuid) :
    applyVerdict (view a σ) verdict provenance a challenger incumbent now boundAt granularity
        incumbentEdges challengerEdges assertionRef =
      view a (applyVerdict σ verdict provenance a challenger incumbent now boundAt granularity
        incumbentEdges challengerEdges assertionRef) := by
  cases verdict with
  | affirm =>
    simp only [applyVerdict]
    rw [boundClaim_view, appendLedgerEntry_view (a := a) rfl]
  | deny => exact boundClaim_view ..
  | unknown =>
    refine appendLedgerEntries_view fun e he => ?_
    simp only [List.mem_cons, List.not_mem_nil, or_false] at he
    rcases he with rfl | rfl <;> rfl

theorem submit_view {config : EngineConfig} {handleId : Uuid} {response : AdjudicationResponse}
    {now : Instant} {assertionRef : Uuid}
    (hhandle : getPending (view a σ) handleId = getPending σ handleId)
    (hagent : ∀ row, getPending σ handleId = some row → row.agentId = a) :
    SubmitAdjudication.execute config (view a σ) handleId response now assertionRef =
      Prod.map id (view a)
        (SubmitAdjudication.execute config σ handleId response now assertionRef) := by
  unfold SubmitAdjudication.execute
  rw [hhandle]
  cases hrow : getPending σ handleId with
  | none => rfl
  | some row =>
    have hrowAgent := hagent row hrow
    dsimp only
    cases row.expiresAt.filter (fun t => decide (t ≤ now)) with
    | some expiresAt =>
      dsimp only
      unfold lazyExpire
      rw [hrowAgent, currentDisposition_view]
      split_ifs
      · rw [appendLedgerEntry_view hrowAgent, markExpired, setPendingStatus_view]
        rfl
      · rfl
    | none =>
      dsimp only
      rw [hrowAgent, currentDisposition_view, loadClaim_view]
      split_ifs
      · rfl
      · cases loadClaim σ a row.challengerClaimRef with
        | none => rfl
        | some challenger =>
          simp only [loadEdgesFor_view, applyVerdict_view, markResolved, setPendingStatus_view]
          rfl

theorem reconcile_view {eng : Engine} {req : ReconcileRequest} (h : req.agentId = a)
    (now : Instant) :
    Reconcile.execute eng (view a σ) req now =
      Prod.map id (view a) (Reconcile.execute eng σ req now) := by
  subst h
  have hdecisions : decisions eng (view req.agentId σ) req now = decisions eng σ req now := by
    unfold decisions decideLine
    simp only [loadSubjectLine_view, loadLedgerForClaims_view, loadValidityAssertionsFor_view]
  unfold Reconcile.execute
  simp only [hdecisions]
  split_ifs
  · rfl
  · rw [appendLedgerEntries_view]
    · rfl
    · intro e he
      obtain ⟨d, _, rfl⟩ := List.mem_map.mp he
      rfl

theorem revertExpiredRow_view {row : PendingAdjudicationRow} (h : row.agentId = a)
    (now : Instant) :
    revertExpiredRow (view a σ) row now = Prod.map id (view a) (revertExpiredRow σ row now) := by
  unfold revertExpiredRow
  rw [h, currentDisposition_view]
  split_ifs
  · rfl
  · rw [appendLedgerEntry_view h, markExpired, setPendingStatus_view]
    rfl

theorem revertOrphan_view {orphan : OrphanedQueuedClaim} (h : orphan.agentId = a)
    (now : Instant) :
    revertOrphan (view a σ) orphan now = Prod.map id (view a) (revertOrphan σ orphan now) := by
  unfold revertOrphan
  rw [h, currentDisposition_view]
  split_ifs
  · rfl
  · rw [appendLedgerEntry_view h]
    rfl

end Writes

section Constraints

variable {a : AgentId} {σ : Store}

/-- A reference finds a claim in the view exactly if it finds one at all. -/
def Resolves (a : AgentId) (σ : Store) (r : ClaimRef) : Prop :=
  ((view a σ).claims.any fun c => c.claimRef == r) = σ.claims.any fun c => c.claimRef == r

theorem edgeFault_view {edge : ClaimEdge} (h : edge.agentId = a)
    (hfrom : Resolves a σ edge.fromClaim) (hto : Resolves a σ edge.toClaim) :
    edgeFault (view a σ) edge = edgeFault σ edge := by
  have hunique : ((view a σ).edges.any fun e => e.agentId == edge.agentId &&
      e.fromClaim == edge.fromClaim && e.toClaim == edge.toClaim && e.kind == edge.kind) =
        σ.edges.any fun e => e.agentId == edge.agentId && e.fromClaim == edge.fromClaim &&
          e.toClaim == edge.toClaim && e.kind == edge.kind := by
    refine any_own a ClaimEdge.agentId fun e _ he => ?_
    simp only [Bool.and_eq_true, beq_iff_eq] at he
    exact he.1.1.1.trans h
  unfold edgeFault
  rw [hunique, hfrom, hto]

theorem edgesFault_view {edges : List ClaimEdge}
    (h : ∀ e ∈ edges, e.agentId = a ∧ Resolves a σ e.fromClaim ∧ Resolves a σ e.toClaim) :
    edgesFault (view a σ) edges = edgesFault σ edges := by
  induction edges generalizing σ with
  | nil => rfl
  | cons edge edges ih =>
    obtain ⟨hagent, hfrom, hto⟩ := h edge List.mem_cons_self
    unfold edgesFault
    rw [edgeFault_view hagent hfrom hto,
      appendClaimEdges_view (List.forall_mem_singleton.mpr hagent)]
    cases edgeFault σ edge with
    | some reason => rfl
    | none => exact ih fun e he => h e (List.mem_cons_of_mem edge he)

theorem ingestClaim_view {eng : Engine} {req : IngestClaimRequest} (h : req.agentId = a)
    (now : Instant) (claimRef : ClaimRef) {oracleReply : Except String Uuid}
    (hhandle : ∀ handleId, oracleReply = .ok handleId →
      getPending (view a σ) handleId = getPending σ handleId)
    (hrefs : ∀ r ∈ req.derivedFrom, Resolves a σ r) :
    ingestClaim eng (view a σ) req now claimRef oracleReply =
      Prod.map id (view a) (ingestClaim eng σ req now claimRef oracleReply) := by
  have hfault : edgesFault (appendClaim (view a σ) (stamp req claimRef now))
        (lineageEdges (stamp req claimRef now) now) =
      edgesFault (appendClaim σ (stamp req claimRef now))
        (lineageEdges (stamp req claimRef now) now) := by
    rw [appendClaim_view h]
    refine edgesFault_view fun e he => ?_
    obtain ⟨parent, hparent, rfl⟩ := List.mem_map.mp he
    refine ⟨h, ?_, ?_⟩
    · -- the new claim is its own
      simp [Resolves, view, appendClaim, stamp, h]
    · have hold := hrefs parent hparent
      simp only [Resolves, view] at hold
      simp [Resolves, view, appendClaim, stamp, h, List.any_append, ← hold]
  unfold ingestClaim
  rw [injected_view h]
  dsimp only
  rw [hfault]
  split
  · exact ingest_view h now claimRef hhandle
  · exact ingest_view h now claimRef hhandle
  · split
    · rfl
    · exact ingest_view h now claimRef hhandle
  · split
    · rfl
    · exact ingest_view h now claimRef hhandle

theorem appendEdge_view {edge : ClaimEdge} (h : edge.agentId = a)
    (hfrom : Resolves a σ edge.fromClaim) (hto : Resolves a σ edge.toClaim) :
    SharedStore.appendEdge (view a σ) edge =
      Prod.map id (view a) (SharedStore.appendEdge σ edge) := by
  unfold SharedStore.appendEdge
  rw [edgeFault_view h hfrom hto, appendClaimEdges_view (List.forall_mem_singleton.mpr h)]
  split <;> rfl

end Constraints

section Listings

variable (a : AgentId) (σ : Store)

theorem isLatestEntry_view {entry : LedgerEntry} (h : entry.agentId = a) :
    isLatestEntry (view a σ) entry = isLatestEntry σ entry := by
  unfold isLatestEntry view
  rw [List.all_filter]
  refine List.all_congr rfl fun e => ?_
  rw [h]
  cases e.agentId == a <;> rfl

theorem hasPendingRow_view (challenger : ClaimRef) :
    hasPendingRow (view a σ) a challenger = hasPendingRow σ a challenger := by
  refine any_own a PendingAdjudicationRow.agentId fun row _ hrow => ?_
  simp only [Bool.and_eq_true, beq_iff_eq] at hrow
  exact hrow.1.2

theorem claimsOf_view {entry : LedgerEntry} (h : entry.agentId = a) :
    claimsOf (view a σ) entry = claimsOf σ entry := by
  refine filter_own a Claim.agentId fun c _ hc => ?_
  simp only [Bool.and_eq_true, beq_iff_eq] at hc
  exact hc.2.trans h

theorem findCommittedCheapClaim_view (subject predicate : String) :
    findCommittedCheapClaim (view a σ) a subject predicate =
      findCommittedCheapClaim σ a subject predicate := by
  unfold findCommittedCheapClaim
  refine congrArg (fun entries => (firstMax LedgerEntry.recordedAt entries).map (·.claimRef)) ?_
  unfold view
  rw [List.filter_filter]
  refine List.filter_congr fun e _ => ?_
  by_cases hagent : e.agentId = a
  · have hlatest := isLatestEntry_view a σ hagent
    have hclaims := claimsOf_view a σ hagent
    unfold view at hlatest hclaims
    simp only [hagent, hlatest, hclaims, beq_self_eq_true, Bool.true_and, Bool.and_true]
  · have hother : (e.agentId == a) = false := by simpa using hagent
    simp only [hother, Bool.false_and, Bool.and_false]

theorem filter_flatMap_own {α β : Type} (agentOf : α → AgentId) {agentOf' : β → AgentId}
    {g : α → List β} (h : ∀ x, ∀ y ∈ g x, agentOf' y = agentOf x) (xs : List α) :
    (xs.flatMap g).filter (agentOf' · == a) = (xs.filter (agentOf · == a)).flatMap g := by
  induction xs with
  | nil => rfl
  | cons x xs ih =>
    rw [List.flatMap_cons, List.filter_append, ih]
    by_cases hx : agentOf x = a
    · have hall : (g x).filter (agentOf' · == a) = g x :=
        List.filter_eq_self.mpr fun y hy => by rw [h x y hy, hx, beq_self_eq_true]
      rw [hall, List.filter_cons_of_pos (by simpa using hx), List.flatMap_cons]
    · have hnone : (g x).filter (agentOf' · == a) = [] :=
        List.filter_eq_nil_iff.mpr fun y hy => by rw [h x y hy]; simpa using hx
      rw [hnone, List.nil_append, List.filter_cons_of_neg (by simpa using hx)]

/-- The orphans of an agent are found in its view. -/
theorem listQueuedOrphanClaims_view :
    (listQueuedOrphanClaims σ).filter (·.agentId == a) = listQueuedOrphanClaims (view a σ) := by
  unfold listQueuedOrphanClaims
  rw [filter_flatMap_own a LedgerEntry.agentId fun e orphan ho => by
    obtain ⟨c, _, rfl⟩ := List.mem_map.mp ho
    rfl]
  have hentries : ((σ.ledger.filter fun e => e.disposition == .queuedForAdjudication &&
        isLatestEntry σ e && !hasPendingRow σ e.agentId e.claimRef).filter (·.agentId == a)) =
      (view a σ).ledger.filter fun e => e.disposition == .queuedForAdjudication &&
        isLatestEntry (view a σ) e && !hasPendingRow (view a σ) e.agentId e.claimRef := by
    change _ = List.filter _ (List.filter _ σ.ledger)
    rw [List.filter_filter, List.filter_filter]
    refine List.filter_congr fun e _ => ?_
    by_cases hagent : e.agentId = a
    · have hpending := hasPendingRow_view a σ e.claimRef
      simp only [hagent, isLatestEntry_view a σ hagent, hpending, beq_self_eq_true,
        Bool.true_and, Bool.and_true]
    · have hother : (e.agentId == a) = false := by simpa using hagent
      simp only [hother, Bool.false_and, Bool.and_false]
  rw [hentries]
  refine List.flatMap_congr fun e he => ?_
  have hagent : e.agentId = a := by
    have hmem := List.mem_of_mem_filter he
    simpa using (List.mem_filter.mp hmem).2
  rw [claimsOf_view a σ hagent, hagent]
  simp only [findCommittedCheapClaim_view]

theorem expiredRows_view (f : PendingFormats) (now : Instant) :
    (expiredRows f σ now).filter (·.agentId == a) = expiredRows f (view a σ) now := by
  unfold expiredRows
  rw [filter_inOrder, List.filter_filter]
  change _ = inOrder _ (List.filter _ (List.filter _ σ.pending))
  rw [List.filter_filter]
  exact congrArg _ (List.filter_congr fun row _ => Bool.and_comm _ _)

end Listings

section Passes

variable {a : AgentId} {α : Type} (agentOf : α → AgentId) (revert : Store → α → Bool × Store)
variable (Inv : Store → Prop)

/-- A pass over the items of all agents is, for one agent, the pass over its own. -/
theorem sweepPass_view {items : List α}
    (hinv : ∀ item ∈ items, ∀ σ, Inv σ → Inv (revert σ item).2)
    (hown : ∀ item ∈ items, agentOf item = a → ∀ σ,
      revert (view a σ) item = Prod.map id (view a) (revert σ item))
    (hforeign : ∀ item ∈ items, agentOf item ≠ a → ∀ σ, Inv σ →
      view a (revert σ item).2 = view a σ) {σ : Store} (hσ : Inv σ) (n m : ℕ) :
    Inv (sweepPass revert items (n, σ)).2 ∧
      view a (sweepPass revert items (n, σ)).2 =
        (sweepPass revert (items.filter (agentOf · == a)) (m, view a σ)).2 := by
  induction items generalizing σ n m with
  | nil => exact ⟨hσ, rfl⟩
  | cons item items ih =>
    have hhead : item ∈ item :: items := List.mem_cons_self
    have hnext := fun n m => ih (fun i hi => hinv i (List.mem_cons_of_mem item hi))
      (fun i hi => hown i (List.mem_cons_of_mem item hi))
      (fun i hi => hforeign i (List.mem_cons_of_mem item hi)) (hinv item hhead σ hσ) n m
    refine ⟨(hnext _ m).1, ?_⟩
    by_cases hagent : agentOf item = a
    · rw [List.filter_cons_of_pos (by simpa using hagent)]
      have hrev := hown item hhead hagent σ
      refine (hnext _ (m + (revert (view a σ) item).1.toNat)).2.trans ?_
      change _ = (sweepPass revert _ (_, (revert (view a σ) item).2)).2
      rw [hrev]
      rfl
    · rw [List.filter_cons_of_neg (by simpa using hagent),
        ← hforeign item hhead hagent σ hσ]
      exact (hnext _ m).2

end Passes

end Mempill.AgentView
