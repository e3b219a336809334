import Mempill.Lib.Unwinding
import Mempill.EndFact
import Mempill.Queries
import Mempill.SqliteRows
import Mempill.Sweep

set_option autoImplicit false

/-!
# Shared store

One SQLite store of several agents. The operations meet the constraints of the schema
that look at rows of other agents, and what reads the pending table decodes its rows.
Operations, queries and sweeps are the events of one run.
-/
namespace Mempill.SharedStore
open Mempill.Types Mempill.Persistence Mempill.Gate Mempill.IngestClaim Mempill.AssertValidity
open Mempill.SubmitAdjudication Mempill.Reconcile Mempill.Sweep Mempill.QueryMemory
open Mempill.QueryHistory Mempill.Queries Mempill.EndFact Mempill.Engine Mempill.SqliteRows
open StampedLog

section Constraints

/-- What an insert into `claim_edges` fails with, if it does. -/
def edgeFault (σ : Store) (edge : ClaimEdge) : Option String :=
  if σ.edges.any fun e => e.agentId == edge.agentId && e.fromClaim == edge.fromClaim &&
      e.toClaim == edge.toClaim && e.kind == edge.kind then
    some ("UNIQUE constraint failed: claim_edges.agent_id, claim_edges.from_claim_id, " ++
      "claim_edges.to_claim_id, claim_edges.edge_kind")
  -- the referenced claim may be any agent's
  else if (σ.claims.any fun c => c.claimRef == edge.fromClaim) &&
      σ.claims.any fun c => c.claimRef == edge.toClaim then none
  else some "FOREIGN KEY constraint failed"

def edgesFault (σ : Store) : List ClaimEdge → Option String
  | [] => none
  | edge :: edges =>
    match edgeFault σ edge with
    | some reason => some reason
    | none => edgesFault (appendClaimEdges σ [edge]) edges

/-- A failed insert rolls the transaction back. The other references of its rows are to
    claims that it has read. -/
def ingestClaim (eng : Engine) (σ : Store) (req : IngestClaimRequest) (now : Instant)
    (claimRef : ClaimRef) (oracleReply : Except String Uuid) :
    Except MemError IngestClaimResponse × Store :=
  let claim := stamp req claimRef now
  match check eng.config claim (loadInjectedClaims σ req.agentId) 0 with
  | .corroborateByIdentity _ | .quarantine =>
    IngestClaim.execute eng σ req now claimRef oracleReply
  | .admitted | .depthCapExceeded _ _ =>
    match edgesFault (appendClaim σ claim) (lineageEdges claim now) with
    | some reason => (.error (.persistence (.driver reason)), σ)
    | none => IngestClaim.execute eng σ req now claimRef oracleReply

def appendEdge (σ : Store) (edge : ClaimEdge) : Except StoreError Unit × Store :=
  match edgeFault σ edge with
  | some reason => (.error (.driver reason), σ)
  | none => (.ok (), appendClaimEdges σ [edge])

end Constraints

section PendingStore

/-- With what `serde_json::from_str` makes of the text that `to_string` has written for a
    request payload. -/
structure PendingFormats extends Formats where
  rereadPayload : AdjudicationRequest → Except String AdjudicationRequest

variable (f : PendingFormats)

/-- The row mapper, on the columns that `insert_pending` has written for a row. -/
def rowToPending (row : PendingAdjudicationRow) :
    Except SqliteStoreError PendingAdjudicationRow := do
  let handleId ← parsed "handle_id UUID: " (f.parseUuid (f.uuidText row.handleId))
  let challenger ← parsed "challenger_claim_ref UUID: "
    (f.parseUuid (f.uuidText row.challengerClaimRef.uuid))
  let incumbent ← parsed "incumbent_claim_ref UUID: "
    (f.parseUuid (f.uuidText row.incumbentClaimRef.uuid))
  let requestPayload ← parsed "request_payload JSON: " (f.rereadPayload row.requestPayload)
  let queuedAt ← parsed "queued_at parse: " (f.parseFromRfc3339 (f.toRfc3339 row.queuedAt))
  let expiresAt ← nullable (fun s => parsed "expires_at parse: " (f.parseFromRfc3339 s))
    (row.expiresAt.map f.toRfc3339)
  return {
    handleId
    agentId := row.agentId
    subject := row.subject
    predicate := row.predicate
    challengerClaimRef := ⟨challenger⟩
    incumbentClaimRef := ⟨incumbent⟩
    requestPayload
    queuedAt
    expiresAt
    status := row.status }

/-- `MemError::PendingStore`. -/
def erased {α : Type} : Except SqliteStoreError α → Except MemError α
  | .ok a => .ok a
  | .error _ => .error .pendingStore

/-- Of one agent, or of all. -/
def listPending (σ : Store) (agentId : Option AgentId) :
    Except SqliteStoreError (List PendingAdjudicationRow) :=
  (inOrder (fun row => f.toRfc3339 row.queuedAt) (σ.pending.filter fun row =>
    agentId.all (row.agentId == ·) && row.status == .pending)).mapM (rowToPending f)

/-- `expires_at <= ?` compares texts. -/
def lapsed (now : Instant) (row : PendingAdjudicationRow) : Bool :=
  row.expiresAt.any (fun t => decide (f.toRfc3339 t ≤ f.toRfc3339 now)) && row.status == .pending

/-- The rows that `list_expired` selects, of all agents. -/
def expiredRows (σ : Store) (now : Instant) : List PendingAdjudicationRow :=
  inOrder (fun row => (row.expiresAt.map f.toRfc3339).getD "") (σ.pending.filter (lapsed f now))

/-- One row that does not decode fails the list. -/
def listExpired (σ : Store) (now : Instant) :
    Except SqliteStoreError (List PendingAdjudicationRow) :=
  (expiredRows f σ now).mapM (rowToPending f)

def submitAdjudication (eng : Engine) (σ : Store) (handleId : Uuid)
    (response : AdjudicationResponse) (now : Instant) (assertionRef : Uuid) :
    Except MemError AdjudicationOutcome × Store :=
  if eng.pendingStorePresent then
    match (getPending σ handleId).map (rowToPending f) with
    | some (.error _) => (.error .pendingStore, σ)
    | _ => SubmitAdjudication.execute eng.config σ handleId response now assertionRef
  else (.error (.adjudicationHandleNotFound handleId), σ)

/-- The two passes of a sweep, over listed rows and over the orphans. -/
def revertAll (σ : Store) (rows : List PendingAdjudicationRow) (now : Instant) : ℕ × Store :=
  let expired := sweepPass (fun σ row => revertExpiredRow σ row now) rows (0, σ)
  sweepPass (fun σ orphan => revertOrphan σ orphan now) (listQueuedOrphanClaims expired.2) expired

def sweepExpiredAdjudications (eng : Engine) (σ : Store) (now : Instant) :
    Except MemError ℕ × Store :=
  if eng.pendingStorePresent then
    match listExpired f σ now with
    | .error _ => (.error .pendingStore, σ)
    | .ok rows => Prod.map .ok id (revertAll σ rows now)
  else (.ok 0, σ)

end PendingStore

section Events

inductive Query where
  | memory (req : QueryMemoryRequest)
  | history (req : QueryHistoryRequest)
  | subject (req : QuerySubjectRequest)
  | audit (req : AuditQueryRequest)
  | liveClaim (agentId : AgentId) (subject predicate : String)
  | pending (agentId : Option AgentId)

inductive Answer where
  | memory (belief : BeliefProjection)
  | history (entries : List HistoryEntry)
  | subject (facts : List SubjectFactEntry)
  | audit (entries : List LedgerEntry)
  | liveClaim (resolution : LiveClaimResolution)
  | pending (rows : Except MemError (List PendingAdjudicationRow))
  deriving DecidableEq

def answer (f : PendingFormats) (eng : Engine) (σ : Store) (now : Instant) : Query → Answer
  | .memory req => .memory (QueryMemory.execute eng.config σ req now)
  | .history req => .history (QueryHistory.execute eng.config σ req now)
  | .subject req => .subject (querySubject eng.config σ req now)
  | .audit req => .audit (queryAudit σ req)
  | .liveClaim agentId subject predicate =>
    .liveClaim (resolveLiveClaimForLine eng.config σ agentId subject predicate now)
  | .pending agentId =>
    .pending (if eng.pendingStorePresent then erased (listPending f σ agentId) else .ok [])

inductive Event where
  | op (op : Op)
  | query (query : Query) (now : Instant)
  /-- A sweep over the rows of all agents. -/
  | sweep (now : Instant)

inductive Reply where
  | ingested (response : Except MemError IngestClaimResponse)
  | asserted (response : Except MemError AssertValidityResponse)
  | adjudicated (outcome : Except MemError AdjudicationOutcome)
  | reconciled (response : ReconcileResponse)
  | reverted (reverted : Bool)
  | appended (result : Except StoreError Unit)
  | answered (answer : Answer)
  | swept (count : Except MemError ℕ)
  deriving DecidableEq

variable (f : PendingFormats) (eng : Engine)

def stepOp (σ : Store) : Op → Reply × Store
  | .ingestClaim req now claimRef oracleReply =>
    Prod.map .ingested id (ingestClaim eng σ req now claimRef oracleReply)
  | .assertValidity req now assertionRef =>
    Prod.map .asserted id (AssertValidity.execute σ req now assertionRef)
  | .submitAdjudication handleId response now assertionRef =>
    Prod.map .adjudicated id (submitAdjudication f eng σ handleId response now assertionRef)
  | .reconcile req now => Prod.map .reconciled id (Reconcile.execute eng σ req now)
  | .sweepExpired row now => Prod.map .reverted id (revertExpiredRow σ row now)
  | .sweepOrphan orphan now => Prod.map .reverted id (revertOrphan σ orphan now)
  | .appendEdge edge => Prod.map .appended id (appendEdge σ edge)

def step (σ : Store) : Event → Reply × Store
  | .op op => stepOp f eng σ op
  | .query q now => (.answered (answer f eng σ now q), σ)
  | .sweep now => Prod.map .swept id (sweepExpiredAdjudications f eng σ now)

/-- What the surroundings supply, along a run. -/
def Runnable (σ : Store) : List Event → Prop
  | [] => True
  | e :: es =>
    (match e with
      | .op op => Supplied σ op
      | _ => True) ∧ Runnable (step f eng σ e).2 es

instance (σ : Store) (es : List Event) : Decidable (Runnable f eng σ es) := by
  induction es generalizing σ with
  | nil => exact .isTrue trivial
  | cons e es ih =>
    refine @instDecidableAnd _ _ ?_ (ih _)
    cases e <;> infer_instance

end Events

section Agents

/-- The handles of a run, each with the agent that it is issued to. -/
def issued (run : List Event) : List (AgentId × Uuid) :=
  run.filterMap fun e =>
    match e with
    | .op (.ingestClaim req _ _ (.ok handleId)) => some (req.agentId, handleId)
    | _ => none

/-- The claim references of a run, each with the agent that it is issued to. -/
def minted (run : List Event) : List (AgentId × ClaimRef) :=
  run.filterMap fun e =>
    match e with
    | .op (.ingestClaim req _ claimRef _) => some (req.agentId, claimRef)
    | _ => none

def holder (run : List Event) (handleId : Uuid) : Option AgentId :=
  ((issued run).find? (·.2 == handleId)).map (·.1)

/-- The agent that an operation acts for. A verdict names none: it acts for the agent of
    its handle. -/
def agentOfOp (run : List Event) : Op → Option AgentId
  | .ingestClaim req _ _ _ => some req.agentId
  | .assertValidity req _ _ => some req.agentId
  | .submitAdjudication handleId _ _ _ => holder run handleId
  | .reconcile req _ => some req.agentId
  | .sweepExpired row _ => some row.agentId
  | .sweepOrphan orphan _ => some orphan.agentId
  | .appendEdge edge => some edge.agentId

def agentOfQuery : Query → Option AgentId
  | .memory req => some req.agentId
  | .history req => some req.agentId
  | .subject req => some req.agentId
  | .audit req => some req.agentId
  | .liveClaim agentId _ _ => some agentId
  | .pending agentId => agentId

def agentOf (run : List Event) : Event → Option AgentId
  | .op op => agentOfOp run op
  | .query q _ => agentOfQuery q
  | .sweep _ => none

/-- The claim references in a request. -/
def mentions : Event → List ClaimRef
  | .op (.ingestClaim req _ _ _) => req.derivedFrom
  | .op (.assertValidity req _ _) => [req.target]
  | .op (.appendEdge edge) => [edge.fromClaim, edge.toClaim]
  | .query (.audit req) _ => req.claimRef.toList
  | _ => []

end Agents

end Mempill.SharedStore
