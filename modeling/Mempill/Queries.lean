import Mathlib.Data.List.Dedup
import Mathlib.Data.String.Basic
import Mempill.QueryHistory
import Mempill.QueryMemory

set_option autoImplicit false

/-!
# Subject and audit queries

The reads over more than one line: the facts of a subject, one query for each of
its predicates, and the audit ledger. Rendered texts are kept as what they are
rendered from.
-/
namespace Mempill.Queries
open Mempill.Types Mempill.Persistence StampedLog

section Subject

structure QuerySubjectRequest where
  agentId : AgentId
  subject : String
  validAt : Option Instant
  asOfTxTime : Option Instant
  deriving DecidableEq

/-- A JSON string is shown bare, and any other value as JSON. -/
inductive ValueText where
  | bare (s : String)
  | rendered (value : Json)
  deriving DecidableEq

def valueText : Json → ValueText
  | .str s => .bare s
  | value => .rendered value

/-- A date cut to a precision. -/
structure EndpointText where
  precision : DateGranularity
  date : Instant
  deriving DecidableEq

/-- An instant, and a date of unknown precision, are shown as a day. -/
def formatValidTimeEndpoint (date : Option Instant) (granularity : Option DateGranularity) :
    Option EndpointText :=
  date.map fun dt =>
    match granularity with
    | some .year => ⟨.year, dt⟩
    | some .month => ⟨.month, dt⟩
    | some .day | some .instant | none => ⟨.day, dt⟩

structure SubjectFactEntry where
  predicate : String
  value : Option ValueText
  status : String
  validFromDisplay : Option EndpointText
  validUntilDisplay : Option EndpointText
  provenance : String
  claimRef : Option Uuid
  conf : Option F32
  deriving DecidableEq

def provenanceLabelToStr : ProvenanceLabel → String
  | .modelDerived => "ModelDerived"
  | .recallReEntry => "RecallReEntry"
  | .external .userAsserted => "External/UserAsserted"
  | .external .externalFirstHand => "External/ExternalFirstHand"

def statusStr : BeliefStatus → String
  | .resolved => "Resolved"
  | .contested => "Contested"
  | .noBelief => "NoBelief"
  | .timingUncertain => "TimingUncertain"
  | .conflict => "Contested"

/-- Without a primary belief the first alternative is shown, without its window. -/
def subjectFactEntry (predicate : String) (belief : BeliefProjection) : SubjectFactEntry :=
  match belief.primary with
  | some primary =>
    { predicate := predicate
      value := some (valueText primary.fact.value)
      status := statusStr belief.status
      validFromDisplay := formatValidTimeEndpoint primary.validTime.start
        primary.validTime.startGranularity
      validUntilDisplay := formatValidTimeEndpoint primary.validTime.stop
        primary.validTime.stopGranularity
      provenance := provenanceLabelToStr primary.provenance
      claimRef := some primary.claimRef.uuid
      conf := some primary.confidence.valueConfidence }
  | none =>
    let first := belief.alternatives.head?
    { predicate := predicate
      value := first.map fun a => valueText a.fact.value
      status := statusStr belief.status
      validFromDisplay := none
      validUntilDisplay := none
      provenance := (first.map fun a => provenanceLabelToStr a.provenance).getD "none"
      claimRef := first.map fun a => a.claimRef.uuid
      conf := first.map fun a => a.confidence.valueConfidence }

@[simp] theorem subjectFactEntry_predicate (predicate : String) (belief : BeliefProjection) :
    (subjectFactEntry predicate belief).predicate = predicate := by
  unfold subjectFactEntry
  split <;> rfl

/-- The distinct predicates under a subject. The query leaves their order open. -/
def listPredicatesForSubject (σ : Store) (agentId : AgentId) (subject : String)
    (asOfTxTime : Option Instant) : List String :=
  ((σ.claims.filter fun c => c.agentId == agentId && c.fact.subject == subject &&
    withinCutoff asOfTxTime c.transactionTime).map (·.fact.predicate)).dedup

def querySubject (config : EngineConfig) (σ : Store) (req : QuerySubjectRequest)
    (now : Instant) : List SubjectFactEntry :=
  let predicates := listPredicatesForSubject σ req.agentId req.subject req.asOfTxTime
  inOrder SubjectFactEntry.predicate (predicates.map fun predicate =>
    subjectFactEntry predicate (QueryMemory.execute config σ
      ⟨req.agentId, req.subject, predicate, req.asOfTxTime, req.validAt⟩ now))

end Subject

section Audit

structure AuditQueryRequest where
  agentId : AgentId
  claimRef : Option ClaimRef
  fromTxTime : Option Instant
  limit : ℕ
  deriving DecidableEq

def loadLedger (σ : Store) (agentId : AgentId) (from_ : Option Instant) (limit : ℕ) :
    List LedgerEntry :=
  (inOrder LedgerEntry.recordedAt (σ.ties.arrange (σ.ledger.filter fun e =>
    e.agentId == agentId && from_.all (fun t => decide (t ≤ e.recordedAt))))).take limit

/-- The limit applies before the claim is picked out. The order of the load is
    reversed, whichever it is. -/
def queryAudit (σ : Store) (req : AuditQueryRequest) : List LedgerEntry :=
  let raw := loadLedger σ req.agentId req.fromTxTime req.limit
  (match req.claimRef with
    | some claimRef => raw.filter (fun e : LedgerEntry => e.claimRef == claimRef)
    | none => raw).reverse

end Audit

/-- No query of any kind can tell the two stores apart. -/
structure SameAnswers (config : EngineConfig) (σ σ' : Store) : Prop where
  memory : ∀ req now, QueryMemory.execute config σ req now = QueryMemory.execute config σ' req now
  subject : ∀ req now, querySubject config σ req now = querySubject config σ' req now
  history : ∀ req now,
    QueryHistory.execute config σ req now = QueryHistory.execute config σ' req now
  audit : ∀ req, queryAudit σ req = queryAudit σ' req

theorem SameAnswers.refl (config : EngineConfig) (σ : Store) : SameAnswers config σ σ :=
  ⟨fun _ _ => rfl, fun _ _ => rfl, fun _ _ => rfl, fun _ => rfl⟩

end Mempill.Queries
