import Mempill.EndFact

set_option autoImplicit false

/-!
# Ergonomic calls

The request builder with its lenient dates, and the calls of the facade over the
engine: remembering a fact, recalling a line and its history.
-/
namespace Mempill.Ergonomic
open Mempill.Types Mempill.Persistence Mempill.IngestClaim Mempill.QueryMemory
open Mempill.QueryHistory Mempill.Engine

section Builder

/-- The errors of all the calls: those that an ending gives too, and that of a window
    whose ends are out of order. -/
inductive MempillDxError where
  | dx (error : EndFact.MempillDxError)
  | incoherentDates (start stop hint : String)
  deriving DecidableEq

/-- The parser of dates and the printer of instants. -/
structure DateTexts where
  parseValidTimeDate : String → Option (Instant × DateGranularity)
  toRfc3339 : Instant → String

structure IngestClaimRequestBuilder where
  agentId : AgentId
  subject : String
  predicate : String
  value : Json
  validFrom : Option String
  validUntil : Option String
  confidence : Option F32
  cardinality : Option Cardinality
  provenance : Option ProvenanceLabel
  criticality : Option Criticality
  derivedFrom : List ClaimRef
  deriving DecidableEq

def builder (agentId : AgentId) (subject predicate : String) (value : Json) :
    IngestClaimRequestBuilder :=
  ⟨agentId, subject, predicate, value, none, none, none, none, none, none, []⟩

def thenIf {τ : Type} (b : IngestClaimRequestBuilder) (opt : Option τ)
    (f : IngestClaimRequestBuilder → τ → IngestClaimRequestBuilder) :
    IngestClaimRequestBuilder :=
  match opt with
  | some v => f b v
  | none => b

def unparsableHint : String :=
  "Use YYYY, YYYY-MM, YYYY-MM-DD, or RFC3339 (e.g. 2026-01-01T00:00:00Z). " ++
    "Natural-language dates must be resolved by the caller before passing to remember()."

variable (dates : DateTexts)

def parseEndpoint :
    Option String → Except MempillDxError (Option Instant × Option DateGranularity)
  | none => .ok (none, none)
  | some s =>
    match dates.parseValidTimeDate s with
    | none => .error (.dx (.unparsableDate s unparsableHint))
    | some (dt, gran) => .ok (some dt, some gran)

def checkCoherent : Option Instant → Option Instant → Except MempillDxError Unit
  | some s, some e =>
    if s ≥ e then
      .error (.incoherentDates (dates.toRfc3339 s) (dates.toRfc3339 e)
        "valid_from must precede valid_until")
    else .ok ()
  | _, _ => .ok ()

/-- The confidence of the value serves for the dates too, where there are any. -/
def build (b : IngestClaimRequestBuilder) : Except MempillDxError IngestClaimRequest := do
  let valueConfidence := b.confidence.getD certain
  let hasDates := b.validFrom.isSome || b.validUntil.isSome
  let vtc := if hasDates then valueConfidence else .ofScaled 0
  let (start, startGranularity) ← parseEndpoint dates b.validFrom
  let (stop, stopGranularity) ← parseEndpoint dates b.validUntil
  checkCoherent dates start stop
  return {
    agentId := b.agentId
    subject := b.subject
    predicate := b.predicate
    value := b.value
    provenance := b.provenance.getD (.external .userAsserted)
    cardinality := b.cardinality.getD .functional
    validTime :=
      if hasDates then some ⟨start, stop, vtc, startGranularity, stopGranularity⟩ else none
    confidence := ⟨valueConfidence, vtc⟩
    criticality := b.criticality.getD .medium
    derivedFrom := b.derivedFrom }

end Builder

section Remember

structure RememberOptions where
  validFrom : Option String := none
  validUntil : Option String := none
  confidence : Option F32 := none
  criticality : Option Criticality := none
  derivedFrom : List ClaimRef := []
  deriving DecidableEq

structure RememberReceipt where
  claimRef : ClaimRef
  disposition : Disposition
  contestedWith : List ClaimRef
  deriving DecidableEq

/-- The builder of `remember`, from its arguments. -/
def rememberBuilder (agentId : AgentId) (subject predicate : String) (value : Json)
    (opts : RememberOptions) : IngestClaimRequestBuilder :=
  let b := builder agentId subject predicate value
  let b := thenIf b opts.validFrom fun b s => { b with validFrom := some s }
  let b := thenIf b opts.validUntil fun b s => { b with validUntil := some s }
  let b := thenIf b opts.confidence fun b c => { b with confidence := some c }
  let b := thenIf b opts.criticality fun b c => { b with criticality := some c }
  { b with derivedFrom := opts.derivedFrom }

theorem rememberBuilder_eq (agentId : AgentId) (subject predicate : String) (value : Json)
    (opts : RememberOptions) :
    rememberBuilder agentId subject predicate value opts =
      { agentId, subject, predicate, value
        validFrom := opts.validFrom
        validUntil := opts.validUntil
        confidence := opts.confidence
        cardinality := none
        provenance := none
        criticality := opts.criticality
        derivedFrom := opts.derivedFrom } := by
  obtain ⟨validFrom, validUntil, confidence, criticality, _⟩ := opts
  cases validFrom <;> cases validUntil <;> cases confidence <;> cases criticality <;> rfl

/-- A built request is handed to the engine. `remember` is this with its own builder. -/
def ingestBuilt (dates : DateTexts) (eng : Engine) (σ : Store) (b : IngestClaimRequestBuilder)
    (now : Instant) (claimRef : ClaimRef) (oracleReply : Except String Uuid) :
    Except MempillDxError RememberReceipt × Store :=
  match build dates b with
  | .error e => (.error e, σ)
  | .ok req =>
    match IngestClaim.execute eng σ req now claimRef oracleReply with
    | (.error e, σ') => (.error (.dx (.engine e)), σ')
    | (.ok resp, σ') => (.ok ⟨resp.claimRef, resp.disposition, resp.contestedWith⟩, σ')

end Remember

section Recall

structure BeliefDetail where
  claimRef : ClaimRef
  value : Json
  validFrom : Option Instant
  validUntil : Option Instant
  validFromGranularity : Option DateGranularity
  validUntilGranularity : Option DateGranularity
  valueConfidence : F32
  provenance : String
  corroborationCount : ℕ
  deriving DecidableEq

structure ContestCandidate where
  value : Json
  claimRef : ClaimRef
  validFrom : Option Instant
  detail : BeliefDetail
  deriving DecidableEq

structure RecallResult where
  value : Option Json
  status : BeliefStatus
  candidates : List ContestCandidate
  currency : CurrencyState
  isStale : Bool
  primary : Option BeliefDetail
  deriving DecidableEq

def RecallResult.isContested (r : RecallResult) : Bool :=
  match r.status with
  | .contested | .conflict => true
  | _ => false

def RecallResult.isEmpty (r : RecallResult) : Bool :=
  match r.status with
  | .noBelief => true
  | _ => false

def provenanceLabelStr : ProvenanceLabel → String
  | .external .userAsserted => "External/UserAsserted"
  | .external .externalFirstHand => "External/ExternalFirstHand"
  | .recallReEntry => "RecallReEntry"
  | .modelDerived => "ModelDerived"

def makeDetail (b : Belief) : BeliefDetail where
  claimRef := b.claimRef
  value := b.fact.value
  validFrom := b.validTime.start
  validUntil := b.validTime.stop
  validFromGranularity := b.validTime.startGranularity
  validUntilGranularity := b.validTime.stopGranularity
  valueConfidence := b.confidence.valueConfidence
  provenance := provenanceLabelStr b.provenance
  corroborationCount := b.currencySignal.corroborationCount

def contestCandidate (b : Belief) : ContestCandidate where
  value := b.fact.value
  claimRef := b.claimRef
  validFrom := b.validTime.start
  detail := makeDetail b

/-- A projection as a flat result. -/
def flatten (bp : BeliefProjection) : RecallResult :=
  let (value, candidates, primary) :
      Option Json × List ContestCandidate × Option BeliefDetail :=
    match bp.status with
    | .contested | .conflict =>
      (none, (bp.primary.toList ++ bp.alternatives).map contestCandidate, none)
    | .noBelief => (none, [], none)
    | .timingUncertain | .resolved =>
      (bp.primary.map (·.fact.value), [], bp.primary.map makeDetail)
  { value, status := bp.status, candidates, currency := bp.currency
    isStale := bp.staleness.isStale, primary }

/-- `recall`, of one line. -/
def recallLine (config : EngineConfig) (σ : Store) (agentId : AgentId) (subject predicate : String)
    (now : Instant) : RecallResult :=
  flatten (recallNow config σ agentId subject predicate now)

/-- The details that a result shows, as its primary or as candidates. -/
def RecallResult.shown (r : RecallResult) : List BeliefDetail :=
  r.primary.toList ++ r.candidates.map (·.detail)

/-- `history`, whose entries are the timeline of the engine. -/
def history (config : EngineConfig) (σ : Store) (agentId : AgentId) (subject predicate : String)
    (now : Instant) : List HistoryEntry :=
  QueryHistory.execute config σ ⟨agentId, subject, predicate⟩ now

/-- `History::current`. -/
def current (entries : List HistoryEntry) : Option HistoryEntry :=
  entries.find? fun e => e.status == .current

end Recall

end Mempill.Ergonomic
