import Mathlib.Data.String.Basic
import Mempill.Lib.RowTable
import Mempill.WritePhases

set_option autoImplicit false

/-!
# SQLite rows

The claims and the validity-assertions table of the SQLite adapter: the columns that
an append writes and what a select decodes from them. The text formats of the
libraries are parameters.
-/
namespace Mempill.SqliteRows
open Mempill.Types Mempill.WritePhases RowTable

section Formats

/-- The texts of UUIDs, instants and JSON, and their parsers with the text of each
    failure. -/
structure Formats where
  uuidText : Uuid → String
  parseUuid : String → Except String Uuid
  toRfc3339 : Instant → String
  parseFromRfc3339 : String → Except String Instant
  jsonText : Json → String
  parseJson : String → Except String Json
  stringsText : List String → String
  parseStrings : String → Except String (List String)

/-- The years 0 to 9999. -/
def FourDigitYear (t : Instant) : Prop :=
  -62167219200 * 10 ^ 9 ≤ t ∧ t < 253402300800 * 10 ^ 9

instance (t : Instant) : Decidable (FourDigitYear t) := inferInstanceAs (Decidable (_ ∧ _))

/-- What is relied on: UUIDs and arrays of strings read back, and so do the instants of
    a year that prints four digits. Any other year prints a sign, which no parse takes. -/
structure Documented (f : Formats) : Prop where
  uuid : ∀ u, f.parseUuid (f.uuidText u) = .ok u
  strings : ∀ xs, f.parseStrings (f.stringsText xs) = .ok xs
  fourDigits : ∀ t, FourDigitYear t → f.parseFromRfc3339 (f.toRfc3339 t) = .ok t
  signed : ∀ t, ¬ FourDigitYear t → ∃ e, f.parseFromRfc3339 (f.toRfc3339 t) = .error e

end Formats

section Columns

inductive SqliteStoreError where
  | mapping (reason : String)
  /-- `rusqlite::Error::InvalidColumnType(0, name, Text)`, the carrier of a failed decoding. -/
  | invalidColumnType (name : String)
  | notNullFailed (column : String)
  deriving DecidableEq

def SqliteStoreError.message : SqliteStoreError → String
  | mapping reason => "Mapping error: " ++ reason
  | invalidColumnType name =>
    "SQLite error: Invalid column type Text at index: 0, name: " ++ name
  | notNullFailed column => "SQLite error: NOT NULL constraint failed: " ++ column

def provenanceToStr : ProvenanceLabel → String
  | .modelDerived => "ModelDerived"
  | .recallReEntry => "RecallReEntry"
  | .external .userAsserted => "External_UserAsserted"
  | .external .externalFirstHand => "External_ExternalFirstHand"

def strToProvenance : String → Except SqliteStoreError ProvenanceLabel
  | "ModelDerived" => .ok .modelDerived
  | "RecallReEntry" => .ok .recallReEntry
  | "External_UserAsserted" => .ok (.external .userAsserted)
  | "External_ExternalFirstHand" => .ok (.external .externalFirstHand)
  | other => .error (.mapping ("unknown provenance_label value: " ++ other))

def cardinalityToStr : Cardinality → String
  | .functional => "Functional"
  | .setValued => "SetValued"
  | .unknown => "Unknown"

def strToCardinality : String → Except SqliteStoreError Cardinality
  | "Functional" => .ok .functional
  | "SetValued" => .ok .setValued
  | "Unknown" => .ok .unknown
  | other => .error (.mapping ("unknown cardinality value: " ++ other))

def criticalityToStr : Criticality → String
  | .low => "Low"
  | .medium => "Medium"
  | .high => "High"
  | .critical => "Critical"

def strToCriticality : String → Except SqliteStoreError Criticality
  | "Low" => .ok .low
  | "Medium" => .ok .medium
  | "High" => .ok .high
  | "Critical" => .ok .critical
  | other => .error (.mapping ("unknown criticality value: " ++ other))

def dateGranularityToStr : DateGranularity → String
  | .year => "year"
  | .month => "month"
  | .day => "day"
  | .instant => "instant"

def strToDateGranularity : String → Option DateGranularity
  | "year" => some .year
  | "month" => some .month
  | "day" => some .day
  | "instant" => some .instant
  | _ => none

end Columns

section Rows

/-- A row of `claims`. A binary32 confidence is exact as a REAL, and so is a `u32` as an
    INTEGER. -/
structure ClaimRow where
  claimId : String
  agentId : String
  subject : String
  predicate : String
  value : String
  cardinality : String
  provenanceLabel : String
  nearestExternalAnchorId : Option String
  derivationDepth : ℕ
  txTime : String
  validTimeStart : Option String
  validTimeEnd : Option String
  validTimeConfidence : F32
  valueConfidence : F32
  criticality : String
  derivedFrom : String
  metadata : Option String
  snapshotSchemaVersion : Option ℕ
  validTimeStartGranularity : Option String
  validTimeEndGranularity : Option String
  deriving DecidableEq

/-- A row of `validity_assertions`. -/
structure AssertionRow where
  assertionId : String
  agentId : String
  targetClaimId : String
  assertionKind : String
  boundAt : Option String
  boundAtGranularity : Option String
  reopenAt : Option String
  provenanceLabel : String
  valueConfidence : F32
  validTimeConfidence : F32
  assertedAt : String
  deriving DecidableEq

variable (f : Formats)

/-- The parameters of the INSERT in `append_claim`. The two structs that carry a
    valid-time confidence share one column, written from the window. -/
def claimRow (claim : Claim) : ClaimRow where
  claimId := f.uuidText claim.claimRef.uuid
  agentId := claim.agentId.name
  subject := claim.fact.subject
  predicate := claim.fact.predicate
  value := f.jsonText claim.fact.value
  cardinality := cardinalityToStr claim.cardinality
  provenanceLabel := provenanceToStr claim.provenance
  nearestExternalAnchorId :=
    claim.externalAnchor.nearestExternalAnchor.map fun r => f.uuidText r.uuid
  derivationDepth := claim.externalAnchor.derivationDepth
  txTime := f.toRfc3339 claim.transactionTime
  validTimeStart := claim.validTime.start.map f.toRfc3339
  validTimeEnd := claim.validTime.stop.map f.toRfc3339
  validTimeConfidence := claim.validTime.validTimeConfidence
  valueConfidence := claim.confidence.valueConfidence
  criticality := criticalityToStr claim.criticality
  derivedFrom := f.stringsText (claim.derivedFrom.map fun r => f.uuidText r.uuid)
  metadata := claim.metadata.map f.jsonText
  snapshotSchemaVersion := claim.snapshotSchemaVersion
  validTimeStartGranularity := claim.validTime.startGranularity.map dateGranularityToStr
  validTimeEndGranularity := claim.validTime.stopGranularity.map dateGranularityToStr

/-- The parameters of the INSERT in `append_validity_assertion`. -/
def assertionRow (assertion : ValidityAssertion) : AssertionRow where
  assertionId := f.uuidText assertion.assertionRef
  agentId := assertion.agentId.name
  targetClaimId := f.uuidText assertion.targetClaim.uuid
  assertionKind := match assertion.kind with
    | .bound _ _ => "Bound"
    | .reopen _ => "Reopen"
  boundAt := match assertion.kind with
    | .bound boundAt _ => some (f.toRfc3339 boundAt)
    | .reopen _ => none
  boundAtGranularity := match assertion.kind with
    | .bound _ boundAtGranularity => boundAtGranularity.map dateGranularityToStr
    | .reopen _ => none
  reopenAt := match assertion.kind with
    | .bound _ _ => none
    | .reopen reopenAt => some (f.toRfc3339 reopenAt)
  provenanceLabel := provenanceToStr assertion.provenance
  valueConfidence := assertion.confidence.valueConfidence
  validTimeConfidence := assertion.confidence.validTimeConfidence
  assertedAt := f.toRfc3339 assertion.assertedAt

/-- `to_rusqlite_err` on the text of a failed parse. -/
def parsed {α : Type} (context : String) : Except String α → Except SqliteStoreError α
  | .ok a => .ok a
  | .error e => .error (.invalidColumnType (context ++ e))

/-- `to_rusqlite_err(e.to_string())` on a text that names no variant. -/
def mapped {α : Type} : Except SqliteStoreError α → Except SqliteStoreError α
  | .ok a => .ok a
  | .error e => .error (.invalidColumnType e.message)

/-- `.map(..).transpose()` on a nullable column. -/
def nullable {α : Type} (decode : String → Except SqliteStoreError α) :
    Option String → Except SqliteStoreError (Option α)
  | none => .ok none
  | some s => (decode s).map some

def rowToClaim (row : ClaimRow) : Except SqliteStoreError Claim := do
  let claimId ← parsed "claim_id UUID parse: " (f.parseUuid row.claimId)
  let value ← parsed "value JSON parse: " (f.parseJson row.value)
  let cardinality ← mapped (strToCardinality row.cardinality)
  let provenance ← mapped (strToProvenance row.provenanceLabel)
  let nearestExternalAnchor ←
    nullable (fun s => parsed "anchor UUID parse: " (f.parseUuid s)) row.nearestExternalAnchorId
  let txTime ← parsed "tx_time parse: " (f.parseFromRfc3339 row.txTime)
  let validTimeStart ←
    nullable (fun s => parsed "valid_time_start parse: " (f.parseFromRfc3339 s))
      row.validTimeStart
  let validTimeEnd ←
    nullable (fun s => parsed "valid_time_end parse: " (f.parseFromRfc3339 s)) row.validTimeEnd
  let criticality ← mapped (strToCriticality row.criticality)
  let derivedFromUuids ← parsed "derived_from JSON parse: " (f.parseStrings row.derivedFrom)
  let derivedFrom ←
    derivedFromUuids.mapM fun s => parsed "derived_from UUID parse: " (f.parseUuid s)
  let metadata ←
    nullable (fun s => parsed "metadata JSON parse: " (f.parseJson s)) row.metadata
  return {
    claimRef := ⟨claimId⟩
    agentId := ⟨row.agentId⟩
    fact := ⟨row.subject, row.predicate, value⟩
    cardinality
    provenance
    externalAnchor := ⟨nearestExternalAnchor.map ClaimRef.mk, row.derivationDepth⟩
    transactionTime := txTime
    validTime :=
      { start := validTimeStart
        stop := validTimeEnd
        validTimeConfidence := row.validTimeConfidence
        startGranularity := row.validTimeStartGranularity.bind strToDateGranularity
        stopGranularity := row.validTimeEndGranularity.bind strToDateGranularity }
    confidence := ⟨row.valueConfidence, row.validTimeConfidence⟩
    criticality
    derivedFrom := derivedFrom.map ClaimRef.mk
    metadata
    snapshotSchemaVersion := row.snapshotSchemaVersion }

/-- An instant that a kind of assertion cannot be without. -/
def kindInstant (missing context : String) :
    Option String → Except SqliteStoreError Instant
  | none => .error (.invalidColumnType missing)
  | some s => parsed context (f.parseFromRfc3339 s)

def rowToKind (row : AssertionRow) : Except SqliteStoreError AssertionKind :=
  match row.assertionKind with
  | "Bound" => do
    let boundAt ←
      kindInstant f "bound_at is NULL for Bound assertion" "bound_at parse: " row.boundAt
    return .bound boundAt (row.boundAtGranularity.bind strToDateGranularity)
  | "Reopen" => do
    let reopenAt ←
      kindInstant f "reopen_at is NULL for Reopen assertion" "reopen_at parse: " row.reopenAt
    return .reopen reopenAt
  | other => .error (.invalidColumnType ("unknown assertion_kind: " ++ other))

/-- The row mapper of `load_validity_assertions_for`. -/
def rowToAssertion (row : AssertionRow) : Except SqliteStoreError ValidityAssertion := do
  let assertionRef ← parsed "assertion_id UUID: " (f.parseUuid row.assertionId)
  let targetClaim ← parsed "target_claim UUID: " (f.parseUuid row.targetClaimId)
  let provenance ← mapped (strToProvenance row.provenanceLabel)
  let assertedAt ← parsed "asserted_at parse: " (f.parseFromRfc3339 row.assertedAt)
  let kind ← rowToKind f row
  return {
    assertionRef
    agentId := ⟨row.agentId⟩
    targetClaim := ⟨targetClaim⟩
    kind
    provenance
    confidence := ⟨row.valueConfidence, row.validTimeConfidence⟩
    assertedAt }

end Rows

section Tables

structure Tables where
  claims : List ClaimRow
  validityAssertions : List AssertionRow
  deriving DecidableEq

def Tables.empty : Tables := ⟨[], []⟩

variable (f : Formats) (T : Tables)

/-- `append_claim`. A NaN is bound as NULL, which its column refuses. -/
def appendClaim (claim : Claim) : Except SqliteStoreError Tables :=
  if claim.validTime.validTimeConfidence = .nan then
    .error (.notNullFailed "claims.valid_time_confidence")
  else if claim.confidence.valueConfidence = .nan then
    .error (.notNullFailed "claims.value_confidence")
  else .ok { T with claims := T.claims ++ [claimRow f claim] }

/-- `append_validity_assertion`. -/
def appendValidityAssertion (assertion : ValidityAssertion) : Except SqliteStoreError Tables :=
  if assertion.confidence.valueConfidence = .nan then
    .error (.notNullFailed "validity_assertions.value_confidence")
  else if assertion.confidence.validTimeConfidence = .nan then
    .error (.notNullFailed "validity_assertions.valid_time_confidence")
  else .ok { T with validityAssertions := T.validityAssertions ++ [assertionRow f assertion] }

/-- Entries and edges have tables of their own. -/
def insert : Append → Except SqliteStoreError Tables
  | .claim c => appendClaim f T c
  | .assertion a => appendValidityAssertion f T a
  | .entry _ | .edge _ => .ok T

def insertAll (appends : List Append) : Except SqliteStoreError Tables :=
  appends.foldlM (insert f) T

def loadSubjectLine (agentId : AgentId) (subject predicate : String)
    (asOfTxTime : Option Instant) : Except SqliteStoreError (List Claim) :=
  select (rowToClaim f) ClaimRow.txTime
    (fun row => row.agentId == agentId.name && row.subject == subject &&
      row.predicate == predicate &&
      asOfTxTime.all (fun cutoff => decide (row.txTime ≤ f.toRfc3339 cutoff)))
    T.claims

def loadClaim (agentId : AgentId) (claimRef : ClaimRef) :
    Except SqliteStoreError (Option Claim) :=
  selectFirst (rowToClaim f)
    (fun row => row.agentId == agentId.name && row.claimId == f.uuidText claimRef.uuid)
    T.claims

def loadValidityAssertionsFor (agentId : AgentId) (claimRef : ClaimRef) :
    Except SqliteStoreError (List ValidityAssertion) :=
  select (rowToAssertion f) AssertionRow.assertedAt
    (fun row => row.agentId == agentId.name && row.targetClaimId == f.uuidText claimRef.uuid)
    T.validityAssertions

end Tables

end Mempill.SqliteRows
