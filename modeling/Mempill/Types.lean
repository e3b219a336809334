import Mathlib.Algebra.Group.Int.Defs
import Mathlib.Algebra.Group.Nat.Defs
import Mathlib.Data.List.Sort
import Mathlib.Data.Prod.Lex
import Mathlib.Data.Int.Order.Basic

set_option autoImplicit false

/-!
# Domain types

Claims, validity assertions, ledger entries and edges of the claim store, in
the source's own shape. Stamps that no modelled function reads (entry and edge
identifiers) are left out.
-/
namespace Mempill.Types

/-- A UTC instant, in nanoseconds. -/
abbrev Instant := ℤ

/-- A UUID through `as_u128`. -/
abbrev Uuid := ℕ

structure AgentId where
  name : String
  deriving DecidableEq, Repr

structure ClaimRef where
  uuid : Uuid
  deriving DecidableEq, Repr

/-- A finite binary32 value is an integer multiple of `2^-149`, and the engine
    only compares confidences; an infinity compares like an extreme multiple. -/
inductive F32 where
  | nan
  | ofScaled (n : ℤ)
  deriving DecidableEq, Repr

/-- IEEE `>=`: false as soon as one side is NaN. -/
def F32.ge : F32 → F32 → Bool
  | .ofScaled a, .ofScaled b => decide (b ≤ a)
  | _, _ => false

def F32.lt : F32 → F32 → Bool
  | .ofScaled a, .ofScaled b => decide (a < b)
  | _, _ => false

inductive DateGranularity where
  | year | month | day | instant
  deriving DecidableEq, Repr

/-- JSON values. `uuid` and `time` are the strings that `to_string` and
    `to_rfc3339` render; equality of objects is equality of their field lists. -/
inductive Json where
  | null
  | bool (b : Bool)
  | int (n : ℤ)
  | float (x : F32)
  | str (s : String)
  | uuid (u : Uuid)
  | time (t : Instant)
  | arr (xs : List Json)
  | obj (fields : List (String × Json))

mutual
def Json.beq : Json → Json → Bool
  | .null, .null => true
  | .bool a, .bool b => a == b
  | .int a, .int b => a == b
  | .float a, .float b => a == b
  | .str a, .str b => a == b
  | .uuid a, .uuid b => a == b
  | .time a, .time b => a == b
  | .arr xs, .arr ys => Json.beqList xs ys
  | .obj xs, .obj ys => Json.beqFields xs ys
  | _, _ => false
def Json.beqList : List Json → List Json → Bool
  | [], [] => true
  | x :: xs, y :: ys => Json.beq x y && Json.beqList xs ys
  | _, _ => false
def Json.beqFields : List (String × Json) → List (String × Json) → Bool
  | [], [] => true
  | (k, x) :: xs, (l, y) :: ys => k == l && Json.beq x y && Json.beqFields xs ys
  | _, _ => false
end

mutual
theorem Json.beq_iff : ∀ a b : Json, Json.beq a b = true ↔ a = b
  | .null, b => by cases b <;> simp [Json.beq]
  | .bool _, b => by cases b <;> simp [Json.beq]
  | .int _, b => by cases b <;> simp [Json.beq]
  | .float _, b => by cases b <;> simp [Json.beq]
  | .str _, b => by cases b <;> simp [Json.beq]
  | .uuid _, b => by cases b <;> simp [Json.beq]
  | .time _, b => by cases b <;> simp [Json.beq]
  | .arr xs, b => by cases b <;> simp [Json.beq, Json.beqList_iff xs]
  | .obj xs, b => by cases b <;> simp [Json.beq, Json.beqFields_iff xs]
theorem Json.beqList_iff : ∀ a b : List Json, Json.beqList a b = true ↔ a = b
  | [], b => by cases b <;> simp [Json.beqList]
  | x :: xs, b => by cases b <;> simp [Json.beqList, Json.beq_iff x, Json.beqList_iff xs]
theorem Json.beqFields_iff :
    ∀ a b : List (String × Json), Json.beqFields a b = true ↔ a = b
  | [], b => by cases b <;> simp [Json.beqFields]
  | (k, x) :: xs, b => by
    rcases b with _ | ⟨⟨l, y⟩, ys⟩ <;>
      simp [Json.beqFields, Json.beq_iff x, Json.beqFields_iff xs]
end

instance : DecidableEq Json := fun a b => decidable_of_iff _ (Json.beq_iff a b)

/-- `Value::get`: the field of an object, if there is one. -/
def Json.get (j : Json) (key : String) : Option Json :=
  match j with
  | .obj fields => (fields.find? (fun f => f.1 == key)).map (·.2)
  | _ => none

def Json.asStr : Json → Option String
  | .str s => some s
  | _ => none

structure Fact where
  subject : String
  predicate : String
  value : Json
  deriving DecidableEq

inductive Cardinality where
  | functional | setValued | unknown
  deriving DecidableEq, Repr

structure Confidence where
  valueConfidence : F32
  validTimeConfidence : F32
  deriving DecidableEq

inductive Criticality where
  | low | medium | high | critical
  deriving DecidableEq, Repr

def Criticality.rank : Criticality → ℕ
  | .low => 0
  | .medium => 1
  | .high => 2
  | .critical => 3

inductive ExternalKind where
  | userAsserted | externalFirstHand
  deriving DecidableEq, Repr

inductive ProvenanceLabel where
  | external (kind : ExternalKind)
  | recallReEntry
  | modelDerived
  deriving DecidableEq, Repr

def ProvenanceLabel.isCheapPathEligible : ProvenanceLabel → Bool
  | .external _ => true
  | _ => false

def ProvenanceLabel.isRecallReentry : ProvenanceLabel → Bool
  | .recallReEntry => true
  | _ => false

structure ExternalAnchor where
  nearestExternalAnchor : Option ClaimRef
  derivationDepth : ℕ
  deriving DecidableEq

/-- A host-supplied valid-time window; `stop` is the source's `end`. -/
structure ValidTime where
  start : Option Instant
  stop : Option Instant
  validTimeConfidence : F32
  startGranularity : Option DateGranularity
  stopGranularity : Option DateGranularity
  deriving DecidableEq

def ValidTime.isUnknown (vt : ValidTime) : Bool := vt.start.isNone && vt.stop.isNone

structure Claim where
  claimRef : ClaimRef
  agentId : AgentId
  fact : Fact
  cardinality : Cardinality
  provenance : ProvenanceLabel
  externalAnchor : ExternalAnchor
  transactionTime : Instant
  validTime : ValidTime
  confidence : Confidence
  criticality : Criticality
  derivedFrom : List ClaimRef
  metadata : Option Json
  snapshotSchemaVersion : Option ℕ
  deriving DecidableEq

inductive Disposition where
  | committedCheap | committedInferred | queuedForAdjudication | contested
  | pendingConflict | pendingReview | pendingLowConfidence | quarantined
  | superseded | invalidated | reinstated | rejected
  deriving DecidableEq, Repr

inductive AssertionKind where
  | bound (boundAt : Instant) (boundAtGranularity : Option DateGranularity)
  | reopen (reopenAt : Instant)
  deriving DecidableEq

structure ValidityAssertion where
  assertionRef : Uuid
  agentId : AgentId
  targetClaim : ClaimRef
  kind : AssertionKind
  provenance : ProvenanceLabel
  confidence : Confidence
  assertedAt : Instant
  deriving DecidableEq

inductive LedgerEventKind where
  | claimCommitted | validityAsserted | adjudicationRequested | adjudicationResolved
  | recallReEntryDetected | quarantined | dependentFlaggedPendingReview
  | servedAsInjected | adjudicationExpired
  deriving DecidableEq, Repr

structure LedgerEntry where
  agentId : AgentId
  claimRef : ClaimRef
  eventKind : LedgerEventKind
  disposition : Disposition
  rationale : Option Json
  recordedAt : Instant
  deriving DecidableEq

inductive EdgeKind where
  | derivedFrom | supersedes | dependsOn | mutualExclusion
  deriving DecidableEq, Repr

structure ClaimEdge where
  agentId : AgentId
  fromClaim : ClaimRef
  toClaim : ClaimRef
  kind : EdgeKind
  createdAt : Instant
  deriving DecidableEq

inductive BeliefStatus where
  | resolved | contested | conflict | timingUncertain | noBelief
  deriving DecidableEq, Repr

inductive CurrencyState where
  | fresh | agingUnconfirmed | decayed
  deriving DecidableEq, Repr

structure CurrencySignal where
  lastRefreshedAt : Instant
  state : CurrencyState
  corroborationCount : ℕ
  deriving DecidableEq

structure Belief where
  claimRef : ClaimRef
  fact : Fact
  provenance : ProvenanceLabel
  validTime : ValidTime
  transactionTime : Instant
  confidence : Confidence
  currencySignal : CurrencySignal
  criticality : Criticality
  deriving DecidableEq

/-- The four texts a staleness flag can carry. -/
inductive StalenessReason where
  | noLiveClaimOnSubjectLine
  | noLiveClaim
  | currencyDecayed (lastRefreshedAt : Instant)
  | agingUnconfirmed
  deriving DecidableEq

structure StalenessFlag where
  isStale : Bool
  reason : Option StalenessReason
  deriving DecidableEq

inductive Marker where
  | contested | pendingConflict | pendingReview | agedSetMember | recallTainted
  | lowDerivationAnchor
  deriving DecidableEq, Repr

structure BeliefProjection where
  status : BeliefStatus
  primary : Option Belief
  alternatives : List Belief
  currency : CurrencyState
  criticality : Criticality
  staleness : StalenessFlag
  markers : List Marker
  deriving DecidableEq

inductive HistoryEntryStatus where
  | current | superseded | contested | ended
  deriving DecidableEq, Repr

structure SubjectLineRef where
  agentId : AgentId
  subject : String
  predicate : String
  deriving DecidableEq

inductive OverturnReason where
  | externalContradiction | validityBound | dependsOnSuperseded | highDerivationDepth
  deriving DecidableEq, Repr

structure AdjudicationRequest where
  subjectLine : SubjectLineRef
  incumbent : Belief
  challenger : Claim
  criticality : Criticality
  reason : OverturnReason
  deriving DecidableEq

inductive AdjudicationVerdict where
  | affirm | deny | unknown
  deriving DecidableEq, Repr

structure AdjudicationResponse where
  handleId : Uuid
  verdict : AdjudicationVerdict
  evidenceProvenance : ProvenanceLabel
  deriving DecidableEq

structure AdjudicationOutcome where
  handleId : Uuid
  disposition : Disposition
  claimRef : ClaimRef
  deriving DecidableEq

inductive PendingStatus where
  | pending | resolved | expired
  deriving DecidableEq, Repr

structure PendingAdjudicationRow where
  handleId : Uuid
  agentId : AgentId
  subject : String
  predicate : String
  challengerClaimRef : ClaimRef
  incumbentClaimRef : ClaimRef
  requestPayload : AdjudicationRequest
  queuedAt : Instant
  expiresAt : Option Instant
  status : PendingStatus
  deriving DecidableEq

/-- The tunables that a modelled function reads. -/
structure EngineConfig where
  validTimeConfidenceThreshold : F32
  derivationDepthCapForCurrencyBoost : ℕ
  derivationDepthCapForOverturning : ℕ
  quarantineBurstThreshold : ℕ
  agingUnconfirmedThresholdDays : ℕ
  decayedThresholdDays : ℕ
  /-- A `std::time::Duration`, in nanoseconds. -/
  defaultAdjudicationTtl : Option ℕ
  deriving DecidableEq

/-- `EngineConfig::default()`; the threshold is the binary32 value of 0.7. -/
def EngineConfig.default : EngineConfig where
  validTimeConfidenceThreshold := .ofScaled (11744051 * 2 ^ 125)
  derivationDepthCapForCurrencyBoost := 3
  derivationDepthCapForOverturning := 2
  quarantineBurstThreshold := 10
  agingUnconfirmedThresholdDays := 30
  decayedThresholdDays := 90
  defaultAdjudicationTtl := none

/-- The errors of a persistence adapter. -/
inductive StoreError where
  | txnAlreadyOpen
  | driver (reason : String)
  deriving DecidableEq

inductive MemError where
  | claimNotFound (claimRef : ClaimRef)
  | incoherentTemporalWindow (start stop : Instant)
  | insufficientProvenanceForOverturn (provenance : ProvenanceLabel)
  | alreadyBound (target : ClaimRef) (existingBoundAt : Instant)
  | ambiguousLineForClose (subject predicate : String) (liveCount : ℕ)
  | targetUnderAdjudication (target : ClaimRef)
  | adjudicationHandleNotFound (handleId : Uuid)
  | pendingStore
  | oracleError (reason : String)
  | persistence (source : StoreError)
  deriving DecidableEq

instance instDecidableEqResult {ε α : Type} [DecidableEq ε] [DecidableEq α] :
    DecidableEq (Except ε α)
  | .error a, .error b => decidable_of_iff (a = b) ⟨congrArg _, Except.error.inj⟩
  | .ok a, .ok b => decidable_of_iff (a = b) ⟨congrArg _, Except.ok.inj⟩
  | .error _, .ok _ => .isFalse nofun
  | .ok _, .error _ => .isFalse nofun

end Mempill.Types
