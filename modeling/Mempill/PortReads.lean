import Mempill.QueryHistory
import Mempill.QueryMemory
import Mempill.Steps

set_option autoImplicit false

/-!
# Port reads

The read path as the separate reads it makes through the persistence port, between
the begins, appends and commits of writers on the same store.
-/
namespace Mempill.PortReads
open Mempill.Types Mempill.Persistence Mempill.TruthEngine Mempill.Ledger Mempill.QueryMemory
open Mempill.QueryHistory Mempill.Steps StampedLog

section Answers

/-- What the reads of one query return. -/
structure QueryReads where
  claims : List Claim
  ledger : List LedgerEntry
  assertionsFor : ClaimRef → List ValidityAssertion

def memoryFrom (config : EngineConfig) (reads : QueryReads) (req : QueryMemoryRequest)
    (now : Instant) : BeliefProjection :=
  let asOf := req.asOfTxTime.getD now
  let folded := fold reads.claims reads.assertionsFor asOf req.validAt config
    (buildLatestDispositionMap reads.ledger)
  let folded := match req.validAt with
    | some instant =>
      narrowLiveClaimsForValidAt folded instant (buildDeniedViaAdjudicationSet reads.ledger)
        config
    | none => folded
  let ledgerEntries := reads.claims.flatMap fun c =>
    reads.ledger.filter (fun e => e.claimRef == c.claimRef)
  project folded ledgerEntries now config (anyContested folded.liveClaims)

def historyFrom (config : EngineConfig) (reads : QueryReads) (now : Instant) :
    List HistoryEntry :=
  let folded := fold reads.claims reads.assertionsFor now none config
    (buildLatestDispositionMap reads.ledger)
  let windows := computeHistoryWindows folded.allClaims folded.hasConflict now config
  List.zipWith (historyEntry folded.liveClaims) folded.allClaims windows

inductive Query where
  | memory (req : QueryMemoryRequest)
  | history (req : QueryHistoryRequest)

namespace Query

def agentId : Query → AgentId
  | memory req => req.agentId
  | history req => req.agentId

def subject : Query → String
  | memory req => req.subject
  | history req => req.subject

def predicate : Query → String
  | memory req => req.predicate
  | history req => req.predicate

/-- The cutoff of the claim and ledger reads. -/
def cutoff (now : Instant) : Query → Option Instant
  | memory req => some (req.asOfTxTime.getD now)
  | history _ => none

/-- The instant that the fold evaluates assertions at. -/
def asOf (now : Instant) : Query → Instant
  | memory req => req.asOfTxTime.getD now
  | history _ => now

end Query

inductive Answer where
  | memory (belief : BeliefProjection)
  | history (entries : List HistoryEntry)
  deriving DecidableEq

def answerFrom (config : EngineConfig) (q : Query) (now : Instant) (reads : QueryReads) :
    Answer :=
  match q with
  | .memory req => .memory (memoryFrom config reads req now)
  | .history _ => .history (historyFrom config reads now)

/-- The answer of a query that nothing overlaps. -/
def answerOn (config : EngineConfig) (q : Query) (now : Instant) (σ : Store) : Answer :=
  match q with
  | .memory req => .memory (QueryMemory.execute config σ req now)
  | .history req => .history (QueryHistory.execute config σ req now)

end Answers

section Reads

variable (q : Query) (now : Instant)

def readClaims (σ : Store) : List Claim :=
  loadSubjectLine σ q.agentId q.subject q.predicate (q.cutoff now)

def readLedger (σ : Store) (claims : List Claim) : List LedgerEntry :=
  loadLedgerForClaims σ q.agentId (claims.map (·.claimRef)) (q.cutoff now)

/-- How far the query is. Assertions are read claim by claim, in the order of the fold. -/
inductive Phase where
  | line
  | ledger (claims : List Claim)
  | assertions (claims : List Claim) (ledger : List LedgerEntry)
      (got : List (ClaimRef × List ValidityAssertion))
  | done (result : Except MemError Answer)

def Phase.isDone : Phase → Bool
  | .done _ => true
  | _ => false

/-- The reads that a query has collected; a claim without one has no assertions. -/
def collected (claims : List Claim) (ledger : List LedgerEntry)
    (got : List (ClaimRef × List ValidityAssertion)) : QueryReads :=
  ⟨claims, ledger, fun r => (got.lookup r).getD []⟩

/-- The claim whose assertions are read next. -/
def nextClaim (config : EngineConfig) (claims : List Claim)
    (got : List (ClaimRef × List ValidityAssertion)) : Option Claim :=
  (inOrder (orderingKey · config) claims)[got.length]?

/-- The next read, on the committed store. Where the connection is with an open
    transaction the read fails; the fold takes a failed read of assertions for none. -/
def nextRead (config : EngineConfig) (σ : Store) (blocked : Bool) : Phase → Phase
  | .line =>
    if blocked then .done (.error (.persistence .txnAlreadyOpen))
    else
      let claims := readClaims q now σ
      match q with
      | .history _ => if claims.isEmpty then .done (.ok (.history [])) else .ledger claims
      | .memory _ => .ledger claims
  | .ledger claims =>
    if blocked && !claims.isEmpty then .done (.error (.persistence .txnAlreadyOpen))
    else .assertions claims (readLedger q now σ claims) []
  | .assertions claims ledger got =>
    match nextClaim config claims got with
    | some c =>
      let read := if blocked then [] else loadValidityAssertionsFor σ q.agentId c.claimRef
      .assertions claims ledger (got ++ [(c.claimRef, read)])
    | none => .done (.ok (answerFrom config q now (collected claims ledger got)))
  | .done result => .done result

end Reads

section System

/-- SQLite has one connection, which an open transaction holds; the other adapter reads
    over connections of their own. -/
inductive Adapter where
  | sqlite | postgres
  deriving DecidableEq

def Written.append (w rows : Written) : Written :=
  ⟨w.claims ++ rows.claims, w.assertions ++ rows.assertions, w.ledger ++ rows.ledger,
    w.edges ++ rows.edges⟩

def appendRows (σ : Store) (w : Written) : Store :=
  { σ with
    claims := σ.claims ++ w.claims
    assertions := σ.assertions ++ w.assertions
    ledger := σ.ledger ++ w.ledger
    edges := σ.edges ++ w.edges }

/-- One query and the open transactions of the writers. -/
structure State where
  committed : Store
  txns : List Written
  phase : Phase
  /-- The committed stores from the call of the query to its answer. -/
  overlapped : List Store

def State.blocked (adapter : Adapter) (s : State) : Bool :=
  adapter == .sqlite && !s.txns.isEmpty

inductive Action where
  | beginAtomic
  | append (txn rows : Written)
  | commit (txn : Written)
  | rollback (txn : Written)
  /-- The query makes its next read, or answers. -/
  | read

inductive Moves (adapter : Adapter) (config : EngineConfig) (q : Query) (now : Instant) :
    State → Action → State → Prop where
  | beginAtomic {s : State} (h : s.blocked adapter = false) :
      Moves adapter config q now s .beginAtomic { s with txns := s.txns ++ [{}] }
  | append {s : State} {w rows : Written} {pre post : List Written}
      (h : s.txns = pre ++ w :: post) :
      Moves adapter config q now s (.append w rows)
        { s with txns := pre ++ Written.append w rows :: post }
  | commit {s : State} {w : Written} {pre post : List Written} (h : s.txns = pre ++ w :: post) :
      Moves adapter config q now s (.commit w)
        { committed := appendRows s.committed w
          txns := pre ++ post
          phase := s.phase
          overlapped := if s.phase.isDone then s.overlapped
            else s.overlapped ++ [appendRows s.committed w] }
  | rollback {s : State} {w : Written} {pre post : List Written}
      (h : s.txns = pre ++ w :: post) :
      Moves adapter config q now s (.rollback w) { s with txns := pre ++ post }
  | read {s : State} :
      Moves adapter config q now s .read
        { s with phase := nextRead q now config s.committed (s.blocked adapter) s.phase }

/-- The query has just been called. -/
def Called (s : State) : Prop := s.phase = .line ∧ s.overlapped = [s.committed]

end System

section Lemmas

variable (config : EngineConfig) (σ : Store)

theorem memoryFrom_eq (req : QueryMemoryRequest) (now : Instant) :
    memoryFrom config ⟨readClaims (.memory req) now σ,
        readLedger (.memory req) now σ (readClaims (.memory req) now σ),
        loadValidityAssertionsFor σ req.agentId⟩ req now =
      QueryMemory.execute config σ req now := rfl

theorem historyFrom_eq (req : QueryHistoryRequest) (now : Instant) :
    historyFrom config ⟨readClaims (.history req) now σ,
        readLedger (.history req) now σ (readClaims (.history req) now σ),
        loadValidityAssertionsFor σ req.agentId⟩ now =
      QueryHistory.execute config σ req now := rfl

theorem answerFrom_eq (q : Query) (now : Instant) :
    answerFrom config q now ⟨readClaims q now σ, readLedger q now σ (readClaims q now σ),
        loadValidityAssertionsFor σ q.agentId⟩ =
      answerOn config q now σ := by
  cases q with
  | memory req => exact congrArg Answer.memory (memoryFrom_eq config σ req now)
  | history req => exact congrArg Answer.history (historyFrom_eq config σ req now)

end Lemmas

end Mempill.PortReads
