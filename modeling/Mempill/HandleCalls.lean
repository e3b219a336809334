import Mempill.Lib.LockedTasks
import Mempill.Sweep
import Mempill.WritePhases

set_option autoImplicit false

/-!
# Handle calls

The write methods of an engine handle as tasks: what each reads without a lock, the order
in which it takes its locks, and the use cases it dispatches under them. Clones of a handle
share the locks.
-/
namespace Mempill.HandleCalls
open Mempill.Types Mempill.Persistence Mempill.IngestClaim Mempill.AssertValidity
open Mempill.SubmitAdjudication Mempill.Reconcile Mempill.Sweep Mempill.Engine
open Mempill.WritePhases LockedTasks

section Shared

inductive Lock where
  /-- `store_write_lock`. -/
  | store
  /-- The n-th mutex that the map of agent locks has made. -/
  | agent (mutex : ℕ)
  deriving DecidableEq

abbrev Reply := Except MemError Response

/-- A use case that has come to its end, for the call that dispatched it. -/
structure Ended where
  call : ℕ
  agentId : AgentId
  op : Op
  faults : Faults
  reply : Reply

structure Shared where
  store : Store
  /-- The map of `AgentWriteLockMap`. -/
  locks : AgentId → Option ℕ
  /-- The mutexes made so far. -/
  made : ℕ
  /-- The use cases that have begun and not ended, each under its call. -/
  running : List (ℕ × AgentId)
  ended : List Ended

namespace Shared

/-- A handle on a store that is there. -/
def opened (σ : Store) : Shared := ⟨σ, fun _ => none, 0, [], []⟩

/-- `entry(..).or_insert_with(..)`. -/
def orInsertWith (s : Shared) (agentId : AgentId) : ℕ × Shared :=
  match s.locks agentId with
  | some mutex => (mutex, s)
  | none =>
    (s.made, { s with locks := Function.update s.locks agentId (some s.made), made := s.made + 1 })

def begin (s : Shared) (call : ℕ) (agentId : AgentId) : Shared :=
  { s with running := s.running ++ [(call, agentId)] }

/-- A transaction that fails leaves the store as it is. -/
def commit (s : Shared) (faults : Faults) (appends : List Append) : Shared :=
  match transact faults s.store appends with
  | .error _ => s
  | .ok committed => { s with store := committed }

def finish (s : Shared) (e : Ended) : Shared :=
  { s with running := s.running.erase (e.call, e.agentId), ended := s.ended ++ [e] }

end Shared

end Shared

section Calls

inductive Call where
  | ingestClaim (req : IngestClaimRequest) (claimRef : ClaimRef)
      (oracleReply : Except String Uuid)
  | assertValidity (req : AssertValidityRequest) (assertionRef : Uuid)
  /-- Its use case takes the stamp. -/
  | reconcile (req : ReconcileRequest) (now : Instant)
  | submitAdjudication (handleId : Uuid) (response : AdjudicationResponse) (assertionRef : Uuid)
  | sweepExpiredAdjudications

inductive Outcome where
  | replied (reply : Reply)
  | swept (count : Except MemError ℕ)

structure Returned where
  now : Instant
  call : Call
  outcome : Outcome

abbrev Work := Task Lock Shared Returned

/-- Which port calls of a call fail: those of its use cases, and its own reads. -/
structure Ports where
  faults : Op → Faults
  getPending : Bool
  listExpired : Bool
  listOrphans : Bool

/-- The read lock and the write lock of the map are each held over one access. -/
def acquire (agentId : AgentId) (next : ℕ → Work) : Work :=
  .access id fun s =>
    match s.locks agentId with
    | some mutex => .lock (.agent mutex) (next mutex)
    | none =>
      .access (fun s => (s.orInsertWith agentId).2) fun s =>
        .lock (.agent (s.orInsertWith agentId).1) (next (s.orInsertWith agentId).1)

/-- The guards are dropped in the reverse order. -/
def locked (serialized : Bool) (agentId : AgentId) (body : (Reply → Work) → Work)
    (next : Reply → Work) : Work :=
  if serialized then
    .lock .store (acquire agentId fun mutex =>
      body fun reply => .unlock (.agent mutex) (.unlock .store (next reply)))
  else acquire agentId fun mutex => body fun reply => .unlock (.agent mutex) (next reply)

def conclude (e : Ended) (next : Reply → Work) : Work :=
  .access (·.finish e) fun _ => next e.reply

/-- The port calls after the commit, and the end. -/
def afterCommit (e : Ended) (after : AfterCommit) (next : Reply → Work) : Work :=
  .access
    (fun s =>
      let (reply, store) := Planned.finish e.faults s.store e.reply after
      { s with store := store }.finish { e with reply := reply })
    fun s => next (Planned.finish e.faults s.store e.reply after).1

variable (serialized : Bool) (eng : Engine)

/-- The read phase, the transaction, and what follows the commit. -/
def useCase (faults : Faults) (call : ℕ) (agentId : AgentId) (op : Op) (next : Reply → Work) :
    Work :=
  .access (·.begin call agentId) fun s =>
    match planOf eng s.store op with
    | .answered reply => conclude ⟨call, agentId, op, faults, reply⟩ next
    | .write appends after reply =>
      .access (·.commit faults appends) fun s =>
        match transact faults s.store appends with
        | .error e => conclude ⟨call, agentId, op, faults, .error e⟩ next
        | .ok _ => afterCommit ⟨call, agentId, op, faults, reply⟩ after next

def dispatch (ports : Ports) (call : ℕ) (agentId : AgentId) (op : Op) (next : Reply → Work) :
    Work :=
  locked serialized agentId (useCase eng (ports.faults op) call agentId op) next

/-- One loop of a sweep; an error ends the sweep. -/
def revertAll (ports : Ports) (call : ℕ) (stop : Except MemError ℕ → Work) :
    List (AgentId × Op) → ℕ → (ℕ → Work) → Work
  | [], swept, next => next swept
  | (agentId, op) :: items, swept, next =>
    dispatch serialized eng ports call agentId op fun reply =>
      match reply with
      | .error e => stop (.error e)
      | .ok (.reverted true) => revertAll ports call stop items (swept + 1) next
      | .ok _ => revertAll ports call stop items swept next

def submitAdjudication (ports : Ports) (call : ℕ) (now : Instant) (handleId : Uuid)
    (response : AdjudicationResponse) (assertionRef : Uuid) (return_ : Reply → Work) : Work :=
  if eng.pendingStorePresent then
    .access id fun s =>
      if ports.getPending then return_ (.error .pendingStore)
      else match getPending s.store handleId with
        | none => return_ (.error (.adjudicationHandleNotFound handleId))
        | some row =>
          dispatch serialized eng ports call row.agentId
            (.submitAdjudication handleId response now assertionRef) return_
  else return_ (.error (.adjudicationHandleNotFound handleId))

def expiredItems (σ : Store) (now : Instant) : List (AgentId × Op) :=
  (listExpired σ now).map fun row => (row.agentId, .sweepExpired row now)

def orphanItems (σ : Store) (now : Instant) : List (AgentId × Op) :=
  (listQueuedOrphanClaims σ).map fun orphan => (orphan.agentId, .sweepOrphan orphan now)

def sweepExpiredAdjudications (ports : Ports) (call : ℕ) (now : Instant)
    (return_ : Except MemError ℕ → Work) : Work :=
  if eng.pendingStorePresent then
    .access id fun s =>
      if ports.listExpired then return_ (.error .pendingStore)
      else
        revertAll serialized eng ports call return_ (expiredItems s.store now) 0 fun swept =>
          .access id fun s =>
            if ports.listOrphans then return_ (.error .pendingStore)
            else
              revertAll serialized eng ports call return_ (orphanItems s.store now) swept
                fun swept => return_ (.ok swept)
  else return_ (.ok 0)

/-- A write method of the handle. It takes its stamp before it waits for a lock. -/
def handle (ports : Ports) (call : ℕ) (now : Instant) (c : Call) : Work :=
  let replied reply : Work := .done ⟨now, c, .replied reply⟩
  match c with
  | .ingestClaim req claimRef oracleReply =>
    dispatch serialized eng ports call req.agentId (.ingestClaim req now claimRef oracleReply)
      replied
  | .assertValidity req assertionRef =>
    dispatch serialized eng ports call req.agentId (.assertValidity req now assertionRef) replied
  | .reconcile req stamp =>
    dispatch serialized eng ports call req.agentId (.reconcile req stamp) replied
  | .submitAdjudication handleId response assertionRef =>
    submitAdjudication serialized eng ports call now handleId response assertionRef replied
  | .sweepExpiredAdjudications =>
    sweepExpiredAdjudications serialized eng ports call now
      fun count => .done ⟨now, c, .swept count⟩

/-- Any method, with any arguments, at any time. -/
def Callable (call : ℕ) (task : Work) : Prop :=
  ∃ ports now c, task = handle serialized eng ports call now c

end Calls

end Mempill.HandleCalls
