import Mempill.PlannedWrites

set_option autoImplicit false

/-!
# Concurrent handles

Two engine handles for one agent on one Postgres store. A call reads and plans without
a lock, and holds the advisory lock of the agent from the begin of its transaction to
the commit or rollback.
-/
namespace Mempill.ConcurrentHandles
open Mempill.Types Mempill.Persistence Mempill.IngestClaim Mempill.AssertValidity Mempill.Engine
open Mempill.WritePhases Mempill.PlannedWrites

section System

inductive Handle where
  | first | second
  deriving DecidableEq

def Handle.other : Handle → Handle
  | .first => .second
  | .second => .first

/-- An applied verdict, an accepted bound or an accepted reopen. -/
inductive Event where
  | applied (handleId : Uuid)
  | bounded (agentId : AgentId) (r : ClaimRef) (at_ : Instant)
  | reopened (agentId : AgentId) (r : ClaimRef)
  deriving DecidableEq

def hostEvent (req : AssertValidityRequest) : Event :=
  match req.assertion with
  | .bound at_ _ => .bounded req.agentId req.target at_
  | .reopen => .reopened req.agentId req.target

/-- What the commit of a plan does of the three. -/
def eventOf (op : Op) (plan : Planned Response) : Option Event :=
  match op, plan with
  | .submitAdjudication handleId _ _ _, .write _ (.resolve _) _ => some (.applied handleId)
  | .assertValidity req _ _, .write _ _ _ => some (hostEvent req)
  | _, _ => none

/-- An event, and how many had been committed when the call that commits it read. -/
structure Commit where
  event : Event
  readAt : ℕ
  deriving DecidableEq

/-- The call that a handle is in; its own lock lets in one at a time. -/
inductive Phase where
  | idle
  /-- Its read phase saw the store `seen`, and it may hold the advisory lock. -/
  | called (op : Op) (seen : Store) (readAt : ℕ) (locked : Bool)
  | committed (after : AfterCommit)

def Phase.holdsLock : Phase → Bool
  | .called _ _ _ locked => locked
  | _ => false

structure State where
  store : Store
  phase : Handle → Phase
  log : List Commit

def State.start (ties : StampedLog.TieOrder LedgerEntry) : State :=
  ⟨.empty ties, fun _ => .idle, []⟩

def State.New (s : State) : Prop := ∃ ties, s = .start ties

def State.move (s : State) (h : Handle) (phase : Phase) : State :=
  { s with phase := Function.update s.phase h phase }

inductive Action where
  | read (h : Handle) (op : Op)
  | beginAtomic (h : Handle)
  | commit (h : Handle)
  /-- The call returns without a commit: an answer of its read phase, a failed begin, a
      rollback. -/
  | giveUp (h : Handle)
  /-- The pending-store call after the commit, and the return. -/
  | finish (h : Handle) (faults : Faults)

variable (eng : Handle → Engine)

def plan (h : Handle) (op : Op) (seen : Store) : Planned Response := planOf (eng h) seen op

/-- The commit of a call: the appends planned on the store it saw. -/
def State.commit (s : State) (h : Handle) (op : Op) (seen : Store) (readAt : ℕ) : State where
  store := writeAll s.store (appendsOf (plan eng h op seen))
  phase := Function.update s.phase h (.committed (afterOf (plan eng h op seen)))
  log := s.log ++ (eventOf op (plan eng h op seen)).toList.map (⟨·, readAt⟩)

def step (s : State) : Action → Option State
  | .read h op =>
    match s.phase h with
    | .idle => some (s.move h (.called op s.store s.log.length false))
    | _ => none
  | .beginAtomic h =>
    match s.phase h with
    | .called op seen readAt false =>
      match plan eng h op seen with
      | .answered _ => none
      | .write _ _ _ =>
        if (s.phase h.other).holdsLock then none
        else some (s.move h (.called op seen readAt true))
    | _ => none
  | .commit h =>
    match s.phase h with
    | .called op seen readAt true =>
      if Supplied s.store op then some (s.commit eng h op seen readAt) else none
    | _ => none
  | .giveUp h =>
    match s.phase h with
    | .called _ _ _ _ => some (s.move h .idle)
    | _ => none
  | .finish h faults =>
    match s.phase h with
    | .committed after =>
      some { s.move h .idle with
        store := (Planned.finish faults s.store (.ok ()) after).2 }
    | _ => none

def replay (s : State) (actions : List Action) : Option State := actions.foldlM (step eng) s

/-- A call that nothing interrupts. -/
def call (h : Handle) (op : Op) : List Action :=
  [.read h op, .beginAtomic h, .commit h, .finish h .none]

end System

section Inversion

variable {eng : Handle → Engine} {s s' : State}

/-- What an action can do, with its guards. -/
inductive Moves (eng : Handle → Engine) (s : State) : Action → State → Prop where
  | read {h : Handle} {op : Op} (hphase : s.phase h = .idle) :
      Moves eng s (.read h op) (s.move h (.called op s.store s.log.length false))
  | beginAtomic {h : Handle} {op : Op} {seen : Store} {readAt : ℕ}
      (hphase : s.phase h = .called op seen readAt false)
      (hfree : (s.phase h.other).holdsLock = false) :
      Moves eng s (.beginAtomic h) (s.move h (.called op seen readAt true))
  | commit {h : Handle} {op : Op} {seen : Store} {readAt : ℕ}
      (hphase : s.phase h = .called op seen readAt true) (hsup : Supplied s.store op) :
      Moves eng s (.commit h) (s.commit eng h op seen readAt)
  | giveUp {h : Handle} {op : Op} {seen : Store} {readAt : ℕ} {locked : Bool}
      (hphase : s.phase h = .called op seen readAt locked) :
      Moves eng s (.giveUp h) (s.move h .idle)
  | finish {h : Handle} {after : AfterCommit} {faults : Faults}
      (hphase : s.phase h = .committed after) :
      Moves eng s (.finish h faults)
        { s.move h .idle with
          store := (Planned.finish faults s.store (.ok ()) after).2 }

theorem moves_of_step {a : Action} (hstep : step eng s a = some s') : Moves eng s a s' := by
  cases a with
  | read h op =>
    simp only [step] at hstep
    split at hstep
    · cases hstep
      exact .read ‹_›
    · cases hstep
  | beginAtomic h =>
    simp only [step] at hstep
    split at hstep
    · split at hstep
      · cases hstep
      · split_ifs at hstep with hlock
        cases hstep
        exact .beginAtomic ‹_› (Bool.eq_false_iff.mpr hlock)
    · cases hstep
  | commit h =>
    simp only [step] at hstep
    split at hstep
    · split_ifs at hstep with hsup
      cases hstep
      exact .commit ‹_› hsup
    · cases hstep
  | giveUp h =>
    simp only [step] at hstep
    split at hstep
    · cases hstep
      exact .giveUp ‹_›
    · cases hstep
  | finish h faults =>
    simp only [step] at hstep
    split at hstep
    · cases hstep
      exact .finish ‹_›
    · cases hstep

end Inversion

end Mempill.ConcurrentHandles
