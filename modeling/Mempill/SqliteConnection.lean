import Mempill.Lib.Transition
import Mempill.WritePhases

set_option autoImplicit false

/-!
# SQLite connection

The one connection of a SQLite store, between the slot it rests in and the transaction
that takes it.
-/
namespace Mempill.SqliteConnection
open Mempill.Types Mempill.Persistence Mempill.IngestClaim Mempill.WritePhases Mempill.Engine
open Transition

section Model

/-- What a statement of the driver fails with, if it does. -/
abbrev Outcome := Option String

structure Connection where
  committed : Store
  /-- The rows as the open transaction sees them. -/
  staged : Option Store

structure SqliteTxn where
  agentId : AgentId
  conn : Connection

/-- The slot of the store, the transaction value that its caller holds, and the rows that
    have been committed. -/
structure State where
  slot : Option Connection
  txn : Option SqliteTxn
  durable : Store

def executeBatch (outcome : Outcome) : Except StoreError Unit :=
  match outcome with
  | some reason => .error (.driver reason)
  | none => .ok ()

/-- Owns the connection, and drops it where `BEGIN DEFERRED` fails. -/
def SqliteTxn.begin (agentId : AgentId) (conn : Connection) (outcome : Outcome) :
    Except StoreError SqliteTxn := do
  executeBatch outcome
  return ⟨agentId, { conn with staged := some conn.committed }⟩

/-- Owns the transaction, and drops its connection where `COMMIT` fails. -/
def SqliteTxn.commitAndReturn (txn : SqliteTxn) (outcome : Outcome) :
    Except StoreError Connection := do
  executeBatch outcome
  return ⟨txn.conn.staged.getD txn.conn.committed, none⟩

def SqliteTxn.rollbackAndReturn (txn : SqliteTxn) (outcome : Outcome) :
    Except StoreError Connection := do
  executeBatch outcome
  return { txn.conn with staged := none }

def beginAtomic (s : State) (agentId : AgentId) (outcome : Outcome) :
    Except StoreError Unit × State :=
  match s.slot with
  | none => (.error .txnAlreadyOpen, s)
  | some conn =>
    match SqliteTxn.begin agentId conn outcome with
    | .error e => (.error e, { s with slot := none })
    | .ok txn => (.ok (), { s with slot := none, txn := some txn })

/-- Any of the appends: it borrows the transaction. -/
def append (s : State) (txn : SqliteTxn) (row : Append) (outcome : Outcome) :
    Except StoreError Unit × State :=
  match executeBatch outcome with
  | .error e => (.error e, s)
  | .ok _ =>
    (.ok (), { s with txn := some { txn with conn :=
      { txn.conn with staged := txn.conn.staged.map row.write } } })

def commit (s : State) (txn : SqliteTxn) (outcome : Outcome) : Except StoreError Unit × State :=
  match txn.commitAndReturn outcome with
  | .error e => (.error e, { s with txn := none })
  | .ok conn => (.ok (), { slot := some conn, txn := none, durable := conn.committed })

def rollback (s : State) (txn : SqliteTxn) (outcome : Outcome) :
    Except StoreError Unit × State :=
  match txn.rollbackAndReturn outcome with
  | .error e => (.error e, { s with txn := none })
  | .ok conn => (.ok (), { s with slot := some conn, txn := none })

/-- Any of the reads. -/
def read {α : Type} (s : State) (query : Store → α) : Except StoreError α :=
  match s.slot with
  | none => .error .txnAlreadyOpen
  | some conn => .ok (query conn.committed)

end Model

section System

inductive Call where
  | beginAtomic (agentId : AgentId) (outcome : Outcome)
  | append (row : Append) (outcome : Outcome)
  | commit (outcome : Outcome)
  | rollback (outcome : Outcome)
  /-- The caller drops the transaction value. -/
  | dropTxn

/-- All but the first need a transaction value, and the last three consume it. -/
inductive Moves : State → Call → State → Prop where
  | beginAtomic {s : State} (agentId : AgentId) (outcome : Outcome) :
      Moves s (.beginAtomic agentId outcome) (beginAtomic s agentId outcome).2
  | append {s : State} {txn : SqliteTxn} (h : s.txn = some txn) (row : Append)
      (outcome : Outcome) : Moves s (.append row outcome) (append s txn row outcome).2
  | commit {s : State} {txn : SqliteTxn} (h : s.txn = some txn) (outcome : Outcome) :
      Moves s (.commit outcome) (commit s txn outcome).2
  | rollback {s : State} {txn : SqliteTxn} (h : s.txn = some txn) (outcome : Outcome) :
      Moves s (.rollback outcome) (rollback s txn outcome).2
  | dropTxn {s : State} {txn : SqliteTxn} (h : s.txn = some txn) :
      Moves s .dropTxn { s with txn := none }

/-- A store that has just been given its connection. -/
def opened (σ : Store) : State := ⟨some ⟨σ, none⟩, none, σ⟩

/-- With no transaction value alive, a transaction can be begun and every read sees the
    committed rows. -/
def Survives (s : State) : Prop :=
  s.txn = none → (∀ agentId outcome, (beginAtomic s agentId outcome).1 ≠ .error .txnAlreadyOpen) ∧
    ∀ (α : Type) (query : Store → α), read s query = .ok (query s.durable)

/-- `BEGIN`, `COMMIT` and `ROLLBACK` succeed where they are executed, and no transaction
    value is dropped. -/
def Clean (s : State) : Call → Prop
  | .beginAtomic _ outcome => s.slot.isSome → outcome = none
  | .append _ _ => True
  | .commit outcome => outcome = none
  | .rollback outcome => outcome = none
  | .dropTxn => False

end System

section Step

variable {s t : State} {call : Call}

/-- The connection is in the slot, or with the transaction value. -/
inductive Holds : State → Prop where
  | resting (σ : Store) : Holds ⟨some ⟨σ, none⟩, none, σ⟩
  | taken (agentId : AgentId) (σ staged : Store) :
      Holds ⟨none, some ⟨agentId, ⟨σ, some staged⟩⟩, σ⟩

/-- The connection is dropped. -/
def Lost (s : State) : Prop := s.slot = none ∧ s.txn = none

theorem survives_of_holds (h : Holds s) : Survives s := by
  intro hnone
  cases h with
  | resting σ =>
    refine ⟨fun agentId outcome => ?_, fun _ _ => rfl⟩
    cases outcome with
    | none => exact fun h => nomatch h
    | some reason => exact fun h => nomatch h
  | taken _ _ _ => cases hnone

theorem not_survives_of_lost (h : Lost s) : ¬ Survives s := by
  intro hs
  have hread := (hs h.2).2 Store id
  simp [read, h.1] at hread

theorem lost_of_moves (h : Lost s) (hm : Moves s call t) : Lost t := by
  obtain ⟨hslot, htxn⟩ := h
  cases hm with
  | beginAtomic agentId outcome =>
    rw [beginAtomic, hslot]
    exact ⟨hslot, htxn⟩
  | append h _ _ | commit h _ | rollback h _ | dropTxn h =>
    rw [htxn] at h
    cases h

/-- A clean call keeps the connection, any other loses it. -/
theorem moves_cases (h : Holds s) (hm : Moves s call t) :
    (Clean s call ∧ Holds t) ∨ (¬ Clean s call ∧ Lost t) := by
  cases hm with
  | beginAtomic agentId outcome =>
    cases h with
    | resting σ =>
      cases outcome with
      | none => exact .inl ⟨fun _ => rfl, .taken agentId σ σ⟩
      | some reason => exact .inr ⟨fun hc => by simpa using hc rfl, rfl, rfl⟩
    | taken agentId' σ staged => exact .inl ⟨fun hs => by simp at hs, .taken agentId' σ staged⟩
  | append htxn row outcome =>
    cases h with
    | resting σ => cases htxn
    | taken agentId σ staged =>
      cases htxn
      cases outcome with
      | none => exact .inl ⟨trivial, .taken agentId σ (row.write staged)⟩
      | some reason => exact .inl ⟨trivial, .taken agentId σ staged⟩
  | commit htxn outcome =>
    cases h with
    | resting σ => cases htxn
    | taken agentId σ staged =>
      cases htxn
      cases outcome with
      | none => exact .inl ⟨rfl, .resting staged⟩
      | some reason => exact .inr ⟨fun hc => Option.some_ne_none reason hc, rfl, rfl⟩
  | rollback htxn outcome =>
    cases h with
    | resting σ => cases htxn
    | taken agentId σ staged =>
      cases htxn
      cases outcome with
      | none => exact .inl ⟨rfl, .resting σ⟩
      | some reason => exact .inr ⟨fun hc => Option.some_ne_none reason hc, rfl, rfl⟩
  | dropTxn htxn =>
    cases h with
    | resting σ => cases htxn
    | taken agentId σ staged => exact .inr ⟨id, rfl, rfl⟩

end Step

section Main

variable {s t : State} {calls : List Call}

theorem holds_of_clean_run (h : Run (Restrict Moves Clean) s calls t) (hs : Holds s) : Holds t :=
  h.preserves hs fun _ _ _ hold hm => by
    rcases moves_cases hold hm.2 with ⟨_, hold'⟩ | ⟨hdirty, _⟩
    · exact hold'
    · exact absurd hm.1 hdirty

/-- A run keeps the connection if all its calls are clean, and has lost it otherwise. -/
theorem run_cases (h : Run Moves s calls t) (hs : Holds s) :
    (Run (Restrict Moves Clean) s calls t ∧ Holds t) ∨
      (¬ Run (Restrict Moves Clean) s calls t ∧ Lost t) := by
  induction h with
  | nil s => exact .inl ⟨.nil s, hs⟩
  | @cons s u t call calls hm hrun ih =>
    rcases moves_cases hs hm with ⟨hclean, hu⟩ | ⟨hdirty, hlost⟩
    · rcases ih hu with ⟨hrest, ht⟩ | ⟨hrest, ht⟩
      · exact .inl ⟨.cons ⟨hclean, hm⟩ hrest, ht⟩
      · refine .inr ⟨fun hclean' => not_survives_of_lost ht (survives_of_holds ?_), ht⟩
        exact holds_of_clean_run hclean' hs
    · have hend : Lost t := hrun.preserves hlost fun _ _ _ h hm => lost_of_moves h hm
      exact .inr ⟨fun hclean' => not_survives_of_lost hend
        (survives_of_holds (holds_of_clean_run hclean' hs)), hend⟩

/-- The store outlives a run of its calls exactly if each of them is clean. -/
theorem connection_survives_iff (σ : Store) (h : Run Moves (opened σ) calls t) :
    Survives t ↔ Run (Restrict Moves Clean) (opened σ) calls t := by
  rcases run_cases h (.resting σ) with ⟨hclean, hold⟩ | ⟨hdirty, hlost⟩
  · exact iff_of_true (survives_of_holds hold) hclean
  · exact iff_of_false (not_survives_of_lost hlost) hdirty

def paris : Claim := stamp (remember "Paris" none) ⟨1⟩ 10

def berlin : Claim := stamp (remember "Berlin" none) ⟨2⟩ 20

/-- One claim is committed. -/
def stored : List Call :=
  [.beginAtomic agent none, .append (.claim paris) none, .commit none]

/-- An append of the next transaction fails, and the transaction is rolled back. -/
def rolledBack : List Call :=
  stored ++ [.beginAtomic agent none, .append (.claim berlin) none,
    .append (.claim berlin) (some "UNIQUE constraint failed"), .rollback none]

theorem run_rolledBack :
    Run Moves (opened .sqlite) rolledBack (opened (appendClaim .sqlite paris)) :=
  .cons (.beginAtomic agent none) (.cons (.append rfl (.claim paris) none)
    (.cons (.commit rfl none) (.cons (.beginAtomic agent none)
      (.cons (.append rfl (.claim berlin) none) (.cons (.append rfl (.claim berlin) _)
        (.cons (.rollback rfl none) (.nil _)))))))

theorem stored_survives : Survives (opened (appendClaim .sqlite paris)) :=
  (connection_survives_iff .sqlite run_rolledBack).mpr
    (.cons ⟨fun _ => rfl, .beginAtomic agent none⟩
      (.cons ⟨trivial, .append rfl (.claim paris) none⟩
        (.cons ⟨rfl, .commit rfl none⟩ (.cons ⟨fun _ => rfl, .beginAtomic agent none⟩
          (.cons ⟨trivial, .append rfl (.claim berlin) none⟩
            (.cons ⟨trivial, .append rfl (.claim berlin) _⟩
              (.cons ⟨rfl, .rollback rfl none⟩ (.nil _))))))))

/-- Another process holds the file when the next transaction begins, or when it ends. -/
theorem busy_store_is_lost :
    (∃ s, Run Moves (opened .sqlite)
      (stored ++ [.beginAtomic agent (some "database is locked")]) s ∧
        s.txn = none ∧ s.durable.claims = [paris] ∧
        read s (·.claims) = .error .txnAlreadyOpen ∧
        (beginAtomic s agent none).1 = .error .txnAlreadyOpen) ∧
      ∃ s, Run Moves (opened .sqlite)
          (stored ++ [.beginAtomic agent none, .commit (some "database is locked")]) s ∧
        ¬ Survives s := by
  constructor
  · refine ⟨_, .cons (.beginAtomic agent none) (.cons (.append rfl (.claim paris) none)
      (.cons (.commit rfl none) (.cons (.beginAtomic agent _) (.nil _)))), rfl, rfl, rfl, rfl⟩
  · refine ⟨_, .cons (.beginAtomic agent none) (.cons (.append rfl (.claim paris) none)
      (.cons (.commit rfl none) (.cons (.beginAtomic agent none)
        (.cons (.commit rfl _) (.nil _))))), not_survives_of_lost ⟨rfl, rfl⟩⟩

end Main

end Mempill.SqliteConnection
