import Mempill.Types
import Mempill.Lib.Transactions

set_option autoImplicit false

/-!
# Ledger sequence

The `stream_seq` column of the Postgres ledger: numbers that each transaction takes from the
rows it sees, under the advisory lock of its agent, while transactions of other agents are open.
-/
namespace Mempill.LedgerSequence
open Mempill.Types Transactions Transition

section Rows

structure LedgerRow where
  entry : LedgerEntry
  streamSeq : ℕ
  deriving DecidableEq

inductive PostgresStoreError where
  /-- `UNIQUE (agent_id, stream_seq)`. -/
  | uniqueViolation (streamSeq : ℕ)
  | other (reason : String)
  deriving DecidableEq

/-- `COALESCE(MAX(stream_seq), 0) + 1` over the rows of one agent. -/
def nextStreamSeq (rows : List LedgerRow) : ℕ := ((rows.map (·.streamSeq)).max?.getD 0) + 1

/-- On the rows of one agent that the transaction sees, its own among them. -/
def appendLedgerEntry (entry : LedgerEntry) (rows : List LedgerRow) :
    Except PostgresStoreError (List LedgerRow) :=
  let streamSeq := nextStreamSeq rows
  if streamSeq ∈ rows.map (·.streamSeq) then .error (.uniqueViolation streamSeq)
  else .ok (rows ++ [⟨entry, streamSeq⟩])

/-- The rows of entries that are numbered from one on. -/
def numbered (entries : List LedgerEntry) : List LedgerRow :=
  (entries.zipIdx 1).map fun (entry, streamSeq) => ⟨entry, streamSeq⟩

theorem numbered_concat (entries : List LedgerEntry) (entry : LedgerEntry) :
    numbered (entries ++ [entry]) = numbered entries ++ [⟨entry, entries.length + 1⟩] := by
  rw [numbered, List.zipIdx_append, List.map_append, Nat.add_comm]
  rfl

theorem streamSeq_numbered (entries : List LedgerEntry) :
    (numbered entries).map (·.streamSeq) = List.range' 1 entries.length := by
  rw [numbered, List.map_map]
  exact List.zipIdx_map_snd 1 entries

theorem nextStreamSeq_numbered (entries : List LedgerEntry) :
    nextStreamSeq (numbered entries) = entries.length + 1 := by
  rw [nextStreamSeq, streamSeq_numbered]
  cases hmax : (List.range' 1 entries.length).max? with
  | none =>
    rw [List.max?_eq_none_iff, List.range'_eq_nil_iff] at hmax
    rw [hmax]
    rfl
  | some n =>
    obtain ⟨hmem, hle⟩ := List.max?_eq_some_iff.mp hmax
    have hn := List.mem_range'_1.mp hmem
    have hlast := hle entries.length (List.mem_range'_1.mpr (by omega))
    change n + 1 = entries.length + 1
    omega

/-- The next number is free. -/
theorem append_numbered (entries : List LedgerEntry) (entry : LedgerEntry) :
    appendLedgerEntry entry (numbered entries) = .ok (numbered (entries ++ [entry])) := by
  have hfree : entries.length + 1 ∉ (numbered entries).map (·.streamSeq) := fun hmem => by
    rw [streamSeq_numbered, List.mem_range'_1] at hmem
    omega
  rw [appendLedgerEntry, nextStreamSeq_numbered, if_neg hfree, numbered_concat]

theorem appendAll_numbered (entries batch : List LedgerEntry) :
    runAll appendLedgerEntry batch (numbered entries) = .ok (numbered (entries ++ batch)) := by
  induction batch generalizing entries with
  | nil => rw [List.append_nil]; rfl
  | cons entry rest ih =>
    rw [runAll_cons, append_numbered]
    change runAll appendLedgerEntry rest (numbered (entries ++ [entry])) = _
    rw [ih, List.append_assoc]
    rfl

end Rows

section Transactions

/-- A call appends its entries in one transaction, and does not try again. -/
def ledgerProtocol : Protocol (List LedgerRow) LedgerEntry PostgresStoreError where
  exec := appendLedgerEntry
  offered program := ∃ batch, program = fun _ => batch
  busy _ := false
  attempts := 1

/-- The rows of each agent with the transactions that hold its lock or wait for it. -/
abbrev Ledger := AgentId → State (List LedgerRow) LedgerEntry PostgresStoreError

abbrev LedgerLabel := AgentId × Label (List LedgerRow) LedgerEntry PostgresStoreError

abbrev Step : Ledger → LedgerLabel → Ledger → Prop :=
  FamilyStep ledgerProtocol fun _ _ => False

def Ledger.empty : Ledger := fun _ => ⟨[], []⟩

/-- The entries that a client has brought in. -/
def batchOf (client : Client (List LedgerRow) LedgerEntry PostgresStoreError) :
    Option (List LedgerEntry) :=
  client.done.map fun program => program []

theorem numbered_of_serial {rows : List LedgerRow}
    {programs : List (Program (List LedgerRow) LedgerEntry)}
    (h : ledgerProtocol.Serial [] programs rows) :
    rows = numbered (programs.map fun program => program []).flatten := by
  induction h with
  | nil => rfl
  | concat _ hruns ih =>
    obtain ⟨⟨batch, rfl⟩, hrun⟩ := hruns
    rw [ih] at hrun
    change runAll appendLedgerEntry batch _ = _ at hrun
    rw [appendAll_numbered] at hrun
    injection hrun with hrun
    rw [← hrun, List.map_append, List.flatten_append, List.map_singleton, List.flatten_singleton]

theorem prefix_of_append {entry : LedgerEntry} {rows rows' : List LedgerRow}
    (h : appendLedgerEntry entry rows = .ok rows') : rows <+: rows' := by
  rw [appendLedgerEntry] at h
  split_ifs at h
  injection h with h
  exact h ▸ List.prefix_append rows _

/-- In whatever order the transactions of all agents are interleaved, and whichever fail, the
    rows of an agent are the entries of its committed calls, each call's together and in its
    order, numbered from one on without a gap. No append meets a number that is taken, and a
    row keeps its number. -/
theorem stream_seq_numbers_commits {F : Ledger} (h : Reach (· = Ledger.empty) Step F)
    (agentId : AgentId) :
    (∃ batches : List (List LedgerEntry), batches.Perm ((F agentId).clients.filterMap batchOf) ∧
      (F agentId).committed = numbered batches.flatten) ∧
    (∀ (i n : ℕ) program staged entry rest,
      (F agentId).clients[i]? = some (Client.running n program staged (entry :: rest)) →
        ∃ staged', appendLedgerEntry entry staged = .ok staged') ∧
    ∀ labels F', Run Step F labels F' → (F agentId).committed <+: (F' agentId).committed := by
  have hreached := reached_at h agentId
  have hinv := inv_of_reached le_rfl hreached
  obtain ⟨programs, hperm, hserial⟩ := serial_of_reached le_rfl hreached
  have hrows := numbered_of_serial hserial
  refine ⟨⟨programs.map fun program => program [], ?_, hrows⟩, ?_, fun labels F' hrun => ?_⟩
  · rw [show batchOf = fun client => client.done.map fun program => program [] from rfl,
      ← List.map_filterMap]
    exact hperm.map _
  · intro i n program staged entry rest hget
    refine exec_ok_of_running hinv (fun program hoffered => ?_) hget
    obtain ⟨batch, rfl⟩ := hoffered
    exact ⟨_, by rw [hrows]; exact appendAll_numbered _ batch⟩
  · refine related_of_run (R := fun rows rows' => rows <+: rows') le_rfl
      (fun rows => List.prefix_rfl) (fun _ _ _ => List.IsPrefix.trans) (fun _ _ hfalse => ?_)
      (fun _ _ _ hruns => ?_) hinv (run_at hrun agentId)
    · cases hfalse
    · exact runAll_preserves (fun rows => List.prefix_rfl) (fun _ _ _ => List.IsPrefix.trans)
        (fun _ _ _ _ => prefix_of_append) hruns.2

def note (agentId : AgentId) (claimRef : ClaimRef) : LedgerEntry where
  agentId := agentId
  claimRef := claimRef
  eventKind := .claimCommitted
  disposition := .committedCheap
  rationale := none
  recordedAt := 0

def call (agentId : AgentId) (claimRef : ClaimRef) : LedgerLabel :=
  (agentId, .join fun _ => [note agentId claimRef])

/-- Two calls of one agent around the open transaction of another; the call that came second
    has the lock first. -/
def interleaved (a b : AgentId) : List LedgerLabel :=
  [call a ⟨1⟩, call a ⟨2⟩, call b ⟨3⟩, (b, .begin 0), (a, .begin 1), (b, .exec 0), (a, .exec 1),
    (a, .commit 1), (a, .begin 0), (a, .exec 0), (a, .commit 0)]

theorem interleaved_numbered : ∃ F : Ledger, Reach (· = Ledger.empty) Step F ∧
    ((F ⟨"a"⟩).committed.map (·.entry.claimRef)) = [⟨2⟩, ⟨1⟩] ∧
    ∃ batches : List (List LedgerEntry), (F ⟨"a"⟩).committed = numbered batches.flatten := by
  have hplay : ((ledgerProtocol.playAt (interleaved ⟨"a"⟩ ⟨"b"⟩) Ledger.empty).any fun F =>
      decide ((F ⟨"a"⟩).committed.map (·.entry.claimRef) = [⟨2⟩, ⟨1⟩])) = true := by
    decide +kernel
  obtain ⟨F, hF, hp⟩ := (Option.any_eq_true _ _).mp hplay
  have hoffered : ∀ label ∈ interleaved ⟨"a"⟩ ⟨"b"⟩, label.2.Offered ledgerProtocol := by
    simp only [interleaved, List.forall_mem_cons]
    exact ⟨⟨_, rfl⟩, ⟨_, rfl⟩, ⟨_, rfl⟩, trivial, trivial, trivial, trivial, trivial, trivial,
      trivial, trivial, List.forall_mem_nil _⟩
  have hrun : Run Step Ledger.empty (interleaved ⟨"a"⟩ ⟨"b"⟩) F := run_of_playAt hF hoffered
  have hreach : Reach (· = Ledger.empty) Step F := hrun.reach (.init rfl)
  obtain ⟨batches, _, hrows⟩ := (stream_seq_numbers_commits hreach ⟨"a"⟩).1
  exact ⟨F, hreach, of_decide_eq_true hp, batches, hrows⟩

end Transactions

end Mempill.LedgerSequence
