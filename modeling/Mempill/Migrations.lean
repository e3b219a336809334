import Mempill.Lib.Ddl
import Mempill.Lib.Transactions
import Mathlib.Tactic.IntervalCases

set_option autoImplicit false

/-!
# Migrations

The schema of an agent's database file, its versions, and the opening of the file by any
number of handles at once.
-/
namespace Mempill.Migrations
open Ddl Transactions Transition

section Schema

def text (name : String) : Column := ⟨name, "TEXT", false, none⟩

def textNotNull (name : String) : Column := ⟨name, "TEXT", true, none⟩

def withDefault (name type default : String) : Column := ⟨name, type, true, some default⟩

def claims : TableSchema where
  name := "claims"
  columns := [textNotNull "claim_id", textNotNull "agent_id", textNotNull "subject",
    textNotNull "predicate", textNotNull "value", withDefault "cardinality" "TEXT" "'Unknown'",
    textNotNull "provenance_label", text "nearest_external_anchor_id",
    withDefault "derivation_depth" "INTEGER" "0", textNotNull "tx_time",
    text "valid_time_start", text "valid_time_end",
    withDefault "valid_time_confidence" "REAL" "0.0", withDefault "value_confidence" "REAL" "0.5",
    withDefault "criticality" "TEXT" "'Medium'", withDefault "derived_from" "TEXT" "'[]'",
    text "metadata", ⟨"snapshot_schema_version", "INTEGER", false, none⟩,
    text "embedding_model_id"]
  constraints := [.primaryKey ["claim_id"]]

def validityAssertions : TableSchema where
  name := "validity_assertions"
  columns := [textNotNull "assertion_id", textNotNull "agent_id", textNotNull "target_claim_id",
    textNotNull "assertion_kind", text "bound_at", text "reopen_at",
    textNotNull "provenance_label", withDefault "value_confidence" "REAL" "0.5",
    withDefault "valid_time_confidence" "REAL" "0.5", textNotNull "asserted_at"]
  constraints := [.primaryKey ["assertion_id"], .foreignKey "target_claim_id" "claims" "claim_id"]

def ledgerEntries : TableSchema where
  name := "ledger_entries"
  columns := [textNotNull "entry_id", textNotNull "agent_id", textNotNull "claim_id",
    textNotNull "event_kind", textNotNull "disposition", text "rationale",
    textNotNull "recorded_at"]
  constraints := [.primaryKey ["entry_id"], .foreignKey "claim_id" "claims" "claim_id"]

def claimEdges : TableSchema where
  name := "claim_edges"
  columns := [textNotNull "edge_id", textNotNull "agent_id", textNotNull "from_claim_id",
    textNotNull "to_claim_id", textNotNull "edge_kind", textNotNull "created_at"]
  constraints := [.primaryKey ["edge_id"], .foreignKey "from_claim_id" "claims" "claim_id",
    .foreignKey "to_claim_id" "claims" "claim_id",
    .unique ["agent_id", "from_claim_id", "to_claim_id", "edge_kind"]]

def v1InitialSql : List Statement :=
  [claims, validityAssertions, ledgerEntries, claimEdges].map .createTableIfNotExists

def structuralIndexes : List Index :=
  [⟨"idx_claims_subject_line", "claims",
      [("agent_id", false), ("subject", false), ("predicate", false), ("tx_time", true)], none⟩,
    ⟨"idx_validity_assertions_target", "validity_assertions",
      [("agent_id", false), ("target_claim_id", false), ("asserted_at", true)], none⟩,
    ⟨"idx_ledger_agent_time", "ledger_entries",
      [("agent_id", false), ("recorded_at", true)], none⟩,
    ⟨"idx_edges_from", "claim_edges",
      [("agent_id", false), ("from_claim_id", false), ("edge_kind", false)], none⟩,
    ⟨"idx_edges_to", "claim_edges",
      [("agent_id", false), ("to_claim_id", false), ("edge_kind", false)], none⟩,
    ⟨"idx_claims_provenance", "claims",
      [("agent_id", false), ("provenance_label", false), ("tx_time", true)], none⟩]

def indexesSql : List Statement := structuralIndexes.map .createIndexIfNotExists

def pendingAdjudications : TableSchema where
  name := "pending_adjudications"
  columns := [textNotNull "handle_id", textNotNull "agent_id", textNotNull "subject",
    textNotNull "predicate", textNotNull "challenger_claim_ref",
    textNotNull "incumbent_claim_ref", textNotNull "request_payload", textNotNull "queued_at",
    text "expires_at", withDefault "status" "TEXT" "'pending'"]
  constraints := [.primaryKey ["handle_id"]]

def pendingIndexes : List Index :=
  [⟨"idx_pending_adj_agent_id", "pending_adjudications", [("agent_id", false)], none⟩,
    ⟨"idx_pending_adj_expires_at", "pending_adjudications", [("expires_at", false)],
      some "expires_at IS NOT NULL AND status = 'pending'"⟩]

def v2PendingAdjudicationsSql : List Statement :=
  .createTableIfNotExists pendingAdjudications :: pendingIndexes.map .createIndexIfNotExists

def v3DateGranularitySql : List Statement :=
  [.addColumn "claims" (text "valid_time_start_granularity"),
    .addColumn "claims" (text "valid_time_end_granularity")]

def v4BoundGranularitySql : List Statement :=
  [.addColumn "validity_assertions" (text "bound_at_granularity")]

def applyV1 : List Statement := v1InitialSql ++ indexesSql ++ [.setUserVersion 1]

def applyV2 : List Statement := v2PendingAdjudicationsSql ++ [.setUserVersion 2]

def applyV3 : List Statement := v3DateGranularitySql ++ [.setUserVersion 3]

def applyV4 : List Statement := v4BoundGranularitySql ++ [.setUserVersion 4]

def currentSchemaVersion : ℕ := 4

/-- The statements of the transaction, from the version that it reads first. -/
def applyMigrations (current : ℕ) : List Statement :=
  (if current < 1 then applyV1 else []) ++ (if current < 2 then applyV2 else []) ++
    (if current < 3 then applyV3 else []) ++ if current < 4 then applyV4 else []

end Schema

section Opening

inductive ErrorCode where
  | databaseBusy
  | unknown
  | other (code : ℤ)
  deriving DecidableEq

inductive RusqliteError where
  | sqliteFailure (code : ErrorCode) (message : Option String)
  | other (text : String)
  deriving DecidableEq

inductive MigrationError where
  | sqlite (error : RusqliteError)
  deriving DecidableEq

/-- The members of `SqliteStoreError` that opening a file meets. -/
inductive OpenError where
  | sqlite (error : RusqliteError)
  | migration (error : MigrationError)
  | invalidAgentId (reason : String)
  deriving DecidableEq

def openMaxAttempts : ℕ := 10

def isSqliteBusy (err : OpenError) : Bool :=
  let inner := match err with
    | .sqlite e => some e
    | .migration (.sqlite e) => some e
    | _ => none
  match inner with
  | some (.sqliteFailure .databaseBusy _) => true
  | _ => false

inductive Cell where
  | text (value : String)
  | integer (value : ℤ)
  | real (value : String)
  deriving DecidableEq

variable (literal : String → Cell)

/-- `execute_batch`, a statement at a time. -/
def execute (statement : Statement) (db : Database Cell) : Except OpenError (Database Cell) :=
  match statement.exec literal db with
  | .ok db' => .ok db'
  | .error e => .error (.migration (.sqlite (.sqliteFailure .unknown (some e.message))))

/-- `open`: everything before the transaction is one wait, which a fault can end. -/
def openProtocol : Protocol (Database Cell) Statement OpenError where
  exec := execute literal
  offered program := program = fun db => applyMigrations db.version
  busy := isSqliteBusy
  attempts := openMaxAttempts

/-- The tables that no statement of the adapter updates or deletes from. -/
def AppendOnly (table : String) : Prop :=
  table ∈ ["claims", "validity_assertions", "ledger_entries", "claim_edges"]

/-- What the handles that are open do to the file. -/
def Writes (db db' : Database Cell) : Prop :=
  db'.schema = db.schema ∧ ∀ t ∈ db.tables, AppendOnly t.schema.name →
    ∃ u ∈ db'.tables, u.schema = t.schema ∧ t.rows <+: u.rows

def migrations : List (List Statement) := [applyV1, applyV2, applyV3, applyV4]

/-- The schema that the first migrations make of an empty file. -/
def HasSchema (version : ℕ) (S : Schema) : Prop :=
  runAll (fun statement S => statement.onSchema S) (migrations.take version).flatten .empty =
    .ok S

/-- A file as this release or an earlier one leaves it; nothing is said of later ones. -/
def Released (db : Database Cell) : Prop :=
  db.version ≤ currentSchemaVersion → HasSchema db.version db.schema

abbrev Reached (db₀ : Database Cell) :
    State (Database Cell) Statement OpenError → Prop :=
  (openProtocol literal).Reached Writes db₀

end Opening

section Scripts

variable {literal : String → Cell} {db db' : Database Cell}

theorem applyMigrations_eq {version : ℕ} (h : version ≤ currentSchemaVersion) :
    applyMigrations version = (migrations.drop version).flatten := by
  change version ≤ 4 at h
  interval_cases version <;> rfl

theorem applyMigrations_of_later {version : ℕ} (h : currentSchemaVersion < version) :
    applyMigrations version = [] := by
  change 4 < version at h
  rw [applyMigrations, if_neg (by omega), if_neg (by omega), if_neg (by omega),
    if_neg (by omega)]
  rfl

/-- The migrations in a row meet no error. -/
theorem exists_currentSchema : ∃ S, HasSchema currentSchemaVersion S ∧
    S.version = currentSchemaVersion := by
  have hversion : (runAll (fun statement S => statement.onSchema S)
      (migrations.take currentSchemaVersion).flatten Schema.empty).toOption.map Schema.version =
        some currentSchemaVersion := by
    decide +kernel
  obtain ⟨S, hS, hv⟩ := Option.map_eq_some_iff.mp hversion
  refine ⟨S, ?_, hv⟩
  rw [HasSchema]
  cases hrun : runAll (fun statement S => statement.onSchema S)
      (migrations.take currentSchemaVersion).flatten Schema.empty with
  | ok S' => rw [hrun] at hS; injection hS with hS; rw [hS]
  | error e => rw [hrun] at hS; cases hS

theorem HasSchema.unique {version : ℕ} {S S' : Schema} (h : HasSchema version S)
    (h' : HasSchema version S') : S = S' := by
  rw [HasSchema] at h h'
  rw [h] at h'
  injection h'

/-- What is left to do brings the schema of a version to the current one. -/
theorem HasSchema.migrate {version : ℕ} {S S' : Schema} (h : HasSchema version S)
    (hversion : version ≤ currentSchemaVersion) (h' : HasSchema currentSchemaVersion S') :
    runAll (fun statement S => statement.onSchema S) (applyMigrations version) S = .ok S' := by
  have hall : (migrations.take version).flatten ++ applyMigrations version =
      (migrations.take currentSchemaVersion).flatten := by
    rw [applyMigrations_eq hversion, ← List.flatten_append, List.take_append_drop]
    rfl
  rw [HasSchema, ← hall, runAll_append] at h'
  rw [HasSchema] at h
  rw [h] at h'
  exact h'

theorem execute_of_onSchema {statement : Statement} {S : Schema}
    (h : statement.onSchema db.schema = .ok S) :
    ∃ db', execute literal statement db = .ok db' ∧ db'.schema = S := by
  obtain ⟨db', hexec, hschema⟩ : ∃ db', statement.exec literal db = .ok db' ∧ db'.schema = S :=
    exec_of_onSchema h
  exact ⟨db', by rw [execute, hexec], hschema⟩

theorem runAll_of_onSchema {statements : List Statement} {S : Schema}
    (h : runAll (fun statement S => statement.onSchema S) statements db.schema = .ok S) :
    ∃ db', runAll (execute literal) statements db = .ok db' ∧ db'.schema = S := by
  induction statements generalizing db with
  | nil =>
    injection h with h
    exact ⟨db, rfl, h⟩
  | cons statement rest ih =>
    rw [runAll_cons] at h
    cases hstep : statement.onSchema db.schema with
    | error e => rw [hstep] at h; cases h
    | ok S₁ =>
      rw [hstep] at h
      obtain ⟨db₁, hexec, hschema⟩ : ∃ db₁, execute literal statement db = .ok db₁ ∧
          db₁.schema = S₁ := execute_of_onSchema hstep
      change runAll _ rest S₁ = .ok S at h
      rw [← hschema] at h
      obtain ⟨db', hrun, hS⟩ := ih h
      exact ⟨db', by rw [runAll_cons, hexec]; exact hrun, hS⟩

/-- The transaction of a file that is not newer succeeds, and leaves the current schema. -/
theorem migrated_of_released (h : Released db) (hversion : db.version ≤ currentSchemaVersion) :
    ∃ db', runAll (execute literal) (applyMigrations db.version) db = .ok db' ∧
      HasSchema currentSchemaVersion db'.schema ∧ db'.version = currentSchemaVersion := by
  obtain ⟨S, hS, hv⟩ := exists_currentSchema
  obtain ⟨db', hrun, hschema⟩ :
      ∃ db', runAll (execute literal) (applyMigrations db.version) db = .ok db' ∧ db'.schema = S :=
    runAll_of_onSchema ((h hversion).migrate hversion hS)
  refine ⟨db', hrun, by rwa [hschema], ?_⟩
  change db'.schema.version = _
  rw [hschema, hv]

theorem exists_migrated (h : Released db) :
    ∃ db', runAll (execute literal) (applyMigrations db.version) db = .ok db' := by
  by_cases hversion : db.version ≤ currentSchemaVersion
  · exact (migrated_of_released h hversion).imp fun _ hrun => hrun.1
  · exact ⟨db, by rw [applyMigrations_of_later (by omega)]; rfl⟩

theorem migrated_cases (h : Released db)
    (hrun : runAll (execute literal) (applyMigrations db.version) db = .ok db') :
    (db.version ≤ currentSchemaVersion ∧ HasSchema currentSchemaVersion db'.schema ∧
      db'.version = currentSchemaVersion) ∨
    currentSchemaVersion < db.version ∧ db' = db := by
  by_cases hversion : db.version ≤ currentSchemaVersion
  · obtain ⟨db'', hrun', hdone⟩ : ∃ db'', runAll (execute literal) (applyMigrations db.version) db =
        .ok db'' ∧ HasSchema currentSchemaVersion db''.schema ∧
          db''.version = currentSchemaVersion := migrated_of_released h hversion
    rw [hrun] at hrun'
    injection hrun' with heq
    exact .inl ⟨hversion, heq ▸ hdone⟩
  · rw [applyMigrations_of_later (by omega)] at hrun
    injection hrun with heq
    exact .inr ⟨by omega, heq.symm⟩

theorem released_of_migrated (h : Released db)
    (hrun : runAll (execute literal) (applyMigrations db.version) db = .ok db') :
    Released db' := by
  rcases migrated_cases h hrun with ⟨_, hschema, hv⟩ | ⟨_, rfl⟩
  · intro _
    rwa [hv]
  · exact h

theorem released_of_writes (h : Released db) (hw : Writes db db') : Released db' := by
  have hv : db'.version = db.version := congrArg Schema.version hw.1
  intro hversion
  rw [hv] at hversion ⊢
  rw [hw.1]
  exact h hversion

theorem keeps_of_writes (hw : Writes db db') : db.Keeps AppendOnly db' := by
  intro t ht hkind
  obtain ⟨u, hu, hschema, more, hrows⟩ := hw.2 t ht hkind
  refine ⟨u, hu, by rw [hschema], more.map (cellNamed t.schema.columns), ?_⟩
  rw [Table.readings, Table.readings, hschema, ← hrows, List.map_append]

theorem addsNull_of_mem {version : ℕ} {statement : Statement}
    (h : statement ∈ applyMigrations version) : statement.AddsNull := by
  have hall : ∀ step ∈ migrations, ∀ statement ∈ step, statement.AddsNull := by decide
  by_cases hversion : version ≤ currentSchemaVersion
  · rw [applyMigrations_eq hversion] at h
    obtain ⟨step, hstep, hmem⟩ := List.mem_flatten.mp h
    exact hall step (List.mem_of_mem_drop hstep) statement hmem
  · rw [applyMigrations_of_later (by omega)] at h
    cases h

theorem keeps_of_migrated {version : ℕ}
    (hrun : runAll (execute literal) (applyMigrations version) db = .ok db') :
    db.Keeps AppendOnly db' := by
  refine runAll_preserves (fun d => .refl d) (fun d e f => .trans) (fun statement hmem d e h => ?_)
    hrun
  rw [execute] at h
  split at h
  · rename_i hexec
    injection h with h
    exact exec_keeps (addsNull_of_mem hmem) (h ▸ hexec)
  · cases h

/-- A column that the schema of the file has once the statements before are done. -/
theorem refused_of_duplicate (before : List Statement) {version : ℕ} {rest : List Statement}
    {name : String} {column : Column} (hschema : HasSchema version db.schema)
    (hduplicate : (runAll (fun statement S => statement.onSchema S)
        ((migrations.take version).flatten ++ before) Schema.empty).toOption.any
      (fun S => (S.find name).any fun table => column.name ∈ table.columnNames) = true) :
    runAll (execute literal) (before ++ .addColumn name column :: rest) db =
      .error (.migration (.sqlite
        (.sqliteFailure .unknown (some ("duplicate column name: " ++ column.name))))) := by
  rw [HasSchema] at hschema
  rw [runAll_append, hschema] at hduplicate
  change (runAll _ before db.schema).toOption.any _ = true at hduplicate
  cases hbefore : runAll (fun statement S => statement.onSchema S) before db.schema with
  | error e => rw [hbefore] at hduplicate; cases hduplicate
  | ok S =>
    rw [hbefore] at hduplicate
    obtain ⟨db', hrun, rfl⟩ : ∃ db', runAll (execute literal) before db = .ok db' ∧
        db'.schema = S := runAll_of_onSchema hbefore
    change (db'.schema.find name).any _ = true at hduplicate
    obtain ⟨table, htable, hmem⟩ := (Option.any_eq_true _ _).mp hduplicate
    have hexec : (Statement.addColumn name column).exec literal db' = _ :=
      exec_of_duplicate htable (of_decide_eq_true hmem)
    rw [runAll_append, hrun]
    change runAll _ (_ :: rest) db' = _
    rw [runAll_cons, execute, hexec]
    rfl

/-- Why the version is read inside the transaction: on a file that another handle has migrated
    since, the statements chosen from an older version are refused. -/
theorem stale_migration_refused {version : ℕ} (hversion : version < currentSchemaVersion)
    (hdb : HasSchema currentSchemaVersion db.schema) :
    ∃ column, runAll (execute literal) (applyMigrations version) db =
      .error (.migration (.sqlite
        (.sqliteFailure .unknown (some ("duplicate column name: " ++ column))))) := by
  change version < 4 at hversion
  interval_cases version
  · exact ⟨_, refused_of_duplicate (applyV1 ++ applyV2) hdb (by decide +kernel)⟩
  · exact ⟨_, refused_of_duplicate applyV2 hdb (by decide +kernel)⟩
  · exact ⟨_, refused_of_duplicate [] hdb (by decide +kernel)⟩
  · exact ⟨_, refused_of_duplicate [] hdb (by decide +kernel)⟩

end Scripts

section Runs

variable {literal : String → Cell} {db₀ : Database Cell}
  {s s' : State (Database Cell) Statement OpenError}

theorem attempts_pos : 1 ≤ (openProtocol literal).attempts := Nat.succ_pos 9

/-- What a handle does to the file alone. -/
theorem migrated_of_runs {program : Program (Database Cell) Statement} {db db' : Database Cell}
    (h : (openProtocol literal).Runs program db db') :
    runAll (execute literal) (applyMigrations db.version) db = .ok db' := by
  obtain ⟨hprogram, hrun⟩ := h
  rw [hprogram] at hrun
  exact hrun

theorem succeeds_of_released {db : Database Cell} (h : Released db) :
    (openProtocol literal).Succeeds db := by
  intro program hprogram
  rw [hprogram]
  exact exists_migrated h

theorem lasting_released : Lasting (openProtocol literal) Writes Released :=
  ⟨fun _ _ => released_of_writes, fun _ _ _ hd hruns =>
    released_of_migrated hd (migrated_of_runs hruns)⟩

theorem version_of_writes {db db' : Database Cell} (h : Writes db db') :
    db'.version = db.version := congrArg Schema.version h.1

/-- No migration stops between two versions. -/
theorem lasting_version (db₀ : Database Cell) : Lasting (openProtocol literal) Writes fun db =>
    Released db ∧ (db.version = db₀.version ∨
      db₀.version < db.version ∧ db.version = currentSchemaVersion) where
  write d d' hd hw := ⟨released_of_writes hd.1 hw, by rw [version_of_writes hw]; exact hd.2⟩
  program _ d d' hd hruns := by
    have hrun := migrated_of_runs hruns
    refine ⟨released_of_migrated hd.1 hrun, ?_⟩
    rcases migrated_cases hd.1 hrun with ⟨hle, _, hv⟩ | ⟨_, rfl⟩
    · rcases hd.2 with hsame | ⟨hlt, hcurrent⟩ <;> omega
    · exact hd.2

/-- However many handles open the file at once, and wherever they are interrupted, the file has
    the schema of its version, and that is the one it had or the current one. A handle that is
    open has the current schema under it, and no statement of a migration is refused. -/
theorem file_keeps_to_its_version (hstart : Released db₀) (h : Reached literal db₀ s) :
    Released s.committed ∧
    (s.committed.version = db₀.version ∨
      db₀.version < s.committed.version ∧ s.committed.version = currentSchemaVersion) ∧
    (∀ client ∈ s.clients, client.isFinished = true →
      currentSchemaVersion ≤ s.committed.version) ∧
    ∀ (i n : ℕ) program staged statement rest,
      s.clients[i]? = some (Client.running n program staged (statement :: rest)) →
        ∃ staged', execute literal statement staged = .ok staged' := by
  obtain ⟨hreleased, hversion⟩ :=
    (lasting_version db₀).committed attempts_pos ⟨hstart, .inl rfl⟩ h
  refine ⟨hreleased, hversion, fun client hmem hfinished => ?_,
    fun i n program staged statement rest hget => ?_⟩
  · refine lasting_released.achieved (Q := fun db => currentSchemaVersion ≤ db.version)
      attempts_pos hstart (fun d d' hd hw => ?_) (fun _ d d' hd hruns => ?_) h hmem hfinished
    · rw [version_of_writes hw]
      exact hd
    · rcases migrated_cases hd (migrated_of_runs hruns) with ⟨_, _, hv⟩ | ⟨hlt, rfl⟩ <;> omega
  · exact exec_ok_of_running (inv_of_reached attempts_pos h) (succeeds_of_released hreleased) hget

def opener : Label (Database Cell) Statement OpenError :=
  .join fun db => applyMigrations db.version

def busy : OpenError := .sqlite (.sqliteFailure .databaseBusy none)

/-- Two handles meet on a new file, and the one that finds it busy first comes second. -/
def racingOpeners : List (Label (Database Cell) Statement OpenError) :=
  [opener, opener, .fault 0 busy, .begin 1] ++ List.replicate 20 (.exec 1) ++
    [.commit 1, .begin 0, .commit 0]

theorem released_empty : Released .empty := fun _ => rfl

theorem racing_openers_share : ∃ s, Reached .text .empty s ∧
    s.clients.length = 2 ∧ currentSchemaVersion ≤ s.committed.version := by
  obtain ⟨s, hs, hp⟩ := exists_reached (P := openProtocol .text) (W := Writes) .empty racingOpeners
    (by simp [racingOpeners, opener, Label.Offered, openProtocol])
    (fun s => decide (s.clients.length = 2) && s.clients.any Client.isFinished)
    (by decide +kernel)
  obtain ⟨hlength, hany⟩ := Bool.and_eq_true_iff.mp hp
  obtain ⟨client, hmem, hfinished⟩ := List.any_eq_true.mp hany
  exact ⟨s, hs, of_decide_eq_true hlength,
    (file_keeps_to_its_version released_empty hs).2.2.1 client hmem hfinished⟩

/-- The rows that the adapter only ever appends are still there after any number of openings
    and writes, in their order, and are read the same column by column. -/
theorem stored_rows_survive (h : Reached literal db₀ s)
    {labels : List (Label (Database Cell) Statement OpenError)}
    (hrun : Run ((openProtocol literal).Step Writes) s labels s') :
    ∀ t ∈ s.committed.tables, AppendOnly t.schema.name →
      ∃ u ∈ s'.committed.tables, u.schema.name = t.schema.name ∧
        ∃ more, u.readings = t.readings ++ more :=
  related_of_run (R := Database.Keeps AppendOnly) attempts_pos .refl (fun _ _ _ => .trans)
    (fun _ _ => keeps_of_writes) (fun _ _ _ hruns => keeps_of_migrated (migrated_of_runs hruns))
    (inv_of_reached attempts_pos h) hrun

/-- A file of version 2 with one claim. -/
def olderFile : Database Cell where
  tables := [{
      schema := claims
      rows := [[some (.text "c1"), some (.text "agent"), some (.text "alice"),
        some (.text "city"), some (.text "\"Paris\""), some (.text "Functional"),
        some (.text "External_UserAsserted"), none, some (.integer 0),
        some (.text "2024-01-01T00:00:00+00:00"), none, none, some (.real "0.0"),
        some (.real "1.0"), some (.text "Medium"), some (.text "[]"), none, none, none]]
      fits := by
        intro row hrow
        rw [List.mem_singleton.mp hrow]
        decide },
    .create validityAssertions, .create ledgerEntries, .create claimEdges,
    .create pendingAdjudications]
  indexes := structuralIndexes ++ pendingIndexes
  version := 2

theorem released_olderFile : Released olderFile := fun _ => rfl

def upgrade : List (Label (Database Cell) Statement OpenError) :=
  [opener, .begin 0] ++ List.replicate 5 (.exec 0) ++ [.commit 0]

theorem older_claim_survives : ∃ s, Reached .text olderFile s ∧
    s.committed.version = currentSchemaVersion ∧ ∀ t ∈ olderFile.tables, t.schema = claims →
      ∃ u ∈ s.committed.tables, u.schema.name = "claims" ∧
        ∃ more, u.readings = t.readings ++ more := by
  have hplay : ((openProtocol .text).play upgrade ⟨olderFile, []⟩).any
      (fun s => decide (s.committed.version = currentSchemaVersion)) = true := by
    decide +kernel
  obtain ⟨s, hs, hp⟩ := (Option.any_eq_true _ _).mp hplay
  have hrun : Run ((openProtocol .text).Step Writes) ⟨olderFile, []⟩ upgrade s :=
    run_of_play hs (by simp [upgrade, opener, Label.Offered, openProtocol])
  refine ⟨s, hrun.reach (.init rfl), of_decide_eq_true hp, fun t ht hclaims => ?_⟩
  have hname : t.schema.name = "claims" := by rw [hclaims]; rfl
  obtain ⟨u, hu, huname, hmore⟩ :=
    stored_rows_survive (.init rfl) hrun t ht (by rw [hname]; exact List.mem_cons_self)
  exact ⟨u, hu, huname.trans hname, hmore⟩

/-- Opening ends, however often the file is busy: no handle tries more than ten times, and it
    gives up on a busy file at the tenth only. A run without errors from outside that can go no
    further has opened the file for every handle that had not given up. -/
theorem opening_ends (hstart : Released db₀) (h : Reached literal db₀ s) :
    (∀ path : ℕ → State (Database Cell) Statement OpenError, path 0 = s →
      ∃ n, ∀ label, label.own = true →
        ¬ (openProtocol literal).Step Writes (path n) label (path (n + 1))) ∧
    (∀ n error, .failed n error ∈ s.clients →
      n ≤ openMaxAttempts ∧ (isSqliteBusy error = true → n = openMaxAttempts)) ∧
    ∀ labels s', Run ((openProtocol literal).Step Writes) s labels s' →
      (∀ label ∈ labels, label.isFault = false) →
      (∀ label s'', label.own = true → label.isFault = false →
        ¬ (openProtocol literal).Step Writes s' label s'') →
      ∀ (i : ℕ) client, s.clients[i]? = some client → client.isFailed = false →
        ∃ program, s'.clients[i]? = some (.finished program) := by
  have hinv := inv_of_reached attempts_pos h
  refine ⟨fun path _ => exists_last_step path, fun n error hmem => ?_, ?_⟩
  · obtain ⟨_, hle, hbusy⟩ := hinv.sound _ hmem
    exact ⟨hle, hbusy⟩
  · intro labels s' hrun hclean hstuck i client hget halive
    exact lasting_released.finished_of_stuck attempts_pos (fun _ => succeeds_of_released) hrun hinv
      (lasting_released.committed attempts_pos hstart h) hclean hstuck hget halive

theorem always_busy_gives_up : ∃ s, Reached .text olderFile s ∧
    (s.clients.all Client.isFailed && decide (s.clients.length = 1)) = true ∧
    ∀ n error, .failed n error ∈ s.clients →
      n ≤ openMaxAttempts ∧ (isSqliteBusy error = true → n = openMaxAttempts) := by
  obtain ⟨s, hs, hp⟩ := exists_reached (P := openProtocol .text) (W := Writes) olderFile
    (opener :: List.replicate 10 (.fault 0 busy)) (by simp [opener, Label.Offered, openProtocol])
    (fun s => s.clients.all Client.isFailed && decide (s.clients.length = 1)) (by decide +kernel)
  exact ⟨s, hs, hp, (opening_ends released_olderFile hs).2.1⟩

end Runs

end Mempill.Migrations
