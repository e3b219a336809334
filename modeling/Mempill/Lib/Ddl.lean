import Mathlib.Data.List.Forall2

set_option autoImplicit false

/-!
# Data definition

Tables with their rows, and the statements that add tables, indexes and columns to a
database. What a statement does to the schema does not depend on the rows, and the rows
that are there stay.
-/
namespace Ddl

structure Column where
  name : String
  type : String
  notNull : Bool
  /-- The literal of the `DEFAULT` clause. -/
  default? : Option String
  deriving DecidableEq

inductive Constraint where
  | primaryKey (columns : List String)
  | unique (columns : List String)
  | foreignKey (column table key : String)
  deriving DecidableEq

structure TableSchema where
  name : String
  columns : List Column
  constraints : List Constraint
  deriving DecidableEq

structure Index where
  name : String
  table : String
  /-- The columns in order, each with whether it is descending. -/
  columns : List (String × Bool)
  where? : Option String
  deriving DecidableEq

structure Schema where
  tables : List TableSchema
  indexes : List Index
  version : ℕ
  deriving DecidableEq

def Schema.empty : Schema := ⟨[], [], 0⟩

inductive Statement where
  | createTableIfNotExists (table : TableSchema)
  | createIndexIfNotExists (index : Index)
  | addColumn (table : String) (column : Column)
  | setUserVersion (version : ℕ)
  deriving DecidableEq

inductive DdlError where
  | noSuchTable (name : String)
  | noSuchColumn (name : String)
  | duplicateColumn (name : String)
  | tableNamed (name : String)
  | indexNamed (name : String)
  | nullInNotNullColumn
  deriving DecidableEq

def DdlError.message : DdlError → String
  | noSuchTable name => "no such table: main." ++ name
  | noSuchColumn name => "no such column: " ++ name
  | duplicateColumn name => "duplicate column name: " ++ name
  | tableNamed name => "there is already a table named " ++ name
  | indexNamed name => "there is already an index named " ++ name
  | nullInNotNullColumn => "Cannot add a NOT NULL column with default value NULL"

/-- The first name that has come before. -/
def repeated : List String → List String → Option String
  | _, [] => none
  | seen, name :: names => if name ∈ seen then some name else repeated (name :: seen) names

/-- A row has a cell for each column, and no NULL where there must be none. -/
def Fits {α : Type} (columns : List Column) (row : List (Option α)) : Prop :=
  List.Forall₂ (fun column cell => column.notNull = true → cell ≠ none) columns row

instance {α : Type} [DecidableEq α] (columns : List Column) (row : List (Option α)) :
    Decidable (Fits columns row) :=
  inferInstanceAs (Decidable (List.Forall₂ _ _ _))

section Schemas

def TableSchema.columnNames (table : TableSchema) : List String := table.columns.map Column.name

def Schema.tableNames (S : Schema) : List String := S.tables.map TableSchema.name

def Schema.find (S : Schema) (name : String) : Option TableSchema :=
  S.tables.find? fun table => table.name = name

def TableSchema.widen (column : Column) (table : TableSchema) : TableSchema :=
  { table with columns := table.columns ++ [column] }

def Schema.modify (name : String) (f : TableSchema → TableSchema) (S : Schema) : Schema :=
  { S with tables := S.tables.map fun table => if table.name = name then f table else table }

/-- Whether the new column has a value for the rows that are there. -/
def Column.addable (column : Column) : Bool := !column.notNull || column.default?.isSome

/-- The statement on the schema alone: a column that the rows may not be able to fill counts
    as an error. -/
def Statement.onSchema (S : Schema) : Statement → Except DdlError Schema
  | .createTableIfNotExists table =>
    if table.name ∈ S.tableNames then .ok S
    else if table.name ∈ S.indexes.map Index.name then .error (.indexNamed table.name)
    else match repeated [] table.columnNames with
      | some column => .error (.duplicateColumn column)
      | none => .ok { S with tables := S.tables ++ [table] }
  | .createIndexIfNotExists index =>
    match S.find index.table with
    | none => .error (.noSuchTable index.table)
    | some table =>
      if index.name ∈ S.tableNames then .error (.tableNamed index.name)
      else if index.name ∈ S.indexes.map Index.name then .ok S
      else match index.columns.find? fun column => column.1 ∉ table.columnNames with
        | some column => .error (.noSuchColumn column.1)
        | none => .ok { S with indexes := S.indexes ++ [index] }
  | .addColumn name column =>
    match S.find name with
    | none => .error (.noSuchTable name)
    | some table =>
      if column.name ∈ table.columnNames then .error (.duplicateColumn column.name)
      else if column.addable then .ok (S.modify name (.widen column))
      else .error .nullInNotNullColumn
  | .setUserVersion version => .ok { S with version := version }

end Schemas

variable {α : Type}

structure Table (α : Type) where
  schema : TableSchema
  rows : List (List (Option α))
  fits : ∀ row ∈ rows, Fits schema.columns row

structure Database (α : Type) where
  tables : List (Table α)
  indexes : List Index
  version : ℕ

namespace Database

def empty : Database α := ⟨[], [], 0⟩

def schema (db : Database α) : Schema := ⟨db.tables.map Table.schema, db.indexes, db.version⟩

def find (db : Database α) (name : String) : Option (Table α) :=
  db.tables.find? fun table => table.schema.name = name

end Database

/-- A new table has no rows. -/
def Table.create (schema : TableSchema) : Table α := ⟨schema, [], fun _ h => by cases h⟩

/-- The cell that the rows already in a table get in a new column. -/
def Column.cell (literal : String → α) (column : Column) : Option α := column.default?.map literal

def Table.Addable (literal : String → α) (column : Column) (table : Table α) : Prop :=
  table.rows = [] ∨ (column.notNull = true → column.cell literal ≠ none)

theorem Fits.concat {columns : List Column} {row : List (Option α)} {column : Column}
    {cell : Option α} (h : Fits columns row) (hcell : column.notNull = true → cell ≠ none) :
    Fits (columns ++ [column]) (row ++ [cell]) :=
  List.rel_append h (.cons hcell .nil)

def Table.widen (literal : String → α) (column : Column) (table : Table α)
    (h : table.Addable literal column) : Table α where
  schema := table.schema.widen column
  rows := table.rows.map (· ++ [column.cell literal])
  fits := by
    intro row hrow
    obtain ⟨before, hbefore, rfl⟩ := List.mem_map.mp hrow
    rcases h with hnone | hcell
    · rw [hnone] at hbefore
      cases hbefore
    · exact (table.fits before hbefore).concat hcell

instance (literal : String → α) (column : Column) (table : Table α) :
    Decidable (table.Addable literal column) :=
  inferInstanceAs
    (Decidable (table.rows = [] ∨ (column.notNull = true → column.cell literal ≠ none)))

def Table.withColumn (literal : String → α) (column : Column) (table : Table α) : Table α :=
  if h : table.Addable literal column then table.widen literal column h else table

def Database.modify (name : String) (f : Table α → Table α) (db : Database α) : Database α :=
  { db with
    tables := db.tables.map fun table => if table.schema.name = name then f table else table }

def Statement.exec (literal : String → α) (db : Database α) :
    Statement → Except DdlError (Database α)
  | .createTableIfNotExists table =>
    if table.name ∈ db.schema.tableNames then .ok db
    else if table.name ∈ db.indexes.map Index.name then .error (.indexNamed table.name)
    else match repeated [] table.columnNames with
      | some column => .error (.duplicateColumn column)
      | none => .ok { db with tables := db.tables ++ [.create table] }
  | .createIndexIfNotExists index =>
    match db.schema.find index.table with
    | none => .error (.noSuchTable index.table)
    | some table =>
      if index.name ∈ db.schema.tableNames then .error (.tableNamed index.name)
      else if index.name ∈ db.indexes.map Index.name then .ok db
      else match index.columns.find? fun column => column.1 ∉ table.columnNames with
        | some column => .error (.noSuchColumn column.1)
        | none => .ok { db with indexes := db.indexes ++ [index] }
  | .addColumn name column =>
    match db.find name with
    | none => .error (.noSuchTable name)
    | some table =>
      if column.name ∈ table.schema.columnNames then .error (.duplicateColumn column.name)
      else if table.Addable literal column then .ok (db.modify name (.withColumn literal column))
      else .error .nullInNotNullColumn
  | .setUserVersion version => .ok { db with version := version }

section Projection

variable {literal : String → α} {db db' : Database α}

theorem find_schema (db : Database α) (name : String) :
    db.schema.find name = (db.find name).map Table.schema := by
  rw [Schema.find, Database.schema, List.find?_map]
  rfl

theorem addable_of_addable {column : Column} (h : column.addable = true) (table : Table α) :
    table.Addable literal column := by
  refine .inr fun hnull hcell => ?_
  rw [Column.addable, hnull, Bool.not_true, Bool.false_or] at h
  rw [Column.cell, Option.map_eq_none_iff] at hcell
  rw [hcell] at h
  cases h

theorem schema_withColumn {column : Column} (h : column.addable = true) (table : Table α) :
    (table.withColumn literal column).schema = table.schema.widen column := by
  rw [Table.withColumn, dif_pos (addable_of_addable h table)]
  rfl

theorem schema_modify {f : Table α → Table α} {g : TableSchema → TableSchema}
    (hschema : ∀ table, (f table).schema = g table.schema) (name : String) :
    (db.modify name f).schema = db.schema.modify name g := by
  rw [Database.schema, Database.modify, Schema.modify, Database.schema]
  congr 1
  rw [List.map_map, List.map_map]
  refine List.map_congr_left fun table _ => ?_
  rw [Function.comp_apply, Function.comp_apply]
  split_ifs
  · exact hschema table
  · rfl

/-- What a statement makes of the schema it makes of every database with that schema. -/
theorem exec_of_onSchema {statement : Statement} {S : Schema}
    (h : statement.onSchema db.schema = .ok S) :
    ∃ db', statement.exec literal db = .ok db' ∧ db'.schema = S := by
  cases statement with
  | createTableIfNotExists table =>
    rw [Statement.onSchema] at h
    rw [Statement.exec]
    split_ifs at h with hname hindex
    · exact ⟨db, if_pos hname, by injection h⟩
    · change table.name ∉ db.indexes.map Index.name at hindex
      split at h
      · cases h
      refine ⟨_, by rw [if_neg hname, if_neg hindex], ?_⟩
      injection h with h
      rw [← h, Database.schema, List.map_append]
      rfl
  | createIndexIfNotExists index =>
    rw [Statement.onSchema] at h
    rw [Statement.exec]
    split at h
    · cases h
    rename_i table htable
    split_ifs at h with hname hindex
    · change index.name ∈ db.indexes.map Index.name at hindex
      exact ⟨db, by rw [if_neg hname, if_pos hindex], by injection h⟩
    · change index.name ∉ db.indexes.map Index.name at hindex
      split at h
      · cases h
      refine ⟨_, by rw [if_neg hname, if_neg hindex], ?_⟩
      injection h
  | addColumn name column =>
    rw [Statement.onSchema, find_schema] at h
    rw [Statement.exec]
    cases htable : db.find name with
    | none => rw [htable] at h; cases h
    | some table =>
      rw [htable, Option.map_some] at h
      dsimp only at h ⊢
      split_ifs at h with hduplicate haddable
      refine ⟨_, by rw [if_neg hduplicate, if_pos (addable_of_addable haddable table)], ?_⟩
      injection h with h
      rw [← h]
      exact schema_modify (schema_withColumn haddable) name
  | setUserVersion version =>
    injection h with h
    exact ⟨_, rfl, h⟩

/-- The column is there already: whatever the rows, it is refused. -/
theorem exec_of_duplicate {name : String} {column : Column} {table : TableSchema}
    (hfind : db.schema.find name = some table) (hdup : column.name ∈ table.columnNames) :
    (Statement.addColumn name column).exec literal db = .error (.duplicateColumn column.name) := by
  rw [find_schema, Option.map_eq_some_iff] at hfind
  obtain ⟨found, hfound, rfl⟩ := hfind
  rw [Statement.exec, hfound]
  exact if_pos hdup

end Projection

section Rows

variable {literal : String → α} {kind : String → Prop} {db db' db'' : Database α}

/-- The cell of a column of the row, NULL where the table has no such column. -/
def cellNamed (columns : List Column) (row : List (Option α)) (name : String) : Option α :=
  (((columns.map Column.name).zip row).lookup name).join

/-- The rows as they are read by column name. -/
def Table.readings (table : Table α) : List (String → Option α) :=
  table.rows.map (cellNamed table.schema.columns)

theorem Fits.length_eq {columns : List Column} {row : List (Option α)} (h : Fits columns row) :
    columns.length = row.length := List.Forall₂.length_eq h

theorem cellNamed_concat_null {columns : List Column} {row : List (Option α)}
    (hfits : Fits columns row) (column : Column) :
    cellNamed (columns ++ [column]) (row ++ [none]) = cellNamed columns row := by
  funext name
  have hlength : (columns.map Column.name).length = row.length := by
    rw [List.length_map, hfits.length_eq]
  rw [cellNamed, cellNamed, List.map_append, List.zip_append hlength, List.lookup_append]
  cases ((columns.map Column.name).zip row).lookup name with
  | some cell => rfl
  | none =>
    change ((([(column.name, (none : Option α))]).lookup name)).join = none
    rw [List.lookup_cons]
    split <;> rfl

/-- The table with columns added that its old rows have NULL in, and with new rows after
    these. Reading by name does not tell the old rows from before. -/
def Table.Continues (before after : Table α) : Prop :=
  after.schema.name = before.schema.name ∧
  ∃ more, after.readings = before.readings ++ more

theorem Table.Continues.refl (table : Table α) : table.Continues table :=
  ⟨rfl, [], (List.append_nil _).symm⟩

theorem Table.Continues.trans {t u v : Table α} (h : t.Continues u) (h' : u.Continues v) :
    t.Continues v := by
  obtain ⟨hname, more, hmore⟩ := h
  obtain ⟨hname', more', hmore'⟩ := h'
  exact ⟨hname'.trans hname, more ++ more', by rw [hmore', hmore, List.append_assoc]⟩

theorem continues_withColumn {column : Column} (hnull : column.default? = none)
    (table : Table α) : table.Continues (table.withColumn literal column) := by
  rw [Table.withColumn]
  split_ifs with h
  · refine ⟨rfl, [], ?_⟩
    change (table.rows.map (· ++ [column.cell literal])).map
      (cellNamed (table.schema.columns ++ [column])) = table.readings ++ []
    rw [List.append_nil, List.map_map]
    refine List.map_congr_left fun row hrow => ?_
    rw [Function.comp_apply, Column.cell, hnull]
    exact cellNamed_concat_null (table.fits row hrow) column
  · exact .refl table

/-- Every table of a kind is still there and goes on. -/
def Database.Keeps (kind : String → Prop) (before after : Database α) : Prop :=
  ∀ t ∈ before.tables, kind t.schema.name → ∃ u ∈ after.tables, t.Continues u

theorem Database.Keeps.refl (db : Database α) : db.Keeps kind db :=
  fun t ht _ => ⟨t, ht, .refl t⟩

theorem Database.Keeps.trans (h : db.Keeps kind db') (h' : db'.Keeps kind db'') :
    db.Keeps kind db'' := by
  intro t ht hkind
  obtain ⟨u, hu, htu⟩ := h t ht hkind
  obtain ⟨v, hv, huv⟩ := h' u hu (by rwa [htu.1])
  exact ⟨v, hv, htu.trans huv⟩

theorem keeps_of_tables (h : db'.tables = db.tables) : db.Keeps kind db' :=
  fun t ht _ => ⟨t, h ▸ ht, .refl t⟩

/-- A column that the statement adds has no default. -/
def Statement.AddsNull : Statement → Prop
  | .addColumn _ column => column.default? = none
  | _ => True

instance : (statement : Statement) → Decidable statement.AddsNull
  | .addColumn _ column => inferInstanceAs (Decidable (column.default? = none))
  | .createTableIfNotExists _ | .createIndexIfNotExists _ | .setUserVersion _ => .isTrue trivial

theorem exec_keeps {statement : Statement} (hnull : statement.AddsNull)
    (h : statement.exec literal db = .ok db') : db.Keeps kind db' := by
  cases statement with
  | createTableIfNotExists table =>
    rw [Statement.exec] at h
    split_ifs at h
    · injection h with h
      exact h ▸ .refl db
    · split at h
      · cases h
      injection h with h
      subst h
      exact fun t ht _ => ⟨t, List.mem_append_left _ ht, .refl t⟩
  | createIndexIfNotExists index =>
    rw [Statement.exec] at h
    split at h
    · cases h
    split_ifs at h
    · injection h with h
      exact h ▸ .refl db
    · split at h
      · cases h
      injection h with h
      exact keeps_of_tables (h ▸ rfl)
  | addColumn name column =>
    rw [Statement.exec] at h
    split at h
    · cases h
    split_ifs at h
    injection h with h
    subst h
    intro t ht _
    refine ⟨_, List.mem_map_of_mem ht, ?_⟩
    split_ifs
    · exact continues_withColumn hnull t
    · exact .refl t
  | setUserVersion version =>
    injection h with h
    exact keeps_of_tables (h ▸ rfl)

end Rows

end Ddl
