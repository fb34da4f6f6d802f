import BumbleBee.Metadata.Catalog

/-!
The DDL statements of a connection. `HandleCreateStatement` registers the table
first and builds the index of its primary key afterwards; a key too wide for any
instantiated tree is found out only then.
-/

namespace BumbleBee.Metadata
open Concurrency

/-- What the binder hands over: a row table names its key columns, an external table has no key. -/
structure CreateStatement where
  table : String
  columns : List Column
  primaryKey : List String
  format : StorageFormat
  location : String
  keyed : format = .row → primaryKey ≠ [] ∧ ∀ key ∈ primaryKey, ∃ column ∈ columns, column.name = key
  external : format = .parquet → primaryKey = []

def autoIdColumn : String := "_id"

def autoId : Column := bigint autoIdColumn

/-- `BindCreate` once the columns, the key and the storage options are collected. -/
def bindCreate (table : String) (columns : List Column) (pk : List String) (format : StorageFormat)
    (location : String) : Except String CreateStatement :=
  if format = .parquet ∧ location = "" then
    .error "external table needs a location: WITH (format='parquet', location='/path')"
  else if format = .row ∧ location ≠ "" then
    .error "location is only valid together with format='parquet'"
  else if columns = [] ∧ format = .row then .error "should have at least 1 column"
  else if columns.any fun column => column.name.toLower = autoIdColumn then
    .error ("column name '" ++ autoIdColumn ++ "' is reserved for the auto-generated primary key")
  else
    match format with
    | .parquet =>
      if pk ≠ [] then .error "external tables do not support PRIMARY KEY"
      else .ok ⟨table, columns, [], .parquet, location, by simp, fun _ => rfl⟩
    | .row =>
      if absent : pk = [] then
        .ok ⟨table, autoId :: columns, [autoIdColumn], .row, "", fun _ => ⟨by simp, by simp [autoId, bigint]⟩, by simp⟩
      else
        match found : pk.find? fun key => !columns.any fun column => column.name = key with
        | some key => .error ("primary key column '" ++ key ++ "' does not exist")
        | none =>
          .ok ⟨table, columns, pk, .row, "", fun _ => ⟨absent, by simpa using found⟩, by simp⟩

/-- What the statement finds at an external location; every file access may throw. -/
structure Folder where
  createDirectories : Option String
  readLatest : Except String (Option (List String))
  listParquetFiles : List String
  reader : String → Except String (List (String × LogicalType))
  write : Option String

def sameTypeId : LogicalType → LogicalType → Bool
  | .scalar type, .scalar other => type = other
  | .decimal _, .decimal _ => true
  | .list _, .list _ => true
  | .array _ _, .array _ _ => true
  | _, _ => false

def externalSchemaMatches (expected : Schema) (file : List (String × LogicalType)) : Bool :=
  expected.columns.length = file.length &&
    (expected.columns.zip file).all fun (column, name, type) =>
      column.name.toLower = name.toLower && sameTypeId column.type type &&
        match column.type with
        | .decimal _ => column.type.getPhysicalType = type.getPhysicalType
        | _ => true

/-- `Column::Make` for every column of the first file. -/
def inferSchema (file : List (String × LogicalType)) : Except String Schema :=
  match file.mapM fun (name, type) => Column.ofLength name type 128 with
  | some columns => .ok ⟨columns⟩
  | none => .error "cannot size an invalid column type"

/-- Validates the live files, the first one defining the schema where none is declared. -/
def validateFiles (table : String) (folder : Folder) (declared : Bool) :
    Option Schema → List String → Except String (Option Schema)
  | schema, [] => .ok schema
  | schema, file :: rest =>
    match folder.reader file with
    | .error message => .error message
    | .ok columns =>
      match schema with
      | none =>
        match inferSchema columns with
        | .error message => .error message
        | .ok inferred => validateFiles table folder declared (some inferred) rest
      | some schema =>
        if externalSchemaMatches schema columns then validateFiles table folder declared (some schema) rest
        else .error ("external table '" ++ table ++ "': parquet file '" ++ file ++ "' does not match the " ++
          (if declared then "declared" else "inferred") ++ " schema")

/-- `HandleCreateExternalTable` up to the registration. -/
def externalSchema (stmt : CreateStatement) (folder : Folder) : Except String Schema :=
  match folder.createDirectories, folder.readLatest with
  | some message, _ =>
    .error ("cannot create external table location '" ++ stmt.location ++ "': " ++ message)
  | none, .error message => .error message
  | none, .ok manifest =>
    let entries := manifest.getD folder.listParquetFiles
    match validateFiles stmt.table folder (stmt.columns ≠ [])
        (if stmt.columns = [] then none else some ⟨stmt.columns⟩) entries with
    | .error message => .error message
    | .ok none =>
      .error ("cannot infer schema for external table '" ++ stmt.table ++ "': location '" ++ stmt.location ++
        "' has no parquet files; declare the columns")
    | .ok (some schema) =>
      match manifest, folder.write with
      | none, some message => .error message
      | _, _ => .ok schema

namespace Catalog

def tableExists (table : String) : String := "failed to create table " ++ table ++ ": it already exists"

def handleCreateExternalTable (c : Catalog) (stmt : CreateStatement) (folder : Folder) :
    Catalog × Except String TableInfo :=
  match externalSchema stmt folder with
  | .error message => (c, .error message)
  | .ok schema =>
    match c.createTable stmt.table schema .parquet [] false stmt.location with
    | (after, none) => (after, .error (tableExists stmt.table))
    | (after, some info) => (after, .ok info)

/-- The primary-key column names, resolved to their indices. -/
def pkAttrs (stmt : CreateStatement) : List Nat :=
  stmt.primaryKey.filterMap (Schema.mk stmt.columns).tryGetColIdx

def hasAutoId (columns : List Column) : Bool := columns.head?.any fun column => column.name = autoIdColumn

def handleCreateStatement (insertEntry : InsertEntry) (c : Catalog) (stmt : CreateStatement) (folder : Folder) :
    Catalog × Except String TableInfo :=
  match stmt.format with
  | .parquet => c.handleCreateExternalTable stmt folder
  | .row =>
    let created := c.createTable stmt.table ⟨stmt.columns⟩ .row (pkAttrs stmt) (hasAutoId stmt.columns) ""
    match created.2 with
    | none => (created.1, .error (tableExists stmt.table))
    | some info =>
      if pkAttrs stmt = [] then (created.1, .ok info)
      else
        let indexed := created.1.createIndexForKey insertEntry ("_pk_" ++ stmt.table) stmt.table (pkAttrs stmt)
        match indexed.2 with
        | .error message => (indexed.1, .error message)
        | .ok _ => (indexed.1, .ok info)

end Catalog

end BumbleBee.Metadata
