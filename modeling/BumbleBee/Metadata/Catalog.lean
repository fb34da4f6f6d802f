import BumbleBee.Metadata.Schema
import BumbleBee.Library.Transition
import BumbleBee.Storage.TableHeap
import Mathlib.Data.List.AList

/-!
The in-memory catalog over the buffer pool's pages, and the DDL statements of a
connection on it. An operation that throws returns the catalog it leaves behind
together with the message. How an entry is put into a B+ tree is a parameter.
-/

namespace BumbleBee.Metadata
open Storage Storage.SlottedPage Concurrency

inductive StorageFormat where
  | row
  | parquet
  deriving DecidableEq, Repr

inductive TableStorage where
  | heap (heap : TableHeap)
  | parquet (location : String)
  deriving DecidableEq

structure TableInfo where
  schema : Schema
  name : String
  oid : Nat
  storage : TableStorage
  pkAttrs : List Nat
  autoId : Bool
  nextId : Int
  deriving DecidableEq

/-- The pages of an index, its header page first. -/
structure IndexTree where
  headerPageId : Int
  nodes : List Int
  deriving DecidableEq

structure IndexInfo where
  keySchema : Schema
  name : String
  keyAttrs : List Nat
  keySize : Nat
  tree : IndexTree
  oid : Nat
  tableName : String
  deriving DecidableEq

/-- A hash map. -/
abbrev Map (κ ν : Type) := AList fun _ : κ => ν

structure Catalog where
  store : PageStore
  tables : Map Nat TableInfo
  tableNames : Map String Nat
  indexes : Map Nat IndexInfo
  indexNames : Map String (Map String Nat)
  nextTableOid : Nat
  nextIndexOid : Nat

/-- `emplace` of a hash map keeps an entry that is already there. -/
def emplace {κ ν : Type} [DecidableEq κ] (map : Map κ ν) (key : κ) (value : ν) : Map κ ν :=
  if key ∈ map then map else map.insert key value

/-- Puts a row of the table into the tree being built; `none` is a duplicate key. -/
abbrev InsertEntry := IndexInfo → RowBytes → RID → PageStore → Option (IndexInfo × PageStore)

namespace IndexTree

def freeAllPages (tree : IndexTree) (store : PageStore) : PageStore :=
  (tree.headerPageId :: tree.nodes).foldl PageStore.deletePage store

end IndexTree

/-- The rows a scan outside any transaction returns: those not marked deleted. -/
def liveRows (heap : TableHeap) (store : PageStore) : List (RID × RowBytes) :=
  heap.pageDirectory.flatMap fun pageId =>
    ((store.rows pageId).zipIdx.filter fun slot => !slot.1.1.isDeleted).map fun slot => (⟨pageId, slot.2⟩, slot.1.2)

namespace Catalog

def getTable (c : Catalog) (name : String) : Option TableInfo := (c.tableNames.lookup name).bind c.tables.lookup

def createTable (c : Catalog) (name : String) (schema : Schema) (format : StorageFormat) (pkAttrs : List Nat)
    (autoId : Bool) (location : String) : Catalog × Option TableInfo :=
  match c.tableNames.lookup name with
  | some _ => (c, none)
  | none =>
    let (storage, store) : TableStorage × PageStore :=
      match format with
      | .row => (.heap (TableHeap.create c.store).1, (TableHeap.create c.store).2)
      | .parquet => (.parquet location, c.store)
    let info : TableInfo := ⟨schema, name, c.nextTableOid, storage, pkAttrs, autoId, 0⟩
    ({ c with
      store := store
      tables := emplace c.tables c.nextTableOid info
      tableNames := emplace c.tableNames name c.nextTableOid
      nextTableOid := c.nextTableOid + 1 }, some info)

/-- The rows go into the tree one by one; the first duplicate stops. -/
def populate (insertEntry : InsertEntry) : List (RID × RowBytes) → IndexInfo → PageStore →
    IndexInfo × PageStore × Bool
  | [], info, store => (info, store, true)
  | (rid, row) :: rest, info, store =>
    match insertEntry info row rid store with
    | none => (info, store, false)
    | some (info, store) => populate insertEntry rest info store

def createIndex (insertEntry : InsertEntry) (c : Catalog) (keySize : Nat) (indexName tableName : String)
    (keyAttrs : List Nat) : Catalog × Except String (Option IndexInfo) :=
  match c.getTable tableName with
  | none => (c, .ok none)
  | some table =>
    let keySchema := table.schema.copySchema keyAttrs
    let (headerPageId, allocated) := c.store.newPage
    let info : IndexInfo := ⟨keySchema, indexName, keyAttrs, keySize, ⟨headerPageId, []⟩, c.nextIndexOid, tableName⟩
    let rows := match table.storage with
      | .heap heap => liveRows heap allocated
      | .parquet _ => []
    match populate insertEntry rows info allocated with
    | (info, store, false) =>
      ({ c with store := info.tree.freeAllPages store },
        .error ("cannot create unique index '" ++ indexName ++ "': duplicate key"))
    | (info, store, true) =>
      ({ c with
        store := store
        indexes := emplace c.indexes c.nextIndexOid info
        indexNames := c.indexNames.insert tableName
          (emplace ((c.indexNames.lookup tableName).getD ∅) indexName c.nextIndexOid)
        nextIndexOid := c.nextIndexOid + 1 }, .ok (some info))

/-- The smallest instantiated key size the key fits in. -/
def createIndexForKey (insertEntry : InsertEntry) (c : Catalog) (indexName tableName : String)
    (keyAttrs : List Nat) : Catalog × Except String (Option IndexInfo) :=
  match c.getTable tableName with
  | none => (c, .ok none)
  | some table =>
    let width := (table.schema.copySchema keyAttrs).getInlinedStorageSize
    if width ≤ 8 then c.createIndex insertEntry 8 indexName tableName keyAttrs
    else if width ≤ 16 then c.createIndex insertEntry 16 indexName tableName keyAttrs
    else if width ≤ 32 then c.createIndex insertEntry 32 indexName tableName keyAttrs
    else if width ≤ 64 then c.createIndex insertEntry 64 indexName tableName keyAttrs
    else (c, .error "primary key wider than 64 bytes cannot be indexed")

/-- Frees an index's pages and forgets it. -/
def dropIndex (c : Catalog) (oid : Nat) : Catalog :=
  { c with
    store := ((c.indexes.lookup oid).map fun info => info.tree.freeAllPages c.store).getD c.store
    indexes := c.indexes.erase oid }

def freeStorage (c : Catalog) (storage : TableStorage) : Catalog :=
  match storage with
  | .heap heap => { c with store := heap.freeAllPages c.store }
  | .parquet _ => c

def dropTable (c : Catalog) (name : String) : Catalog × Bool :=
  match c.tableNames.lookup name with
  | none => (c, false)
  | some oid =>
    let indexes := (((c.indexNames.lookup name).getD ∅).entries.map Sigma.snd).foldl dropIndex c
    let freed := match c.tables.lookup oid with
      | some info => indexes.freeStorage info.storage
      | none => indexes
    ({ freed with
      indexNames := c.indexNames.erase name
      tables := c.tables.erase oid
      tableNames := c.tableNames.erase name }, true)

/-- The shell's clear: oids are not rewound. -/
def dropAllTables (c : Catalog) : Catalog :=
  let freed := (c.tables.entries.map fun entry => entry.2.storage).foldl freeStorage
    { c with
      store := (c.indexes.entries.map fun entry => entry.2.tree).foldl (fun store tree => tree.freeAllPages store) c.store }
  { freed with tables := ∅, tableNames := ∅, indexes := ∅, indexNames := ∅ }

end Catalog

end BumbleBee.Metadata
