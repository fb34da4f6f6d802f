import BumbleBee.Metadata.CreateTable

/-!
The catalog over whole histories of DDL statements: names and oids refer to each
other, and as long as every key fits an index, every keyed table has the index of its
key.
-/

namespace BumbleBee.Metadata
open Library.Transition Storage

/-- DDL statements, and what the row statements between them leave in a heap or a tree. -/
inductive Ddl where
  | create (stmt : CreateStatement) (folder : Folder)
  | drop (table : String)
  | clear
  | rows (oid : Nat) (heap : TableHeap) (nextId : Int) (store : PageStore)
  | entries (oid : Nat) (tree : IndexTree) (store : PageStore)

namespace Catalog

def rows (c : Catalog) (oid : Nat) (heap : TableHeap) (nextId : Int) (store : PageStore) : Option Catalog :=
  match c.tables.lookup oid with
  | some info =>
    match info.storage with
    | .heap _ => some { c with
        store := store
        tables := c.tables.insert oid { info with storage := .heap heap, nextId := nextId } }
    | .parquet _ => none
  | none => none

def entries (c : Catalog) (oid : Nat) (tree : IndexTree) (store : PageStore) : Option Catalog :=
  match c.indexes.lookup oid with
  | some info => some { c with store := store, indexes := c.indexes.insert oid { info with tree := tree } }
  | none => none

def step (insertEntry : InsertEntry) (c : Catalog) : Ddl → Option Catalog
  | .create stmt folder => some (c.handleCreateStatement insertEntry stmt folder).1
  | .drop table => some (c.dropTable table).1
  | .clear => some c.dropAllTables
  | .rows oid heap nextId store => c.rows oid heap nextId store
  | .entries oid tree store => c.entries oid tree store

/-- A catalog without tables. -/
structure Initial (c : Catalog) : Prop where
  tables : c.tables = ∅
  tableNames : c.tableNames = ∅
  indexes : c.indexes = ∅
  indexNames : c.indexNames = ∅

end Catalog

def ddl (insertEntry : InsertEntry) : System Catalog Ddl Empty where
  init := Catalog.Initial
  step := fun c a => (c.step insertEntry a).map fun next => (next, [])

namespace Catalog

/-- The width of the key a statement declares, as the index would store it. -/
def keyWidth (stmt : CreateStatement) : UInt32 :=
  ((Schema.mk stmt.columns).copySchema (pkAttrs stmt)).getInlinedStorageSize

/-- The statement creates no row table, or its key is at most 64 bytes wide. -/
def KeyFits (c : Catalog) (stmt : CreateStatement) : Prop :=
  stmt.format = .row → c.tableNames.lookup stmt.table = none → keyWidth stmt ≤ 64

def KeysFit (c : Catalog) (a : Ddl) : Prop := ∀ stmt folder, a = .create stmt folder → c.KeyFits stmt

/-- An index registered under the table's name whose key is the table's primary key. -/
def HasKeyIndex (c : Catalog) (info : TableInfo) : Prop :=
  ∃ names name oid index, c.indexNames.lookup info.name = some names ∧ names.lookup name = some oid ∧
    c.indexes.lookup oid = some index ∧ index.tableName = info.name ∧ index.keyAttrs = info.pkAttrs

/-- Names and oids refer to each other, and oids still to be handed out are unused. -/
structure Linked (c : Catalog) : Prop where
  tableOids : ∀ oid info, c.tables.lookup oid = some info → oid < c.nextTableOid
  indexOids : ∀ oid index, c.indexes.lookup oid = some index → oid < c.nextIndexOid
  named : ∀ name oid, c.tableNames.lookup name = some oid → ∃ info, c.tables.lookup oid = some info ∧ info.name = name
  registered : ∀ oid info, c.tables.lookup oid = some info → c.tableNames.lookup info.name = some oid
  unnamed : ∀ name, c.tableNames.lookup name = none → c.indexNames.lookup name = none
  owned : ∀ table names name oid, c.indexNames.lookup table = some names → names.lookup name = some oid →
    ∃ index, c.indexes.lookup oid = some index ∧ index.tableName = table

structure Wf (c : Catalog) : Prop extends Linked c where
  keyed : ∀ oid info, c.tables.lookup oid = some info → info.pkAttrs ≠ [] → c.HasKeyIndex info

variable {c next : Catalog} {stmt : CreateStatement} {folder : Folder} {insertEntry : InsertEntry}

theorem lookup_emplace_new {κ ν : Type} [DecidableEq κ] {map : Map κ ν} {key : κ} {value : ν}
    (new : map.lookup key = none) : (emplace map key value).lookup key = some value := by
  unfold emplace
  rw [if_neg (AList.lookup_eq_none.mp new)]
  exact AList.lookup_insert map

theorem lookup_emplace_other {κ ν : Type} [DecidableEq κ] {map : Map κ ν} {key other : κ} {value : ν}
    (apart : other ≠ key) : (emplace map key value).lookup other = map.lookup other := by
  unfold emplace
  split
  · rfl
  · exact AList.lookup_insert_ne apart

theorem resolved_names (schema : Schema) {keys : List String}
    (named : ∀ key ∈ keys, ∃ column ∈ schema.columns, column.name = key) :
    (keys.filterMap schema.tryGetColIdx).map (fun i => schema.columns[i]?.map Column.name) = keys.map some := by
  induction keys with
  | nil => rfl
  | cons key rest ih =>
    obtain ⟨column, member, same⟩ := named key List.mem_cons_self
    obtain ⟨i, found, resolved, here, name⟩ := Schema.tryGetColIdx_some member same
    have tail := ih fun key' inside => named key' (List.mem_cons_of_mem _ inside)
    rw [List.filterMap_cons_some resolved, List.map_cons, tail, here, ← name]
    rfl

theorem pkAttrs_names (row : stmt.format = .row) :
    (pkAttrs stmt).map (fun i => stmt.columns[i]?.map Column.name) = stmt.primaryKey.map some :=
  resolved_names ⟨stmt.columns⟩ (stmt.keyed row).2

theorem pkAttrs_ne_nil (row : stmt.format = .row) : pkAttrs stmt ≠ [] := by
  intro empty
  have lengths := congrArg List.length (pkAttrs_names row)
  simp only [empty, List.length_map] at lengths
  exact (stmt.keyed row).1 (List.length_eq_zero_iff.mp lengths.symm)

/-- The catalog with the table registered and nothing else done. -/
def registered (c : Catalog) (stmt : CreateStatement) : Catalog × TableInfo :=
  let info : TableInfo := ⟨⟨stmt.columns⟩, stmt.table, c.nextTableOid, .heap (TableHeap.create c.store).1,
    pkAttrs stmt, hasAutoId stmt.columns, 0⟩
  ({ c with
    store := (TableHeap.create c.store).2
    tables := emplace c.tables c.nextTableOid info
    tableNames := emplace c.tableNames stmt.table c.nextTableOid
    nextTableOid := c.nextTableOid + 1 }, info)

theorem Linked.unused (linked : c.Linked) : c.tables.lookup c.nextTableOid = none := by
  cases found : c.tables.lookup c.nextTableOid with
  | none => rfl
  | some info => exact absurd (linked.tableOids _ info found) (lt_irrefl _)

theorem Linked.unusedIndex (linked : c.Linked) : c.indexes.lookup c.nextIndexOid = none := by
  cases found : c.indexes.lookup c.nextIndexOid with
  | none => rfl
  | some index => exact absurd (linked.indexOids _ index found) (lt_irrefl _)

theorem getTable_registered (linked : c.Linked) (fresh : c.tableNames.lookup stmt.table = none) :
    (c.registered stmt).1.getTable stmt.table = some (c.registered stmt).2 := by
  unfold getTable registered
  rw [lookup_emplace_new fresh, Option.bind_some, lookup_emplace_new linked.unused]

theorem liveRows_create (store : PageStore) :
    liveRows (TableHeap.create store).1 (TableHeap.create store).2.newPage.2 = [] := by
  unfold liveRows
  rw [PageStore.newPage_rows, TableHeap.rows_create]
  simp [TableHeap.create]

/-- The index of a table without rows is its header page. -/
def indexed (c : Catalog) (stmt : CreateStatement) (keySize : Nat) : Catalog :=
  let created := (c.registered stmt).1
  let index : IndexInfo := ⟨(Schema.mk stmt.columns).copySchema (pkAttrs stmt), "_pk_" ++ stmt.table, pkAttrs stmt,
    keySize, ⟨created.store.newPage.1, []⟩, c.nextIndexOid, stmt.table⟩
  { created with
    store := created.store.newPage.2
    indexes := emplace c.indexes c.nextIndexOid index
    indexNames := c.indexNames.insert stmt.table
      (emplace ((c.indexNames.lookup stmt.table).getD ∅) ("_pk_" ++ stmt.table) c.nextIndexOid)
    nextIndexOid := c.nextIndexOid + 1 }

theorem createIndex_registered (insertEntry : InsertEntry) (linked : c.Linked)
    (fresh : c.tableNames.lookup stmt.table = none) (keySize : Nat) :
    ∃ index, (c.registered stmt).1.createIndex insertEntry keySize ("_pk_" ++ stmt.table) stmt.table (pkAttrs stmt) =
      (c.indexed stmt keySize, .ok (some index)) := by
  have rows := liveRows_create c.store
  unfold createIndex
  rw [getTable_registered linked fresh]
  simp only [registered] at rows ⊢
  rw [rows]
  exact ⟨_, rfl⟩

theorem handleCreate_row (insertEntry : InsertEntry) (folder : Folder) (linked : c.Linked)
    (row : stmt.format = .row) (fresh : c.tableNames.lookup stmt.table = none) :
    (keyWidth stmt ≤ 64 ∧ ∃ keySize,
      c.handleCreateStatement insertEntry stmt folder = (c.indexed stmt keySize, .ok (c.registered stmt).2)) ∨
    (¬keyWidth stmt ≤ 64 ∧ ∃ message,
      c.handleCreateStatement insertEntry stmt folder = ((c.registered stmt).1, .error message)) := by
  have created : c.createTable stmt.table ⟨stmt.columns⟩ .row (pkAttrs stmt) (hasAutoId stmt.columns) "" =
      ((c.registered stmt).1, some (c.registered stmt).2) := by
    unfold createTable
    rw [fresh]
    rfl
  have built := createIndex_registered insertEntry linked fresh
  have small : ∀ {bound : UInt32}, bound ≤ 64 → keyWidth stmt ≤ bound → keyWidth stmt ≤ 64 :=
    fun most fits => UInt32.le_trans fits most
  unfold handleCreateStatement
  simp only [row, created, if_neg (pkAttrs_ne_nil row)]
  unfold createIndexForKey
  rw [getTable_registered linked fresh]
  simp only [show ((c.registered stmt).2.schema.copySchema (pkAttrs stmt)).getInlinedStorageSize = keyWidth stmt from rfl]
  split_ifs with eight sixteen thirtyTwo sixtyFour
  · obtain ⟨index, same⟩ := built 8
    rw [same]
    exact .inl ⟨small (by decide) eight, 8, rfl⟩
  · obtain ⟨index, same⟩ := built 16
    rw [same]
    exact .inl ⟨small (by decide) sixteen, 16, rfl⟩
  · obtain ⟨index, same⟩ := built 32
    rw [same]
    exact .inl ⟨small (by decide) thirtyTwo, 32, rfl⟩
  · obtain ⟨index, same⟩ := built 64
    rw [same]
    exact .inl ⟨sixtyFour, 64, rfl⟩
  · exact .inr ⟨sixtyFour, _, rfl⟩

/-- A table under a new name. -/
structure Registers (c next : Catalog) (info : TableInfo) : Prop where
  fresh : c.tableNames.lookup info.name = none
  tables : next.tables = emplace c.tables c.nextTableOid info
  tableNames : next.tableNames = emplace c.tableNames info.name c.nextTableOid
  nextTableOid : next.nextTableOid = c.nextTableOid + 1

variable {info : TableInfo} {oid : Nat}

section
variable (registers : Registers c next info)
include registers

theorem Registers.lookup {other : TableInfo} (linked : c.Linked) (found : next.tables.lookup oid = some other) :
    (oid = c.nextTableOid ∧ other = info) ∨ (oid ≠ c.nextTableOid ∧ c.tables.lookup oid = some other) := by
  rw [registers.tables] at found
  by_cases same : oid = c.nextTableOid
  · subst same
    rw [lookup_emplace_new linked.unused] at found
    exact .inl ⟨rfl, (Option.some.inj found).symm⟩
  · rw [lookup_emplace_other same] at found
    exact .inr ⟨same, found⟩

theorem Registers.lookup_new (linked : c.Linked) :
    next.tableNames.lookup info.name = some c.nextTableOid ∧ next.tables.lookup c.nextTableOid = some info := by
  rw [registers.tables, registers.tableNames, lookup_emplace_new registers.fresh, lookup_emplace_new linked.unused]
  exact ⟨rfl, rfl⟩

theorem Registers.lookup_old {name : String}
    (apart : name ≠ info.name) : next.tableNames.lookup name = c.tableNames.lookup name := by
  rw [registers.tableNames, lookup_emplace_other apart]

end

/-- Indexes of a table: all the earlier ones, and those added under the table's name. -/
structure Adds (c next : Catalog) (table : String) : Prop where
  indexOids : ∀ oid index, next.indexes.lookup oid = some index → oid < next.nextIndexOid
  kept : ∀ oid index, c.indexes.lookup oid = some index → next.indexes.lookup oid = some index
  elsewhere : ∀ other, other ≠ table → next.indexNames.lookup other = c.indexNames.lookup other
  owned : ∀ names name oid, next.indexNames.lookup table = some names → names.lookup name = some oid →
    ∃ index, next.indexes.lookup oid = some index ∧ index.tableName = table

theorem Linked.registers (linked : c.Linked) (registers : Registers c next info)
    (adds : Adds c next info.name) : next.Linked where
  tableOids := by
    intro oid other found
    rw [registers.nextTableOid]
    rcases registers.lookup linked found with ⟨rfl, -⟩ | ⟨-, before⟩
    · exact Nat.lt_succ_self _
    · exact Nat.lt_succ_of_lt (linked.tableOids oid other before)
  indexOids := adds.indexOids
  named := by
    intro name oid found
    by_cases same : name = info.name
    · subst same
      obtain ⟨this, table⟩ := registers.lookup_new linked
      rw [this] at found
      cases found
      exact ⟨info, table, rfl⟩
    · rw [registers.lookup_old same] at found
      obtain ⟨other, table, named⟩ := linked.named name oid found
      have old : oid ≠ c.nextTableOid := by
        have below := linked.tableOids oid other table
        omega
      refine ⟨other, ?_, named⟩
      rw [registers.tables, lookup_emplace_other old]
      exact table
  registered := by
    intro oid other found
    rcases registers.lookup linked found with ⟨rfl, rfl⟩ | ⟨-, before⟩
    · exact (registers.lookup_new linked).1
    · have named := linked.registered oid other before
      have apart : other.name ≠ info.name := by
        intro same
        rw [same, registers.fresh] at named
        cases named
      rw [registers.lookup_old apart]
      exact named
  unnamed := by
    intro name missing
    have apart : name ≠ info.name := by
      rintro rfl
      rw [(registers.lookup_new linked).1] at missing
      cases missing
    rw [adds.elsewhere name apart]
    rw [registers.lookup_old apart] at missing
    exact linked.unnamed name missing
  owned := by
    intro table names name oid listed found
    by_cases same : table = info.name
    · subst same
      exact adds.owned names name oid listed found
    · rw [adds.elsewhere table same] at listed
      obtain ⟨index, known, owner⟩ := linked.owned table names name oid listed found
      exact ⟨index, adds.kept oid index known, owner⟩

theorem Wf.registers (wf : c.Wf) (registers : Registers c next info) (adds : Adds c next info.name)
    (own : info.pkAttrs ≠ [] → next.HasKeyIndex info) : next.Wf where
  toLinked := wf.toLinked.registers registers adds
  keyed := by
    intro oid other found declared
    rcases registers.lookup wf.toLinked found with ⟨-, rfl⟩ | ⟨-, before⟩
    · exact own declared
    · obtain ⟨names, name, indexOid, index, listed, here, known, owner, key⟩ := wf.keyed oid other before declared
      have apart : other.name ≠ info.name := by
        intro same
        have named := wf.registered oid other before
        rw [same, registers.fresh] at named
        cases named
      refine ⟨names, name, indexOid, index, ?_, here, adds.kept indexOid index known, owner, key⟩
      rw [adds.elsewhere other.name apart]
      exact listed

theorem registers_indexed (fresh : c.tableNames.lookup stmt.table = none) (keySize : Nat) :
    Registers c (c.indexed stmt keySize) (c.registered stmt).2 :=
  ⟨fresh, rfl, rfl, rfl⟩

theorem lookup_indexed (linked : c.Linked) (fresh : c.tableNames.lookup stmt.table = none) (keySize : Nat) :
    ∃ index, (c.indexed stmt keySize).indexNames.lookup stmt.table =
        some (emplace ∅ ("_pk_" ++ stmt.table) c.nextIndexOid) ∧
      (c.indexed stmt keySize).indexes.lookup c.nextIndexOid = some index ∧
      index.tableName = stmt.table ∧ index.keyAttrs = pkAttrs stmt := by
  refine ⟨_, ?_, lookup_emplace_new linked.unusedIndex, rfl, rfl⟩
  simp [indexed, linked.unnamed stmt.table fresh]

theorem adds_indexed (linked : c.Linked) (fresh : c.tableNames.lookup stmt.table = none) (keySize : Nat) :
    Adds c (c.indexed stmt keySize) stmt.table := by
  obtain ⟨index, listed, known, owner, -⟩ := lookup_indexed linked fresh keySize
  refine ⟨?_, ?_, ?_, ?_⟩
  · intro oid other found
    simp only [indexed] at found ⊢
    by_cases same : oid = c.nextIndexOid
    · omega
    · rw [lookup_emplace_other same] at found
      exact Nat.lt_succ_of_lt (linked.indexOids oid other found)
  · intro oid other found
    have old : oid ≠ c.nextIndexOid := by
      have below := linked.indexOids oid other found
      omega
    simp only [indexed]
    rw [lookup_emplace_other old]
    exact found
  · intro other apart
    exact AList.lookup_insert_ne apart
  · intro names name oid here found
    rw [listed] at here
    cases here
    by_cases same : name = "_pk_" ++ stmt.table
    · subst same
      rw [lookup_emplace_new (AList.lookup_empty _)] at found
      cases found
      exact ⟨index, known, owner⟩
    · rw [lookup_emplace_other same] at found
      cases found

theorem Wf.indexed (wf : c.Wf) (fresh : c.tableNames.lookup stmt.table = none) (keySize : Nat) :
    (c.indexed stmt keySize).Wf := by
  apply wf.registers (registers_indexed fresh keySize) (adds_indexed wf.toLinked fresh keySize)
  intro _
  obtain ⟨index, listed, known, owner, key⟩ := lookup_indexed wf.toLinked fresh keySize
  exact ⟨_, _, _, index, listed, lookup_emplace_new (AList.lookup_empty _), known, owner, key⟩

/-- What an external table's statement does: nothing with an error, or one table without a key. -/
theorem handleCreate_parquet (insertEntry : InsertEntry) (folder : Folder) (c : Catalog)
    (external : stmt.format = .parquet) :
    (∃ message, c.handleCreateStatement insertEntry stmt folder = (c, .error message)) ∨
    ∃ next info, c.handleCreateStatement insertEntry stmt folder = (next, .ok info) ∧ Registers c next info ∧
      info.name = stmt.table ∧ info.pkAttrs = [] ∧ next.indexes = c.indexes ∧ next.indexNames = c.indexNames ∧
      next.nextIndexOid = c.nextIndexOid := by
  unfold handleCreateStatement
  simp only [external]
  unfold handleCreateExternalTable
  cases externalSchema stmt folder with
  | error message => exact .inl ⟨message, rfl⟩
  | ok schema =>
    simp only [createTable]
    cases taken : c.tableNames.lookup stmt.table with
    | some oid => exact .inl ⟨_, rfl⟩
    | none => exact .inr ⟨_, _, rfl, ⟨taken, rfl, rfl, rfl⟩, rfl, rfl, rfl, rfl, rfl⟩

theorem handleCreate_taken (insertEntry : InsertEntry) (folder : Folder) (row : stmt.format = .row)
    (taken : c.tableNames.lookup stmt.table = some oid) :
    ∃ message, c.handleCreateStatement insertEntry stmt folder = (c, .error message) := by
  refine ⟨tableExists stmt.table, ?_⟩
  unfold handleCreateStatement
  simp only [row, createTable, taken]

theorem Wf.external (wf : c.Wf) (registers : Registers c next info) (keyless : info.pkAttrs = [])
    (indexes : next.indexes = c.indexes) (names : next.indexNames = c.indexNames)
    (counter : next.nextIndexOid = c.nextIndexOid) : next.Wf := by
  apply wf.registers registers
  · refine ⟨?_, ?_, ?_, ?_⟩
    · rw [indexes, counter]
      exact wf.indexOids
    · intro oid index known
      rw [indexes]
      exact known
    · intro other _
      rw [names]
    · intro entries name oid listed
      rw [names, wf.unnamed info.name registers.fresh] at listed
      cases listed
  · intro declared
    exact absurd keyless declared

/-- Whatever a statement whose key fits does, the catalog stays well formed. -/
theorem Wf.create (wf : c.Wf) (fits : c.KeyFits stmt) : (c.handleCreateStatement insertEntry stmt folder).1.Wf := by
  cases format : stmt.format with
  | parquet =>
    rcases handleCreate_parquet insertEntry folder c format with
      ⟨message, same⟩ | ⟨next, info, same, registers, -, keyless, indexes, names, counter⟩
    · rw [same]
      exact wf
    · rw [same]
      exact wf.external registers keyless indexes names counter
  | row =>
    cases taken : c.tableNames.lookup stmt.table with
    | some oid =>
      obtain ⟨message, same⟩ := handleCreate_taken insertEntry folder format taken
      rw [same]
      exact wf
    | none =>
      rcases handleCreate_row insertEntry folder wf.toLinked format taken with
        ⟨-, keySize, same⟩ | ⟨wide, -⟩
      · rw [same]
        exact wf.indexed taken keySize
      · exact absurd (fits format taken) wide

theorem foldl_dropIndex (oids : List Nat) (c : Catalog) :
    (∀ oid, (oids.foldl dropIndex c).indexes.lookup oid = if oid ∈ oids then none else c.indexes.lookup oid) ∧
      (oids.foldl dropIndex c).nextIndexOid = c.nextIndexOid ∧
      (oids.foldl dropIndex c).nextTableOid = c.nextTableOid := by
  induction oids generalizing c with
  | nil => simp
  | cons first rest ih =>
    obtain ⟨indexes, counter, tables⟩ := ih (c.dropIndex first)
    refine ⟨?_, counter, tables⟩
    intro oid
    rw [List.foldl_cons, indexes oid]
    by_cases same : oid = first
    · subst same
      simp [dropIndex]
    · simp [dropIndex, same]

theorem freeStorage_indexes (c : Catalog) (storage : TableStorage) :
    (c.freeStorage storage).indexes = c.indexes ∧ (c.freeStorage storage).nextIndexOid = c.nextIndexOid ∧
      (c.freeStorage storage).nextTableOid = c.nextTableOid := by
  cases storage <;> exact ⟨rfl, rfl, rfl⟩

/-- The oids of a table's indexes. -/
def indexOidsOf (c : Catalog) (table : String) : List Nat :=
  ((c.indexNames.lookup table).getD ∅).entries.map Sigma.snd

variable {table : String}

theorem mem_indexOidsOf (member : oid ∈ c.indexOidsOf table) :
    ∃ names name, c.indexNames.lookup table = some names ∧ names.lookup name = some oid := by
  unfold indexOidsOf at member
  cases listed : c.indexNames.lookup table with
  | none => simp [listed] at member
  | some names =>
    obtain ⟨entry, inside, rfl⟩ := List.mem_map.mp member
    rw [listed] at inside
    exact ⟨names, entry.1, rfl, AList.mem_lookup_iff.mpr inside⟩

/-- What dropping a table leaves of the catalog. -/
structure Drops (c next : Catalog) (table : String) (oid : Nat) : Prop where
  tables : next.tables = c.tables.erase oid
  tableNames : next.tableNames = c.tableNames.erase table
  indexNames : next.indexNames = c.indexNames.erase table
  indexes : ∀ index, next.indexes.lookup index = if index ∈ c.indexOidsOf table then none else c.indexes.lookup index
  nextIndexOid : next.nextIndexOid = c.nextIndexOid
  nextTableOid : next.nextTableOid = c.nextTableOid

theorem drops_of_dropTable (found : c.tableNames.lookup table = some oid) :
    Drops c (c.dropTable table).1 table oid := by
  obtain ⟨indexes, counter, tables⟩ := foldl_dropIndex (c.indexOidsOf table) c
  unfold dropTable
  rw [found]
  simp only
  cases c.tables.lookup oid with
  | none => exact ⟨rfl, rfl, rfl, indexes, counter, tables⟩
  | some info =>
    obtain ⟨same, sameCounter, sameTables⟩ := freeStorage_indexes ((c.indexOidsOf table).foldl dropIndex c) info.storage
    refine ⟨rfl, rfl, rfl, ?_, sameCounter.trans counter, sameTables.trans tables⟩
    intro index
    exact (congrArg (AList.lookup index) same).trans (indexes index)

theorem Drops.lookup {other : Nat} (drops : Drops c next table oid)
    (found : next.tables.lookup other = some info) : other ≠ oid ∧ c.tables.lookup other = some info := by
  rw [drops.tables] at found
  by_cases same : other = oid
  · subst same
    rw [AList.lookup_erase] at found
    cases found
  · rw [AList.lookup_erase_ne same] at found
    exact ⟨same, found⟩

theorem Drops.survives {indexOid : Nat} {index : IndexInfo} (drops : Drops c next table oid)
    (linked : c.Linked) (known : c.indexes.lookup indexOid = some index) (apart : index.tableName ≠ table) :
    next.indexes.lookup indexOid = some index := by
  rw [drops.indexes, if_neg, known]
  intro member
  obtain ⟨names, name, listed, here⟩ := mem_indexOidsOf member
  obtain ⟨other, found, owner⟩ := linked.owned table names name indexOid listed here
  rw [known] at found
  cases found
  exact apart owner

theorem Wf.drop (wf : c.Wf) (found : c.tableNames.lookup table = some oid)
    (drops : Drops c next table oid) : next.Wf := by
  have apart : ∀ {other info}, other ≠ oid → c.tables.lookup other = some info → info.name ≠ table := by
    intro other info different known same
    have named := wf.registered other info known
    rw [same, found] at named
    exact different (Option.some.inj named).symm
  have kept : ∀ {name : String}, name ≠ table → next.tableNames.lookup name = c.tableNames.lookup name := by
    intro name different
    rw [drops.tableNames, AList.lookup_erase_ne different]
  have names : ∀ {name : String}, name ≠ table → next.indexNames.lookup name = c.indexNames.lookup name := by
    intro name different
    rw [drops.indexNames, AList.lookup_erase_ne different]
  refine ⟨⟨?_, ?_, ?_, ?_, ?_, ?_⟩, ?_⟩
  · intro other info known
    rw [drops.nextTableOid]
    exact wf.tableOids other info (drops.lookup known).2
  · intro other index known
    rw [drops.indexes] at known
    split at known
    · cases known
    · rw [drops.nextIndexOid]
      exact wf.indexOids other index known
  · intro name other known
    have different : name ≠ table := by
      rintro rfl
      rw [drops.tableNames, AList.lookup_erase] at known
      cases known
    rw [kept different] at known
    obtain ⟨info, here, named⟩ := wf.named name other known
    have elsewhere : other ≠ oid := by
      rintro rfl
      obtain ⟨dropped, there, itsName⟩ := wf.named table other found
      rw [here] at there
      cases there
      exact different (named.symm.trans itsName)
    refine ⟨info, ?_, named⟩
    rw [drops.tables, AList.lookup_erase_ne elsewhere]
    exact here
  · intro other info known
    obtain ⟨different, before⟩ := drops.lookup known
    rw [kept (apart different before)]
    exact wf.registered other info before
  · intro name missing
    by_cases same : name = table
    · subst same
      rw [drops.indexNames, AList.lookup_erase]
    · rw [kept same] at missing
      rw [names same]
      exact wf.unnamed name missing
  · intro other entries name index listed here
    have different : other ≠ table := by
      rintro rfl
      rw [drops.indexNames, AList.lookup_erase] at listed
      cases listed
    rw [names different] at listed
    obtain ⟨info, known, owner⟩ := wf.owned other entries name index listed here
    exact ⟨info, drops.survives wf.toLinked known (owner.symm ▸ different), owner⟩
  · intro other info known declared
    obtain ⟨different, before⟩ := drops.lookup known
    obtain ⟨entries, name, indexOid, index, listed, here, present, owner, key⟩ := wf.keyed other info before declared
    have elsewhere := apart different before
    refine ⟨entries, name, indexOid, index, ?_, here, ?_, owner, key⟩
    · rw [names elsewhere]
      exact listed
    · exact drops.survives wf.toLinked present (owner.symm ▸ elsewhere)

theorem Initial.wf (initial : c.Initial) : c.Wf := by
  obtain ⟨tables, tableNames, indexes, indexNames⟩ := initial
  refine ⟨⟨?_, ?_, ?_, ?_, ?_, ?_⟩, ?_⟩ <;> simp [tables, tableNames, indexes, indexNames]

/-- Row statements replace a table's heap and counter only. -/
theorem Wf.rows {after : TableInfo} {store : PageStore} (wf : c.Wf)
    (found : c.tables.lookup oid = some info) (name : after.name = info.name) (key : after.pkAttrs = info.pkAttrs) :
    Wf { c with store := store, tables := c.tables.insert oid after } := by
  have before : ∀ {other info'}, (c.tables.insert oid after).lookup other = some info' →
      ∃ old, c.tables.lookup other = some old ∧ info'.name = old.name ∧ info'.pkAttrs = old.pkAttrs := by
    intro other info' known
    by_cases same : other = oid
    · subst same
      rw [AList.lookup_insert] at known
      cases known
      exact ⟨info, found, name, key⟩
    · rw [AList.lookup_insert_ne same] at known
      exact ⟨info', known, rfl, rfl⟩
  refine ⟨⟨?_, wf.indexOids, ?_, ?_, wf.unnamed, wf.owned⟩, ?_⟩
  · intro other info' known
    obtain ⟨old, here, -⟩ := before known
    exact wf.tableOids other old here
  · intro table other named
    obtain ⟨old, here, same⟩ := wf.named table other named
    by_cases target : other = oid
    · subst target
      rw [found] at here
      cases here
      exact ⟨after, AList.lookup_insert _, name.trans same⟩
    · exact ⟨old, (AList.lookup_insert_ne target).trans here, same⟩
  · intro other info' known
    obtain ⟨old, here, same, -⟩ := before known
    rw [same]
    exact wf.registered other old here
  · intro other info' known declared
    obtain ⟨old, here, same, sameKey⟩ := before known
    rw [sameKey] at declared
    unfold HasKeyIndex
    rw [same, sameKey]
    exact wf.keyed other old here declared

theorem Wf.entries {index after : IndexInfo} {store : PageStore} (wf : c.Wf)
    (found : c.indexes.lookup oid = some index) (owner : after.tableName = index.tableName)
    (key : after.keyAttrs = index.keyAttrs) : Wf { c with store := store, indexes := c.indexes.insert oid after } := by
  have kept : ∀ {other old}, c.indexes.lookup other = some old → ∃ new,
      (c.indexes.insert oid after).lookup other = some new ∧ new.tableName = old.tableName ∧
        new.keyAttrs = old.keyAttrs := by
    intro other old known
    by_cases same : other = oid
    · subst same
      rw [found] at known
      cases known
      exact ⟨after, AList.lookup_insert _, owner, key⟩
    · exact ⟨old, (AList.lookup_insert_ne same).trans known, rfl, rfl⟩
  refine ⟨⟨wf.tableOids, ?_, wf.named, wf.registered, wf.unnamed, ?_⟩, ?_⟩
  · intro other index' known
    by_cases same : other = oid
    · subst same
      exact wf.indexOids other index found
    · exact wf.indexOids other index' ((AList.lookup_insert_ne same).symm.trans known)
  · intro table names name other listed here
    obtain ⟨old, known, its⟩ := wf.owned table names name other listed here
    obtain ⟨new, now, same, -⟩ := kept known
    exact ⟨new, now, same.trans its⟩
  · intro other info known declared
    obtain ⟨names, name, indexOid, old, listed, here, present, its, same⟩ := wf.keyed other info known declared
    obtain ⟨new, now, sameOwner, sameKey⟩ := kept present
    exact ⟨names, name, indexOid, new, listed, here, now, sameOwner.trans its, sameKey.trans same⟩

theorem Wf.step {a : Ddl} (wf : c.Wf) (fits : c.KeysFit a) (taken : c.step insertEntry a = some next) : next.Wf := by
  cases a with
  | create stmt folder =>
    cases taken
    exact wf.create (fits stmt folder rfl)
  | drop table =>
    cases taken
    cases found : c.tableNames.lookup table with
    | none =>
      simp only [dropTable, found]
      exact wf
    | some oid => exact wf.drop found (drops_of_dropTable found)
  | clear =>
    cases taken
    exact Initial.wf ⟨rfl, rfl, rfl, rfl⟩
  | rows oid heap nextId store =>
    simp only [Catalog.step, Catalog.rows] at taken
    split at taken
    · next info found =>
      split at taken
      · cases taken
        exact wf.rows found rfl rfl
      · cases taken
    · cases taken
  | entries oid tree store =>
    simp only [Catalog.step, Catalog.entries] at taken
    split at taken
    · next index found =>
      cases taken
      exact wf.entries found rfl rfl
    · cases taken

theorem wf_run {log : List Empty} (run : Run (ddl insertEntry) KeysFit log c) : c.Wf := by
  apply Run.invariant (M := ddl insertEntry) (I := fun _ c => Wf c) _ _ run
  · intro c initial
    exact Initial.wf initial
  · intro log c next a events _ wf fits taken
    obtain ⟨after, moved, same⟩ := Option.map_eq_some_iff.mp taken
    cases same
    exact wf.step fits moved

end Catalog

end BumbleBee.Metadata
