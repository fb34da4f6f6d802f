import BumbleBee.Metadata.Registration

/-!
CREATE TABLE is all-or-nothing exactly for the statements whose key fits an index: a
wider key is refused only after the table has been registered.
-/

namespace BumbleBee.Metadata
open Library.Transition Storage.SlottedPage

namespace Catalog

def Unchanged (c after : Catalog) : Prop :=
  after.tables = c.tables ∧ after.tableNames = c.tableNames ∧ after.indexes = c.indexes ∧
    after.indexNames = c.indexNames ∧ ∀ pageId, after.store.Allocated pageId ↔ c.store.Allocated pageId

/-- A statement that throws changes nothing; after one that succeeds every keyed table has the index of its key,
and the new table's key is the declared one. -/
def AllOrNothing (insertEntry : InsertEntry) (c : Catalog) (stmt : CreateStatement) (folder : Folder) : Prop :=
  match c.handleCreateStatement insertEntry stmt folder with
  | (after, .error _) => Unchanged c after
  | (after, .ok _) =>
    (∀ oid info, after.tables.lookup oid = some info → info.pkAttrs ≠ [] → after.HasKeyIndex info) ∧
      ∃ info, after.getTable stmt.table = some info ∧
        info.pkAttrs.map (fun i => info.schema.columns[i]?.map Column.name) = stmt.primaryKey.map some

theorem unchanged_refl (c : Catalog) : Unchanged c c := ⟨rfl, rfl, rfl, rfl, fun _ => Iff.rfl⟩

end Catalog

open Catalog

/-- In a history in which every key fitted an index, CREATE TABLE is all-or-nothing exactly if its key fits too. -/
theorem create_all_or_nothing_iff {insertEntry : InsertEntry} {log : List Empty} {c : Catalog}
    (run : Run (ddl insertEntry) KeysFit log c) (stmt : CreateStatement) (folder : Folder) :
    c.AllOrNothing insertEntry stmt folder ↔ c.KeyFits stmt := by
  have wf := wf_run run
  unfold AllOrNothing
  cases format : stmt.format with
  | parquet =>
    have fits : c.KeyFits stmt := fun row => by rw [format] at row; cases row
    rcases handleCreate_parquet insertEntry folder c format with
      ⟨message, same⟩ | ⟨next, info, same, registers, name, keyless, indexes, names, counter⟩
    · rw [same]
      exact iff_of_true (unchanged_refl c) fits
    · have after := wf.external registers keyless indexes names counter
      obtain ⟨named, table⟩ := registers.lookup_new wf.toLinked
      rw [same]
      refine iff_of_true ⟨after.keyed, info, ?_, ?_⟩ fits
      · rw [getTable, ← name, named]
        exact table
      · rw [keyless, stmt.external format]
        rfl
  | row =>
    cases taken : c.tableNames.lookup stmt.table with
    | some oid =>
      obtain ⟨message, same⟩ := handleCreate_taken insertEntry folder format taken
      have fits : c.KeyFits stmt := fun _ fresh => by rw [taken] at fresh; cases fresh
      rw [same]
      exact iff_of_true (unchanged_refl c) fits
    | none =>
      rcases handleCreate_row insertEntry folder wf.toLinked format taken with
        ⟨narrow, keySize, same⟩ | ⟨wide, message, same⟩
      · obtain ⟨named, table⟩ := (registers_indexed taken keySize).lookup_new wf.toLinked
        rw [same]
        refine iff_of_true ⟨(wf.indexed taken keySize).keyed, (c.registered stmt).2, ?_, pkAttrs_names format⟩
          fun _ _ => narrow
        exact (congrArg (Option.bind · _) named).trans table
      · rw [same]
        refine iff_of_false ?_ fun fits => wide (fits format taken)
        rintro ⟨-, names, -⟩
        have listed := congrArg (AList.lookup stmt.table) names
        rw [taken] at listed
        exact absurd ((lookup_emplace_new taken).symm.trans listed) (by simp)

def emptyCatalog : Catalog :=
  ⟨⟨fun _ => TablePage.init ⟨invalidPageId, 0, [], fun _ => 0⟩, [], 0⟩, ∅, ∅, ∅, ∅, 0, 0⟩

theorem bigint_keyed {names : List String} (declared : names ≠ []) : StorageFormat.row = .row →
    names ≠ [] ∧ ∀ name ∈ names, ∃ column ∈ names.map bigint, column.name = name := by
  intro _
  refine ⟨declared, ?_⟩
  intro name member
  exact ⟨bigint name, List.mem_map_of_mem member, rfl⟩

theorem bigint_external (names : List String) : StorageFormat.row = .parquet → names = [] := by
  intro same
  cases same

/-- A table of BIGINT columns, all of them its key. -/
def bigintTable (table : String) (key : List String) (declared : key ≠ []) : CreateStatement :=
  ⟨table, key.map bigint, key, .row, "", bigint_keyed declared, bigint_external key⟩

def noFolder : Folder := ⟨none, .ok none, [], fun _ => .error "", none⟩

def oneKey : CreateStatement := bigintTable "t" ["a"] (by simp)

def nineKeys : CreateStatement := bigintTable "t" ["a", "b", "c", "d", "e", "f", "g", "h", "i"] (by simp)

/-- A table keyed by one BIGINT is created with its index. -/
theorem create_all_or_nothing_narrow :
    Run (ddl fun _ _ _ _ => none) KeysFit [] emptyCatalog ∧
      emptyCatalog.AllOrNothing (fun _ _ _ _ => none) oneKey noFolder := by
  have run : Run (ddl fun _ _ _ _ => none) KeysFit [] emptyCatalog := Run.start ⟨rfl, rfl, rfl, rfl⟩
  have fits : emptyCatalog.KeyFits oneKey := fun _ _ => by decide
  exact ⟨run, (create_all_or_nothing_iff run oneKey noFolder).mpr fits⟩

/-- Nine BIGINT key columns: the statement throws and leaves the table and its page behind, without an index. -/
theorem create_leaves_table :
    ∃ after message, Run (ddl fun _ _ _ _ => none) KeysFit [] emptyCatalog ∧
      emptyCatalog.handleCreateStatement (fun _ _ _ _ => none) nineKeys noFolder = (after, .error message) ∧
      emptyCatalog.getTable "t" = none ∧ (after.getTable "t").isSome ∧ after.indexNames.lookup "t" = none ∧
      after.store.Allocated 0 ∧ ¬emptyCatalog.store.Allocated 0 := by
  have run : Run (ddl fun _ _ _ _ => none) KeysFit [] emptyCatalog := Run.start ⟨rfl, rfl, rfl, rfl⟩
  have linked := (wf_run run).toLinked
  rcases handleCreate_row (fun _ _ _ _ => none) noFolder linked (show nineKeys.format = .row from rfl) rfl with
    ⟨narrow, -⟩ | ⟨-, message, same⟩
  · exact absurd narrow (by decide)
  · refine ⟨_, message, run, same, rfl, ?_, rfl, ⟨by decide, List.not_mem_nil⟩,
      fun allocated => absurd allocated.1 (by decide)⟩
    exact Option.isSome_of_eq_some (getTable_registered linked (show _ = none from rfl))

end BumbleBee.Metadata
