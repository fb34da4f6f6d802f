import BumbleBee.External.ColumnScan
import BumbleBee.External.PageReadBack

/-!
Part files and how they are opened. A file is written with the types of the table and
opened with those of its footer, and `ExternalSchemaMatches` compares the two. Files
that were in the folder before the table are the row groups their readers see. The
rows of a file come back exactly when every column has a type that is written as
itself and values and pages that the format keeps.
-/

namespace BumbleBee.External
open Library.ByteCodec BumbleBee.Types

structure StoredGroup where
  numRows : Nat
  pages : List StoredPage

inductive StoredFile where
  | adopted (columns : List SchemaElement) (groups : List (RowGroup Datum))
  | written (columns : List SchemaElement) (groups : List StoredGroup)

structure TableSchema where
  columns : List ColumnType
  nonempty : columns ≠ []

def TableSchema.plan (schema : TableSchema) : ColumnPlan Datum where
  columnCount := schema.columns.length
  live _ := true
  predicate := none
  reads_live := by
    intro p absent
    cases absent

section Files

variable (ctx : ParquetContext) (schema : TableSchema)

def columnOf (c : Nat) (rows : List (Row Datum)) : List (Option Datum) := rows.map fun row => (row[c]?).getD none

/-- `Flush` of one row group. -/
def writeGroup (rows : List (Row Datum)) : StoredGroup :=
  ⟨rows.length, schema.columns.zipIdx.map fun p => writePage ctx p.1 (columnOf p.2 rows)⟩

def writeFile (file : PartFile (Row Datum)) : StoredFile :=
  .written (schema.columns.map schemaElement) (file.rowGroups.map (writeGroup ctx schema))

/-- A reader positioned at the one page of its column. -/
def columnReader (t : LogicalType) (page : DataPage Datum) : ColumnReader Datum :=
  ⟨t != .boolean && t != .string && t != .timestamp, [], [], .plain [], [page]⟩

def openColumn (numRows : Nat) (t : LogicalType) (page : StoredPage) : Option (ColumnReader Datum) :=
  (readPage ctx t numRows page).map (columnReader t)

def nullReader (numRows : Nat) : ColumnReader Datum := ⟨false, [], List.replicate numRows false, .plain [], []⟩

theorem contents_nullReader (numRows : Nat) :
    (nullReader numRows).contents = some (List.replicate numRows none) := by
  have rows : rowsOf ([] : List Datum) (List.replicate numRows false) (.plain []) =
      some (List.replicate numRows none) := by
    induction numRows with
    | zero => rfl
    | succ numRows ih =>
      rw [List.replicate_succ, rowsOf, ih]
      rfl
  simp only [nullReader, ColumnReader.contents, rows, pagesRows, List.append_nil]

/-- The columns of a group, all with its number of rows; past the last one there is nothing to read. -/
def groupOf (numRows : Nat) (readers : List (ColumnReader Datum)) : Option (RowGroup Datum) :=
  if held : ∀ reader ∈ readers, reader.contents.map List.length = some numRows then
    some {
      numRows := numRows
      columns := fun c => (readers[c]?).getD (nullReader numRows)
      cells := fun c => ((readers[c]?).getD (nullReader numRows)).contents.getD []
      intact := by
        intro c
        cases found : readers[c]? with
        | none => simp only [Option.getD_none, contents_nullReader, Option.getD_some]
        | some reader =>
          obtain ⟨cells, contents, -⟩ := Option.map_eq_some_iff.mp (held reader (List.mem_of_getElem? found))
          simp only [Option.getD_some, contents]
      full := by
        intro c
        cases found : readers[c]? with
        | none => simp only [Option.getD_none, contents_nullReader, Option.getD_some, List.length_replicate]
        | some reader =>
          obtain ⟨cells, contents, length⟩ := Option.map_eq_some_iff.mp (held reader (List.mem_of_getElem? found))
          simp only [Option.getD_some, contents, length] }
  else none

def readGroup (types : List LogicalType) (group : StoredGroup) : Option (RowGroup Datum) :=
  if types.length = group.pages.length then
    (mapAll (fun p => openColumn ctx group.numRows p.1 p.2) (types.zip group.pages)).bind (groupOf group.numRows)
  else none

def externalSchemaMatches (types : List LogicalType) : Bool :=
  schema.columns.length == types.length && (schema.columns.zip types).all fun p => columnMatches p.1.logical p.2

/-- `none` is an exception: a footer of other types, or a page that cannot be read. -/
def openFile : StoredFile → Option (List (RowGroup Datum))
  | .adopted columns groups =>
    (mapAll deriveLogicalType columns).bind fun types =>
      if externalSchemaMatches schema types then some groups else none
  | .written columns groups =>
    (mapAll deriveLogicalType columns).bind fun types =>
      if externalSchemaMatches schema types then mapAll (readGroup ctx types) groups else none

def readFile (file : StoredFile) : Option (PartFile (Row Datum)) :=
  (openFile ctx schema file).map fun groups => ⟨groups.map schema.plan.groupRows⟩

end Files

section Groups

variable {ctx : ParquetContext} {schema : TableSchema}

/-- What must hold of the rows of a group for its pages to give them back. -/
structure GroupKept (ctx : ParquetContext) (schema : TableSchema) (rows : List (Row Datum)) : Prop where
  wide : ∀ row ∈ rows, row.length = schema.columns.length
  fits : ∀ c t, schema.columns[c]? = some t → PageFits ctx t (columnOf c rows)
  kept : ∀ c t, schema.columns[c]? = some t → ColumnKept t (columnOf c rows)

theorem contents_columnReader (t : LogicalType) (page : DataPage Datum) :
    (columnReader t page).contents = rowsOf [] page.defined page.payload := by
  simp only [columnReader, ColumnReader.contents, rowsOf, pagesRows]
  cases rowsOf [] page.defined page.payload with
  | none => rfl
  | some rows => simp

theorem openColumn_spec (ctx : ParquetContext) {t : ColumnType} (readable : t.readable = true)
    (cells : List (Option Datum)) (few : cells.length < 2 ^ 31) :
    (openColumn ctx cells.length t.logical (writePage ctx t cells) = none ∧
        ¬(PageFits ctx t cells ∧ ColumnKept t cells)) ∨
      PageFits ctx t cells ∧ ∃ reader held,
        openColumn ctx cells.length t.logical (writePage ctx t cells) = some reader ∧
        reader.contents = some held ∧ held.length = cells.length ∧ (held = cells ↔ ColumnKept t cells) := by
  rcases Classical.em (PageFits ctx t cells) with fits | large
  · rw [openColumn, readPage_writePage ctx readable few fits, ← keptColumn_eq_self readable]
    cases kept : keptColumn t cells with
    | none =>
      refine .inl ⟨rfl, ?_⟩
      intro both
      cases both.2
    | some values =>
      obtain ⟨held, found, same⟩ := rowsOf_written (length_keptColumn kept)
      refine .inr ⟨fits, _, held, rfl, ?_, ?_, same.trans (Option.some_inj).symm⟩
      · rw [contents_columnReader, found]
      · rw [length_rowsOf found, List.length_map]
  · refine .inl ⟨?_, fun both => large both.1⟩
    rw [openColumn, readPage, (preparePage_writePage ctx t cells).2 large]
    rfl

theorem length_columnOf (c : Nat) (rows : List (Row Datum)) : (columnOf c rows).length = rows.length :=
  List.length_map ..

variable {rows : List (Row Datum)}

/-- The rows of a group are those stored exactly when its columns are. -/
theorem groupRows_eq_iff {group : RowGroup Datum} (size : group.numRows = rows.length) :
    schema.plan.groupRows group = rows ↔ (∀ row ∈ rows, row.length = schema.columns.length) ∧
      ∀ c, c < schema.columns.length → group.cells c = columnOf c rows := by
  have row : ∀ i, i < rows.length → (schema.plan.groupRows group)[i]? =
      some ((List.range schema.columns.length).map fun c => ((group.cells c)[i]?).getD none) := by
    intro i inside
    rw [ColumnPlan.groupRows, List.getElem?_map, List.getElem?_range (by omega)]
    rfl
  constructor
  · intro same
    rw [same] at row
    constructor
    · intro r member
      obtain ⟨i, found⟩ := List.getElem?_of_mem member
      have inside := (List.getElem?_eq_some_iff.mp found).1
      rw [row i inside] at found
      rw [← Option.some.inj found, List.length_map, List.length_range]
    · intro c small
      apply List.ext_getElem?
      intro i
      by_cases inside : i < rows.length
      · obtain ⟨v, stored⟩ : ∃ v, (group.cells c)[i]? = some v :=
          ⟨_, List.getElem?_eq_getElem (by rw [group.full c, size]; exact inside)⟩
        rw [columnOf, List.getElem?_map, row i inside, Option.map_some, List.getElem?_map,
          List.getElem?_range small, Option.map_some, stored]
        rfl
      · rw [List.getElem?_eq_none (by rw [group.full c]; omega),
          List.getElem?_eq_none (by rw [length_columnOf]; omega)]
  · rintro ⟨wide, columns⟩
    apply List.ext_getElem?
    intro i
    by_cases inside : i < rows.length
    · rw [row i inside, List.getElem?_eq_getElem inside]
      congr 1
      apply List.ext_getElem?
      intro c
      have width := wide _ (List.getElem_mem inside)
      by_cases small : c < schema.columns.length
      · rw [List.getElem?_map, List.getElem?_range small, Option.map_some, columns c small, columnOf, List.getElem?_map,
          List.getElem?_eq_getElem inside, Option.map_some, Option.getD_some,
          List.getElem?_eq_getElem (by rw [width]; exact small)]
        rfl
      · rw [List.getElem?_eq_none (by rw [List.length_map, List.length_range]; omega),
          List.getElem?_eq_none (by omega)]
    · rw [List.getElem?_eq_none (by rw [ColumnPlan.groupRows, List.length_map, List.length_range]; omega),
        List.getElem?_eq_none (by omega)]

theorem groupOf_spec {numRows : Nat} {readers : List (ColumnReader Datum)}
    (held : ∀ reader ∈ readers, reader.contents.map List.length = some numRows) :
    ∃ group, groupOf numRows readers = some group ∧ group.numRows = numRows ∧
      ∀ c reader cells, readers[c]? = some reader → reader.contents = some cells → group.cells c = cells := by
  refine ⟨_, dif_pos held, rfl, ?_⟩
  intro c reader cells found contents
  show ((readers[c]?).getD (nullReader numRows)).contents.getD [] = cells
  rw [found, Option.getD_some, contents, Option.getD_some]

theorem zip_writeGroup (rows : List (Row Datum)) :
    (schema.columns.map ColumnType.logical).zip (writeGroup ctx schema rows).pages =
      schema.columns.zipIdx.map fun p => (p.1.logical, writePage ctx p.1 (columnOf p.2 rows)) := by
  have types : schema.columns.map ColumnType.logical = schema.columns.zipIdx.map fun p => p.1.logical := by
    conv_lhs => rw [← List.zipIdx_map_fst 0 schema.columns]
    rw [List.map_map]
    rfl
  rw [types]
  exact List.zip_map' ..

theorem readGroup_spec (readable : ∀ t ∈ schema.columns, t.readable = true) (few : rows.length < 2 ^ 31) :
    (readGroup ctx (schema.columns.map ColumnType.logical) (writeGroup ctx schema rows) = none ∧
        ¬GroupKept ctx schema rows) ∨
      ∃ group, readGroup ctx (schema.columns.map ColumnType.logical) (writeGroup ctx schema rows) = some group ∧
        group.numRows = rows.length ∧ (schema.plan.groupRows group = rows ↔ GroupKept ctx schema rows) := by
  have column : ∀ c t, schema.columns[c]? = some t →
      (openColumn ctx rows.length t.logical (writePage ctx t (columnOf c rows)) = none ∧
          ¬(PageFits ctx t (columnOf c rows) ∧ ColumnKept t (columnOf c rows))) ∨
        PageFits ctx t (columnOf c rows) ∧ ∃ reader held,
          openColumn ctx rows.length t.logical (writePage ctx t (columnOf c rows)) = some reader ∧
          reader.contents = some held ∧ held.length = rows.length ∧
          (held = columnOf c rows ↔ ColumnKept t (columnOf c rows)) := by
    intro c t found
    have spec := openColumn_spec ctx (readable t (List.mem_of_getElem? found)) (columnOf c rows)
      (by rw [length_columnOf]; exact few)
    rw [length_columnOf] at spec
    exact spec
  have pages : (schema.columns.map ColumnType.logical).length = (writeGroup ctx schema rows).pages.length := by
    simp [writeGroup]
  rw [readGroup, if_pos pages, zip_writeGroup, mapAll_map]
  cases opened : mapAll (fun p : ColumnType × Nat => openColumn ctx (writeGroup ctx schema rows).numRows p.1.logical
      (writePage ctx p.1 (columnOf p.2 rows))) schema.columns.zipIdx with
  | none =>
    refine .inl ⟨rfl, ?_⟩
    intro kept
    obtain ⟨p, member, unread⟩ := exists_of_mapAll_none opened
    have found := (List.mk_mem_zipIdx_iff_getElem?).mp member
    rcases column p.2 p.1 found with ⟨-, lost⟩ | ⟨-, reader, held, read, -⟩
    · exact lost ⟨kept.fits p.2 p.1 found, kept.kept p.2 p.1 found⟩
    · have same : openColumn ctx rows.length p.1.logical (writePage ctx p.1 (columnOf p.2 rows)) = none := unread
      rw [read] at same
      cases same
  | some readers =>
    have length : readers.length = schema.columns.length := (length_mapAll opened).trans List.length_zipIdx
    have each : ∀ c t, schema.columns[c]? = some t → PageFits ctx t (columnOf c rows) ∧ ∃ reader held,
        readers[c]? = some reader ∧ reader.contents = some held ∧ held.length = rows.length ∧
        (held = columnOf c rows ↔ ColumnKept t (columnOf c rows)) := by
      intro c t found
      have indexed : schema.columns.zipIdx[c]? = some (t, c) := by
        rw [List.getElem?_zipIdx, found, Option.map_some, Nat.zero_add]
      obtain ⟨reader, read, listed⟩ := getElem?_mapAll opened indexed
      have read : openColumn ctx rows.length t.logical (writePage ctx t (columnOf c rows)) = some reader := read
      rcases column c t found with ⟨unread, -⟩ | ⟨fits, other, held, again, spec⟩
      · rw [read] at unread
        cases unread
      · rw [read] at again
        cases again
        exact ⟨fits, reader, held, listed, spec⟩
    have same : ∀ reader ∈ readers, reader.contents.map List.length = some rows.length := by
      intro reader member
      obtain ⟨c, listed⟩ := List.getElem?_of_mem member
      have small := (List.getElem?_eq_some_iff.mp listed).1
      obtain ⟨-, other, held, again, contents, size, -⟩ := each c _ (List.getElem?_eq_getElem (by omega))
      rw [listed] at again
      cases again
      rw [contents, Option.map_some, size]
    obtain ⟨group, built, size, cells⟩ := groupOf_spec same
    refine .inr ⟨group, built, size, ?_⟩
    rw [groupRows_eq_iff size]
    constructor
    · rintro ⟨wide, columns⟩
      refine ⟨wide, fun c t found => (each c t found).1, ?_⟩
      intro c t found
      obtain ⟨-, reader, held, listed, contents, -, kept⟩ := each c t found
      rw [← kept, ← cells c reader held listed contents]
      exact columns c (List.getElem?_eq_some_iff.mp found).1
    · intro kept
      refine ⟨kept.wide, ?_⟩
      intro c small
      obtain ⟨-, reader, held, listed, contents, -, iff⟩ := each c _ (List.getElem?_eq_getElem small)
      rw [cells c reader held listed contents]
      exact iff.mpr (kept.kept c _ (List.getElem?_eq_getElem small))

end Groups

section Files

variable {ctx : ParquetContext} {schema : TableSchema}

def PartFile.Small {R : Type} (file : PartFile R) : Prop := ∀ rows ∈ file.rowGroups, rows.length < 2 ^ 31

/-- What must hold of a part file for a scan to give its rows back. -/
structure FileKept (ctx : ParquetContext) (schema : TableSchema) (file : PartFile (Row Datum)) : Prop where
  readable : ∀ t ∈ schema.columns, t.readable = true
  groups : ∀ rows ∈ file.rowGroups, GroupKept ctx schema rows

theorem derived_of_readable (readable : ∀ t ∈ schema.columns, t.readable = true) :
    mapAll deriveLogicalType (schema.columns.map schemaElement) = some (schema.columns.map ColumnType.logical) := by
  rw [mapAll_map]
  generalize schema.columns = columns at readable
  induction columns with
  | nil => rfl
  | cons t columns ih =>
    rw [mapAll, deriveLogicalType_of_readable (readable t List.mem_cons_self),
      ih fun other member => readable other (List.mem_cons_of_mem t member)]
    rfl

theorem columnMatches_logical {t : ColumnType} (readable : t.readable = true) :
    columnMatches t.logical t.logical = true := by
  obtain ⟨file, derived, same⟩ := columnMatches_written t
  rw [deriveLogicalType_of_readable readable] at derived
  cases derived
  rw [same, readable]

theorem matches_of_readable (readable : ∀ t ∈ schema.columns, t.readable = true) :
    externalSchemaMatches schema (schema.columns.map ColumnType.logical) = true := by
  rw [externalSchemaMatches, List.length_map, beq_self_eq_true, Bool.true_and, List.all_eq_true]
  intro p member
  rw [List.zip_map_right] at member
  obtain ⟨q, inside, rfl⟩ := List.mem_map.mp member
  have same := List.of_mem_zip inside
  have equal : q.1 = q.2 := by
    obtain ⟨i, found⟩ := List.getElem?_of_mem inside
    obtain ⟨one, other⟩ := List.getElem?_zip_eq_some.mp found
    exact Option.some.inj (one.symm.trans other)
  show columnMatches q.1.logical q.2.logical = true
  rw [← equal]
  exact columnMatches_logical (readable q.1 same.1)

theorem openFile_unreadable {t : ColumnType} (member : t ∈ schema.columns) (unreadable : t.readable = false)
    (file : PartFile (Row Datum)) : openFile ctx schema (writeFile ctx schema file) = none := by
  rw [writeFile, openFile]
  cases derived : mapAll deriveLogicalType (schema.columns.map schemaElement) with
  | none => rfl
  | some types =>
    obtain ⟨c, found⟩ := List.getElem?_of_mem member
    have element : (schema.columns.map schemaElement)[c]? = some (schemaElement t) := by
      rw [List.getElem?_map, found]
      rfl
    obtain ⟨derivedType, one, listed⟩ := getElem?_mapAll derived element
    obtain ⟨file', derived', same⟩ := columnMatches_written t
    rw [one] at derived'
    cases derived'
    apply if_neg
    intro all
    rw [externalSchemaMatches, Bool.and_eq_true] at all
    have pair : (schema.columns.zip types)[c]? = some (t, derivedType) := List.getElem?_zip_eq_some.mpr ⟨found, listed⟩
    have here := List.all_eq_true.mp all.2 _ (List.mem_of_getElem? pair)
    rw [same, unreadable] at here
    cases here

theorem readFile_spec {file : PartFile (Row Datum)} (small : file.Small) :
    (readFile ctx schema (writeFile ctx schema file) = some file ↔ FileKept ctx schema file) ∧
      ∀ other, readFile ctx schema (writeFile ctx schema file) = some other →
        other.rowGroups.map List.length = file.rowGroups.map List.length := by
  by_cases readable : ∀ t ∈ schema.columns, t.readable = true
  · have opened : openFile ctx schema (writeFile ctx schema file) =
        mapAll (fun rows => readGroup ctx (schema.columns.map ColumnType.logical) (writeGroup ctx schema rows))
          file.rowGroups := by
      rw [writeFile, openFile, derived_of_readable readable, Option.bind_some, if_pos (matches_of_readable readable),
        mapAll_map]
    have recovered : (mapAll (fun rows => readGroup ctx (schema.columns.map ColumnType.logical)
        (writeGroup ctx schema rows)) file.rowGroups).map (List.map schema.plan.groupRows) = some file.rowGroups ↔
        ∀ rows ∈ file.rowGroups, GroupKept ctx schema rows := by
      apply mapAll_recovers
      intro rows member
      rcases readGroup_spec readable (small rows member) with lost | ⟨group, read, -, same⟩
      · exact .inl lost
      · exact .inr ⟨group, read, same⟩
    constructor
    · have groups : readFile ctx schema (writeFile ctx schema file) = some file ↔
          (openFile ctx schema (writeFile ctx schema file)).map (List.map schema.plan.groupRows) =
            some file.rowGroups := by
        rw [readFile]
        cases openFile ctx schema (writeFile ctx schema file) with
        | none => exact ⟨fun impossible => (by cases impossible), fun impossible => (by cases impossible)⟩
        | some groups =>
          rw [Option.map_some, Option.map_some, Option.some.injEq, Option.some.injEq]
          exact ⟨fun same => congrArg PartFile.rowGroups same, fun same => congrArg PartFile.mk same⟩
      rw [groups, opened, recovered]
      exact ⟨fun kept => ⟨readable, kept⟩, FileKept.groups⟩
    · intro other read
      rw [readFile, opened] at read
      obtain ⟨groups, all, same⟩ := Option.map_eq_some_iff.mp read
      rw [← same]
      rw [List.map_map]
      apply map_of_mapAll all
      intro rows member group one
      rcases readGroup_spec readable (small rows member) with ⟨unread, -⟩ | ⟨found, again, size, -⟩
      · rw [one] at unread
        cases unread
      · rw [one] at again
        cases again
        show (schema.plan.groupRows group).length = rows.length
        rw [ColumnPlan.groupRows, List.length_map, List.length_range, size]
  · obtain ⟨t, failing⟩ := not_forall.mp readable
    obtain ⟨member, unreadable⟩ := Classical.not_imp.mp failing
    have lost : readFile ctx schema (writeFile ctx schema file) = none := by
      rw [readFile, openFile_unreadable member (Bool.not_eq_true _ ▸ unreadable)]
      rfl
    rw [lost]
    refine ⟨⟨fun impossible => (by cases impossible), fun kept => absurd kept.readable readable⟩, ?_⟩
    intro other impossible
    cases impossible

end Files

end BumbleBee.External
