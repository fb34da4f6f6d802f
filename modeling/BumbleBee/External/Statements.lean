import BumbleBee.External.WriteRead
import BumbleBee.External.ZoneFilter

/-!
INSERT, DELETE and UPDATE of several sessions on one external table. A statement scans
the newest manifest, and later finalizes over whatever manifest is then the newest.
When that is still the one it scanned, its effect is that of the statement run alone;
no check in the code asks for it.
-/

namespace BumbleBee.External
open Library.Transition BumbleBee.Types Function

/-- `insert` gives the rows its source plan produces from the rows of the table. -/
inductive DmlStatement where
  | insert (source : List (Row Datum) → List (Row Datum))
  | delete (filter : WhereExpression)
  | update (filter : WhereExpression) (assign : Row Datum → Row Datum)

/-- A statement between its scan and its `Finalize`. -/
structure Pending where
  statement : DmlStatement
  version : Nat
  collected : TableWrite

structure TableSessions (S : Type) where
  table : FolderTable
  pending : S → Option Pending

inductive DmlAction (S : Type) where
  | scan (s : S) (statement : DmlStatement)
  | finalize (s : S)
  | refuse (s : S)

inductive DmlEvent where
  | committed (statement : DmlStatement)
  | concurrentModification
  | failed

section Model

variable (ctx : ParquetContext) (schema : TableSchema)

def WhereExpression.matched (filter : WhereExpression) (readers : List (PartFile (Row Datum))) :
    List (Nat × Row Datum) :=
  External.matched (filter.eval ctx.cast schema) (rowGroupCanMatch schema filter.extractZonePredicates) readers

def DmlStatement.collect (statement : DmlStatement) (readers : List (PartFile (Row Datum))) : TableWrite :=
  match statement with
  | .insert source => .insert (source (readers.flatMap PartFile.rows))
  | .delete filter => .delete ((filter.matched ctx schema readers).map Prod.fst)
  | .update filter assign => .update ((filter.matched ctx schema readers).map fun p => (p.1, assign p.2))

/-- What a statement is for: its effect on the rows of the table. -/
def DmlStatement.apply (statement : DmlStatement) (rows : List (Row Datum)) : List (Row Datum) :=
  match statement with
  | .insert source => rows ++ source rows
  | .delete filter => rows.filter fun row => !filter.eval ctx.cast schema row
  | .update filter assign => rows.map fun row => if filter.eval ctx.cast schema row then assign row else row

/-- What a DELETE or UPDATE needs of the files it scans. -/
def Scannable (t : FolderTable) : DmlStatement → Prop
  | .insert _ => True
  | .delete filter | .update filter _ =>
    ∀ readers, openReaders (t.view ctx schema).files t.manifest.entries = some readers →
      readers.length ≤ 2 ^ 32 ∧ ∀ reader ∈ readers, reader.rows.length ≤ 2 ^ 32 ∧
        ∀ group ∈ reader.rowGroups, filter.Exact ctx.cast schema group

/-- The manifest is still the one scanned; an INSERT needs only that its source still gives the same rows. -/
def Pending.Current (p : Pending) (t : FolderTable) : Prop :=
  match p.statement with
  | .insert source => ∀ rows, t.scan ctx schema = some rows → p.collected = .insert (source rows)
  | .delete _ | .update _ _ => p.version = t.manifest.version

namespace TableSessions

variable {S : Type} [DecidableEq S] (x : TableSessions S)

def setPending (s : S) (p : Option Pending) : TableSessions S :=
  { x with pending := update x.pending s p }

/-- The scan reads the newest manifest and opens its files; `Sink` and `Combine` buffer what it matches. -/
def scan (s : S) (statement : DmlStatement) : Option (TableSessions S × List DmlEvent) :=
  match x.pending s with
  | some _ => none
  | none =>
    match openReaders (x.table.view ctx schema).files x.table.manifest.entries with
    | none => some (x, [.failed])
    | some readers =>
      some (x.setPending s (some ⟨statement, x.table.manifest.version, statement.collect ctx schema readers⟩), [])

def finalizeStep (s : S) : Option (TableSessions S × List DmlEvent) :=
  match x.pending s with
  | none => none
  | some p =>
    match x.table.execute ctx schema p.collected with
    | .unchanged => some (x.setPending s none, [.committed p.statement])
    | .failed => some (x.setPending s none, [.failed])
    | .committed next => some ({ x.setPending s none with table := next }, [.committed p.statement])

/-- The write guard is taken: the statement fails at once. -/
def refuse (s : S) : Option (TableSessions S × List DmlEvent) :=
  match x.pending s with
  | none => none
  | some _ => some (x.setPending s none, [.concurrentModification])

def step : DmlAction S → Option (TableSessions S × List DmlEvent)
  | .scan s statement => x.scan ctx schema s statement
  | .finalize s => x.finalizeStep ctx schema s
  | .refuse s => x.refuse s

structure Initial : Prop where
  sound : (x.table.view ctx schema).Sound
  idle : ∀ s, x.pending s = none

/-- A DELETE or UPDATE finalizes over the manifest it scanned, and what a statement writes can be read back. -/
def Undisturbed : DmlAction S → Prop
  | .scan _ statement => Scannable ctx schema x.table statement
  | .finalize s => ∀ p, x.pending s = some p → p.Current ctx schema x.table ∧
      ∀ file ∈ x.table.written ctx schema p.collected, FileKept ctx schema file
  | .refuse _ => True

end TableSessions

def tableSessions (S : Type) [DecidableEq S] : System (TableSessions S) (DmlAction S) DmlEvent where
  init := TableSessions.Initial ctx schema
  step := TableSessions.step ctx schema

/-- The successful statements run one after another; the log has the latest first. -/
def serial : List DmlEvent → List (Row Datum) → List (Row Datum)
  | [], rows => rows
  | .committed statement :: earlier, rows => statement.apply ctx schema (serial earlier rows)
  | .concurrentModification :: earlier, rows => serial earlier rows
  | .failed :: earlier, rows => serial earlier rows

end Model

section Effects

variable {ctx : ParquetContext} {schema : TableSchema} {t : FolderTable} {readers : List (PartFile (Row Datum))}
  {statement : DmlStatement}

theorem scan_of_sound (sound : (t.view ctx schema).Sound) :
    ∃ readers, openReaders (t.view ctx schema).files t.manifest.entries = some readers ∧
      t.scan ctx schema = some (readers.flatMap PartFile.rows) := by
  obtain ⟨readers, opened⟩ := openReaders_isSome sound.listed
  have opened : openReaders (t.view ctx schema).files t.manifest.entries = some readers := opened
  refine ⟨readers, opened, ?_⟩
  rw [FolderTable.scan_eq, opened, Option.map_some]

theorem Scannable.numbered {filter : WhereExpression} (scannable : readers.length ≤ 2 ^ 32 ∧
      ∀ reader ∈ readers, reader.rows.length ≤ 2 ^ 32 ∧
        ∀ group ∈ reader.rowGroups, filter.Exact ctx.cast schema group) :
    Numbered (filter.eval ctx.cast schema) (rowGroupCanMatch schema filter.extractZonePredicates) readers := by
  refine ⟨scannable.1, fun reader member => (scannable.2 reader member).1, ?_⟩
  intro reader member group inside row here selected
  exact rowGroupCanMatch_of_selected ((scannable.2 reader member).2 group inside) here selected

/-- What a statement has collected over the files it finalizes over gives the rows it is meant to. -/
theorem expected_collect (opened : openReaders (t.view ctx schema).files t.manifest.entries = some readers)
    (scannable : Scannable ctx schema t statement) :
    (statement.collect ctx schema readers).expected readers =
      statement.apply ctx schema (readers.flatMap PartFile.rows) := by
  cases statement with
  | insert source => rfl
  | delete filter =>
    have numbered := Scannable.numbered (scannable readers opened)
    have effect : ∀ rows, (DmlStatement.delete filter).apply ctx schema rows =
        rows.filterMap fun row => if filter.eval ctx.cast schema row then none else some row := by
      intro rows
      rw [DmlStatement.apply, ← List.filterMap_eq_filter]
      apply List.filterMap_congr
      intro row _
      cases satisfied : filter.eval ctx.cast schema row <;> simp [satisfied]
    rw [effect]
    apply editedRows_eq
    intro k reader present i row found
    rw [Nat.zero_add]
    exact deleteEdit_eq numbered present found
  | update filter assign =>
    have numbered := Scannable.numbered (scannable readers opened)
    have effect : ∀ rows, (DmlStatement.update filter assign).apply ctx schema rows =
        rows.filterMap fun row => some (if filter.eval ctx.cast schema row then assign row else row) := by
      intro rows
      rw [DmlStatement.apply, ← List.filterMap_eq_map]
      rfl
    rw [effect]
    apply editedRows_eq
    intro k reader present i row found
    rw [Nat.zero_add]
    exact updateEdit_eq numbered assign present found

/-- A commit whose files can be read back leaves a table to scan. -/
theorem commit_sound {next : ExternalTable (Row Datum)} (sound : next.Sound)
    (scanned : (t.commit ctx schema next).scan ctx schema = some next.rows) :
    ((t.commit ctx schema next).view ctx schema).Sound := by
  refine ⟨?_, ?_, sound.apart⟩
  · rw [FolderTable.scan_eq] at scanned
    obtain ⟨readers, opened, -⟩ := Option.map_eq_some_iff.mp scanned
    intro entry member absent
    have listed : none ∈ readers.map some := openReaders_eq opened ▸ List.mem_map.mpr ⟨entry, member, absent⟩
    simp at listed
  · intro name above
    have gone := sound.fresh name above
    show ((t.commit ctx schema next).files name).bind (readFile ctx schema) = none
    simp only [FolderTable.commit, gone]
    cases before : (t.view ctx schema).files name with
    | none => exact before
    | some file => rfl

end Effects

section Serial

variable {ctx : ParquetContext} {schema : TableSchema} {S : Type} {log events : List DmlEvent}
  {x next : TableSessions S} {base : List (Row Datum)} {s : S}

/-- What is pending over the version of the table was matched there. -/
structure Pending.Matched (ctx : ParquetContext) (schema : TableSchema) (t : FolderTable) (p : Pending) : Prop where
  known : p.version ≤ t.manifest.version
  collected : p.version = t.manifest.version → Scannable ctx schema t p.statement ∧
    ∀ readers, openReaders (t.view ctx schema).files t.manifest.entries = some readers →
      p.collected = p.statement.collect ctx schema readers

/-- The table is that of the statements so far. -/
structure Serialized (ctx : ParquetContext) (schema : TableSchema) (base : List (Row Datum)) (log : List DmlEvent)
    (x : TableSessions S) : Prop where
  sound : (x.table.view ctx schema).Sound
  matched : ∀ s p, x.pending s = some p → p.Matched ctx schema x.table
  clean : .failed ∉ log
  rows : x.table.scan ctx schema = some (serial ctx schema log base)

section
variable (serialized : Serialized ctx schema base log x)
include serialized

theorem Serialized.readers : ∃ readers, openReaders (x.table.view ctx schema).files x.table.manifest.entries =
    some readers ∧ readers.flatMap PartFile.rows = serial ctx schema log base := by
  obtain ⟨readers, opened, scanned⟩ := scan_of_sound serialized.sound
  exact ⟨readers, opened, Option.some.inj (scanned.symm.trans serialized.rows)⟩

/-- The rows a statement should leave are those of the statement run alone. -/
theorem Serialized.expected {p : Pending} (waits : x.pending s = some p) (current : p.Current ctx schema x.table)
    {readers : List (PartFile (Row Datum))}
    (opened : openReaders (x.table.view ctx schema).files x.table.manifest.entries = some readers) :
    p.collected.expected readers = p.statement.apply ctx schema (readers.flatMap PartFile.rows) := by
  have collected : p.collected = p.statement.collect ctx schema readers ∧ Scannable ctx schema x.table p.statement := by
    cases kind : p.statement with
    | insert source =>
      simp only [Pending.Current, kind] at current
      refine ⟨current _ ?_, trivial⟩
      rw [FolderTable.scan_eq, opened, Option.map_some]
    | delete filter | update filter assign =>
      simp only [Pending.Current, kind] at current
      obtain ⟨scannable, collected⟩ := (serialized.matched s p waits).collected current
      rw [← kind]
      exact ⟨collected readers opened, scannable⟩
  rw [collected.1]
  exact expected_collect opened collected.2

variable [DecidableEq S]

theorem Serialized.setPending {pending : Option Pending}
    (matched : ∀ p, pending = some p → p.Matched ctx schema x.table) :
    Serialized ctx schema base log (x.setPending s pending) := by
  refine ⟨serialized.sound, ?_, serialized.clean, serialized.rows⟩
  intro other p waits
  rcases of_update waits with ⟨-, new⟩ | ⟨-, old⟩
  · exact matched p new
  · exact serialized.matched other p old

theorem Serialized.forget : Serialized ctx schema base log (x.setPending s none) := by
  refine serialized.setPending ?_
  intro p impossible
  cases impossible

theorem Serialized.scan {statement : DmlStatement} (scannable : Scannable ctx schema x.table statement)
    (taken : x.scan ctx schema s statement = some (next, events)) : Serialized ctx schema base (events ++ log) next := by
  obtain ⟨readers, opened, -⟩ := serialized.readers
  simp only [TableSessions.scan, opened] at taken
  split at taken
  · cases taken
  · cases taken
    refine serialized.setPending ?_
    intro p here
    cases here
    refine ⟨Nat.le_refl _, fun _ => ⟨scannable, ?_⟩⟩
    intro found again
    rw [opened] at again
    cases again
    rfl

theorem Serialized.finalizeStep (undisturbed : x.Undisturbed ctx schema (.finalize s))
    (taken : x.finalizeStep ctx schema s = some (next, events)) : Serialized ctx schema base (events ++ log) next := by
  simp only [TableSessions.finalizeStep] at taken
  split at taken
  · cases taken
  · next p waits =>
    obtain ⟨current, kept⟩ := undisturbed p waits
    obtain ⟨readers, opened, rows⟩ := serialized.readers
    have expected := serialized.expected waits current opened
    have forgotten := serialized.forget (s := s)
    have clean : .failed ∉ [DmlEvent.committed p.statement] ++ log := by simpa using serialized.clean
    rcases finalize_spec ⟨x.table, readers, opened, serialized.sound⟩ p.collected with
      ⟨nothing, same⟩ | ⟨after, commits, committed, sound, after_rows, version⟩
    · simp only [FolderTable.execute, nothing] at taken
      cases taken
      refine ⟨forgotten.sound, forgotten.matched, clean, ?_⟩
      rw [List.singleton_append, serial, ← rows, ← expected, same, rows]
      exact serialized.rows
    · simp only [FolderTable.execute, commits] at taken
      cases taken
      have scanned := (scan_committed_iff commits committed).mpr kept
      refine ⟨commit_sound sound scanned, ?_, clean, ?_⟩
      · intro other q pending
        have before : q.version ≤ x.table.manifest.version := (forgotten.matched other q pending).known
        have later : after.manifest.version = x.table.manifest.version + 1 := version
        exact ⟨by show q.version ≤ after.manifest.version; omega, fun same => by
          have same : q.version = after.manifest.version := same
          omega⟩
      · rw [List.singleton_append, serial, ← rows, ← expected, ← after_rows]
        exact scanned

theorem Serialized.step {a : DmlAction S} (undisturbed : x.Undisturbed ctx schema a)
    (taken : x.step ctx schema a = some (next, events)) : Serialized ctx schema base (events ++ log) next := by
  cases a with
  | scan s statement => exact serialized.scan undisturbed taken
  | finalize s => exact serialized.finalizeStep undisturbed taken
  | refuse s =>
    simp only [TableSessions.step, TableSessions.refuse] at taken
    split at taken
    · cases taken
    · cases taken
      have forgotten := serialized.forget (s := s)
      exact ⟨forgotten.sound, forgotten.matched, by simpa using serialized.clean, forgotten.rows⟩

end

end Serial

def integers : TableSchema := oneColumn .integer

def intRow (n : Int) : Row Datum := [some (.integral n)]

/-- One file with the rows 1 and 2 of an INTEGER column, and two sessions. -/
def twoRows : TableSessions Bool where
  table :=
    { files := fun name => if name = 0 then some (writeFile plainContext integers ⟨[[intRow 1, intRow 2]]⟩) else none
      nextFile := 1
      manifest := ⟨0, [⟨0, 2⟩]⟩ }
  pending _ := none

theorem twoRows_initial : twoRows.Initial plainContext integers where
  sound := {
    listed := by
      intro entry member
      rw [List.mem_singleton.mp member]
      decide +kernel
    fresh := by
      intro name above
      have other : name ≠ 0 := Nat.ne_of_gt above
      simp [FolderTable.view, twoRows, other]
    apart := List.nodup_singleton 0 }
  idle _ := rfl

/-- `WHERE x = value`. -/
def columnEquals (value : Int) : WhereExpression :=
  .compare false 0 .equal (.integral .integer) (.integral value) fun _ => false

theorem twoRows_opened : openReaders (twoRows.table.view plainContext integers).files
    twoRows.table.manifest.entries = some [⟨[[intRow 1, intRow 2]]⟩] := by
  decide +kernel

theorem twoRows_scannable :
    Scannable plainContext integers twoRows.table (.delete (columnEquals 1)) := by
  have unrounded : ∀ n ∈ [(1 : Int), 2], WhereExpression.Unrounded plainContext.cast (.integral .integer)
      (.integral n) n := by
    intro n member
    exact ⟨rfl, by decide +revert +kernel, by decide +revert +kernel⟩
  intro readers opened
  rw [twoRows_opened] at opened
  cases opened
  refine ⟨by decide, ?_⟩
  simp only [List.mem_singleton, forall_eq]
  refine ⟨by decide, ?_⟩
  intro t l r column left right
  cases column
  cases left
  cases right
  refine ⟨.integral .integer, rfl, ⟨1, unrounded 1 (by decide)⟩, ?_⟩
  intro row member v cell
  rcases List.mem_pair.mp member with rfl | rfl
  · cases cell
    exact ⟨1, rfl, unrounded 1 (by decide)⟩
  · cases cell
    exact ⟨2, rfl, unrounded 2 (by decide)⟩

theorem stretch_finalize {ctx : ParquetContext} {schema : TableSchema} {S : Type} [DecidableEq S]
    {start x : TableSessions S} {log : List DmlEvent} {s : S} {p : Pending} {t : FolderTable}
    {file : PartFile (Row Datum)}
    (path : Stretch (tableSessions ctx schema S) (TableSessions.Undisturbed ctx schema) start log x)
    (waits : x.pending s = some p) (current : p.Current ctx schema x.table)
    (executed : x.table.execute ctx schema p.collected = .committed t)
    (written : x.table.written ctx schema p.collected = [file]) (kept : FileKept ctx schema file) :
    Stretch (tableSessions ctx schema S) (TableSessions.Undisturbed ctx schema) start (.committed p.statement :: log)
      { x.setPending s none with table := t } := by
  show Stretch _ _ start ([.committed p.statement] ++ log) _
  refine Stretch.step (a := .finalize s) path ?_ ?_
  · intro q found
    rw [waits] at found
    cases found
    refine ⟨current, ?_⟩
    intro other member
    rw [written] at member
    rw [List.mem_singleton.mp member]
    exact kept
  · simp only [tableSessions, TableSessions.step, TableSessions.finalizeStep, waits, executed]

theorem kept_row (n : Int)
    (kept : readFile plainContext integers (writeFile plainContext integers ⟨[[intRow n]]⟩) = some ⟨[[intRow n]]⟩) :
    FileKept plainContext integers ⟨[[intRow n]]⟩ := by
  refine (readFile_spec ?_).1.mp kept
  intro rows member
  rw [List.mem_singleton.mp member]
  exact (by decide : 1 < 2 ^ 31)

end BumbleBee.External
