import BumbleBee.External.Editing
import BumbleBee.External.StoredFile
import BumbleBee.Library.Transition

/-!
Writing an external table and scanning it again. The rows a DELETE or UPDATE touches
are named by their rids; a commit writes fresh part files and unlinks those they
replace. The table scans to the rows it should have exactly when each file that was
added gives its rows back.
-/

namespace BumbleBee.External
open Library.ByteCodec Library.Transition BumbleBee.Types Function

structure FolderTable where
  files : Nat → Option StoredFile
  nextFile : Nat
  manifest : ParquetManifest Nat

/-- A statement with what it has buffered: the rows to add, or the rids of the rows it touches. -/
inductive TableWrite where
  | insert (rows : List (Row Datum))
  | delete (rids : List Nat)
  | update (batch : List (Nat × Row Datum))

def TableWrite.collected : TableWrite → Collected (Row Datum)
  | .insert rows => .rows (vectors rows)
  | .delete rids => .rids rids
  | .update batch => .replacements batch

/-- The rows the table should have. -/
def TableWrite.expected (files : List (PartFile (Row Datum))) : TableWrite → List (Row Datum)
  | .insert rows => files.flatMap PartFile.rows ++ rows
  | .delete rids => editedRows (deleteEdit rids) (fun _ => true) 0 files
  | .update batch => editedRows (updateEdit batch) (fun _ => true) 0 files

inductive Outcome where
  | unchanged
  | failed
  | committed (t : FolderTable)

namespace FolderTable

variable (ctx : ParquetContext) (schema : TableSchema) (t : FolderTable)

/-- The table as its readers see it. -/
def view : ExternalTable (Row Datum) :=
  ⟨fun name => (t.files name).bind (readFile ctx schema), t.nextFile, t.manifest⟩

def scan : Option (List (Row Datum)) :=
  (mapAll (fun entry : ManifestEntry Nat => (t.files entry.fileName).bind (openFile ctx schema))
    t.manifest.entries).bind schema.plan.scanTable

/-- The folder after a commit: fresh files are written, replaced ones unlinked. -/
def commit (next : ExternalTable (Row Datum)) : FolderTable where
  files name :=
    match (t.view ctx schema).files name, next.files name with
    | none, some file => some (writeFile ctx schema file)
    | some _, none => none
    | _, _ => t.files name
  nextFile := next.nextFile
  manifest := next.manifest

def execute (w : TableWrite) : Outcome :=
  match finalize (t.view ctx schema) w.collected with
  | .nothing => .unchanged
  | .failed => .failed
  | .committed next => .committed (t.commit ctx schema next)

/-- The part files a statement adds to the manifest. -/
def written (w : TableWrite) : List (PartFile (Row Datum)) :=
  match finalize (t.view ctx schema) w.collected with
  | .committed next => next.manifest.entries.filterMap fun entry =>
      if ((t.view ctx schema).files entry.fileName).isNone then next.files entry.fileName else none
  | _ => []

end FolderTable

/-- A table all of whose files can be read. -/
structure ReadableTable (ctx : ParquetContext) (schema : TableSchema) where
  table : FolderTable
  readers : List (PartFile (Row Datum))
  opened : openReaders (table.view ctx schema).files table.manifest.entries = some readers
  sound : (table.view ctx schema).Sound

section Sizes

variable {R : Type}

/-- A writer that is handed chunks of a vector's size flushes groups little larger than `ROWS_PER_ROW_GROUP`. -/
structure PartFileWriter.Small (w : PartFileWriter R) : Prop where
  flushed : ∀ rows ∈ w.flushed, rows.length < 2 ^ 31
  pending : w.pending.length < rowsPerRowGroup

theorem PartFileWriter.small_new : (PartFileWriter.new : PartFileWriter R).Small := by
  refine ⟨?_, (by decide : 0 < rowsPerRowGroup)⟩
  intro rows member
  cases member

variable {w : PartFileWriter R}

theorem PartFileWriter.flushGroup_flushed (flushed : ∀ rows ∈ w.flushed, rows.length < 2 ^ 31)
    (pending : w.pending.length < 2 ^ 31) : ∀ rows ∈ w.flushGroup.flushed, rows.length < 2 ^ 31 := by
  intro rows member
  unfold PartFileWriter.flushGroup at member
  split at member
  · exact flushed rows member
  · rcases List.mem_append.mp member with before | here
    · exact flushed rows before
    · rw [List.mem_singleton.mp here]
      exact pending

theorem PartFileWriter.Small.append (small : w.Small) {chunk : List R}
    (short : chunk.length ≤ standardVectorSize) : (w.append chunk).Small := by
  have room := small.pending
  rw [rowsPerRowGroup] at room
  rw [standardVectorSize] at short
  have size : (w.pending ++ chunk).length < 2 ^ 31 := by
    rw [List.length_append]
    omega
  unfold PartFileWriter.append
  split
  · exact small
  · dsimp only
    split
    · refine ⟨PartFileWriter.flushGroup_flushed small.flushed size, ?_⟩
      rw [PartFileWriter.pending_flushGroup]
      exact (by decide : 0 < rowsPerRowGroup)
    · next below =>
      exact ⟨small.flushed, Nat.lt_of_not_le below⟩

theorem PartFileWriter.Small.finish (small : w.Small) : w.finish.1.Small := by
  have room := small.pending
  rw [rowsPerRowGroup] at room
  exact PartFileWriter.flushGroup_flushed small.flushed (by omega)

variable {chunks : List (List R)}

theorem PartFileWriter.Small.foldl (short : ∀ chunk ∈ chunks, chunk.length ≤ standardVectorSize)
    (small : w.Small) : (chunks.foldl PartFileWriter.append w).Small := by
  induction chunks generalizing w with
  | nil => exact small
  | cons chunk chunks ih =>
    exact ih (fun other member => short other (List.mem_cons_of_mem chunk member))
      (small.append (short chunk List.mem_cons_self))

theorem short_vectorsLoop (fuel : Nat) (cells : List R) :
    ∀ chunk ∈ vectorsLoop fuel cells, chunk.length ≤ standardVectorSize := by
  induction fuel generalizing cells with
  | zero =>
    intro chunk member
    cases member
  | succ fuel ih =>
    intro chunk member
    rw [vectorsLoop] at member
    split at member
    · cases member
    · rcases List.mem_cons.mp member with same | later
      · rw [same, List.length_take]
        exact Nat.min_le_left _ _
      · exact ih _ chunk later

theorem short_scanLoop (fuel : Nat) (st : ScanState R) :
    (ScanState.scanLoop none fuel st).1.length ≤ standardVectorSize := by
  induction fuel generalizing st with
  | zero => exact Nat.zero_le _
  | succ fuel ih =>
    rw [ScanState.scanLoop]
    cases round : ScanState.scanInternal none st with
    | none => exact Nat.zero_le _
    | some result =>
      obtain ⟨chunk, next⟩ := result
      dsimp only
      split
      · unfold ScanState.scanInternal at round
        split at round
        · split at round
          · cases round
          · cases round
            exact Nat.zero_le _
        · cases round
          show (st.current.take standardVectorSize).length ≤ _
          rw [List.length_take]
          exact Nat.min_le_left _ _
      · exact ih next

theorem short_readLoop (fuel : Nat) (st : ScanState R) :
    ∀ chunk ∈ PartFile.readLoop fuel st, chunk.length ≤ standardVectorSize := by
  induction fuel generalizing st with
  | zero =>
    intro chunk member
    cases member
  | succ fuel ih =>
    intro chunk member
    rw [PartFile.readLoop] at member
    split at member
    · cases member
    · rcases List.mem_cons.mp member with same | later
      · rw [same]
        exact short_scanLoop _ st
      · exact ih _ chunk later

theorem small_streamFile (edit : Edit R) (fileIdx rowOffset : Nat)
    (short : ∀ chunk ∈ chunks, chunk.length ≤ standardVectorSize) (small : w.Small) :
    (streamFile edit fileIdx rowOffset w chunks).Small := by
  induction chunks generalizing rowOffset w with
  | nil => exact small
  | cons chunk chunks ih =>
    have fewer : (transform edit fileIdx rowOffset chunk).length ≤ chunk.length := by
      exact Nat.le_trans (List.length_filterMap_le ..) (Nat.le_of_eq List.length_zipIdx)
    exact ih _ (fun other member => short other (List.mem_cons_of_mem chunk member))
      (small.append (Nat.le_trans fewer (short chunk List.mem_cons_self)))

theorem small_rewriteFiles {original : Nat → Option (PartFile R)} {edit : Edit R} {touched : Nat → Bool} {fileIdx : Nat}
    {entries : List (ManifestEntry Nat)} {r done : Rewriting R}
    (added : ∀ name file, original name = none → r.files name = some file → file.Small)
    (ran : rewriteFiles edit touched fileIdx entries r = some done) :
    ∀ name file, original name = none → done.files name = some file → file.Small := by
  induction entries generalizing fileIdx r with
  | nil =>
    cases ran
    exact added
  | cons entry entries ih =>
    rw [rewriteFiles] at ran
    split at ran
    · split at ran
      · cases ran
      · dsimp only at ran
        split at ran
        · refine ih ?_ ran
          intro name part fresh found
          rcases of_update found with ⟨-, new⟩ | ⟨-, old⟩
          · cases new
            exact (small_streamFile edit fileIdx 0 (short_readLoop _ _) PartFileWriter.small_new).finish
          · exact added name part fresh old
        · refine ih ?_ ran
          exact added
    · refine ih ?_ ran
      exact added

/-- What a commit does to the files of the folder. -/
structure Committed (t next : ExternalTable R) : Prop where
  listed : ∀ entry ∈ next.manifest.entries, next.files entry.fileName ≠ none
  kept : ∀ name, t.files name ≠ none → next.files name = none ∨ next.files name = t.files name
  small : ∀ name file, t.files name = none → next.files name = some file → file.Small

theorem Committed.rewrite {t next : ExternalTable R} (sound : t.Sound) {edit : Edit R} {touched : Nat → Bool}
    {files : List (PartFile R)}
    (opened : t.manifest.entries.map (fun entry => t.files entry.fileName) = files.map some)
    (ran : rewriteTouchedFiles t edit touched = some next) :
    Committed t next ∧ next.rows = editedRows edit touched 0 files := by
  obtain ⟨again, ran', sound', rows, -⟩ := rewriteTouchedFiles_spec sound edit touched opened
  rw [ran] at ran'
  cases ran'
  obtain ⟨done, looped, last, -⟩ := rewriteFiles_spec edit touched 0 t.manifest.entries files _ sound.along opened
  rw [rewriteTouchedFiles, looped] at ran
  cases ran
  refine ⟨⟨sound'.listed, ?_, ?_⟩, rows⟩
  · intro name present
    by_cases gone : name ∈ done.replaced
    · exact .inl (if_pos gone)
    · exact .inr ((if_neg gone).trans (last.kept name present))
  · intro name file fresh found
    have added : ∀ name file, t.files name = none → t.files name = some file → file.Small := by
      intro name file none' some'
      rw [none'] at some'
      cases some'
    dsimp only at found
    split at found
    · cases found
    · exact small_rewriteFiles added looped name file fresh found

theorem Committed.append {t : ExternalTable R} (sound : t.Sound)
    (short : ∀ chunk ∈ chunks, chunk.length ≤ standardVectorSize) : Committed t (appendRows t chunks) where
  listed := (appendRows_spec sound chunks).1.listed
  kept name present := by
    refine .inr (update_of_ne ?_ _ _)
    intro same
    exact present (sound.fresh name (Nat.le_of_eq same.symm))
  small name file fresh found := by
    rcases of_update found with ⟨-, new⟩ | ⟨-, old⟩
    · cases new
      exact (PartFileWriter.Small.foldl short PartFileWriter.small_new).finish
    · cases fresh.symm.trans old

end Sizes

section Scanning

variable {ctx : ParquetContext} {schema : TableSchema}

theorem openReaders_eq_mapAll {R : Type} (files : Nat → Option (PartFile R)) (entries : List (ManifestEntry Nat)) :
    openReaders files entries = mapAll (fun entry => files entry.fileName) entries := by
  induction entries with
  | nil => rfl
  | cons entry entries ih =>
    rw [openReaders, mapAll, ih]
    cases files entry.fileName with
    | none => rfl
    | some reader => cases mapAll (fun entry => files entry.fileName) entries <;> rfl

theorem FolderTable.view_files (t : FolderTable) (name : Nat) :
    (t.view ctx schema).files name = (t.files name).bind (readFile ctx schema) := rfl

theorem scanTable_plan (files : List (List (RowGroup Datum))) :
    schema.plan.scanTable files =
      some ((files.map fun groups => (⟨groups.map schema.plan.groupRows⟩ : PartFile (Row Datum))).flatMap
        PartFile.rows) := by
  have rows : schema.plan.tableRows files =
      (files.map fun groups => (⟨groups.map schema.plan.groupRows⟩ : PartFile (Row Datum))).flatMap PartFile.rows := by
    induction files with
    | nil => rfl
    | cons groups files ih =>
      rw [List.map_cons, List.flatMap_cons, ← ih]
      simp only [ColumnPlan.tableRows, List.flatten_cons, List.flatMap_append]
      rfl
  rw [schema.plan.scanTable_spec, ← rows]
  rfl

/-- A scan opens every listed file and returns their rows. -/
theorem FolderTable.scan_eq (t : FolderTable) :
    t.scan ctx schema = (openReaders (t.view ctx schema).files t.manifest.entries).map
      fun readers => readers.flatMap PartFile.rows := by
  rw [FolderTable.scan, openReaders_eq_mapAll]
  generalize t.manifest.entries = entries
  have files : mapAll (fun entry : ManifestEntry Nat => (t.view ctx schema).files entry.fileName) entries =
      (mapAll (fun entry : ManifestEntry Nat => (t.files entry.fileName).bind (openFile ctx schema)) entries).map
        (List.map fun groups => (⟨groups.map schema.plan.groupRows⟩ : PartFile (Row Datum))) := by
    induction entries with
    | nil => rfl
    | cons entry entries ih =>
      have here : (t.view ctx schema).files entry.fileName =
          ((t.files entry.fileName).bind (openFile ctx schema)).map
            fun groups => (⟨groups.map schema.plan.groupRows⟩ : PartFile (Row Datum)) := by
        rw [FolderTable.view_files]
        cases t.files entry.fileName <;> rfl
      rw [mapAll, mapAll, ih, here]
      cases (t.files entry.fileName).bind (openFile ctx schema) with
      | none => rfl
      | some groups =>
        cases mapAll (fun entry : ManifestEntry Nat => (t.files entry.fileName).bind (openFile ctx schema)) entries <;> rfl
  rw [files]
  cases mapAll (fun entry : ManifestEntry Nat => (t.files entry.fileName).bind (openFile ctx schema)) entries with
  | none => rfl
  | some groups => exact scanTable_plan groups

theorem ExternalTable.rows_eq {R : Type} (t : ExternalTable R) :
    t.rows = t.manifest.entries.flatMap fun entry => ((t.files entry.fileName).getD ⟨[]⟩).rows := by
  apply List.flatMap_congr
  intro entry _
  cases t.files entry.fileName <;> rfl

/-- Files with the right number of rows in each group hold the right rows all together only if each of them does. -/
theorem mapAll_rows_iff {E R : Type} {read : E → Option (PartFile R)} {want : E → PartFile R} {entries : List E}
    (shape : ∀ e ∈ entries, ∀ file, read e = some file →
      file.rowGroups.map List.length = (want e).rowGroups.map List.length) :
    ((mapAll read entries).map fun readers => readers.flatMap PartFile.rows) =
        some (entries.flatMap fun e => (want e).rows) ↔ ∀ e ∈ entries, read e = some (want e) := by
  induction entries with
  | nil => simp [mapAll]
  | cons e entries ih =>
    have later := ih fun other member => shape other (List.mem_cons_of_mem e member)
    rw [List.forall_mem_cons, ← later, mapAll]
    cases here : read e with
    | none =>
      constructor
      · intro impossible
        cases impossible
      · intro both
        cases both.1
    | some file =>
      have groups := shape e List.mem_cons_self file here
      have length : file.rows.length = (want e).rows.length := by
        rw [PartFile.rows, PartFile.rows, List.length_flatten, List.length_flatten, groups]
      have whole : file.rows = (want e).rows ↔ file = want e := by
        refine ⟨?_, congrArg PartFile.rows⟩
        intro same
        have equal : file.rowGroups = (want e).rowGroups := List.eq_iff_flatten_eq.mpr ⟨same, groups⟩
        exact congrArg PartFile.mk equal
      cases mapAll read entries with
      | none => simp
      | some readers =>
        simp only [Option.map_some, List.flatMap_cons, Option.some.injEq]
        rw [← whole]
        constructor
        · intro same
          exact List.append_inj same length
        · intro both
          rw [both.1, both.2]

end Scanning

section Writes

variable {ctx : ParquetContext} {schema : TableSchema}

/-- The statement fails and the table is as it was, or the table can be scanned and has the rows it should have. -/
def ReadableTable.Settled (t : ReadableTable ctx schema) (w : TableWrite) : Prop :=
  match t.table.execute ctx schema w with
  | .failed => True
  | .unchanged => t.table.scan ctx schema = some (w.expected t.readers)
  | .committed next => next.scan ctx schema = some (w.expected t.readers)

/-- After a commit a scan finds the rows exactly when it can read back each file that was written. -/
theorem scan_commit_iff {t : FolderTable} {next : ExternalTable (Row Datum)}
    (committed : Committed (t.view ctx schema) next) :
    (t.commit ctx schema next).scan ctx schema = some next.rows ↔
      ∀ entry ∈ next.manifest.entries, ∀ file, (t.view ctx schema).files entry.fileName = none →
        next.files entry.fileName = some file → FileKept ctx schema file := by
  have old : ∀ name file, (t.view ctx schema).files name = some file → next.files name ≠ none →
      ((t.commit ctx schema next).view ctx schema).files name = some file ∧ next.files name = some file := by
    intro name file before after
    have same : next.files name = some file := by
      rcases committed.kept name (by rw [before]; exact Option.some_ne_none file) with gone | same
      · exact absurd gone after
      · rw [same, before]
    refine ⟨?_, same⟩
    have stored : (t.commit ctx schema next).files name = t.files name := by
      simp only [FolderTable.commit, before, same]
    rw [FolderTable.view_files, stored]
    exact before
  have fresh : ∀ name file, (t.view ctx schema).files name = none → next.files name = some file →
      ((t.commit ctx schema next).view ctx schema).files name = readFile ctx schema (writeFile ctx schema file) := by
    intro name file before after
    have stored : (t.commit ctx schema next).files name = some (writeFile ctx schema file) := by
      simp only [FolderTable.commit, before, after]
    rw [FolderTable.view_files, stored]
    rfl
  rw [FolderTable.scan_eq, openReaders_eq_mapAll, ExternalTable.rows_eq]
  refine (mapAll_rows_iff ?_).trans ?_
  · intro entry member file read
    obtain ⟨part, after⟩ := Option.ne_none_iff_exists'.mp (committed.listed entry member)
    cases before : (t.view ctx schema).files entry.fileName with
    | some original =>
      obtain ⟨now, same⟩ := old _ original before (committed.listed entry member)
      rw [read] at now
      cases now
      rw [same]
      rfl
    | none =>
      rw [fresh _ part before after] at read
      rw [after]
      exact (readFile_spec (committed.small _ part before after)).2 file read
  · refine forall₂_congr fun entry member => ?_
    obtain ⟨part, after⟩ := Option.ne_none_iff_exists'.mp (committed.listed entry member)
    rw [after, Option.getD_some]
    cases before : (t.view ctx schema).files entry.fileName with
    | some original =>
      obtain ⟨now, same⟩ := old _ original before (committed.listed entry member)
      rw [after] at same
      cases same
      rw [now]
      exact ⟨fun _ file impossible => (by cases impossible), fun _ => rfl⟩
    | none =>
      rw [fresh _ part before after, (readFile_spec (committed.small _ part before after)).1]
      constructor
      · intro kept file _ same
        cases same
        exact kept
      · intro kept
        exact kept part rfl rfl

theorem finalize_spec (t : ReadableTable ctx schema) (w : TableWrite) :
    (finalize (t.table.view ctx schema) w.collected = .nothing ∧
        w.expected t.readers = t.readers.flatMap PartFile.rows) ∨
      ∃ next, finalize (t.table.view ctx schema) w.collected = .committed next ∧
        Committed (t.table.view ctx schema) next ∧ next.Sound ∧ next.rows = w.expected t.readers ∧
        next.manifest.version = t.table.manifest.version + 1 := by
  have rewritten : ∀ {collected} {edit : Edit (Row Datum)}, (∃ rids, collected = .rids rids ∧ edit = deleteEdit rids) ∨
      (∃ batch, collected = .replacements batch ∧ edit = updateEdit batch) →
      (finalize (t.table.view ctx schema) collected = .nothing ∧
          editedRows edit (fun _ => true) 0 t.readers = t.readers.flatMap PartFile.rows) ∨
        ∃ next, finalize (t.table.view ctx schema) collected = .committed next ∧
          Committed (t.table.view ctx schema) next ∧ next.Sound ∧ next.rows = editedRows edit (fun _ => true) 0 t.readers ∧
          next.manifest.version = t.table.manifest.version + 1 := by
    intro collected edit edits
    rw [← ExternalTable.rows_of_opened t.opened]
    refine (finalize_edits t.sound t.opened edits).imp_right ?_
    rintro ⟨touched, next, finalized, ran, sound, rows, version⟩
    exact ⟨next, finalized, (Committed.rewrite t.sound (openReaders_eq t.opened) ran).1, sound, rows, version⟩
  cases w with
  | insert rows =>
    simp only [TableWrite.collected, finalize, vectors_flatten]
    split
    · next empty =>
      exact .inl ⟨rfl, by rw [TableWrite.expected, List.length_eq_zero_iff.mp empty, List.append_nil]⟩
    · obtain ⟨sound, appended⟩ := appendRows_spec t.sound (vectors rows)
      refine .inr ⟨_, rfl, Committed.append t.sound (short_vectorsLoop _ rows), sound, ?_, rfl⟩
      rw [appended, vectors_flatten, ExternalTable.rows_of_opened t.opened]
      rfl
  | delete rids => exact rewritten (.inl ⟨rids, rfl, rfl⟩)
  | update batch => exact rewritten (.inr ⟨batch, rfl, rfl⟩)

theorem scan_committed_iff {t : FolderTable} {w : TableWrite} {next : ExternalTable (Row Datum)}
    (commits : finalize (t.view ctx schema) w.collected = .committed next)
    (committed : Committed (t.view ctx schema) next) :
    (t.commit ctx schema next).scan ctx schema = some next.rows ↔
      ∀ file ∈ t.written ctx schema w, FileKept ctx schema file := by
  simp only [scan_commit_iff committed, FolderTable.written, commits]
  constructor
  · intro kept file member
    obtain ⟨entry, listed, found⟩ := List.mem_filterMap.mp member
    split at found
    · next fresh => exact kept entry listed file (Option.isNone_iff_eq_none.mp fresh) found
    · cases found
  · intro kept entry listed file fresh found
    refine kept file (List.mem_filterMap.mpr ⟨entry, listed, ?_⟩)
    rw [if_pos (Option.isNone_iff_eq_none.mpr fresh), found]

end Writes

def plainContext : ParquetContext where
  cast :=
    { truncateOutside := fun _ _ => 0
      beyondTable := fun _ => 0
      truncate_holds := fun t _ => by cases t <;> decide
      table_holds := fun _ => by decide }
  doubleBits _ := 0
  doubleOf _ := .nan
  compress := id
  decompress := some
  lossless _ := rfl

def oneColumn (t : ColumnType) : TableSchema := ⟨[t], List.cons_ne_nil t []⟩

/-- A table just created over an empty folder. -/
def emptyFolder : FolderTable := ⟨fun _ => none, 0, ⟨0, []⟩⟩

example : (match emptyFolder.execute plainContext (oneColumn .integer) (.insert [[some (.integral (-7))], [none]]) with
    | .committed next => next.scan plainContext (oneColumn .integer)
    | _ => none) = some [[some (.integral (-7))], [none]] := by
  decide +kernel

end BumbleBee.External
