import BumbleBee.External.Manifest
import BumbleBee.External.PartFile
import Mathlib.Algebra.Group.Nat.Defs
import Mathlib.Data.List.Nodup
import Mathlib.Logic.Function.Basic

/-!
DELETE and UPDATE on an external table. A scan numbers the rows it reads by their
position, `(file index << 32) | row index`; `RewriteTouchedFiles` streams every file
that holds a numbered row into a fresh one. A file is found by its index in the
manifest the rewrite reads, a row by its index in that file.
-/

namespace BumbleBee.External
open Function

variable {R : Type}

/-- A table folder: its part files by name, the names drawn so far and the newest manifest. -/
structure ExternalTable (R : Type) where
  files : Nat → Option (PartFile R)
  nextFile : Nat
  manifest : ParquetManifest Nat

/-- What a statement has buffered when its scan is over. -/
inductive Collected (R : Type) where
  | rows (chunks : List (List R))
  | rids (rids : List Nat)
  | replacements (batch : List (Nat × R))

def ridFileIdx (rid : Nat) : Nat := rid >>> 32

def ridRowIdx (rid : Nat) : Nat := rid &&& 0xFFFFFFFF

/-- `(file_idx << 32) | next_rid_base` plus the position in the chunk, as `uint64_t`. -/
def ridAt (fileIdx nextRidBase i : Nat) : Nat := (((fileIdx <<< 32) % 2 ^ 64 ||| nextRidBase) + i) % 2 ^ 64

def chunkRids (fileIdx nextRidBase : Nat) (chunk : List R) : List (Nat × R) :=
  chunk.zipIdx.map fun p => (ridAt fileIdx nextRidBase p.2, p.1)

/-- The chunks of one morsel with their rids. -/
def emitRids (fileIdx : Nat) : Nat → List (List R) → List (Nat × R)
  | _, [] => []
  | nextRidBase, chunk :: chunks =>
    chunkRids fileIdx nextRidBase chunk ++ emitRids fileIdx (nextRidBase + chunk.length) chunks

/-- The rows a DELETE or UPDATE matches: the scan's morsels, then the filter above the scan. -/
def matched (predicate : R → Bool) (canMatch : List R → Bool) (readers : List (PartFile R)) : List (Nat × R) :=
  (morsels canMatch 0 readers).flatMap fun m =>
    match readers[m.fileIdx]? with
    | none => []
    | some reader =>
      (emitRids m.fileIdx m.fileRowStart (reader.chunksOf [m.groupIdx])).filter fun p => predicate p.2

/-- The readers of a manifest's files; `none` when one of them cannot be opened. -/
def openReaders (files : Nat → Option (PartFile R)) : List (ManifestEntry Nat) → Option (List (PartFile R))
  | [] => some []
  | entry :: entries =>
    match files entry.fileName, openReaders files entries with
    | some reader, some readers => some (reader :: readers)
    | _, _ => none

/-- What becomes of a row of a touched file, given the file's index and the row's. -/
abbrev Edit (R : Type) := Nat → Nat → R → Option R

def transform (edit : Edit R) (fileIdx rowOffset : Nat) (chunk : List R) : List R :=
  (chunk.zipIdx rowOffset).filterMap fun p => edit fileIdx p.2 p.1

/-- A row stored under the rid's file index and row index (the map of a file is keyed by `uint32_t`). -/
def ridNames (rid fileIdx rowIdx : Nat) : Bool := ridFileIdx rid == fileIdx && ridRowIdx rid == rowIdx % 2 ^ 32

def deleteEdit (rids : List Nat) : Edit R := fun fileIdx rowIdx row =>
  if rids.any (ridNames · fileIdx rowIdx) then none else some row

/-- A later replacement of the same row overwrites an earlier one. -/
def updateEdit (batch : List (Nat × R)) : Edit R := fun fileIdx rowIdx row =>
  match batch.reverse.find? fun p => ridNames p.1 fileIdx rowIdx with
  | none => some row
  | some p => some p.2

def streamFile (edit : Edit R) (fileIdx : Nat) : Nat → PartFileWriter R → List (List R) → PartFileWriter R
  | _, writer, [] => writer
  | rowOffset, writer, chunk :: chunks =>
    streamFile edit fileIdx (rowOffset + chunk.length) (writer.append (transform edit fileIdx rowOffset chunk)) chunks

structure Rewriting (R : Type) where
  files : Nat → Option (PartFile R)
  nextFile : Nat
  entries : List (ManifestEntry Nat)
  replaced : List Nat

/-- The loop over the manifest's files; `none` when a file cannot be opened. A replacement without rows is
removed again. -/
def rewriteFiles (edit : Edit R) (touched : Nat → Bool) :
    Nat → List (ManifestEntry Nat) → Rewriting R → Option (Rewriting R)
  | _, [], r => some r
  | fileIdx, entry :: rest, r =>
    if touched fileIdx then
      match r.files entry.fileName with
      | none => none
      | some file =>
        let written := (streamFile edit fileIdx 0 .new file.chunks).finish
        if 0 < written.2 then
          rewriteFiles edit touched (fileIdx + 1) rest
            ⟨update r.files r.nextFile (some written.1), r.nextFile + 1,
              r.entries ++ [⟨r.nextFile, written.2⟩], r.replaced ++ [entry.fileName]⟩
        else
          rewriteFiles edit touched (fileIdx + 1) rest
            ⟨r.files, r.nextFile + 1, r.entries, r.replaced ++ [entry.fileName]⟩
    else rewriteFiles edit touched (fileIdx + 1) rest { r with entries := r.entries ++ [entry] }

def rewriteTouchedFiles (t : ExternalTable R) (edit : Edit R) (touched : Nat → Bool) : Option (ExternalTable R) :=
  match rewriteFiles edit touched 0 t.manifest.entries ⟨t.files, t.nextFile, [], []⟩ with
  | none => none
  | some r => some
    { files := fun name => if name ∈ r.replaced then none else r.files name
      nextFile := r.nextFile
      manifest := ⟨t.manifest.version + 1, r.entries⟩ }

/-- `WritePartFile` of the buffered chunks, appended to the manifest. -/
def appendRows (t : ExternalTable R) (chunks : List (List R)) : ExternalTable R :=
  let written := (chunks.foldl PartFileWriter.append .new).finish
  { files := update t.files t.nextFile (some written.1)
    nextFile := t.nextFile + 1
    manifest := ⟨t.manifest.version + 1, t.manifest.entries ++ [⟨t.nextFile, written.2⟩]⟩ }

inductive Finalized (R : Type) where
  | nothing
  | failed
  | committed (t : ExternalTable R)

def Finalized.ofRewrite : Option (ExternalTable R) → Finalized R
  | none => .failed
  | some t => .committed t

/-- `Finalize` of the three operators, under the write guard. -/
def finalize (t : ExternalTable R) : Collected R → Finalized R
  | .rows chunks => if chunks.flatten.length = 0 then .nothing else .committed (appendRows t chunks)
  | .rids rids =>
    if rids.length = 0 then .nothing
    else .ofRewrite (rewriteTouchedFiles t (deleteEdit rids) fun fileIdx => rids.any (ridFileIdx · == fileIdx))
  | .replacements batch =>
    if batch.length = 0 then .nothing
    else .ofRewrite (rewriteTouchedFiles t (updateEdit batch) fun fileIdx =>
      batch.any (ridFileIdx ·.1 == fileIdx))

/-- The rows of the table, file by file in manifest order. -/
def ExternalTable.rows (t : ExternalTable R) : List R :=
  t.manifest.entries.flatMap fun entry => ((t.files entry.fileName).map PartFile.rows).getD []

section Streaming

theorem transform_append (edit : Edit R) (fileIdx rowOffset : Nat) (first second : List R) :
    transform edit fileIdx rowOffset (first ++ second) =
      transform edit fileIdx rowOffset first ++ transform edit fileIdx (rowOffset + first.length) second := by
  simp [transform, List.zipIdx_append]

/-- However the file is cut into chunks, each row is edited under its own index. -/
theorem streamFile_spec (edit : Edit R) (fileIdx rowOffset : Nat) (writer : PartFileWriter R)
    (chunks : List (List R)) :
    (streamFile edit fileIdx rowOffset writer chunks).rows =
        writer.rows ++ transform edit fileIdx rowOffset chunks.flatten ∧
      (streamFile edit fileIdx rowOffset writer chunks).totalRows =
        writer.totalRows + (transform edit fileIdx rowOffset chunks.flatten).length := by
  induction chunks generalizing rowOffset writer with
  | nil =>
    simp [streamFile, transform]
  | cons chunk chunks ih =>
    obtain ⟨rows, total⟩ := ih (rowOffset + chunk.length)
      (writer.append (transform edit fileIdx rowOffset chunk))
    rw [streamFile, rows, total, PartFileWriter.rows_append, PartFileWriter.totalRows_append, List.flatten_cons,
      transform_append, List.append_assoc, List.length_append, Nat.add_assoc]
    exact ⟨rfl, rfl⟩

theorem rewritten_spec (edit : Edit R) (fileIdx : Nat) (file : PartFile R) :
    (streamFile edit fileIdx 0 .new file.chunks).finish.1.rows = transform edit fileIdx 0 file.rows ∧
      (streamFile edit fileIdx 0 .new file.chunks).finish.2 = (transform edit fileIdx 0 file.rows).length := by
  obtain ⟨rows, total⟩ := streamFile_spec edit fileIdx 0 .new file.chunks
  rw [file.chunks_flatten] at rows total
  constructor
  · rw [PartFileWriter.rows_finish, rows]
    rfl
  · show (streamFile edit fileIdx 0 .new file.chunks).totalRows = _
    rw [total]
    exact Nat.zero_add _

theorem foldl_append_spec (chunks : List (List R)) (writer : PartFileWriter R) :
    (chunks.foldl PartFileWriter.append writer).rows = writer.rows ++ chunks.flatten := by
  induction chunks generalizing writer with
  | nil => rw [List.foldl_nil, List.flatten_nil, List.append_nil]
  | cons chunk chunks ih =>
    rw [List.foldl_cons, ih, PartFileWriter.rows_append, List.flatten_cons, List.append_assoc]

end Streaming

section Rewriting

/-- The rows of some files of a folder, in order. -/
def contents (files : Nat → Option (PartFile R)) (entries : List (ManifestEntry Nat)) : List R :=
  entries.flatMap fun entry => ((files entry.fileName).map PartFile.rows).getD []

/-- The rows of the files, each touched file edited. -/
def editedRows (edit : Edit R) (touched : Nat → Bool) : Nat → List (PartFile R) → List R
  | _, [] => []
  | fileIdx, file :: files =>
    (if touched fileIdx then transform edit fileIdx 0 file.rows else file.rows) ++
      editedRows edit touched (fileIdx + 1) files

/-- The folder's files are found by the manifest, one for each entry, under names drawn before. -/
structure ExternalTable.Sound (t : ExternalTable R) : Prop where
  listed : ∀ entry ∈ t.manifest.entries, t.files entry.fileName ≠ none
  fresh : ∀ name, t.nextFile ≤ name → t.files name = none
  apart : (t.manifest.entries.map ManifestEntry.fileName).Nodup

/-- A rewrite underway over the files `original`, with the names in `later` still to come. -/
structure Rewriting.Along (original : Nat → Option (PartFile R)) (later : List Nat) (r : Rewriting R) : Prop where
  kept : ∀ name, original name ≠ none → r.files name = original name
  fresh : ∀ name, r.nextFile ≤ name → r.files name = none
  listed : ∀ entry ∈ r.entries, r.files entry.fileName ≠ none
  ahead : ∀ name ∈ later, original name ≠ none
  apart : (r.entries.map ManifestEntry.fileName ++ later).Nodup
  replaced : ∀ name ∈ r.replaced, original name ≠ none ∧ name ∉ r.entries.map ManifestEntry.fileName ∧ name ∉ later

theorem contents_congr {files other : Nat → Option (PartFile R)} {entries : List (ManifestEntry Nat)}
    (same : ∀ entry ∈ entries, other entry.fileName = files entry.fileName) :
    contents other entries = contents files entries := by
  apply List.flatMap_congr
  intro entry member
  rw [same entry member]

theorem contents_append (files : Nat → Option (PartFile R)) (first second : List (ManifestEntry Nat)) :
    contents files (first ++ second) = contents files first ++ contents files second :=
  List.flatMap_append ..

theorem contents_single {files : Nat → Option (PartFile R)} {entry : ManifestEntry Nat} {file : PartFile R}
    (found : files entry.fileName = some file) : contents files [entry] = file.rows := by
  simp only [contents, List.flatMap_cons, found, Option.map_some, Option.getD_some, List.flatMap_nil, List.append_nil]

variable {original : Nat → Option (PartFile R)} {r : Rewriting R} {entry : ManifestEntry Nat} {names : List Nat}
  {file part : PartFile R}

section
variable (along : r.Along original (entry.fileName :: names))
include along

theorem Rewriting.Along.carry :
    Rewriting.Along original names { r with entries := r.entries ++ [entry] } where
  kept := along.kept
  fresh := along.fresh
  listed other member := by
    rcases List.mem_append.mp member with before | here
    · exact along.listed other before
    · have present := along.ahead entry.fileName List.mem_cons_self
      rw [List.mem_singleton.mp here, along.kept _ present]
      exact present
  ahead name member := along.ahead name (List.mem_cons_of_mem _ member)
  apart := by
    have apart := along.apart
    rw [List.append_cons] at apart
    rw [List.map_append]
    exact apart
  replaced name member := by
    obtain ⟨old, listed, later⟩ := along.replaced name member
    refine ⟨old, ?_, fun inside => later (List.mem_cons_of_mem _ inside)⟩
    rw [List.map_append]
    intro inside
    rcases List.mem_append.mp inside with before | here
    · exact listed before
    · exact later (List.mem_singleton.mp here ▸ List.mem_cons_self)

theorem Rewriting.Along.drop :
    Rewriting.Along original names ⟨r.files, r.nextFile + 1, r.entries, r.replaced ++ [entry.fileName]⟩ where
  kept := along.kept
  fresh name above := along.fresh name (Nat.le_of_succ_le above)
  listed := along.listed
  ahead name member := along.ahead name (List.mem_cons_of_mem _ member)
  apart := by
    have apart := along.apart
    rw [List.nodup_middle] at apart
    exact (List.nodup_cons.mp apart).2
  replaced name member := by
    rcases List.mem_append.mp member with before | here
    · obtain ⟨old, listed, later⟩ := along.replaced name before
      exact ⟨old, listed, fun inside => later (List.mem_cons_of_mem _ inside)⟩
    · have apart := along.apart
      rw [List.nodup_middle, List.nodup_cons, List.mem_append, not_or] at apart
      rw [List.mem_singleton.mp here]
      exact ⟨along.ahead _ List.mem_cons_self, apart.1⟩

theorem Rewriting.Along.replace (part : PartFile R) (rowCount : Nat) :
    Rewriting.Along original names ⟨update r.files r.nextFile (some part), r.nextFile + 1,
      r.entries ++ [⟨r.nextFile, rowCount⟩], r.replaced ++ [entry.fileName]⟩ := by
  have dropped := along.drop
  have unused : ∀ name, r.files name ≠ none → name ≠ r.nextFile := by
    intro name present same
    exact present (along.fresh name (Nat.le_of_eq same.symm))
  have old : ∀ name, original name ≠ none → name ≠ r.nextFile := by
    intro name present
    exact unused name (by rw [along.kept name present]; exact present)
  refine ⟨?_, ?_, ?_, dropped.ahead, ?_, ?_⟩
  · intro name present
    dsimp only
    rw [update_of_ne (old name present)]
    exact along.kept name present
  · intro name above
    dsimp only at above ⊢
    rw [update_of_ne (Nat.ne_of_gt above)]
    exact dropped.fresh name above
  · intro other member
    dsimp only
    rcases List.mem_append.mp member with before | here
    · rw [update_of_ne (unused _ (along.listed other before))]
      exact along.listed other before
    · rw [List.mem_singleton.mp here, update_self]
      exact Option.some_ne_none part
  · rw [List.map_append, List.append_assoc, List.map_singleton, List.singleton_append, List.nodup_middle,
      List.nodup_cons]
    refine ⟨?_, dropped.apart⟩
    intro inside
    rcases List.mem_append.mp inside with before | later
    · obtain ⟨other, member, same⟩ := List.mem_map.mp before
      exact unused _ (along.listed other member) same
    · exact old _ (dropped.ahead _ later) rfl
  · intro name member
    obtain ⟨present, listed, later⟩ := dropped.replaced name member
    refine ⟨present, ?_, later⟩
    rw [List.map_append]
    intro inside
    rcases List.mem_append.mp inside with before | here
    · exact listed before
    · exact old name present (List.mem_singleton.mp here)

end

theorem Rewriting.Along.contents_replace (along : r.Along original names) (part : PartFile R) (rowCount : Nat) :
    contents (update r.files r.nextFile (some part)) (r.entries ++ [⟨r.nextFile, rowCount⟩]) =
      contents r.files r.entries ++ part.rows := by
  have here : contents (update r.files r.nextFile (some part)) [⟨r.nextFile, rowCount⟩] = part.rows :=
    contents_single (update_self ..)
  rw [contents_append]
  congr 1
  apply contents_congr
  intro other member
  refine update_of_ne ?_ _ _
  intro taken
  exact along.listed other member (along.fresh _ (Nat.le_of_eq taken.symm))

/-- The loop ends with the edited rows of all files, under names of their own. -/
theorem rewriteFiles_spec (edit : Edit R) (touched : Nat → Bool) (fileIdx : Nat)
    (entries : List (ManifestEntry Nat)) (files : List (PartFile R)) (r : Rewriting R)
    (along : r.Along original (entries.map ManifestEntry.fileName))
    (opened : entries.map (fun entry => original entry.fileName) = files.map some) :
    ∃ done, rewriteFiles edit touched fileIdx entries r = some done ∧ done.Along original [] ∧
      contents done.files done.entries = contents r.files r.entries ++ editedRows edit touched fileIdx files := by
  induction entries generalizing fileIdx files r with
  | nil =>
    cases files with
    | nil => exact ⟨r, rfl, along, (List.append_nil _).symm⟩
    | cons file files => cases opened
  | cons entry entries ih =>
    cases files with
    | nil => cases opened
    | cons file files =>
      rw [List.map_cons, List.map_cons, List.cons.injEq] at opened
      obtain ⟨found, others⟩ := opened
      have present : r.files entry.fileName = some file := by
        rw [along.kept _ (along.ahead _ List.mem_cons_self), found]
      rw [rewriteFiles, editedRows]
      by_cases touches : touched fileIdx = true
      · rw [if_pos touches, if_pos touches]
        simp only [present]
        obtain ⟨rows, total⟩ := rewritten_spec edit fileIdx file
        by_cases some' : 0 < (streamFile edit fileIdx 0 .new file.chunks).finish.2
        · rw [if_pos some']
          obtain ⟨done, ran, last, same⟩ := ih (fileIdx + 1) files _ (along.replace _ _) others
          refine ⟨done, ran, last, same.trans ?_⟩
          rw [along.contents_replace, rows, List.append_assoc]
        · rw [if_neg some']
          obtain ⟨done, ran, last, same⟩ := ih (fileIdx + 1) files _ along.drop others
          refine ⟨done, ran, last, ?_⟩
          have empty : transform edit fileIdx 0 file.rows = [] :=
            List.length_eq_zero_iff.mp (by rw [← total]; omega)
          rw [same, empty, List.nil_append]
      · rw [if_neg touches, if_neg touches]
        obtain ⟨done, ran, last, same⟩ := ih (fileIdx + 1) files _ along.carry others
        refine ⟨done, ran, last, ?_⟩
        rw [same, contents_append, contents_single present, List.append_assoc]

theorem ExternalTable.Sound.along {t : ExternalTable R} (sound : t.Sound) :
    Rewriting.Along t.files (t.manifest.entries.map ManifestEntry.fileName) ⟨t.files, t.nextFile, [], []⟩ := by
  refine ⟨fun _ _ => rfl, sound.fresh, ?_, ?_, sound.apart, ?_⟩
  · intro entry member
    cases member
  · intro name member
    obtain ⟨entry, inside, same⟩ := List.mem_map.mp member
    exact same ▸ sound.listed entry inside
  · intro name member
    cases member

/-- `RewriteTouchedFiles` commits the edited rows. -/
theorem rewriteTouchedFiles_spec {t : ExternalTable R} (sound : t.Sound) (edit : Edit R) (touched : Nat → Bool)
    {files : List (PartFile R)}
    (opened : t.manifest.entries.map (fun entry => t.files entry.fileName) = files.map some) :
    ∃ next, rewriteTouchedFiles t edit touched = some next ∧ next.Sound ∧
      next.rows = editedRows edit touched 0 files ∧ next.manifest.version = t.manifest.version + 1 := by
  obtain ⟨done, ran, last, same⟩ := rewriteFiles_spec edit touched 0 t.manifest.entries files _ sound.along opened
  have outside : ∀ entry ∈ done.entries, entry.fileName ∉ done.replaced := by
    intro entry member gone
    exact (last.replaced _ gone).2.1 (List.mem_map_of_mem member)
  refine ⟨_, by rw [rewriteTouchedFiles, ran], ⟨?_, ?_, ?_⟩, ?_, rfl⟩
  · intro entry member
    show (if entry.fileName ∈ done.replaced then none else done.files entry.fileName) ≠ none
    rw [if_neg (outside entry member)]
    exact last.listed entry member
  · intro name above
    show (if name ∈ done.replaced then none else done.files name) = none
    rw [last.fresh name above, ite_self]
  · have apart := last.apart
    rw [List.append_nil] at apart
    exact apart
  · refine Eq.trans (contents_congr ?_) (same.trans (List.nil_append _))
    intro entry member
    exact if_neg (outside entry member)

end Rewriting

end BumbleBee.External
