import Mathlib.Data.List.Basic

/-!
Part files: what `PartFileWriter` writes and what `ParquetReader` streams back. A
file is the rows of its row groups; a scan state is the row groups still to be
entered and the current one from `group_offset_` on.
-/

namespace BumbleBee.External

def standardVectorSize : Nat := 1024

def rowsPerRowGroup : Nat := 64 * 1024

variable {R : Type}

structure PartFile (R : Type) where
  rowGroups : List (List R)
  deriving DecidableEq

def PartFile.rows (file : PartFile R) : List R := file.rowGroups.flatten

structure PartFileWriter (R : Type) where
  flushed : List (List R)
  pending : List R
  totalRows : Nat

namespace PartFileWriter

def new : PartFileWriter R := ⟨[], [], 0⟩

def flushGroup (w : PartFileWriter R) : PartFileWriter R :=
  if w.pending.length = 0 then w else { w with flushed := w.flushed ++ [w.pending], pending := [] }

def append (w : PartFileWriter R) (chunk : List R) : PartFileWriter R :=
  if chunk.length = 0 then w
  else
    let w := { w with pending := w.pending ++ chunk, totalRows := w.totalRows + chunk.length }
    if rowsPerRowGroup ≤ w.pending.length then w.flushGroup else w

def finish (w : PartFileWriter R) : PartFile R × Nat := (⟨w.flushGroup.flushed⟩, w.totalRows)

def rows (w : PartFileWriter R) : List R := w.flushed.flatten ++ w.pending

section
variable (w : PartFileWriter R)
include w

theorem rows_flushGroup : w.flushGroup.rows = w.rows := by
  unfold flushGroup
  split
  · rfl
  · simp [rows]

theorem pending_flushGroup : w.flushGroup.pending = [] := by
  unfold flushGroup
  split
  · next empty => exact List.length_eq_zero_iff.mp empty
  · rfl

theorem totalRows_flushGroup : w.flushGroup.totalRows = w.totalRows := by
  unfold flushGroup
  split <;> rfl

theorem rows_append (chunk : List R) : (w.append chunk).rows = w.rows ++ chunk := by
  unfold append
  split
  · next empty => rw [List.length_eq_zero_iff.mp empty, List.append_nil]
  · dsimp only
    split
    · rw [rows_flushGroup]
      simp [rows]
    · simp [rows]

theorem totalRows_append (chunk : List R) : (w.append chunk).totalRows = w.totalRows + chunk.length := by
  unfold append
  split
  · next empty => rw [empty, Nat.add_zero]
  · dsimp only
    split
    · rw [totalRows_flushGroup]
    · rfl

theorem rows_finish : w.finish.1.rows = w.rows := by
  rw [← rows_flushGroup, rows, pending_flushGroup, List.append_nil]
  rfl

end

end PartFileWriter

structure ScanState (R : Type) where
  ahead : List (List R)
  current : List R

namespace ScanState

/-- The rows the scan has not read. -/
def rest (st : ScanState R) : List R := st.current ++ st.ahead.flatten

/-- The rows of a chunk that pass the row filter, if one is set. -/
def approved (rowFilter : Option (R → Bool)) (rows : List R) : List R :=
  match rowFilter with
  | none => rows
  | some keep => rows.filter keep

/-- One round of the reader: enter the next row group, or read up to a vector of rows. -/
def scanInternal (rowFilter : Option (R → Bool)) (st : ScanState R) : Option (List R × ScanState R) :=
  if st.current.length = 0 then
    match st.ahead with
    | [] => none
    | group :: ahead => some ([], ⟨ahead, group⟩)
  else
    some (approved rowFilter (st.current.take standardVectorSize),
      ⟨st.ahead, st.current.drop standardVectorSize⟩)

def scanLoop (rowFilter : Option (R → Bool)) : Nat → ScanState R → List R × ScanState R
  | 0, st => ([], st)
  | fuel + 1, st =>
    match scanInternal rowFilter st with
    | none => ([], st)
    | some (chunk, st) => if 0 < chunk.length then (chunk, st) else scanLoop rowFilter fuel st

/-- Rounds the reader can still make. -/
def rounds (st : ScanState R) : Nat := st.rest.length + st.ahead.length

/-- `Scan`: rounds until one yields rows or the groups are exhausted. -/
def scan (rowFilter : Option (R → Bool)) (st : ScanState R) : List R × ScanState R :=
  scanLoop rowFilter (st.rounds + 1) st

section
variable (rowFilter : Option (R → Bool))
include rowFilter

theorem approved_nil : approved rowFilter [] = [] := by
  cases rowFilter <;> rfl

theorem approved_append (first second : List R) :
    approved rowFilter (first ++ second) = approved rowFilter first ++ approved rowFilter second := by
  cases rowFilter with
  | none => rfl
  | some keep => exact List.filter_append ..

theorem scanInternal_spec (st : ScanState R) :
    match scanInternal rowFilter st with
    | none => st.rest = []
    | some (chunk, next) => next.rounds < st.rounds ∧
        ∃ raw, st.rest = raw ++ next.rest ∧ chunk = approved rowFilter raw := by
  unfold scanInternal
  by_cases drained : st.current.length = 0
  · have empty := List.length_eq_zero_iff.mp drained
    rw [if_pos drained]
    cases later : st.ahead with
    | nil => simp only [rest, empty, later, List.flatten_nil, List.append_nil]
    | cons group ahead =>
      refine ⟨?_, [], ?_, ?_⟩
      · simp only [rounds, rest, empty, later, List.nil_append, List.flatten_cons, List.length_cons]
        omega
      · simp only [rest, empty, later, List.flatten_cons]
      · exact (approved_nil rowFilter).symm
  · rw [if_neg drained]
    have size : 0 < standardVectorSize := by decide
    refine ⟨?_, st.current.take standardVectorSize, ?_, rfl⟩
    · simp only [rounds, rest, List.length_append, List.length_drop]
      omega
    · simp only [rest]
      rw [← List.append_assoc, List.take_append_drop]

/-- What a call of `Scan` returns is the filtered next stretch of rows; nothing only at the end. -/
theorem scanLoop_spec (fuel : Nat) (st : ScanState R) (enough : st.rounds < fuel) :
    ∃ raw, st.rest = raw ++ (scanLoop rowFilter fuel st).2.rest ∧
      (scanLoop rowFilter fuel st).1 = approved rowFilter raw ∧
      ((scanLoop rowFilter fuel st).1 = [] → (scanLoop rowFilter fuel st).2.rest = []) := by
  induction fuel generalizing st with
  | zero => omega
  | succ fuel ih =>
    have spec := scanInternal_spec rowFilter st
    rw [scanLoop]
    cases read : scanInternal rowFilter st with
    | none =>
      rw [read] at spec
      exact ⟨[], rfl, (approved_nil rowFilter).symm, fun _ => spec⟩
    | some result =>
      obtain ⟨chunk, next⟩ := result
      rw [read] at spec
      obtain ⟨fewer, raw, split, kept⟩ := spec
      by_cases some' : 0 < chunk.length
      · simp only [if_pos some']
        refine ⟨raw, split, kept, ?_⟩
        intro empty
        rw [empty] at some'
        cases some'
      · simp only [if_neg some']
        obtain ⟨more, later, filtered, last⟩ := ih next (by omega)
        have nothing : approved rowFilter raw = [] := by
          rw [← kept]
          exact List.length_eq_zero_iff.mp (by omega)
        refine ⟨raw ++ more, ?_, ?_, last⟩
        · rw [split, List.append_assoc, ← later]
        · rw [approved_append, nothing, List.nil_append, filtered]

theorem scan_spec (st : ScanState R) :
    ∃ raw, st.rest = raw ++ (scan rowFilter st).2.rest ∧ (scan rowFilter st).1 = approved rowFilter raw ∧
      ((scan rowFilter st).1 = [] → (scan rowFilter st).2.rest = []) :=
  scanLoop_spec rowFilter (st.rounds + 1) st (Nat.lt_succ_self _)

end

end ScanState

namespace PartFile

def initializeScan (file : PartFile R) (groupsToRead : List Nat) : ScanState R :=
  ⟨groupsToRead.map fun g => (file.rowGroups[g]?).getD [], []⟩

def readLoop : Nat → ScanState R → List (List R)
  | 0, _ => []
  | fuel + 1, st =>
    if (st.scan none).1.length = 0 then [] else (st.scan none).1 :: readLoop fuel (st.scan none).2

/-- The chunks of the loop that streams the row groups of a file. -/
def chunksOf (file : PartFile R) (groups : List Nat) : List (List R) :=
  readLoop (file.rows.length + 1) (file.initializeScan groups)

/-- The chunks of the whole file, as a rewrite streams it. -/
def chunks (file : PartFile R) : List (List R) := file.chunksOf (List.range file.rowGroups.length)

theorem readLoop_flatten (fuel : Nat) (st : ScanState R) (enough : st.rest.length < fuel) :
    (readLoop fuel st).flatten = st.rest := by
  induction fuel generalizing st with
  | zero => omega
  | succ fuel ih =>
    obtain ⟨raw, split, kept, last⟩ := st.scan_spec none
    rw [readLoop]
    by_cases empty : (st.scan none).1.length = 0
    · rw [if_pos empty]
      have nothing := List.length_eq_zero_iff.mp empty
      have none' : raw = [] := by rw [← nothing, kept]; rfl
      rw [split, last nothing, none']
      rfl
    · rw [if_neg empty, List.flatten_cons]
      have same : (st.scan none).1 = raw := kept
      have shorter := congrArg List.length split
      rw [List.length_append, ← same] at shorter
      rw [ih _ (by omega), split, same]

theorem rest_initializeScan_all (file : PartFile R) :
    (file.initializeScan (List.range file.rowGroups.length)).rest = file.rows := by
  have groups : (List.range file.rowGroups.length).map (fun g => (file.rowGroups[g]?).getD []) =
      file.rowGroups := by
    apply List.ext_getElem
    · simp
    · intro g low high
      simp [List.getElem?_eq_getElem high]
  simp only [initializeScan, groups]
  rfl

theorem chunks_flatten (file : PartFile R) : file.chunks.flatten = file.rows := by
  rw [chunks, chunksOf, readLoop_flatten _ _ (by rw [rest_initializeScan_all]; exact Nat.lt_succ_self _),
    rest_initializeScan_all]

end PartFile

/-- One morsel: one row group of one live file. -/
structure ParquetMorsel where
  fileIdx : Nat
  groupIdx : Nat
  fileRowStart : Nat
  deriving DecidableEq

/-- The row groups of a file whose statistics do not rule the predicate out. -/
def fileMorsels (canMatch : List R → Bool) (fileIdx : Nat) : Nat → Nat → List (List R) → List ParquetMorsel
  | _, _, [] => []
  | g, rowStart, group :: groups =>
    if canMatch group then ⟨fileIdx, g, rowStart⟩ :: fileMorsels canMatch fileIdx (g + 1) (rowStart + group.length) groups
    else fileMorsels canMatch fileIdx (g + 1) (rowStart + group.length) groups

/-- The morsels of all files, the first of them having the given index. -/
def morsels (canMatch : List R → Bool) : Nat → List (PartFile R) → List ParquetMorsel
  | _, [] => []
  | fileIdx, reader :: readers =>
    fileMorsels canMatch fileIdx 0 0 reader.rowGroups ++ morsels canMatch (fileIdx + 1) readers

end BumbleBee.External
