import BumbleBee.External.ColumnReader
import BumbleBee.External.PartFile
import Mathlib.Data.List.Nodup

/-!
A scan of an external table with its WHERE folded in. `ScanInternal` decodes the
columns the predicate reads, lets the row filter clear the mask, decodes the other
columns under it and emits the surviving rows; no filter is planned above the scan.
The row filter is installed only when the predicate reads some column. Row groups
are those without statistics: none is pruned.
-/

namespace BumbleBee.External
open Function

variable {V : Type}

abbrev Row (V : Type) := List (Option V)

/-- An AND/OR tree; a leaf tests the values of the columns it reads. -/
inductive Predicate (V : Type) where
  | leaf (reads : List Nat) (test : List (Option V) → Bool)
  | and (left right : Predicate V)
  | or (left right : Predicate V)

namespace Predicate

def columns : Predicate V → List Nat
  | .leaf reads _ => reads
  | .and left right => left.columns ++ right.columns
  | .or left right => left.columns ++ right.columns

def eval (cell : Nat → Option V) : Predicate V → Bool
  | .leaf reads test => test (reads.map cell)
  | .and left right => left.eval cell && right.eval cell
  | .or left right => left.eval cell || right.eval cell

theorem eval_congr {one other : Nat → Option V} {p : Predicate V} (same : ∀ c ∈ p.columns, one c = other c) :
    p.eval one = p.eval other := by
  induction p with
  | leaf reads test => exact congrArg test (List.map_congr_left same)
  | and left right ihLeft ihRight | or left right ihLeft ihRight =>
    rw [eval, eval, ihLeft fun c member => same c (List.mem_append_left _ member),
      ihRight fun c member => same c (List.mem_append_right _ member)]

end Predicate

/-- `collect`: each column once, in the order it is met. -/
def collect : List Nat → List Nat → List Nat
  | found, [] => found
  | found, c :: reads => collect (if c ∈ found then found else found ++ [c]) reads

variable {c : Nat}

theorem mem_collect (found reads : List Nat) : c ∈ collect found reads ↔ c ∈ found ∨ c ∈ reads := by
  induction reads generalizing found with
  | nil => simp [collect]
  | cons head reads ih =>
    rw [collect, ih, List.mem_cons]
    split
    · next known =>
      constructor
      · rintro (here | later)
        · exact .inl here
        · exact .inr (.inr later)
      · rintro (here | same | later)
        · exact .inl here
        · exact .inl (same ▸ known)
        · exact .inr later
    · rw [List.mem_append, List.mem_singleton, or_assoc]

theorem nodup_collect {found : List Nat} (once : found.Nodup) (reads : List Nat) : (collect found reads).Nodup := by
  induction reads generalizing found with
  | nil => exact once
  | cons head reads ih =>
    rw [collect]
    split
    · exact ih once
    · next fresh =>
      apply ih
      rw [List.nodup_append]
      refine ⟨once, List.nodup_singleton head, ?_⟩
      intro c member other single
      rw [List.mem_singleton.mp single]
      intro same
      exact fresh (same ▸ member)

/-- Column pruning keeps the columns the predicate reads. -/
structure ColumnPlan (V : Type) where
  columnCount : Nat
  live : Nat → Bool
  predicate : Option (Predicate V)
  reads_live : ∀ p, predicate = some p → ∀ c ∈ p.columns, c < columnCount ∧ live c = true

/-- A row group: its columns' readers as `InitializeRead` leaves them, and the rows they hold. -/
structure RowGroup (V : Type) where
  numRows : Nat
  columns : Nat → ColumnReader V
  cells : Nat → List (Option V)
  intact : ∀ c, (columns c).contents = some (cells c)
  full : ∀ c, (cells c).length = numRows

structure Chunk (V : Type) where
  readers : Nat → ColumnReader V
  data : Nat → List (Slot V)

structure GroupScan (V : Type) where
  readers : Nat → ColumnReader V
  remaining : Nat

structure ColumnScan (V : Type) where
  ahead : List (RowGroup V)
  current : GroupScan V

def Slot.cell : Slot V → Option V
  | .value v => some v
  | .null | .stale => none

/-- Reads the next `n` rows of the listed columns under a mask; `none` is an exception. -/
def readColumns (mask : Nat → Bool) (maskAll : Bool) (n : Nat) : List Nat → Chunk V → Option (Chunk V)
  | [], chunk => some chunk
  | c :: columns, chunk =>
    match (chunk.readers c).read mask maskAll n with
    | none => none
    | some (slots, reader) =>
      readColumns mask maskAll n columns
        ⟨update chunk.readers c reader, update chunk.data c slots⟩

def Chunk.cell (chunk : Chunk V) (i c : Nat) : Option V := ((chunk.data c)[i]?).bind Slot.cell

namespace ColumnPlan

variable (plan : ColumnPlan V)

def filterColumns : List Nat :=
  match plan.predicate with
  | none => []
  | some p => collect [] p.columns

/-- The columns decoded after the filter has run. -/
def otherColumns : List Nat :=
  (List.range plan.columnCount).filter fun c => plan.live c && !plan.filterColumns.contains c

def passes (cell : Nat → Option V) : Bool :=
  match plan.predicate with
  | none => true
  | some p => p.eval cell

/-- A pruned column is a constant NULL. -/
def outputRow (cell : Nat → Option V) : Row V :=
  (List.range plan.columnCount).map fun c => if plan.live c then cell c else none

def selects (row : Row V) : Bool := plan.passes fun c => (row[c]?).getD none

def unfiltered : ColumnPlan V := { plan with predicate := none, reads_live := fun _ absent => by cases absent }

/-- The row filter is only set when the predicate reads some column. -/
def rowFilter : Option (Row V → Bool) := if plan.filterColumns.isEmpty then none else some plan.selects

/-- The batch of `ScanInternal`. -/
def batch (s : GroupScan V) : Option (List (Row V) × GroupScan V) :=
  let n := min standardVectorSize s.remaining
  match readColumns (fun _ => true) true n plan.filterColumns ⟨s.readers, fun _ => []⟩ with
  | none => none
  | some chunk =>
    let maskAll := plan.filterColumns.isEmpty || (List.range n).all fun i => plan.passes (chunk.cell i)
    let mask (i : Nat) : Bool := maskAll || (decide (i < n) && plan.passes (chunk.cell i))
    match readColumns mask maskAll n plan.otherColumns chunk with
    | none => none
    | some chunk =>
      some (((List.range n).filter mask).map fun i => plan.outputRow (chunk.cell i), ⟨chunk.readers, s.remaining - n⟩)

/-- `ScanInternal`: `some none` once the groups are exhausted. -/
def scanInternal (cs : ColumnScan V) : Option (Option (List (Row V) × ColumnScan V)) :=
  if cs.current.remaining = 0 then
    match cs.ahead with
    | [] => some none
    | group :: ahead => some (some ([], ⟨ahead, ⟨group.columns, group.numRows⟩⟩))
  else (plan.batch cs.current).map fun result => some (result.1, ⟨cs.ahead, result.2⟩)

/-- The rows `GetData` emits of a morsel, `Scan` calling `ScanInternal` until there is nothing left. -/
def drain : Nat → ColumnScan V → Option (List (Row V))
  | 0, _ => some []
  | fuel + 1, cs =>
    match plan.scanInternal cs with
    | none => none
    | some none => some []
    | some (some (chunk, next)) => (drain fuel next).map (chunk ++ ·)

/-- `InitializeScan` of a morsel, with no group entered yet, then its rows. -/
def scanMorsel (group : RowGroup V) : Option (List (Row V)) :=
  plan.drain (group.numRows + 2) ⟨[group], ⟨fun _ => ⟨true, [], [], .plain [], []⟩, 0⟩⟩

def scanMorsels : List (RowGroup V) → Option (List (Row V))
  | [] => some []
  | group :: groups =>
    match plan.scanMorsel group, scanMorsels groups with
    | some rows, some later => some (rows ++ later)
    | _, _ => none

/-- The rows the scan returns of the files of a manifest. -/
def scanTable (files : List (List (RowGroup V))) : Option (List (Row V)) := plan.scanMorsels files.flatten

def groupRows (group : RowGroup V) : List (Row V) :=
  (List.range group.numRows).map fun i => plan.outputRow fun c => ((group.cells c)[i]?).getD none

/-- The rows stored in the files, pruned columns as NULL. -/
def tableRows (files : List (List (RowGroup V))) : List (Row V) := files.flatten.flatMap plan.groupRows

end ColumnPlan

variable {cells : Nat → List (Option V)}

theorem readColumns_spec (mask : Nat → Bool) (maskAll : Bool) (faithful : maskAll = true → ∀ i, mask i = true)
    {n : Nat} {columns : List Nat} (once : columns.Nodup) (chunk : Chunk V)
    (held : ∀ c ∈ columns, (chunk.readers c).contents = some (cells c) ∧ n ≤ (cells c).length) :
    ∃ after, readColumns mask maskAll n columns chunk = some after ∧
      (∀ c ∈ columns, after.data c = slotsFrom mask 0 ((cells c).take n) ∧
        (after.readers c).contents = some ((cells c).drop n)) ∧
      ∀ c, c ∉ columns → after.data c = chunk.data c ∧ after.readers c = chunk.readers c := by
  induction columns generalizing chunk with
  | nil =>
    refine ⟨chunk, rfl, ?_, fun c _ => ⟨rfl, rfl⟩⟩
    intro c member
    cases member
  | cons head columns ih =>
    obtain ⟨fresh, once⟩ := List.nodup_cons.mp once
    obtain ⟨contents, enough⟩ := held head List.mem_cons_self
    obtain ⟨reader, read, left⟩ := ColumnReader.read_spec faithful contents enough
    have heldRest : ∀ c ∈ columns, (update chunk.readers head reader c).contents = some (cells c) ∧
        n ≤ (cells c).length := by
      intro c member
      have apart : c ≠ head := fun same => fresh (same ▸ member)
      rw [update_of_ne apart]
      exact held c (List.mem_cons_of_mem _ member)
    obtain ⟨after, readRest, inside, outside⟩ :=
      ih once ⟨update chunk.readers head reader,
        update chunk.data head (slotsFrom mask 0 ((cells head).take n))⟩ heldRest
    refine ⟨after, ?_, ?_, ?_⟩
    · rw [readColumns, read]
      exact readRest
    · intro c member
      rcases List.mem_cons.mp member with same | later
      · obtain ⟨data, readers⟩ := outside head fresh
        rw [same, data, readers]
        dsimp only
        rw [update_self, update_self]
        exact ⟨rfl, left⟩
      · exact inside c later
    · intro c absent
      have apart : c ≠ head := fun same => absent (same ▸ List.mem_cons_self)
      obtain ⟨data, readers⟩ := outside c fun later => absent (List.mem_cons_of_mem _ later)
      rw [data, readers]
      dsimp only
      rw [update_of_ne apart, update_of_ne apart]
      exact ⟨rfl, rfl⟩

theorem cell_of_read {mask : Nat → Bool} {n i : Nat} {cells : List (Option V)} {chunk : Chunk V}
    (data : chunk.data c = slotsFrom mask 0 (cells.take n)) (inside : i < n) (kept : mask i = true) :
    chunk.cell i c = (cells[i]?).getD none := by
  rw [Chunk.cell, data, getElem?_slotsFrom, List.getElem?_take_of_lt inside, Nat.zero_add]
  cases cells[i]? with
  | none => rfl
  | some cell =>
    cases cell with
    | none => rfl
    | some v => simp only [Option.map_some, Option.bind_some, slotOf, kept, if_true, Slot.cell, Option.getD_some]

namespace ColumnPlan

variable {plan : ColumnPlan V}

theorem mem_filterColumns (member : c ∈ plan.filterColumns) : c < plan.columnCount ∧ plan.live c = true := by
  unfold filterColumns at member
  split at member
  · cases member
  · next p found =>
    rcases (mem_collect [] p.columns).mp member with none' | reads
    · cases none'
    · exact plan.reads_live p found c reads

theorem nodup_filterColumns (plan : ColumnPlan V) : plan.filterColumns.Nodup := by
  unfold filterColumns
  split
  · exact List.nodup_nil
  · exact nodup_collect List.nodup_nil _

theorem nodup_otherColumns (plan : ColumnPlan V) : plan.otherColumns.Nodup := List.nodup_range.filter _

theorem mem_otherColumns :
    c ∈ plan.otherColumns ↔ (c < plan.columnCount ∧ plan.live c = true) ∧ c ∉ plan.filterColumns := by
  simp only [otherColumns, List.mem_filter, List.mem_range, Bool.and_eq_true, Bool.not_eq_true',
    List.contains_eq_mem, decide_eq_false_iff_not, and_assoc]

theorem passes_congr {one other : Nat → Option V} (same : ∀ c ∈ plan.filterColumns, one c = other c) :
    plan.passes one = plan.passes other := by
  unfold passes
  split
  · rfl
  · next p found =>
    apply Predicate.eval_congr
    intro c member
    apply same
    rw [filterColumns, found]
    exact (mem_collect [] p.columns).mpr (.inr member)

theorem outputRow_congr {one other : Nat → Option V}
    (same : ∀ c, c < plan.columnCount → plan.live c = true → one c = other c) :
    plan.outputRow one = plan.outputRow other := by
  apply List.map_congr_left
  intro c member
  split
  · next alive => exact same c (List.mem_range.mp member) alive
  · rfl

/-- The predicate sees of an output row what it sees of the stored one. -/
theorem selects_outputRow (cell : Nat → Option V) : plan.selects (plan.outputRow cell) = plan.passes cell := by
  apply passes_congr
  intro c member
  obtain ⟨inside, alive⟩ := mem_filterColumns member
  rw [outputRow, List.getElem?_map, List.getElem?_range inside]
  simp [alive]

end ColumnPlan

section
variable (plan : ColumnPlan V)

/-- The rows a group's live columns still hold. -/
def GroupScan.Stores (s : GroupScan V) (cells : Nat → List (Option V)) : Prop :=
  ∀ c, c < plan.columnCount → plan.live c = true →
    (s.readers c).contents = some (cells c) ∧ (cells c).length = s.remaining

section
variable (cells : Nat → List (Option V))

def storedRow (i c : Nat) : Option V := ((cells c)[i]?).getD none

def storedRows (count : Nat) : List (Row V) :=
  (List.range count).map fun i => plan.outputRow (storedRow cells i)

theorem storedRows_take (count n : Nat) :
    (storedRows plan cells count).take n = storedRows plan cells (min n count) := by
  rw [storedRows, storedRows, ← List.map_take, List.take_range]

theorem storedRow_drop (n i : Nat) : storedRow (fun c => (cells c).drop n) i = storedRow cells (n + i) := by
  funext c
  rw [storedRow, storedRow, List.getElem?_drop]

theorem storedRows_drop (count n : Nat) :
    (storedRows plan cells count).drop n = storedRows plan (fun c => (cells c).drop n) (count - n) := by
  apply List.ext_getElem?
  intro i
  rw [List.getElem?_drop, storedRows, storedRows, List.getElem?_map, List.getElem?_map]
  by_cases inside : n + i < count
  · rw [List.getElem?_range inside, List.getElem?_range (by omega), Option.map_some, Option.map_some, storedRow_drop]
  · rw [List.getElem?_eq_none (by simpa using inside), List.getElem?_eq_none (by simp only [List.length_range]; omega)]
    rfl

theorem approved_storedRows (n : Nat) : ScanState.approved plan.rowFilter (storedRows plan cells n) =
      ((List.range n).filter fun i => plan.filterColumns.isEmpty || plan.passes (storedRow cells i)).map
        fun i => plan.outputRow (storedRow cells i) := by
  cases empty : plan.filterColumns.isEmpty with
  | true =>
    have filter : plan.rowFilter = none := if_pos empty
    rw [filter]
    simp only [Bool.true_or, List.filter_true]
    rfl
  | false =>
    have filter : plan.rowFilter = some plan.selects := by
      apply if_neg
      show ¬ plan.filterColumns.isEmpty = true
      rw [empty]
      exact Bool.false_ne_true
    rw [filter]
    show (storedRows plan cells n).filter plan.selects = _
    rw [storedRows, List.filter_map]
    congr 1
    apply List.filter_congr
    intro i _
    rw [comp_apply, ColumnPlan.selects_outputRow, Bool.false_or]

end

end

variable {plan : ColumnPlan V}

theorem batch_spec {s : GroupScan V} (stores : s.Stores plan cells) :
    ∃ next, plan.batch s = some (ScanState.approved plan.rowFilter
        ((storedRows plan cells s.remaining).take standardVectorSize), next) ∧
      next.remaining = s.remaining - standardVectorSize ∧
      next.Stores plan fun c => (cells c).drop standardVectorSize := by
  generalize size : min standardVectorSize s.remaining = n
  have heldFirst : ∀ c ∈ plan.filterColumns, (s.readers c).contents = some (cells c) ∧ n ≤ (cells c).length := by
    intro c member
    obtain ⟨inside, alive⟩ := ColumnPlan.mem_filterColumns member
    obtain ⟨contents, length⟩ := stores c inside alive
    exact ⟨contents, by omega⟩
  obtain ⟨first, readFirst, decodedFirst, keptFirst⟩ := readColumns_spec (fun _ => true) true (fun _ _ => rfl)
    plan.nodup_filterColumns ⟨s.readers, fun _ => []⟩ heldFirst
  have seen : ∀ i < n, plan.passes (first.cell i) = plan.passes (storedRow cells i) := by
    intro i inside
    apply ColumnPlan.passes_congr
    intro c member
    exact cell_of_read (decodedFirst c member).1 inside rfl
  generalize whole : (plan.filterColumns.isEmpty || (List.range n).all fun i => plan.passes (first.cell i)) = maskAll
  generalize bits : (fun i : Nat => maskAll || (decide (i < n) && plan.passes (first.cell i))) = mask
  have masked : ∀ i < n, mask i = (plan.filterColumns.isEmpty || plan.passes (storedRow cells i)) := by
    intro i inside
    rw [← bits, ← whole, ← seen i inside]
    simp only [inside, decide_true, Bool.true_and]
    cases every : (List.range n).all fun i => plan.passes (first.cell i) with
    | true =>
      rw [List.all_eq_true.mp every i (List.mem_range.mpr inside)]
      simp
    | false => rw [Bool.or_false]
  have faithful : maskAll = true → ∀ i, mask i = true := by
    intro all i
    rw [← bits, all]
    rfl
  have heldSecond : ∀ c ∈ plan.otherColumns, (first.readers c).contents = some (cells c) ∧ n ≤ (cells c).length := by
    intro c member
    obtain ⟨⟨inside, alive⟩, apart⟩ := ColumnPlan.mem_otherColumns.mp member
    obtain ⟨contents, length⟩ := stores c inside alive
    rw [(keptFirst c apart).2]
    exact ⟨contents, by omega⟩
  obtain ⟨second, readSecond, decodedSecond, keptSecond⟩ := readColumns_spec mask maskAll faithful
    plan.nodup_otherColumns first heldSecond
  have both : ∀ c, c < plan.columnCount → plan.live c = true →
      (∀ i < n, mask i = true → second.cell i c = storedRow cells i c) ∧
        (second.readers c).contents = some ((cells c).drop n) := by
    intro c inside alive
    by_cases early : c ∈ plan.filterColumns
    · have later : c ∉ plan.otherColumns := fun member => (ColumnPlan.mem_otherColumns.mp member).2 early
      obtain ⟨data, readers⟩ := keptSecond c later
      obtain ⟨decoded, left⟩ := decodedFirst c early
      refine ⟨?_, by rw [readers, left]⟩
      intro i small _
      exact cell_of_read (data.trans decoded) small rfl
    · obtain ⟨decoded, left⟩ := decodedSecond c (ColumnPlan.mem_otherColumns.mpr ⟨⟨inside, alive⟩, early⟩)
      refine ⟨?_, left⟩
      intro i small kept
      exact cell_of_read decoded small kept
  refine ⟨⟨second.readers, s.remaining - n⟩, ?_, ?_, ?_⟩
  · simp only [ColumnPlan.batch, size, readFirst, whole, bits, readSecond]
    rw [storedRows_take, size, approved_storedRows]
    congr 2
    rw [List.filter_congr (fun i member => masked i (List.mem_range.mp member))]
    apply List.map_congr_left
    intro i member
    obtain ⟨small, kept⟩ := List.mem_filter.mp member
    have small := List.mem_range.mp small
    apply ColumnPlan.outputRow_congr
    intro c inside alive
    exact (both c inside alive).1 i small ((masked i small).trans kept)
  · show s.remaining - n = s.remaining - standardVectorSize
    omega
  · intro c inside alive
    obtain ⟨-, length⟩ := stores c inside alive
    have same : (cells c).drop n = (cells c).drop standardVectorSize := by
      rcases Nat.le_total standardVectorSize s.remaining with most | least
      · rw [← size, Nat.min_eq_left most]
      · rw [← size, List.drop_of_length_le (by omega), List.drop_of_length_le (by omega)]
    dsimp only
    rw [← same]
    refine ⟨(both c inside alive).2, ?_⟩
    rw [List.length_drop, length]

/-- The column-level scan holds the rows of the row-level one. -/
structure Represents (plan : ColumnPlan V) (cs : ColumnScan V) (st : ScanState (Row V)) : Prop where
  ahead : st.ahead = cs.ahead.map plan.groupRows
  current : ∃ cells, cs.current.Stores plan cells ∧ st.current = storedRows plan cells cs.current.remaining

variable {st : ScanState (Row V)}

theorem scanInternal_simulates {cs : ColumnScan V} (represents : Represents plan cs st) :
    match ScanState.scanInternal plan.rowFilter st with
    | none => plan.scanInternal cs = some none
    | some (chunk, next) => ∃ after, plan.scanInternal cs = some (some (chunk, after)) ∧ Represents plan after next := by
  obtain ⟨cells, stores, rows⟩ := represents.current
  have length : st.current.length = cs.current.remaining := by
    rw [rows, storedRows, List.length_map, List.length_range]
  unfold ScanState.scanInternal ColumnPlan.scanInternal
  rw [length, represents.ahead]
  by_cases drained : cs.current.remaining = 0
  · rw [if_pos drained, if_pos drained]
    cases cs.ahead with
    | nil => rfl
    | cons group ahead =>
      refine ⟨_, rfl, ⟨rfl, group.cells, ?_, rfl⟩⟩
      intro c _ _
      exact ⟨group.intact c, group.full c⟩
  · rw [if_neg drained, if_neg drained]
    obtain ⟨next, read, remaining, later⟩ := batch_spec stores
    refine ⟨⟨cs.ahead, next⟩, ?_, rfl, _, later, ?_⟩
    · rw [read, rows]
      rfl
    · rw [rows, storedRows_drop, remaining]

/-- Draining a morsel yields the rows the row filter approves, and never fails. -/
theorem drain_spec (fuel : Nat) {cs : ColumnScan V} (represents : Represents plan cs st)
    (enough : st.rounds < fuel) : plan.drain fuel cs = some (ScanState.approved plan.rowFilter st.rest) := by
  induction fuel generalizing cs st with
  | zero => omega
  | succ fuel ih =>
    have step := scanInternal_simulates represents
    have spec := ScanState.scanInternal_spec plan.rowFilter st
    rw [ColumnPlan.drain]
    cases round : ScanState.scanInternal plan.rowFilter st with
    | none =>
      rw [round] at step spec
      rw [step, show st.rest = [] from spec, ScanState.approved_nil]
    | some result =>
      rw [round] at step spec
      obtain ⟨after, taken, later⟩ := step
      obtain ⟨fewer, raw, split', kept⟩ := spec
      rw [taken]
      dsimp only
      rw [ih later (by omega), split', ScanState.approved_append, kept]
      rfl

namespace ColumnPlan

theorem scanMorsel_spec (plan : ColumnPlan V) (group : RowGroup V) :
    plan.scanMorsel group = some (ScanState.approved plan.rowFilter (plan.groupRows group)) := by
  have represents : Represents plan ⟨[group], ⟨fun _ => ⟨true, [], [], .plain [], []⟩, 0⟩⟩
      ⟨[plan.groupRows group], []⟩ := by
    refine ⟨rfl, fun _ => [], ?_, rfl⟩
    intro c _ _
    exact ⟨rfl, rfl⟩
  have length : (plan.groupRows group).length = group.numRows := by
    rw [groupRows, List.length_map, List.length_range]
  have drained := drain_spec (group.numRows + 2) represents (by
    simp only [ScanState.rounds, ScanState.rest, List.nil_append, List.flatten_cons, List.flatten_nil,
      List.append_nil, List.length_singleton]
    omega)
  rw [scanMorsel, drained]
  simp [ScanState.rest]

theorem scanTable_spec (plan : ColumnPlan V) (files : List (List (RowGroup V))) :
    plan.scanTable files = some (ScanState.approved plan.rowFilter (plan.tableRows files)) := by
  unfold scanTable tableRows
  induction files.flatten with
  | nil => rw [scanMorsels, List.flatMap_nil, ScanState.approved_nil]
  | cons group groups ih =>
    rw [scanMorsels, scanMorsel_spec, ih, List.flatMap_cons, ScanState.approved_append]

end ColumnPlan

/-- The scan returns the rows that satisfy the folded WHERE exactly when the WHERE reads some column or no row
fails it. -/
theorem where_applied_exactly (plan : ColumnPlan V) (files : List (List (RowGroup V))) :
    plan.unfiltered.scanTable files = some (plan.tableRows files) ∧
      (plan.scanTable files = some ((plan.tableRows files).filter plan.selects) ↔
        plan.filterColumns ≠ [] ∨ ∀ row ∈ plan.tableRows files, plan.selects row = true) := by
  refine ⟨plan.unfiltered.scanTable_spec files, ?_⟩
  rw [plan.scanTable_spec, Option.some.injEq]
  by_cases reads : plan.filterColumns = []
  · have filter : plan.rowFilter = none := if_pos (List.isEmpty_iff.mpr reads)
    rw [filter]
    show plan.tableRows files = _ ↔ _
    rw [eq_comm, List.filter_eq_self]
    simp only [reads, ne_eq, not_true_eq_false, false_or]
  · have filter : plan.rowFilter = some plan.selects :=
      if_neg fun empty => reads (List.isEmpty_iff.mp empty)
    rw [filter]
    exact ⟨fun _ => .inl reads, fun _ => rfl⟩

/-- `WHERE 1 = 0` on a table of one column. -/
def constantFalse : ColumnPlan Bool where
  columnCount := 1
  live _ := true
  predicate := some (.leaf [] fun _ => false)
  reads_live := by
    intro p same c member
    cases same
    cases member

def oneRow : RowGroup Bool where
  numRows := 1
  columns _ := ⟨true, [], [], .plain [], [⟨[true], .plain [true]⟩]⟩
  cells _ := [some true]
  intact _ := rfl
  full _ := rfl

/-- A predicate that reads no column is never applied. -/
theorem constant_false_ignored :
    constantFalse.scanTable [[oneRow]] = some [[some true]] ∧
      (constantFalse.tableRows [[oneRow]]).filter constantFalse.selects = [] :=
  ⟨rfl, rfl⟩

end BumbleBee.External
