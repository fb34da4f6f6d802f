import BumbleBee.Library.Memory
import Mathlib.Algebra.BigOperators.Group.List.Basic
import Mathlib.Algebra.Ring.Nat
import Mathlib.Data.List.Basic

/-!
The slotted page of `table_page.cpp`. `Overlay` is the page frame as the code lays
it out: a slot array growing forward, row payloads growing backward from the page
end. `TablePage` bundles an overlay with the fact that its rows are packed, and
its operations are the overlay's own; the rows it holds are then a plain list.
-/

namespace BumbleBee.Storage.SlottedPage
open Library.Memory

def pageSize : Nat := 8192
def tablePageHeaderSize : Nat := 8
def tupleInfoSize : Nat := 24
def invalidPageId : Int := -1

structure TupleMeta where
  ts : Int
  isDeleted : Bool
  deriving DecidableEq, Repr

/-- Row payload: a pointer and its `uint16_t` length. -/
structure RowBytes where
  size : Nat
  small : size < 2 ^ 16
  byte : Fin size → UInt8

structure SlotInfo where
  offset : Nat
  size : Nat
  small : size < 2 ^ 16
  tupleMeta : TupleMeta

structure Overlay where
  nextPageId : Int
  numDeletedTuples : Nat
  tupleInfo : List SlotInfo
  bytes : Bytes

/-- What `UpdateRow` does: throw, refuse, succeed, or write outside the frame. -/
inductive UpdateResult (π : Type) where
  | outOfRange
  | refused
  | updated (page : π)
  | undefined

variable {slot : Nat}

namespace Overlay

def init (p : Overlay) : Overlay :=
  { p with nextPageId := invalidPageId, numDeletedTuples := 0, tupleInfo := [] }

def headerEnd (numTuples : Nat) : Nat := tablePageHeaderSize + tupleInfoSize * numTuples

def slotEndOffset (p : Overlay) : Nat :=
  match p.tupleInfo.getLast? with
  | some s => s.offset
  | none => pageSize

def getNextRowOffset (p : Overlay) (rowSize : Nat) : Option Nat :=
  if rowSize > slotEndOffset p ∨
      slotEndOffset p - rowSize < headerEnd (p.tupleInfo.length + 1) then none
  else some (slotEndOffset p - rowSize)

def insertRow (p : Overlay) (tupleMeta : TupleMeta) (row : RowBytes) : Option (Nat × Overlay) :=
  match getNextRowOffset p row.size with
  | none => none
  | some offset => some (p.tupleInfo.length,
      { p with
        tupleInfo := p.tupleInfo ++ [⟨offset, row.size, row.small, tupleMeta⟩]
        bytes := copyIn p.bytes offset row.byte })

def slotRow (bytes : Bytes) (s : SlotInfo) : TupleMeta × RowBytes :=
  (s.tupleMeta, ⟨s.size, s.small, read bytes s.offset s.size⟩)

def getRow (p : Overlay) (slot : Nat) : Option (TupleMeta × RowBytes) :=
  (p.tupleInfo[slot]?).map (slotRow p.bytes)

/-- The tombstone counter is a `uint16_t` and is only ever incremented. -/
def noteDeleted (count : Nat) (old new : TupleMeta) : Nat :=
  if !old.isDeleted && new.isDeleted then (count + 1) % 2 ^ 16 else count

def updateTupleMeta (p : Overlay) (tupleMeta : TupleMeta) (slot : Nat) : Option Overlay :=
  match p.tupleInfo[slot]? with
  | none => none
  | some old => some { p with
      numDeletedTuples := noteDeleted p.numDeletedTuples old.tupleMeta tupleMeta
      tupleInfo := p.tupleInfo.set slot { old with tupleMeta := tupleMeta } }

/-- What `UpdateRowInPlaceUnsafe` throws. -/
inductive InPlaceError where
  | outOfRange
  | sizeMismatch

def updateRowInPlaceUnsafe (p : Overlay) (tupleMeta : TupleMeta) (row : RowBytes) (slot : Nat) :
    Except InPlaceError Overlay :=
  match p.tupleInfo[slot]? with
  | none => .error .outOfRange
  | some old =>
    if old.size ≠ row.size then .error .sizeMismatch
    else .ok { p with
      numDeletedTuples := noteDeleted p.numDeletedTuples old.tupleMeta tupleMeta
      tupleInfo := p.tupleInfo.set slot { old with tupleMeta := tupleMeta }
      bytes := copyIn p.bytes old.offset row.byte }

/-- `static_cast<uint16_t>(static_cast<int32_t>(offset) + delta)`. -/
def shiftOffset (delta : Int) (offset : Nat) : Nat := (((offset : Int) + delta) % 2 ^ 16).toNat

def shiftSlot (delta : Int) (s : SlotInfo) : SlotInfo :=
  { s with offset := shiftOffset delta s.offset }

/-- `new_below_start` is a `size_t`: an offset driven below zero wraps to a huge one
and passes the collision check, after which the copies leave the frame. -/
def updateRow (p : Overlay) (tupleMeta : TupleMeta) (row : RowBytes) (slot : Nat) : UpdateResult Overlay :=
  match p.tupleInfo[slot]? with
  | none => .outOfRange
  | some old =>
    let numDeletedTuples := noteDeleted p.numDeletedTuples old.tupleMeta tupleMeta
    if row.size = old.size then
      .updated { p with
        numDeletedTuples := numDeletedTuples
        tupleInfo := p.tupleInfo.set slot ⟨old.offset, row.size, row.small, tupleMeta⟩
        bytes := copyIn p.bytes old.offset row.byte }
    else
      let delta : Int := (old.size : Int) - row.size
      let offLast := slotEndOffset p
      let belowSize := old.offset - offLast
      let newBelowStart := (((offLast : Int) + delta) % 2 ^ 64).toNat
      if newBelowStart < headerEnd p.tupleInfo.length then .refused
      else
        let newOffset := shiftOffset delta old.offset
        if (0 < belowSize ∧ pageSize < newBelowStart + belowSize) ∨
            pageSize < newOffset + row.size then .undefined
        else
          .updated { p with
            numDeletedTuples := numDeletedTuples
            tupleInfo := p.tupleInfo.take slot ++
              ⟨newOffset, row.size, row.small, tupleMeta⟩ ::
                (p.tupleInfo.drop (slot + 1)).map (shiftSlot delta)
            bytes := copyIn (moveBlock p.bytes newBelowStart offLast belowSize) newOffset row.byte }

/-- Rows lie back to back, each ending where the previous slot's row begins. -/
def PackedFrom : Nat → List SlotInfo → Prop
  | _, [] => True
  | top, s :: rest => s.offset + s.size = top ∧ PackedFrom s.offset rest

def endOffset : Nat → List SlotInfo → Nat
  | top, [] => top
  | _, s :: rest => endOffset s.offset rest

def payload (slots : List SlotInfo) : Nat := (slots.map SlotInfo.size).sum

structure Packed (p : Overlay) : Prop where
  contiguous : PackedFrom pageSize p.tupleInfo
  clear : headerEnd p.tupleInfo.length ≤ endOffset pageSize p.tupleInfo

def rows (p : Overlay) : List (TupleMeta × RowBytes) := p.tupleInfo.map (slotRow p.bytes)

theorem endOffset_append (top : Nat) (first second : List SlotInfo) :
    endOffset top (first ++ second) = endOffset (endOffset top first) second := by
  induction first generalizing top with
  | nil => rfl
  | cons s rest ih => exact ih s.offset

theorem slotEndOffset_eq (p : Overlay) : slotEndOffset p = endOffset pageSize p.tupleInfo := by
  unfold slotEndOffset
  rcases List.eq_nil_or_concat p.tupleInfo with empty | ⟨before, last, split⟩
  · simp [empty, endOffset]
  · rw [split, List.concat_eq_append, List.getLast?_concat, endOffset_append]
    rfl

theorem packedFrom_append (top : Nat) (first second : List SlotInfo) :
    PackedFrom top (first ++ second) ↔
      PackedFrom top first ∧ PackedFrom (endOffset top first) second := by
  induction first generalizing top with
  | nil => simp [PackedFrom, endOffset]
  | cons s rest ih =>
    simp only [List.cons_append, PackedFrom, endOffset, ih s.offset, and_assoc]

variable {slots : List SlotInfo} {top : Nat}

theorem PackedFrom.endOffset_add_payload (packed : PackedFrom top slots) :
    endOffset top slots + payload slots = top := by
  induction slots generalizing top with
  | nil => rfl
  | cons s rest ih =>
    have tail := ih packed.2
    have head := packed.1
    simp only [endOffset, payload, List.map_cons, List.sum_cons] at tail ⊢
    omega

theorem PackedFrom.bounds (packed : PackedFrom top slots) {s : SlotInfo} (member : s ∈ slots) :
    endOffset top slots ≤ s.offset ∧ s.offset + s.size ≤ top := by
  induction slots generalizing top with
  | nil => simp at member
  | cons first rest ih =>
    have tail := packed.2.endOffset_add_payload
    have head := packed.1
    rcases List.mem_cons.mp member with same | later
    · subst same
      simp only [endOffset]
      omega
    · have inner := ih packed.2 later
      simp only [endOffset]
      omega

theorem shiftOffset_eq (delta : Int) (offset : Nat) (low : 0 ≤ (offset : Int) + delta)
    (high : (offset : Int) + delta < 2 ^ 16) : (shiftOffset delta offset : Int) = offset + delta := by
  unfold shiftOffset
  rw [Int.emod_eq_of_lt low high, Int.toNat_of_nonneg low]

/-- Sliding a packed run keeps it packed, one `delta` away. -/
theorem PackedFrom.shift {delta : Int} {newTop : Nat} (packed : PackedFrom top slots)
    (moved : (newTop : Int) = top + delta) (low : 0 ≤ (endOffset top slots : Int) + delta)
    (high : (top : Int) + delta < 2 ^ 16) :
    PackedFrom newTop (slots.map (shiftSlot delta)) ∧
      (endOffset newTop (slots.map (shiftSlot delta)) : Int) = endOffset top slots + delta := by
  induction slots generalizing top newTop with
  | nil => exact ⟨trivial, moved⟩
  | cons s rest ih =>
    have head := packed.1
    have tail := packed.2.endOffset_add_payload
    simp only [endOffset] at low
    have place := shiftOffset_eq delta s.offset (by omega) (by omega)
    have inner := ih packed.2 place low (by omega)
    refine ⟨⟨?_, inner.1⟩, inner.2⟩
    simp only [shiftSlot]
    omega

variable {p : Overlay}

theorem Packed.payload_le (packed : Packed p) :
    headerEnd p.tupleInfo.length + payload p.tupleInfo ≤ pageSize := by
  have total := packed.contiguous.endOffset_add_payload
  have clear := packed.clear
  omega

theorem Packed.init (p : Overlay) : Packed (init p) := by
  refine ⟨trivial, ?_⟩
  show headerEnd 0 ≤ pageSize
  decide

variable {old : SlotInfo}

theorem tupleInfo_split (present : p.tupleInfo[slot]? = some old) :
    p.tupleInfo = p.tupleInfo.take slot ++ old :: p.tupleInfo.drop (slot + 1) ∧
      (p.tupleInfo.take slot).length = slot := by
  obtain ⟨bound, same⟩ := List.getElem?_eq_some_iff.mp present
  constructor
  · rw [← same, List.cons_getElem_drop_succ, List.take_append_drop]
  · rw [List.length_take]
    omega

theorem slotRow_eq_of_read {bytes after : Bytes} {s : SlotInfo}
    (same : read after s.offset s.size = read bytes s.offset s.size) : slotRow after s = slotRow bytes s := by
  simp only [slotRow, same]

theorem insertRow_spec (packed : Packed p) (tupleMeta : TupleMeta) (row : RowBytes) :
    if headerEnd (p.tupleInfo.length + 1) + payload p.tupleInfo + row.size ≤ pageSize then
      ∃ next, insertRow p tupleMeta row = some (p.tupleInfo.length, next) ∧ Packed next ∧
        rows next = rows p ++ [(tupleMeta, row)] ∧ next.nextPageId = p.nextPageId
    else insertRow p tupleMeta row = none := by
  have total := packed.contiguous.endOffset_add_payload
  simp only [insertRow, getNextRowOffset, slotEndOffset_eq]
  split
  · rw [if_neg (by omega)]
    refine ⟨_, rfl, ⟨?_, ?_⟩, ?_, rfl⟩
    · rw [packedFrom_append]
      exact ⟨packed.contiguous, by simp only [PackedFrom, and_true]; omega⟩
    · simp only [endOffset_append, endOffset, List.length_append, List.length_singleton]
      omega
    · simp only [rows, List.map_append, List.map_cons, List.map_nil]
      congr 1
      · apply List.map_congr_left
        intro s member
        have inside := packed.contiguous.bounds member
        exact slotRow_eq_of_read (read_copyIn_apart _ _ _ _ _ (by omega))
      · simp only [slotRow, read_copyIn_self]
  · next full => rw [if_pos (by omega)]

theorem set_slot_split (present : p.tupleInfo[slot]? = some old) (new : SlotInfo) :
    p.tupleInfo.set slot new = p.tupleInfo.take slot ++ new :: p.tupleInfo.drop (slot + 1) := by
  obtain ⟨split, position⟩ := tupleInfo_split present
  conv_lhs => rw [split, List.set_append_right _ _ (by omega), position, Nat.sub_self]
  rfl

theorem Packed.sides (packed : Packed p) (present : p.tupleInfo[slot]? = some old) :
    PackedFrom pageSize (p.tupleInfo.take slot) ∧
      old.offset + old.size = endOffset pageSize (p.tupleInfo.take slot) ∧
      PackedFrom old.offset (p.tupleInfo.drop (slot + 1)) ∧
      slotEndOffset p = endOffset old.offset (p.tupleInfo.drop (slot + 1)) := by
  have contiguous := packed.contiguous
  rw [(tupleInfo_split present).1, packedFrom_append] at contiguous
  refine ⟨contiguous.1, contiguous.2.1, contiguous.2.2, ?_⟩
  rw [slotEndOffset_eq]
  conv_lhs => rw [(tupleInfo_split present).1, endOffset_append]
  rfl

variable {next : Overlay}

theorem Packed.set_same_extent (packed : Packed p) {new : SlotInfo} (present : p.tupleInfo[slot]? = some old)
    (replaced : next.tupleInfo = p.tupleInfo.set slot new) (sameOffset : new.offset = old.offset)
    (sameSize : new.size = old.size) : Packed next := by
  obtain ⟨before, adjacent, rest, last⟩ := packed.sides present
  have clear := packed.clear
  rw [← slotEndOffset_eq, last] at clear
  rw [set_slot_split present] at replaced
  constructor
  · rw [replaced, packedFrom_append]
    exact ⟨before, by omega, sameOffset ▸ rest⟩
  · have sameLength : next.tupleInfo.length = p.tupleInfo.length := by
      rw [replaced, ← set_slot_split present, List.length_set]
    rw [sameLength, replaced, endOffset_append, endOffset, sameOffset]
    exact clear

theorem updateTupleMeta_spec (packed : Packed p) (tupleMeta : TupleMeta) (present : p.tupleInfo[slot]? = some old) :
    ∃ next, updateTupleMeta p tupleMeta slot = some next ∧ Packed next ∧
      rows next = (rows p).set slot (tupleMeta, (slotRow p.bytes old).2) ∧
      next.nextPageId = p.nextPageId := by
  simp only [updateTupleMeta, present]
  refine ⟨_, rfl, packed.set_same_extent present rfl rfl rfl, ?_, rfl⟩
  simp only [rows, List.map_set]
  rfl

theorem rows_rebuilt {new : SlotInfo} {later : List SlotInfo} {row : TupleMeta × RowBytes}
    (present : p.tupleInfo[slot]? = some old) (rebuilt : next.tupleInfo = p.tupleInfo.take slot ++ new :: later)
    (before : ∀ s ∈ p.tupleInfo.take slot, slotRow next.bytes s = slotRow p.bytes s)
    (here : slotRow next.bytes new = row)
    (after : later.map (slotRow next.bytes) = (p.tupleInfo.drop (slot + 1)).map (slotRow p.bytes)) :
    rows next = (rows p).set slot row := by
  have position := (tupleInfo_split present).2
  unfold rows
  conv_rhs => rw [(tupleInfo_split present).1]
  rw [rebuilt, List.map_append, List.map_append, List.map_cons, List.map_cons, after, here,
    List.map_congr_left before, List.set_append_right _ _ (by simp only [List.length_map, position, Nat.le_refl]),
    List.length_map, position, Nat.sub_self]
  rfl

/-- Growing a row by more than the page has left either is refused or leaves the frame. -/
theorem updateRow_full (packed : Packed p) (tupleMeta : TupleMeta) (row : RowBytes)
    (present : p.tupleInfo[slot]? = some old)
    (full : pageSize + old.size < headerEnd p.tupleInfo.length + payload p.tupleInfo + row.size) :
    updateRow p tupleMeta row slot = .refused ∨ updateRow p tupleMeta row slot = .undefined := by
  obtain ⟨before, adjacent, rest, last⟩ := packed.sides present
  have total := packed.contiguous.endOffset_add_payload
  rw [← slotEndOffset_eq] at total
  have room := packed.payload_le
  have different : row.size ≠ old.size := by omega
  have small := row.small
  have page : pageSize = 8192 := rfl
  simp only [updateRow, present, if_neg different]
  split
  · exact .inl rfl
  · right
    rw [if_pos]
    by_cases below : 0 < old.offset - slotEndOffset p
    · left
      omega
    · unfold shiftOffset
      omega

theorem updateRow_fits (packed : Packed p) (tupleMeta : TupleMeta) (row : RowBytes)
    (present : p.tupleInfo[slot]? = some old)
    (fits : headerEnd p.tupleInfo.length + payload p.tupleInfo + row.size ≤ pageSize + old.size) :
    ∃ next, updateRow p tupleMeta row slot = .updated next ∧ Packed next ∧
      rows next = (rows p).set slot (tupleMeta, row) ∧ next.nextPageId = p.nextPageId := by
  obtain ⟨before, adjacent, rest, last⟩ := packed.sides present
  have total := packed.contiguous.endOffset_add_payload
  rw [← slotEndOffset_eq] at total
  have low := rest.endOffset_add_payload
  have top := before.endOffset_add_payload
  have page : pageSize = 8192 := rfl
  by_cases same : row.size = old.size
  · simp only [updateRow, present, if_pos same]
    refine ⟨_, rfl, packed.set_same_extent present rfl rfl same, ?_, rfl⟩
    refine rows_rebuilt present (set_slot_split present _) ?_ ?_ ?_
    · intro s member
      have inside := before.bounds member
      exact slotRow_eq_of_read (read_copyIn_apart _ _ _ _ _ (by omega))
    · simp only [slotRow, read_copyIn_self]
    · apply List.map_congr_left
      intro s member
      have inside := rest.bounds member
      exact slotRow_eq_of_read (read_copyIn_apart _ _ _ _ _ (by omega))
  · have place := shiftOffset_eq ((old.size : Int) - row.size) old.offset (by omega) (by omega)
    have slid := rest.shift place (by omega) (by omega)
    have start : ((((slotEndOffset p : Int) + ((old.size : Int) - row.size)) % 2 ^ 64).toNat : Int) =
        slotEndOffset p + ((old.size : Int) - row.size) := by
      rw [Int.emod_eq_of_lt (by omega) (by omega), Int.toNat_of_nonneg (by omega)]
    simp only [updateRow, present, if_neg same]
    rw [if_neg (by omega), if_neg (by omega)]
    refine ⟨_, rfl, ⟨?_, ?_⟩, rows_rebuilt present rfl ?_ ?_ ?_, rfl⟩
    · rw [packedFrom_append]
      exact ⟨before, by simp only; omega, slid.1⟩
    · have sameLength := congrArg List.length (tupleInfo_split present).1
      simp only [List.length_append, List.length_cons] at sameLength
      simp only [List.length_append, List.length_cons, List.length_map, endOffset_append, endOffset,
        ← sameLength]
      omega
    · intro s member
      have inside := before.bounds member
      refine slotRow_eq_of_read ?_
      rw [read_copyIn_apart _ _ _ _ _ (by omega), read_moveBlock_apart _ _ _ _ _ _ (by omega)]
    · simp only [slotRow, read_copyIn_self]
    · rw [List.map_map]
      apply List.map_congr_left
      intro s member
      have inside := rest.bounds member
      have moved := shiftOffset_eq ((old.size : Int) - row.size) s.offset (by omega) (by omega)
      simp only [Function.comp_apply, slotRow, shiftSlot]
      rw [read_copyIn_apart _ _ _ _ _ (by omega), read_moveBlock_within _ _ _ _ _ _ (by omega) (by omega)]
      congr 3
      omega

variable {tupleMeta : TupleMeta} {row : RowBytes}

theorem updateRow_present (done : updateRow p tupleMeta row slot = .updated next) :
    ∃ old, p.tupleInfo[slot]? = some old := by
  cases present : p.tupleInfo[slot]? with
  | none => simp [updateRow, present] at done
  | some old => exact ⟨old, rfl⟩

theorem Packed.insertRow (packed : Packed p) (done : insertRow p tupleMeta row = some (slot, next)) :
    Packed next := by
  have spec := insertRow_spec packed tupleMeta row
  split at spec
  · obtain ⟨built, same, keeps, -⟩ := spec
    rw [same] at done
    cases done
    exact keeps
  · rw [spec] at done
    cases done

theorem Packed.updateTupleMeta (packed : Packed p) (done : updateTupleMeta p tupleMeta slot = some next) :
    Packed next := by
  cases present : p.tupleInfo[slot]? with
  | none => simp [Overlay.updateTupleMeta, present] at done
  | some old =>
    obtain ⟨built, same, keeps, -⟩ := updateTupleMeta_spec packed tupleMeta present
    rw [same] at done
    cases done
    exact keeps

theorem Packed.updateRow (packed : Packed p) (done : updateRow p tupleMeta row slot = .updated next) :
    Packed next := by
  obtain ⟨old, present⟩ := updateRow_present done
  by_cases fits : headerEnd p.tupleInfo.length + payload p.tupleInfo + row.size ≤ pageSize + old.size
  · obtain ⟨built, same, keeps, -⟩ := updateRow_fits packed tupleMeta row present fits
    rw [same] at done
    cases done
    exact keeps
  · rcases updateRow_full packed tupleMeta row present (by omega) with refused | undefined
    · rw [refused] at done
      cases done
    · rw [undefined] at done
      cases done

end Overlay

/-- A page frame whose rows are packed; the only pages the operations can build. -/
structure TablePage where
  overlay : Overlay
  packed : overlay.Packed

/-- Bytes taken by the header, the slot array and the rows. -/
def used (rows : List (TupleMeta × RowBytes)) : Nat :=
  Overlay.headerEnd rows.length + (rows.map (·.2.size)).sum

namespace TablePage

def init (frame : Overlay) : TablePage := ⟨frame.init, Overlay.Packed.init frame⟩

section
variable (p : TablePage)

def rows : List (TupleMeta × RowBytes) := p.overlay.rows

def getNumTuples : Nat := p.overlay.tupleInfo.length

def getRow (slot : Nat) : Option (TupleMeta × RowBytes) := p.overlay.getRow slot

def setNextPageId (nextPageId : Int) : TablePage :=
  ⟨{ p.overlay with nextPageId := nextPageId }, p.packed.contiguous, p.packed.clear⟩

def insertRow (tupleMeta : TupleMeta) (row : RowBytes) : Option (Nat × TablePage) :=
  match done : p.overlay.insertRow tupleMeta row with
  | none => none
  | some (slot, next) => some (slot, ⟨next, p.packed.insertRow done⟩)

def updateTupleMeta (tupleMeta : TupleMeta) (slot : Nat) : Option TablePage :=
  match done : p.overlay.updateTupleMeta tupleMeta slot with
  | none => none
  | some next => some ⟨next, p.packed.updateTupleMeta done⟩

def updateRow (tupleMeta : TupleMeta) (row : RowBytes) (slot : Nat) : UpdateResult TablePage :=
  match done : p.overlay.updateRow tupleMeta row slot with
  | .outOfRange => .outOfRange
  | .refused => .refused
  | .updated next => .updated ⟨next, p.packed.updateRow done⟩
  | .undefined => .undefined

@[simp] theorem rows_init (frame : Overlay) : (init frame).rows = [] := rfl

theorem getRow_eq (slot : Nat) : p.getRow slot = p.rows[slot]? := by
  simp [getRow, rows, Overlay.rows, Overlay.getRow]

theorem used_rows :
    used p.rows = Overlay.headerEnd p.overlay.tupleInfo.length + Overlay.payload p.overlay.tupleInfo := by
  simp only [used, rows, Overlay.rows, List.length_map, List.map_map]
  rfl

theorem used_le : used p.rows ≤ pageSize := by
  rw [used_rows]
  exact p.packed.payload_le

end

variable {old : TupleMeta × RowBytes}

theorem getRow_slot {p : TablePage} (present : p.rows[slot]? = some old) :
    ∃ info, p.overlay.tupleInfo[slot]? = some info ∧ Overlay.slotRow p.overlay.bytes info = old := by
  simpa [rows, Overlay.rows] using present

theorem used_set {rows : List (TupleMeta × RowBytes)} (present : rows[slot]? = some old)
    (new : TupleMeta × RowBytes) : used (rows.set slot new) + old.2.size = used rows + new.2.size := by
  have sums : ((rows.set slot new).map (·.2.size)).sum + old.2.size =
      (rows.map (·.2.size)).sum + new.2.size := by
    induction rows generalizing slot with
    | nil => simp at present
    | cons first rest ih =>
      cases slot with
      | zero =>
        simp only [List.getElem?_cons_zero, Option.some.injEq] at present
        subst present
        simp only [List.set_cons_zero, List.map_cons, List.sum_cons]
        omega
      | succ slot =>
        have inner := ih (by simpa using present)
        simp only [List.set_cons_succ, List.map_cons, List.sum_cons]
        omega
  simp only [used, List.length_set]
  omega

theorem used_append (rows : List (TupleMeta × RowBytes)) (new : TupleMeta × RowBytes) :
    used (rows ++ [new]) = Overlay.headerEnd (rows.length + 1) + (rows.map (·.2.size)).sum + new.2.size := by
  simp [used, Nat.add_assoc]

section
variable (p : TablePage)
include p

section
variable (tupleMeta : TupleMeta)
include tupleMeta

/-- `InsertRow` succeeds exactly when the header, the slots and the rows still fit. -/
theorem insertRow_eq (row : RowBytes) :
    (used (p.rows ++ [(tupleMeta, row)]) ≤ pageSize ∧
      ∃ next, p.insertRow tupleMeta row = some (p.rows.length, next) ∧
        next.rows = p.rows ++ [(tupleMeta, row)]) ∨
    (pageSize < used (p.rows ++ [(tupleMeta, row)]) ∧ p.insertRow tupleMeta row = none) := by
  have spec := Overlay.insertRow_spec p.packed tupleMeta row
  have size : used (p.rows ++ [(tupleMeta, row)]) =
      Overlay.headerEnd (p.overlay.tupleInfo.length + 1) + Overlay.payload p.overlay.tupleInfo +
        row.size := by
    rw [used_append]
    simp only [rows, Overlay.rows, List.length_map, List.map_map]
    rfl
  rw [← size] at spec
  split at spec
  · next fits =>
    obtain ⟨next, inserted, packed, same, -⟩ := spec
    refine .inl ⟨fits, ⟨next, packed⟩, ?_, same⟩
    unfold insertRow
    split
    · next failed => rw [inserted] at failed; cases failed
    · next done =>
      rw [inserted] at done
      cases done
      simp [rows, Overlay.rows]
  · next full =>
    refine .inr ⟨Nat.lt_of_not_le full, ?_⟩
    unfold insertRow
    split
    · rfl
    · next done => rw [spec] at done; cases done

theorem updateTupleMeta_eq (present : p.rows[slot]? = some old) :
    ∃ next, p.updateTupleMeta tupleMeta slot = some next ∧ next.rows = p.rows.set slot (tupleMeta, old.2) := by
  obtain ⟨info, here, rfl⟩ := getRow_slot present
  obtain ⟨next, updated, packed, same, -⟩ := Overlay.updateTupleMeta_spec p.packed tupleMeta here
  refine ⟨⟨next, packed⟩, ?_, same⟩
  unfold updateTupleMeta
  split
  · next failed => rw [updated] at failed; cases failed
  · next done =>
    rw [updated] at done
    cases done
    rfl

theorem updateTupleMeta_absent (absent : p.rows[slot]? = none) : p.updateTupleMeta tupleMeta slot = none := by
  have missing : p.overlay.tupleInfo[slot]? = none := by
    simpa [rows, Overlay.rows] using absent
  have failed : p.overlay.updateTupleMeta tupleMeta slot = none := by
    simp [Overlay.updateTupleMeta, missing]
  unfold updateTupleMeta
  split
  · rfl
  · next done => rw [failed] at done; cases done

/-- `UpdateRow` succeeds exactly when the page still fits with the new row in place of the old. -/
theorem updateRow_eq (row : RowBytes) (present : p.rows[slot]? = some old) :
    (used (p.rows.set slot (tupleMeta, row)) ≤ pageSize ∧
      ∃ next, p.updateRow tupleMeta row slot = .updated next ∧
        next.rows = p.rows.set slot (tupleMeta, row)) ∨
    (pageSize < used (p.rows.set slot (tupleMeta, row)) ∧
      (p.updateRow tupleMeta row slot = .refused ∨ p.updateRow tupleMeta row slot = .undefined)) := by
  have size := used_set present (tupleMeta, row)
  obtain ⟨info, here, rfl⟩ := getRow_slot present
  rw [used_rows] at size
  simp only [Overlay.slotRow] at size
  by_cases fits : used (p.rows.set slot (tupleMeta, row)) ≤ pageSize
  · obtain ⟨next, updated, packed, same, -⟩ :=
      Overlay.updateRow_fits p.packed tupleMeta row here (by omega)
    refine .inl ⟨fits, ⟨next, packed⟩, ?_, same⟩
    unfold updateRow
    split <;> simp_all only [UpdateResult.updated.injEq, reduceCtorEq]
  · refine .inr ⟨by omega, ?_⟩
    rcases Overlay.updateRow_full p.packed tupleMeta row here (by omega) with refused | undefined
    · left
      unfold updateRow
      split <;> simp_all only [reduceCtorEq]
    · right
      unfold updateRow
      split <;> simp_all only [reduceCtorEq]

theorem updateRow_absent (row : RowBytes) (absent : p.rows[slot]? = none) :
    p.updateRow tupleMeta row slot = .outOfRange := by
  have missing : p.overlay.tupleInfo[slot]? = none := by
    simpa [rows, Overlay.rows] using absent
  have failed : p.overlay.updateRow tupleMeta row slot = .outOfRange := by
    simp [Overlay.updateRow, missing]
  unfold updateRow
  split <;> simp_all only [reduceCtorEq]

end

end

end TablePage

end BumbleBee.Storage.SlottedPage
