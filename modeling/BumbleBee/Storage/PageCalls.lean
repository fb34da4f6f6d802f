import BumbleBee.Storage.SlottedPage

/-!
A page under any sequence of calls. `expected` says what the page is for: a list of
rows in slot order, with a call that changes a row's extent refused exactly when the
rows and the slot array no longer fit. `call` is the code, where a grow that drives
`new_below_start` below zero passes the collision check and leaves the frame.
-/

namespace BumbleBee.Storage.SlottedPage

inductive PageCall where
  | insertRow (tupleMeta : TupleMeta) (row : RowBytes)
  | updateRow (tupleMeta : TupleMeta) (row : RowBytes) (slot : Nat)
  | updateRowInPlaceUnsafe (tupleMeta : TupleMeta) (row : RowBytes) (slot : Nat)
  | updateTupleMeta (tupleMeta : TupleMeta) (slot : Nat)

/-- What the caller sees: a value, or the exception thrown. -/
inductive Answer where
  | inserted (slot : Nat)
  | done
  | refused
  | slotOutOfRange
  | rowSizeMismatch
  deriving DecidableEq

/-- One call on the frame; `none` when it wrote outside the frame. -/
def call (p : Overlay) : PageCall → Option (Answer × Overlay)
  | .insertRow tupleMeta row =>
    match p.insertRow tupleMeta row with
    | none => some (.refused, p)
    | some (slot, next) => some (.inserted slot, next)
  | .updateRow tupleMeta row slot =>
    match p.updateRow tupleMeta row slot with
    | .outOfRange => some (.slotOutOfRange, p)
    | .refused => some (.refused, p)
    | .updated next => some (.done, next)
    | .undefined => none
  | .updateRowInPlaceUnsafe tupleMeta row slot =>
    match p.updateRowInPlaceUnsafe tupleMeta row slot with
    | .error .outOfRange => some (.slotOutOfRange, p)
    | .error .sizeMismatch => some (.rowSizeMismatch, p)
    | .ok next => some (.done, next)
  | .updateTupleMeta tupleMeta slot =>
    match p.updateTupleMeta tupleMeta slot with
    | none => some (.slotOutOfRange, p)
    | some next => some (.done, next)

def run (p : Overlay) : List PageCall → Option (List Answer × Overlay)
  | [] => some ([], p)
  | next :: calls =>
    match call p next with
    | none => none
    | some (answer, p) => (run p calls).map fun (answers, p) => (answer :: answers, p)

/-- The rows a page should hold after a call, and what the call should answer. -/
def expected (rows : List (TupleMeta × RowBytes)) : PageCall → Answer × List (TupleMeta × RowBytes)
  | .insertRow tupleMeta row =>
    if used (rows ++ [(tupleMeta, row)]) ≤ pageSize then
      (.inserted rows.length, rows ++ [(tupleMeta, row)])
    else (.refused, rows)
  | .updateRow tupleMeta row slot =>
    if slot < rows.length then
      if used (rows.set slot (tupleMeta, row)) ≤ pageSize then
        (.done, rows.set slot (tupleMeta, row))
      else (.refused, rows)
    else (.slotOutOfRange, rows)
  | .updateRowInPlaceUnsafe tupleMeta row slot =>
    match rows[slot]? with
    | none => (.slotOutOfRange, rows)
    | some old =>
      if old.2.size = row.size then (.done, rows.set slot (tupleMeta, row))
      else (.rowSizeMismatch, rows)
  | .updateTupleMeta tupleMeta slot =>
    match rows[slot]? with
    | none => (.slotOutOfRange, rows)
    | some old => (.done, rows.set slot (tupleMeta, old.2))

def expectedRun (rows : List (TupleMeta × RowBytes)) :
    List PageCall → List Answer × List (TupleMeta × RowBytes)
  | [] => ([], rows)
  | next :: calls =>
    let after := expectedRun (expected rows next).2 calls
    ((expected rows next).1 :: after.1, after.2)

def rowBytes (rows : List (TupleMeta × RowBytes)) : Nat := (rows.map (·.2.size)).sum

/-- The rows alone still fit a page: `off_last + delta` stays at or above zero. -/
def Addressable (rows : List (TupleMeta × RowBytes)) : PageCall → Prop
  | .updateRow tupleMeta row slot => rowBytes (rows.set slot (tupleMeta, row)) ≤ pageSize
  | _ => True

def AllAddressable (rows : List (TupleMeta × RowBytes)) : List PageCall → Prop
  | [] => True
  | next :: calls => Addressable rows next ∧ AllAddressable (expected rows next).2 calls

/-- Where the row of a slot ends: the page end, or where the previous slot's row begins. -/
def upperEnd (p : Overlay) : Nat → Option Nat
  | 0 => some pageSize
  | slot + 1 => (p.tupleInfo[slot]?).map SlotInfo.offset

/-- Rows packed downward in slot order, apart from each other and from the slot array. -/
structure Intact (p : Overlay) : Prop where
  contiguous : ∀ (slot : Nat) (info : SlotInfo), p.tupleInfo[slot]? = some info →
    upperEnd p slot = some (info.offset + info.size)
  apart : ∀ (first second : Nat) (upper lower : SlotInfo), first < second → p.tupleInfo[first]? = some upper →
    p.tupleInfo[second]? = some lower → lower.offset + lower.size ≤ upper.offset
  clear : ∀ (slot : Nat) (info : SlotInfo), p.tupleInfo[slot]? = some info →
    Overlay.headerEnd p.tupleInfo.length ≤ info.offset
  inside : ∀ (slot : Nat) (info : SlotInfo), p.tupleInfo[slot]? = some info →
    info.offset + info.size ≤ pageSize

/-- The call answers and stores what it should, and a call not carried out leaves the frame as it was. -/
def Meets (p : Overlay) (next : PageCall) : Prop :=
  ∃ answer after, call p next = some (answer, after) ∧ (answer, after.rows) = expected p.rows next ∧
    Intact after ∧ (answer = .refused → after = p)

variable {slot : Nat}

theorem Overlay.PackedFrom.upperEnd_of_get {top : Nat} {slots : List SlotInfo}
    (packed : Overlay.PackedFrom top slots) {info : SlotInfo} (present : slots[slot]? = some info) :
    (slot = 0 ∧ info.offset + info.size = top) ∨
      ∃ before previous, slot = before + 1 ∧ slots[before]? = some previous ∧
        info.offset + info.size = previous.offset := by
  induction slots generalizing top slot with
  | nil => simp at present
  | cons head rest ih =>
    cases slot with
    | zero =>
      simp only [List.getElem?_cons_zero, Option.some.injEq] at present
      subst present
      exact .inl ⟨rfl, packed.1⟩
    | succ slot =>
      rcases ih packed.2 present with ⟨first, ends⟩ | ⟨before, previous, later, found, ends⟩
      · subst first
        exact .inr ⟨0, head, rfl, rfl, ends⟩
      · refine .inr ⟨before + 1, previous, by omega, ?_, ends⟩
        exact found

theorem Overlay.PackedFrom.apart {top : Nat} {slots : List SlotInfo} (packed : Overlay.PackedFrom top slots)
    {first second : Nat} {upper lower : SlotInfo} (order : first < second) (one : slots[first]? = some upper)
    (other : slots[second]? = some lower) : lower.offset + lower.size ≤ upper.offset := by
  induction slots generalizing top first second with
  | nil => simp at one
  | cons head rest ih =>
    cases second with
    | zero => omega
    | succ second =>
      cases first with
      | zero =>
        simp only [List.getElem?_cons_zero, Option.some.injEq] at one
        subst one
        exact (packed.2.bounds (List.mem_of_getElem? other)).2
      | succ first =>
        exact ih packed.2 (by omega) one other

variable {p : Overlay}

theorem Intact.of_packed (packed : p.Packed) : Intact p where
  contiguous slot info present := by
    rcases packed.contiguous.upperEnd_of_get present with ⟨first, ends⟩ | ⟨before, previous, later, found, ends⟩
    · rw [first, upperEnd, ends]
    · rw [later, upperEnd, found, Option.map_some, ends]
  apart first second upper lower order one other := packed.contiguous.apart order one other
  clear slot info present := by
    have bounds := packed.contiguous.bounds (List.mem_of_getElem? present)
    exact Nat.le_trans packed.clear bounds.1
  inside slot info present := (packed.contiguous.bounds (List.mem_of_getElem? present)).2

namespace Overlay

theorem getElem?_rows (p : Overlay) (slot : Nat) : p.rows[slot]? = p.getRow slot := by
  simp [rows, getRow]

theorem length_rows (p : Overlay) : p.rows.length = p.tupleInfo.length := by
  rw [rows, List.length_map]

theorem rowBytes_rows (p : Overlay) : rowBytes p.rows = payload p.tupleInfo := by
  simp only [rowBytes, rows, List.map_map]
  rfl

theorem used_rows (p : Overlay) : used p.rows = headerEnd p.tupleInfo.length + payload p.tupleInfo := by
  rw [← rowBytes_rows, ← length_rows]
  rfl

variable {old : SlotInfo}

theorem getRow_of_slot (present : p.tupleInfo[slot]? = some old) : p.rows[slot]? = some (slotRow p.bytes old) := by
  rw [getElem?_rows, getRow, present, Option.map_some]

theorem getRow_of_absent (absent : p.tupleInfo[slot]? = none) : p.rows[slot]? = none := by
  rw [getElem?_rows, getRow, absent, Option.map_none]

theorem rows_set_sizes (present : p.tupleInfo[slot]? = some old) (tupleMeta : TupleMeta) (row : RowBytes) :
    used (p.rows.set slot (tupleMeta, row)) + old.size =
        headerEnd p.tupleInfo.length + payload p.tupleInfo + row.size ∧
      rowBytes (p.rows.set slot (tupleMeta, row)) + old.size = payload p.tupleInfo + row.size := by
  have size := TablePage.used_set (getRow_of_slot present) (tupleMeta, row)
  have split : used (p.rows.set slot (tupleMeta, row)) =
      headerEnd p.tupleInfo.length + rowBytes (p.rows.set slot (tupleMeta, row)) := by
    rw [used, List.length_set, length_rows]
    rfl
  rw [used_rows] at size
  simp only [slotRow] at size
  omega

theorem updateRow_refused (packed : Packed p) (tupleMeta : TupleMeta) (row : RowBytes)
    (present : p.tupleInfo[slot]? = some old)
    (full : pageSize + old.size < headerEnd p.tupleInfo.length + payload p.tupleInfo + row.size)
    (addressable : payload p.tupleInfo + row.size ≤ pageSize + old.size) :
    updateRow p tupleMeta row slot = .refused := by
  have total := packed.contiguous.endOffset_add_payload
  rw [← slotEndOffset_eq] at total
  have room := packed.payload_le
  have different : row.size ≠ old.size := by omega
  simp only [updateRow, present, if_neg different]
  rw [if_pos]
  omega

/-- `new_below_start` wraps to a huge offset, passes the check and the copies leave the frame. -/
theorem updateRow_strays (packed : Packed p) (tupleMeta : TupleMeta) (row : RowBytes)
    (present : p.tupleInfo[slot]? = some old) (beyond : pageSize + old.size < payload p.tupleInfo + row.size) :
    updateRow p tupleMeta row slot = .undefined := by
  have room := packed.payload_le
  rcases updateRow_full packed tupleMeta row present (by omega) with refused | undefined
  · have total := packed.contiguous.endOffset_add_payload
    rw [← slotEndOffset_eq] at total
    have different : row.size ≠ old.size := by omega
    have small := row.small
    simp only [updateRow, present, if_neg different] at refused
    rw [if_neg (by omega)] at refused
    split at refused <;> cases refused
  · exact undefined

theorem updateRowInPlaceUnsafe_eq (tupleMeta : TupleMeta) (row : RowBytes)
    (present : p.tupleInfo[slot]? = some old) (same : old.size = row.size) :
    ∃ next, p.updateRowInPlaceUnsafe tupleMeta row slot = .ok next ∧
      p.updateRow tupleMeta row slot = .updated next := by
  simp only [updateRowInPlaceUnsafe, updateRow, present, same, ne_eq]
  exact ⟨_, rfl, rfl⟩

end Overlay

section Calls

variable {p : Overlay}

/-- What a call does on a packed page when it does what it should. -/
def Kept (p : Overlay) (next : PageCall) : Prop :=
  ∃ answer after, call p next = some (answer, after) ∧ (answer, after.rows) = expected p.rows next ∧
    after.Packed ∧ (answer = .refused → after = p)

section
variable (packed : p.Packed)
include packed

section
variable (tupleMeta : TupleMeta)
include tupleMeta

theorem Kept.insertRow (row : RowBytes) : Kept p (.insertRow tupleMeta row) := by
  have size : used (p.rows ++ [(tupleMeta, row)]) =
      Overlay.headerEnd (p.tupleInfo.length + 1) + Overlay.payload p.tupleInfo + row.size := by
    rw [TablePage.used_append, p.length_rows, ← p.rowBytes_rows]
    rfl
  have spec := Overlay.insertRow_spec packed tupleMeta row
  rw [← size] at spec
  by_cases fits : used (p.rows ++ [(tupleMeta, row)]) ≤ pageSize
  · rw [if_pos fits] at spec
    obtain ⟨next, inserted, keeps, same, -⟩ := spec
    refine ⟨.inserted p.tupleInfo.length, next, ?_, ?_, keeps, fun wrong => by cases wrong⟩
    · simp only [call, inserted]
    · simp only [expected, if_pos fits, same, p.length_rows]
  · rw [if_neg fits] at spec
    refine ⟨.refused, p, ?_, ?_, packed, fun _ => rfl⟩
    · simp only [call, spec]
    · simp only [expected, if_neg fits]

theorem Kept.updateRow (row : RowBytes) (slot : Nat)
    (addressable : Addressable p.rows (.updateRow tupleMeta row slot)) :
    Kept p (.updateRow tupleMeta row slot) := by
  cases present : p.tupleInfo[slot]? with
  | none =>
    have absent : ¬slot < p.rows.length := by
      rw [p.length_rows]
      exact Nat.not_lt.mpr (List.getElem?_eq_none_iff.mp present)
    refine ⟨.slotOutOfRange, p, ?_, ?_, packed, fun _ => rfl⟩
    · simp only [call, Overlay.updateRow, present]
    · simp only [expected, if_neg absent]
  | some old =>
    have inRange : slot < p.rows.length := by
      rw [p.length_rows]
      exact (List.getElem?_eq_some_iff.mp present).1
    obtain ⟨size, bytes⟩ := Overlay.rows_set_sizes present tupleMeta row
    rw [Addressable] at addressable
    by_cases fits : used (p.rows.set slot (tupleMeta, row)) ≤ pageSize
    · obtain ⟨next, updated, keeps, same, -⟩ :=
        Overlay.updateRow_fits packed tupleMeta row present (by omega)
      refine ⟨.done, next, ?_, ?_, keeps, fun wrong => by cases wrong⟩
      · simp only [call, updated]
      · simp only [expected, if_pos inRange, if_pos fits, same]
    · have refused := Overlay.updateRow_refused packed tupleMeta row present (by omega) (by omega)
      refine ⟨.refused, p, ?_, ?_, packed, fun _ => rfl⟩
      · simp only [call, refused]
      · simp only [expected, if_pos inRange, if_neg fits]

theorem Kept.updateRowInPlaceUnsafe (row : RowBytes) (slot : Nat) :
    Kept p (.updateRowInPlaceUnsafe tupleMeta row slot) := by
  cases present : p.tupleInfo[slot]? with
  | none =>
    refine ⟨.slotOutOfRange, p, ?_, ?_, packed, fun _ => rfl⟩
    · simp only [call, Overlay.updateRowInPlaceUnsafe, present]
    · simp only [expected, Overlay.getRow_of_absent present]
  | some old =>
    have found := Overlay.getRow_of_slot present
    by_cases same : old.size = row.size
    · obtain ⟨next, written, updated⟩ := Overlay.updateRowInPlaceUnsafe_eq tupleMeta row present same
      have room := packed.payload_le
      obtain ⟨other, again, keeps, stored, -⟩ :=
        Overlay.updateRow_fits packed tupleMeta row present (by omega)
      rw [updated] at again
      cases again
      refine ⟨.done, next, ?_, ?_, keeps, fun wrong => by cases wrong⟩
      · simp only [call, written]
      · simp only [expected, found, Overlay.slotRow, if_pos same, stored]
    · refine ⟨.rowSizeMismatch, p, ?_, ?_, packed, fun _ => rfl⟩
      · simp only [call, Overlay.updateRowInPlaceUnsafe, present, ne_eq, same, not_false_eq_true, if_true]
      · simp only [expected, found, Overlay.slotRow, if_neg same]

theorem Kept.updateTupleMeta (slot : Nat) : Kept p (.updateTupleMeta tupleMeta slot) := by
  cases present : p.tupleInfo[slot]? with
  | none =>
    refine ⟨.slotOutOfRange, p, ?_, ?_, packed, fun _ => rfl⟩
    · simp only [call, Overlay.updateTupleMeta, present]
    · simp only [expected, Overlay.getRow_of_absent present]
  | some old =>
    obtain ⟨next, updated, keeps, stored, -⟩ := Overlay.updateTupleMeta_spec packed tupleMeta present
    refine ⟨.done, next, ?_, ?_, keeps, fun wrong => by cases wrong⟩
    · simp only [call, updated]
    · simp only [expected, Overlay.getRow_of_slot present, stored]

end

theorem Kept.of_addressable {next : PageCall} (addressable : Addressable p.rows next) : Kept p next := by
  cases next with
  | insertRow tupleMeta row => exact Kept.insertRow packed tupleMeta row
  | updateRow tupleMeta row slot => exact Kept.updateRow packed tupleMeta row slot addressable
  | updateRowInPlaceUnsafe tupleMeta row slot => exact Kept.updateRowInPlaceUnsafe packed tupleMeta row slot
  | updateTupleMeta tupleMeta slot => exact Kept.updateTupleMeta packed tupleMeta slot

theorem call_strays {next : PageCall} (beyond : ¬Addressable p.rows next) : call p next = none := by
  cases next with
  | updateRow tupleMeta row slot =>
    have room := packed.payload_le
    rw [Addressable] at beyond
    cases present : p.tupleInfo[slot]? with
    | none =>
      have past : p.rows.length ≤ slot := by
        rw [p.length_rows]
        exact List.getElem?_eq_none_iff.mp present
      rw [List.set_eq_of_length_le past, p.rowBytes_rows] at beyond
      omega
    | some old =>
      obtain ⟨-, bytes⟩ := Overlay.rows_set_sizes present tupleMeta row
      have strays := Overlay.updateRow_strays packed tupleMeta row present (by omega)
      simp only [call, strays]
  | _ => exact absurd trivial beyond

theorem meets_iff (next : PageCall) : Meets p next ↔ Addressable p.rows next := by
  constructor
  · intro met
    obtain ⟨answer, after, called, -⟩ := met
    by_contra beyond
    rw [call_strays packed beyond] at called
    cases called
  · intro addressable
    obtain ⟨answer, after, called, stored, keeps, unchanged⟩ := Kept.of_addressable packed addressable
    exact ⟨answer, after, called, stored, Intact.of_packed keeps, unchanged⟩

/-- A run of addressable calls answers and stores what it should. -/
theorem run_expected {calls : List PageCall} (addressable : AllAddressable p.rows calls) :
    ∃ page, run p calls = some ((expectedRun p.rows calls).1, page) ∧
      page.rows = (expectedRun p.rows calls).2 ∧ page.Packed := by
  induction calls generalizing p with
  | nil => exact ⟨p, rfl, rfl, packed⟩
  | cons next calls ih =>
    obtain ⟨answer, after, called, stored, keeps, -⟩ := Kept.of_addressable packed addressable.1
    have later := addressable.2
    simp only [run, called, expectedRun]
    rw [← stored] at later ⊢
    obtain ⟨page, ran, same, final⟩ := ih keeps later
    refine ⟨page, ?_, same, final⟩
    rw [ran, Option.map_some]

end

end Calls

/-- In a run of addressable calls the page keeps exactly the rows last stored, packed and apart;
a further call does what it should exactly when it is addressable too. -/
theorem page_integrity (frame : Overlay) (calls : List PageCall) (addressable : AllAddressable [] calls) :
    ∃ page, run frame.init calls = some ((expectedRun [] calls).1, page) ∧ Intact page ∧
      (∀ slot, page.getRow slot = (expectedRun [] calls).2[slot]?) ∧
      ∀ next, Meets page next ↔ Addressable (expectedRun [] calls).2 next := by
  obtain ⟨page, ran, same, packed⟩ :=
    run_expected (p := frame.init) (Overlay.Packed.init frame) addressable
  refine ⟨page, ran, Intact.of_packed packed, ?_, ?_⟩
  · intro slot
    rw [← page.getElem?_rows, same]
    rfl
  · intro next
    rw [meets_iff packed next, same]
    rfl

def zeros (size : Nat) : RowBytes := ⟨size % 2 ^ 16, Nat.mod_lt size (Nat.two_pow_pos 16), fun _ => 0⟩

def liveMeta : TupleMeta := ⟨0, false⟩

def blankFrame : Overlay := ⟨invalidPageId, 0, [], fun _ => 0⟩

/-- Two rows go in, the first grows by more than the page has, the second is marked deleted. -/
def growTooFar : List PageCall :=
  [.insertRow liveMeta (zeros 100), .insertRow liveMeta (zeros 0),
    .updateRow liveMeta (zeros 8190) 0, .updateTupleMeta ⟨0, true⟩ 1]

theorem page_integrity_grown :
    (run blankFrame.init growTooFar).map Prod.fst =
      some [.inserted 0, .inserted 1, .refused, .done] := by
  have addressable : AllAddressable [] growTooFar := by
    refine ⟨trivial, trivial, ?_, trivial, trivial⟩
    show 8190 + (0 + 0) ≤ 8192
    decide
  obtain ⟨page, ran, -⟩ := page_integrity blankFrame growTooFar addressable
  rw [ran]
  rfl

def growPastPage : List PageCall :=
  [.insertRow liveMeta (zeros 1), .updateRow liveMeta (zeros 10000) 0]

/-- A one-byte row grown to 10000 bytes is not refused: the copy leaves the frame. -/
theorem grown_row_leaves_frame :
    (run blankFrame.init growPastPage).isNone = true ∧
      (expectedRun [] growPastPage).1 = [.inserted 0, .refused] := by
  constructor
  · decide +kernel
  · decide +kernel

end BumbleBee.Storage.SlottedPage
