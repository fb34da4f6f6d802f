import Mathlib.Data.List.Basic

/-!
How a column chunk is read under a row mask. A chunk is a dictionary and data pages;
a page has a definition level for each row and a value, plain or as an offset into
the dictionary, for each defined one. A row the mask rejects is skipped in the
payload and its slot of the result keeps what was in it.
-/

namespace BumbleBee.External

variable {V : Type}

inductive Slot (V : Type) where
  | stale
  | null
  | value (v : V)
  deriving DecidableEq

inductive Payload (V : Type) where
  | plain (values : List V)
  | offsets (indexes : List Nat)

structure DataPage (V : Type) where
  defined : List Bool
  payload : Payload V

/-- `bitwise` is whether the stored values are those of the vector, so that a run can be copied. -/
structure ColumnReader (V : Type) where
  bitwise : Bool
  dictionary : List V
  defined : List Bool
  payload : Payload V
  pages : List (DataPage V)

namespace Payload

/-- `PlainRead` and `DictRead`. -/
def read (dictionary : List V) :
    Payload V → Option (V × Payload V)
  | .plain [] => none
  | .plain (v :: values) => some (v, .plain values)
  | .offsets [] => none
  | .offsets (k :: indexes) => (dictionary[k]?).map (·, .offsets indexes)

def skip : Payload V → Option (Payload V)
  | .plain [] => none
  | .plain (_ :: values) => some (.plain values)
  | .offsets [] => none
  | .offsets (_ :: indexes) => some (.offsets indexes)

/-- The bulk copy of `count` values. -/
def copy (dictionary : List V) : Nat → Payload V → Option (List (Slot V) × Payload V)
  | 0, payload => some ([], payload)
  | count + 1, payload =>
    match payload.read dictionary with
    | none => none
    | some (v, payload) => (copy dictionary count payload).map fun rest => (.value v :: rest.1, rest.2)

end Payload

/-- The row loop of `Plain` and `Offsets`, from row `row` of the vector on. -/
def decodeRows (dictionary : List V) (mask : Nat → Bool) : Nat → List Bool → Payload V →
    Option (List (Slot V) × Payload V)
  | _, [], payload => some ([], payload)
  | row, false :: defined, payload =>
    (decodeRows dictionary mask (row + 1) defined payload).map fun rest => (.null :: rest.1, rest.2)
  | row, true :: defined, payload =>
    if mask row then
      match payload.read dictionary with
      | none => none
      | some (v, payload) =>
        (decodeRows dictionary mask (row + 1) defined payload).map fun rest => (.value v :: rest.1, rest.2)
    else
      match payload.skip with
      | none => none
      | some payload =>
        (decodeRows dictionary mask (row + 1) defined payload).map fun rest => (.stale :: rest.1, rest.2)

/-- `Plain` and `Offsets`: without NULLs and rejected rows the values are copied. -/
def decode (bitwise : Bool) (dictionary : List V) (mask : Nat → Bool) (maskAll : Bool) (row : Nat)
    (defined : List Bool) (payload : Payload V) : Option (List (Slot V) × Payload V) :=
  if maskAll && bitwise && defined.all id then payload.copy dictionary defined.length
  else decodeRows dictionary mask row defined payload

/-- The page loop of `ColumnReader::Read`. -/
def readPages (bitwise : Bool) (dictionary : List V) (mask : Nat → Bool) (maskAll : Bool) :
    List (DataPage V) → Nat → Nat → List Bool → Payload V → Option (List (Slot V) × ColumnReader V)
  | pages, row, toRead, defined, payload =>
    match decode bitwise dictionary mask maskAll row (defined.take toRead) payload with
    | none => none
    | some (slots, payload) =>
      if toRead ≤ defined.length then
        some (slots, ⟨bitwise, dictionary, defined.drop toRead, payload, pages⟩)
      else
        match pages with
        | [] => none
        | page :: pages =>
          (readPages bitwise dictionary mask maskAll pages (row + defined.length) (toRead - defined.length)
            page.defined page.payload).map fun rest => (slots ++ rest.1, rest.2)

/-- The rows that definition levels and a payload stand for. -/
def rowsOf (dictionary : List V) : List Bool → Payload V → Option (List (Option V))
  | [], _ => some []
  | false :: defined, payload => (rowsOf dictionary defined payload).map (none :: ·)
  | true :: defined, payload =>
    match payload.read dictionary with
    | none => none
    | some (v, payload) => (rowsOf dictionary defined payload).map (some v :: ·)

def pagesRows (dictionary : List V) : List (DataPage V) → Option (List (Option V))
  | [] => some []
  | page :: pages =>
    match rowsOf dictionary page.defined page.payload, pagesRows dictionary pages with
    | some rows, some later => some (rows ++ later)
    | _, _ => none

namespace ColumnReader

def read (reader : ColumnReader V) (mask : Nat → Bool) (maskAll : Bool) (numValues : Nat) :
    Option (List (Slot V) × ColumnReader V) :=
  readPages reader.bitwise reader.dictionary mask maskAll reader.pages 0 numValues reader.defined reader.payload

/-- The rows the reader has not read, if its pages are intact. -/
def contents (reader : ColumnReader V) : Option (List (Option V)) :=
  match rowsOf reader.dictionary reader.defined reader.payload, pagesRows reader.dictionary reader.pages with
  | some rows, some later => some (rows ++ later)
  | _, _ => none

end ColumnReader

def slotOf (mask : Nat → Bool) (row : Nat) : Option V → Slot V
  | none => .null
  | some v => if mask row then .value v else .stale

/-- What the slots from `row` on hold after a masked read of these rows. -/
def slotsFrom (mask : Nat → Bool) : Nat → List (Option V) → List (Slot V)
  | _, [] => []
  | row, cell :: cells => slotOf mask row cell :: slotsFrom mask (row + 1) cells

theorem slotsFrom_append (mask : Nat → Bool) (row : Nat) (first second : List (Option V)) :
    slotsFrom mask row (first ++ second) = slotsFrom mask row first ++ slotsFrom mask (row + first.length) second := by
  induction first generalizing row with
  | nil => rfl
  | cons cell cells ih =>
    rw [List.cons_append, slotsFrom, ih, slotsFrom, List.cons_append, List.length_cons, Nat.add_assoc, Nat.add_comm 1]

theorem getElem?_slotsFrom (mask : Nat → Bool) (row i : Nat) (cells : List (Option V)) :
    (slotsFrom mask row cells)[i]? = (cells[i]?).map (slotOf mask (row + i)) := by
  induction cells generalizing row i with
  | nil => rfl
  | cons cell cells ih =>
    cases i with
    | zero => rfl
    | succ i =>
      rw [slotsFrom, List.getElem?_cons_succ, List.getElem?_cons_succ, ih, Nat.add_assoc, Nat.add_comm 1]

variable {dictionary : List V} {payload : Payload V}

theorem skip_of_read {next : Payload V} {v : V}
    (read : payload.read dictionary = some (v, next)) : payload.skip = some next := by
  cases payload with
  | plain values =>
    cases values with
    | nil => cases read
    | cons head values =>
      cases read
      rfl
  | offsets indexes =>
    cases indexes with
    | nil => cases read
    | cons k indexes =>
      obtain ⟨_, -, same⟩ := Option.map_eq_some_iff.mp read
      cases same
      rfl

variable {rows : List (Option V)}

theorem length_rowsOf {defined : List Bool}
    (held : rowsOf dictionary defined payload = some rows) : rows.length = defined.length := by
  induction defined generalizing payload rows with
  | nil =>
    cases held
    rfl
  | cons flag defined ih =>
    cases flag with
    | false =>
      obtain ⟨later, found, same⟩ := Option.map_eq_some_iff.mp held
      rw [← same, List.length_cons, List.length_cons, ih found]
    | true =>
      rw [rowsOf] at held
      split at held
      · cases held
      · obtain ⟨later, found, same⟩ := Option.map_eq_some_iff.mp held
        rw [← same, List.length_cons, List.length_cons, ih found]

theorem decodeRows_spec (mask : Nat → Bool) {first second : List Bool}
    (row : Nat) (held : rowsOf dictionary (first ++ second) payload = some rows) :
    ∃ next, decodeRows dictionary mask row first payload = some (slotsFrom mask row (rows.take first.length), next) ∧
      rowsOf dictionary second next = some (rows.drop first.length) := by
  induction first generalizing payload rows row with
  | nil => exact ⟨payload, rfl, held⟩
  | cons flag first ih =>
    cases flag with
    | false =>
      obtain ⟨later, found, same⟩ := Option.map_eq_some_iff.mp held
      obtain ⟨next, decoded, left⟩ := ih (row + 1) found
      refine ⟨next, ?_, ?_⟩
      · rw [decodeRows, decoded, ← same]
        rfl
      · rw [left, ← same]
        rfl
    | true =>
      rw [List.cons_append, rowsOf] at held
      split at held
      · cases held
      · next v after read =>
        obtain ⟨later, found, same⟩ := Option.map_eq_some_iff.mp held
        obtain ⟨next, decoded, left⟩ := ih (row + 1) found
        refine ⟨next, ?_, ?_⟩
        · rw [decodeRows, ← same, List.length_cons, List.take_succ_cons, slotsFrom, slotOf]
          split
          · rw [read]
            simp [decoded]
          · rw [skip_of_read read]
            simp [decoded]
        · rw [left, ← same]
          rfl

variable {mask : Nat → Bool}

/-- The bulk copy is the row loop where nothing is NULL and nothing is rejected. -/
theorem copy_eq_decodeRows (dictionary : List V) (maskAll : ∀ i, mask i = true)
    {defined : List Bool} (full : defined.all id = true) (row : Nat) (payload : Payload V) :
    payload.copy dictionary defined.length = decodeRows dictionary mask row defined payload := by
  induction defined generalizing row payload with
  | nil => rfl
  | cons flag defined ih =>
    rw [List.all_cons, Bool.and_eq_true] at full
    obtain ⟨here, later⟩ := full
    cases flag with
    | false => cases here
    | true =>
      rw [List.length_cons, Payload.copy, decodeRows, if_pos (maskAll row)]
      split
      · rfl
      · next v after read => rw [ih later (row + 1) after]

theorem decode_eq_decodeRows (bitwise : Bool) (dictionary : List V) {maskAll : Bool}
    (faithful : maskAll = true → ∀ i, mask i = true) (row : Nat) (defined : List Bool) (payload : Payload V) :
    decode bitwise dictionary mask maskAll row defined payload = decodeRows dictionary mask row defined payload := by
  unfold decode
  split
  · next fast =>
    rw [Bool.and_eq_true, Bool.and_eq_true] at fast
    exact copy_eq_decodeRows dictionary (faithful fast.1.1) fast.2 row payload
  · rfl

section Pages

variable {bitwise : Bool} {dictionary : List V} {mask : Nat → Bool} {maskAll : Bool} {pages : List (DataPage V)}
  {defined : List Bool} {payload : Payload V} {rows later : List (Option V)}

theorem readPages_inside (row toRead : Nat) (faithful : maskAll = true → ∀ i, mask i = true)
    (held : rowsOf dictionary defined payload = some rows) (ahead : pagesRows dictionary pages = some later)
    (inside : toRead ≤ defined.length) :
    ∃ reader, readPages bitwise dictionary mask maskAll pages row toRead defined payload =
        some (slotsFrom mask row ((rows ++ later).take toRead), reader) ∧
      reader.contents = some ((rows ++ later).drop toRead) := by
  have size := length_rowsOf held
  have split' : rowsOf dictionary (defined.take toRead ++ defined.drop toRead) payload = some rows := by
    rw [List.take_append_drop]
    exact held
  obtain ⟨next, decoded, left⟩ := decodeRows_spec mask row split'
  have taken : (defined.take toRead).length = toRead := by
    rw [List.length_take]
    omega
  rw [taken] at decoded left
  refine ⟨⟨bitwise, dictionary, defined.drop toRead, next, pages⟩, ?_, ?_⟩
  · rw [readPages, decode_eq_decodeRows bitwise dictionary faithful, decoded,
      List.take_append_of_le_length (by omega)]
    simp only [if_pos inside]
  · simp only [ColumnReader.contents, left, ahead]
    rw [List.drop_append_of_le_length (by omega)]

theorem readPages_spec (row toRead : Nat) (faithful : maskAll = true → ∀ i, mask i = true)
    (held : rowsOf dictionary defined payload = some rows) (ahead : pagesRows dictionary pages = some later)
    (enough : toRead ≤ (rows ++ later).length) :
    ∃ reader, readPages bitwise dictionary mask maskAll pages row toRead defined payload =
        some (slotsFrom mask row ((rows ++ later).take toRead), reader) ∧
      reader.contents = some ((rows ++ later).drop toRead) := by
  induction pages generalizing row toRead defined payload rows later with
  | nil =>
    have size := length_rowsOf held
    cases ahead
    rw [List.length_append, List.length_nil] at enough
    exact readPages_inside row toRead faithful held rfl (by omega)
  | cons page pages ih =>
    by_cases inside : toRead ≤ defined.length
    · exact readPages_inside row toRead faithful held ahead inside
    · have size := length_rowsOf held
      have whole : rowsOf dictionary (defined ++ []) payload = some rows := by
        rw [List.append_nil]
        exact held
      obtain ⟨next, decoded, -⟩ := decodeRows_spec mask row whole
      rw [← size, List.take_length] at decoded
      rw [pagesRows] at ahead
      split at ahead
      · next pageRows pagesLater heldPage aheadLater =>
        cases ahead
        rw [List.length_append] at enough
        obtain ⟨reader, readOn, contents⟩ := ih (row + defined.length) (toRead - defined.length)
          heldPage aheadLater (by omega)
        rw [← size] at readOn contents inside
        have skipped : (rows ++ (pageRows ++ pagesLater)).drop toRead =
            (pageRows ++ pagesLater).drop (toRead - rows.length) := by
          rw [List.drop_append, List.drop_of_length_le (by omega), List.nil_append]
        refine ⟨reader, ?_, by rw [contents, skipped]⟩
        rw [readPages, decode_eq_decodeRows bitwise dictionary faithful, List.take_of_length_le (by omega), decoded,
          List.take_append, List.take_of_length_le (show rows.length ≤ toRead by omega), slotsFrom_append]
        simp only [← size, if_neg inside, readOn, Option.map_some]
      · cases ahead

end Pages

/-- A read under a mask yields the next rows where the mask has them, and moves past all of them. -/
theorem ColumnReader.read_spec {reader : ColumnReader V} {maskAll : Bool}
    (faithful : maskAll = true → ∀ i, mask i = true) (held : reader.contents = some rows)
    {numValues : Nat} (enough : numValues ≤ rows.length) :
    ∃ next, reader.read mask maskAll numValues = some (slotsFrom mask 0 (rows.take numValues), next) ∧
      next.contents = some (rows.drop numValues) := by
  unfold ColumnReader.contents at held
  split at held
  · next here later heldHere heldLater =>
    cases held
    exact readPages_spec 0 numValues faithful heldHere heldLater enough
  · cases held

end BumbleBee.External
