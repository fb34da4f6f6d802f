import Mathlib.Data.List.Basic

/-!
Vectors and data chunks. A flat vector has a slot for every row, a constant one slot for
all of them, and a dictionary reads a flat child through a selection: the data and the
mask of a dictionary are its child's.
-/

namespace BumbleBee.Types

def standardVectorSize : Nat := 1024

/-- `none` is a mask without a buffer: every row is valid. -/
structure ValidityMask where
  bits : Option (Nat → Bool)

namespace ValidityMask

def allValid (mask : ValidityMask) : Bool := mask.bits.isNone

def rowIsValid (mask : ValidityMask) (idx : Nat) : Bool :=
  match mask.bits with
  | none => true
  | some bits => bits idx

end ValidityMask

inductive VectorType where
  | flat
  | constant
  | dictionary (sel : Nat → Nat)

structure Vector (τ α : Type) where
  type : τ
  vtype : VectorType
  data : Nat → α
  validity : ValidityMask

variable {τ α : Type}

namespace Vector

def slot (v : Vector τ α) : Nat → Nat :=
  match v.vtype with
  | .flat => id
  | .constant => fun _ => 0
  | .dictionary sel => sel

/-- `none` is NULL. -/
def getValue (v : Vector τ α) (index : Nat) : Option α :=
  if v.validity.rowIsValid (v.slot index) then some (v.data (v.slot index)) else none

/-- The loops of `VectorOperations::Copy`, over `count` rows of the source. -/
def write (source target : Vector τ α) (count sourceOffset targetOffset : Nat) : Vector τ α :=
  { target with
    data := fun j => if targetOffset ≤ j ∧ j < targetOffset + count then
      source.data (source.slot (sourceOffset + (j - targetOffset))) else target.data j
    validity := if source.validity.allValid && target.validity.allValid then target.validity
      else ⟨some fun j => if targetOffset ≤ j ∧ j < targetOffset + count then
        source.validity.rowIsValid (source.slot (sourceOffset + (j - targetOffset)))
        else target.validity.rowIsValid j⟩ }

/-- `none` is a write into a vector that is not flat, which an assertion excludes. -/
def copy (source target : Vector τ α) (sourceCount sourceOffset targetOffset : Nat) : Option (Vector τ α) :=
  if sourceCount - sourceOffset = 0 then some target
  else
    match target.vtype with
    | .flat => some (source.write target (sourceCount - sourceOffset) sourceOffset targetOffset)
    | .constant => if sourceCount - sourceOffset = 1 then some (source.write target 1 sourceOffset 0) else none
    | .dictionary _ => none

/-- A new vector; its slots hold whatever the buffer held. -/
def fresh [Inhabited α] (type : τ) : Vector τ α := ⟨type, .flat, fun _ => default, ⟨none⟩⟩

def normalify [Inhabited α] (v : Vector τ α) (count : Nat) : Vector τ α :=
  match v.vtype with
  | .flat => v
  | .dictionary _ => v.write (fresh v.type) count 0 0
  | .constant =>
    { v with
      vtype := .flat
      data := fun i => if i < count then v.data 0 else default
      validity := if v.validity.rowIsValid 0 then ⟨none⟩
        else ⟨some fun i => decide (max count standardVectorSize ≤ i)⟩ }

theorem getValue_write {source target : Vector τ α} (flat : target.vtype = .flat)
    (count sourceOffset targetOffset j : Nat) :
    (source.write target count sourceOffset targetOffset).getValue j =
      if targetOffset ≤ j ∧ j < targetOffset + count then source.getValue (sourceOffset + (j - targetOffset))
      else target.getValue j := by
  have here : target.slot j = j ∧ (source.write target count sourceOffset targetOffset).slot j = j := by
    simp [slot, write, flat]
  have valid : (source.write target count sourceOffset targetOffset).validity.rowIsValid j =
      if targetOffset ≤ j ∧ j < targetOffset + count then
        source.validity.rowIsValid (source.slot (sourceOffset + (j - targetOffset)))
      else target.validity.rowIsValid j := by
    simp only [write]
    split
    · next all =>
      obtain ⟨left, right⟩ := Bool.and_eq_true_iff.mp all
      simp [ValidityMask.rowIsValid, Option.isNone_iff_eq_none.mp left, Option.isNone_iff_eq_none.mp right]
    · rfl
  rw [getValue, here.2, valid, getValue, getValue, here.1]
  simp only [write]
  split <;> rfl

theorem getValue_normalify [Inhabited α] (v : Vector τ α) {count i : Nat} (inside : i < count) :
    (v.normalify count).getValue i = v.getValue i := by
  unfold normalify
  split
  · rfl
  · rw [getValue_write rfl, if_pos ⟨Nat.zero_le i, by omega⟩, Nat.zero_add, Nat.sub_zero]
  · next constant =>
    have beyond : decide (max count standardVectorSize ≤ i) = false := decide_eq_false (by omega)
    cases valid : v.validity.rowIsValid 0 <;> simp only [getValue, slot, constant, valid, inside, if_true, id]
    · simp only [ValidityMask.rowIsValid, Bool.false_eq_true, if_false, beyond]
    · rfl

theorem type_normalify [Inhabited α] (v : Vector τ α) (count : Nat) : (v.normalify count).type = v.type := by
  unfold normalify
  split <;> rfl

end Vector

structure DataChunk (τ α : Type) where
  columnCount : Nat
  data : Nat → Vector τ α
  size : Nat

namespace DataChunk

def getTypes (chunk : DataChunk τ α) : List τ := (List.range chunk.columnCount).map fun c => (chunk.data c).type

def row (chunk : DataChunk τ α) (index : Nat) : List (Option α) :=
  (List.range chunk.columnCount).map fun c => (chunk.data c).getValue index

def rows (chunk : DataChunk τ α) : List (List (Option α)) := (List.range chunk.size).map chunk.row

def append (chunk other : DataChunk τ α) : Option (DataChunk τ α) :=
  if other.size = 0 then some chunk
  else if (List.range chunk.columnCount).all fun c =>
      ((other.data c).copy (chunk.data c) other.size 0 chunk.size).isSome then
    some { chunk with
      data := fun c => ((other.data c).copy (chunk.data c) other.size 0 chunk.size).getD (chunk.data c)
      size := chunk.size + other.size }
  else none

/-- `Copy` into a new chunk of the same types. -/
def copy [Inhabited α] (chunk : DataChunk τ α) (offset : Nat) : DataChunk τ α :=
  { chunk with
    data := fun c => (chunk.data c).write (.fresh (chunk.data c).type) (chunk.size - offset) offset 0
    size := chunk.size - offset }

def normalify [Inhabited α] (chunk : DataChunk τ α) : DataChunk τ α :=
  { chunk with data := fun c => (chunk.data c).normalify chunk.size }

def Flat (chunk : DataChunk τ α) : Prop := ∀ c < chunk.columnCount, (chunk.data c).vtype = .flat

variable {chunk other : DataChunk τ α}

/-- The rows from an offset on. -/
theorem rows_split {k : Nat} (inside : k ≤ chunk.size) :
    chunk.rows = (List.range k).map chunk.row ++ (List.range (chunk.size - k)).map fun i => chunk.row (k + i) := by
  rw [rows, ← Nat.add_sub_of_le inside, List.range_add, List.map_append, List.map_map, Nat.add_sub_cancel_left]
  rfl

theorem append_spec (flat : chunk.Flat) (types : other.getTypes = chunk.getTypes) :
    ∃ filled, chunk.append other = some filled ∧ filled.Flat ∧ filled.getTypes = chunk.getTypes ∧
      filled.size = chunk.size + other.size ∧ filled.rows = chunk.rows ++ other.rows := by
  by_cases empty : other.size = 0
  · exact ⟨chunk, by simp [append, empty], flat, rfl, by omega, by simp [rows, empty]⟩
  have columns : other.columnCount = chunk.columnCount := by simpa [getTypes] using congrArg List.length types
  have copied : ∀ c < chunk.columnCount, (other.data c).copy (chunk.data c) other.size 0 chunk.size =
      some ((other.data c).write (chunk.data c) other.size 0 chunk.size) := by
    intro c column
    simp [Vector.copy, empty, flat c column]
  refine ⟨_, by rw [append, if_neg empty, if_pos (by simp +contextual [copied])], ?_, ?_, rfl, ?_⟩
  · intro c column
    simp only [copied c column, Option.getD_some]
    exact flat c column
  · apply List.map_congr_left
    intro c column
    simp [copied c (List.mem_range.mp column), Vector.write]
  · have read : ∀ c ∈ List.range chunk.columnCount, ∀ i,
        (((other.data c).copy (chunk.data c) other.size 0 chunk.size).getD (chunk.data c)).getValue i =
          if chunk.size ≤ i ∧ i < chunk.size + other.size then (other.data c).getValue (0 + (i - chunk.size))
          else (chunk.data c).getValue i := by
      intro c column i
      rw [copied c (List.mem_range.mp column), Option.getD_some,
        Vector.getValue_write (flat c (List.mem_range.mp column))]
    simp only [rows, List.range_add, List.map_append, List.map_map]
    congr 1
    · refine List.map_congr_left fun i inside => List.map_congr_left fun c column => ?_
      have before := List.mem_range.mp inside
      exact (read c column i).trans (if_neg (by omega))
    · refine List.map_congr_left fun i inside => ?_
      have before := List.mem_range.mp inside
      rw [Function.comp_apply, row, row, columns]
      refine List.map_congr_left fun c column => (read c column _).trans ?_
      rw [if_pos (by omega), Nat.zero_add, Nat.add_sub_cancel_left]

theorem length_rows (chunk : DataChunk τ α) : chunk.rows.length = chunk.size := by simp [rows]

theorem rows_copy [Inhabited α] (chunk : DataChunk τ α) (offset : Nat) :
    (chunk.copy offset).rows = (List.range (chunk.size - offset)).map fun i => chunk.row (offset + i) := by
  apply List.map_congr_left
  intro i inside
  have before : i < chunk.size - offset := List.mem_range.mp inside
  apply List.map_congr_left
  intro c _
  simp only [copy]
  rw [Vector.getValue_write rfl, if_pos ⟨Nat.zero_le i, by omega⟩, Nat.sub_zero]

theorem normalify_spec [Inhabited α] (chunk : DataChunk τ α) : chunk.normalify.getTypes = chunk.getTypes ∧
    (∀ k ≤ chunk.size, rows { chunk.normalify with size := k } = (List.range k).map chunk.row) ∧
    ∀ k, (chunk.normalify.copy k).rows = (List.range (chunk.size - k)).map fun i => chunk.row (k + i) := by
  have same : ∀ i < chunk.size, chunk.normalify.row i = chunk.row i := fun i inside =>
    List.map_congr_left fun c _ => Vector.getValue_normalify _ inside
  refine ⟨List.map_congr_left fun c _ => Vector.type_normalify _ _, fun k bound => ?_, fun k => ?_⟩
  · refine List.map_congr_left fun i inside => same i ?_
    have before : i < k := List.mem_range.mp inside
    omega
  · rw [rows_copy]
    refine List.map_congr_left fun i inside => same _ ?_
    have before : i < chunk.size - k := List.mem_range.mp inside
    omega

end DataChunk

end BumbleBee.Types
