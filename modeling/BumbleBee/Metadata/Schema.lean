import Mathlib.Data.List.Basic

/-!
The types, columns and schemas of the catalog. A column carries the proof that its
width is the one its type has, and a schema lays its columns out one after another.
-/

namespace BumbleBee.Metadata

inductive PhysicalType where
  | tinyint | smallint | integer | bigint
  | utinyint | usmallint | uinteger | ubigint
  | float | double
  | string
  | struct | list | array
  | unknown
  deriving DecidableEq, Repr

/-- The logical types without extra data. -/
inductive ScalarType where
  | boolean | tinyint | smallint | integer | bigint
  | utinyint | usmallint | uinteger | ubigint
  | hash | address
  | float | double
  | string
  | struct
  | date | timestamp
  | unknown
  deriving DecidableEq, Repr

/-- `DecimalTypeData`: two 32-bit integers, the width no more than a BIGINT holds. -/
structure DecimalType where
  width : Int
  scale : Int
  fits : -2147483648 ≤ width ∧ width ≤ 18
  bounded : -2147483648 ≤ scale ∧ scale ≤ 2147483647
  deriving DecidableEq

inductive LogicalType where
  | scalar (type : ScalarType)
  | decimal (data : DecimalType)
  | list (child : LogicalType)
  | array (child : LogicalType) (size : UInt64)
  deriving DecidableEq

def ScalarType.physicalTypeOf : ScalarType → PhysicalType
  | .tinyint => .tinyint
  | .smallint => .smallint
  | .integer | .date => .integer
  | .bigint | .timestamp => .bigint
  | .boolean | .utinyint => .utinyint
  | .usmallint => .usmallint
  | .uinteger => .uinteger
  | .ubigint | .hash | .address => .ubigint
  | .float => .float
  | .double => .double
  | .string => .string
  | .struct => .struct
  | .unknown => .unknown

def DecimalType.physicalType (data : DecimalType) : PhysicalType :=
  if data.width ≤ 4 then .smallint else if data.width ≤ 9 then .integer else .bigint

namespace LogicalType

def getPhysicalType : LogicalType → PhysicalType
  | .scalar type => type.physicalTypeOf
  | .decimal data => data.physicalType
  | .list _ => .list
  | .array _ _ => .array

end LogicalType

namespace PhysicalType

def isConstantSize : PhysicalType → Bool
  | .string | .struct | .list | .array => false
  | _ => true

/-- `SizeOf` of the fixed-width types. -/
def sizeOf : PhysicalType → UInt32
  | .tinyint | .utinyint => 1
  | .smallint | .usmallint => 2
  | .integer | .uinteger | .float => 4
  | .bigint | .ubigint | .double => 8
  | .unknown => 1
  | .string | .struct | .list | .array => 0

end PhysicalType

/-- One column; `length` is `length_`, which a fixed-width type determines. -/
structure Column where
  name : String
  type : LogicalType
  length : UInt32
  sized : type.getPhysicalType.isConstantSize = true → length = type.getPhysicalType.sizeOf
  handled : type.getPhysicalType ≠ .struct
  deriving DecidableEq

namespace Column

def isInlined (column : Column) : Bool := column.type.getPhysicalType.isConstantSize

/-- `StorageSizeOf`: the declared length of a variable-length type is kept. -/
def storageSizeOf (type : LogicalType) (length : UInt32) : UInt32 :=
  if type.getPhysicalType.isConstantSize then type.getPhysicalType.sizeOf else length

/-- The constructor with a length; `none` is the unreachable size of a STRUCT. -/
def ofLength (name : String) (type : LogicalType) (length : UInt32) : Option Column :=
  if handled : type.getPhysicalType ≠ .struct then
    some ⟨name, type, storageSizeOf type length, fun constant => if_pos constant, handled⟩
  else none

/-- The bytes of a column in a row: a handle stands for what is not inlined. -/
def inlineWidth (column : Column) : UInt32 := if column.isInlined then column.length else 4

end Column

/-- A BIGINT column. -/
def bigint (name : String) : Column := ⟨name, .scalar .bigint, 8, fun _ => rfl, by decide⟩

/-- The ordered columns; the width follows from them. -/
structure Schema where
  columns : List Column
  deriving DecidableEq

namespace Schema

def getInlinedStorageSize (schema : Schema) : UInt32 :=
  schema.columns.foldl (fun offset column => offset + column.inlineWidth) 0

/-- The columns with the given indices; the callers' indices are in range. -/
def copySchema (schema : Schema) (attrs : List Nat) : Schema :=
  ⟨attrs.filterMap fun i => schema.columns[i]?⟩

def tryGetColIdx (schema : Schema) (name : String) : Option Nat :=
  schema.columns.findIdx? fun column => column.name = name

theorem tryGetColIdx_some {schema : Schema} {name : String} {column : Column} (member : column ∈ schema.columns)
    (named : column.name = name) :
    ∃ i found, schema.tryGetColIdx name = some i ∧ schema.columns[i]? = some found ∧ found.name = name := by
  have some : (schema.tryGetColIdx name).isSome := by
    unfold tryGetColIdx
    rw [List.findIdx?_isSome, List.any_eq_true]
    exact ⟨column, member, by simp [named]⟩
  obtain ⟨i, found⟩ := Option.isSome_iff_exists.mp some
  obtain ⟨bound, here, -⟩ := List.findIdx?_eq_some_iff_getElem.mp found
  refine ⟨i, schema.columns[i], found, List.getElem?_eq_getElem bound, ?_⟩
  simpa using here

end Schema

end BumbleBee.Metadata
