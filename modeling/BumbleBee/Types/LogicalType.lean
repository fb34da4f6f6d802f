import Mathlib.Algebra.Order.Ring.Int
import Mathlib.Algebra.Order.Ring.Nat

/-!
The types of columns and expressions. A logical type is stored as a physical one:
BOOLEAN as an 8-bit integer, DATE and TIMESTAMP as 32 and 64-bit ones, a DECIMAL as
the integer of its digits in 16, 32 or 64 bits, by its width. Nested types are left
out.
-/

namespace BumbleBee.Types

inductive IntegerType where
  | tinyint | smallint | integer | bigint | utinyint | usmallint | uinteger | ubigint
  deriving DecidableEq

namespace IntegerType

def minimum : IntegerType → Int
  | .tinyint => -128
  | .smallint => -32768
  | .integer => -2147483648
  | .bigint => -9223372036854775808
  | .utinyint | .usmallint | .uinteger | .ubigint => 0

def maximum : IntegerType → Int
  | .tinyint => 127
  | .smallint => 32767
  | .integer => 2147483647
  | .bigint => 9223372036854775807
  | .utinyint => 255
  | .usmallint => 65535
  | .uinteger => 4294967295
  | .ubigint => 18446744073709551615

def Holds (t : IntegerType) (n : Int) : Prop := t.minimum ≤ n ∧ n ≤ t.maximum

instance (t : IntegerType) (n : Int) : Decidable (t.Holds n) := inferInstanceAs (Decidable (_ ∧ _))

/-- `static_cast` between integers. -/
def wrap (t : IntegerType) (n : Int) : Int := (n - t.minimum) % (t.maximum - t.minimum + 1) + t.minimum

theorem minimum_le_maximum (t : IntegerType) : t.minimum ≤ t.maximum := by
  cases t <;> decide

theorem wrap_holds (t : IntegerType) (n : Int) : t.Holds (t.wrap n) := by
  have ordered := t.minimum_le_maximum
  have low := Int.emod_nonneg (n - t.minimum) (b := t.maximum - t.minimum + 1) (by omega)
  have high := Int.emod_lt_of_pos (n - t.minimum) (b := t.maximum - t.minimum + 1) (by omega)
  constructor <;> unfold wrap <;> omega

theorem wrap_of_holds {t : IntegerType} {n : Int} (held : t.Holds n) : t.wrap n = n := by
  unfold wrap
  rw [Int.emod_eq_of_lt (by have := held.1; omega) (by have := held.2; omega)]
  omega

end IntegerType

inductive FloatType where
  | float | double
  deriving DecidableEq

inductive PhysicalType where
  | integral (t : IntegerType)
  | floating (t : FloatType)
  | string
  | unknown
  deriving DecidableEq

/-- At most `MAX_DECIMAL_WIDTH_INT64` digits, `scale` of them after the point. -/
structure DecimalTypeData where
  width : Nat
  scale : Nat
  admitted : width ≤ 18
  deriving DecidableEq

inductive LogicalType where
  | boolean
  | integral (t : IntegerType)
  | hash
  | address
  | floating (t : FloatType)
  | decimal (data : DecimalTypeData)
  | string
  | date
  | timestamp
  | unknown
  deriving DecidableEq

def DecimalTypeData.backing (data : DecimalTypeData) : IntegerType :=
  if data.width ≤ 4 then .smallint else if data.width ≤ 9 then .integer else .bigint

namespace LogicalType

def physicalType : LogicalType → PhysicalType
  | .boolean => .integral .utinyint
  | .integral t => .integral t
  | .hash | .address => .integral .ubigint
  | .floating t => .floating t
  | .decimal data => .integral data.backing
  | .string => .string
  | .date => .integral .integer
  | .timestamp => .integral .bigint
  | .unknown => .unknown

/-- `Decimal(width, scale)`, which throws for a width above 18. -/
def ofDecimal (width scale : Nat) : Option LogicalType :=
  if admitted : width ≤ 18 then some (.decimal ⟨width, scale, admitted⟩) else none

def isDecimal : LogicalType → Bool
  | .decimal _ => true
  | _ => false

end LogicalType

end BumbleBee.Types
