import BumbleBee.Library.Binary
import BumbleBee.Types.LogicalType

/-!
The conversions of `cast_operators.h` that the Parquet files go through: `static_cast`
between numbers, and DECIMAL to `float` or `double`, which divides in `long double`. What
the language leaves open is in `CastContext`.
-/

namespace BumbleBee.Types
open Library.Binary

/-- The value of a `float`, a `double` or a `long double`. -/
inductive Number where
  | finite (q : ℚ)
  | infinite (negative : Bool)
  | nan
  deriving DecidableEq

inductive Datum where
  | integral (n : Int)
  | floating (x : Number)
  | string (bytes : List UInt8)
  deriving DecidableEq

inductive NumericType where
  | integral (t : IntegerType)
  | floating (t : FloatType)
  deriving DecidableEq

namespace Number

def divBy : Number → ℚ → Number
  | .finite q, c =>
    if c = 0 then (if q = 0 then .nan else .infinite (decide (q < 0))) else .finite (q / c)
  | .infinite negative, c => .infinite (negative != decide (c < 0))
  | .nan, _ => .nan

def less : Number → Number → Bool
  | .finite p, .finite q => decide (p < q)
  | .finite _, .infinite negative => !negative
  | .infinite negative, .finite _ => negative
  | .infinite negative, .infinite negative' => negative && !negative'
  | _, _ => false

/-- No NaN is equal to itself. -/
def same (x y : Number) : Bool := x == y && x != .nan

end Number

def FloatType.format : FloatType → Format
  | .float => ⟨24, -149, by decide⟩
  | .double => ⟨53, -1074, by decide⟩

def FloatType.maximum : FloatType → ℚ
  | .float => (2 ^ 24 - 1) * 2 ^ 104
  | .double => (2 ^ 53 - 1) * 2 ^ 971

/-- `long double` of x86-64. -/
def longDouble : Format := ⟨64, -16445, by decide⟩

def FloatType.convert (t : FloatType) : Number → Number
  | .finite q =>
    if t.maximum < |t.format.round q| then .infinite (decide (q < 0)) else .finite (t.format.round q)
  | x => x

def toLongDouble : Number → Number
  | .finite q => .finite (longDouble.round q)
  | x => x

def truncate (q : ℚ) : Int := if 0 ≤ q then ⌊q⌋ else -⌊-q⌋

def Datum.number : Datum → Number
  | .integral n => .finite n
  | .floating x => x
  | .string _ => .nan

def Datum.bytes : Datum → List UInt8
  | .string bytes => bytes
  | _ => []

/-- The results that the language or the table of powers leaves open. -/
structure CastContext where
  truncateOutside : IntegerType → Number → Int
  beyondTable : Nat → Int
  truncate_holds : ∀ (t : IntegerType) x, t.Holds (truncateOutside t x)
  table_holds : ∀ k, IntegerType.bigint.Holds (beyondTable k)

namespace CastContext

variable (ctx : CastContext)

/-- `POWERS_OF_TEN`, an array of 20 with 19 initializers. -/
def powersOfTen (k : Nat) : Int := if k < 19 then 10 ^ k else if k = 19 then 0 else ctx.beyondTable k

def floatToInteger (t : IntegerType) : Number → Int
  | .finite q => if t.Holds (truncate q) then truncate q else ctx.truncateOutside t (.finite q)
  | x => ctx.truncateOutside t x

def staticCast : NumericType → Datum → Datum
  | .integral t, .integral n => .integral (t.wrap n)
  | .integral t, .floating x => .integral (ctx.floatToInteger t x)
  | .floating t, .integral n => .floating (t.convert (.finite n))
  | .floating t, .floating x => .floating (t.convert x)
  | _, .string bytes => .string bytes

/-- `DecimalToFloatCastOp`. -/
def decimalToFloat (dst : FloatType) (scale : Nat) (value : Datum) : Datum :=
  if scale = 0 then ctx.staticCast (.floating dst) value
  else .floating (dst.convert (toLongDouble
    ((toLongDouble value.number).divBy (longDouble.round (ctx.powersOfTen scale)))))

end CastContext

end BumbleBee.Types
