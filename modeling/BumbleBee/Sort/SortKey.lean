import BumbleBee.Library.ByteOrder

/-!
`CreateSortKey`: the ORDER BY columns of a row as one byte string, each column's
encoding behind the one before it, complemented for DESC. The order code of an integer
column is the number its encoding writes down, moved into 64 bits.
-/

namespace BumbleBee.Sort
open Library.ByteCodec Library.ByteOrder

inductive PhysicalType where
  | tinyint | smallint | integer | bigint
  | utinyint | usmallint | uinteger | ubigint
  | float | double | string
  deriving DecidableEq

/-- Numbers by their bits. -/
def PhysicalType.Value : PhysicalType → Type
  | .tinyint | .utinyint => BitVec 8
  | .smallint | .usmallint => BitVec 16
  | .integer | .uinteger | .float => BitVec 32
  | .bigint | .ubigint | .double => BitVec 64
  | .string => Bytes

structure KeyColumn where
  type : PhysicalType
  descending : Bool

/-- A row of the evaluated ORDER BY columns; `none` is NULL. -/
def KeyRow : List KeyColumn → Type
  | [] => Unit
  | column :: columns => Option column.type.Value × KeyRow columns

section Encoding

def flipSign : Bytes → Bytes
  | [] => []
  | b :: bytes => (b ^^^ 128) :: bytes

def encodeSigned (width bits : Nat) : Bytes := flipSign (bigEndian width bits)

def encodeFloat (x : BitVec 32) : BitVec 32 :=
  if x &&& 0x7fffffff = 0 then 0x80000000
  else if x = 0x7f800000 then 0xfffffffe
  else if x = 0xff800000 then 0
  else if x &&& 0x80000000 = 0 then x ||| 0x80000000
  else ~~~x

def encodeDouble (x : BitVec 64) : BitVec 64 :=
  if x &&& 0x7fffffffffffffff = 0 then 0x8000000000000000
  else if x = 0x7ff0000000000000 then 0xfffffffffffffffe
  else if x = 0xfff0000000000000 then 0
  else if x < 0x8000000000000000 then x + 0x8000000000000000
  else ~~~x

/-- A marker, the bytes moved up by one, and the delimiter. -/
def encodeString (text : Bytes) : Bytes := 0x01 :: text.map (· + 1) ++ [0x00]

def encode : (type : PhysicalType) → type.Value → Bytes
  | .tinyint, v => encodeSigned 1 (BitVec.toNat v)
  | .smallint, v => encodeSigned 2 (BitVec.toNat v)
  | .integer, v => encodeSigned 4 (BitVec.toNat v)
  | .bigint, v => encodeSigned 8 (BitVec.toNat v)
  | .utinyint, v => bigEndian 1 (BitVec.toNat v)
  | .usmallint, v => bigEndian 2 (BitVec.toNat v)
  | .uinteger, v => bigEndian 4 (BitVec.toNat v)
  | .ubigint, v => bigEndian 8 (BitVec.toNat v)
  | .float, v => bigEndian 4 (encodeFloat v).toNat
  | .double, v => bigEndian 8 (encodeDouble v).toNat
  | .string, v => encodeString v

def encodeNull : PhysicalType → Bytes
  | .tinyint | .utinyint => List.replicate 1 0xFF
  | .smallint | .usmallint => List.replicate 2 0xFF
  | .integer | .uinteger | .float => List.replicate 4 0xFF
  | .bigint | .ubigint | .double => List.replicate 8 0xFF
  | .string => [0x02]

def encodeOneRow (column : KeyColumn) (value : Option column.type.Value) : Bytes :=
  let bytes := match value with
    | none => encodeNull column.type
    | some v => encode column.type v
  if column.descending then complement bytes else bytes

def createSortKey : (columns : List KeyColumn) → KeyRow columns → Bytes
  | [], _ => []
  | column :: columns, row => encodeOneRow column row.1 ++ createSortKey columns row.2

end Encoding

section OrderCode

def sign : BitVec 64 := 0x8000000000000000

/-- `OrderCodeAt`; only integer columns have a code. -/
def orderCode : (type : PhysicalType) → type.Value → Option (BitVec 64)
  | .tinyint, v => some (BitVec.signExtend (w := 8) 64 v ^^^ sign)
  | .smallint, v => some (BitVec.signExtend (w := 16) 64 v ^^^ sign)
  | .integer, v => some (BitVec.signExtend (w := 32) 64 v ^^^ sign)
  | .bigint, v => some (BitVec.signExtend (w := 64) 64 v ^^^ sign)
  | .utinyint, v => some (BitVec.setWidth (w := 8) 64 v)
  | .usmallint, v => some (BitVec.setWidth (w := 16) 64 v)
  | .uinteger, v => some (BitVec.setWidth (w := 32) 64 v)
  | .ubigint, v => some (BitVec.setWidth (w := 64) 64 v)
  | .float, _ | .double, _ | .string, _ => none

def orderCodeAt (column : KeyColumn) (v : column.type.Value) : Option (BitVec 64) :=
  (orderCode column.type v).map fun code => if column.descending then ~~~code else code

/-- The code of a row's first column: none for a NULL, nor where the prefilter is off. -/
def firstCode : (columns : List KeyColumn) → KeyRow columns → Option (BitVec 64)
  | [], _ => none
  | column :: _, row => row.1.bind (orderCodeAt column)

theorem xor_top {k n : Nat} (small : n < 2 * 2 ^ k) :
    n ^^^ 2 ^ k = if n < 2 ^ k then n + 2 ^ k else n - 2 ^ k := by
  induction k generalizing n with
  | zero =>
    have cases' : n = 0 ∨ n = 1 := by omega
    rcases cases' with rfl | rfl <;> rfl
  | succ k ih =>
    have high : (n ^^^ 2 ^ (k + 1)) / 2 = n / 2 ^^^ 2 ^ k := by
      rw [Nat.xor_div_two, Nat.pow_succ, Nat.mul_div_cancel _ (by decide)]
    have low : (n ^^^ 2 ^ (k + 1)) % 2 = n % 2 := by
      rw [Nat.xor_mod_two_eq]
      omega
    rw [Nat.pow_succ'] at small high low ⊢
    rw [ih (by omega)] at high
    by_cases half : n < 2 * 2 ^ k
    · rw [if_pos half]
      rw [if_pos (by omega)] at high
      omega
    · rw [if_neg half]
      rw [if_neg (by omega)] at high
      omega

theorem flipSign_append {a : Bytes} (present : a ≠ []) (b : Bytes) : flipSign (a ++ b) = flipSign a ++ b := by
  cases a with
  | nil => exact absurd rfl present
  | cons x a => rfl

/-- The number a signed value of some bytes is written down as. -/
def shifted (width bits : Nat) : Nat := (bits + 128 * 256 ^ (width - 1)) % 256 ^ width

theorem encodeSigned_eq {width bits : Nat} (small : bits < 256 ^ (width + 1)) :
    encodeSigned (width + 1) bits = bigEndian (width + 1) (shifted (width + 1) bits) := by
  induction width generalizing bits with
  | zero =>
    have byte : UInt8.ofNat bits ^^^ 128 = UInt8.ofNat ((bits + 128) % 256) := by
      apply UInt8.toNat_inj.mp
      have top := xor_top (k := 7) (n := bits) (by omega)
      show (bits % 256) ^^^ 128 = (bits + 128) % 256 % 256
      rw [Nat.mod_eq_of_lt (by omega)]
      refine top.trans ?_
      split <;> omega
    exact congrArg (fun b => [b]) byte
  | succ width ih =>
    have high : shifted (width + 2) bits / 256 = shifted (width + 1) (bits / 256) := by
      show (bits + 128 * 256 ^ (width + 1)) % 256 ^ (width + 2) / 256 = (bits / 256 + 128 * 256 ^ width) % 256 ^ (width + 1)
      rw [Nat.pow_succ' (m := 256) (n := width + 1), Nat.mod_mul_right_div_self]
      congr 1
      omega
    have low : UInt8.ofNat (shifted (width + 2) bits) = UInt8.ofNat bits := by
      apply UInt8.toNat_inj.mp
      show (bits + 128 * 256 ^ (width + 1)) % 256 ^ (width + 2) % 256 = bits % 256
      rw [Nat.pow_succ' (n := width + 1), Nat.mod_mul_right_mod]
      omega
    have present : bigEndian (width + 1) (bits / 256) ≠ [] := by
      apply List.ne_nil_of_length_pos
      rw [length_bigEndian]
      exact Nat.succ_pos width
    have front : encodeSigned (width + 2) bits = encodeSigned (width + 1) (bits / 256) ++ [UInt8.ofNat bits] := by
      rw [encodeSigned, bigEndian_succ, flipSign_append present, encodeSigned]
    rw [front, ih (by omega), bigEndian_succ (width + 1), high, low]

theorem toNat_signCode {k : Nat} (wide : k < 64) (v : BitVec (k + 1)) :
    (v.signExtend 64 ^^^ sign).toNat + 2 ^ k = (v.toNat + 2 ^ k) % (2 * 2 ^ k) + 2 ^ 63 := by
  have room : 2 ^ (k + 1) ≤ 2 ^ 64 := Nat.pow_le_pow_right (by decide) wide
  have word : (v.signExtend 64).toNat = v.toNat + if 2 ^ k ≤ v.toNat then 2 ^ 64 - 2 ^ (k + 1) else 0 := by
    rw [BitVec.toNat_signExtend, BitVec.toNat_setWidth, Nat.mod_eq_of_lt (Nat.lt_of_lt_of_le v.isLt room),
      BitVec.msb_eq_decide]
    simp
  have flipped : (v.signExtend 64 ^^^ sign).toNat = if (v.signExtend 64).toNat < 2 ^ 63
      then (v.signExtend 64).toNat + 2 ^ 63 else (v.signExtend 64).toNat - 2 ^ 63 := by
    exact xor_top (k := 63) (v.signExtend 64).isLt
  rw [flipped]
  by_cases negative : 2 ^ k ≤ v.toNat
  · have wrapped : (v.toNat + 2 ^ k) % (2 * 2 ^ k) = v.toNat - 2 ^ k := by
      rw [show v.toNat + 2 ^ k = v.toNat - 2 ^ k + 2 * 2 ^ k by omega, Nat.add_mod_right, Nat.mod_eq_of_lt (by omega)]
    rw [if_pos negative] at word
    rw [if_neg (by omega)]
    omega
  · have plain : (v.toNat + 2 ^ k) % (2 * 2 ^ k) = v.toNat + 2 ^ k := Nat.mod_eq_of_lt (by omega)
    rw [if_neg negative] at word
    rw [if_pos (by omega)]
    omega

theorem diverges_signed {width k : Nat} (half : 2 ^ k = 128 * 256 ^ width) (wide : k < 64) {v w : BitVec (k + 1)}
    (less : v.signExtend 64 ^^^ sign < w.signExtend 64 ^^^ sign) :
    Diverges (encodeSigned (width + 1) v.toNat) (encodeSigned (width + 1) w.toNat) := by
  have whole : 2 * 2 ^ k = 256 ^ (width + 1) := by
    omega
  have small : ∀ u : BitVec (k + 1), u.toNat < 256 ^ (width + 1) := by
    intro u
    rw [← whole, ← Nat.pow_succ']
    exact u.isLt
  have written : ∀ u : BitVec (k + 1), shifted (width + 1) u.toNat = (u.toNat + 2 ^ k) % (2 * 2 ^ k) := by
    intro u
    rw [shifted, Nat.add_sub_cancel, ← half, whole]
  rw [encodeSigned_eq (small v), encodeSigned_eq (small w)]
  apply diverges_bigEndian
  · have codes : (v.signExtend 64 ^^^ sign).toNat < (w.signExtend 64 ^^^ sign).toNat := less
    have first := toNat_signCode wide v
    have second := toNat_signCode wide w
    rw [written, written]
    omega
  · exact Nat.mod_lt _ (Nat.pow_pos (by decide))

theorem diverges_unsigned {width k : Nat} (whole : 2 ^ k = 256 ^ width) (wide : k ≤ 64) {v w : BitVec k}
    (less : v.setWidth 64 < w.setWidth 64) : Diverges (bigEndian width v.toNat) (bigEndian width w.toNat) := by
  have codes : (v.setWidth 64).toNat < (w.setWidth 64).toNat := less
  rw [BitVec.toNat_setWidth_of_le wide, BitVec.toNat_setWidth_of_le wide] at codes
  exact diverges_bigEndian codes (whole ▸ w.isLt)

/-- A greater order code is a greater number in the encoding. -/
theorem diverges_encode {type : PhysicalType} {v w : type.Value} {c d : BitVec 64} (first : orderCode type v = some c)
    (second : orderCode type w = some d) (less : c < d) : Diverges (encode type v) (encode type w) := by
  cases type with
  | tinyint =>
    cases first
    cases second
    exact diverges_signed (k := 7) rfl (by decide) less
  | smallint =>
    cases first
    cases second
    exact diverges_signed (k := 15) rfl (by decide) less
  | integer =>
    cases first
    cases second
    exact diverges_signed (k := 31) rfl (by decide) less
  | bigint =>
    cases first
    cases second
    exact diverges_signed (k := 63) rfl (by decide) less
  | utinyint =>
    cases first
    cases second
    exact diverges_unsigned (k := 8) rfl (by decide) less
  | usmallint =>
    cases first
    cases second
    exact diverges_unsigned (k := 16) rfl (by decide) less
  | uinteger =>
    cases first
    cases second
    exact diverges_unsigned (k := 32) rfl (by decide) less
  | ubigint =>
    cases first
    cases second
    exact diverges_unsigned (k := 64) rfl (by decide) less
  | float => cases first
  | double => cases first
  | string => cases first

theorem encodeOneRow_some (column : KeyColumn) (v : column.type.Value) :
    encodeOneRow column (some v) =
      if column.descending then complement (encode column.type v) else encode column.type v := rfl

theorem createSortKey_lt {columns : List KeyColumn} {q r : KeyRow columns} {c d : BitVec 64}
    (first : firstCode columns q = some c) (second : firstCode columns r = some d) (less : c < d) :
    before (createSortKey columns q) (createSortKey columns r) = true := by
  cases columns with
  | nil => cases first
  | cons column columns =>
    obtain ⟨v, here, code⟩ := Option.bind_eq_some_iff.mp first
    obtain ⟨w, there, code'⟩ := Option.bind_eq_some_iff.mp second
    obtain ⟨c', coded, rfl⟩ := Option.map_eq_some_iff.mp code
    obtain ⟨d', coded', rfl⟩ := Option.map_eq_some_iff.mp code'
    apply Diverges.before
    rw [createSortKey, createSortKey, here, there, encodeOneRow_some, encodeOneRow_some]
    apply Diverges.append
    by_cases descending : column.descending = true
    · rw [if_pos descending, if_pos descending] at less
      rw [if_pos descending, if_pos descending]
      apply Diverges.complement
      apply diverges_encode coded' coded
      have flipped : (~~~c').toNat < (~~~d').toNat := less
      rw [BitVec.toNat_not, BitVec.toNat_not] at flipped
      show d'.toNat < c'.toNat
      omega
    · rw [if_neg descending, if_neg descending] at less
      rw [if_neg descending, if_neg descending]
      exact diverges_encode coded coded' less

end OrderCode

end BumbleBee.Sort
