import BumbleBee.External.ColumnReader
import BumbleBee.External.PartFile
import BumbleBee.Library.ByteCodec
import BumbleBee.Types.Cast
import Mathlib.Data.List.ReduceOption

/-!
The bytes of a column in a part file. `ParquetWriter` maps each column type to a
parquet type and writes one page a column and row group: the definition levels of its
rows, then the values that are not NULL. The readers choose their type from the footer
alone and take the page apart again. Column names are left out: a part file has those
of the table.
-/

namespace BumbleBee.External
open Library.ByteCodec BumbleBee.Types

inductive ColumnType where
  | boolean | tinyint | smallint | integer | bigint
  | decimal (data : DecimalTypeData)
  | varchar | date | timestamp
  deriving DecidableEq

inductive ParquetType where
  | boolean | int32 | int64 | int96 | float | double | byteArray | fixedLenByteArray
  deriving DecidableEq

inductive ConvertedType where
  | utf8 | date | decimal | uint8 | uint16 | uint32 | uint64 | timestampMicros | timestampMillis | other
  deriving DecidableEq

structure SchemaElement where
  type : ParquetType
  convertedType : Option ConvertedType
  scale : Option Nat
  precision : Nat
  typeLength : Option Nat
  deriving DecidableEq

section Schemas

def ColumnType.logical : ColumnType → LogicalType
  | .boolean => .boolean
  | .tinyint => .integral .tinyint
  | .smallint => .integral .smallint
  | .integer => .integral .integer
  | .bigint => .integral .bigint
  | .decimal data => .decimal data
  | .varchar => .string
  | .date => .date
  | .timestamp => .timestamp

def bumbleBeeTypeToParquetType : ColumnType → ParquetType
  | .boolean => .boolean
  | .tinyint | .smallint | .integer => .int32
  | .bigint => .int64
  | .decimal _ => .double
  | .varchar => .byteArray
  | .date | .timestamp => .int96

def bumbleBeeTypeToConvertedType : ColumnType → Option ConvertedType
  | .varchar => some .utf8
  | _ => none

def schemaElement (t : ColumnType) : SchemaElement :=
  ⟨bumbleBeeTypeToParquetType t, bumbleBeeTypeToConvertedType t, none, 0, none⟩

/-- `none` is an exception. -/
def deriveLogicalType (element : SchemaElement) : Option LogicalType :=
  match element.type with
  | .boolean => some .boolean
  | .int32 =>
    match element.convertedType with
    | some .date => some .date
    | some .decimal => LogicalType.ofDecimal 9 (element.scale.getD 0)
    | some .uint8 => some (.integral .utinyint)
    | some .uint16 => some (.integral .usmallint)
    | _ => some (.integral .integer)
  | .int64 =>
    match element.convertedType with
    | some .decimal => LogicalType.ofDecimal 18 (element.scale.getD 0)
    | some .timestampMicros | some .timestampMillis => some .timestamp
    | some .uint32 => some (.integral .uinteger)
    | some .uint64 => some (.integral .ubigint)
    | _ => some (.integral .bigint)
  | .int96 => some .timestamp
  | .float => some (.floating .float)
  | .double => some (.floating .double)
  | .byteArray => if element.convertedType = some .decimal then none else some .string
  | .fixedLenByteArray =>
    if element.typeLength = none then none
    else if element.convertedType = some .decimal then
      match element.scale with
      | none => none
      | some scale => LogicalType.ofDecimal element.precision scale
    else some .string

def sameTypeId : LogicalType → LogicalType → Bool
  | .decimal _, .decimal _ => true
  | one, other => one = other

/-- The test of `ExternalSchemaMatches` on one column. -/
def columnMatches (t : LogicalType) (file : LogicalType) : Bool :=
  sameTypeId t file && (!t.isDecimal || t.physicalType = file.physicalType)

/-- The types whose part files have the type of the table. -/
def ColumnType.readable : ColumnType → Bool
  | .boolean | .integer | .bigint | .varchar | .timestamp => true
  | .tinyint | .smallint | .decimal _ | .date => false

theorem deriveLogicalType_of_readable {t : ColumnType} (readable : t.readable = true) :
    deriveLogicalType (schemaElement t) = some t.logical := by
  cases t with
  | boolean | integer | bigint | varchar | timestamp => rfl
  | tinyint | smallint | decimal data | date => cases readable

theorem columnMatches_written (t : ColumnType) :
    ∃ file, deriveLogicalType (schemaElement t) = some file ∧ columnMatches t.logical file = t.readable := by
  cases t with
  | boolean | tinyint | smallint | integer | bigint | varchar | date | timestamp => exact ⟨_, rfl, rfl⟩
  | decimal data => exact ⟨.floating .double, rfl, rfl⟩

end Schemas

section Timestamps

def microsPerDay : Int := 86400000000

def nanosecondsPerDay : Int := 86400000000000

def julianToUnixEpochDays : Int := 2440588

def secondsPerDay : Int := 86400

/-- The terms for a timestamp before the epoch make the division round down. -/
def getDate (ts : Int) : Int :=
  let before : Int := if ts < 0 then 1 else 0
  IntegerType.integer.wrap (IntegerType.bigint.wrap (ts + before) |>.tdiv microsPerDay |>.sub before)

def getTime (ts : Int) : Int :=
  IntegerType.bigint.wrap (ts - IntegerType.bigint.wrap (getDate ts * microsPerDay))

def fromDatetime (date : Int) : Int := IntegerType.bigint.wrap (date * microsPerDay)

def dateEpoch (date : Int) : Int := date * secondsPerDay

/-- Nanoseconds since midnight in 64 bits and the Julian day in 32. -/
structure Int96 where
  nanoseconds : Nat
  day : Nat

def timestampToImpalaTimestamp (ts : Int) : Int96 where
  nanoseconds := (IntegerType.ubigint.wrap (getTime ts) * 1000 % 2 ^ 64).toNat
  day := ((dateEpoch (getDate ts)).tdiv secondsPerDay + julianToUnixEpochDays) % 2 ^ 32 |>.toNat

def impalaTimestampToNanoseconds (raw : Int96) : Int :=
  IntegerType.bigint.wrap (IntegerType.bigint.wrap ((raw.day - julianToUnixEpochDays) * nanosecondsPerDay) +
    IntegerType.bigint.wrap raw.nanoseconds)

def impalaTimestampToTimestamp (raw : Int96) : Int := (impalaTimestampToNanoseconds raw).tdiv 1000

theorem wrap_bigint (n : Int) :
    IntegerType.bigint.wrap n = (n + 9223372036854775808) % 18446744073709551616 - 9223372036854775808 := by
  show (n - -9223372036854775808) % 18446744073709551616 + -9223372036854775808 = _
  omega

theorem wrap_integer (n : Int) : IntegerType.integer.wrap n = (n + 2147483648) % 4294967296 - 2147483648 := by
  show (n - -2147483648) % 4294967296 + -2147483648 = _
  omega

theorem tdiv_eq (n : Int) {d : Int} (positive : 0 < d) :
    n.tdiv d = if 0 ≤ n ∨ d ∣ n then n / d else n / d + 1 := by
  rw [Int.tdiv_eq_ediv, Int.sign_eq_one_of_pos positive]
  split
  · exact Int.add_zero _
  · rfl

theorem getDate_eq {ts : Int} (low : -9223372036854775808 ≤ ts) (high : ts ≤ 9223372036854775807) :
    getDate ts = ts / 86400000000 := by
  have day : (0 : Int) < 86400000000 := by decide
  unfold getDate
  by_cases negative : ts < 0
  · have held : IntegerType.bigint.wrap (ts + 1) = ts + 1 := by
      rw [wrap_bigint]
      omega
    rw [if_pos negative]
    dsimp only
    rw [held]
    show ((ts + 1).tdiv 86400000000 - 1 + 2147483648) % 4294967296 - 2147483648 = _
    rw [tdiv_eq _ day]
    split <;> omega
  · have held : IntegerType.bigint.wrap (ts + 0) = ts := by
      rw [wrap_bigint]
      omega
    rw [if_neg negative]
    dsimp only
    rw [held]
    show (ts.tdiv 86400000000 - 0 + 2147483648) % 4294967296 - 2147483648 = _
    rw [tdiv_eq _ day]
    omega

theorem timestampToImpalaTimestamp_eq {ts : Int} (low : -9223372036854775 ≤ ts) (high : ts ≤ 9223372036854775) :
    (timestampToImpalaTimestamp ts).nanoseconds = (ts % 86400000000 * 1000).toNat ∧
      (timestampToImpalaTimestamp ts).day = (ts / 86400000000 + 2440588).toNat := by
  have date : getDate ts = ts / 86400000000 := getDate_eq (by omega) (by omega)
  have time : getTime ts = ts % 86400000000 := by
    rw [getTime, date, wrap_bigint]
    show (ts - ((ts / 86400000000 * 86400000000 + 9223372036854775808) % 18446744073709551616 - 9223372036854775808) + _)
      % 18446744073709551616 - 9223372036854775808 = _
    omega
  constructor
  · show (IntegerType.ubigint.wrap (getTime ts) * 1000 % 2 ^ 64).toNat = _
    rw [time]
    show (((ts % 86400000000 - 0) % 18446744073709551616 + 0) * 1000 % 18446744073709551616).toNat = _
    congr 1
    omega
  · show (((getDate ts * 86400).tdiv 86400 + 2440588) % 2 ^ 32).toNat = _
    rw [Int.mul_tdiv_cancel _ (by decide)]
    congr 1
    omega

theorem impalaTimestampToTimestamp_eq {ts : Int} (low : -9223372036854775 ≤ ts) (high : ts ≤ 9223372036854775) :
    impalaTimestampToTimestamp (timestampToImpalaTimestamp ts) = ts := by
  obtain ⟨nanoseconds, day⟩ := timestampToImpalaTimestamp_eq low high
  have sum : impalaTimestampToNanoseconds (timestampToImpalaTimestamp ts) = ts * 1000 := by
    rw [impalaTimestampToNanoseconds, nanoseconds, day, Int.toNat_of_nonneg (by omega),
      wrap_bigint, wrap_bigint, wrap_bigint]
    show (((ts / 86400000000 + 2440588 - 2440588) * 86400000000000 + _) % _ - _ + _ + _) % _ - _ = _
    omega
  rw [impalaTimestampToTimestamp, sum, Int.mul_tdiv_cancel _ (by decide)]

theorem impalaTimestampToTimestamp_bounds (raw : Int96) :
    -9223372036854775 ≤ impalaTimestampToTimestamp raw ∧ impalaTimestampToTimestamp raw ≤ 9223372036854775 := by
  rw [impalaTimestampToTimestamp, impalaTimestampToNanoseconds, wrap_bigint, tdiv_eq _ (by decide)]
  split <;> omega

end Timestamps

section Strings

inductive Analysis where
  | valid
  | nullByte (pos : Nat)
  | byteMismatch
  deriving DecidableEq

/-- `Utf8Proc::Analyze`, byte by byte. -/
def analyze : Nat → Bytes → Analysis
  | _, [] => .valid
  | pos, c :: rest =>
    if c = 0 then .nullByte pos
    else if c &&& 0x80 = 0 then analyze (pos + 1) rest
    else
      match rest with
      | [] => .byteMismatch
      | c1 :: rest =>
        if c1 &&& 0xC0 ≠ 0x80 then .byteMismatch
        else if c &&& 0xE0 = 0xC0 then analyze (pos + 2) rest
        else
          match rest with
          | [] => .byteMismatch
          | c2 :: rest =>
            if c2 &&& 0xC0 ≠ 0x80 then .byteMismatch
            else if c &&& 0xF0 = 0xE0 then analyze (pos + 3) rest
            else
              match rest with
              | [] => .byteMismatch
              | c3 :: rest =>
                if c3 &&& 0xC0 ≠ 0x80 then .byteMismatch
                else if c &&& 0xF8 = 0xF0 then analyze (pos + 4) rest
                else .byteMismatch

/-- A string is cut at a NUL byte; one that is not UTF-8 is an exception. -/
def verifyString (s : Bytes) : Option Bytes :=
  if s.length = 0 then some s
  else
    match analyze 0 s with
    | .valid => some s
    | .nullByte pos => some (s.take pos)
    | .byteMismatch => none

theorem analyze_nullByte {pos at' : Nat} {s : Bytes} (cut : analyze pos s = .nullByte at') : at' < pos + s.length := by
  fun_induction analyze pos s <;> simp_all <;> omega

theorem verifyString_eq_self (s : Bytes) : verifyString s = some s ↔ analyze 0 s = .valid := by
  unfold verifyString
  by_cases empty : s.length = 0
  · rw [List.length_eq_zero_iff.mp empty]
    exact ⟨fun _ => rfl, fun _ => rfl⟩
  · rw [if_neg empty]
    cases analysis : analyze 0 s with
    | valid => exact ⟨fun _ => rfl, fun _ => rfl⟩
    | byteMismatch =>
      constructor <;> intro impossible <;> cases impossible
    | nullByte pos =>
      constructor
      · intro same
        have shorter := congrArg List.length (Option.some.inj same)
        have cut := analyze_nullByte analysis
        rw [List.length_take] at shorter
        omega
      · intro impossible
        cases impossible

end Strings

/-- The compressor, the cast of decimals and the bit patterns of doubles. -/
structure ParquetContext where
  cast : CastContext
  doubleBits : Number → Nat
  doubleOf : Nat → Number
  compress : Bytes → Bytes
  decompress : Bytes → Option Bytes
  lossless : ∀ page, decompress (compress page) = some page

def intOf : Datum → Int
  | .integral n => n
  | _ => 0

def lowBit (v : Datum) : Bool := intOf v % 2 = 1

def bitDatum (b : Bool) : Datum := .integral b.toNat

section Writing

variable {α : Type}

def vectorsLoop : Nat → List α → List (List α)
  | 0, _ => []
  | fuel + 1, cells =>
    if cells.length = 0 then []
    else cells.take standardVectorSize :: vectorsLoop fuel (cells.drop standardVectorSize)

/-- The chunks of a `ChunkCollection`, which fills its last chunk before it starts another. -/
def vectors (cells : List α) : List (List α) := vectorsLoop cells.length cells

def getVarintSize : Nat → Nat → Nat
  | 0, _ => 0
  | rounds + 1, n => if n / 128 = 0 then 1 else getVarintSize rounds (n / 128) + 1

/-- The levels of one chunk: a bit for each row, in whole bytes. -/
def chunkLevels (chunk : List (Option Datum)) : Bytes :=
  if chunk.all Option.isSome then List.replicate ((chunk.length + 7) / 8) 0xFF
  else packBits 0 0 (chunk.map Option.isSome)

def writeDefinitionLevels (chunks : List (List (Option Datum))) : Bytes :=
  let defineByteCount := (chunks.flatten.length + 7) / 8
  let defineHeader := (defineByteCount * 2 + 1) % 2 ^ 32
  littleEndian 4 (getVarintSize 5 defineHeader + defineByteCount) ++ varint 5 defineHeader ++
    chunks.flatMap chunkLevels

def int96Bytes (raw : Int96) : Bytes := littleEndian 8 raw.nanoseconds ++ littleEndian 4 raw.day

/-- One value of a column that is not BOOLEAN. The length of a string has 32 bits. -/
def plainValue (ctx : ParquetContext) (t : ColumnType) (v : Datum) : Bytes :=
  match t with
  | .boolean => []
  | .tinyint | .smallint | .integer => littleEndian 4 (intOf v % 2 ^ 32).toNat
  | .bigint => littleEndian 8 (intOf v % 2 ^ 64).toNat
  | .decimal data =>
    littleEndian 8 (ctx.doubleBits (ctx.cast.decimalToFloat .double data.scale v).number)
  | .varchar =>
    littleEndian 4 (v.bytes.length % 2 ^ 32) ++ v.bytes.take (v.bytes.length % 2 ^ 32)
  | .date => int96Bytes (timestampToImpalaTimestamp (fromDatetime (intOf v)))
  | .timestamp => int96Bytes (timestampToImpalaTimestamp (intOf v))

/-- The bits of a BOOLEAN start a new byte in each chunk. -/
def writePlainColumnPayload (ctx : ParquetContext) (t : ColumnType) (chunks : List (List (Option Datum))) : Bytes :=
  chunks.flatMap fun chunk =>
    match t with
    | .boolean => packBits 0 0 (chunk.reduceOption.map lowBit)
    | t => chunk.reduceOption.flatMap (plainValue ctx t)

/-- A page with the sizes of its header, 32-bit fields. -/
structure StoredPage where
  uncompressedPageSize : Int
  compressedPageSize : Int
  data : Bytes

def pageBytes (ctx : ParquetContext) (t : ColumnType) (cells : List (Option Datum)) : Bytes :=
  writeDefinitionLevels (vectors cells) ++ writePlainColumnPayload ctx t (vectors cells)

def writePage (ctx : ParquetContext) (t : ColumnType) (cells : List (Option Datum)) : StoredPage where
  uncompressedPageSize := IntegerType.integer.wrap (pageBytes ctx t cells).length
  compressedPageSize := IntegerType.integer.wrap (ctx.compress (pageBytes ctx t cells)).length
  data := ctx.compress (pageBytes ctx t cells)

end Writing

section Reading

section
variable (ctx : ParquetContext)

/-- A size the header does not hold comes back negative or too small, and the page cannot be read. -/
def preparePage (page : StoredPage) : Option Bytes :=
  if page.compressedPageSize = page.data.length then
    match ctx.decompress page.data with
    | none => none
    | some block => if page.uncompressedPageSize = block.length then some block else none
  else none

/-- `RleBpDecoder::GetBatch` for levels of one bit. -/
def decodeLevels : Nat → Nat → Bytes → Option (List Bool)
  | _, 0, _ => some []
  | 0, _ + 1, _ => none
  | fuel + 1, n + 1, bytes =>
    match readVarint 0 bytes with
    | none => none
    | some (indicator, rest) =>
      if indicator % 2 = 1 then
        let literalCount := indicator / 2 * 8 % 2 ^ 32
        let batch := min (n + 1) literalCount
        if (batch + 7) / 8 ≤ rest.length then
          (decodeLevels fuel (n + 1 - batch) (rest.drop (literalCount / 8))).map ((unpackBits rest).take batch ++ ·)
        else none
      else
        match rest with
        | [] => none
        | value :: rest =>
          let batch := min (n + 1) (indicator / 2)
          if 0 < indicator / 2 ∧ 1 < value.toNat then none
          else (decodeLevels fuel (n + 1 - batch) rest).map (List.replicate batch (value.toNat == 1) ++ ·)

/-- `PlainRead` of the readers a part file can ask for, BOOLEAN apart. -/
def plainRead (t : LogicalType) (bytes : Bytes) : Option (Datum × Bytes) :=
  match t with
  | .integral .integer => (readWord 4 bytes).map fun r => (.integral (IntegerType.integer.wrap r.1), r.2)
  | .integral .bigint => (readWord 8 bytes).map fun r => (.integral (IntegerType.bigint.wrap r.1), r.2)
  | .floating .double => (readWord 8 bytes).map fun r => (.floating (ctx.doubleOf r.1), r.2)
  | .timestamp =>
    match readWord 8 bytes with
    | none => none
    | some (nanoseconds, rest) =>
      (readWord 4 rest).map fun r => (.integral (impalaTimestampToTimestamp ⟨nanoseconds, r.1⟩), r.2)
  | .string =>
    match readWord 4 bytes with
    | none => none
    | some (length, rest) =>
      if length ≤ rest.length then (verifyString (rest.take length)).map fun s => (.string s, rest.drop length)
      else none
  | _ => none

def plainReads (t : LogicalType) (count : Nat) (bytes : Bytes) : Option (List Datum) :=
  match t with
  | .boolean => (readBits count 0 bytes).map (List.map bitDatum)
  | t => readMany (plainRead ctx t) count bytes

def prepareDataPage (t : LogicalType) (numValues : Nat) (block : Bytes) : Option (DataPage Datum) :=
  match readWord 4 block with
  | none => none
  | some (defLength, rest) =>
    if defLength ≤ rest.length then
      match decodeLevels (defLength + 1) numValues (rest.take defLength) with
      | none => none
      | some levels =>
        (plainReads ctx t (levels.count true) (rest.drop defLength)).map fun values => ⟨levels, .plain values⟩
    else none

def readPage (t : LogicalType) (numValues : Nat) (page : StoredPage) : Option (DataPage Datum) :=
  (preparePage ctx page).bind (prepareDataPage ctx t numValues)

end

end Reading

end BumbleBee.External
