import BumbleBee.External.PageFormat

/-!
What the readers make of a page that was written. The levels of the rows come back,
since every chunk but the last has a multiple of eight rows. A value comes back by
itself, but for BOOLEAN: its bits start a new byte in each chunk, while the reader
takes them for one run.
-/

namespace BumbleBee.External
open Library.ByteCodec BumbleBee.Types

section Levels

theorem vectorsLoop_nil {α : Type} (fuel : Nat) : vectorsLoop fuel ([] : List α) = [] := by
  cases fuel <;> rfl

theorem vectorsLoop_flatten {α : Type} (fuel : Nat) (cells : List α) (enough : cells.length ≤ fuel) :
    (vectorsLoop fuel cells).flatten = cells := by
  induction fuel generalizing cells with
  | zero => exact (List.length_eq_zero_iff.mp (Nat.le_zero.mp enough)).symm
  | succ fuel ih =>
    rw [vectorsLoop]
    by_cases empty : cells.length = 0
    · rw [List.length_eq_zero_iff.mp empty]
      rfl
    · have size : 0 < standardVectorSize := by decide
      rw [if_neg empty, List.flatten_cons, ih _ (by rw [List.length_drop]; omega), List.take_append_drop]

theorem vectors_flatten {α : Type} (cells : List α) : (vectors cells).flatten = cells :=
  vectorsLoop_flatten cells.length cells (Nat.le_refl _)

theorem chunkLevels_spec (chunk : List (Option Datum)) :
    (chunkLevels chunk).length = (chunk.length + 7) / 8 ∧
      (unpackBits (chunkLevels chunk)).take chunk.length = chunk.map Option.isSome := by
  unfold chunkLevels
  by_cases valid : chunk.all Option.isSome = true
  · rw [if_pos valid, List.length_replicate, unpackBits_ones]
    refine ⟨rfl, ?_⟩
    rw [List.take_replicate, Nat.min_eq_left (by omega), eq_comm, List.eq_replicate_iff, List.length_map]
    refine ⟨rfl, ?_⟩
    intro flag member
    obtain ⟨cell, inside, rfl⟩ := List.mem_map.mp member
    exact List.all_eq_true.mp valid cell inside
  · rw [if_neg valid, length_packBits, List.length_map, unpackBits_packed]
    refine ⟨rfl, ?_⟩
    exact List.take_left' (List.length_map _)

/-- A full chunk ends at a byte, so the levels of the chunks follow one another. -/
theorem levels_spec (fuel : Nat) (cells : List (Option Datum)) (enough : cells.length ≤ fuel) :
    ((vectorsLoop fuel cells).flatMap chunkLevels).length = (cells.length + 7) / 8 ∧
      (unpackBits ((vectorsLoop fuel cells).flatMap chunkLevels)).take cells.length = cells.map Option.isSome := by
  induction fuel generalizing cells with
  | zero =>
    rw [List.length_eq_zero_iff.mp (Nat.le_zero.mp enough)]
    exact ⟨rfl, rfl⟩
  | succ fuel ih =>
    rw [vectorsLoop]
    by_cases empty : cells.length = 0
    · rw [List.length_eq_zero_iff.mp empty]
      exact ⟨rfl, rfl⟩
    · obtain ⟨firstLength, firstBits⟩ := chunkLevels_spec (cells.take standardVectorSize)
      obtain ⟨restLength, restBits⟩ := ih (cells.drop standardVectorSize) (by
        rw [List.length_drop]
        have size : 0 < standardVectorSize := by decide
        omega)
      rw [if_neg empty, List.flatMap_cons, List.length_append, firstLength, restLength, unpackBits_append]
      by_cases last : cells.length ≤ 1024
      · have whole : cells.take standardVectorSize = cells := List.take_of_length_le last
        have none' : cells.drop standardVectorSize = [] := List.drop_of_length_le last
        rw [whole] at firstBits firstLength
        rw [whole, none', vectorsLoop_nil]
        refine ⟨by rw [List.length_nil]; omega, ?_⟩
        exact (congrArg (List.take cells.length) (List.append_nil _)).trans firstBits
      · have full : (cells.take standardVectorSize).length = 1024 := by
          rw [List.length_take]
          exact Nat.min_eq_left (by rw [standardVectorSize]; omega)
        have rest : (cells.drop standardVectorSize).length = cells.length - 1024 := List.length_drop
        rw [full] at firstBits firstLength
        have exact' : unpackBits (chunkLevels (cells.take standardVectorSize)) =
            (cells.take standardVectorSize).map Option.isSome := by
          have short : (unpackBits (chunkLevels (cells.take standardVectorSize))).length ≤ 1024 := by
            rw [length_unpackBits, firstLength]
          exact (List.take_of_length_le short).symm.trans firstBits
        refine ⟨by omega, ?_⟩
        rw [exact', List.take_append, List.length_map, full, List.take_of_length_le (by rw [List.length_map]; omega),
          ← rest, restBits, ← List.map_append, List.take_append_drop]

theorem length_varint (rounds n : Nat) : (varint rounds n).length = getVarintSize rounds n := by
  induction rounds generalizing n with
  | zero => rfl
  | succ rounds ih =>
    rw [varint, getVarintSize]
    split
    · rfl
    · rw [List.length_cons, ih]

theorem getVarintSize_le (rounds n : Nat) : getVarintSize rounds n ≤ rounds := by
  induction rounds generalizing n with
  | zero => exact Nat.le_refl 0
  | succ rounds ih =>
    rw [getVarintSize]
    have later := ih (n / 128)
    split <;> omega

theorem decodeLevels_literals {n : Nat} {packed : Bytes} (fuel : Nat) (few : n < 2 ^ 31)
    (size : packed.length = (n + 7) / 8) :
    decodeLevels (fuel + 1) n (varint 5 ((n + 7) / 8 * 2 + 1) ++ packed) = some ((unpackBits packed).take n) := by
  cases n with
  | zero => rfl
  | succ n =>
    have header : readVarint 0 (varint 5 ((n + 1 + 7) / 8 * 2 + 1) ++ packed) =
        some ((n + 1 + 7) / 8 * 2 + 1, packed) := by
      have read : readVarint 0 (varint 5 ((n + 1 + 7) / 8 * 2 + 1) ++ packed) =
          some (((n + 1 + 7) / 8 * 2 + 1) * 2 ^ 0, packed) :=
        readVarint_append (by omega) (by omega) (by decide) packed
      rw [Nat.pow_zero, Nat.mul_one] at read
      exact read
    have literals : ((n + 1 + 7) / 8 * 2 + 1) / 2 * 8 % 2 ^ 32 = (n + 1 + 7) / 8 * 8 := by omega
    have batch : min (n + 1) ((n + 1 + 7) / 8 * 8) = n + 1 := Nat.min_eq_left (by omega)
    rw [decodeLevels, header]
    simp only [literals, batch, size, Nat.le_refl, if_true, Nat.sub_self, decodeLevels, Option.map_some, List.append_nil]
    rw [if_pos (by omega)]

theorem writeDefinitionLevels_spec (cells : List (Option Datum)) (few : cells.length < 2 ^ 31) :
    ∃ levels, writeDefinitionLevels (vectors cells) = littleEndian 4 levels.length ++ levels ∧
      levels.length < 256 ^ 4 ∧
      decodeLevels (levels.length + 1) cells.length levels = some (cells.map Option.isSome) := by
  obtain ⟨size, bits⟩ := levels_spec cells.length cells (Nat.le_refl _)
  have header : ((cells.length + 7) / 8 * 2 + 1) % 2 ^ 32 = (cells.length + 7) / 8 * 2 + 1 := by omega
  have length : (varint 5 ((cells.length + 7) / 8 * 2 + 1) ++ (vectors cells).flatMap chunkLevels).length =
      getVarintSize 5 ((cells.length + 7) / 8 * 2 + 1) + (cells.length + 7) / 8 := by
    rw [List.length_append, length_varint, vectors, size]
  refine ⟨varint 5 ((cells.length + 7) / 8 * 2 + 1) ++ (vectors cells).flatMap chunkLevels, ?_, ?_, ?_⟩
  · rw [length, writeDefinitionLevels, vectors_flatten, header, List.append_assoc]
  · have short : getVarintSize 5 ((cells.length + 7) / 8 * 2 + 1) ≤ 5 := getVarintSize_le 5 _
    omega
  · rw [vectors, decodeLevels_literals _ few size, bits]

end Levels

section Payloads

/-- What a reader makes of a value that was written, for the types that can be read. -/
def keptValue (t : ColumnType) (v : Datum) : Option Datum :=
  match t with
  | .integer => some (.integral (IntegerType.integer.wrap (intOf v)))
  | .bigint => some (.integral (IntegerType.bigint.wrap (intOf v)))
  | .varchar => (verifyString (v.bytes.take (v.bytes.length % 2 ^ 32))).map .string
  | .timestamp => some (.integral (impalaTimestampToTimestamp (timestampToImpalaTimestamp (intOf v))))
  | _ => none

/-- The bits of a chunk's values up to the end of their last byte. -/
def paddedBits (chunk : List (Option Datum)) : List Bool :=
  chunk.reduceOption.map lowBit ++ padding chunk.reduceOption.length

/-- What a reader makes of the values of a column. -/
def keptColumn (t : ColumnType) (cells : List (Option Datum)) : Option (List Datum) :=
  match t with
  | .boolean => some ((((vectors cells).flatMap paddedBits).take cells.reduceOption.length).map bitDatum)
  | t => mapAll (keptValue t) cells.reduceOption

theorem reduceOption_flatten (chunks : List (List (Option Datum))) :
    chunks.flatten.reduceOption = chunks.flatMap List.reduceOption := by
  induction chunks with
  | nil => rfl
  | cons chunk chunks ih => rw [List.flatten_cons, List.reduceOption_append, ih, List.flatMap_cons]

theorem int96_bounds (ts : Int) : (timestampToImpalaTimestamp ts).nanoseconds < 256 ^ 8 ∧
    (timestampToImpalaTimestamp ts).day < 256 ^ 4 := by
  constructor
  · show (IntegerType.ubigint.wrap (getTime ts) * 1000 % 2 ^ 64).toNat < _
    omega
  · show (((dateEpoch (getDate ts)).tdiv secondsPerDay + julianToUnixEpochDays) % 2 ^ 32).toNat < _
    omega

variable {t : ColumnType}

theorem plainRead_plainValue (ctx : ParquetContext) (readable : t.readable = true)
    (other : t ≠ .boolean) (v : Datum) (rest : Bytes) :
    plainRead ctx t.logical (plainValue ctx t v ++ rest) = (keptValue t v).map (·, rest) := by
  cases t with
  | boolean => exact absurd rfl other
  | tinyint | smallint | decimal data | date => cases readable
  | integer =>
    have bound : 0 ≤ intOf v % 2 ^ 32 := by omega
    have same : IntegerType.integer.wrap ((intOf v % 2 ^ 32).toNat : Int) = IntegerType.integer.wrap (intOf v) := by
      rw [wrap_integer, wrap_integer]
      omega
    simp only [ColumnType.logical, plainRead, plainValue, keptValue]
    rw [readWord_append (by omega), Option.map_some, Option.map_some, same]
  | bigint =>
    have bound : 0 ≤ intOf v % 2 ^ 64 := by omega
    have same : IntegerType.bigint.wrap ((intOf v % 2 ^ 64).toNat : Int) = IntegerType.bigint.wrap (intOf v) := by
      rw [wrap_bigint, wrap_bigint]
      omega
    simp only [ColumnType.logical, plainRead, plainValue, keptValue]
    rw [readWord_append (by omega), Option.map_some, Option.map_some, same]
  | varchar =>
    have size : (v.bytes.take (v.bytes.length % 2 ^ 32)).length = v.bytes.length % 2 ^ 32 := by
      rw [List.length_take]
      exact Nat.min_eq_left (Nat.mod_le _ _)
    have read : readWord 4 (plainValue ctx .varchar v ++ rest) =
        some (v.bytes.length % 2 ^ 32, v.bytes.take (v.bytes.length % 2 ^ 32) ++ rest) := by
      exact readWord_append (by omega) _
    simp only [plainRead, read, keptValue]
    rw [if_pos (by rw [List.length_append]; omega), List.take_left' size, List.drop_left' size]
    cases verifyString (v.bytes.take (v.bytes.length % 2 ^ 32)) <;> rfl
  | timestamp =>
    obtain ⟨nanoseconds, day⟩ := int96_bounds (intOf v)
    have first : readWord 8 (plainValue ctx .timestamp v ++ rest) =
        some ((timestampToImpalaTimestamp (intOf v)).nanoseconds,
          littleEndian 4 (timestampToImpalaTimestamp (intOf v)).day ++ rest) := by
      exact readWord_append nanoseconds _
    simp only [ColumnType.logical, plainRead, first, readWord_append day, Option.map_some, keptValue]

theorem length_paddedBits_ge (chunks : List (List (Option Datum))) :
    (chunks.flatMap List.reduceOption).length ≤ (chunks.flatMap paddedBits).length := by
  induction chunks with
  | nil => exact Nat.le_refl 0
  | cons chunk chunks ih =>
    rw [List.flatMap_cons, List.flatMap_cons, List.length_append, List.length_append, paddedBits, List.length_append,
      List.length_map]
    omega

theorem plainReads_payload (ctx : ParquetContext) (readable : t.readable = true) (cells : List (Option Datum)) :
    plainReads ctx t.logical cells.reduceOption.length (writePlainColumnPayload ctx t (vectors cells)) =
      keptColumn t cells := by
  have values : cells.reduceOption = (vectors cells).flatMap List.reduceOption := by
    rw [← reduceOption_flatten, vectors_flatten]
  by_cases boolean : t = .boolean
  · subst boolean
    have bits : unpackBits (writePlainColumnPayload ctx .boolean (vectors cells)) =
        (vectors cells).flatMap paddedBits := by
      rw [writePlainColumnPayload, unpackBits, List.flatMap_assoc]
      apply List.flatMap_congr
      intro chunk _
      show unpackBits (packBits 0 0 (chunk.reduceOption.map lowBit)) = _
      rw [unpackBits_packed, List.length_map]
      rfl
    have enough : cells.reduceOption.length ≤ 8 * (writePlainColumnPayload ctx .boolean (vectors cells)).length := by
      rw [← length_unpackBits, bits, values]
      exact length_paddedBits_ge (vectors cells)
    show (readBits _ 0 (writePlainColumnPayload ctx .boolean (vectors cells))).map (List.map bitDatum) = _
    rw [readBits_eq (by decide) _ _ enough, bits]
    rfl
  · have payload : writePlainColumnPayload ctx t (vectors cells) = cells.reduceOption.flatMap (plainValue ctx t) := by
      rw [values, List.flatMap_assoc]
      apply List.flatMap_congr
      intro chunk _
      cases t with
      | boolean => exact absurd rfl boolean
      | tinyint | smallint | integer | bigint | decimal data | varchar | date | timestamp => rfl
    have one := plainRead_plainValue ctx readable boolean
    have run : readMany (plainRead ctx t.logical) cells.reduceOption.length
        (cells.reduceOption.flatMap (plainValue ctx t)) = mapAll (keptValue t) cells.reduceOption :=
      readMany_flatMap one cells.reduceOption
    rw [payload]
    cases t with
    | boolean => exact absurd rfl boolean
    | tinyint | smallint | decimal data | date => cases readable
    | integer | bigint | varchar | timestamp => exact run

end Payloads

section Pages

/-- The sizes of the page's header fit their 32 bits. -/
def PageFits (ctx : ParquetContext) (t : ColumnType) (cells : List (Option Datum)) : Prop :=
  (pageBytes ctx t cells).length < 2 ^ 31 ∧ (ctx.compress (pageBytes ctx t cells)).length < 2 ^ 31

theorem wrap_length (n : Nat) : IntegerType.integer.wrap n = n ↔ n < 2 ^ 31 := by
  rw [wrap_integer]
  constructor <;> intro _ <;> omega

theorem preparePage_writePage (ctx : ParquetContext) (t : ColumnType) (cells : List (Option Datum)) :
    (PageFits ctx t cells → preparePage ctx (writePage ctx t cells) = some (pageBytes ctx t cells)) ∧
      (¬PageFits ctx t cells → preparePage ctx (writePage ctx t cells) = none) := by
  have data : (writePage ctx t cells).data = ctx.compress (pageBytes ctx t cells) := rfl
  have small : (writePage ctx t cells).uncompressedPageSize = (pageBytes ctx t cells).length ↔
      (pageBytes ctx t cells).length < 2 ^ 31 := wrap_length _
  have packed : (writePage ctx t cells).compressedPageSize = (ctx.compress (pageBytes ctx t cells)).length ↔
      (ctx.compress (pageBytes ctx t cells)).length < 2 ^ 31 := wrap_length _
  unfold preparePage
  rw [data, ctx.lossless]
  constructor
  · intro fits
    rw [if_pos (packed.mpr fits.2)]
    exact if_pos (small.mpr fits.1)
  · intro large
    by_cases stored : (writePage ctx t cells).compressedPageSize = (ctx.compress (pageBytes ctx t cells)).length
    · rw [if_pos stored]
      apply if_neg
      intro whole
      exact large ⟨small.mp whole, packed.mp stored⟩
    · rw [if_neg stored]

theorem count_isSome (cells : List (Option Datum)) :
    (cells.map Option.isSome).count true = cells.reduceOption.length := by
  induction cells with
  | nil => rfl
  | cons cell cells ih =>
    cases cell with
    | none =>
      rw [List.reduceOption_cons_of_none, ← ih]
      exact List.count_cons_of_ne (by decide)
    | some v =>
      rw [List.reduceOption_cons_of_some, List.length_cons, ← ih]
      exact List.count_cons_self

variable {cells : List (Option Datum)} {t : ColumnType}

/-- A page that fits gives the levels back, and of the values what the readers keep. -/
theorem readPage_writePage (ctx : ParquetContext) (readable : t.readable = true) (few : cells.length < 2 ^ 31)
    (fits : PageFits ctx t cells) :
    readPage ctx t.logical cells.length (writePage ctx t cells) =
      (keptColumn t cells).map fun values => ⟨cells.map Option.isSome, .plain values⟩ := by
  obtain ⟨levels, written, short, decoded⟩ := writeDefinitionLevels_spec cells few
  have block : pageBytes ctx t cells =
      littleEndian 4 levels.length ++ (levels ++ writePlainColumnPayload ctx t (vectors cells)) := by
    rw [pageBytes, written, List.append_assoc]
  rw [readPage, (preparePage_writePage ctx t cells).1 fits, Option.bind_some, prepareDataPage, block,
    readWord_append short]
  simp only []
  rw [if_pos (by rw [List.length_append]; omega), List.take_left' rfl, List.drop_left' rfl, decoded]
  simp only []
  rw [count_isSome, plainReads_payload ctx readable]

/-- The values of a type that the format keeps, BOOLEAN apart. -/
def Stores (t : ColumnType) (v : Datum) : Prop :=
  match t, v with
  | .integer, .integral n => IntegerType.integer.Holds n
  | .bigint, .integral n => IntegerType.bigint.Holds n
  | .timestamp, .integral n => -9223372036854775 ≤ n ∧ n ≤ 9223372036854775
  | .varchar, .string s => s.length < 2 ^ 32 ∧ analyze 0 s = .valid
  | _, _ => False

/-- BOOLEAN values keep their places when each chunk of them is filled up to whole bytes. -/
def ColumnKept (t : ColumnType) (cells : List (Option Datum)) : Prop :=
  match t with
  | .boolean =>
    (((vectors cells).flatMap paddedBits).take cells.reduceOption.length).map bitDatum = cells.reduceOption
  | t => ∀ v ∈ cells.reduceOption, Stores t v

theorem length_verifyString {s kept : Bytes} (verified : verifyString s = some kept) : kept.length ≤ s.length := by
  unfold verifyString at verified
  split at verified
  · cases verified
    exact Nat.le_refl _
  · split at verified
    · cases verified
      exact Nat.le_refl _
    · cases verified
      rw [List.length_take]
      exact Nat.min_le_right _ _
    · cases verified

theorem wrap_eq_self (t : IntegerType) (n : Int) : t.wrap n = n ↔ t.Holds n :=
  ⟨fun same => same ▸ t.wrap_holds n, IntegerType.wrap_of_holds⟩

theorem keptValue_string (s : Bytes) :
    keptValue .varchar (.string s) = some (.string s) ↔ s.length < 2 ^ 32 ∧ analyze 0 s = .valid := by
  rw [keptValue, Option.map_eq_some_iff]
  constructor
  · rintro ⟨kept, verified, same⟩
    have same : kept = s := by
      injection same
    subst same
    have shorter := length_verifyString verified
    rw [List.length_take] at shorter
    have small : kept.length < 2 ^ 32 := by omega
    rw [Datum.bytes, Nat.mod_eq_of_lt small, List.take_length] at verified
    exact ⟨small, (verifyString_eq_self kept).mp verified⟩
  · rintro ⟨small, valid⟩
    refine ⟨s, ?_, rfl⟩
    rw [Datum.bytes, Nat.mod_eq_of_lt small, List.take_length]
    exact (verifyString_eq_self s).mpr valid

theorem keptValue_eq_self (readable : t.readable = true) (other : t ≠ .boolean) (v : Datum) :
    keptValue t v = some v ↔ Stores t v := by
  have integral : ∀ n m : Int, some (Datum.integral m) = some (Datum.integral n) ↔ m = n := by
    intro n m
    rw [Option.some.injEq, Datum.integral.injEq]
  cases t with
  | boolean => exact absurd rfl other
  | tinyint | smallint | decimal data | date => cases readable
  | integer =>
    cases v with
    | integral n => exact (integral _ _).trans (wrap_eq_self .integer n)
    | floating x | string s => simp [keptValue, Stores]
  | bigint =>
    cases v with
    | integral n => exact (integral _ _).trans (wrap_eq_self .bigint n)
    | floating x | string s => simp [keptValue, Stores]
  | varchar =>
    cases v with
    | string s => exact keptValue_string s
    | integral n | floating x => simp [keptValue, Stores]
  | timestamp =>
    cases v with
    | integral n =>
      refine (integral _ _).trans ⟨?_, fun inside => impalaTimestampToTimestamp_eq inside.1 inside.2⟩
      intro same
      have bounds := impalaTimestampToTimestamp_bounds (timestampToImpalaTimestamp n)
      rw [intOf] at same
      rw [same] at bounds
      exact bounds
    | floating x | string s => simp [keptValue, Stores]

theorem keptColumn_eq_self (readable : t.readable = true) (cells : List (Option Datum)) :
    keptColumn t cells = some cells.reduceOption ↔ ColumnKept t cells := by
  have rest : ∀ other : t ≠ .boolean, mapAll (keptValue t) cells.reduceOption = some cells.reduceOption ↔
      ∀ v ∈ cells.reduceOption, Stores t v := by
    intro other
    rw [mapAll_eq_self]
    exact forall₂_congr fun v _ => keptValue_eq_self readable other v
  cases t with
  | boolean => exact Option.some_inj
  | tinyint | smallint | decimal data | date => cases readable
  | integer | bigint | varchar | timestamp => exact rest (by decide)

theorem length_keptColumn {values : List Datum}
    (kept : keptColumn t cells = some values) : values.length = cells.reduceOption.length := by
  cases t with
  | boolean =>
    have same := Option.some.inj kept
    have long := length_paddedBits_ge (vectors cells)
    rw [← reduceOption_flatten, vectors_flatten] at long
    rw [← same, List.length_map, List.length_take]
    exact Nat.min_eq_left long
  | tinyint | smallint | integer | bigint | decimal data | varchar | date | timestamp => exact length_mapAll kept

theorem rowsOf_written {values : List Datum} (length : values.length = cells.reduceOption.length) :
    ∃ rows, rowsOf [] (cells.map Option.isSome) (.plain values) = some rows ∧
      (rows = cells ↔ values = cells.reduceOption) := by
  induction cells generalizing values with
  | nil => exact ⟨[], rfl, fun _ => List.length_eq_zero_iff.mp length, fun _ => rfl⟩
  | cons cell cells ih =>
    cases cell with
    | none =>
      obtain ⟨rows, found, same⟩ := ih length
      refine ⟨none :: rows, ?_, ?_⟩
      · rw [List.map_cons, Option.isSome_none, rowsOf, found]
        rfl
      · rw [List.reduceOption_cons_of_none, ← same, List.cons.injEq]
        exact and_iff_right rfl
    | some v =>
      cases values with
      | nil => cases length
      | cons w values =>
        obtain ⟨rows, found, same⟩ := ih (Nat.succ.inj length)
        refine ⟨some w :: rows, ?_, ?_⟩
        · rw [List.map_cons, Option.isSome_some, rowsOf]
          simp [Payload.read, found]
        · rw [List.reduceOption_cons_of_some, List.cons.injEq, List.cons.injEq, same, Option.some.injEq]

end Pages

end BumbleBee.External
