import Mathlib.Algebra.Group.Nat.Defs
import Mathlib.Data.List.Basic
import Mathlib.Data.Nat.Bitwise

/-!
Byte strings as codecs write and read them: little-endian words, variable-length
numbers of seven bits a byte, bits packed from the low end of each byte, and runs of
encoded values. A reader takes what it reads off the front and fails at the end.
-/

namespace BumbleBee.Library.ByteCodec

abbrev Bytes := List UInt8

section Words

def littleEndian : Nat → Nat → Bytes
  | 0, _ => []
  | width + 1, n => UInt8.ofNat n :: littleEndian width (n / 256)

def ofLittleEndian : Bytes → Nat
  | [] => 0
  | b :: bytes => b.toNat + 256 * ofLittleEndian bytes

def readWord (width : Nat) (bytes : Bytes) : Option (Nat × Bytes) :=
  if width ≤ bytes.length then some (ofLittleEndian (bytes.take width), bytes.drop width) else none

theorem length_littleEndian (width n : Nat) : (littleEndian width n).length = width := by
  induction width generalizing n with
  | zero => rfl
  | succ width ih => rw [littleEndian, List.length_cons, ih]

theorem ofLittleEndian_littleEndian {width n : Nat} (small : n < 256 ^ width) :
    ofLittleEndian (littleEndian width n) = n := by
  induction width generalizing n with
  | zero =>
    rw [Nat.pow_zero] at small
    rw [littleEndian, ofLittleEndian]
    omega
  | succ width ih =>
    rw [Nat.pow_succ] at small
    have low : (UInt8.ofNat n).toNat = n % 256 := rfl
    rw [littleEndian, ofLittleEndian, ih (by omega), low]
    omega

theorem readWord_append {width n : Nat} (small : n < 256 ^ width) (rest : Bytes) :
    readWord width (littleEndian width n ++ rest) = some (n, rest) := by
  have size := length_littleEndian width n
  rw [readWord, if_pos (by rw [List.length_append]; omega), List.take_left' size, List.drop_left' size,
    ofLittleEndian_littleEndian small]

end Words

section Varints

/-- At most `rounds` bytes, the low seven bits first. -/
def varint : Nat → Nat → Bytes
  | 0, _ => []
  | rounds + 1, n =>
    if n / 128 = 0 then [UInt8.ofNat (n % 128)] else UInt8.ofNat (n % 128 + 128) :: varint rounds (n / 128)

/-- A 32-bit number whose next byte stands at `shift`. -/
def readVarint : Nat → Bytes → Option (Nat × Bytes)
  | _, [] => none
  | shift, b :: bytes =>
    if b.toNat < 128 then some (b.toNat * 2 ^ shift % 2 ^ 32, bytes)
    else if 32 < shift + 7 then none
    else (readVarint (shift + 7) bytes).map fun later => ((b.toNat % 128 * 2 ^ shift + later.1) % 2 ^ 32, later.2)

theorem readVarint_append {rounds shift n : Nat} (enough : n < 128 ^ rounds) (small : n * 2 ^ shift < 2 ^ 32)
    (some' : 0 < rounds) (rest : Bytes) :
    readVarint shift (varint rounds n ++ rest) = some (n * 2 ^ shift, rest) := by
  induction rounds generalizing shift n with
  | zero => omega
  | succ rounds ih =>
    rw [varint]
    by_cases last : n / 128 = 0
    · have byte : (UInt8.ofNat (n % 128)).toNat = n := by
        show n % 128 % 256 = n
        omega
      rw [if_pos last, List.singleton_append, readVarint, byte, if_pos (by omega), Nat.mod_eq_of_lt small]
    · have byte : (UInt8.ofNat (n % 128 + 128)).toNat = n % 128 + 128 := by
        show (n % 128 + 128) % 256 = n % 128 + 128
        omega
      have wide : 2 ^ (shift + 7) ≤ n * 2 ^ shift := by
        rw [Nat.pow_add, Nat.mul_comm]
        exact Nat.mul_le_mul_right _ (by omega)
      have position : shift + 7 < 32 := (Nat.pow_lt_pow_iff_right (by decide)).mp (Nat.lt_of_le_of_lt wide small)
      rw [Nat.pow_succ] at enough
      have parts : n % 128 * 2 ^ shift + n / 128 * 2 ^ (shift + 7) = n * 2 ^ shift := by
        rw [Nat.pow_add, Nat.mul_comm (2 ^ shift), ← Nat.mul_assoc, ← Nat.add_mul]
        congr 1
        omega
      have later : readVarint (shift + 7) (varint rounds (n / 128) ++ rest) = some (n / 128 * 2 ^ (shift + 7), rest) := by
        apply ih (by omega) (by omega)
        by_contra none'
        rw [Nat.eq_zero_of_not_pos none'] at enough
        omega
      rw [if_neg last, List.cons_append, readVarint, byte, if_neg (by omega), if_neg (by omega), later, Option.map_some,
        Nat.add_mod_right, Nat.mod_mod, parts, Nat.mod_eq_of_lt small]

end Varints

section Bits

def bitsOf (n width : Nat) : List Bool := (List.range width).map n.testBit

def unpackBits (bytes : Bytes) : List Bool := bytes.flatMap fun b => bitsOf b.toNat 8

/-- The loop that packs bits, `pos` of which are in `byte` already. -/
def packBits : Nat → Nat → List Bool → Bytes
  | byte, pos, [] => if 0 < pos then [UInt8.ofNat byte] else []
  | byte, pos, b :: bits =>
    if pos + 1 = 8 then UInt8.ofNat (byte + b.toNat * 2 ^ pos) :: packBits 0 0 bits
    else packBits (byte + b.toNat * 2 ^ pos) (pos + 1) bits

/-- The bits that fill up the last byte. -/
def padding (count : Nat) : List Bool := List.replicate ((8 - count % 8) % 8) false

theorem length_bitsOf (n width : Nat) : (bitsOf n width).length = width := by
  rw [bitsOf, List.length_map, List.length_range]

theorem length_unpackBits (bytes : Bytes) : (unpackBits bytes).length = 8 * bytes.length := by
  induction bytes with
  | nil => rfl
  | cons b bytes ih =>
    rw [unpackBits, List.flatMap_cons, List.length_append, length_bitsOf, List.length_cons]
    rw [unpackBits] at ih
    omega

theorem unpackBits_append (first second : Bytes) : unpackBits (first ++ second) = unpackBits first ++ unpackBits second :=
  List.flatMap_append ..

theorem bitsOf_succ {byte pos : Nat} (small : byte < 2 ^ pos) (b : Bool) :
    bitsOf (byte + b.toNat * 2 ^ pos) (pos + 1) = bitsOf byte pos ++ [b] := by
  have bit : ∀ i, (byte + b.toNat * 2 ^ pos).testBit i =
      if i < pos then byte.testBit i else b.toNat.testBit (i - pos) := by
    intro i
    rw [Nat.add_comm, Nat.mul_comm]
    exact Nat.testBit_two_pow_mul_add _ small i
  rw [bitsOf, bitsOf, List.range_succ, List.map_append, List.map_singleton, bit, if_neg (Nat.lt_irrefl pos), Nat.sub_self]
  congr 1
  · apply List.map_congr_left
    intro i member
    rw [bit, if_pos (List.mem_range.mp member)]
  · cases b <;> rfl

theorem bitsOf_of_lt {byte pos width : Nat} (small : byte < 2 ^ pos) (narrow : pos ≤ width) :
    bitsOf byte width = bitsOf byte pos ++ List.replicate (width - pos) false := by
  obtain ⟨more, rfl⟩ := Nat.exists_eq_add_of_le narrow
  rw [Nat.add_sub_cancel_left, bitsOf, List.range_add, List.map_append, List.map_map]
  congr 1
  rw [List.eq_replicate_iff]
  refine ⟨by rw [List.length_map, List.length_range], ?_⟩
  intro bit member
  obtain ⟨i, -, rfl⟩ := List.mem_map.mp member
  exact Nat.testBit_lt_two_pow (Nat.lt_of_lt_of_le small (Nat.pow_le_pow_right (by decide) (Nat.le_add_right pos i)))

theorem unpackBits_packBits {byte pos : Nat} (small : byte < 2 ^ pos) (inside : pos < 8) (bits : List Bool) :
    unpackBits (packBits byte pos bits) = bitsOf byte pos ++ bits ++ padding (pos + bits.length) := by
  induction bits generalizing byte pos with
  | nil =>
    have fits : byte < 256 := Nat.lt_of_lt_of_le small (Nat.pow_le_pow_right (by decide) (Nat.le_of_lt inside))
    rw [packBits, List.append_nil, List.length_nil, Nat.add_zero, padding]
    by_cases some' : 0 < pos
    · rw [if_pos some', unpackBits, List.flatMap_cons, List.flatMap_nil, List.append_nil]
      show bitsOf (byte % 256) 8 = _
      rw [Nat.mod_eq_of_lt fits, bitsOf_of_lt small (Nat.le_of_lt inside), Nat.mod_eq_of_lt inside,
        Nat.mod_eq_of_lt (by omega)]
    · rw [if_neg some', Nat.eq_zero_of_not_pos some']
      rfl
  | cons b bits ih =>
    have next : byte + b.toNat * 2 ^ pos < 2 ^ (pos + 1) := by
      have one : b.toNat * 2 ^ pos ≤ 2 ^ pos := by
        cases b <;> simp
      rw [Nat.pow_succ]
      omega
    rw [packBits, List.length_cons]
    by_cases full : pos + 1 = 8
    · have whole : unpackBits (packBits 0 0 bits) = bits ++ padding (0 + bits.length) :=
        ih (Nat.one_pos : 0 < 2 ^ 0) (by decide)
      have same : bitsOf (byte + b.toNat * 2 ^ pos) 8 = bitsOf byte pos ++ [b] := by
        rw [← full]
        exact bitsOf_succ small b
      have fits : byte + b.toNat * 2 ^ pos < 256 := by
        rw [full] at next
        exact next
      have count : padding (pos + (bits.length + 1)) = padding (0 + bits.length) := by
        rw [padding, padding]
        congr 1
        omega
      rw [if_pos full, unpackBits, List.flatMap_cons]
      show bitsOf ((byte + b.toNat * 2 ^ pos) % 256) 8 ++ unpackBits (packBits 0 0 bits) = _
      rw [Nat.mod_eq_of_lt fits, same, whole, count, ← List.append_assoc, List.append_cons _ b bits]
    · have count : pos + 1 + bits.length = pos + (bits.length + 1) := by omega
      rw [if_neg full, ih next (by omega), bitsOf_succ small, count, List.append_cons _ b bits]

theorem unpackBits_packed (bits : List Bool) : unpackBits (packBits 0 0 bits) = bits ++ padding bits.length := by
  have unpacked := unpackBits_packBits (by decide : 0 < 2 ^ 0) (by decide) bits
  rw [Nat.zero_add] at unpacked
  exact unpacked

theorem length_packBits (bits : List Bool) : (packBits 0 0 bits).length = (bits.length + 7) / 8 := by
  have unpacked := congrArg List.length (unpackBits_packed bits)
  rw [length_unpackBits, List.length_append, padding, List.length_replicate] at unpacked
  omega

theorem unpackBits_ones (count : Nat) : unpackBits (List.replicate count 0xFF) = List.replicate (8 * count) true := by
  induction count with
  | zero => rfl
  | succ count ih =>
    have byte : bitsOf (0xFF : UInt8).toNat 8 = List.replicate 8 true := by decide
    have step : unpackBits (List.replicate (count + 1) 0xFF) =
        bitsOf (0xFF : UInt8).toNat 8 ++ unpackBits (List.replicate count 0xFF) := rfl
    rw [step, ih, byte, List.replicate_append_replicate]
    congr 1
    omega

/-- The bits one at a time, from bit `pos` of the first byte on. -/
def readBits : Nat → Nat → Bytes → Option (List Bool)
  | 0, _, _ => some []
  | _ + 1, _, [] => none
  | n + 1, pos, b :: bytes =>
    (if pos + 1 = 8 then readBits n 0 bytes else readBits n (pos + 1) (b :: bytes)).map (b.toNat.testBit pos :: ·)

theorem readBits_eq {pos : Nat} (inside : pos < 8) (n : Nat) (bytes : Bytes) (enough : n + pos ≤ 8 * bytes.length) :
    readBits n pos bytes = some (((unpackBits bytes).drop pos).take n) := by
  induction n generalizing pos bytes with
  | zero => rw [readBits, List.take_zero]
  | succ n ih =>
    cases bytes with
    | nil =>
      rw [List.length_nil] at enough
      omega
    | cons b bytes =>
      rw [List.length_cons] at enough
      have head : (unpackBits (b :: bytes)).drop pos = b.toNat.testBit pos :: (unpackBits (b :: bytes)).drop (pos + 1) := by
        have long : pos < (unpackBits (b :: bytes)).length := by
          rw [length_unpackBits, List.length_cons]
          omega
        rw [List.drop_eq_getElem_cons long]
        congr 1
        rw [← Option.some.injEq, ← List.getElem?_eq_getElem long, unpackBits, List.flatMap_cons,
          List.getElem?_append_left (by rw [length_bitsOf]; exact inside), bitsOf, List.getElem?_map,
          List.getElem?_range inside]
        rfl
      rw [readBits, head, List.take_succ_cons]
      by_cases full : pos + 1 = 8
      · have rest : (unpackBits (b :: bytes)).drop (pos + 1) = (unpackBits bytes).drop 0 := by
          rw [full, unpackBits, List.flatMap_cons, List.drop_left' (length_bitsOf _ 8)]
          rfl
        rw [if_pos full, ih (by decide) bytes (by omega), rest]
        rfl
      · rw [if_neg full, ih (by omega) (b :: bytes) (by rw [List.length_cons]; omega)]
        rfl

end Bits

section Runs

variable {α β : Type}

def readMany (read : Bytes → Option (α × Bytes)) : Nat → Bytes → Option (List α)
  | 0, _ => some []
  | n + 1, bytes =>
    match read bytes with
    | none => none
    | some (v, bytes) => (readMany read n bytes).map (v :: ·)

/-- The images of all values of a run; fails where one does. -/
def mapAll (kept : α → Option β) : List α → Option (List β)
  | [] => some []
  | v :: values =>
    match kept v with
    | none => none
    | some w => (mapAll kept values).map (w :: ·)

theorem mapAll_map {γ : Type} (kept : β → Option γ) (f : α → β) (values : List α) :
    mapAll kept (values.map f) = mapAll (fun v => kept (f v)) values := by
  induction values with
  | nil => rfl
  | cons v values ih =>
    rw [List.map_cons, mapAll, mapAll]
    cases kept (f v) with
    | none => rfl
    | some w => rw [ih]

variable {kept : α → Option β} {values : List α}

theorem exists_of_mapAll_none (fails : mapAll kept values = none) : ∃ v ∈ values, kept v = none := by
  induction values with
  | nil => cases fails
  | cons v values ih =>
    rw [mapAll] at fails
    cases one : kept v with
    | none => exact ⟨v, List.mem_cons_self, one⟩
    | some w =>
      simp only [one, Option.map_eq_none_iff] at fails
      obtain ⟨other, member, none'⟩ := ih fails
      exact ⟨other, List.mem_cons_of_mem v member, none'⟩

variable {result : List β}

theorem getElem?_mapAll {i : Nat} {v : α} (all : mapAll kept values = some result) (found : values[i]? = some v) :
    ∃ w, kept v = some w ∧ result[i]? = some w := by
  induction values generalizing result i with
  | nil => cases found
  | cons head values ih =>
    rw [mapAll] at all
    split at all
    · cases all
    · next w one =>
      obtain ⟨later, rest, same⟩ := Option.map_eq_some_iff.mp all
      subst same
      cases i with
      | zero =>
        cases found
        exact ⟨w, one, rfl⟩
      | succ i =>
        obtain ⟨x, mapped, listed⟩ := ih rest found
        exact ⟨x, mapped, listed⟩

theorem readMany_flatMap {read : Bytes → Option (β × Bytes)} {encode : α → Bytes}
    (one : ∀ v rest, read (encode v ++ rest) = (kept v).map (·, rest)) (values : List α) :
    readMany read values.length (values.flatMap encode) = mapAll kept values := by
  induction values with
  | nil => rfl
  | cons v values ih =>
    rw [List.flatMap_cons, List.length_cons, readMany, one, mapAll]
    cases kept v with
    | none => rfl
    | some w =>
      rw [Option.map_some]
      simp only [ih]

theorem length_mapAll (all : mapAll kept values = some result) : result.length = values.length := by
  induction values generalizing result with
  | nil =>
    cases all
    rfl
  | cons v values ih =>
    rw [mapAll] at all
    split at all
    · cases all
    · obtain ⟨later, found, same⟩ := Option.map_eq_some_iff.mp all
      rw [← same, List.length_cons, List.length_cons, ih found]

theorem mapAll_eq_self {kept : α → Option α} :
    mapAll kept values = some values ↔ ∀ v ∈ values, kept v = some v := by
  induction values with
  | nil => simp [mapAll]
  | cons v values ih =>
    rw [mapAll, List.forall_mem_cons, ← ih]
    constructor
    · intro all
      split at all
      · cases all
      · next w found =>
        obtain ⟨later, rest, same⟩ := Option.map_eq_some_iff.mp all
        rw [List.cons.injEq] at same
        exact ⟨found.trans (congrArg some same.1), rest.trans (congrArg some same.2)⟩
    · intro all
      simp [all.1, all.2]

theorem map_of_mapAll {γ : Type} {f : α → γ} {g : β → γ} (all : mapAll kept values = some result)
    (same : ∀ v ∈ values, ∀ w, kept v = some w → g w = f v) : result.map g = values.map f := by
  induction values generalizing result with
  | nil =>
    cases all
    rfl
  | cons v values ih =>
    rw [mapAll] at all
    split at all
    · cases all
    · next w one =>
      obtain ⟨later, rest, listed⟩ := Option.map_eq_some_iff.mp all
      rw [← listed, List.map_cons, List.map_cons, same v List.mem_cons_self w one,
        ih rest fun other member => same other (List.mem_cons_of_mem v member)]

theorem mapAll_recovers {g : β → α} {P : α → Prop}
    (spec : ∀ v ∈ values, (kept v = none ∧ ¬P v) ∨ ∃ w, kept v = some w ∧ (g w = v ↔ P v)) :
    (mapAll kept values).map (List.map g) = some values ↔ ∀ v ∈ values, P v := by
  induction values with
  | nil => simp [mapAll]
  | cons v values ih =>
    have later := ih fun other member => spec other (List.mem_cons_of_mem v member)
    rw [List.forall_mem_cons, ← later, mapAll]
    rcases spec v List.mem_cons_self with ⟨one, lost⟩ | ⟨w, one, same⟩
    · rw [one]
      constructor
      · intro impossible
        cases impossible
      · intro both
        exact absurd both.1 lost
    · rw [one, ← same]
      cases mapAll kept values with
      | none => simp
      | some result => simp

end Runs

end BumbleBee.Library.ByteCodec
