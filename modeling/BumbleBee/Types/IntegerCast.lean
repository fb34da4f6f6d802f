import BumbleBee.Types.LogicalType

/-!
The cast of a string to an integer. `IntegerCastLoop` takes the digits one by one, each with a check that the next
result fits, and then spaces, an exponent or nothing. `StringCastSwitch` leaves `IS_SIGNED` at its default for the
unsigned types too. The scaling by an exponent is done in doubles and is a parameter here.
-/

namespace BumbleBee.Types

def byte (c : Char) : UInt8 := UInt8.ofNat c.toNat

def characterIsDigit (c : UInt8) : Bool := byte '0' ≤ c && c ≤ byte '9'

def characterIsSpace (c : UInt8) : Bool := c ∈ [32, 9, 10, 11, 12, 13]

def digitOf (c : UInt8) : Int := c.toNat - 48

def handleDigit (t : IntegerType) (negative : Bool) (result digit : Int) : Option Int :=
  if negative then
    if result < (t.minimum + digit).tdiv 10 then none else some (t.wrap (result * 10 - digit))
  else if result > (t.maximum - digit).tdiv 10 then none else some (t.wrap (result * 10 + digit))

/-- The loop from behind the sign on; `moved` is `pos > start_pos`. -/
def integerCastDigits (t : IntegerType) (negative : Bool) (exponent : List UInt8 → Int → Option Int) :
    List UInt8 → Bool → Int → Option Int
  | [], moved, result => if moved then some result else none
  | c :: rest, moved, result =>
    if characterIsDigit c then
      match handleDigit t negative result (digitOf c) with
      | some next => integerCastDigits t negative exponent rest true next
      | none => none
    else if c = byte '.' then none
    else if characterIsSpace c then if rest.all characterIsSpace then some result else none
    else if (c = byte 'e' ∨ c = byte 'E') ∧ moved then exponent rest result else none

def integerCastLoop (t : IntegerType) (negative : Bool) (exponent : List UInt8 → Int → Option Int)
    (buf : List UInt8) : Option Int :=
  integerCastDigits t negative exponent (if negative ∨ buf.head? = some (byte '+') then buf.tail else buf) false 0

/-- `e<exponent>`, itself read without an exponent. -/
def exponentPart (handleExponent : Int → Int → Option Int) (rest : List UInt8) (result : Int) : Option Int :=
  if rest = [] then none
  else (integerCastLoop .bigint (rest.head? = some (byte '-')) (fun _ _ => none) rest).bind (handleExponent result)

def tryIntegerCast (handleExponent : IntegerType → Int → Int → Option Int) (t : IntegerType) (isSigned : Bool)
    (val : List UInt8) : Option Int :=
  match val.dropWhile characterIsSpace with
  | [] => none
  | c :: rest =>
    if c = byte '-' ∧ !isSigned ∧ rest.any (· ≠ byte '0') then none
    else integerCastLoop t (c = byte '-') (exponentPart (handleExponent t)) (c :: rest)

def stringCastSwitch (handleExponent : IntegerType → Int → Int → Option Int) (t : IntegerType) (val : List UInt8) :
    Option Int :=
  tryIntegerCast handleExponent t true val

def digitsValue (v : Int) (digits : List UInt8) : Int := digits.foldl (fun v c => v * 10 + digitOf c) v

def signed (negative : Bool) (v : Int) : Int := if negative then -v else v

inductive Sign : Bool → List UInt8 → Prop where
  | absent : Sign false []
  | plus : Sign false [byte '+']
  | minus : Sign true [byte '-']

/-- Spaces, a sign or none, digits, and what is left. -/
def Reads (val : List UInt8) (negative : Bool) (digits rest : List UInt8) : Prop :=
  ∃ before sign, val = before ++ (sign ++ (digits ++ rest)) ∧ before.all characterIsSpace ∧ Sign negative sign ∧
    digits.all characterIsDigit

/-- The integer a string denotes: at least one digit, with spaces around. -/
def Denotes (val : List UInt8) (n : Int) : Prop :=
  ∃ negative digits after, Reads val negative digits after ∧ digits ≠ [] ∧ after.all characterIsSpace ∧
    n = signed negative (digitsValue 0 digits)

def HasExponent (val : List UInt8) : Prop :=
  ∃ negative digits e rest, Reads val negative digits (e :: rest) ∧ digits ≠ [] ∧ (e = byte 'e' ∨ e = byte 'E')

/-- What the loop starts on: the sign, and the bytes behind it. -/
def negativeOf (val : List UInt8) : Bool := (val.dropWhile characterIsSpace).head? = some (byte '-')

def unsignedOf (val : List UInt8) : List UInt8 :=
  if negativeOf val ∨ (val.dropWhile characterIsSpace).head? = some (byte '+')
  then (val.dropWhile characterIsSpace).tail else val.dropWhile characterIsSpace

variable {t : IntegerType} {negative moved : Bool} {exponent : List UInt8 → Int → Option Int}
  {handleExponent : IntegerType → Int → Int → Option Int} {val digits rest after : List UInt8} {c : UInt8} {n v : Int}

theorem digitOf_bounds (digit : characterIsDigit c = true) : 0 ≤ digitOf c ∧ digitOf c ≤ 9 := by
  simp only [characterIsDigit, Bool.and_eq_true, decide_eq_true_eq, UInt8.le_iff_toNat_le] at digit
  have low : (byte '0').toNat = 48 := rfl
  have high : (byte '9').toNat = 57 := rfl
  unfold digitOf
  omega

theorem not_space_of_digit (digit : characterIsDigit c = true) : characterIsSpace c = false := by
  by_contra space
  have listed := of_decide_eq_true (Bool.eq_true_of_not_eq_false space)
  simp only [List.mem_cons, List.not_mem_nil, or_false] at listed
  obtain rfl | rfl | rfl | rfl | rfl | rfl := listed <;> exact absurd digit (by decide)

theorem dropWhile_append {P : UInt8 → Bool} {l r : List UInt8} (skipped : l.all P = true)
    (stops : ∀ c, r.head? = some c → P c = false) : (l ++ r).dropWhile P = r := by
  rw [List.dropWhile_append_of_pos (by simpa using skipped)]
  cases r with
  | nil => rfl
  | cons c r => exact List.dropWhile_cons_of_neg (by simp [stops c rfl])

theorem head_dropWhile {P : UInt8 → Bool} {l : List UInt8} (first : (l.dropWhile P).head? = some c) : P c = false := by
  have := List.head?_dropWhile_not P l
  rw [first] at this
  simpa using this

/-- A sign, or a digit without one, is where the loop starts. -/
theorem Sign.found {before sign body : List UInt8} (signs : Sign negative sign)
    (spaces : before.all characterIsSpace = true)
    (solid : sign = [] → ∃ d more, body = d :: more ∧ characterIsDigit d = true) :
    negativeOf (before ++ (sign ++ body)) = negative ∧ unsignedOf (before ++ (sign ++ body)) = body := by
  have dropped : (before ++ (sign ++ body)).dropWhile characterIsSpace = sign ++ body := by
    refine dropWhile_append spaces fun c head => ?_
    cases signs with
    | absent =>
      obtain ⟨d, more, rfl, first⟩ := solid rfl
      cases head
      exact not_space_of_digit first
    | plus | minus =>
      cases head
      rfl
  unfold unsignedOf negativeOf
  rw [dropped]
  have apart : byte '+' ≠ byte '-' := by decide
  cases signs with
  | absent =>
    obtain ⟨d, more, rfl, first⟩ := solid rfl
    have plain : d ≠ byte '-' ∧ d ≠ byte '+' := by constructor <;> rintro rfl <;> revert first <;> decide
    simp [plain]
  | plus | minus => simp [apart]

theorem sign_unsigned (val : List UInt8) :
    ∃ sign, val.dropWhile characterIsSpace = sign ++ unsignedOf val ∧ Sign (negativeOf val) sign := by
  unfold unsignedOf negativeOf
  cases val.dropWhile characterIsSpace with
  | nil => exact ⟨[], rfl, .absent⟩
  | cons c body =>
    by_cases minus : c = byte '-'
    · exact ⟨[byte '-'], by simp [minus], by simpa [minus] using .minus⟩
    by_cases plus : c = byte '+'
    · exact ⟨[byte '+'], by simp [plus], by simpa [minus] using .plus⟩
    · exact ⟨[], by simp [minus, plus], by simpa [minus] using .absent⟩

theorem Reads.found (reads : Reads val negative digits rest) (present : digits ≠ [])
    (ends : ∀ c, rest.head? = some c → characterIsDigit c = false) :
    negativeOf val = negative ∧ (unsignedOf val).takeWhile characterIsDigit = digits ∧
      (unsignedOf val).dropWhile characterIsDigit = rest := by
  obtain ⟨before, sign, rfl, spaces, signs, all⟩ := reads
  obtain ⟨d, more, rfl⟩ := List.exists_cons_of_ne_nil present
  obtain ⟨sign, body⟩ : negativeOf _ = negative ∧ unsignedOf _ = d :: more ++ rest :=
    signs.found spaces fun _ => ⟨d, more ++ rest, rfl, by simp at all; exact all.1⟩
  have dropped := dropWhile_append all ends
  have taken := List.takeWhile_append_dropWhile (p := characterIsDigit) (l := d :: more ++ rest)
  rw [dropped] at taken
  rw [sign, body]
  exact ⟨rfl, List.append_cancel_right taken, dropped⟩

theorem reads_unsigned (val : List UInt8) : Reads val (negativeOf val)
    ((unsignedOf val).takeWhile characterIsDigit) ((unsignedOf val).dropWhile characterIsDigit) := by
  obtain ⟨sign, body, signs⟩ := sign_unsigned val
  refine ⟨val.takeWhile characterIsSpace, sign, ?_, by simp, signs, by simp⟩
  rw [List.takeWhile_append_dropWhile, ← body, List.takeWhile_append_dropWhile]

theorem denotes_iff : Denotes val n ↔ (unsignedOf val).takeWhile characterIsDigit ≠ [] ∧
    ((unsignedOf val).dropWhile characterIsDigit).all characterIsSpace ∧
      n = signed (negativeOf val) (digitsValue 0 ((unsignedOf val).takeWhile characterIsDigit)) := by
  constructor
  · intro ⟨negative, digits, after, reads, present, spaces, value⟩
    have ends : ∀ c, after.head? = some c → characterIsDigit c = false := by
      intro c first
      by_contra digit
      have space := List.all_eq_true.mp spaces c (List.mem_of_mem_head? first)
      rw [not_space_of_digit (Bool.eq_true_of_not_eq_false digit)] at space
      cases space
    obtain ⟨sign, taken, left⟩ := reads.found present ends
    rw [sign, taken, left]
    exact ⟨present, spaces, value⟩
  · intro ⟨present, spaces, value⟩
    exact ⟨_, _, _, reads_unsigned val, present, spaces, value⟩

theorem stringCastSwitch_eq : stringCastSwitch handleExponent t val =
    integerCastDigits t (negativeOf val) (exponentPart (handleExponent t)) (unsignedOf val) false 0 := by
  unfold stringCastSwitch tryIntegerCast unsignedOf negativeOf
  cases val.dropWhile characterIsSpace with
  | nil => rfl
  | cons c body => simp [integerCastLoop]

/-- The largest magnitude with this sign. -/
def limit (t : IntegerType) (negative : Bool) : Int := if negative then -t.minimum else t.maximum

theorem handleDigit_eq (representable : negative = true → t.minimum < 0) {d : Int} (digit : 0 ≤ d ∧ d ≤ 9)
    (nonneg : 0 ≤ v) : handleDigit t negative (signed negative v) d =
      if v * 10 + d ≤ limit t negative then some (signed negative (v * 10 + d)) else none := by
  have low : t.minimum ≤ 0 ∧ (t.minimum < 0 → t.minimum ≤ -9) := by cases t <;> decide
  have high : 9 ≤ t.maximum := by cases t <;> decide
  cases negative with
  | false =>
    simp only [handleDigit, signed, limit, Bool.false_eq_true, if_false]
    rw [Int.tdiv_eq_ediv_of_nonneg (by omega)]
    by_cases fits : v * 10 + d ≤ t.maximum
    · rw [if_neg (by omega), if_pos fits, IntegerType.wrap_of_holds ⟨by omega, fits⟩]
    · rw [if_pos (by omega), if_neg fits]
  | true =>
    have below := low.2 (representable rfl)
    simp only [handleDigit, signed, limit, if_true]
    rw [← neg_neg (t.minimum + d), Int.neg_tdiv, Int.tdiv_eq_ediv_of_nonneg (by omega)]
    by_cases fits : v * 10 + d ≤ -t.minimum
    · rw [if_neg (by omega), if_pos fits, IntegerType.wrap_of_holds ⟨by omega, by omega⟩]
      congr 1
      omega
    · rw [if_pos (by omega), if_neg fits]

theorem le_digitsValue (all : digits.all characterIsDigit = true) (nonneg : 0 ≤ v) : v ≤ digitsValue v digits := by
  induction digits generalizing v with
  | nil => exact le_refl v
  | cons c digits ih =>
    simp only [List.all_cons, Bool.and_eq_true] at all
    have digit := digitOf_bounds all.1
    exact le_trans (by omega) (ih all.2 (v := v * 10 + digitOf c) (by omega))

theorem integerCastDigits_fitting (representable : negative = true → t.minimum < 0)
    (all : digits.all characterIsDigit = true) (nonneg : 0 ≤ v) (fits : v ≤ limit t negative) :
    integerCastDigits t negative exponent (digits ++ rest) moved (signed negative v) =
      if digitsValue v digits ≤ limit t negative then
        integerCastDigits t negative exponent rest (moved || !digits.isEmpty) (signed negative (digitsValue v digits))
      else none := by
  induction digits generalizing v moved with
  | nil => simp [digitsValue, fits]
  | cons c digits ih =>
    simp only [List.all_cons, Bool.and_eq_true] at all
    have digit := digitOf_bounds all.1
    have grows := le_digitsValue all.2 (v := v * 10 + digitOf c) (by omega)
    have unfolded : digitsValue v (c :: digits) = digitsValue (v * 10 + digitOf c) digits := rfl
    rw [List.cons_append, integerCastDigits, if_pos all.1, handleDigit_eq representable digit nonneg, unfolded]
    by_cases within : v * 10 + digitOf c ≤ limit t negative
    · simp [within, ih all.2 (by omega) within]
    · rw [if_neg within, if_neg (by omega)]

theorem integerCastDigits_wrapping (unsigned : t.minimum = 0) (all : digits.all characterIsDigit = true)
    (wrapped : n = t.wrap (-v)) : integerCastDigits t true exponent (digits ++ rest) moved n =
      integerCastDigits t true exponent rest (moved || !digits.isEmpty) (t.wrap (-digitsValue v digits)) := by
  induction digits generalizing n v moved with
  | nil => simp [digitsValue, wrapped]
  | cons c digits ih =>
    simp only [List.all_cons, Bool.and_eq_true] at all
    have digit := digitOf_bounds all.1
    have taken : handleDigit t true (t.wrap (-v)) (digitOf c) = some (t.wrap (-(v * 10 + digitOf c))) := by
      have held := (t.wrap_holds (-v)).1
      rw [handleDigit, if_pos rfl, Int.tdiv_eq_ediv_of_nonneg (by omega), if_neg (by omega)]
      simp only [IntegerType.wrap, unsigned, Int.sub_zero, add_zero]
      rw [Int.sub_emod, Int.mul_emod, Int.emod_emod, ← Int.mul_emod, ← Int.sub_emod]
      congr 2
      omega
    have unfolded : digitsValue v (c :: digits) = digitsValue (v * 10 + digitOf c) digits := rfl
    rw [List.cons_append, integerCastDigits, if_pos all.1, wrapped, taken, unfolded]
    exact (ih all.2 rfl).trans (by simp)

/-- What may stand behind the digits, or in their place. -/
theorem integerCastDigits_rest (ends : ∀ c, rest.head? = some c → characterIsDigit c = false)
    (plain : moved = true → rest.head? ≠ some (byte 'e') ∧ rest.head? ≠ some (byte 'E')) :
    integerCastDigits t negative exponent rest moved v =
      if rest.all characterIsSpace = true ∧ (moved = true ∨ rest ≠ []) then some v else none := by
  cases rest with
  | nil => simp [integerCastDigits]
  | cons c rest =>
    have digit := ends c rfl
    by_cases space : characterIsSpace c = true
    · have point : c ≠ byte '.' := by
        rintro rfl
        revert space
        decide
      simp [integerCastDigits, digit, space, point]
    · have letter : ¬ ((c = byte 'e' ∨ c = byte 'E') ∧ moved = true) := by simpa [and_comm, imp_not_comm] using plain
      simp [integerCastDigits, digit, space, letter]

/-- A sign with spaces behind it and no digit. -/
def SignOnly (val : List UInt8) : Prop :=
  ∃ negative sign before after, val = before ++ (sign ++ after) ∧ before.all characterIsSpace ∧ Sign negative sign ∧
    sign ≠ [] ∧ after ≠ [] ∧ after.all characterIsSpace

theorem signOnly_iff : SignOnly val ↔ unsignedOf val ≠ [] ∧ (unsignedOf val).all characterIsSpace := by
  constructor
  · intro ⟨negative, sign, before, after, split, spaces, signs, present, only⟩
    rw [split, (signs.found spaces fun none => absurd none present).2]
    exact only
  · intro ⟨present, spaces⟩
    obtain ⟨sign, body, signs⟩ := sign_unsigned val
    refine ⟨_, sign, val.takeWhile characterIsSpace, unsignedOf val, ?_, by simp, signs, ?_, present, spaces⟩
    · rw [← body, List.takeWhile_append_dropWhile]
    · rintro rfl
      obtain ⟨c, rest, first⟩ := List.exists_cons_of_ne_nil present
      rw [List.nil_append, first] at body
      have stopped : characterIsSpace c = false := head_dropWhile (by rw [body]; rfl)
      simp [first, stopped] at spaces

theorem holds_signed_iff (nonneg : 0 ≤ v) : t.Holds (signed negative v) ↔ v ≤ limit t negative := by
  have low : t.minimum ≤ 0 := by cases t <;> decide
  have high : 0 ≤ t.maximum := by cases t <;> decide
  cases negative <;> simp only [signed, limit, IntegerType.Holds] <;> constructor <;> intro <;> simp_all <;> omega

/-- The cast of digits, where the type has numbers of their sign. -/
theorem integerCastDigits_exact (representable : negative = true → t.minimum < 0)
    (all : digits.all characterIsDigit = true) (present : digits ≠ [])
    (finish : ∀ v, integerCastDigits t negative exponent rest true v =
      if rest.all characterIsSpace = true then some v else none) :
    integerCastDigits t negative exponent (digits ++ rest) false 0 = some n ↔
      (rest.all characterIsSpace = true ∧ n = signed negative (digitsValue 0 digits)) ∧ t.Holds n := by
  have start : (0 : Int) = signed negative 0 := by cases negative <;> rfl
  have room : 0 ≤ limit t negative := by cases t <;> cases negative <;> decide
  have nonneg := le_digitsValue all le_rfl
  rw [start, integerCastDigits_fitting representable all le_rfl room, ← start]
  have moved : (false || !digits.isEmpty) = true := by simpa using present
  rw [moved, finish]
  constructor
  · intro result
    obtain ⟨fits, spaces, rfl⟩ : digitsValue 0 digits ≤ limit t negative ∧ rest.all characterIsSpace = true ∧
      signed negative (digitsValue 0 digits) = n := by simpa using result
    exact ⟨⟨spaces, rfl⟩, (holds_signed_iff nonneg).mpr fits⟩
  · intro ⟨⟨spaces, value⟩, held⟩
    rw [value] at held ⊢
    rw [if_pos ((holds_signed_iff nonneg).mp held), if_pos spaces]

theorem integerCastDigits_negated (unsigned : t.minimum = 0) (all : digits.all characterIsDigit = true)
    (present : digits ≠ []) (finish : ∀ v, integerCastDigits t true exponent rest true v =
      if rest.all characterIsSpace = true then some v else none) :
    integerCastDigits t true exponent (digits ++ rest) false 0 =
      if rest.all characterIsSpace = true then some (t.wrap (-digitsValue 0 digits)) else none := by
  have start : 0 = t.wrap (-0) := by simp [IntegerType.wrap, unsigned]
  have moved : (false || !digits.isEmpty) = true := by simpa using present
  rw [integerCastDigits_wrapping unsigned all start, moved, finish]

/-- The cast of a string without an exponent is exact, or fails, unless digits are missing behind a sign or the type
is unsigned and the number negative. -/
theorem stringCastSwitch_exact_iff (handleExponent : IntegerType → Int → Int → Option Int) (t : IntegerType)
    (plain : ¬ HasExponent val) :
    (∀ n, stringCastSwitch handleExponent t val = some n ↔ Denotes val n ∧ t.Holds n) ↔
      ¬ SignOnly val ∧ ¬ (t.minimum = 0 ∧ ∃ n < 0, Denotes val n) := by
  have reads := reads_unsigned val
  have whole := List.takeWhile_append_dropWhile (p := characterIsDigit) (l := unsignedOf val)
  rw [stringCastSwitch_eq, signOnly_iff]
  simp only [denotes_iff]
  generalize (unsignedOf val).takeWhile characterIsDigit = digits at *
  have ends : ∀ c, ((unsignedOf val).dropWhile characterIsDigit).head? = some c → characterIsDigit c = false :=
    fun c => head_dropWhile
  generalize (unsignedOf val).dropWhile characterIsDigit = rest at *
  rw [← whole]
  have all : digits.all characterIsDigit = true := by obtain ⟨_, _, _, _, _, all⟩ := reads; exact all
  by_cases present : digits = []
  · rw [present, List.nil_append, integerCastDigits_rest ends (by simp)]
    generalize rest.all characterIsSpace = spaces
    cases spaces <;> by_cases empty : rest = [] <;> simp [empty]
  have finish : ∀ v, integerCastDigits t (negativeOf val) (exponentPart (handleExponent t)) rest true v =
      if rest.all characterIsSpace = true then some v else none := by
    intro v
    rw [integerCastDigits_rest ends fun _ => ?_]
    · simp
    · refine ⟨fun letter => ?_, fun letter => ?_⟩ <;> obtain ⟨after, rfl⟩ := List.head?_eq_some_iff.mp letter
      · exact plain ⟨_, digits, _, after, reads, present, .inl rfl⟩
      · exact plain ⟨_, digits, _, after, reads, present, .inr rfl⟩
  have digit : ¬ (digits ++ rest).all characterIsSpace = true := by
    obtain ⟨d, more, rfl⟩ := List.exists_cons_of_ne_nil present
    simp only [List.all_cons, Bool.and_eq_true] at all
    simp [not_space_of_digit all.1]
  have nonneg := le_digitsValue all le_rfl
  by_cases wraps : t.minimum = 0 ∧ negativeOf val = true
  · rw [wraps.2] at finish ⊢
    rw [integerCastDigits_negated wraps.1 all present finish]
    have held := (t.wrap_holds (-digitsValue 0 digits)).1
    cases spaces : rest.all characterIsSpace with
    | false => simp [digit]
    | true =>
      suffices exact : (∀ n, t.wrap (-digitsValue 0 digits) = n ↔ n = -digitsValue 0 digits ∧ t.Holds n) ↔
        digitsValue 0 digits ≤ 0 by simpa [digit, wraps.1, present, signed] using exact
      constructor
      · intro exact
        have negated := ((exact _).mp rfl).1
        omega
      · intro none n
        have fits : t.Holds (-digitsValue 0 digits) := by
          rw [le_antisymm none nonneg]
          cases t <;> decide
        rw [IntegerType.wrap_of_holds fits]
        exact ⟨fun same => ⟨same.symm, same ▸ fits⟩, fun same => same.1.symm⟩
  · have representable : negativeOf val = true → t.minimum < 0 := fun negative => by
      have low : t.minimum ≤ 0 := by cases t <;> decide
      exact lt_of_le_of_ne low fun zero => wraps ⟨zero, negative⟩
    simp only [integerCastDigits_exact representable all present finish, digit, present, ne_eq, not_false_eq_true,
      true_and, forall_const, true_iff]
    refine ⟨by simp, fun ⟨zero, n, below, _, value⟩ => ?_⟩
    have positive : negativeOf val = false := by simpa [zero] using wraps
    rw [value, positive] at below
    exact absurd nonneg (not_le.mpr below)

theorem HasExponent.letter (exponent : HasExponent val) : byte 'e' ∈ val ∨ byte 'E' ∈ val := by
  obtain ⟨_, _, e, _, ⟨_, _, rfl, _⟩, _, rfl | rfl⟩ := exponent <;> simp

theorem stringCastSwitch_exact_minus :
    ¬ HasExponent [byte '-', byte '7'] ∧
      ((∀ n, stringCastSwitch (fun _ _ _ => none) .tinyint [byte '-', byte '7'] = some n ↔
        Denotes [byte '-', byte '7'] n ∧ IntegerType.tinyint.Holds n) ↔
      ¬ SignOnly [byte '-', byte '7'] ∧
        ¬ (IntegerType.tinyint.minimum = 0 ∧ ∃ n < 0, Denotes [byte '-', byte '7'] n)) := by
  have plain : ¬ HasExponent [byte '-', byte '7'] := fun exponent => absurd exponent.letter (by decide)
  exact ⟨plain, stringCastSwitch_exact_iff _ _ plain⟩

/-- UTINYINT takes `-5` as 251, and every type takes a sign with a space behind it as 0. -/
theorem stringCastSwitch_inexact :
    (stringCastSwitch (fun _ _ _ => none) .utinyint [byte '-', byte '5'] = some 251 ∧
      Denotes [byte '-', byte '5'] (-5)) ∧
    stringCastSwitch (fun _ _ _ => none) .integer [byte '+', byte ' '] = some 0 ∧
      ¬ ∃ n, Denotes [byte '+', byte ' '] n := by
  simp only [denotes_iff]
  refine ⟨by decide, by decide, fun ⟨n, present, _⟩ => present (by decide)⟩

end BumbleBee.Types
