import BumbleBee.External.StoredFile
import Mathlib.Tactic.Linarith

/-!
Pruning by statistics. A row group carries the least and the greatest value of its integer
columns, and a scan skips a group in which a conjunct `column op constant` of its WHERE
cannot hold between them. The pruning compares doubles, the WHERE compares at the common
type of the two sides. Where neither rounds a value, no group with a selected row is skipped.
-/

namespace BumbleBee.External
open BumbleBee.Types

inductive ComparisonType where
  | equal | notEqual | lessThan | lessThanOrEqual | greaterThan | greaterThanOrEqual
  deriving DecidableEq

/-- `FlipComparison`. -/
def ComparisonType.flip : ComparisonType → ComparisonType
  | .lessThan => .greaterThan
  | .lessThanOrEqual => .greaterThanOrEqual
  | .greaterThan => .lessThan
  | .greaterThanOrEqual => .lessThanOrEqual
  | op => op

def ComparisonType.holds (op : ComparisonType) (x y : Number) : Bool :=
  match op with
  | .equal => x.same y
  | .notEqual => !x.same y
  | .lessThan => x.less y
  | .lessThanOrEqual => x.less y || x.same y
  | .greaterThan => y.less x
  | .greaterThanOrEqual => y.less x || x.same y

theorem ComparisonType.holds_finite (op : ComparisonType) (p q : ℚ) :
    op.holds (.finite p) (.finite q) = match op with
      | .equal => decide (p = q)
      | .notEqual => decide (p ≠ q)
      | .lessThan => decide (p < q)
      | .lessThanOrEqual => decide (p ≤ q)
      | .greaterThan => decide (q < p)
      | .greaterThanOrEqual => decide (q ≤ p) := by
  have same : (Number.finite p).same (.finite q) = decide (p = q) := by
    by_cases equal : p = q <;> simp [Number.same, equal]
  cases op <;> simp [holds, Number.less, same, le_iff_lt_or_eq, eq_comm]

theorem ComparisonType.holds_flip (op : ComparisonType) (p q : ℚ) :
    op.flip.holds (.finite p) (.finite q) = op.holds (.finite q) (.finite p) := by
  rw [holds_finite, holds_finite]
  cases op <;> simp [flip, eq_comm]

/-- `IsPlainNumericTypeId`. -/
def plainNumeric : LogicalType → Option NumericType
  | .integral t => some (.integral t)
  | .floating t => some (.floating t)
  | _ => none

def typeSize : IntegerType → Nat
  | .tinyint | .utinyint => 1
  | .smallint | .usmallint => 2
  | .integer | .uinteger => 4
  | .bigint | .ubigint => 8

/-- `CommonType` of two plain numbers. -/
def commonType : NumericType → NumericType → NumericType
  | .floating .double, _ | _, .floating .double => .floating .double
  | .floating .float, _ | _, .floating .float => .floating .float
  | .integral left, .integral right => .integral (if typeSize right ≤ typeSize left then left else right)

/-- A WHERE: conjunctions, comparisons of a column and a constant that is not NULL, with the constant on the
left when `flipped`, and other tests of a row. A comparison with a side that is no plain number is `mixed`. -/
inductive WhereExpression where
  | and (left right : WhereExpression)
  | compare (flipped : Bool) (column : Nat) (op : ComparisonType) (type : LogicalType) (constant : Datum)
    (mixed : Datum → Bool)
  | other (test : Row Datum → Bool)

structure ZonePredicate where
  column : Nat
  op : ComparisonType
  type : LogicalType
  constant : Datum

/-- The least and the greatest of the values that are not NULL. -/
def computeNumericStats (cells : List (Option Datum)) : Option (Int × Int) :=
  let values := cells.reduceOption.map intOf
  values.min?.bind fun low => values.max?.map fun high => (low, high)

def numericStatsFor (t : ColumnType) (cells : List (Option Datum)) : Option (Int × Int) :=
  match t with
  | .tinyint | .smallint | .integer | .bigint => computeNumericStats cells
  | _ => none

/-- The test of one predicate, on doubles. -/
def ZonePredicate.canMatch (p : ZonePredicate) (range : Int × Int) : Bool :=
  let low := FloatType.double.convert (.finite range.1)
  let high := FloatType.double.convert (.finite range.2)
  let c := FloatType.double.convert p.constant.number
  match p.op with
  | .equal => ComparisonType.greaterThanOrEqual.holds c low && ComparisonType.lessThanOrEqual.holds c high
  | .lessThan => low.less c
  | .lessThanOrEqual => ComparisonType.lessThanOrEqual.holds low c
  | .greaterThan => c.less high
  | .greaterThanOrEqual => ComparisonType.greaterThanOrEqual.holds high c
  | .notEqual => true

def rowGroupCanMatch (schema : TableSchema) (predicates : List ZonePredicate) (group : List (Row Datum)) : Bool :=
  predicates.all fun p =>
    match schema.columns[p.column]? with
    | none => true
    | some t =>
      match plainNumeric t.logical, plainNumeric p.type, numericStatsFor t (columnOf p.column group) with
      | some _, some _, some range => p.canMatch range
      | _, _, _ => true

namespace WhereExpression

def extractZonePredicates : WhereExpression → List ZonePredicate
  | .and left right => left.extractZonePredicates ++ right.extractZonePredicates
  | .compare flipped column op type constant _ =>
    if op = .notEqual then [] else [⟨column, if flipped then op.flip else op, type, constant⟩]
  | .other _ => []

variable (ctx : CastContext) (schema : TableSchema)

def compareAt (op : ComparisonType) (common : NumericType) (left right : Datum) : Bool :=
  op.holds (ctx.staticCast common left).number (ctx.staticCast common right).number

/-- Whether the WHERE is TRUE of a row. -/
def eval : WhereExpression → Row Datum → Bool
  | .and left right, row => left.eval row && right.eval row
  | .compare flipped column op type constant mixed, row =>
    match schema.columns[column]?, (row[column]?).getD none with
    | some t, some v =>
      match plainNumeric t.logical, plainNumeric type with
      | some l, some r =>
        if flipped then compareAt ctx op (commonType r l) constant v else compareAt ctx op (commonType l r) v constant
      | _, _ => mixed v
    | _, _ => false
  | .other test, row => test row

/-- Neither the cast to the common type nor the one to `double` changes the value. -/
structure Unrounded (common : NumericType) (x : Datum) (q : ℚ) : Prop where
  value : x.number = .finite q
  cast : (ctx.staticCast common x).number = .finite q
  double : FloatType.double.convert (.finite q) = .finite q

/-- No comparison of a column with a constant rounds, in the rows given. -/
def Exact (rows : List (Row Datum)) : WhereExpression → Prop
  | .and left right => left.Exact rows ∧ right.Exact rows
  | .compare flipped column _ type constant _ => ∀ t l r, schema.columns[column]? = some t →
    plainNumeric t.logical = some l → plainNumeric type = some r →
    ∃ common, common = (if flipped then commonType r l else commonType l r) ∧ (∃ q, Unrounded ctx common constant q) ∧
      ∀ row ∈ rows, ∀ v, (row[column]?).getD none = some v → ∃ n : Int, v = .integral n ∧ Unrounded ctx common v n
  | .other _ => True

end WhereExpression

theorem numericStatsFor_spec {t : ColumnType} {cells : List (Option Datum)} {low high : Int}
    (found : numericStatsFor t cells = some (low, high)) :
    (∃ v, some v ∈ cells ∧ intOf v = low) ∧ (∃ v, some v ∈ cells ∧ intOf v = high) ∧
      ∀ v, some v ∈ cells → low ≤ intOf v ∧ intOf v ≤ high := by
  have computed : computeNumericStats cells = some (low, high) := by
    unfold numericStatsFor at found
    split at found
    · exact found
    · exact found
    · exact found
    · exact found
    · cases found
  obtain ⟨least, isLeast, rest⟩ := Option.bind_eq_some_iff.mp computed
  obtain ⟨greatest, isGreatest, ends⟩ := Option.map_eq_some_iff.mp rest
  cases ends
  rw [List.min?_eq_some_iff] at isLeast
  rw [List.max?_eq_some_iff] at isGreatest
  have member : ∀ n, n ∈ cells.reduceOption.map intOf ↔ ∃ v, some v ∈ cells ∧ intOf v = n := by
    intro n
    simp only [List.mem_map, List.reduceOption_mem_iff]
  rw [member] at isLeast isGreatest
  refine ⟨isLeast.1, isGreatest.1, ?_⟩
  intro v inside
  have here := (member _).mpr ⟨v, inside, rfl⟩
  exact ⟨isLeast.2 _ here, isGreatest.2 _ here⟩

section Pruning

variable {ctx : CastContext} {schema : TableSchema} {group : List (Row Datum)} {row : Row Datum}

/-- A comparison that some value between the ends satisfies is not ruled out by them. -/
theorem ZonePredicate.canMatch_of_holds {p : ZonePredicate} {low high n : Int} {q : ℚ}
    (constant : p.constant.number = .finite q) (exact : FloatType.double.convert (.finite q) = .finite q)
    (below : FloatType.double.convert (.finite low) = .finite low)
    (above : FloatType.double.convert (.finite high) = .finite high) (between : low ≤ n ∧ n ≤ high)
    (holds : p.op.holds (.finite n) (.finite q) = true) : p.canMatch (low, high) = true := by
  have least : (low : ℚ) ≤ n := by exact_mod_cast between.1
  have greatest : (n : ℚ) ≤ high := by exact_mod_cast between.2
  rw [ComparisonType.holds_finite] at holds
  simp only [ZonePredicate.canMatch, constant, exact, below, above, ComparisonType.holds_finite, Number.less]
  cases op : p.op <;> simp only [op, decide_eq_true_eq, Bool.and_eq_true] at holds ⊢
  · exact ⟨holds ▸ least, holds ▸ greatest⟩
  all_goals linarith

theorem WhereExpression.compare_selected {flipped : Bool} {column : Nat} {op : ComparisonType} {type : LogicalType}
    {constant : Datum} {mixed : Datum → Bool}
    (exact : (compare flipped column op type constant mixed).Exact ctx schema group) (member : row ∈ group)
    (selected : (compare flipped column op type constant mixed).eval ctx schema row = true) :
    rowGroupCanMatch schema [⟨column, if flipped then op.flip else op, type, constant⟩] group = true := by
  rw [rowGroupCanMatch, List.all_cons, List.all_nil, Bool.and_true]
  simp only [eval] at selected
  cases typed : schema.columns[column]? with
  | none => rfl
  | some t =>
    simp only [typed] at selected ⊢
    split
    · next l r range left right found =>
      obtain ⟨common, chosen, ⟨q, constantly⟩, cells⟩ := exact t l r typed left right
      cases cell : (row[column]?).getD none with
      | none => simp [cell] at selected
      | some v =>
        obtain ⟨low, high⟩ := range
        obtain ⟨⟨least, isCell, rfl⟩, ⟨greatest, isCell', rfl⟩, between⟩ := numericStatsFor_spec found
        have unrounded : ∀ x, some x ∈ columnOf column group → ∃ n : Int, x = .integral n ∧ Unrounded ctx common x n := by
          intro x inside
          obtain ⟨other, present, same⟩ := List.mem_map.mp inside
          exact cells other present x same
        have inside : some v ∈ columnOf column group := List.mem_map.mpr ⟨row, member, cell⟩
        obtain ⟨n, rfl, value⟩ := unrounded v inside
        obtain ⟨a, rfl, first⟩ := unrounded least isCell
        obtain ⟨b, rfl, last⟩ := unrounded greatest isCell'
        refine ZonePredicate.canMatch_of_holds (n := n) constantly.value constantly.double first.double last.double
          (between _ inside) ?_
        simp only [cell, left, right, compareAt] at selected
        cases flipped with
        | true =>
          rw [if_pos rfl] at chosen selected
          rw [← chosen, constantly.cast, value.cast] at selected
          rw [if_pos rfl, ComparisonType.holds_flip]
          exact selected
        | false =>
          rw [if_neg Bool.false_ne_true] at chosen selected
          rw [← chosen, constantly.cast, value.cast] at selected
          exact selected
    · rfl

/-- No row group with a row of which the WHERE is TRUE is skipped. -/
theorem rowGroupCanMatch_of_selected {e : WhereExpression} (exact : e.Exact ctx schema group) (member : row ∈ group)
    (selected : e.eval ctx schema row = true) : rowGroupCanMatch schema e.extractZonePredicates group = true := by
  induction e with
  | and left right ihLeft ihRight =>
    rw [WhereExpression.eval, Bool.and_eq_true] at selected
    rw [WhereExpression.extractZonePredicates, rowGroupCanMatch, List.all_append, Bool.and_eq_true]
    exact ⟨ihLeft exact.1 selected.1, ihRight exact.2 selected.2⟩
  | compare flipped column op type constant mixed =>
    rw [WhereExpression.extractZonePredicates]
    split
    · rfl
    · exact WhereExpression.compare_selected exact member selected
  | other test => rfl

end Pruning

end BumbleBee.External
