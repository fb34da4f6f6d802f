import BumbleBee.Join.HashJoinBuild

/-!
SEMI and ANTI joins of `PhysicalHashJoin`: a probe chunk is reduced to the rows that
match, or to those that do not. A null-aware ANTI join is `NOT IN`. Its rules for
NULL and for an empty build side give the three-valued truth of `NOT IN`.
-/

namespace BumbleBee.Join
open HashTable

variable {B P : Type}

/-- A SEMI or ANTI join; the planner makes null-aware ones over a single key. -/
structure SemiAntiJoin (B P : Type) extends HashJoin B P where
  semiOrAnti : joinType = .semi ∨ joinType = .anti
  single : nullAware = true → keyCount = 1

namespace SemiAntiJoin

variable (join : SemiAntiJoin B P)

def probeRow (p : P) : InputRow := ⟨hashKeys join.hash (join.probeKeys p), join.probeKeys p⟩

/-- Whether probe row `i` is emitted, by its flags. -/
def emit (dropNullProbe matched nullKey : Bool) : Bool :=
  if join.joinType = .anti then !matched && (!dropNullProbe || !nullKey) else matched

/-- The flags of a chunk's rows; a table without rows is not probed. -/
def probeFlags (t : PRLHashTable) (input : List P) : Except CallError ProbeOutput :=
  if 0 < t.count then
    t.probe (input.map join.probeRow) (nonNullKeyRows (input.map join.probeKeys)) noOutput
  else .ok noOutput

/-- The rows of a chunk that are emitted. -/
def outSel (t : PRLHashTable) (input : List P) (output : ProbeOutput) : List Nat :=
  (List.range input.length).filter fun i =>
    join.emit (join.nullAware && decide (0 < t.count)) (output.matched i)
      (!(nonNullKeyRows (input.map join.probeKeys)).contains i)

/-- One probe chunk. -/
def execute (t : PRLHashTable) (input : List P) : Except CallError (List P) :=
  (join.probeFlags t input).map fun output => slice input (join.outSel t input output)

def executeAll (t : PRLHashTable) : List (List P) → Except CallError (List P)
  | [] => .ok []
  | input :: chunks => do
    let first ← join.execute t input
    let rest ← executeAll t chunks
    .ok (first ++ rest)

/-- The join of the build rows and the probe rows, each split among workers and into chunks. -/
def run (build : List (List (List B))) (probe : List (List (List P))) : Except CallError (List P) :=
  match join.finalize (join.build 0 ⟨none, false⟩ build) with
  | (_, .noOutputPossible) => .ok []
  | (t, .ready) => join.executeAll t probe.flatten

end SemiAntiJoin

/-- The comparison `x = y` in three-valued logic, `none` for unknown. -/
def equal3 (x y : Cell) : Option Bool := x.bind fun v => y.map (valueEqual v)

def or3 : Option Bool → Option Bool → Option Bool
  | some true, _ => some true
  | _, some true => some true
  | some false, some false => some false
  | _, _ => none

def not3 (truth : Option Bool) : Option Bool := truth.map (!·)

/-- The predicate `x IN (ys)`. -/
def in3 (x : Cell) (ys : List Cell) : Option Bool := ys.foldr (fun y truth => or3 (equal3 x y) truth) (some false)

def notIn3 (x : Cell) (ys : List Cell) : Option Bool := not3 (in3 x ys)

/-- The build rows have a row with the key of `p`. -/
def SemiAntiJoin.hasMatch (join : SemiAntiJoin B P) (build : List B) (p : P) : Bool :=
  build.any fun b => equalNonNullKeys join.keyCount (join.probeKeys p) (join.buildKeys b)

/-- The probe rows the join is to keep. -/
def SemiAntiJoin.keeps (join : SemiAntiJoin B P) (build : List B) (p : P) : Bool :=
  if join.joinType = .semi then join.hasMatch build p
  else if join.nullAware then
    notIn3 (cellAt (join.probeKeys p) 0) (build.map fun b => cellAt (join.buildKeys b) 0) == some true
  else !join.hasMatch build p

section Keys

variable {keyCount : Nat} {a b : Row}

theorem cellAt_append {key more : Row} {column : Nat} (inside : column < key.length) :
    cellAt (key ++ more) column = cellAt key column := by
  rw [cellAt, cellAt, List.getD_eq_getElem?_getD, List.getD_eq_getElem?_getD, List.getElem?_append_left inside]

theorem equalNonNullKeys_iff : equalNonNullKeys keyCount a b ↔
    ∀ column < keyCount, ∃ v w, cellAt a column = some v ∧ cellAt b column = some w ∧ valueEqual v w := by
  rw [equalNonNullKeys, List.all_eq_true]
  constructor
  · intro all column small
    have equal := all column (List.mem_range.mpr small)
    cases left : cellAt a column with
    | none =>
      rw [left] at equal
      cases equal
    | some v =>
      cases right : cellAt b column with
      | none =>
        rw [left, right] at equal
        cases equal
      | some w =>
        rw [left, right] at equal
        exact ⟨v, w, rfl, rfl, equal⟩
  · intro all column member
    obtain ⟨v, w, left, right, equal⟩ := all column (List.mem_range.mp member)
    rw [left, right]
    exact equal

theorem equalNonNullKeys_append {key more : Row} (sized : key.length = keyCount) :
    equalNonNullKeys keyCount a (key ++ more) = equalNonNullKeys keyCount a key := by
  apply Bool.eq_iff_iff.mpr
  rw [equalNonNullKeys_iff, equalNonNullKeys_iff]
  apply forall₂_congr
  intro column small
  rw [cellAt_append (sized.symm ▸ small)]

theorem equalNonNullKeys_same (equal : equalNonNullKeys keyCount a b) (left : a.length = keyCount)
    (right : b.length = keyCount) : a = b ∧ nonNull a := by
  have cells := equalNonNullKeys_iff.mp equal
  have same : a = b := by
    apply List.ext_getElem (left.trans right.symm)
    intro column inside inside'
    obtain ⟨v, w, first, second, values⟩ := cells column (left ▸ inside)
    rw [cellAt, List.getD_eq_getElem?_getD, List.getElem?_eq_getElem inside, Option.getD_some] at first
    rw [cellAt, List.getD_eq_getElem?_getD, List.getElem?_eq_getElem inside', Option.getD_some] at second
    rw [first, second, valueEqual_eq values]
  refine ⟨same, ?_⟩
  apply List.all_eq_true.mpr
  intro cell member
  obtain ⟨column, inside, rfl⟩ := List.mem_iff_getElem.mp member
  obtain ⟨v, w, first, -, -⟩ := cells column (left ▸ inside)
  rw [cellAt, List.getD_eq_getElem?_getD, List.getElem?_eq_getElem inside, Option.getD_some] at first
  rw [first]
  rfl

end Keys

section Hashing

/-- A row with its key in front and the hash of the key. -/
def Hashed (join : HashJoin B P) (row : InputRow) : Prop :=
  ∃ key more, key.length = join.keyCount ∧ row = ⟨hashKeys join.hash key, key ++ more⟩

theorem hashed_buildRow (join : HashJoin B P) (b : B) : Hashed join (join.buildRow b) :=
  ⟨join.buildKeys b, join.liveBuildColumns b, join.buildSized b, rfl⟩

theorem hashed_probeRow (join : SemiAntiJoin B P) (p : P) : Hashed join.toHashJoin (join.probeRow p) :=
  ⟨join.probeKeys p, [], join.probeSized p, by rw [List.append_nil]; rfl⟩

theorem hashed_consistent {join : HashJoin B P} {pool : List InputRow} (hashed : ∀ row ∈ pool, Hashed join row) :
    Consistent ⟨join.keyCount, false⟩ pool := by
  intro a first b second equal
  obtain ⟨key, more, sized, rfl⟩ := hashed a first
  obtain ⟨key', more', sized', rfl⟩ := hashed b second
  rw [keyEqual_nonNull, equalNonNullKeys_iff] at equal
  have keys : equalNonNullKeys join.keyCount key key' := by
    apply equalNonNullKeys_iff.mpr
    intro column small
    have cells := equal column small
    rwa [cellAt_append (sized.symm ▸ small), cellAt_append (sized'.symm ▸ small)] at cells
  rw [(equalNonNullKeys_same keys sized sized').1]

end Hashing

namespace SemiAntiJoin

variable {join : SemiAntiJoin B P} {t : PRLHashTable} {seen : List B} {flag : Bool}

theorem hasMatch_iff (holds : join.Holds t flag seen) (p : P) :
    join.hasMatch seen p ↔ ∃ entry ∈ t.rows, equalNonNullKeys join.keyCount (join.probeKeys p) entry.row.cells := by
  rw [hasMatch, List.any_eq_true]
  constructor
  · rintro ⟨b, member, equal⟩
    obtain ⟨same, valid⟩ := equalNonNullKeys_same equal (join.probeSized p) (join.buildSized b)
    have stored : join.buildRow b ∈ t.rows.map HTEntry.input := by
      rw [holds.stores]
      exact List.mem_map_of_mem (List.mem_filter.mpr ⟨member, same ▸ valid⟩)
    obtain ⟨entry, here, input⟩ := List.mem_map.mp stored
    refine ⟨entry, here, ?_⟩
    have cells : entry.row.cells = join.buildKeys b ++ join.liveBuildColumns b := congrArg InputRow.cells input
    rw [cells, equalNonNullKeys_append (join.buildSized b)]
    exact equal
  · rintro ⟨entry, here, equal⟩
    have stored := List.mem_map_of_mem (f := HTEntry.input) here
    rw [holds.stores] at stored
    obtain ⟨b, valid, input⟩ := List.mem_map.mp stored
    have cells : entry.row.cells = join.buildKeys b ++ join.liveBuildColumns b := congrArg InputRow.cells input.symm
    rw [cells, equalNonNullKeys_append (join.buildSized b)] at equal
    exact ⟨b, List.mem_of_mem_filter valid, equal⟩

theorem any_joinPairs {layout : KeyLayout} {rows : List HTEntry} {keys : Chunk} {sel : List Nat}
    {pairs : List (StoredRow × Nat)} (same : pairs.Perm (joinPairs layout rows keys sel)) (i : Nat) :
    (pairs.any fun pair => pair.2 == i) = true ↔
      i ∈ sel ∧ ∃ entry ∈ rows, layout.keyEqual (keyAt keys i).cells entry.row.cells := by
  rw [List.any_eq_true]
  constructor
  · rintro ⟨pair, member, row⟩
    rw [same.mem_iff, joinPairs, List.mem_flatMap] at member
    obtain ⟨j, selected, found⟩ := member
    obtain ⟨entry, hit, rfl⟩ := List.mem_map.mp found
    have here : j = i := beq_iff_eq.mp row
    subst here
    exact ⟨selected, entry, (List.mem_filter.mp hit).1, (List.mem_filter.mp hit).2⟩
  · rintro ⟨selected, entry, member, equal⟩
    refine ⟨(entry.row, i), ?_, beq_self_eq_true i⟩
    rw [same.mem_iff, joinPairs, List.mem_flatMap]
    exact ⟨i, selected, List.mem_map_of_mem (List.mem_filter.mpr ⟨member, equal⟩)⟩

theorem probe_flags (holds : join.Holds t flag seen) (indexed : t.Indexed)
    (built : t.directoryStale = false) (input : List P) :
    ∃ output, t.probe (input.map join.probeRow) (nonNullKeyRows (input.map join.probeKeys)) noOutput = .ok output ∧
      ∀ i p, input[i]? = some p → output.matched i = join.hasMatch seen p := by
  have hashed : ∀ row ∈ t.rows.map HTEntry.input ++ input.map join.probeRow, Hashed join.toHashJoin row := by
    intro row member
    rw [holds.stores] at member
    rcases List.mem_append.mp member with stored | probed
    · obtain ⟨b, -, rfl⟩ := List.mem_map.mp stored
      exact hashed_buildRow join.toHashJoin b
    · obtain ⟨p, -, rfl⟩ := List.mem_map.mp probed
      exact hashed_probeRow join p
  have inside : ∀ row ∈ nonNullKeyRows (input.map join.probeKeys), row < (input.map join.probeRow).length := by
    intro row member
    have small := (mem_nonNullKeyRows.mp member).1
    rwa [List.length_map] at small ⊢
  have consistent : Consistent t.layout (t.rows.map HTEntry.input ++ input.map join.probeRow) :=
    holds.layout ▸ hashed_consistent hashed
  obtain ⟨output, new, called, -, pairs, flags⟩ := indexed.probe built consistent
    (fun entry member => List.mem_append_left _ (List.mem_map_of_mem member))
    (nonNullKeyRows (input.map join.probeKeys)) (fun row member => keyAt_mem (inside row member)) noOutput
  refine ⟨output, called, ?_⟩
  intro i p read
  have key : (keyAt (input.map join.probeRow) i).cells = join.probeKeys p := by
    rw [keyAt, List.getD_eq_getElem?_getD, List.getElem?_map, read]
    rfl
  have plain : noOutput.matched i = false := rfl
  rw [flags, plain, Bool.false_or, Bool.eq_iff_iff, any_joinPairs pairs, hasMatch_iff holds, key, holds.layout]
  constructor
  · rintro ⟨-, entry, member, equal⟩
    exact ⟨entry, member, keyEqual_nonNull _ _ _ ▸ equal⟩
  · rintro ⟨entry, member, equal⟩
    refine ⟨?_, entry, member, (keyEqual_nonNull _ _ _).symm ▸ equal⟩
    obtain ⟨b, -, matching⟩ := List.any_eq_true.mp ((hasMatch_iff holds p).mpr ⟨entry, member, equal⟩)
    have valid := (equalNonNullKeys_same matching (join.probeSized p) (join.buildSized b)).2
    refine mem_nonNullKeyRows.mpr ⟨?_, ?_⟩
    · rw [List.length_map]
      exact (List.getElem?_eq_some_iff.mp read).1
    · rw [nonNullAt_map input join.probeKeys read]
      exact valid

theorem execute_eq (holds : join.Holds t flag seen) (ready : 0 < t.count → t.Indexed ∧ t.directoryStale = false)
    (input : List P) :
    join.execute t input = .ok (input.filter fun p =>
      join.emit (join.nullAware && decide (0 < t.count)) (join.hasMatch seen p) (!nonNull (join.probeKeys p))) := by
  have probed : ∃ output, join.probeFlags t input = .ok output ∧
      ∀ i p, input[i]? = some p → output.matched i = join.hasMatch seen p := by
    rw [probeFlags]
    split_ifs with filled
    · exact probe_flags holds (ready filled).1 (ready filled).2 input
    · refine ⟨noOutput, rfl, ?_⟩
      intro i p read
      have empty : t.rows = [] := List.length_eq_zero_iff.mp (Nat.eq_zero_of_not_pos filled)
      have unmatched : ¬ join.hasMatch seen p := by
        rw [hasMatch_iff holds, empty]
        rintro ⟨entry, member, -⟩
        cases member
      exact (Bool.not_eq_true _ ▸ unmatched).symm
  obtain ⟨output, called, flags⟩ := probed
  rw [execute, called, Except.map]
  refine congrArg Except.ok (slice_filter input _ _ ?_)
  intro i p read
  have valid : (nonNullKeyRows (input.map join.probeKeys)).contains i = nonNull (join.probeKeys p) := by
    rw [Bool.eq_iff_iff, List.contains_iff_mem, mem_nonNullKeyRows, nonNullAt_map input join.probeKeys read,
      List.length_map]
    exact and_iff_right (List.getElem?_eq_some_iff.mp read).1
  rw [flags i p read, valid]

theorem executeAll_eq {keep : P → Bool} (each : ∀ input, join.execute t input = .ok (input.filter keep))
    (chunks : List (List P)) : join.executeAll t chunks = .ok (chunks.flatten.filter keep) := by
  induction chunks with
  | nil => rfl
  | cons input chunks ih =>
    rw [executeAll, each, ih, List.flatten_cons, List.filter_append]
    rfl

end SemiAntiJoin

section ThreeValued

theorem or3_eq_false {a b : Option Bool} : or3 a b = some false ↔ a = some false ∧ b = some false := by
  rcases a with _ | _ | _ <;> rcases b with _ | _ | _ <;> decide

theorem in3_eq_false {x : Cell} {ys : List Cell} : in3 x ys = some false ↔ ∀ y ∈ ys, equal3 x y = some false := by
  induction ys with
  | nil => exact ⟨fun _ y member => (List.not_mem_nil member).elim, fun _ => rfl⟩
  | cons y ys ih => rw [in3, List.foldr_cons, or3_eq_false, ← in3, ih, List.forall_mem_cons]

theorem notIn3_eq_true {x : Cell} {ys : List Cell} : notIn3 x ys = some true ↔ ∀ y ∈ ys, equal3 x y = some false := by
  rw [← in3_eq_false, notIn3]
  rcases in3 x ys with _ | _ | _ <;> decide

end ThreeValued

section SingleKey

variable {a b : Row}

theorem nonNull_single (sized : a.length = 1) : nonNull a = (cellAt a 0).isSome := by
  obtain ⟨cell, rfl⟩ := List.length_eq_one_iff.mp sized
  exact Bool.and_true _

theorem equal3_single (left : nonNull a = true) (right : nonNull b = true) (sizedA : a.length = 1)
    (sizedB : b.length = 1) : equal3 (cellAt a 0) (cellAt b 0) = some (equalNonNullKeys 1 a b) := by
  rw [nonNull_single sizedA] at left
  rw [nonNull_single sizedB] at right
  obtain ⟨v, first⟩ := Option.isSome_iff_exists.mp left
  obtain ⟨w, second⟩ := Option.isSome_iff_exists.mp right
  rw [equalNonNullKeys, List.range_one, List.all_cons, List.all_nil, Bool.and_true, first, second]
  rfl

theorem equal3_null_left (null : nonNull a = false) (sized : a.length = 1) (y : Cell) :
    equal3 (cellAt a 0) y = none := by
  rw [nonNull_single sized, Option.isSome_eq_false_iff, Option.isNone_iff_eq_none] at null
  rw [null]
  rfl

theorem equal3_null_right (null : nonNull b = false) (sized : b.length = 1) (x : Cell) :
    equal3 x (cellAt b 0) = none := by
  rw [nonNull_single sized, Option.isSome_eq_false_iff, Option.isNone_iff_eq_none] at null
  rw [null]
  cases x <;> rfl

end SingleKey

namespace SemiAntiJoin

variable {join : SemiAntiJoin B P} {seen : List B} {flag : Bool}

theorem notIn_of_null (single : join.keyCount = 1) (null : (seen.any fun b => !nonNull (join.buildKeys b)) = true)
    (p : P) :
    (notIn3 (cellAt (join.probeKeys p) 0) (seen.map fun b => cellAt (join.buildKeys b) 0) == some true) = false := by
  apply Bool.eq_false_iff.mpr
  intro kept
  obtain ⟨b, member, missing⟩ := List.any_eq_true.mp null
  have unequal := notIn3_eq_true.mp (beq_iff_eq.mp kept) _ (List.mem_map_of_mem member)
  rw [equal3_null_right (Bool.not_eq_true' _ ▸ missing) ((join.buildSized b).trans single)] at unequal
  cases unequal

/-- Without a NULL on a build side that has rows, `NOT IN` is true of the rows with a key that matches nothing. -/
theorem notIn_of_valid (single : join.keyCount = 1) (valid : ∀ b ∈ seen, nonNull (join.buildKeys b) = true)
    (rows : seen ≠ []) (p : P) :
    (notIn3 (cellAt (join.probeKeys p) 0) (seen.map fun b => cellAt (join.buildKeys b) 0) == some true) =
      (!join.hasMatch seen p && nonNull (join.probeKeys p)) := by
  have sized := (join.probeSized p).trans single
  rw [Bool.eq_iff_iff, beq_iff_eq, notIn3_eq_true, List.forall_mem_map, Bool.and_eq_true, Bool.not_eq_true',
    hasMatch, List.any_eq_false]
  cases present : nonNull (join.probeKeys p) with
  | false =>
    obtain ⟨b, member⟩ := List.exists_mem_of_ne_nil seen rows
    constructor
    · intro all
      have unequal := all b member
      rw [equal3_null_left present sized] at unequal
      cases unequal
    · rintro ⟨-, absurd'⟩
      cases absurd'
  | true =>
    rw [and_iff_left rfl]
    apply forall₂_congr
    intro b member
    rw [equal3_single present (valid b member) sized ((join.buildSized b).trans single), single,
      Option.some.injEq, Bool.not_eq_true]

variable {t : PRLHashTable}

section
variable (holds : join.Holds t flag seen)
include holds

theorem holds_buildDirectory : join.Holds t.buildDirectory flag seen :=
  ⟨holds.layout, holds.stores, holds.nulls⟩

theorem no_rows (empty : t.count = 0) (p : P) : join.hasMatch seen p = false := by
  apply Bool.eq_false_iff.mpr
  rw [Ne, hasMatch_iff holds, List.length_eq_zero_iff.mp empty]
  rintro ⟨entry, member, -⟩
  cases member

theorem rows_of_count (filled : t.count ≠ 0) : seen ≠ [] := by
  intro nothing
  have stores := holds.stores
  rw [nothing] at stores
  exact filled (List.length_eq_zero_iff.mpr (List.map_eq_nil_iff.mp stores))

end

theorem valid_of_unmarked (holds : join.Holds t false seen) : ∀ b ∈ seen, nonNull (join.buildKeys b) = true := by
  intro b member
  have nulls := List.any_eq_false.mp holds.nulls.symm b member
  rwa [Bool.not_eq_true', Bool.not_eq_false] at nulls

theorem nothing_of_count (holds : join.Holds t false seen) (empty : t.count = 0) : seen = [] := by
  have stores := holds.stores
  rw [List.length_eq_zero_iff.mp empty] at stores
  have none' := List.filter_eq_nil_iff.mp (List.map_eq_nil_iff.mp stores.symm)
  apply List.eq_nil_iff_forall_not_mem.mpr
  intro b member
  exact none' b member (valid_of_unmarked holds b member)

/-- What the flags let through is what the join is to keep, once no NULL forbids all output. -/
theorem emit_eq_keeps (holds : join.Holds t flag seen)
    (open' : ¬ (join.joinType = .anti ∧ join.nullAware ∧ flag)) (p : P) :
    join.emit (join.nullAware && decide (0 < t.count)) (join.hasMatch seen p) (!nonNull (join.probeKeys p)) =
      join.keeps seen p := by
  rw [emit, keeps]
  rcases join.semiOrAnti with semi | anti
  · rw [semi, if_neg (by decide), if_pos rfl]
  · rw [anti, if_pos rfl, if_neg (by decide)]
    cases aware : join.nullAware with
    | false => rw [if_neg Bool.false_ne_true, Bool.false_and, Bool.not_false, Bool.true_or, Bool.and_true]
    | true =>
      have unmarked : flag = false := Bool.eq_false_iff.mpr fun marked => open' ⟨anti, aware, marked⟩
      subst unmarked
      rw [if_pos rfl, Bool.true_and, Bool.not_not]
      by_cases filled : t.count = 0
      · rw [nothing_of_count holds filled, filled]
        rfl
      · rw [notIn_of_valid (join.single aware) (valid_of_unmarked holds) (rows_of_count holds filled) p,
          decide_eq_true (Nat.pos_of_ne_zero filled), Bool.not_true, Bool.false_or]

end SemiAntiJoin

/-- SEMI, ANTI and null-aware ANTI joins keep the probe rows that SQL membership keeps, in order and each once,
however the two sides are split among workers and into chunks. -/
theorem semi_anti_join_keeps_members (join : SemiAntiJoin B P) (build : List (List (List B)))
    (probe : List (List (List P))) :
    join.run build probe = .ok (probe.flatten.flatten.filter (join.keeps build.flatten.flatten)) := by
  have holds := join.build_holds build
  rw [SemiAntiJoin.run, HashJoin.finalize]
  split_ifs with closed empty early
  · obtain ⟨anti, aware, marked⟩ := closed
    have nothing : ∀ p, join.keeps build.flatten.flatten p = false := by
      intro p
      rw [SemiAntiJoin.keeps, anti, if_neg (by decide), if_pos aware]
      exact SemiAntiJoin.notIn_of_null (join.single aware) (holds.nulls ▸ marked) p
    rw [List.filter_eq_nil_iff.mpr fun p _ kept => Bool.false_ne_true ((nothing p).symm.trans kept)]
  · have semi : join.joinType = .semi := by
      rcases join.semiOrAnti with semi | anti
      · exact semi
      · rw [anti] at early
        rcases early with inner | semi
        · cases inner
        · cases semi
    have nothing : ∀ p, join.keeps build.flatten.flatten p = false := by
      intro p
      rw [SemiAntiJoin.keeps, if_pos semi]
      exact SemiAntiJoin.no_rows holds empty p
    rw [List.filter_eq_nil_iff.mpr fun p _ kept => Bool.false_ne_true ((nothing p).symm.trans kept)]
  · refine SemiAntiJoin.executeAll_eq (fun input => ?_) probe.flatten
    rw [SemiAntiJoin.execute_eq holds fun filled => absurd empty (Nat.ne_of_gt filled)]
    exact congrArg Except.ok (List.filter_congr fun p _ => SemiAntiJoin.emit_eq_keeps holds closed p)
  · refine SemiAntiJoin.executeAll_eq (fun input => ?_) probe.flatten
    have built := SemiAntiJoin.holds_buildDirectory holds
    rw [SemiAntiJoin.execute_eq built fun _ => ⟨PRLHashTable.buildDirectory_indexed _, rfl⟩]
    exact congrArg Except.ok (List.filter_congr fun p _ => SemiAntiJoin.emit_eq_keeps built closed p)

end BumbleBee.Join
