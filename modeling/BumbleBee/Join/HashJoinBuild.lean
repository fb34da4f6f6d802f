import BumbleBee.HashTable.JoinProbe
import Mathlib.Data.List.Induction

/-!
The build side of `PhysicalHashJoin`. Each worker keys and hashes its chunks and
appends the rows without a NULL key to a table of its own; `Combine` merges the
tables, and `Finalize` links the rows or finds that the probe can be skipped.
-/

namespace BumbleBee.Join
open HashTable BumbleBee.Types

inductive JoinType where
  | inner
  | left
  | semi
  | anti
  deriving DecidableEq

inductive SinkFinalizeType where
  | ready
  | noOutputPossible
  deriving DecidableEq

def nullHash : Nat := 0x9e3779b97f4a7c15

def combineHash (a b : Nat) : Nat := (a * 0xbf58476d1ce4e5b9 % 2 ^ 64) ^^^ b

def hashCell (hash : Datum → Nat) : Cell → Nat
  | none => nullHash
  | some v => hash v

/-- `DataChunk::Hash` of one row. -/
def hashKeys (hash : Datum → Nat) : Row → Nat
  | [] => 0
  | cell :: rest => rest.foldl (fun code next => combineHash code (hashCell hash next)) (hashCell hash cell)

def nonNull (key : Row) : Bool := key.all Option.isSome

def nonNullAt (keys : List Row) (i : Nat) : Bool := nonNull (keys.getD i [])

/-- The rows without a NULL in their key; without any NULL the rows are not looked at one by one. -/
def nonNullKeyRows (keys : List Row) : List Nat :=
  if keys.all nonNull then List.range keys.length
  else (List.range keys.length).filter (nonNullAt keys)

/-- The rows of a chunk at the positions `sel`. -/
def slice {R : Type} (chunk : List R) (sel : List Nat) : List R := sel.filterMap fun i => chunk[i]?

/-- `hash` is the hash of one value; a key has one cell for each key column. -/
structure HashJoin (B P : Type) where
  joinType : JoinType
  nullAware : Bool
  keyCount : Nat
  hash : Datum → Nat
  buildKeys : B → Row
  liveBuildColumns : B → Row
  probeKeys : P → Row
  buildSized : ∀ b, (buildKeys b).length = keyCount
  probeSized : ∀ p, (probeKeys p).length = keyCount

structure LocalSinkState where
  table : PRLHashTable
  hasNullKey : Bool

structure GlobalSinkState where
  table : Option PRLHashTable
  buildHasNullKey : Bool

namespace HashJoin

variable {B P : Type} (join : HashJoin B P)

def makeJoinTable (name : Nat) : PRLHashTable := .make name ⟨join.keyCount, false⟩ PRLHashTable.initialCapacity

/-- A build row as it is stored: the key columns, then the live columns. -/
def buildRow (b : B) : InputRow := ⟨hashKeys join.hash (join.buildKeys b), join.buildKeys b ++ join.liveBuildColumns b⟩

def sink (state : LocalSinkState) (input : List B) : LocalSinkState where
  table := state.table.appendUnbuilt
    ((slice input (nonNullKeyRows (input.map join.buildKeys))).map join.buildRow)
  hasNullKey := state.hasNullKey || decide ((nonNullKeyRows (input.map join.buildKeys)).length < input.length)

def combine (global : GlobalSinkState) (state : LocalSinkState) : GlobalSinkState where
  table := match global.table with
    | none => some state.table
    | some table => some (table.merge state.table).1
  buildHasNullKey := global.buildHasNullKey || state.hasNullKey

/-- One worker: its chunks in order, then `Combine`. -/
def work (global : GlobalSinkState) (name : Nat) (chunks : List (List B)) : GlobalSinkState :=
  combine global (chunks.foldl join.sink ⟨join.makeJoinTable name, false⟩)

/-- The workers in the order of their `Combine` calls. -/
def build : Nat → GlobalSinkState → List (List (List B)) → GlobalSinkState
  | _, global, [] => global
  | name, global, chunks :: workers => build (name + 1) (join.work global name chunks) workers

def finalTable (global : GlobalSinkState) : PRLHashTable := global.table.getD (join.makeJoinTable 0)

/-- The table the probe reads, and whether there is a probe. -/
def finalize (global : GlobalSinkState) : PRLHashTable × SinkFinalizeType :=
  if join.joinType = .anti ∧ join.nullAware ∧ global.buildHasNullKey then (join.finalTable global, .noOutputPossible)
  else if (join.finalTable global).count = 0 then
    (join.finalTable global, if join.joinType = .inner ∨ join.joinType = .semi then .noOutputPossible else .ready)
  else ((join.finalTable global).buildDirectory, .ready)

end HashJoin

section Selections

variable {R : Type}

theorem slice_filter (chunk : List R) (wanted : Nat → Bool) (keep : R → Bool)
    (same : ∀ i row, chunk[i]? = some row → wanted i = keep row) :
    slice chunk ((List.range chunk.length).filter wanted) = chunk.filter keep := by
  induction chunk using List.reverseRecOn with
  | nil => rfl
  | append_singleton chunk last ih =>
    have before : ∀ (i : Nat) row, chunk[i]? = some row → (chunk ++ [last])[i]? = some row := by
      intro i row read
      rw [List.getElem?_append_left (List.getElem?_eq_some_iff.mp read).1, read]
    have here : (chunk ++ [last])[chunk.length]? = some last := List.getElem?_concat_length
    have front : slice (chunk ++ [last]) ((List.range chunk.length).filter wanted) =
        slice chunk ((List.range chunk.length).filter wanted) := by
      apply List.filterMap_congr
      intro i member
      exact List.getElem?_append_left (List.mem_range.mp (List.mem_of_mem_filter member))
    rw [List.length_append, List.length_singleton, List.range_succ, List.filter_append, List.filter_append, slice,
      List.filterMap_append, ← slice, front, ih fun i row read => same i row (before i row read),
      List.filter_singleton, List.filter_singleton, same chunk.length last here]
    cases keep last with
    | false => rfl
    | true => exact congrArg (chunk.filter keep ++ ·) (List.filterMap_cons_some here)

theorem nonNullKeyRows_eq (keys : List Row) :
    nonNullKeyRows keys = (List.range keys.length).filter (nonNullAt keys) := by
  rw [nonNullKeyRows]
  split_ifs with all
  · apply Eq.symm
    apply List.filter_eq_self.mpr
    intro i member
    have inside := List.mem_range.mp member
    rw [nonNullAt, List.getD_eq_getElem?_getD, List.getElem?_eq_getElem inside]
    exact List.all_eq_true.mp all _ (List.getElem_mem inside)
  · rfl

theorem nonNullAt_map (chunk : List R) (key : R → Row) {i : Nat} {row : R} (read : chunk[i]? = some row) :
    nonNullAt (chunk.map key) i = nonNull (key row) := by
  rw [nonNullAt, List.getD_eq_getElem?_getD, List.getElem?_map, read]
  rfl

theorem slice_nonNullKeyRows (chunk : List R) (key : R → Row) :
    slice chunk (nonNullKeyRows (chunk.map key)) = chunk.filter fun row => nonNull (key row) := by
  rw [nonNullKeyRows_eq, List.length_map]
  exact slice_filter chunk _ _ fun i row read => nonNullAt_map chunk key read

theorem length_slice {chunk : List R} {sel : List Nat} (inside : ∀ i ∈ sel, i < chunk.length) :
    (slice chunk sel).length = sel.length := by
  induction sel with
  | nil => rfl
  | cons i sel ih =>
    rw [slice, List.filterMap_cons_some (List.getElem?_eq_getElem (inside i List.mem_cons_self)), List.length_cons,
      List.length_cons, ← slice, ih fun j member => inside j (List.mem_cons_of_mem _ member)]

theorem mem_nonNullKeyRows {keys : List Row} {i : Nat} :
    i ∈ nonNullKeyRows keys ↔ i < keys.length ∧ nonNullAt keys i := by
  rw [nonNullKeyRows_eq, List.mem_filter, List.mem_range]

theorem nonNullKeyRows_fewer (chunk : List R) (key : R → Row) :
    decide ((nonNullKeyRows (chunk.map key)).length < chunk.length) = chunk.any fun row => !nonNull (key row) := by
  have size : (nonNullKeyRows (chunk.map key)).length = (chunk.filter fun row => nonNull (key row)).length := by
    rw [← slice_nonNullKeyRows, length_slice]
    intro i member
    have inside := (mem_nonNullKeyRows.mp member).1
    rwa [List.length_map] at inside
  apply Bool.eq_iff_iff.mpr
  rw [decide_eq_true_iff, size, List.length_filter_lt_length_iff_exists, List.any_eq_true]
  refine exists_congr fun row => and_congr_right fun _ => ?_
  rw [Bool.not_eq_true', Bool.not_eq_true]

end Selections

namespace HashJoin

variable {B P : Type} {join : HashJoin B P}

/-- A table with the rows of `seen` that have no NULL in their key, and the flag for those that have. -/
structure Holds (join : HashJoin B P) (table : PRLHashTable) (hasNullKey : Bool) (seen : List B) : Prop where
  layout : table.layout = ⟨join.keyCount, false⟩
  stores : table.rows.map HTEntry.input = (seen.filter fun b => nonNull (join.buildKeys b)).map join.buildRow
  nulls : hasNullKey = seen.any fun b => !nonNull (join.buildKeys b)

theorem holds_make (join : HashJoin B P) (name : Nat) : join.Holds (join.makeJoinTable name) false [] where
  layout := rfl
  stores := rfl
  nulls := rfl

variable {seen : List B} {state : LocalSinkState}

theorem Holds.sink (holds : join.Holds state.table state.hasNullKey seen) (input : List B) :
    join.Holds (join.sink state input).table (join.sink state input).hasNullKey (seen ++ input) := by
  have extended := state.table.appendUnbuilt_extended
    ((slice input (nonNullKeyRows (input.map join.buildKeys))).map join.buildRow)
  constructor
  · exact extended.layout.trans holds.layout
  · rw [HashJoin.sink]
    rw [extended.rows, List.map_append, holds.stores, newEntries_input, slice_nonNullKeyRows, List.filter_append,
      List.map_append]
  · rw [HashJoin.sink]
    rw [holds.nulls, nonNullKeyRows_fewer, List.any_append]

theorem Holds.sinks (holds : join.Holds state.table state.hasNullKey seen) (chunks : List (List B)) :
    join.Holds (chunks.foldl join.sink state).table (chunks.foldl join.sink state).hasNullKey
      (seen ++ chunks.flatten) := by
  induction chunks generalizing state seen with
  | nil => rwa [List.flatten_nil, List.append_nil]
  | cons input chunks ih =>
    rw [List.flatten_cons, ← List.append_assoc]
    exact ih (holds.sink input)

theorem merge_rows (t other : PRLHashTable) : (t.merge other).1.rows = t.rows ++ other.rows := by
  rw [PRLHashTable.merge]
  split_ifs with empty
  · rw [List.isEmpty_iff.mp empty, List.append_nil]
  · rfl

theorem merge_layout (t other : PRLHashTable) : (t.merge other).1.layout = t.layout := by
  rw [PRLHashTable.merge]
  split_ifs <;> rfl

theorem Holds.merge {t other : PRLHashTable} {flag flag' : Bool} {seen' : List B} (holds : join.Holds t flag seen)
    (holds' : join.Holds other flag' seen') : join.Holds (t.merge other).1 (flag || flag') (seen ++ seen') := by
  constructor
  · exact (merge_layout t other).trans holds.layout
  · rw [merge_rows, List.map_append, holds.stores, holds'.stores, List.filter_append, List.map_append]
  · rw [holds.nulls, holds'.nulls, List.any_append]

/-- The state after some workers have combined; before the first there is no table. -/
def Gathered (join : HashJoin B P) (global : GlobalSinkState) (seen : List B) : Prop :=
  (global.table = none ∧ global.buildHasNullKey = false ∧ seen = []) ∨
    ∃ table, global.table = some table ∧ join.Holds table global.buildHasNullKey seen

variable {global : GlobalSinkState}

theorem Gathered.work (gathered : join.Gathered global seen) (name : Nat)
    (chunks : List (List B)) : join.Gathered (join.work global name chunks) (seen ++ chunks.flatten) := by
  have start : join.Holds (LocalSinkState.mk (join.makeJoinTable name) false).table
      (LocalSinkState.mk (join.makeJoinTable name) false).hasNullKey [] := holds_make join name
  have own := start.sinks chunks
  right
  rcases gathered with ⟨unset, unmarked, rfl⟩ | ⟨table, set, holds⟩
  · refine ⟨_, by rw [HashJoin.work, combine, unset], ?_⟩
    rw [HashJoin.work, combine, unmarked, Bool.false_or]
    exact own
  · refine ⟨_, by rw [HashJoin.work, combine, set], ?_⟩
    exact holds.merge own

theorem Gathered.build (gathered : join.Gathered global seen) (name : Nat) (workers : List (List (List B))) :
    join.Gathered (join.build name global workers) (seen ++ workers.flatten.flatten) := by
  induction workers generalizing name global seen with
  | nil => rwa [List.flatten_nil, List.flatten_nil, List.append_nil]
  | cons chunks workers ih =>
    rw [List.flatten_cons, List.flatten_append, ← List.append_assoc]
    exact ih (gathered.work name chunks) (name + 1)

/-- However the build rows reach the workers, the final table stores those without a NULL key. -/
theorem build_holds (join : HashJoin B P) (workers : List (List (List B))) :
    join.Holds (join.finalTable (join.build 0 ⟨none, false⟩ workers))
      (join.build 0 ⟨none, false⟩ workers).buildHasNullKey workers.flatten.flatten := by
  have start : join.Gathered ⟨none, false⟩ [] := .inl ⟨rfl, rfl, rfl⟩
  have gathered := start.build 0 workers
  rw [List.nil_append] at gathered
  rcases gathered with ⟨unset, unmarked, nothing⟩ | ⟨table, set, holds⟩
  · rw [finalTable, unset, unmarked, nothing]
    exact holds_make join 0
  · rw [finalTable, set]
    exact holds

end HashJoin

end BumbleBee.Join
