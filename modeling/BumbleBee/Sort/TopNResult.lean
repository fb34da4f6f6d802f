import BumbleBee.Sort.TopN

/-!
Top-N against sorting and cutting off. The heaps keep the best rows as they were
copied, through every sink, merge and compaction; what the operator returns is then
right for every limit exactly when copying a row gives the row.
-/

namespace BumbleBee.Sort
open Library.ByteOrder Library.Selection

variable {V Q K : Type} [LinearOrder K]

namespace TopNHeap

variable {limit : Nat} {std : HeapAlgorithms (TopNEntry K) TopNEntry.key} {scheme : KeyScheme Q K}
  {h other : TopNHeap V K} {seen more : List (K × List (Cell V))}

/-- A heap sorted best first. -/
structure Sorted (limit : Nat) (scheme : KeyScheme Q K) (h : TopNHeap V K) (seen : List (K × List (Cell V))) : Prop where
  ordered : h.heap.Pairwise fun a b => a.key ≤ b.key
  coded : Coded scheme h.heap
  best : Best limit Prod.fst h.kept seen

theorem Holds.finalize (holds : Holds limit std scheme h seen) : Sorted limit scheme (h.finalize limit std) seen := by
  have perm := std.sort_perm h.heap
  have coded : Coded scheme (std.sort h.heap) := by
    intro entry member
    exact holds.coded entry (perm.mem_iff.mp member)
  have keys := map_key_reduce limit true { h with heap := std.sort h.heap }
  unfold TopNHeap.finalize
  rw [if_neg (by rw [holds.unsorted]; exact Bool.false_ne_true)]
  refine ⟨?_, coded.reduce (h := { h with heap := std.sort h.heap }) limit true, ?_⟩
  · have sorted := std.sort_sorted h.heap
    rw [← List.pairwise_map (f := TopNEntry.key) (R := (· ≤ ·))] at sorted ⊢
    rw [keys]
    exact sorted
  · have same : (TopNHeap.reduce limit true { h with heap := std.sort h.heap }).kept.Perm h.kept := by
      rw [kept_reduce]
      exact perm.map _
    exact holds.best.perm_left same.symm

theorem combineLoop_nothing {entries heap : List (TopNEntry K)} {row : Nat}
    (nothing : (combineLoop limit std entries heap row).2 = []) : (combineLoop limit std entries heap row).1 = heap := by
  cases entries with
  | nil => rfl
  | cons entry entries =>
    rw [combineLoop] at nothing ⊢
    split at nothing
    · cases nothing
    · next full => rw [if_neg full]

/-- The loop may stop at the first entry that does not qualify, since the ones behind it are no smaller. -/
theorem Holds.combineLoop (holds : Holds limit std scheme h seen) {entries : List (TopNEntry K)}
    (ordered : entries.Pairwise fun a b => a.key ≤ b.key) (coded : Coded scheme entries)
    (payload : List (List (Cell V))) :
    Holds limit std scheme
      { h with heap := (TopNHeap.combineLoop limit std entries h.heap h.payload.length).1,
               payload := h.payload ++ (TopNHeap.combineLoop limit std entries h.heap h.payload.length).2.map
                fun i => payload.getD i [] }
      (entries.map (fun entry => (entry.key, payload.getD entry.index [])) ++ seen) := by
  induction entries generalizing h seen with
  | nil =>
    rw [TopNHeap.combineLoop, List.map_nil, List.append_nil]
    exact holds
  | cons entry entries ih =>
    obtain ⟨first, rest⟩ := List.pairwise_cons.mp ordered
    rw [TopNHeap.combineLoop]
    by_cases add : shouldAdd limit h.heap entry.key = true
    · have pushed := holds.push { entry with index := h.payload.length } rfl add (coded entry List.mem_cons_self)
        (payload.getD entry.index [])
      have done := ih pushed rest fun e member => coded e (List.mem_cons_of_mem _ member)
      rw [List.length_append] at done
      rw [if_pos add, List.map_cons, List.append_cons]
      exact done.perm List.perm_middle
    · obtain ⟨full, greater⟩ := not_shouldAdd holds.isHeap add
      rw [if_neg add, List.map_nil, List.append_nil]
      apply holds.skip full
      intro row member e inside
      obtain ⟨behind, position, rfl⟩ := List.mem_map.mp member
      rcases List.mem_cons.mp position with rfl | position
      · exact greater e inside
      · exact (greater e inside).trans (first behind position)

theorem Holds.combine (holds : Holds limit std scheme h seen) (others : Holds limit std scheme other more) :
    Holds limit std scheme (h.combine limit std other) (more ++ seen) := by
  unfold TopNHeap.combine
  split
  · next none' =>
    rcases none' with zero | empty
    · apply holds.skip (by omega)
      intro row _ entry member
      have size := List.length_pos_of_mem member
      have small := holds.length_le
      omega
    · have nothing : other.kept = [] := by
        rw [kept, List.length_eq_zero_iff.mp empty, List.map_nil]
      have best := others.best
      rw [nothing] at best
      exact { holds with best := best.absorb holds.best }
  · have sorted := others.finalize
    have done := holds.combineLoop sorted.ordered sorted.coded (other.finalize limit std).payload
    have merged : Holds limit std scheme _ (more ++ seen) :=
      { done with best := sorted.best.absorb done.best }
    dsimp only
    split
    · next empty =>
      have nothing := List.length_eq_zero_iff.mp empty
      rw [nothing, combineLoop_nothing nothing, List.map_nil, List.append_nil] at merged
      exact merged
    · exact merged.reduce false

end TopNHeap

section Operator

variable {limit : Nat} {std : HeapAlgorithms (TopNEntry K) TopNEntry.key} {scheme : KeyScheme Q K}

/-- The rows of the input as the copies into the payload read them. -/
def copiedInput (scheme : KeyScheme Q K) (workers : List (List (InputChunk V Q))) : List (K × List (Cell V)) :=
  workers.flatten.flatMap fun input => TopNHeap.copiedRows scheme input input.keys.zipIdx

variable {seen : List (K × List (Cell V))}

theorem holds_worker {h : TopNHeap V K}
    (holds : TopNHeap.Holds limit std scheme h seen) (chunks : List (InputChunk V Q)) :
    TopNHeap.Holds limit std scheme (chunks.foldl (TopNHeap.sink limit std scheme) h)
      (copiedInput scheme [chunks] ++ seen) := by
  induction chunks generalizing h seen with
  | nil => exact holds
  | cons input chunks ih =>
    have done := ih (holds.sink input)
    apply done.perm
    rw [copiedInput, copiedInput, List.flatten_singleton, List.flatten_singleton, ← List.append_assoc]
    exact List.perm_append_comm.append_right seen

theorem holds_merged {h : TopNHeap V K} (holds : TopNHeap.Holds limit std scheme h seen)
    (workers : List (List (InputChunk V Q))) :
    TopNHeap.Holds limit std scheme
      (workers.foldl (fun h chunks => h.combine limit std (chunks.foldl (TopNHeap.sink limit std scheme) .new)) h)
      (copiedInput scheme workers ++ seen) := by
  induction workers generalizing h seen with
  | nil => exact holds
  | cons chunks workers ih =>
    have one : TopNHeap.Holds limit std scheme (chunks.foldl (TopNHeap.sink limit std scheme) .new) _ :=
      holds_worker TopNHeap.holds_new chunks
    have done := ih (holds.combine one)
    apply done.perm
    have split' : copiedInput scheme (chunks :: workers) = copiedInput scheme [chunks] ++ copiedInput scheme workers := by
      rw [copiedInput, copiedInput, copiedInput, List.flatten_cons, List.flatMap_append, List.flatten_singleton]
    rw [split', List.append_nil, ← List.append_assoc]
    exact List.perm_append_comm.append_right seen

theorem topN_copied (limit : Nat) (std : HeapAlgorithms (TopNEntry K) TopNEntry.key) (scheme : KeyScheme Q K)
    (workers : List (List (InputChunk V Q))) :
    SortThenLimit limit (copiedInput scheme workers) (topN limit std scheme workers) := by
  have start : TopNHeap.Holds limit std scheme (TopNHeap.new : TopNHeap V K) [] := TopNHeap.holds_new
  have merged := holds_merged start workers
  rw [List.append_nil] at merged
  have sorted := merged.finalize
  obtain ⟨dropped, perm, -⟩ := sorted.best
  refine ⟨_, dropped, perm, (TopNHeap.output_eq _).symm, ?_⟩
  apply sorted.best.sorted
  rw [TopNHeap.kept, List.pairwise_map]
  exact sorted.ordered

end Operator

section Copying

variable {column : ColumnVector V} {input : InputChunk V Q} {i : Nat}

/-- A constant column is copied right in a chunk of one row only. -/
def InputChunk.Copyable (input : InputChunk V Q) : Prop :=
  input.keys.length ≤ 1 ∨ ∀ column ∈ input.columns, column.isConstant = false

theorem ColumnVector.copied_eq (copyable : column.isConstant = false ∨ i = 0) : column.copied i = column.cell i := by
  cases column with
  | flat values => rfl
  | constant value =>
    rcases copyable with impossible | rfl
    · cases impossible
    · rfl
  | dictionary selection child => rfl

theorem ColumnVector.copied_constant (value : Option V) (i : Nat) :
    (ColumnVector.constant value).copied (i + 1) = .stray := rfl

theorem readAt_of_lt {values : List (Option V)} (small : i < values.length) : readAt values i ≠ .stray := by
  rw [readAt, List.getElem?_eq_getElem small]
  intro stray
  cases stray

theorem ColumnVector.Covers.cell {count : Nat} (covers : column.Covers count) (small : i < count) :
    column.cell i ≠ .stray := by
  cases column with
  | flat values => exact readAt_of_lt (Nat.lt_of_lt_of_le small covers)
  | constant value =>
    intro stray
    cases stray
  | dictionary selection child =>
    have inside : i < selection.length := Nat.lt_of_lt_of_le small covers.1
    rw [ColumnVector.cell, List.getElem?_eq_getElem inside]
    exact readAt_of_lt (covers.2 _ (List.getElem_mem inside))

theorem index_lt_of_mem_zipIdx {keys : List Q} {p : Q × Nat} (member : p ∈ keys.zipIdx) : p.2 < keys.length := by
  have found := List.mem_zipIdx_iff_getElem?.mp member
  exact (List.getElem?_eq_some_iff.mp found).1

theorem InputChunk.Copyable.copiedRow (copyable : input.Copyable) (small : i < input.keys.length) :
    input.copiedRow i = input.row i := by
  apply List.map_congr_left
  intro column member
  apply ColumnVector.copied_eq
  rcases copyable with one | flat
  · exact .inr (by omega)
  · exact .inl (flat column member)

theorem InputChunk.stray_not_mem_row (small : i < input.keys.length) : .stray ∉ input.row i := by
  intro member
  obtain ⟨column, present, stray⟩ := List.mem_map.mp member
  exact (input.covered column present).cell small stray

end Copying

section Exact

variable {scheme : KeyScheme Q K} {workers : List (List (InputChunk V Q))}

theorem copiedInput_eq (copyable : ∀ chunks ∈ workers, ∀ input ∈ chunks, input.Copyable) :
    copiedInput scheme workers = inputRows scheme workers := by
  apply List.flatMap_congr
  intro input member
  obtain ⟨chunks, present, inside⟩ := List.mem_flatten.mp member
  apply List.map_congr_left
  intro p position
  rw [(copyable chunks present input inside).copiedRow (index_lt_of_mem_zipIdx position)]

variable {rows : List (K × List (Cell V))} {output : List (List (Cell V))}

theorem SortThenLimit.complete
    (result : SortThenLimit rows.length rows output) : output.Perm (rows.map Prod.snd) := by
  obtain ⟨chosen, rest, perm, rfl, keys⟩ := result
  have size := congrArg List.length keys
  have total := perm.length_eq
  rw [List.length_map, List.length_take, ascending, (List.mergeSort_perm _ _).length_eq, List.length_map] at size
  rw [List.length_append] at total
  have none' : rest = [] := List.length_eq_zero_iff.mp (by omega)
  rw [none', List.append_nil] at perm
  exact perm.map Prod.snd

theorem SortThenLimit.subset {n : Nat}
    (result : SortThenLimit n rows output) {row : List (Cell V)} (member : row ∈ output) : ∃ p ∈ rows, p.2 = row := by
  obtain ⟨chosen, rest, perm, rfl, -⟩ := result
  obtain ⟨p, inside, same⟩ := List.mem_map.mp member
  exact ⟨p, perm.mem_iff.mp (List.mem_append_left _ inside), same⟩

theorem stray_not_mem_inputRows {p : K × List (Cell V)} (member : p ∈ inputRows scheme workers) : .stray ∉ p.2 := by
  obtain ⟨input, -, inside⟩ := List.mem_flatMap.mp member
  obtain ⟨position, place, rfl⟩ := List.mem_map.mp inside
  exact InputChunk.stray_not_mem_row (index_lt_of_mem_zipIdx place)

/-- A chunk of several rows with a constant column has a stray read among its copies. -/
theorem exists_stray {chunks : List (InputChunk V Q)} (present : chunks ∈ workers) {input : InputChunk V Q}
    (inside : input ∈ chunks) (broken : ¬input.Copyable) : ∃ p ∈ copiedInput scheme workers, .stray ∈ p.2 := by
  rw [InputChunk.Copyable, not_or] at broken
  obtain ⟨many, constants⟩ := broken
  have second : input.keys[1]? = some (input.keys.get ⟨1, by omega⟩) := List.getElem?_eq_getElem (by omega)
  refine ⟨_, List.mem_flatMap.mpr ⟨input, List.mem_flatten.mpr ⟨chunks, present, inside⟩,
    List.mem_map.mpr ⟨(_, 1), List.mem_zipIdx_iff_getElem?.mpr second, rfl⟩⟩, ?_⟩
  by_contra clean
  apply constants
  intro column member
  cases column with
  | flat values => rfl
  | constant value => exact absurd (List.mem_map.mpr ⟨_, member, ColumnVector.copied_constant value 0⟩) clean
  | dictionary selection child => rfl

end Exact

def sortKeys (columns : List KeyColumn) : KeyScheme (KeyRow columns) ByteString where
  sortKey row := ⟨createSortKey columns row⟩
  firstCode := firstCode columns
  monotone := createSortKey_lt

def byColumn : List KeyColumn := [⟨.bigint, false⟩]

/-- The chunk of `SELECT a, 7 FROM t ORDER BY a` over the rows 1 and 2. -/
def withConstant : InputChunk Nat (KeyRow byColumn) where
  columns := [.flat [some 1, some 2], .constant (some 7)]
  keys := [(some 1#64, ()), (some 2#64, ())]
  covered := by
    intro column member
    rcases List.mem_cons.mp member with rfl | member
    · exact Nat.le_refl 2
    · rw [List.mem_singleton.mp member]
      trivial
  sized := by decide

end BumbleBee.Sort
