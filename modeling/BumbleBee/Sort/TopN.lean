import BumbleBee.Library.Selection
import BumbleBee.Sort.SortKey

/-!
`TopNHeap`: a bounded heap of sort keys over columnar payload rows. Each worker sinks
its chunks into a heap of its own, the heaps are combined one after the other, and the
last one is sorted and drained. Payload rows are copied column by column under a
selection, which reads a constant column past its only row.
-/

namespace BumbleBee.Sort
open Library.Selection

def standardVectorSize : Nat := 1024

variable {V Q K : Type}

inductive ColumnVector (V : Type) where
  | flat (values : List (Option V))
  | constant (value : Option V)
  | dictionary (selection : List Nat) (child : List (Option V))

/-- What a read of a buffer gives: a value, or whatever lies outside. -/
inductive Cell (V : Type) where
  | value (v : Option V)
  | stray
  deriving DecidableEq

def readAt (values : List (Option V)) (i : Nat) : Cell V :=
  match values[i]? with
  | some v => .value v
  | none => .stray

namespace ColumnVector

/-- The value of a row. -/
def cell : ColumnVector V → Nat → Cell V
  | .flat values, i => readAt values i
  | .constant value, _ => .value value
  | .dictionary selection child, i =>
    match selection[i]? with
    | some j => readAt child j
    | none => .stray

/-- What `VectorOperations::Copy` reads at a position of its selection. -/
def copied : ColumnVector V → Nat → Cell V
  | .flat values, i => readAt values i
  | .constant value, i => readAt [value] i
  | .dictionary selection child, i =>
    match selection[i]? with
    | some j => readAt child j
    | none => .stray

def isConstant : ColumnVector V → Bool
  | .constant _ => true
  | _ => false

/-- The vector has a row for each of the first `count` positions. -/
def Covers (count : Nat) : ColumnVector V → Prop
  | .flat values => count ≤ values.length
  | .constant _ => True
  | .dictionary selection child => count ≤ selection.length ∧ ∀ j ∈ selection, j < child.length

end ColumnVector

/-- A chunk with the evaluated ORDER BY columns of its rows. -/
structure InputChunk (V Q : Type) where
  columns : List (ColumnVector V)
  keys : List Q
  covered : ∀ column ∈ columns, column.Covers keys.length
  sized : keys.length ≤ standardVectorSize

namespace InputChunk

def row (input : InputChunk V Q) (i : Nat) : List (Cell V) := input.columns.map (·.cell i)

def copiedRow (input : InputChunk V Q) (i : Nat) : List (Cell V) := input.columns.map (·.copied i)

end InputChunk

/-- The sort key of a row, and the code of its first column where the prefilter has one. -/
structure KeyScheme (Q K : Type) [LinearOrder K] where
  sortKey : Q → K
  firstCode : Q → Option (BitVec 64)
  monotone : ∀ {q r c d}, firstCode q = some c → firstCode r = some d → c < d → sortKey q < sortKey r

structure TopNEntry (K : Type) where
  key : K
  index : Nat
  firstCode : Option (BitVec 64)

structure TopNHeap (V K : Type) where
  heap : List (TopNEntry K)
  payload : List (List (Cell V))
  finalized : Bool

namespace TopNHeap

def new : TopNHeap V K := ⟨[], [], false⟩

def reindex : Nat → List (TopNEntry K) → List (TopNEntry K)
  | _, [] => []
  | count, entry :: heap => { entry with index := count } :: reindex (count + 1) heap

/-- Keeps only the live rows, in heap order. -/
def reduce (limit : Nat) (force : Bool) (h : TopNHeap V K) : TopNHeap V K :=
  if !force && h.payload.length < max (2 * standardVectorSize) (2 * limit) then h
  else if h.payload.length = h.heap.length then h
  else { h with heap := reindex 0 h.heap, payload := h.heap.map fun entry => h.payload.getD entry.index [] }

/-- The code of the worst kept entry, once the heap is full. -/
def threshold (limit : Nat) (h : TopNHeap V K) : Option (BitVec 64) :=
  if limit ≤ h.heap.length then h.heap.head?.bind TopNEntry.firstCode else none

def getData (h : TopNHeap V K) (pos : Nat) : List (List (Cell V)) :=
  ((h.heap.drop pos).take standardVectorSize).map fun entry => h.payload.getD entry.index []

/-- `PhysicalTopN::GetData` until it reports that it is finished. -/
def drain (h : TopNHeap V K) : Nat → Nat → List (List (Cell V))
  | 0, _ => []
  | fuel + 1, start =>
    let output := h.getData start
    if output.length = 0 then []
    else if h.heap.length ≤ start + output.length then output
    else output ++ h.drain fuel (start + standardVectorSize)

def output (h : TopNHeap V K) : List (List (Cell V)) := h.drain h.heap.length 0

/-- The kept rows with their keys. -/
def kept (h : TopNHeap V K) : List (K × List (Cell V)) :=
  h.heap.map fun entry => (entry.key, h.payload.getD entry.index [])

section Reducing

variable {h : TopNHeap V K}

theorem map_key_reindex (count : Nat) (heap : List (TopNEntry K)) :
    (reindex count heap).map TopNEntry.key = heap.map TopNEntry.key := by
  induction heap generalizing count with
  | nil => rfl
  | cons entry heap ih => rw [reindex, List.map_cons, List.map_cons, ih]

theorem mem_reindex {count : Nat} {heap : List (TopNEntry K)} {entry : TopNEntry K}
    (member : entry ∈ reindex count heap) :
    entry.index < count + heap.length ∧ ∃ old ∈ heap, old.key = entry.key ∧ old.firstCode = entry.firstCode := by
  induction heap generalizing count with
  | nil => cases member
  | cons head heap ih =>
    rcases List.mem_cons.mp member with rfl | later
    · exact ⟨by simp only [List.length_cons]; omega, head, List.mem_cons_self, rfl, rfl⟩
    · obtain ⟨small, old, inside, same⟩ := ih later
      refine ⟨?_, old, List.mem_cons_of_mem _ inside, same⟩
      rw [List.length_cons]
      omega

theorem kept_reindex (heap : List (TopNEntry K)) (row : TopNEntry K → List (Cell V)) (front : List (List (Cell V))) :
    (reindex front.length heap).map (fun entry => (entry.key, (front ++ heap.map row).getD entry.index [])) =
      heap.map fun entry => (entry.key, row entry) := by
  induction heap generalizing front with
  | nil => rfl
  | cons entry heap ih =>
    have rest := ih (front ++ [row entry])
    rw [List.length_append, List.length_singleton, List.append_assoc, List.singleton_append] at rest
    rw [reindex, List.map_cons, List.map_cons, rest]
    rw [List.getD_eq_getElem?_getD, List.getElem?_append_right (Nat.le_refl _), Nat.sub_self]
    rfl

theorem kept_reduce (limit : Nat) (force : Bool) (h : TopNHeap V K) : (h.reduce limit force).kept = h.kept := by
  unfold reduce
  split
  · rfl
  · split
    · rfl
    · exact kept_reindex h.heap (fun entry => h.payload.getD entry.index []) []

theorem map_key_reduce (limit : Nat) (force : Bool) (h : TopNHeap V K) :
    (h.reduce limit force).heap.map TopNEntry.key = h.heap.map TopNEntry.key := by
  unfold reduce
  split
  · rfl
  · split
    · rfl
    · exact map_key_reindex 0 h.heap

theorem finalized_reduce (limit : Nat) (force : Bool) (h : TopNHeap V K) :
    (h.reduce limit force).finalized = h.finalized := by
  unfold reduce
  split
  · rfl
  · split <;> rfl

/-- Every entry points into the payload. -/
def Indexed (h : TopNHeap V K) : Prop := ∀ entry ∈ h.heap, entry.index < h.payload.length

theorem Indexed.reduce (indexed : h.Indexed) (limit : Nat) (force : Bool) : (h.reduce limit force).Indexed := by
  unfold TopNHeap.reduce
  split
  · exact indexed
  · split
    · exact indexed
    · intro entry member
      obtain ⟨small, -⟩ := mem_reindex member
      rw [List.length_map]
      omega

/-- Rows appended to the payload are not those of older entries. -/
theorem map_append_payload {entries : List (TopNEntry K)} {payload : List (List (Cell V))}
    (indexed : ∀ entry ∈ entries, entry.index < payload.length) (more : List (List (Cell V))) :
    entries.map (fun entry => (entry.key, (payload ++ more).getD entry.index [])) =
      entries.map fun entry => (entry.key, payload.getD entry.index []) := by
  apply List.map_congr_left
  intro entry member
  rw [List.getD_append _ _ _ _ (indexed entry member)]

theorem drain_eq (h : TopNHeap V K) {fuel start : Nat} (enough : h.heap.length ≤ start + fuel) :
    h.drain fuel start = (h.heap.drop start).map fun entry => h.payload.getD entry.index [] := by
  induction fuel generalizing start with
  | zero =>
    rw [List.drop_of_length_le (by omega)]
    rfl
  | succ fuel ih =>
    have size : (h.getData start).length = min standardVectorSize (h.heap.length - start) := by
      rw [getData, List.length_map, List.length_take, List.length_drop]
    have positive : 0 < standardVectorSize := by decide
    rw [drain]
    by_cases ended : (h.getData start).length = 0
    · rw [if_pos ended, List.drop_of_length_le (by omega)]
      rfl
    · rw [if_neg ended]
      by_cases last : h.heap.length ≤ start + (h.getData start).length
      · rw [if_pos last, getData, List.take_of_length_le]
        rw [List.length_drop]
        omega
      · rw [if_neg last, ih (by omega), getData, ← List.drop_drop, ← List.map_append, List.take_append_drop]

theorem output_eq (h : TopNHeap V K) : h.output = h.kept.map Prod.snd := by
  rw [output, drain_eq h (Nat.le_of_eq (Nat.zero_add _).symm), kept, List.map_map]
  rfl

theorem threshold_eq_some {limit : Nat} {bound : BitVec 64} (found : h.threshold limit = some bound) :
    limit ≤ h.heap.length ∧ ∃ front rest, h.heap = front :: rest ∧ front.firstCode = some bound := by
  unfold threshold at found
  split at found
  · next full =>
    refine ⟨full, ?_⟩
    cases entries : h.heap with
    | nil =>
      rw [entries] at found
      cases found
    | cons front rest =>
      rw [entries] at found
      exact ⟨front, rest, rfl, found⟩
  · cases found

end Reducing

end TopNHeap

variable [LinearOrder K]

namespace TopNHeap

section Algorithm

variable (limit : Nat) (std : HeapAlgorithms (TopNEntry K) TopNEntry.key) (scheme : KeyScheme Q K)

def shouldAdd (heap : List (TopNEntry K)) (key : K) : Bool :=
  decide (heap.length < limit) ||
    match heap with
    | [] => false
    | front :: _ => decide (key < front.key)

def push (heap : List (TopNEntry K)) (entry : TopNEntry K) : List (TopNEntry K) :=
  if limit ≤ heap.length then std.push (std.pop heap) entry else std.push heap entry

/-- The rows that enter the heap, with the positions appended to the payload. -/
def sinkLoop : List (Q × Nat) → List (TopNEntry K) → Nat → List (TopNEntry K) × List Nat
  | [], heap, _ => (heap, [])
  | (q, i) :: rest, heap, row =>
    if shouldAdd limit heap (scheme.sortKey q) then
      let done := sinkLoop rest (push limit std heap ⟨scheme.sortKey q, row, scheme.firstCode q⟩) (row + 1)
      (done.1, i :: done.2)
    else sinkLoop rest heap row

def sinkRows (h : TopNHeap V K) (input : InputChunk V Q) (rows : List (Q × Nat)) : TopNHeap V K :=
  let done := sinkLoop limit std scheme rows h.heap h.payload.length
  if done.2.length = 0 then h
  else reduce limit false { h with heap := done.1, payload := h.payload ++ done.2.map input.copiedRow }

def candidate (bound : BitVec 64) (p : Q × Nat) : Bool :=
  match scheme.firstCode p.1 with
  | none => true
  | some code => decide (code ≤ bound)

def sink (h : TopNHeap V K) (input : InputChunk V Q) : TopNHeap V K :=
  if limit = 0 ∨ input.keys.length = 0 then h
  else
    match h.threshold limit with
    | none => h.sinkRows limit std scheme input input.keys.zipIdx
    | some bound =>
      let candidates := input.keys.zipIdx.filter (candidate scheme bound)
      if candidates.length = 0 then h
      else if candidates.length < input.keys.length then h.sinkRows limit std scheme input candidates
      else h.sinkRows limit std scheme input input.keys.zipIdx

def finalize (h : TopNHeap V K) : TopNHeap V K :=
  if h.finalized then h
  else { reduce limit true { h with heap := std.sort h.heap } with finalized := true }

/-- The other heap's entries, best first, up to the first that no longer qualifies. -/
def combineLoop : List (TopNEntry K) → List (TopNEntry K) → Nat → List (TopNEntry K) × List Nat
  | [], heap, _ => (heap, [])
  | entry :: rest, heap, row =>
    if shouldAdd limit heap entry.key then
      let done := combineLoop rest (push limit std heap { entry with index := row }) (row + 1)
      (done.1, entry.index :: done.2)
    else (heap, [])

def combine (h other : TopNHeap V K) : TopNHeap V K :=
  if limit = 0 ∨ other.heap.length = 0 then h
  else
    let other := other.finalize limit std
    let done := combineLoop limit std other.heap h.heap h.payload.length
    if done.2.length = 0 then h
    else reduce limit false
      { h with heap := done.1, payload := h.payload ++ done.2.map fun i => other.payload.getD i [] }

end Algorithm

end TopNHeap

/-- Each worker's chunks in the order it sinks them, the workers in the order they combine. -/
def topN (limit : Nat) (std : HeapAlgorithms (TopNEntry K) TopNEntry.key) (scheme : KeyScheme Q K)
    (workers : List (List (InputChunk V Q))) : List (List (Cell V)) :=
  let merged := workers.foldl (fun h chunks => h.combine limit std (chunks.foldl (TopNHeap.sink limit std scheme) .new))
    TopNHeap.new
  (merged.finalize limit std).output

def inputRows (scheme : KeyScheme Q K) (workers : List (List (InputChunk V Q))) : List (K × List (Cell V)) :=
  workers.flatten.flatMap fun input => input.keys.zipIdx.map fun p => (scheme.sortKey p.1, input.row p.2)

/-- The output is the payloads of distinct rows whose keys are the first `n` of all keys sorted. -/
def SortThenLimit (n : Nat) (rows : List (K × List (Cell V))) (output : List (List (Cell V))) : Prop :=
  ∃ chosen rest : List (K × List (Cell V)), (chosen ++ rest).Perm rows ∧ chosen.map Prod.snd = output ∧
    chosen.map Prod.fst = (ascending (rows.map Prod.fst)).take n

namespace TopNHeap

/-- Every cached code is the code of a row with the entry's key. -/
def Coded (scheme : KeyScheme Q K) (heap : List (TopNEntry K)) : Prop :=
  ∀ entry ∈ heap, ∀ c, entry.firstCode = some c → ∃ q, scheme.sortKey q = entry.key ∧ scheme.firstCode q = some c

theorem Coded.reduce {h : TopNHeap V K} {scheme : KeyScheme Q K} (coded : Coded scheme h.heap) (limit : Nat)
    (force : Bool) : Coded scheme (h.reduce limit force).heap := by
  unfold TopNHeap.reduce
  split
  · exact coded
  · split
    · exact coded
    · intro entry member c found
      obtain ⟨-, old, inside, key, code⟩ := mem_reindex member
      rw [← key]
      exact coded old inside c (code.trans found)

section Pushing

variable {limit : Nat} {std : HeapAlgorithms (TopNEntry K) TopNEntry.key} {heap : List (TopNEntry K)} {key : K}

theorem not_shouldAdd (isHeap : std.IsHeap heap) (full : ¬shouldAdd limit heap key = true) :
    limit ≤ heap.length ∧ ∀ entry ∈ heap, entry.key ≤ key := by
  cases heap with
  | nil =>
    rw [shouldAdd, Bool.or_false, decide_eq_true_eq] at full
    exact ⟨Nat.le_of_not_lt full, fun _ member => absurd member List.not_mem_nil⟩
  | cons front rest =>
    rw [shouldAdd, Bool.or_eq_true, not_or, decide_eq_true_eq] at full
    refine ⟨Nat.le_of_not_lt full.1, ?_⟩
    have greater : front.key ≤ key := not_lt.mp fun less => full.2 (decide_eq_true less)
    intro entry member
    rcases List.mem_cons.mp member with rfl | inside
    · exact greater
    · exact (std.front_greatest isHeap entry inside).trans greater

/-- A push into a heap with room, or in the place of its worst entry. -/
theorem push_spec (isHeap : std.IsHeap heap) {entry : TopNEntry K} (add : shouldAdd limit heap entry.key = true) :
    std.IsHeap (push limit std heap entry) ∧
      (heap.length < limit ∧ (push limit std heap entry).Perm (entry :: heap) ∨
        ∃ front rest, heap = front :: rest ∧ limit ≤ heap.length ∧ entry.key < front.key ∧
          (∀ other ∈ rest, other.key ≤ front.key) ∧ (push limit std heap entry).Perm (entry :: rest)) := by
  unfold push
  by_cases full : limit ≤ heap.length
  · rw [if_pos full]
    cases heap with
    | nil =>
      rw [shouldAdd, Bool.or_false, decide_eq_true_eq] at add
      omega
    | cons front rest =>
      rw [shouldAdd, decide_eq_false (Nat.not_lt.mpr full), Bool.false_or, decide_eq_true_eq] at add
      have popped := std.isHeap_pop isHeap
      refine ⟨std.isHeap_push entry popped, .inr ⟨front, rest, rfl, full, add, std.front_greatest isHeap, ?_⟩⟩
      exact (std.push_perm entry popped).trans ((std.pop_perm isHeap).cons entry)
  · rw [if_neg full]
    exact ⟨std.isHeap_push entry isHeap, .inl ⟨Nat.lt_of_not_le full, std.push_perm entry isHeap⟩⟩

end Pushing

/-- A heap that has seen some rows, as copied, and keeps the best of them. -/
structure Holds (limit : Nat) (std : HeapAlgorithms (TopNEntry K) TopNEntry.key) (scheme : KeyScheme Q K)
    (h : TopNHeap V K) (seen : List (K × List (Cell V))) : Prop where
  unsorted : h.finalized = false
  isHeap : std.IsHeap h.heap
  indexed : h.Indexed
  coded : Coded scheme h.heap
  best : Best limit Prod.fst h.kept seen

section Sinking

variable {limit : Nat} {std : HeapAlgorithms (TopNEntry K) TopNEntry.key} {scheme : KeyScheme Q K}
  {h other : TopNHeap V K} {seen more : List (K × List (Cell V))}

theorem holds_new : Holds limit std scheme (new : TopNHeap V K) [] where
  unsorted := rfl
  isHeap := std.isHeap_nil
  indexed _ member := absurd member List.not_mem_nil
  coded _ member := absurd member List.not_mem_nil
  best := best_nil

section
variable (holds : Holds limit std scheme h seen)
include holds

theorem Holds.perm (same : seen.Perm more) : Holds limit std scheme h more :=
  { holds with best := holds.best.perm_right same }

theorem Holds.length_le : h.heap.length ≤ limit := by
  obtain ⟨dropped, -, small, -⟩ := holds.best
  rw [kept, List.length_map] at small
  exact small

theorem Holds.reduce (force : Bool) :
    Holds limit std scheme (h.reduce limit force) seen where
  unsorted := (finalized_reduce limit force h).trans holds.unsorted
  isHeap := std.isHeap_congr holds.isHeap (map_key_reduce limit force h)
  indexed := holds.indexed.reduce limit force
  coded := holds.coded.reduce limit force
  best := kept_reduce limit force h ▸ holds.best

theorem Holds.skip (full : limit ≤ h.heap.length) (rows : List (K × List (Cell V)))
    (greater : ∀ row ∈ rows, ∀ entry ∈ h.heap, entry.key ≤ row.1) : Holds limit std scheme h (rows ++ seen) := by
  have size : h.kept.length = limit := by
    rw [kept, List.length_map]
    exact Nat.le_antisymm holds.length_le full
  refine { holds with best := holds.best.skipAll size rows ?_ }
  intro row member k inside
  obtain ⟨entry, present, rfl⟩ := List.mem_map.mp inside
  exact greater row member entry present

theorem Holds.push (entry : TopNEntry K)
    (next : entry.index = h.payload.length) (add : shouldAdd limit h.heap entry.key = true)
    (coded : ∀ c, entry.firstCode = some c → ∃ q, scheme.sortKey q = entry.key ∧ scheme.firstCode q = some c)
    (row : List (Cell V)) :
    Holds limit std scheme { h with heap := TopNHeap.push limit std h.heap entry, payload := h.payload ++ [row] }
      ((entry.key, row) :: seen) := by
  obtain ⟨isHeap, pushed⟩ := push_spec holds.isHeap add
  have origin : ∀ other ∈ TopNHeap.push limit std h.heap entry, other = entry ∨ other ∈ h.heap := by
    intro other member
    rcases pushed with ⟨-, perm⟩ | ⟨front, rest, same, -, -, -, perm⟩
    · exact List.mem_cons.mp (perm.mem_iff.mp member)
    · rw [same]
      exact (List.mem_cons.mp (perm.mem_iff.mp member)).imp_right (List.mem_cons_of_mem _)
  have placed : (h.payload ++ [row]).getD entry.index [] = row := by
    rw [next, List.getD_eq_getElem?_getD, List.getElem?_append_right (Nat.le_refl _), Nat.sub_self]
    rfl
  refine ⟨holds.unsorted, isHeap, ?_, ?_, ?_⟩
  · intro other member
    rw [List.length_append, List.length_singleton]
    rcases origin other member with rfl | inside
    · omega
    · exact Nat.lt_succ_of_lt (holds.indexed other inside)
  · intro other member
    rcases origin other member with rfl | inside
    · exact coded
    · exact holds.coded other inside
  · rcases pushed with ⟨room, perm⟩ | ⟨front, rest, same, full, less, greatest, perm⟩
    · have kept' := perm.map fun e => (e.key, (h.payload ++ [row]).getD e.index [])
      rw [List.map_cons, placed, map_append_payload holds.indexed] at kept'
      refine (holds.best.add ?_ (entry.key, row)).perm_left kept'.symm
      rw [kept, List.length_map]
      exact room
    · have older : ∀ e ∈ rest, e.index < h.payload.length := by
        intro e member
        exact holds.indexed e (same ▸ List.mem_cons_of_mem _ member)
      have kept' := perm.map fun e => (e.key, (h.payload ++ [row]).getD e.index [])
      rw [List.map_cons, placed, map_append_payload older] at kept'
      have best := holds.best
      have size := holds.length_le
      rw [kept, same] at best
      refine (best.replace ?_ ?_ less).perm_left kept'.symm
      · rw [same, List.length_cons] at full size
        rw [List.length_cons, List.length_map]
        omega
      · intro k inside
        obtain ⟨e, member, rfl⟩ := List.mem_map.mp inside
        exact greatest e member

end

/-- The rows of a chunk as the copy into the payload reads them. -/
def copiedRows (scheme : KeyScheme Q K) (input : InputChunk V Q) (rows : List (Q × Nat)) :
    List (K × List (Cell V)) := rows.map fun p => (scheme.sortKey p.1, input.copiedRow p.2)

theorem sinkLoop_nothing {rows : List (Q × Nat)} {heap : List (TopNEntry K)} {row : Nat}
    (nothing : (sinkLoop limit std scheme rows heap row).2 = []) :
    (sinkLoop limit std scheme rows heap row).1 = heap := by
  induction rows with
  | nil => rfl
  | cons p rows ih =>
    rw [sinkLoop] at nothing ⊢
    split at nothing
    · cases nothing
    · next full =>
      rw [if_neg full]
      exact ih nothing

section
variable (holds : Holds limit std scheme h seen)
include holds

theorem Holds.sinkLoop (input : InputChunk V Q) (rows : List (Q × Nat)) :
    Holds limit std scheme
      { h with heap := (TopNHeap.sinkLoop limit std scheme rows h.heap h.payload.length).1,
               payload := h.payload ++
                (TopNHeap.sinkLoop limit std scheme rows h.heap h.payload.length).2.map input.copiedRow }
      (copiedRows scheme input rows ++ seen) := by
  induction rows generalizing h seen with
  | nil =>
    rw [TopNHeap.sinkLoop, List.map_nil, List.append_nil]
    exact holds
  | cons p rows ih =>
    rw [TopNHeap.sinkLoop]
    by_cases add : shouldAdd limit h.heap (scheme.sortKey p.1) = true
    · have pushed := holds.push ⟨scheme.sortKey p.1, h.payload.length, scheme.firstCode p.1⟩ rfl add
        (fun c found => ⟨p.1, rfl, found⟩) (input.copiedRow p.2)
      have done := ih pushed
      rw [List.length_append] at done
      rw [if_pos add, List.map_cons, List.append_cons]
      exact done.perm List.perm_middle
    · obtain ⟨full, greater⟩ := not_shouldAdd holds.isHeap add
      have skipped := holds.skip full [(scheme.sortKey p.1, input.copiedRow p.2)] (by
        intro row member
        rw [List.mem_singleton.mp member]
        exact greater)
      rw [if_neg add]
      exact (ih skipped).perm List.perm_middle

theorem Holds.sinkRows (input : InputChunk V Q) (rows : List (Q × Nat)) :
    Holds limit std scheme (h.sinkRows limit std scheme input rows) (copiedRows scheme input rows ++ seen) := by
  have done := holds.sinkLoop input rows
  unfold TopNHeap.sinkRows
  dsimp only
  split
  · next empty =>
    have nothing := List.length_eq_zero_iff.mp empty
    rw [nothing, sinkLoop_nothing nothing, List.map_nil, List.append_nil] at done
    exact done
  · exact done.reduce false

/-- A row the prefilter drops has a greater key than every entry of the full heap. -/
theorem Holds.prefiltered {bound : BitVec 64} (found : h.threshold limit = some bound) {p : Q × Nat}
    (dropped : candidate scheme bound p = false) : ∀ entry ∈ h.heap, entry.key ≤ scheme.sortKey p.1 := by
  obtain ⟨-, front, rest, entries, cached⟩ := threshold_eq_some found
  have isHeap := holds.isHeap
  obtain ⟨q, key, code⟩ := holds.coded front (entries ▸ List.mem_cons_self) bound cached
  rw [candidate] at dropped
  split at dropped
  · cases dropped
  · next c coded =>
    have above : bound < c := BitVec.not_le.mp (of_decide_eq_false dropped)
    have less : front.key ≤ scheme.sortKey p.1 := key ▸ le_of_lt (scheme.monotone code coded above)
    rw [entries] at isHeap ⊢
    intro entry member
    rcases List.mem_cons.mp member with rfl | inside
    · exact less
    · exact (std.front_greatest isHeap entry inside).trans less

theorem Holds.sink (input : InputChunk V Q) :
    Holds limit std scheme (h.sink limit std scheme input) (copiedRows scheme input input.keys.zipIdx ++ seen) := by
  unfold TopNHeap.sink
  split
  · next none' =>
    rcases none' with zero | empty
    · apply holds.skip (by omega)
      intro row _ entry member
      have size := List.length_pos_of_mem member
      have small := holds.length_le
      omega
    · rw [List.length_eq_zero_iff.mp empty]
      exact holds
  · split
    · exact holds.sinkRows input _
    · next bound found =>
      have pruned := holds.skip (threshold_eq_some found).1
        (copiedRows scheme input (input.keys.zipIdx.filter fun p => !candidate scheme bound p)) (by
          intro row member
          obtain ⟨p, inside, rfl⟩ := List.mem_map.mp member
          have dropped := (List.mem_filter.mp inside).2
          rw [Bool.not_eq_true'] at dropped
          exact holds.prefiltered found dropped)
      have together : (copiedRows scheme input (input.keys.zipIdx.filter (candidate scheme bound)) ++
          (copiedRows scheme input (input.keys.zipIdx.filter fun p => !candidate scheme bound p) ++ seen)).Perm
            (copiedRows scheme input input.keys.zipIdx ++ seen) := by
        rw [← List.append_assoc]
        apply List.Perm.append_right
        rw [copiedRows, copiedRows, ← List.map_append]
        exact (List.filter_append_perm _ _).map _
      dsimp only
      split
      · next none' =>
        rw [List.length_eq_zero_iff.mp none'] at together
        exact pruned.perm together
      · split
        · exact (pruned.sinkRows input _).perm together
        · exact holds.sinkRows input _

end

end Sinking

end TopNHeap

end BumbleBee.Sort
