import Mathlib.Data.List.Sort

/-!
The `n` least elements of a list under a key, ties broken in any way. They can be
kept up one element at a time, dropping the greatest when there is one too many, and
two such selections merge. The last section is what the C++ standard promises of the
heap operations and of sorting.
-/

namespace BumbleBee.Library.Selection
open scoped List

variable {α K : Type} [LinearOrder K]

def ascending (keys : List K) : List K := keys.mergeSort fun a b => decide (a ≤ b)

/-- `kept` are at most `n` elements of `seen`, all of them if there are no more, and none of the others has a
smaller key. -/
def Best (n : Nat) (key : α → K) (kept seen : List α) : Prop :=
  ∃ dropped, (kept ++ dropped).Perm seen ∧ kept.length ≤ n ∧ (dropped = [] ∨ kept.length = n) ∧
    ∀ k ∈ kept, ∀ d ∈ dropped, key k ≤ key d

variable {n : Nat} {key : α → K} {kept seen other : List α} {x worst : α}

theorem best_nil : Best n key ([] : List α) [] :=
  ⟨[], List.Perm.refl _, Nat.zero_le n, .inl rfl, fun _ member => absurd member List.not_mem_nil⟩

section
variable (best : Best n key kept seen)
include best

theorem Best.perm_left (same : kept.Perm other) : Best n key other seen := by
  obtain ⟨dropped, perm, small, full, least⟩ := best
  refine ⟨dropped, (same.symm.append_right dropped).trans perm, same.length_eq ▸ small, same.length_eq ▸ full, ?_⟩
  intro k member
  exact least k (same.mem_iff.mpr member)

theorem Best.perm_right (same : seen.Perm other) : Best n key kept other := by
  obtain ⟨dropped, perm, small, full, least⟩ := best
  exact ⟨dropped, perm.trans same, small, full, least⟩

theorem Best.add (room : kept.length < n) (x : α) : Best n key (x :: kept) (x :: seen) := by
  obtain ⟨dropped, perm, -, full, -⟩ := best
  have none' : dropped = [] := full.resolve_right (Nat.ne_of_lt room)
  rw [none', List.append_nil] at perm
  refine ⟨[], ?_, room, .inl rfl, ?_⟩
  · rw [List.append_nil]
    exact perm.cons x
  · intro k _ d member
    cases member

/-- An element no smaller than all that are kept may be dropped. -/
theorem Best.skip (full : kept.length = n) (greater : ∀ k ∈ kept, key k ≤ key x) :
    Best n key kept (x :: seen) := by
  obtain ⟨dropped, perm, small, -, least⟩ := best
  refine ⟨x :: dropped, List.perm_middle.trans (perm.cons x), small, .inr full, ?_⟩
  intro k member d gone
  rcases List.mem_cons.mp gone with rfl | gone
  · exact greater k member
  · exact least k member d gone

theorem Best.skipAll (full : kept.length = n) (more : List α)
    (greater : ∀ x ∈ more, ∀ k ∈ kept, key k ≤ key x) : Best n key kept (more ++ seen) := by
  induction more with
  | nil => exact best
  | cons x more ih =>
    apply Best.skip (ih fun y member => greater y (List.mem_cons_of_mem _ member)) full
    exact greater x List.mem_cons_self

end

theorem Best.replace (best : Best n key (worst :: kept) seen) (full : (worst :: kept).length = n)
    (greatest : ∀ k ∈ kept, key k ≤ key worst) (smaller : key x < key worst) :
    Best n key (x :: kept) (x :: seen) := by
  obtain ⟨dropped, perm, small, -, least⟩ := best
  refine ⟨worst :: dropped, ?_, small, .inr full, ?_⟩
  · exact (List.perm_middle.trans perm).cons x
  · intro k member d gone
    have below : key k ≤ key worst := by
      rcases List.mem_cons.mp member with rfl | member
      · exact le_of_lt smaller
      · exact greatest k member
    rcases List.mem_cons.mp gone with rfl | gone
    · exact below
    · exact below.trans (least worst List.mem_cons_self d gone)

/-- What is best among the best of a list and others is best among the whole list and the others. -/
theorem Best.absorb {all c : List α} (part : Best n key kept all) (best : Best n key c (kept ++ seen)) :
    Best n key c (all ++ seen) := by
  obtain ⟨dropped, perm, -, full, least⟩ := part
  obtain ⟨out, chosen, small, filled, below⟩ := best
  have together : (c ++ (out ++ dropped)).Perm (all ++ seen) := calc
    c ++ (out ++ dropped) = (c ++ out) ++ dropped := (List.append_assoc ..).symm
    _ ~ (kept ++ seen) ++ dropped := chosen.append_right dropped
    _ = kept ++ (seen ++ dropped) := List.append_assoc ..
    _ ~ kept ++ (dropped ++ seen) := List.perm_append_comm.append_left kept
    _ = (kept ++ dropped) ++ seen := (List.append_assoc ..).symm
    _ ~ all ++ seen := perm.append_right seen
  rcases full with rfl | full
  · rw [List.append_nil] at together
    exact ⟨out, together, small, filled, below⟩
  · have size : c.length = n := by
      rcases filled with rfl | filled
      · have lengths := chosen.length_eq
        rw [List.append_nil, List.length_append] at lengths
        omega
      · exact filled
    refine ⟨out ++ dropped, together, small, .inr size, ?_⟩
    intro k member d gone
    rcases List.mem_append.mp gone with gone | gone
    · exact below k member d gone
    · apply le_of_not_gt
      intro greater
      have kept' : kept.countP (fun x => decide (key x < key k)) = n := by
        rw [← full, List.countP_eq_length]
        intro x inside
        exact decide_eq_true ((least x inside d gone).trans_lt greater)
      have out' : out.countP (fun x => decide (key x < key k)) = 0 := by
        rw [List.countP_eq_zero]
        intro x inside
        rw [decide_eq_true_eq, not_lt]
        exact below k member x inside
      have count := chosen.countP_eq fun x => decide (key x < key k)
      rw [List.countP_append, List.countP_append, out'] at count
      have bound := List.countP_le_length (p := fun x => decide (key x < key k)) (l := c)
      have every := List.countP_eq_length.mp (show c.countP (fun x => decide (key x < key k)) = c.length by omega)
      exact lt_irrefl _ (of_decide_eq_true (every k member))

theorem Best.sorted (best : Best n key kept seen) (sorted : kept.Pairwise fun a b => key a ≤ key b) :
    kept.map key = (ascending (seen.map key)).take n := by
  obtain ⟨dropped, perm, small, full, least⟩ := best
  have whole : (ascending (seen.map key)).Pairwise (· ≤ ·) := List.pairwise_mergeSort' (· ≤ ·) _
  have parts : (kept.map key ++ ascending (dropped.map key)).Pairwise (· ≤ ·) := by
    rw [List.pairwise_append, List.pairwise_map]
    refine ⟨sorted, List.pairwise_mergeSort' (· ≤ ·) _, ?_⟩
    intro a first b second
    obtain ⟨k, member, rfl⟩ := List.mem_map.mp first
    obtain ⟨d, gone, rfl⟩ := List.mem_map.mp ((List.mergeSort_perm _ _).mem_iff.mp second)
    exact least k member d gone
  have together : (ascending (seen.map key)).Perm (kept.map key ++ ascending (dropped.map key)) := calc
    ascending (seen.map key) ~ seen.map key := List.mergeSort_perm _ _
    _ ~ (kept ++ dropped).map key := perm.symm.map key
    _ = kept.map key ++ dropped.map key := List.map_append
    _ ~ kept.map key ++ ascending (dropped.map key) := (List.mergeSort_perm _ _).symm.append_left _
  have same : ascending (seen.map key) = kept.map key ++ ascending (dropped.map key) :=
    List.Perm.eq_of_pairwise (fun _ _ _ _ => le_antisymm) whole parts together
  rw [same]
  rcases full with rfl | full
  · rw [List.map_nil, ascending, List.mergeSort_nil, List.append_nil, List.take_of_length_le]
    rw [List.length_map]
    exact small
  · exact (List.take_left' (by rw [List.length_map, full])).symm

section Algorithms

variable {E : Type}

/-- `push_back` with `push_heap`, `pop_heap` with `pop_back`, and `sort`, which see nothing but the keys. -/
structure HeapAlgorithms (E : Type) (key : E → K) where
  IsHeap : List E → Prop
  push : List E → E → List E
  pop : List E → List E
  sort : List E → List E
  isHeap_nil : IsHeap []
  isHeap_congr : ∀ {heap other}, IsHeap heap → other.map key = heap.map key → IsHeap other
  front_greatest : ∀ {front rest}, IsHeap (front :: rest) → ∀ e ∈ rest, key e ≤ key front
  isHeap_push : ∀ {heap} (e : E), IsHeap heap → IsHeap (push heap e)
  push_perm : ∀ {heap} (e : E), IsHeap heap → (push heap e).Perm (e :: heap)
  isHeap_pop : ∀ {front rest}, IsHeap (front :: rest) → IsHeap (pop (front :: rest))
  pop_perm : ∀ {front rest}, IsHeap (front :: rest) → (pop (front :: rest)).Perm rest
  sort_perm : ∀ entries, (sort entries).Perm entries
  sort_sorted : ∀ entries, (sort entries).Pairwise fun a b => key a ≤ key b

def insertByKey (key : E → K) (e : E) : List E → List E
  | [] => [e]
  | x :: rest => if key x ≤ key e then e :: x :: rest else x :: insertByKey key e rest

theorem insertByKey_perm (key : E → K) (e : E) (entries : List E) : (insertByKey key e entries).Perm (e :: entries) := by
  induction entries with
  | nil => exact List.Perm.refl _
  | cons x rest ih =>
    rw [insertByKey]
    split
    · exact List.Perm.refl _
    · exact (ih.cons x).trans (List.Perm.swap e x rest)

theorem insertByKey_sorted {key : E → K} (e : E) {entries : List E}
    (sorted : entries.Pairwise fun a b => key b ≤ key a) :
    (insertByKey key e entries).Pairwise fun a b => key b ≤ key a := by
  induction entries with
  | nil => exact List.pairwise_singleton _ e
  | cons x rest ih =>
    obtain ⟨first, others⟩ := List.pairwise_cons.mp sorted
    rw [insertByKey]
    split
    · next less =>
      refine List.pairwise_cons.mpr ⟨?_, sorted⟩
      intro y member
      rcases List.mem_cons.mp member with rfl | inside
      · exact less
      · exact (first y inside).trans less
    · next greater =>
      refine List.pairwise_cons.mpr ⟨?_, ih others⟩
      intro y member
      rcases List.mem_cons.mp ((insertByKey_perm key e rest).mem_iff.mp member) with rfl | inside
      · exact le_of_not_ge greater
      · exact first y inside

def sortByKey (key : E → K) (entries : List E) : List E := entries.foldr (insertByKey key) []

theorem sortByKey_spec (key : E → K) (entries : List E) :
    (sortByKey key entries).Perm entries ∧ (sortByKey key entries).Pairwise fun a b => key b ≤ key a := by
  induction entries with
  | nil => exact ⟨List.Perm.refl _, List.Pairwise.nil⟩
  | cons e entries ih =>
    exact ⟨(insertByKey_perm key e _).trans (ih.1.cons e), insertByKey_sorted e ih.2⟩

/-- A list in descending order is a heap. -/
def descendingHeap (key : E → K) : HeapAlgorithms E key where
  IsHeap heap := heap.Pairwise fun a b => key b ≤ key a
  push heap e := insertByKey key e heap
  pop := List.tail
  sort entries := (sortByKey key entries).reverse
  isHeap_nil := List.Pairwise.nil
  isHeap_congr := by
    intro heap other isHeap same
    rw [← List.pairwise_map (f := key) (R := fun a b => b ≤ a)] at isHeap ⊢
    rw [same]
    exact isHeap
  front_greatest isHeap := (List.pairwise_cons.mp isHeap).1
  isHeap_push e isHeap := insertByKey_sorted e isHeap
  push_perm e _ := insertByKey_perm key e _
  isHeap_pop isHeap := (List.pairwise_cons.mp isHeap).2
  pop_perm _ := List.Perm.refl _
  sort_perm entries := (List.reverse_perm _).trans (sortByKey_spec key entries).1
  sort_sorted entries := List.pairwise_reverse.mpr (sortByKey_spec key entries).2

end Algorithms

end BumbleBee.Library.Selection
