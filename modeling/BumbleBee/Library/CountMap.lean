import Mathlib.Order.Lattice
import Mathlib.Data.List.Basic

/-!
A multiset kept as an association list sorted by key, each key with its number of
occurrences. Lookups need no well-formedness; the smallest key does.
-/

namespace BumbleBee.Library.CountMap

variable {κ : Type} [LinearOrder κ]

def count (k : κ) : List (κ × Nat) → Nat
  | [] => 0
  | (key, n) :: rest => if k = key then n else count k rest

def add (k : κ) : List (κ × Nat) → List (κ × Nat)
  | [] => [(k, 1)]
  | (key, n) :: rest =>
    if k < key then (k, 1) :: (key, n) :: rest
    else if k = key then (key, n + 1) :: rest
    else (key, n) :: add k rest

/-- Removes one occurrence; `none` when the key is absent. -/
def remove (k : κ) : List (κ × Nat) → Option (List (κ × Nat))
  | [] => none
  | (key, n) :: rest =>
    if k = key then some (if n - 1 = 0 then rest else (key, n - 1) :: rest)
    else (remove k rest).map ((key, n) :: ·)

structure WellFormed (entries : List (κ × Nat)) : Prop where
  sorted : entries.Pairwise (fun a b => a.1 < b.1)
  positive : ∀ e ∈ entries, 0 < e.2

theorem WellFormed.nil : WellFormed ([] : List (κ × Nat)) :=
  ⟨List.Pairwise.nil, by simp⟩

variable {rest : List (κ × Nat)} {e : κ × Nat}

theorem WellFormed.tail (formed : WellFormed (e :: rest)) : WellFormed rest :=
  ⟨formed.sorted.of_cons, fun x member => formed.positive x (List.mem_cons_of_mem _ member)⟩

theorem WellFormed.cons (formed : WellFormed rest)
    (below : ∀ x ∈ rest, e.1 < x.1) (positive : 0 < e.2) : WellFormed (e :: rest) := by
  refine ⟨List.pairwise_cons.mpr ⟨below, formed.sorted⟩, ?_⟩
  intro x member
  rcases List.mem_cons.mp member with same | later
  · exact same ▸ positive
  · exact formed.positive x later

theorem WellFormed.below (formed : WellFormed (e :: rest)) : ∀ x ∈ rest, e.1 < x.1 :=
  (List.pairwise_cons.mp formed.sorted).1

variable {entries : List (κ × Nat)} {k : κ}

theorem count_eq_zero_of_below (below : ∀ x ∈ entries, k < x.1) : count k entries = 0 := by
  induction entries with
  | nil => rfl
  | cons e rest ih =>
    have different : k ≠ e.1 := ne_of_lt (below e (by simp))
    simp only [count, if_neg different]
    exact ih fun x member => below x (List.mem_cons_of_mem _ member)

theorem mem_of_count_pos (present : 0 < count k entries) : ∃ n, (k, n) ∈ entries := by
  induction entries with
  | nil => simp [count] at present
  | cons e rest ih =>
    by_cases same : k = e.1
    · exact ⟨e.2, by simp [same]⟩
    · simp only [count, if_neg same] at present
      obtain ⟨n, member⟩ := ih present
      exact ⟨n, List.mem_cons_of_mem _ member⟩

theorem mem_add {x : κ × Nat} (member : x ∈ add k entries) : x.1 = k ∨ ∃ y ∈ entries, y.1 = x.1 := by
  induction entries with
  | nil =>
    simp only [add, List.mem_singleton] at member
    exact .inl (by rw [member])
  | cons e rest ih =>
    simp only [add] at member
    split at member
    · rcases List.mem_cons.mp member with same | later
      · exact .inl (by rw [same])
      · exact .inr ⟨x, later, rfl⟩
    · split at member
      · rcases List.mem_cons.mp member with same | later
        · exact .inr ⟨e, by simp, by rw [same]⟩
        · exact .inr ⟨x, List.mem_cons_of_mem _ later, rfl⟩
      · rcases List.mem_cons.mp member with same | later
        · exact .inr ⟨e, by simp, by rw [same]⟩
        · rcases ih later with here | ⟨y, inside, same⟩
          · exact .inl here
          · exact .inr ⟨y, List.mem_cons_of_mem _ inside, same⟩

theorem count_add (k other : κ) (formed : WellFormed entries) :
    count other (add k entries) = count other entries + if other = k then 1 else 0 := by
  induction entries with
  | nil => simp [add, count]
  | cons e rest ih =>
    simp only [add]
    split
    · next smaller =>
      by_cases same : other = k
      · subst same
        have absent : count other (e :: rest) = 0 := by
          apply count_eq_zero_of_below
          intro x member
          rcases List.mem_cons.mp member with here | later
          · rw [here]; exact smaller
          · exact lt_trans smaller (formed.below x later)
        simp [count] at absent ⊢
        omega
      · simp [count, same]
    · split
      · next _ same =>
        subst same
        by_cases here : other = e.1 <;> simp [count, here]
      · next _ different =>
        by_cases here : other = e.1
        · have apart : other ≠ k := fun same => different (same ▸ here)
          simp [count, here]
          exact fun same => absurd (here.trans same) apart
        · simp only [count, if_neg here]
          exact ih formed.tail

theorem WellFormed.add (k : κ) (formed : WellFormed entries) : WellFormed (add k entries) := by
  induction entries with
  | nil => exact WellFormed.cons WellFormed.nil (by simp) (by simp)
  | cons e rest ih =>
    simp only [CountMap.add]
    split
    · next smaller =>
      refine formed.cons ?_ (by simp)
      intro x member
      rcases List.mem_cons.mp member with here | later
      · rw [here]; exact smaller
      · exact lt_trans smaller (formed.below x later)
    · next notSmaller =>
      split
      · exact formed.tail.cons formed.below (Nat.succ_pos _)
      · next different =>
        have larger : e.1 < k := lt_of_le_of_ne (not_lt.mp notSmaller) (Ne.symm different)
        refine (ih formed.tail).cons ?_ (formed.positive e (by simp))
        intro x member
        rcases mem_add member with same | ⟨y, inside, same⟩
        · rw [same]; exact larger
        · rw [← same]; exact formed.below y inside

theorem mem_remove {left : List (κ × Nat)} (removed : remove k entries = some left)
    {x : κ × Nat} (member : x ∈ left) : ∃ y ∈ entries, y.1 = x.1 := by
  induction entries generalizing left with
  | nil => cases removed
  | cons e rest ih =>
    simp only [remove] at removed
    split at removed
    · simp only [Option.some.injEq] at removed
      subst removed
      split at member
      · exact ⟨x, List.mem_cons_of_mem _ member, rfl⟩
      · rcases List.mem_cons.mp member with same | later
        · exact ⟨e, by simp, by rw [same]⟩
        · exact ⟨x, List.mem_cons_of_mem _ later, rfl⟩
    · obtain ⟨inner, found, rfl⟩ := Option.map_eq_some_iff.mp removed
      rcases List.mem_cons.mp member with same | later
      · exact ⟨e, by simp, by rw [same]⟩
      · obtain ⟨y, inside, same⟩ := ih found later
        exact ⟨y, List.mem_cons_of_mem _ inside, same⟩

theorem WellFormed.remove {left : List (κ × Nat)} (formed : WellFormed entries)
    (removed : remove k entries = some left) : WellFormed left := by
  induction entries generalizing left with
  | nil => cases removed
  | cons e rest ih =>
    simp only [CountMap.remove] at removed
    split at removed
    · simp only [Option.some.injEq] at removed
      subst removed
      split
      · exact formed.tail
      · next more => exact formed.tail.cons formed.below (Nat.pos_of_ne_zero more)
    · obtain ⟨inner, found, rfl⟩ := Option.map_eq_some_iff.mp removed
      refine (ih formed.tail found).cons ?_ (formed.positive e (by simp))
      intro x member
      obtain ⟨y, inside, same⟩ := mem_remove found member
      rw [← same]
      exact formed.below y inside

theorem remove_count (formed : WellFormed entries) (present : 0 < count k entries) :
    ∃ left, remove k entries = some left ∧
      ∀ other, count other left + (if other = k then 1 else 0) = count other entries := by
  induction entries with
  | nil => simp [count] at present
  | cons e rest ih =>
    by_cases same : k = e.1
    · refine ⟨_, if_pos same, ?_⟩
      intro other
      have positive := formed.positive e (by simp)
      have absent : count e.1 rest = 0 := count_eq_zero_of_below formed.below
      split
      · by_cases here : other = k
        · subst here
          simp only [count, if_pos same, if_true]
          rw [same]
          omega
        · have apart : other ≠ e.1 := fun equal => here (equal.trans same.symm)
          simp only [count, if_neg here, if_neg apart, Nat.add_zero]
      · by_cases here : other = k
        · subst here
          simp only [count, if_pos same, if_true]
          omega
        · have apart : other ≠ e.1 := fun equal => here (equal.trans same.symm)
          simp only [count, if_neg here, if_neg apart, Nat.add_zero]
    · simp only [count, if_neg same] at present
      obtain ⟨left, removed, counts⟩ := ih formed.tail present
      refine ⟨e :: left, by simp only [remove, if_neg same, removed, Option.map_some], ?_⟩
      intro other
      by_cases here : other = e.1
      · have apart : other ≠ k := fun equal => same (equal.symm.trans here)
        simp only [count, if_pos here, if_neg apart, Nat.add_zero]
      · simp only [count, if_neg here]
        exact counts other

theorem head_le (formed : WellFormed (e :: rest)) (present : 0 < count k (e :: rest)) : e.1 ≤ k := by
  obtain ⟨n, member⟩ := mem_of_count_pos present
  rcases List.mem_cons.mp member with same | later
  · exact le_of_eq (congrArg Prod.fst same).symm
  · exact le_of_lt (formed.below _ later)

theorem head_count_pos (formed : WellFormed (e :: rest)) : 0 < count e.1 (e :: rest) := by
  simpa [count] using formed.positive e (by simp)

end BumbleBee.Library.CountMap
