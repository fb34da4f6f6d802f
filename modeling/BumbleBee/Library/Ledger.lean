import Mathlib.Algebra.Order.BigOperators.Group.Finset

/-!
A ledger is a family of entries, each of which counts for some amount; its balance
is the sum over a finite set of them. An operation changes one entry.
-/

namespace BumbleBee.Library.Ledger
open Function

variable {ι β : Type} [DecidableEq ι] {f : β → Nat} {family : ι → β} {i : ι} {value : β} {within : Finset ι}

theorem sum_update (member : i ∈ within) :
    ∑ x ∈ within, f (update family i value x) + f (family i) = ∑ x ∈ within, f (family x) + f value := by
  have rest : ∑ x ∈ within.erase i, f (update family i value x) = ∑ x ∈ within.erase i, f (family x) := by
    apply Finset.sum_congr rfl
    intro x other
    rw [update_of_ne (Finset.ne_of_mem_erase other)]
  rw [← Finset.add_sum_erase _ _ member, ← Finset.add_sum_erase _ _ member, update_self]
  omega

theorem posted [Fintype ι] {total next : Nat} (balanced : total = ∑ x, f (family x))
    (posting : next + f (family i) = total + f value) : next = ∑ x, f (update family i value x) := by
  have moved : ∑ x, f (update family i value x) + f (family i) = ∑ x, f (family x) + f value := by
    apply sum_update
    exact Finset.mem_univ i
  omega

omit [DecidableEq ι] in
theorem entry_le [Fintype ι] {total : Nat} (balanced : total = ∑ x, f (family x)) (i : ι) : f (family i) ≤ total := by
  rw [balanced]
  exact Finset.single_le_sum (f := fun x => f (family x)) (fun _ _ => Nat.zero_le _) (Finset.mem_univ i)

end BumbleBee.Library.Ledger
