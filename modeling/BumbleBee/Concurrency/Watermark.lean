import BumbleBee.Library.CountMap
import Mathlib.Data.Int.Order.Basic

/-!
The garbage-collection watermark of `watermark.cpp`: the smallest read timestamp
any registered transaction holds, or the latest commit timestamp when there is
none. The cached `watermark` field and the counted map are kept in step by
construction.
-/

namespace BumbleBee.Concurrency
open Library

structure Watermark where
  commitTs : Int
  watermark : Int
  currentReads : List (Int × Nat)
  formed : CountMap.WellFormed currentReads
  smallest : ∀ e ∈ currentReads.head?, e.1 = watermark

namespace Watermark

def new (commitTs : Int) : Watermark := ⟨commitTs, commitTs, [], CountMap.WellFormed.nil, by simp⟩

section
variable (w : Watermark)

def count (readTs : Int) : Nat := CountMap.count readTs w.currentReads

theorem add_smallest (readTs : Int) : ∀ e ∈ (CountMap.add readTs w.currentReads).head?,
      e.1 = if w.currentReads.isEmpty ∨ readTs < w.watermark then readTs else w.watermark := by
  intro e first
  have cached := w.smallest
  cases reads : w.currentReads with
  | nil =>
    simp only [reads, CountMap.add, List.head?_cons, Option.mem_def, Option.some.injEq] at first
    simp [← first]
  | cons head rest =>
    have same : head.1 = w.watermark := cached head (by simp [reads])
    simp only [reads, CountMap.add] at first
    split at first
    · next smaller =>
      simp only [List.head?_cons, Option.mem_def, Option.some.injEq] at first
      rw [if_pos (.inr (same ▸ smaller)), ← first]
    · next notSmaller =>
      rw [if_neg (by simp [← same, notSmaller])]
      split at first
      all_goals
        simp only [List.head?_cons, Option.mem_def, Option.some.injEq] at first
        rw [← first, ← same]

/-- Throws when the read timestamp is older than the last commit. -/
def addTxn (readTs : Int) : Option Watermark :=
  if readTs < w.commitTs then none
  else some
    { commitTs := w.commitTs
      watermark := if w.currentReads.isEmpty ∨ readTs < w.watermark then readTs else w.watermark
      currentReads := CountMap.add readTs w.currentReads
      formed := w.formed.add readTs
      smallest := add_smallest w readTs }

/-- Throws when the read timestamp is not registered. -/
def removeTxn (readTs : Int) : Option Watermark :=
  match removed : CountMap.remove readTs w.currentReads with
  | none => none
  | some left => some
      { commitTs := w.commitTs
        watermark := match left with
          | [] => w.watermark
          | first :: _ => first.1
        currentReads := left
        formed := w.formed.remove removed
        smallest := by
          cases left with
          | nil => simp
          | cons first rest => simp }

def updateCommitTs (commitTs : Int) : Watermark := { w with commitTs := commitTs }

def getWatermark : Int :=
  if w.currentReads.isEmpty then w.commitTs else w.watermark

end

variable {w : Watermark} {readTs : Int}

theorem addTxn_eq (fresh : w.commitTs ≤ readTs) :
    ∃ next, addTxn w readTs = some next ∧ next.commitTs = w.commitTs ∧
      ∀ ts, count next ts = count w ts + if ts = readTs then 1 else 0 := by
  refine ⟨_, if_neg (not_lt.mpr fresh), rfl, ?_⟩
  intro ts
  exact CountMap.count_add readTs ts w.formed

theorem removeTxn_eq (registered : 0 < count w readTs) :
    ∃ next, removeTxn w readTs = some next ∧ next.commitTs = w.commitTs ∧
      ∀ ts, count next ts + (if ts = readTs then 1 else 0) = count w ts := by
  obtain ⟨left, removed, counts⟩ := CountMap.remove_count w.formed registered
  unfold removeTxn
  split
  · next missing => rw [removed] at missing; cases missing
  · next other found =>
    rw [removed] at found
    cases found
    exact ⟨_, rfl, rfl, counts⟩

/-- No registered reader is older than the watermark. -/
theorem getWatermark_le (registered : 0 < count w readTs) : getWatermark w ≤ readTs := by
  have formed := w.formed
  have cached := w.smallest
  unfold count at registered
  unfold getWatermark
  cases reads : w.currentReads with
  | nil => simp [reads, CountMap.count] at registered
  | cons first rest =>
    rw [reads] at formed registered
    rw [if_neg (by simp), ← cached first (by simp [reads])]
    exact CountMap.head_le formed registered

/-- The watermark is the last commit, with no reader registered, or the snapshot of a registered reader. -/
theorem getWatermark_cases (w : Watermark) :
    (getWatermark w = w.commitTs ∧ ∀ ts, count w ts = 0) ∨ 0 < count w (getWatermark w) := by
  have formed := w.formed
  have cached := w.smallest
  unfold getWatermark count
  cases reads : w.currentReads with
  | nil => simp [CountMap.count]
  | cons first rest =>
    rw [reads] at formed
    right
    rw [if_neg (by simp), ← cached first (by simp [reads])]
    exact CountMap.head_count_pos formed

end Watermark

end BumbleBee.Concurrency
