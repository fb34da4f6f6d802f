import Mathlib.Data.List.Basic
import Mathlib.Order.Basic

/-!
Multi-version histories: the versions of one item, newest first, each with the
timestamp from which it is current. `none` is the version a deletion leaves.
-/

namespace BumbleBee.Library.Versions

structure Version (ν : Type) where
  ts : Int
  value : Option ν

variable {ν : Type}

/-- The value current at `ts`: that of the newest version not younger than it. -/
def snapshot : List (Version ν) → Int → Option ν
  | [], _ => none
  | v :: older, ts => if v.ts ≤ ts then v.value else snapshot older ts

/-- Histories end in nothing, or in a deletion older than every snapshot. -/
def IsGround (ground : List (Version ν)) : Prop := ground = [] ∨ ground = [⟨0, none⟩]

variable {older : List (Version ν)} {ts : Int} {v : Version ν}

theorem snapshot_head (current : v.ts ≤ ts) :
    snapshot (v :: older) ts = v.value := if_pos current

theorem snapshot_tail (newer : ts < v.ts) :
    snapshot (v :: older) ts = snapshot older ts := if_neg (by omega)

variable {versions : List (Version ν)}

theorem snapshot_mem {value : ν}
    (shown : snapshot versions ts = some value) : ∃ v ∈ versions, v.value = some value := by
  induction versions with
  | nil => cases shown
  | cons v older ih =>
    simp only [snapshot] at shown
    split at shown
    · exact ⟨v, by simp, shown⟩
    · obtain ⟨w, member, same⟩ := ih shown
      exact ⟨w, List.mem_cons_of_mem _ member, same⟩

theorem snapshot_ground (versions : List (Version ν)) {ground : List (Version ν)} (flat : IsGround ground)
    (ts : Int) : snapshot (versions ++ ground) ts = snapshot versions ts := by
  induction versions with
  | nil =>
    rcases flat with rfl | rfl
    · rfl
    · simp only [List.nil_append, snapshot]
      split <;> rfl
  | cons v older ih =>
    simp only [List.cons_append, snapshot]
    split
    · rfl
    · exact ih

theorem newest_unique {v' : Version ν} {older' ground ground' : List (Version ν)} (flat : IsGround ground)
    (flat' : IsGround ground') (first : v :: older = versions ++ ground)
    (second : v' :: older' = versions ++ ground') : v = v' := by
  cases versions with
  | cons newest rest =>
    rw [List.cons_append, List.cons.injEq] at first second
    rw [first.1, second.1]
  | nil =>
    rcases flat with rfl | rfl
    · cases first
    · rcases flat' with rfl | rfl
      · cases second
      · rw [List.nil_append, List.cons.injEq] at first second
        rw [first.1, second.1]

/-- In a history ordered newest first, `snapshot` picks the newest version not younger. -/
theorem snapshot_spec (ordered : versions.Pairwise fun newer older => older.ts < newer.ts) (ts : Int) :
    (∃ v ∈ versions, v.ts ≤ ts ∧ snapshot versions ts = v.value ∧
        ∀ w ∈ versions, w.ts ≤ ts → w.ts ≤ v.ts) ∨
      (snapshot versions ts = none ∧ ∀ w ∈ versions, ts < w.ts) := by
  induction versions with
  | nil => exact .inr ⟨rfl, by simp⟩
  | cons v older ih =>
    obtain ⟨newest, tail⟩ := List.pairwise_cons.mp ordered
    by_cases current : v.ts ≤ ts
    · refine .inl ⟨v, by simp, current, snapshot_head current, ?_⟩
      intro w member _
      rcases List.mem_cons.mp member with rfl | inside
      · exact Int.le_refl _
      · exact Int.le_of_lt (newest w inside)
    · have future : ts < v.ts := by omega
      rw [snapshot_tail future]
      rcases ih tail with ⟨w, member, seen, value, greatest⟩ | ⟨missing, younger⟩
      · refine .inl ⟨w, List.mem_cons_of_mem _ member, seen, value, ?_⟩
        intro u inside before
        rcases List.mem_cons.mp inside with rfl | later
        · omega
        · exact greatest u later before
      · refine .inr ⟨missing, ?_⟩
        intro w member
        rcases List.mem_cons.mp member with rfl | inside
        · exact future
        · exact younger w inside

theorem snapshot_of_unchanged {later : Int} (order : ts ≤ later)
    (unchanged : ∀ v ∈ versions, v.ts ≤ later → v.ts ≤ ts) : snapshot versions later = snapshot versions ts := by
  induction versions with
  | nil => rfl
  | cons v older ih =>
    by_cases current : v.ts ≤ ts
    · rw [snapshot_head current, snapshot_head (Int.le_trans current order)]
    · have future : later < v.ts := by
        by_contra seen
        exact current (unchanged v (by simp) (by omega))
      rw [snapshot_tail future, snapshot_tail (by omega)]
      exact ih fun w member => unchanged w (List.mem_cons_of_mem _ member)

/-- Every version newer than `ts`, and the one current at it, misses what was looked for. -/
def Cleared (missed : ν → Prop) (ts : Int) : List (Version ν) → Prop
  | [] => True
  | v :: older => (∀ value, v.value = some value → missed value) ∧ (ts < v.ts → Cleared missed ts older)

variable {missed : ν → Prop}

theorem Cleared.snapshot {later : Int} (cleared : Cleared missed ts versions) (order : ts ≤ later) {value : ν}
    (shown : snapshot versions later = some value) : missed value := by
  induction versions with
  | nil => cases shown
  | cons v older ih =>
    by_cases current : v.ts ≤ later
    · rw [snapshot_head current] at shown
      exact cleared.1 value shown
    · rw [snapshot_tail (by omega)] at shown
      exact ih (cleared.2 (by omega)) shown

theorem cleared_append {seen : List (Version ν)}
    (passed : ∀ v ∈ seen, ∀ value, v.value = some value → missed value) (rest : Cleared missed ts older) :
    Cleared missed ts (seen ++ older) := by
  induction seen with
  | nil => exact rest
  | cons v later ih =>
    refine ⟨passed v (by simp), fun _ => ih ?_⟩
    exact fun w member => passed w (List.mem_cons_of_mem _ member)

theorem Cleared.of_append (cleared : Cleared missed ts (versions ++ older)) : Cleared missed ts versions := by
  induction versions with
  | nil => trivial
  | cons v later ih => exact ⟨cleared.1, fun newer => ih (cleared.2 newer)⟩

theorem Cleared.mono {missed' : ν → Prop} (cleared : Cleared missed ts versions)
    (weaker : ∀ value, missed value → missed' value) : Cleared missed' ts versions := by
  induction versions with
  | nil => trivial
  | cons v older ih => exact ⟨fun value same => weaker value (cleared.1 value same), fun newer => ih (cleared.2 newer)⟩

end BumbleBee.Library.Versions
