import BumbleBee.Library.Ledger
import BumbleBee.Main.QueryMemory

/-!
The books of the memory managers. Every atomic operation posts the same amount to a
counter and to what its task holds, so the counters are the sums of what is held,
as long as the external sort never counts a reservation it was refused.
-/

namespace BumbleBee.Main
open Library.Transition Library.Ledger Function

theorem fits_iff {budget current bytes : UInt64} :
    fits budget current bytes = true ↔ current.toNat + bytes.toNat ≤ budget.toNat := by
  unfold fits
  by_cases large : bytes > budget
  · have beyond := UInt64.lt_iff_toNat_lt.mp large
    simp only [large, decide_true, Bool.true_or, Bool.not_true, Bool.false_eq_true, false_iff]
    omega
  · have within := UInt64.le_iff_toNat_le.mp (UInt64.not_lt.mp large)
    have room := UInt64.toNat_sub_of_le budget bytes (UInt64.not_lt.mp large)
    simp only [large, decide_false, Bool.false_or, Bool.not_eq_true', decide_eq_false_iff_not,
      UInt64.lt_iff_toNat_lt]
    omega

theorem toNat_add_of_fits {budget current bytes : UInt64} (room : fits budget current bytes = true) :
    (current + bytes).toNat = current.toNat + bytes.toNat ∧ current + bytes ≤ budget := by
  have below := fits_iff.mp room
  have small : current.toNat + bytes.toNat < 2 ^ 64 := lt_of_le_of_lt below budget.toNat_lt
  have sum : (current + bytes).toNat = current.toNat + bytes.toNat := by
    rw [UInt64.toNat_add, Nat.mod_eq_of_lt small]
  refine ⟨sum, ?_⟩
  rw [UInt64.le_iff_toNat_le, sum]
  exact below

namespace Task

/-- What of a task the query's counter shows. -/
def booked (task : Task) : Nat :=
  match task.point with
  | .confirming bytes _ _ | .returning bytes _ _ => task.held + bytes.toNat
  | .spilled _ _ _ | .combined _ => 0
  | _ => task.held

/-- The external sort's tally is what the task holds. -/
def Balanced (task : Task) : Prop :=
  match task.point with
  | .appending bytes _ true => task.operator = .externalMergeSort → task.held = task.reserved.toNat + bytes.toNat
  | .spilled _ _ released | .combined released => task.held = released.toNat
  | .spilling _ _ | .combining => task.held = task.reserved.toNat
  | _ => task.operator = .externalMergeSort → task.held = task.reserved.toNat

variable {task : Task}

theorem Balanced.split (balanced : task.Balanced) : task.booked + task.releasing = task.held + task.reserving := by
  unfold Balanced at balanced
  unfold booked releasing reserving
  cases point : task.point with
  | spilled | combined =>
    simp only [point] at balanced
    simp [balanced]
  | _ => rfl

theorem booked_of_atRest (rest : task.atRest = true) : task.booked = task.held := by
  unfold atRest at rest
  unfold booked
  cases point : task.point with
  | confirming | returning | spilled | combined => simp [point] at rest
  | _ => rfl

theorem refused_kept (task : Task) {bytes rows : UInt64} {again : Bool}
    (tally : task.operator = .externalMergeSort → task.held = task.reserved.toNat) :
    Balanced { task with point := task.refused bytes rows again } ∧
      booked { task with point := task.refused bytes rows again } = task.held := by
  unfold refused
  cases operator : task.operator with
  | inMemory => exact ⟨nofun, rfl⟩
  | externalMergeSort =>
    simp only
    split
    · exact ⟨tally operator, rfl⟩
    · exact ⟨fun _ => tally operator, rfl⟩

end Task

theorem toNat_sub_of_held (used bytes : UInt64) {budget : UInt64} (held : bytes.toNat ≤ used.toNat)
    (within : used ≤ budget) :
    (used - bytes).toNat = used.toNat - bytes.toNat ∧ used - bytes ≤ budget := by
  have difference := UInt64.toNat_sub_of_le used bytes (UInt64.le_iff_toNat_le.mpr held)
  rw [UInt64.le_iff_toNat_le]
  have below := UInt64.le_iff_toNat_le.mp within
  omega

namespace Memory

variable {Q T : Type} {s next : Memory Q T} {t : T} {q : Q} [DecidableEq Q] [Fintype T]

def heldBy (s : Memory Q T) (q : Q) : Nat := ∑ t with s.owner t = q, (s.tasks t).held

def reservingBy (s : Memory Q T) (q : Q) : Nat := ∑ t with s.owner t = q, (s.tasks t).reserving

def releasingBy (s : Memory Q T) (q : Q) : Nat := ∑ t with s.owner t = q, (s.tasks t).releasing

def bookedBy (s : Memory Q T) (q : Q) : Nat := ∑ t with s.owner t = q, (s.tasks t).booked

def heldTotal (s : Memory Q T) : Nat := ∑ t, (s.tasks t).held

/-- The books of one query. -/
structure Account (s : Memory Q T) (q : Q) : Prop where
  used : (s.queries q).stage = .running → (s.queries q).used.toNat = s.bookedBy q
  within : (s.queries q).used ≤ (s.queries q).budget
  balanced : (s.queries q).stage = .running → ∀ t, s.owner t = q → (s.tasks t).Balanced
  draining : ∀ outstanding, (s.queries q).stage = .draining outstanding → outstanding.toNat = s.heldBy q
  ended : (s.queries q).stage = .ended → ∀ t, s.owner t = q → (s.tasks t).held = 0

structure Books (s : Memory Q T) : Prop where
  account : ∀ q, s.Account q
  total : s.globalUsed.toNat = s.heldTotal
  totalWithin : s.globalUsed ≤ s.globalBudget

theorem Books.booked_le (books : s.Books) (t : T) (running : (s.query t).stage = .running) :
    (s.tasks t).booked ≤ (s.query t).used.toNat := by
  have member : t ∈ ({x | s.owner x = s.owner t} : Finset T) := Finset.mem_filter.mpr ⟨Finset.mem_univ t, rfl⟩
  have part : (s.tasks t).booked ≤ s.bookedBy (s.owner t) :=
    Finset.single_le_sum (f := fun x => (s.tasks x).booked) (fun _ _ => Nat.zero_le _) member
  exact part.trans ((books.account (s.owner t)).used running).ge

theorem Account.split (account : s.Account q) (running : (s.queries q).stage = .running) :
    (s.queries q).used.toNat + s.releasingBy q = s.heldBy q + s.reservingBy q := by
  rw [account.used running]
  unfold bookedBy releasingBy heldBy reservingBy
  rw [← Finset.sum_add_distrib, ← Finset.sum_add_distrib]
  refine Finset.sum_congr rfl fun t member => ?_
  exact (account.balanced running t (Finset.mem_filter.mp member).2).split

/-- A query whose manager and tasks are as they were. -/
theorem Account.frame (account : s.Account q) (owner : next.owner = s.owner) (query : next.queries q = s.queries q)
    (tasks : ∀ t, s.owner t = q → next.tasks t = s.tasks t) : next.Account q := by
  have sums : ∀ f : Task → Nat, ∑ t with next.owner t = q, f (next.tasks t) = ∑ t with s.owner t = q, f (s.tasks t) := by
    intro f
    rw [owner]
    refine Finset.sum_congr rfl fun t member => ?_
    rw [tasks t (Finset.mem_filter.mp member).2]
  have booked : next.bookedBy q = s.bookedBy q := sums Task.booked
  have held : next.heldBy q = s.heldBy q := sums Task.held
  refine ⟨?_, ?_, ?_, ?_, ?_⟩
  · rw [query, booked]
    exact account.used
  · rw [query]
    exact account.within
  · intro running t here
    rw [owner] at here
    rw [tasks t here]
    exact account.balanced (query ▸ running) t here
  · rw [query, held]
    exact account.draining
  · intro stage t here
    rw [owner] at here
    rw [tasks t here]
    exact account.ended (query ▸ stage) t here

theorem Books.destroy (books : s.Books) (taken : s.destroy q = some next) : next.Books := by
  unfold Memory.destroy at taken
  split at taken
  · next allowed =>
    obtain ⟨running, rest⟩ := allowed
    cases taken
    refine ⟨fun other => ?_, books.total, books.totalWithin⟩
    by_cases here : other = q
    · subst here
      refine ⟨?_, ?_, ?_, ?_, ?_⟩ <;> simp only [update_self]
      · exact nofun
      · exact UInt64.zero_le
      · exact nofun
      · rintro outstanding ⟨⟩
        rw [(books.account other).used running]
        exact Finset.sum_congr rfl fun t member => Task.booked_of_atRest (rest t (Finset.mem_filter.mp member).2)
      · exact nofun
    · exact (books.account other).frame rfl (update_of_ne here _ _) fun _ _ => rfl
  · cases taken

/-- What the destructor gives back is what the query's tasks still held. -/
theorem Books.drain (books : s.Books) (taken : s.drain q = some next) : next.Books := by
  unfold Memory.drain at taken
  split at taken
  · next outstanding draining =>
    cases taken
    have owed := (books.account q).draining outstanding draining
    have total := books.total
    have parts : s.heldTotal = s.heldBy q + ∑ t with ¬s.owner t = q, (s.tasks t).held :=
      (Finset.sum_filter_add_sum_filter_not _ _ _).symm
    obtain ⟨difference, below⟩ := toNat_sub_of_held s.globalUsed outstanding (by omega) books.totalWithin
    refine ⟨fun other => ?_, ?_, below⟩
    · by_cases here : other = q
      · subst here
        refine ⟨?_, ?_, ?_, ?_, ?_⟩ <;> simp only [update_self]
        · exact nofun
        · exact (books.account other).within
        · exact nofun
        · exact nofun
        · intro _ t owner
          rw [if_pos owner]
      · refine (books.account other).frame rfl (update_of_ne here _ _) fun t owner => ?_
        exact if_neg (owner.symm ▸ here)
    · have left : ∀ t, (if s.owner t = q then { s.tasks t with held := 0 } else s.tasks t).held =
          if ¬s.owner t = q then (s.tasks t).held else 0 := by
        intro t
        split <;> simp_all
      simp only [heldTotal, left]
      rw [← Finset.sum_filter]
      omega
  · cases taken

section

variable [DecidableEq T]

/-- A task's next state with the counters after the operation. -/
def posted (s : Memory Q T) (t : T) (task : Task) (used globalUsed : UInt64) : Memory Q T :=
  ({ s with globalUsed := globalUsed }.setUsed (s.owner t) used).setTask t task

omit [Fintype T] in
theorem posted_keeping (s : Memory Q T) (t : T) (task : Task) (globalUsed : UInt64) :
    s.posted t task (s.query t).used globalUsed = { s with globalUsed := globalUsed }.setTask t task := by
  unfold posted setUsed query
  rw [update_eq_self]

theorem Books.posted (books : s.Books) (task : Task) (used globalUsed : UInt64)
    (running : (s.query t).stage = .running)
    (local' : used.toNat + (s.tasks t).booked = (s.query t).used.toNat + task.booked)
    (within : used ≤ (s.query t).budget)
    (global' : globalUsed.toNat + (s.tasks t).held = s.globalUsed.toNat + task.held)
    (totalWithin : globalUsed ≤ s.globalBudget) (balanced : task.Balanced) :
    (s.posted t task used globalUsed).Books := by
  have here : (s.posted t task used globalUsed).queries (s.owner t) = { s.query t with used := used } :=
    update_self _ _ _
  have stage : ((s.posted t task used globalUsed).queries (s.owner t)).stage = .running := by
    rw [here]
    exact running
  have tasks : ∀ other, other ≠ t → (s.posted t task used globalUsed).tasks other = s.tasks other :=
    fun other apart => update_of_ne apart _ _
  refine ⟨fun q => ?_, ?_, totalWithin⟩
  · by_cases same : q = s.owner t
    · subst same
      have own := books.account (s.owner t)
      refine ⟨?_, ?_, ?_, ?_, ?_⟩
      · intro _
        have sum : (s.posted t task used globalUsed).bookedBy (s.owner t) + (s.tasks t).booked =
            s.bookedBy (s.owner t) + task.booked :=
          sum_update (Finset.mem_filter.mpr ⟨Finset.mem_univ t, rfl⟩)
        have before := own.used running
        rw [here]
        unfold query at local'
        simp only
        omega
      · rw [here]
        exact within
      · intro _ other owner
        by_cases mine : other = t
        · subst mine
          rw [show (s.posted other task used globalUsed).tasks other = task from update_self _ _ _]
          exact balanced
        · rw [tasks other mine]
          exact own.balanced running other owner
      · intro outstanding draining
        rw [stage] at draining
        cases draining
      · intro ended
        rw [stage] at ended
        cases ended
    · refine (books.account q).frame rfl (update_of_ne same _ _) fun other owner => tasks other ?_
      rintro rfl
      exact same owner.symm
  · exact Library.Ledger.posted books.total global'

/-- The external sort counts a chunk it appends only if the chunk was reserved. -/
def Granted (s : Memory Q T) (a : MemoryAction Q T) : Prop :=
  ∀ t, a = .advance t → ∀ bytes rows, (s.tasks t).point ≠ .appending bytes rows false

section

variable {bytes rows released : UInt64} {again : Bool} (books : s.Books) (running : (s.query t).stage = .running)
include books running

theorem Books.charged (task : Task) (used : UInt64)
    (moved : used.toNat + (s.tasks t).booked = (s.query t).used.toNat + task.booked)
    (within : used ≤ (s.query t).budget) (kept : task.held = (s.tasks t).held) (balanced : task.Balanced) :
    ((s.setUsed (s.owner t) used).setTask t task).Books := by
  apply books.posted task used s.globalUsed running moved within _ books.totalWithin balanced
  rw [kept]

theorem Books.chargedGlobally (task : Task) (globalUsed : UInt64) (kept : task.booked = (s.tasks t).booked)
    (moved : globalUsed.toNat + (s.tasks t).held = s.globalUsed.toNat + task.held)
    (within : globalUsed ≤ s.globalBudget) (balanced : task.Balanced) :
    ({ s with globalUsed := globalUsed }.setTask t task).Books := by
  rw [← posted_keeping]
  apply books.posted task (s.query t).used globalUsed running _ (books.account _).within moved within balanced
  rw [kept]

theorem Books.moved (task : Task) (booked : task.booked = (s.tasks t).booked) (held : task.held = (s.tasks t).held)
    (balanced : task.Balanced) : (s.setTask t task).Books := by
  apply books.chargedGlobally running task s.globalUsed booked _ books.totalWithin balanced
  rw [held]

theorem Books.reserving (point : (s.tasks t).point = .reserving bytes rows again)
    (taken : s.advance t = some next) : next.Books := by
  have balanced := (books.account _).balanced running t rfl
  have booked : (s.tasks t).booked = (s.tasks t).held := by simp only [Task.booked, point]
  simp only [Task.Balanced, point] at balanced
  simp only [Memory.advance, point] at taken
  split at taken
  · next room =>
    cases taken
    obtain ⟨sum, below⟩ := toNat_add_of_fits room
    refine books.charged running _ _ ?_ below rfl balanced
    simp only [Task.booked, point]
    omega
  · cases taken
    obtain ⟨kept, same⟩ := Task.refused_kept (s.tasks t) balanced
    exact books.moved running _ (same.trans booked.symm) rfl kept

theorem Books.confirming (point : (s.tasks t).point = .confirming bytes rows again)
    (taken : s.advance t = some next) : next.Books := by
  have balanced := (books.account _).balanced running t rfl
  simp only [Task.Balanced, point] at balanced
  simp only [Memory.advance, point] at taken
  split at taken
  · next room =>
    cases taken
    obtain ⟨sum, below⟩ := toNat_add_of_fits room
    refine books.chargedGlobally running _ _ ?_ ?_ below fun external => ?_
    · simp only [Task.booked, point]
    · simp only
      omega
    · rw [balanced external]
  · cases taken
    refine books.moved running _ ?_ rfl balanced
    simp only [Task.booked, point]

theorem Books.returning (point : (s.tasks t).point = .returning bytes rows again)
    (taken : s.advance t = some next) : next.Books := by
  have balanced := (books.account _).balanced running t rfl
  have most := books.booked_le t running
  have booked : (s.tasks t).booked = (s.tasks t).held + bytes.toNat := by simp only [Task.booked, point]
  simp only [Task.Balanced, point] at balanced
  simp only [Memory.advance, point] at taken
  cases taken
  have enough : bytes.toNat ≤ (s.query t).used.toNat := by omega
  obtain ⟨difference, below⟩ := toNat_sub_of_held _ _ enough (books.account (s.owner t)).within
  obtain ⟨kept, same⟩ := Task.refused_kept (s.tasks t) balanced
  refine books.charged running _ _ ?_ below rfl kept
  rw [same]
  omega

theorem Books.releasing (task : Task) (booked : (s.tasks t).booked = (s.tasks t).reserved.toNat)
    (emptied : task.booked = 0) (kept : task.held = (s.tasks t).held) (balanced : task.Balanced) :
    ((s.setUsed (s.owner t) ((s.query t).used - (s.tasks t).reserved)).setTask t task).Books := by
  have most := books.booked_le t running
  rw [booked] at most
  obtain ⟨difference, below⟩ := toNat_sub_of_held _ _ most (books.account (s.owner t)).within
  refine books.charged running _ _ ?_ below kept balanced
  omega

theorem Books.releasingGlobally (task : Task) (held : (s.tasks t).held = released.toNat) (emptied : task.held = 0)
    (kept : task.booked = (s.tasks t).booked) (balanced : task.Balanced) :
    ({ s with globalUsed := s.globalUsed - released }.setTask t task).Books := by
  have most : (s.tasks t).held ≤ s.globalUsed.toNat := entry_le books.total t
  rw [held] at most
  obtain ⟨difference, below⟩ := toNat_sub_of_held _ _ most books.totalWithin
  refine books.chargedGlobally running _ _ kept ?_ below balanced
  omega

theorem Books.appending (point : (s.tasks t).point = .appending bytes rows true)
    (taken : s.advance t = some next) : next.Books := by
  have balanced := (books.account _).balanced running t rfl
  have most := books.booked_le t running
  have booked : (s.tasks t).booked = (s.tasks t).held := by simp only [Task.booked, point]
  simp only [Task.Balanced, point] at balanced
  simp only [Memory.advance, point] at taken
  cases taken
  refine books.moved running _ booked.symm rfl ?_
  intro external
  have sum := balanced external
  have small : (s.tasks t).reserved.toNat + bytes.toNat < 2 ^ 64 := by
    have bound := (s.query t).used.toNat_lt
    omega
  rw [external]
  simp only [UInt64.toNat_add, Nat.mod_eq_of_lt small]
  exact sum

theorem Books.advance (granted : ∀ bytes rows, (s.tasks t).point ≠ .appending bytes rows false)
    (taken : s.advance t = some next) : next.Books := by
  have balanced := (books.account _).balanced running t rfl
  cases point : (s.tasks t).point with
  | reserving bytes rows again => exact books.reserving running point taken
  | confirming bytes rows again => exact books.confirming running point taken
  | returning bytes rows again => exact books.returning running point taken
  | spilling bytes rows | combining =>
    simp only [Task.Balanced, point] at balanced
    simp only [Memory.advance, point] at taken
    cases taken
    refine books.releasing running _ ?_ rfl rfl balanced
    simp only [Task.booked, point]
    exact balanced
  | spilled bytes rows released | combined released =>
    simp only [Task.Balanced, point] at balanced
    simp only [Memory.advance, point] at taken
    cases taken
    have emptied : (s.tasks t).held - released.toNat = 0 := by omega
    refine books.releasingGlobally running _ balanced emptied ?_ fun _ => emptied
    simp only [Task.booked, point]
    exact emptied
  | appending bytes rows given =>
    cases given with
    | true => exact books.appending running point taken
    | false => exact absurd point (granted bytes rows)
  | _ =>
    simp only [Memory.advance, point] at taken
    cases taken

end

omit [DecidableEq T] in
theorem Initial.books (initial : s.Initial) : s.Books := by
  have empty : ∀ t, (s.tasks t).held = 0 := fun t => (initial.tasks t).2.2.2
  have unbooked : ∀ t, (s.tasks t).booked = 0 := by
    intro t
    obtain ⟨-, -, point, held⟩ := initial.tasks t
    simp only [Task.booked, point, held]
  refine ⟨fun q => ⟨?_, ?_, ?_, ?_, ?_⟩, ?_, ?_⟩
  · intro _
    rw [(initial.queries q).1]
    exact (Finset.sum_eq_zero fun t _ => unbooked t).symm
  · rw [(initial.queries q).1]
    exact UInt64.zero_le
  · intro _ t _
    obtain ⟨reserved, -, point, held⟩ := initial.tasks t
    simp [Task.Balanced, reserved, point, held]
  · intro outstanding stage
    rw [(initial.queries q).2] at stage
    cases stage
  · exact fun _ t _ => empty t
  · rw [initial.globalUsed]
    exact (Finset.sum_eq_zero fun t _ => empty t).symm
  · rw [initial.globalUsed]
    exact UInt64.zero_le

theorem Books.step {a : MemoryAction Q T} (books : s.Books) (granted : s.Granted a) (taken : s.step a = some next) :
    next.Books := by
  cases a with
  | sink t bytes rows =>
    simp only [Memory.step] at taken
    split at taken
    · next allowed =>
      cases taken
      have balanced := (books.account _).balanced allowed.1 t rfl
      simp only [Task.Balanced, allowed.2] at balanced
      refine books.moved allowed.1 _ ?_ rfl balanced
      simp only [Task.booked, allowed.2]
    · cases taken
  | combine t =>
    simp only [Memory.step] at taken
    split at taken
    · next running =>
      have balanced := (books.account _).balanced running t rfl
      unfold Memory.combine at taken
      split at taken
      · next point operator =>
        cases taken
        simp only [Task.Balanced, point] at balanced
        refine books.moved running _ ?_ rfl balanced
        simp only [Task.booked, point]
      · next point operator =>
        cases taken
        simp only [Task.Balanced, point] at balanced
        refine books.moved running _ ?_ rfl (balanced operator)
        simp only [Task.booked, point]
      · cases taken
    · cases taken
  | advance t =>
    simp only [Memory.step] at taken
    split at taken
    · next running => exact books.advance running (granted t rfl) taken
    · cases taken
  | destroy q => exact books.destroy taken
  | drain q => exact books.drain taken

theorem books_run {log : List Empty} (run : Run (memory Q T) Granted log s) : s.Books := by
  apply Run.invariant (M := memory Q T) (I := fun _ s => s.Books) _ _ run
  · intro s initial
    exact Initial.books initial
  · intro log s next a events _ books granted taken
    obtain ⟨after, moved, same⟩ := Option.map_eq_some_iff.mp taken
    cases same
    exact books.step granted moved

end

end Memory

open Memory

/-- As long as the external sort counts only chunks it was granted, each counter is the sum of what is held, up to
the calls under way, and within its budget, and the database-wide one is zero when all queries have ended. -/
theorem memory_conserved {Q T : Type} [DecidableEq Q] [DecidableEq T] [Fintype T] {log : List Empty}
    {s : Memory Q T} (run : Run (memory Q T) Granted log s) :
    (∀ q, (s.queries q).stage = .running →
      (s.queries q).used.toNat + s.releasingBy q = s.heldBy q + s.reservingBy q ∧
      (s.queries q).used ≤ (s.queries q).budget) ∧
      s.globalUsed.toNat = s.heldTotal ∧ s.globalUsed ≤ s.globalBudget ∧
      ((∀ q, (s.queries q).stage = .ended) → s.globalUsed = 0) := by
  have books := books_run run
  refine ⟨?_, books.total, books.totalWithin, ?_⟩
  · intro q running
    exact ⟨(books.account q).split running, (books.account q).within⟩
  · intro ended
    have empty : s.heldTotal = 0 := Finset.sum_eq_zero fun t _ => (books.account _).ended (ended _) t rfl
    apply UInt64.toNat_inj.mp
    rw [books.total, empty]
    rfl

/-- The test of what the external sort counts. -/
def grantedTest {Q T : Type} (s : Memory Q T) (a : MemoryAction Q T) : Bool :=
  match a with
  | .advance t =>
    match (s.tasks t).point with
    | .appending _ _ false => false
    | _ => true
  | _ => true

theorem granted_of_test {Q T : Type} (s : Memory Q T) (a : MemoryAction Q T) (passed : grantedTest s a = true) :
    s.Granted a := by
  rintro t rfl bytes rows point
  simp [grantedTest, point] at passed

/-- Two queries of one task each: an external merge sort, and an operator that does not spill. -/
def sortAndJoin : Memory Bool Bool :=
  ⟨id, fun t => ⟨if t then .inMemory else .externalMergeSort, 0, 0, .ready, 0⟩, fun _ => ⟨10, 0, .running⟩, 12, 0⟩

theorem sortAndJoin_initial : sortAndJoin.Initial :=
  ⟨fun _ => ⟨rfl, rfl, rfl, rfl⟩, fun _ => ⟨rfl, rfl⟩, rfl⟩

/-- The sort's second chunk is refused by the database-wide manager and granted after a spill; the other query is
about to be granted 3 bytes on top of its 6. -/
theorem memory_conserved_spilled :
    ∃ log s, Run (memory Bool Bool) Granted log s ∧ s.globalUsed = 11 ∧ (s.queries true).used = 9 ∧
      (∀ q, (s.queries q).stage = .running →
        (s.queries q).used.toNat + s.releasingBy q = s.heldBy q + s.reservingBy q ∧
        (s.queries q).used ≤ (s.queries q).budget) ∧
      s.globalUsed.toNat = s.heldTotal ∧ s.globalUsed ≤ s.globalBudget ∧
      ((∀ q, (s.queries q).stage = .ended) → s.globalUsed = 0) := by
  obtain ⟨s, log, run, shown⟩ := execChecked_shows (M := memory Bool Bool) granted_of_test
    [.sink false 4 1, .advance false, .advance false, .advance false, .sink true 6 1, .advance true, .advance true,
      .advance true, .sink false 5 1, .advance false, .advance false, .advance false, .advance false, .advance false,
      .advance false, .advance false, .advance false, .sink true 3 1, .advance true]
    sortAndJoin_initial (fun r => (r.1.globalUsed, (r.1.queries true).used)) (11, 9) (by decide)
  simp only [Prod.mk.injEq] at shown
  exact ⟨log, s, run, shown.1, shown.2, memory_conserved run⟩

/-- One query with one external merge sort, both budgets 10 bytes. -/
def oneSort : Memory Unit Unit :=
  ⟨fun _ => (), fun _ => ⟨.externalMergeSort, 0, 0, .ready, 0⟩, fun _ => ⟨10, 0, .running⟩, 10, 0⟩

theorem oneSort_initial : oneSort.Initial :=
  ⟨fun _ => ⟨rfl, rfl, rfl, rfl⟩, fun _ => ⟨rfl, rfl⟩, rfl⟩

/-- A chunk of 20 bytes is refused, counted all the same, and its release wraps both counters. -/
theorem memory_wraps :
    ∃ log s, Run (memory Unit Unit) always log s ∧ (s.tasks ()).held = 0 ∧
      (s.queries ()).used.toNat = 2 ^ 64 - 20 ∧ s.globalUsed.toNat = 2 ^ 64 - 20 := by
  obtain ⟨s, log, run, shown⟩ := exec_shows (M := memory Unit Unit)
    [.sink () 20 1, .advance (), .advance (), .combine (), .advance (), .advance ()] oneSort_initial
    (fun _ _ _ => trivial) (fun r => ((r.1.tasks ()).held, (r.1.queries ()).used.toNat, r.1.globalUsed.toNat))
    (0, 2 ^ 64 - 20, 2 ^ 64 - 20) (by decide)
  simp only [Prod.mk.injEq] at shown
  exact ⟨log, s, run, shown.1, shown.2.1, shown.2.2⟩

end BumbleBee.Main
