import BumbleBee.Execution.Moves
import BumbleBee.Mvcc.Program

/-!
The statements of the engine where the heap fails them: an `UpdateRow` that leaves its
page, and a row of 64 KiB or more, whose length does not survive the cast to
`uint16_t`. What such a step leaves is not followed.
-/

namespace BumbleBee.Execution
open Library.Transition Mvcc Storage.SlottedPage Concurrency

variable {κ : Type}

/-- The row is longer than `uint16_t` can say. -/
def Input.oversized : Input → Bool
  | .insert row => decide (2 ^ 16 ≤ row.size)
  | .update _ new => decide (2 ^ 16 ≤ new.size)
  | .delete _ => false

namespace Engine

/-- The step has no defined effect: its `UpdateRow` leaves the page, or its row is too long. -/
def faults (catalog : Catalog κ) (s : Engine κ) : Action → Bool
  | .mvcc b => s.passes b && s.db.overruns b
  | .sink _ _ input _ => input.oversized
  | .revive id w =>
    match s.atHand id w with
    | some (st, .insert row) =>
      match (st.tasks w).probe with
      | .dead rid => s.db.overruns (.modify id ⟨st.oid, rid⟩ (some row))
      | _ => false
    | _ => false
  | .modify id w =>
    match s.atHand id w with
    | some (st, .update rid old new) =>
      !((catalog st.oid).primaryKey.any fun pk => pk.primaryKeyChanged old new) &&
        s.db.overruns (.modify id ⟨st.oid, rid⟩ (some new))
    | _ => false
  | _ => false

theorem writes_inFrame {s : Engine κ} {id : Int} {w : Nat} {st : Statement} {job : Job} {rid : RID}
    {value : Option RowBytes} {r : Engine κ × List Event} (taken : s.writes id w st job rid value = some r) :
    s.db.overruns (.modify id ⟨st.oid, rid⟩ value) = false := by
  unfold writes at taken
  split at taken
  · cases taken
  · next stepped => exact Database.not_overruns s.db _ _ stepped
  · next stepped => exact Database.not_overruns s.db _ _ stepped

theorem handed_small {row : ScatteredRow} {bytes : RowBytes} (handed : row.handed = some bytes) :
    row.size < 2 ^ 16 := by
  unfold ScatteredRow.handed at handed
  split at handed
  · next small => exact small
  · cases handed

theorem buffered_small {s : Engine κ} {id : Int} {st : Statement} {fuel : Nat} {input : Input} {job : Job}
    (accepted : s.buffered id st fuel input = some job) : input.oversized = false := by
  cases input with
  | insert row =>
    simp only [buffered] at accepted
    split at accepted
    · obtain ⟨bytes, handed, -⟩ := Option.map_eq_some_iff.mp accepted
      exact decide_eq_false (not_le.mpr (handed_small handed))
    · cases accepted
  | update rid new =>
    simp only [buffered] at accepted
    split at accepted
    · obtain ⟨old, -, more⟩ := Option.bind_eq_some_iff.mp accepted
      obtain ⟨bytes, handed, -⟩ := Option.map_eq_some_iff.mp more
      exact decide_eq_false (not_le.mpr (handed_small handed))
    · cases accepted
  | delete rid => rfl

variable [DecidableEq κ]

theorem not_faults (catalog : Catalog κ) (s : Engine κ) (a : Action) (r : Engine κ × List Event)
    (taken : s.step catalog a = some r) : s.faults catalog a = false := by
  revert taken
  cases a with
  | mvcc b =>
    simp only [step, control, faults]
    split
    · split
      · rintro ⟨⟩
      · next stepped => simp [Database.not_overruns s.db _ _ stepped]
    · rintro ⟨⟩
  | sink id w input fuel =>
    simp only [step, faults]
    fun_cases sink s id w input fuel <;> simp_all
    exact fun job accepted _ => buffered_small accepted
  | revive id w =>
    simp only [step, faults]
    fun_cases revive s id w <;> simp_all
    exact writes_inFrame
  | modify id w =>
    simp only [step, faults]
    fun_cases modify s catalog id w <;> simp_all
    exact writes_inFrame
  | _ => exact fun _ => rfl

end Engine

/-- The engine, with steps that have no defined effect. -/
def program [DecidableEq κ] (catalog : Catalog κ) : System (Engine κ) (Action × Engine κ × List Event) Event :=
  (engine catalog).faulting (Engine.faults catalog)

variable [DecidableEq κ] {catalog : Catalog κ} {meets : Engine κ → Action → Prop} {log : List Event} {s : Engine κ}

theorem defined_run (run : Run (program catalog) (Defined (Engine.faults catalog) meets) log s) :
    Run (engine catalog) meets log s := Run.of_faulting run

theorem run_defined (run : Run (engine catalog) meets log s) :
    Run (program catalog) (Defined (Engine.faults catalog) meets) log s :=
  Run.faulting (Engine.not_faults catalog) run

end BumbleBee.Execution
