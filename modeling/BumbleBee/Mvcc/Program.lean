import BumbleBee.Mvcc.Steps
import BumbleBee.Storage.PageCalls

/-!
The transaction manager over pages that can be overrun. `UpdateRow` lets a row through
that together with the others outgrows the page, and its copies leave the frame; what
that leaves is anybody's guess, and the results ask that no step does it.
-/

namespace BumbleBee.Mvcc
open Library.Transition Storage Storage.SlottedPage Concurrency

namespace Database

def ModifyResult.isUndefined : ModifyResult → Bool
  | .undefined => true
  | _ => false

def RollbackResult.isUndefined : RollbackResult → Bool
  | .undefined => true
  | _ => false

/-- The step has no defined effect: its `UpdateRow` leaves the page frame. -/
def overruns (s : Database) : Action → Bool
  | .modify id e value =>
    match s.statementTxn id, s.tables e.oid with
    | some txn, some heap =>
      decide (e.rid.pageId ∈ heap.pageDirectory) && (s.applyMvccModify id txn e value).isUndefined
    | _, _ => false
  | .rollback id e =>
    match s.phase id, s.txnMap id, s.tables e.oid with
    | some (.rollingBack rest), some txn, some _ => decide (e ∈ rest) && (s.mvccRollback id txn e.rid).isUndefined
    | _, _, _ => false
  | _ => false

variable {s : Database} {id : Int} {e : Entry}

theorem not_overruns (s : Database) (a : Action) (r : Database × List Event) (taken : s.step a = some r) :
    s.overruns a = false := by
  revert taken
  cases a with
  | modify id e value =>
    simp only [step]
    fun_cases modify s id e value <;> simp_all [overruns, ModifyResult.isUndefined]
  | rollback id e =>
    simp only [step]
    fun_cases rollback s id e <;> simp_all [overruns, RollbackResult.isUndefined]
  | _ => exact fun _ => rfl

/-- `UpdateRow` leaves the frame of a page only when its rows, the new one among them, outgrow the page. -/
theorem strays_of_undefined {page : TablePage} {tupleMeta : TupleMeta} {row : RowBytes} {slot : Nat}
    (undefined : page.updateRow tupleMeta row slot = .undefined) :
    ¬Addressable page.rows (.updateRow tupleMeta row slot) := by
  intro addressable
  obtain ⟨answer, after, called, -⟩ := Kept.updateRow page.packed tupleMeta row slot addressable
  unfold TablePage.updateRow at undefined
  split at undefined <;> simp_all [call]

theorem overruns_modify {row : RowBytes} (overrun : s.overruns (.modify id e (some row)) = true) :
    ¬Addressable (s.store.pages e.rid.pageId).rows (.updateRow ⟨id, false⟩ row e.rid.slotNum) := by
  apply strays_of_undefined
  revert overrun
  simp only [overruns]
  split
  · next txn heap ready table =>
    fun_cases applyMvccModify s id txn e (some row) <;> simp_all [ModifyResult.isUndefined, applyBase]
  · simp

theorem overruns_rollback {t : Transaction} {undo : UndoLog} {link : UndoLink} (found : s.txnMap id = some t)
    (head : s.getUndoLink e.rid = some link) (logged : t.getUndoLog link.prevLogIdx = some undo)
    (overrun : s.overruns (.rollback id e) = true) :
    ¬Addressable (s.store.pages e.rid.pageId).rows (.updateRow ⟨undo.ts, undo.isDeleted⟩ undo.row e.rid.slotNum) := by
  apply strays_of_undefined
  simp only [overruns] at overrun
  split at overrun
  · next rest txn heap rolling found' table =>
    cases found.symm.trans found'
    have undefined := (Bool.and_eq_true_iff.mp overrun).2
    grind [mvccRollback, restorePreImage, tombstone, RollbackResult.isUndefined]
  · cases overrun

end Database

/-- The transaction manager, with steps that overrun a page. -/
def program : System Database (Action × Database × List Event) Event := system.faulting Database.overruns

variable {meets : Database → Action → Prop} {log : List Event} {s : Database}

theorem inFrame_run (run : Run program (Defined Database.overruns meets) log s) : Run system meets log s :=
  Run.of_faulting run

theorem run_inFrame (run : Run system meets log s) : Run program (Defined Database.overruns meets) log s :=
  Run.faulting Database.not_overruns run

end BumbleBee.Mvcc
