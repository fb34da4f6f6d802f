import BumbleBee.Storage.SlottedPage

/-!
Transactions as `transaction.h` keeps them: the snapshot, the undo buffer whose
entries other rows' version chains point into, and the write and read sets.
-/

namespace BumbleBee.Concurrency
open Storage.SlottedPage

structure RID where
  pageId : Int
  slotNum : Nat
  deriving DecidableEq, Repr

/-- One element of a write set: a row id in a table. -/
structure Entry where
  oid : Nat
  rid : RID
  deriving DecidableEq, Repr

def txnStartId : Int := 2 ^ 62
def invalidTxnId : Int := -1

/-- `Transaction::IsTempTs`. -/
def isTempTs (ts : Int) : Bool := decide (txnStartId ≤ ts)

inductive TransactionState where
  | running
  | tainted
  | committed
  | aborted
  deriving DecidableEq, Repr

inductive IsolationLevel where
  | snapshotIsolation
  | serializable
  deriving DecidableEq, Repr

structure UndoLink where
  prevTxn : Int := invalidTxnId
  prevLogIdx : Nat := 0
  deriving DecidableEq, Repr

def UndoLink.isValid (link : UndoLink) : Bool := decide (link.prevTxn ≠ invalidTxnId)

theorem UndoLink.isValid_of_txn {id : Int} (old : txnStartId ≤ id) (idx : Nat) :
    (⟨id, idx⟩ : UndoLink).isValid = true := by
  have start : (0 : Int) < txnStartId := by decide
  have apart : id ≠ invalidTxnId := by
    unfold invalidTxnId
    omega
  simpa [UndoLink.isValid] using apart

structure UndoLog where
  isDeleted : Bool
  row : RowBytes
  ts : Int
  prevVersion : UndoLink

def RowBytes.empty : RowBytes := ⟨0, by decide, fun i => i.elim0⟩

abbrev ScanPredicate := RowBytes → Bool

structure Transaction where
  isolationLevel : IsolationLevel
  readTs : Int
  state : TransactionState := .running
  commitTs : Int := invalidTxnId
  cancellationRequested : Bool := false
  undoLogs : List UndoLog := []
  writeSet : List Entry := []
  scanPredicates : List (Nat × ScanPredicate) := []

namespace Transaction

/-- RUNNING or TAINTED: the states in which a transaction still owns its writes. -/
def Live (t : Transaction) : Prop := t.state = .running ∨ t.state = .tainted

instance (t : Transaction) : Decidable t.Live := inferInstanceAs (Decidable (_ ∨ _))

section
variable (t : Transaction)

def appendUndoLog (txnId : Int) (log : UndoLog) : UndoLink × Transaction :=
  (⟨txnId, t.undoLogs.length⟩, { t with undoLogs := t.undoLogs ++ [log] })

def getUndoLog (logId : Nat) : Option UndoLog := t.undoLogs[logId]?

def appendWriteSet (e : Entry) : Transaction :=
  if e ∈ t.writeSet then t else { t with writeSet := e :: t.writeSet }

def appendScanPredicate (oid : Nat) (p : ScanPredicate) : Transaction :=
  { t with scanPredicates := (oid, p) :: t.scanPredicates }

def isScanTuple (oid : Nat) (row : RowBytes) : Bool :=
  t.scanPredicates.any fun recorded => decide (recorded.1 = oid) && recorded.2 row

/-- Tainting a transaction that is not RUNNING throws and changes nothing. -/
def setTainted : Transaction :=
  if t.state = .running then { t with state := .tainted } else t

end

end Transaction

end BumbleBee.Concurrency
