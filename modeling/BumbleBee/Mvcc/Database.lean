import BumbleBee.Storage.TableHeap
import BumbleBee.Concurrency.Watermark

/-!
The database as the transaction manager and the MVCC write path see it, and the
latch-atomic operations of `mvcc.cpp` on it. A phase records how far a call of
`Commit` or `Abort` on a transaction has come; a transaction whose phase is
`idle` may run statements.
-/

namespace BumbleBee.Mvcc
open Storage Storage.SlottedPage Concurrency Function

/-- The table and the link a walk over the older versions of a row has come to. -/
abbrev WalkAt := Option (Nat × Option UndoLink)

/-- `Commit` validates twice, the second time under the commit mutex (`locked`). -/
inductive Phase where
  | idle
  | verifying (locked : Bool) (rest : List Entry) (walk : WalkAt)
  | stamping (commitTs : Int) (rest : List Entry)
  | rollingBack (rest : List Entry)
  | leaving (readTs : Int) (commitTs : Option Int)
  deriving DecidableEq, Repr

structure Database where
  nextTxnId : Int
  lastCommitTs : Int
  txnMap : Int → Option Transaction
  runningTxns : Watermark
  versionInfo : RID → Option UndoLink
  commitMutex : Option Int
  phase : Int → Option Phase
  gcWatermarks : List Int
  store : PageStore
  tables : Nat → Option TableHeap
  nextOid : Nat

namespace Database

def setTxn (s : Database) (id : Int) (t : Transaction) : Database :=
  { s with txnMap := update s.txnMap id (some t) }

def setPhase (s : Database) (id : Int) (phase : Option Phase) : Database :=
  { s with phase := update s.phase id phase }

def getUndoLink (s : Database) (rid : RID) : Option UndoLink := s.versionInfo rid

def updateUndoLink (s : Database) (rid : RID) (prevLink : Option UndoLink) : Database :=
  { s with versionInfo := update s.versionInfo rid prevLink }

def getUndoLogOptional (s : Database) (link : UndoLink) : Option UndoLog :=
  (s.txnMap link.prevTxn).bind fun owner => owner.getUndoLog link.prevLogIdx

def writePage (s : Database) (pageId : Int) (page : TablePage) : Database :=
  { s with store := s.store.write pageId page }

inductive ModifyResult where
  | applied (next : Database)
  | conflict (next : Database)
  | tooLarge (next : Database)
  | badSlot
  | undefined

/-- The `apply_base` lambda: `none` deletes, `some row` updates. -/
def applyBase (s : Database) (txnId : Int) (rid : RID) (value : Option RowBytes) : UpdateResult TablePage :=
  match value with
  | none =>
    match (s.store.pages rid.pageId).updateTupleMeta ⟨txnId, true⟩ rid.slotNum with
    | some page => .updated page
    | none => .outOfRange
  | some row => (s.store.pages rid.pageId).updateRow ⟨txnId, false⟩ row rid.slotNum

def undoLogOf (s : Database) (rid : RID) (tupleMeta : TupleMeta) (row : RowBytes) : UndoLog where
  isDeleted := tupleMeta.isDeleted
  row := if tupleMeta.isDeleted then RowBytes.empty else row
  ts := tupleMeta.ts
  prevVersion := (s.getUndoLink rid).getD {}

def applyMvccModify (s : Database) (txnId : Int) (txn : Transaction) (e : Entry)
    (value : Option RowBytes) : ModifyResult :=
  match s.store.getRow e.rid with
  | none => .badSlot
  | some (tupleMeta, row) =>
    if tupleMeta.ts = txnId then
      match s.applyBase txnId e.rid value with
      | .updated page => .applied ((s.writePage e.rid.pageId page).setTxn txnId (txn.appendWriteSet e))
      | .refused => .tooLarge s
      | .outOfRange => .badSlot
      | .undefined => .undefined
    else if tupleMeta.ts ≤ txn.readTs then
      let (link, logged) := txn.appendUndoLog txnId (s.undoLogOf e.rid tupleMeta row)
      match s.applyBase txnId e.rid value with
      | .updated page => .applied
          (((s.writePage e.rid.pageId page).updateUndoLink e.rid (some link)).setTxn txnId
            (logged.appendWriteSet e))
      | .refused => .tooLarge (s.setTxn txnId logged)
      | .outOfRange => .badSlot
      | .undefined => .undefined
    else .conflict (s.setTxn txnId txn.setTainted)

inductive InsertResult where
  | inserted (rid : RID) (next : Database)
  | tooLarge (next : Database)

/-- One row of `MvccInsert`. -/
def mvccInsert (s : Database) (txnId : Int) (txn : Transaction) (oid : Nat) (heap : TableHeap)
    (row : RowBytes) : InsertResult :=
  match heap.appendRowBytes s.store ⟨txnId, false⟩ row with
  | .appended rid grown store => .inserted rid
      ({ s with store := store, tables := update s.tables oid (some grown) }.setTxn txnId
        (txn.appendWriteSet ⟨oid, rid⟩))
  | .tooLarge grown store => .tooLarge
      { s with store := store, tables := update s.tables oid (some grown) }

/-- The chain walk of `ReconstructVisible`; the outer `none` is an exhausted bound. -/
def walkVisible (s : Database) (readTs : Int) : Nat → Option UndoLink → Option (Option RowBytes)
  | 0, _ => none
  | fuel + 1, link =>
    match link with
    | none => some none
    | some l =>
      if l.isValid then
        match s.getUndoLogOptional l with
        | none => some none
        | some undo =>
          if undo.ts ≤ readTs then some (if undo.isDeleted then none else some undo.row)
          else s.walkVisible readTs fuel (some undo.prevVersion)
      else some none

def reconstructVisible (s : Database) (txnId : Int) (txn : Transaction) (tupleMeta : TupleMeta)
    (row : RowBytes) (headLink : Option UndoLink) (fuel : Nat) : Option (Option RowBytes) :=
  if tupleMeta.ts = txnId ∨ tupleMeta.ts ≤ txn.readTs then
    some (if tupleMeta.isDeleted then none else some row)
  else s.walkVisible txn.readTs fuel headLink

def collectVisibleVersion (s : Database) (txnId : Int) (txn : Transaction) (rid : RID) (fuel : Nat) :
    Option (Option RowBytes) :=
  match s.store.getRow rid with
  | none => none
  | some (tupleMeta, row) => s.reconstructVisible txnId txn tupleMeta row (s.getUndoLink rid) fuel

def mvccStampCommit (s : Database) (rid : RID) (commitTs : Int) : Option Database :=
  match s.store.getRow rid with
  | none => none
  | some (tupleMeta, _) =>
    match (s.store.pages rid.pageId).updateTupleMeta { tupleMeta with ts := commitTs } rid.slotNum with
    | none => none
    | some page => some (s.writePage rid.pageId page)

inductive RollbackResult where
  | restored (next : Database)
  | failed
  | badSlot
  | undefined

/-- Restores a logged pre-image and re-points the head at the version below it. -/
def restorePreImage (s : Database) (rid : RID) (log : UndoLog) : RollbackResult :=
  let page := s.store.pages rid.pageId
  let relinked := fun (restored : TablePage) => (s.writePage rid.pageId restored).updateUndoLink rid
    (if log.prevVersion.isValid then some log.prevVersion else none)
  if log.isDeleted then
    match page.updateTupleMeta ⟨log.ts, log.isDeleted⟩ rid.slotNum with
    | some restored => .restored (relinked restored)
    | none => .badSlot
  else
    match page.updateRow ⟨log.ts, log.isDeleted⟩ log.row rid.slotNum with
    | .updated restored => .restored (relinked restored)
    | .refused => .failed
    | .outOfRange => .badSlot
    | .undefined => .undefined

def tombstone (s : Database) (rid : RID) : RollbackResult :=
  match (s.store.pages rid.pageId).updateTupleMeta ⟨0, true⟩ rid.slotNum with
  | some page => .restored (s.writePage rid.pageId page)
  | none => .badSlot

def mvccRollback (s : Database) (txnId : Int) (txn : Transaction) (rid : RID) : RollbackResult :=
  match s.getUndoLink rid with
  | some link =>
    if link.isValid ∧ link.prevTxn = txnId then
      match txn.getUndoLog link.prevLogIdx with
      | some log => s.restorePreImage rid log
      | none => .undefined
    else s.tombstone rid
  | none => s.tombstone rid

end Database

end BumbleBee.Mvcc
