import BumbleBee.Mvcc.System

/-!
What a step can do, outcome by outcome. Every invariant of the system is proved by
cases on `Steps` and never unfolds an operation.
-/

namespace BumbleBee.Mvcc
open Storage Storage.SlottedPage Concurrency Function

/-- A transaction between statements or inside one, not yet finalizing. -/
structure Database.Ready (s : Database) (id : Int) (txn : Transaction) : Prop where
  idle : s.phase id = some .idle
  found : s.txnMap id = some txn
  live : txn.Live

variable {id : Int}

theorem Database.statementTxn_ready {s : Database} {txn : Transaction}
    (ready : s.statementTxn id = some txn) : s.Ready id txn := by
  unfold statementTxn at ready
  split at ready
  · next idle found =>
    split at ready
    · next live =>
      cases ready
      exact ⟨idle, found, live⟩
    · cases ready
  · cases ready

def Transaction.logged (txn : Transaction) (log : UndoLog) : Transaction :=
  { txn with undoLogs := txn.undoLogs ++ [log] }

/-- The tuple a write leaves in its slot: a delete keeps the old bytes. -/
def written (id : Int) (value : Option RowBytes) (old : RowBytes) : TupleMeta × RowBytes :=
  (⟨id, value.isNone⟩, value.getD old)

/-- The tuple a restored pre-image leaves in its slot. -/
def restoredTuple (log : UndoLog) (old : RowBytes) : TupleMeta × RowBytes :=
  (⟨log.ts, log.isDeleted⟩, if log.isDeleted then old else log.row)

open Database in
inductive Steps (s : Database) : Action → Database → List Event → Prop
  | began {isolationLevel runningTxns} (added : s.runningTxns.addTxn s.lastCommitTs = some runningTxns) :
      Steps s (.begin isolationLevel) (s.begun isolationLevel runningTxns)
        [.began s.nextTxnId s.lastCommitTs isolationLevel]
  | scanned {id oid p txn heap} (ready : s.Ready id txn) (table : s.tables oid = some heap)
      (serializable : txn.isolationLevel = .serializable) :
      Steps s (.scan id oid p) (s.setTxn id (txn.appendScanPredicate oid p)) [.scanned id oid p]
  | scanUnrecorded {id oid p} : Steps s (.scan id oid p) s []
  | inserted {id oid row txn heap grown linked after} (ready : s.Ready id txn) (table : s.tables oid = some heap)
      (grew : TableHeap.Grew heap s.store grown linked)
      (placed : TableHeap.Placed linked grown.lastPageId (⟨id, false⟩, row) after) :
      Steps s (.insert id oid row)
        ({ s with store := after, tables := update s.tables oid (some grown) }.setTxn id
          (txn.appendWriteSet ⟨oid, grown.lastPageId, (linked.rows grown.lastPageId).length⟩))
        [.inserted id ⟨oid, grown.lastPageId, (linked.rows grown.lastPageId).length⟩ row]
  | insertTooLarge {id oid row heap grown linked} (table : s.tables oid = some heap)
      (grew : TableHeap.Grew heap s.store grown linked) :
      Steps s (.insert id oid row) { s with store := linked, tables := update s.tables oid (some grown) } []
  | rewrote {id : Int} {e value txn heap tupleMeta row after} (ready : s.Ready id txn)
      (table : s.tables e.oid = some heap) (listed : e.rid.pageId ∈ heap.pageDirectory)
      (base : s.store.getRow e.rid = some (tupleMeta, row)) (own : tupleMeta.ts = id)
      (stored : PageStore.SlotWritten s.store e.rid (written id value row) after) :
      Steps s (.modify id e value)
        ({ s with store := after }.setTxn id (txn.appendWriteSet e)) [.modified id e value]
  | versioned {id : Int} {e value txn heap tupleMeta row after} (ready : s.Ready id txn)
      (table : s.tables e.oid = some heap) (listed : e.rid.pageId ∈ heap.pageDirectory)
      (base : s.store.getRow e.rid = some (tupleMeta, row)) (foreign : tupleMeta.ts ≠ id)
      (inSnapshot : tupleMeta.ts ≤ txn.readTs)
      (stored : PageStore.SlotWritten s.store e.rid (written id value row) after) :
      Steps s (.modify id e value)
        (({ s with store := after }.updateUndoLink e.rid (some ⟨id, txn.undoLogs.length⟩)).setTxn id
          ((Transaction.logged txn (s.undoLogOf e.rid tupleMeta row)).appendWriteSet e))
        [.modified id e value]
  | modifyConflict {id : Int} {e value txn tupleMeta row} (ready : s.Ready id txn)
      (base : s.store.getRow e.rid = some (tupleMeta, row)) (foreign : tupleMeta.ts ≠ id)
      (outside : txn.readTs < tupleMeta.ts) :
      Steps s (.modify id e value) (s.setTxn id txn.setTainted) []
  | rewriteTooLarge {id e value} : Steps s (.modify id e value) s []
  | versionTooLarge {id : Int} {e value txn heap tupleMeta row} (ready : s.Ready id txn)
      (table : s.tables e.oid = some heap) (listed : e.rid.pageId ∈ heap.pageDirectory)
      (base : s.store.getRow e.rid = some (tupleMeta, row)) (inSnapshot : tupleMeta.ts ≤ txn.readTs) :
      Steps s (.modify id e value) (s.setTxn id (Transaction.logged txn (s.undoLogOf e.rid tupleMeta row))) []
  | cancelled {id txn} (ready : s.Ready id txn) :
      Steps s (.requestCancellation id) (s.setTxn id { txn with cancellationRequested := true }) []
  | commitStarted {id txn} (ready : s.Ready id txn) (running : txn.state = .running) :
      Steps s (.startCommit id) (s.setPhase id (some (.verifying false (s.suspects id txn.readTs) none))) []
  | lockedToVerify {id txn} (phase : s.phase id = some (.verifying false [] none)) (found : s.txnMap id = some txn)
      (free : s.commitMutex = none) (room : s.lastCommitTs + 1 < txnStartId) :
      Steps s (.lockCommit id) ({ s with commitMutex := some id }.setPhase id
          (some (.verifying true (s.suspects id txn.readTs) none))) []
  | lockedToStamp {id txn} (ready : s.Ready id txn) (running : txn.state = .running)
      (unchecked : ¬(txn.isolationLevel = .serializable ∧ txn.writeSet ≠ [])) (free : s.commitMutex = none)
      (room : s.lastCommitTs + 1 < txnStartId) :
      Steps s (.lockCommit id) ({ s with commitMutex := some id }.setPhase id
          (some (.stamping (s.lastCommitTs + 1) txn.writeSet))) []
  | verifySkipped {id locked e rest} (phase : s.phase id = some (.verifying locked rest none)) (member : e ∈ rest)
      (dropped : s.tables e.oid = none) :
      Steps s (.verifyRow id e) (s.setPhase id (some (.verifying locked (rest.erase e) none))) []
  | verifyRejected {id locked e rest txn} (phase : s.phase id = some (.verifying locked rest none))
      (found : s.txnMap id = some txn) :
      Steps s (.verifyRow id e) (s.rejectCommit id txn locked) []
  | verifyPassed {id locked e rest txn tupleMeta row} (phase : s.phase id = some (.verifying locked rest none))
      (found : s.txnMap id = some txn) (member : e ∈ rest) (base : s.store.getRow e.rid = some (tupleMeta, row))
      (settled : isTempTs tupleMeta.ts = false)
      (unread : (!tupleMeta.isDeleted && txn.isScanTuple e.oid row) = false)
      (inSnapshot : tupleMeta.ts ≤ txn.readTs) :
      Steps s (.verifyRow id e) (s.setPhase id (some (.verifying locked (rest.erase e) none))) []
  | verifyWalking {id locked e rest txn heap tupleMeta row} (phase : s.phase id = some (.verifying locked rest none))
      (found : s.txnMap id = some txn) (member : e ∈ rest) (table : s.tables e.oid = some heap)
      (base : s.store.getRow e.rid = some (tupleMeta, row))
      (tested : isTempTs tupleMeta.ts = true ∨
        ((!tupleMeta.isDeleted && txn.isScanTuple e.oid row) = false ∧ txn.readTs < tupleMeta.ts)) :
      Steps s (.verifyRow id e)
        (s.setPhase id (some (.verifying locked (rest.erase e) (some (e.oid, s.getUndoLink e.rid))))) []
  | linkEnded {id locked rest oid link} (phase : s.phase id = some (.verifying locked rest (some (oid, link))))
      (missing : (link.filter UndoLink.isValid).bind s.getUndoLogOptional = none) :
      Steps s (.verifyLink id) (s.setPhase id (some (.verifying locked rest none))) []
  | linkRejected {id locked rest walk txn} (phase : s.phase id = some (.verifying locked rest walk))
      (found : s.txnMap id = some txn) : Steps s (.verifyLink id) (s.rejectCommit id txn locked) []
  | linkPassed {id locked rest oid link txn undo} (phase : s.phase id = some (.verifying locked rest (some (oid, link))))
      (found : s.txnMap id = some txn)
      (resolved : (link.filter UndoLink.isValid).bind s.getUndoLogOptional = some undo)
      (unread : (!undo.isDeleted && txn.isScanTuple oid undo.row) = false) (inSnapshot : undo.ts ≤ txn.readTs) :
      Steps s (.verifyLink id) (s.setPhase id (some (.verifying locked rest none))) []
  | linkFollowed {id locked rest oid link txn undo} (phase : s.phase id = some (.verifying locked rest (some (oid, link))))
      (found : s.txnMap id = some txn)
      (resolved : (link.filter UndoLink.isValid).bind s.getUndoLogOptional = some undo)
      (unread : (!undo.isDeleted && txn.isScanTuple oid undo.row) = false) (newer : txn.readTs < undo.ts) :
      Steps s (.verifyLink id)
        (s.setPhase id (some (.verifying locked rest (some (oid, some undo.prevVersion))))) []
  | verified {id txn} (phase : s.phase id = some (.verifying true [] none)) (found : s.txnMap id = some txn) :
      Steps s (.verified id) (s.setPhase id (some (.stamping (s.lastCommitTs + 1) txn.writeSet))) []
  | stampSkipped {id e commitTs rest} (phase : s.phase id = some (.stamping commitTs rest)) (member : e ∈ rest)
      (dropped : s.tables e.oid = none) :
      Steps s (.stamp id e) (s.setPhase id (some (.stamping commitTs (rest.erase e)))) []
  | stamped {id e commitTs rest heap tupleMeta row after} (phase : s.phase id = some (.stamping commitTs rest))
      (member : e ∈ rest) (table : s.tables e.oid = some heap)
      (base : s.store.getRow e.rid = some (tupleMeta, row))
      (stored : PageStore.SlotWritten s.store e.rid ({ tupleMeta with ts := commitTs }, row) after) :
      Steps s (.stamp id e)
        ({ s with store := after }.setPhase id (some (.stamping commitTs (rest.erase e)))) []
  | published {id commitTs txn} (phase : s.phase id = some (.stamping commitTs []))
      (found : s.txnMap id = some txn) :
      Steps s (.publish id) (({ s with lastCommitTs := commitTs }.setTxn id
          { txn with commitTs := commitTs, state := .committed }).setPhase id
            (some (.leaving txn.readTs (some commitTs))))
        [.committed id commitTs]
  | abortStarted {id txn} (ready : s.Ready id txn) :
      Steps s (.startAbort id) (s.setPhase id (some (.rollingBack txn.writeSet))) []
  | rollbackSkipped {id e rest} (phase : s.phase id = some (.rollingBack rest)) (member : e ∈ rest)
      (dropped : s.tables e.oid = none) :
      Steps s (.rollback id e) (s.setPhase id (some (.rollingBack (rest.erase e)))) []
  | restored {id e rest txn heap link log tupleMeta row after} (phase : s.phase id = some (.rollingBack rest))
      (found : s.txnMap id = some txn) (member : e ∈ rest) (table : s.tables e.oid = some heap)
      (head : s.versionInfo e.rid = some link) (valid : link.isValid = true) (own : link.prevTxn = id)
      (logged : txn.undoLogs[link.prevLogIdx]? = some log) (base : s.store.getRow e.rid = some (tupleMeta, row))
      (stored : PageStore.SlotWritten s.store e.rid (restoredTuple log row) after) :
      Steps s (.rollback id e) (({ s with store := after }.updateUndoLink e.rid
          (if log.prevVersion.isValid then some log.prevVersion else none)).setPhase id
            (some (.rollingBack (rest.erase e)))) []
  | tombstoned {id e rest heap tupleMeta row after} (phase : s.phase id = some (.rollingBack rest))
      (member : e ∈ rest) (table : s.tables e.oid = some heap)
      (unowned : ∀ link ∈ s.versionInfo e.rid, ¬(link.isValid = true ∧ link.prevTxn = id))
      (base : s.store.getRow e.rid = some (tupleMeta, row))
      (stored : PageStore.SlotWritten s.store e.rid (⟨0, true⟩, row) after) :
      Steps s (.rollback id e) ({ s with store := after }.setPhase id (some (.rollingBack (rest.erase e)))) []
  | rollbackFailed {id : Int} {e rest txn heap} (phase : s.phase id = some (.rollingBack rest))
      (found : s.txnMap id = some txn) (table : s.tables e.oid = some heap)
      (refused : s.mvccRollback id txn e.rid = .failed) :
      Steps s (.rollback id e) (s.setPhase id (some .idle)) []
  | markedAborted {id txn} (phase : s.phase id = some (.rollingBack [])) (found : s.txnMap id = some txn) :
      Steps s (.markAborted id)
        ((s.setTxn id { txn with state := .aborted }).setPhase id (some (.leaving txn.readTs none))) []
  | leftCommitted {id readTs commitTs runningTxns} (phase : s.phase id = some (.leaving readTs (some commitTs)))
      (removed : (s.runningTxns.updateCommitTs commitTs).removeTxn readTs = some runningTxns) :
      Steps s (.leave id) ({ s with runningTxns := runningTxns, commitMutex := none }.setPhase id none) []
  | leftAborted {id readTs runningTxns} (phase : s.phase id = some (.leaving readTs none))
      (removed : s.runningTxns.removeTxn readTs = some runningTxns) :
      Steps s (.leave id) ({ s with runningTxns := runningTxns }.setPhase id none) []
  | watermarkRead : Steps s .readWatermark s.readWatermark []
  | collected {watermark} (pending : watermark ∈ s.gcWatermarks) :
      Steps s (.collect watermark)
        { s with txnMap := sweep watermark s.txnMap, gcWatermarks := s.gcWatermarks.erase watermark } []
  | created : Steps s .createTable s.createTable []
  | dropped {oid heap} (table : s.tables oid = some heap) :
      Steps s (.dropTable oid)
        { s with store := heap.freeAllPages s.store, tables := update s.tables oid none } []

namespace Database

variable {s next : Database} {events : List Event} {rid : RID} {tupleMeta : TupleMeta} {page : TablePage}
  {row : RowBytes} {value : Option RowBytes}

theorem applyBase_slotWritten (base : s.store.getRow rid = some (tupleMeta, row))
    (done : s.applyBase id rid value = .updated page) :
    PageStore.SlotWritten s.store rid (written id value row) (s.store.write rid.pageId page) := by
  unfold applyBase at done
  split at done
  · split at done
    · next updated =>
      cases done
      exact PageStore.slotWritten_updateTupleMeta base updated
    · cases done
  · exact PageStore.slotWritten_updateRow base done

theorem steps_begin {isolationLevel : IsolationLevel} (taken : s.beginTxn isolationLevel = some (next, events)) :
    Steps s (.begin isolationLevel) next events := by
  revert taken
  fun_cases beginTxn s isolationLevel <;> rintro ⟨⟩
  case case2 runningTxns added => exact .began added

theorem steps_scan {oid : Nat} {p : ScanPredicate}
    (taken : s.scan id oid p = some (next, events)) : Steps s (.scan id oid p) next events := by
  revert taken
  fun_cases scan s id oid p <;> rintro ⟨⟩
  case case1 txn heap table ready serializable => exact .scanned (statementTxn_ready ready) table serializable
  case case2 => exact .scanUnrecorded

theorem steps_insert {oid : Nat}
    (taken : s.insert id oid row = some (next, events)) : Steps s (.insert id oid row) next events := by
  unfold insert at taken
  split at taken
  · next txn heap ready table =>
    obtain ⟨grown, linked, grew, full | ⟨after, placed, appended⟩⟩ :=
      heap.appendRowBytes_spec s.store ⟨id, false⟩ row
    · simp only [mvccInsert, full] at taken
      obtain ⟨rfl, rfl⟩ := taken
      exact Steps.insertTooLarge table grew
    · simp only [mvccInsert, appended] at taken
      obtain ⟨rfl, rfl⟩ := taken
      exact Steps.inserted (statementTxn_ready ready) table grew placed
  · cases taken

variable {e : Entry}

theorem steps_modify
    (taken : s.modify id e value = some (next, events)) : Steps s (.modify id e value) next events := by
  revert taken
  fun_cases modify s id e value <;> rintro ⟨⟩
  case case1 txn heap table ready listed done =>
    revert done
    fun_cases applyMvccModify s id txn e value <;> rintro ⟨⟩
    case case2 tupleMeta row base own page applied =>
      exact .rewrote (statementTxn_ready ready) table listed base own (applyBase_slotWritten base applied)
    case case6 tupleMeta row base foreign inSnapshot link logged appended page applied =>
      cases appended
      exact .versioned (statementTxn_ready ready) table listed base foreign inSnapshot (applyBase_slotWritten base applied)
  case case2 txn heap table ready listed done =>
    revert done
    fun_cases applyMvccModify s id txn e value <;> rintro ⟨⟩
    case case10 tupleMeta row base foreign outside =>
      exact .modifyConflict (statementTxn_ready ready) base foreign (lt_of_not_ge outside)
  case case3 txn heap table ready listed done =>
    revert done
    fun_cases applyMvccModify s id txn e value <;> rintro ⟨⟩
    case case3 => exact .rewriteTooLarge
    case case7 tupleMeta row base foreign inSnapshot link logged appended refused =>
      cases appended
      exact .versionTooLarge (statementTxn_ready ready) table listed base inSnapshot

theorem steps_startCommit (taken : s.startCommit id = some (next, events)) :
    Steps s (.startCommit id) next events := by
  revert taken
  fun_cases startCommit s id <;> rintro ⟨⟩
  case case2 txn ready guard => exact .commitStarted (statementTxn_ready ready) guard.1

theorem steps_lockCommit (taken : s.lockCommit id = some (next, events)) :
    Steps s (.lockCommit id) next events := by
  revert taken
  fun_cases lockCommit s id <;> rintro ⟨⟩
  case case1 txn found guard checked phase => exact .lockedToVerify phase found guard.1 guard.2
  case case3 phase txn found here guard unchecked start =>
    obtain ⟨rfl, running, -⟩ := start
    exact .lockedToStamp ⟨here, found, .inl running⟩ running unchecked guard.1 guard.2

theorem steps_verifyRow (taken : s.verifyRow id e = some (next, events)) :
    Steps s (.verifyRow id e) next events := by
  revert taken
  fun_cases verifyRow s id e <;> rintro ⟨⟩
  case case1 locked rest txn found phase member dropped => exact .verifySkipped phase member dropped
  case case3 locked rest txn found phase member heap table tupleMeta row base temp =>
    exact .verifyWalking phase found member table base (.inl temp)
  case case4 locked rest txn found phase member heap table tupleMeta row base settled read =>
    exact .verifyRejected phase found
  case case5 locked rest txn found phase member heap table tupleMeta row base settled unread inSnapshot =>
    exact .verifyPassed phase found member base (Bool.eq_false_iff.mpr settled) (Bool.eq_false_iff.mpr unread) inSnapshot
  case case6 locked rest txn found phase member heap table tupleMeta row base settled unread newer =>
    exact .verifyWalking phase found member table base (.inr ⟨Bool.eq_false_iff.mpr unread, lt_of_not_ge newer⟩)

theorem steps_verifyLink (taken : s.verifyLink id = some (next, events)) :
    Steps s (.verifyLink id) next events := by
  revert taken
  fun_cases verifyLink s id <;> rintro ⟨⟩
  case case1 locked rest oid link txn found phase missing => exact .linkEnded phase missing
  case case2 locked rest oid link txn found phase undo resolved read => exact .linkRejected phase found
  case case3 locked rest oid link txn found phase undo resolved unread inSnapshot =>
    exact .linkPassed phase found resolved (Bool.eq_false_iff.mpr unread) inSnapshot
  case case4 locked rest oid link txn found phase undo resolved unread newer =>
    exact .linkFollowed phase found resolved (Bool.eq_false_iff.mpr unread) (lt_of_not_ge newer)

theorem steps_stamp (taken : s.stamp id e = some (next, events)) : Steps s (.stamp id e) next events := by
  revert taken
  fun_cases stamp s id e <;> rintro ⟨⟩
  case case1 commitTs rest phase member dropped => exact .stampSkipped phase member dropped
  case case3 commitTs rest phase member heap table after done =>
    revert done
    fun_cases mvccStampCommit s e.rid commitTs <;> rintro ⟨⟩
    case case3 tupleMeta row base page updated =>
      exact .stamped phase member table base (PageStore.slotWritten_updateTupleMeta base updated)

theorem getRow_of_updateTupleMeta
    (done : (s.store.pages rid.pageId).updateTupleMeta tupleMeta rid.slotNum = some page) :
    ∃ old, s.store.getRow rid = some old := by
  cases base : s.store.getRow rid with
  | some old => exact ⟨old, rfl⟩
  | none =>
    rw [PageStore.getRow_eq] at base
    rw [TablePage.updateTupleMeta_absent _ _ base] at done
    cases done

theorem getRow_of_updateRow
    (done : (s.store.pages rid.pageId).updateRow tupleMeta row rid.slotNum = .updated page) :
    ∃ old, s.store.getRow rid = some old := by
  cases base : s.store.getRow rid with
  | some old => exact ⟨old, rfl⟩
  | none =>
    rw [PageStore.getRow_eq] at base
    rw [TablePage.updateRow_absent _ _ _ base] at done
    cases done

theorem restorePreImage_restored {log : UndoLog} (done : s.restorePreImage rid log = .restored next) :
    ∃ tupleMeta row after, s.store.getRow rid = some (tupleMeta, row) ∧
      PageStore.SlotWritten s.store rid (restoredTuple log row) after ∧
      next = { s with store := after }.updateUndoLink rid
        (if log.prevVersion.isValid then some log.prevVersion else none) := by
  revert done
  fun_cases restorePreImage s rid log <;> rintro ⟨⟩
  case case1 page relinked deleted restored updated =>
    obtain ⟨⟨tupleMeta, row⟩, base⟩ := getRow_of_updateTupleMeta updated
    refine ⟨tupleMeta, row, _, base, ?_, rfl⟩
    rw [restoredTuple, if_pos deleted]
    exact PageStore.slotWritten_updateTupleMeta base updated
  case case3 page relinked live restored updated =>
    obtain ⟨⟨tupleMeta, row⟩, base⟩ := getRow_of_updateRow updated
    refine ⟨tupleMeta, row, _, base, ?_, rfl⟩
    rw [restoredTuple, if_neg live]
    exact PageStore.slotWritten_updateRow base updated

theorem tombstone_restored (done : s.tombstone rid = .restored next) :
    ∃ tupleMeta row after, s.store.getRow rid = some (tupleMeta, row) ∧
      PageStore.SlotWritten s.store rid (⟨0, true⟩, row) after ∧ next = { s with store := after } := by
  revert done
  fun_cases tombstone s rid <;> rintro ⟨⟩
  case case1 page updated =>
    obtain ⟨⟨tupleMeta, row⟩, base⟩ := getRow_of_updateTupleMeta updated
    exact ⟨tupleMeta, row, _, base, PageStore.slotWritten_updateTupleMeta base updated, rfl⟩

theorem steps_rollback (taken : s.rollback id e = some (next, events)) :
    Steps s (.rollback id e) next events := by
  revert taken
  fun_cases rollback s id e <;> rintro ⟨⟩
  case case1 rest txn found phase member dropped => exact .rollbackSkipped phase member dropped
  case case2 rest txn found phase member heap table after done =>
    revert done
    fun_cases mvccRollback s id txn e.rid <;> intro done
    case case1 link head mine log logged =>
      obtain ⟨tupleMeta, row, after, base, stored, rfl⟩ := restorePreImage_restored done
      exact .restored phase found member table head mine.1 mine.2 logged base stored
    case case2 => cases done
    case case3 link head other =>
      obtain ⟨tupleMeta, row, after, base, stored, rfl⟩ := tombstone_restored done
      exact .tombstoned phase member table (fun _ same => Option.some.inj (head.symm.trans same) ▸ other) base stored
    case case4 unlinked =>
      obtain ⟨tupleMeta, row, after, base, stored, rfl⟩ := tombstone_restored done
      exact .tombstoned phase member table (fun _ same => by cases unlinked.symm.trans same) base stored
  case case3 rest txn found phase member heap table refused => exact .rollbackFailed phase found table refused

theorem steps_leave (taken : s.leave id = some (next, events)) : Steps s (.leave id) next events := by
  revert taken
  fun_cases leave s id <;> rintro ⟨⟩
  case case2 readTs commitTs phase runningTxns removed => exact .leftCommitted phase removed
  case case4 readTs phase runningTxns removed => exact .leftAborted phase removed

theorem steps_of_step {a : Action} (taken : s.step a = some (next, events)) : Steps s a next events := by
  cases a with
  | begin isolationLevel => exact steps_begin taken
  | scan id oid p => exact steps_scan taken
  | insert id oid row => exact steps_insert taken
  | modify id e value => exact steps_modify taken
  | requestCancellation id =>
    simp only [step, requestCancellation] at taken
    split at taken
    · next ready =>
      cases taken
      exact Steps.cancelled (statementTxn_ready ready)
    · cases taken
  | startCommit id => exact steps_startCommit taken
  | lockCommit id => exact steps_lockCommit taken
  | verifyRow id e => exact steps_verifyRow taken
  | verifyLink id => exact steps_verifyLink taken
  | verified id =>
    simp only [step, Database.verified] at taken
    split at taken
    · next phase found =>
      cases taken
      exact Steps.verified phase found
    · cases taken
  | stamp id e => exact steps_stamp taken
  | publish id =>
    simp only [step, publish] at taken
    split at taken
    · next phase found =>
      cases taken
      exact Steps.published phase found
    · cases taken
  | startAbort id =>
    simp only [step, startAbort] at taken
    split at taken
    · next ready =>
      cases taken
      exact Steps.abortStarted (statementTxn_ready ready)
    · cases taken
  | rollback id e => exact steps_rollback taken
  | markAborted id =>
    simp only [step, markAborted] at taken
    split at taken
    · next phase found =>
      cases taken
      exact Steps.markedAborted phase found
    · cases taken
  | leave id => exact steps_leave taken
  | readWatermark =>
    cases taken
    exact Steps.watermarkRead
  | collect watermark =>
    simp only [step, collect] at taken
    split at taken
    · next pending =>
      cases taken
      exact Steps.collected pending
    · cases taken
  | createTable =>
    cases taken
    exact Steps.created
  | dropTable oid =>
    simp only [step, dropTable] at taken
    split at taken
    · cases taken
    · next table =>
      cases taken
      exact Steps.dropped table

end Database

end BumbleBee.Mvcc
