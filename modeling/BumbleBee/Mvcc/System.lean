import BumbleBee.Library.Transition
import BumbleBee.Mvcc.Database

/-!
The transaction manager as a transition system. Each action is one latch-atomic
section of `Begin`, of a statement, of `Commit`, of `Abort` or of
`GarbageCollection`; the sets the code iterates over in an unspecified order are
visited in the order the actions choose.
-/

namespace BumbleBee.Mvcc
open Library.Transition Storage Storage.SlottedPage Concurrency Function

inductive Action where
  | begin (isolationLevel : IsolationLevel)
  | scan (id : Int) (oid : Nat) (p : ScanPredicate)
  | insert (id : Int) (oid : Nat) (row : RowBytes)
  | modify (id : Int) (e : Entry) (value : Option RowBytes)
  | requestCancellation (id : Int)
  | startCommit (id : Int)
  | lockCommit (id : Int)
  | verifyRow (id : Int) (e : Entry)
  | verifyLink (id : Int)
  | verified (id : Int)
  | stamp (id : Int) (e : Entry)
  | publish (id : Int)
  | startAbort (id : Int)
  | rollback (id : Int) (e : Entry)
  | markAborted (id : Int)
  | leave (id : Int)
  | readWatermark
  | collect (watermark : Int)
  | createTable
  | dropTable (oid : Nat)

/-- A call of `Commit` gets under way. -/
def Action.Commits (a : Action) (id : Int) : Prop := a = .startCommit id ∨ a = .lockCommit id

inductive Event where
  | began (id : Int) (readTs : Int) (isolationLevel : IsolationLevel)
  | scanned (id : Int) (oid : Nat) (p : ScanPredicate)
  | inserted (id : Int) (e : Entry) (row : RowBytes)
  | modified (id : Int) (e : Entry) (value : Option RowBytes)
  | committed (id : Int) (commitTs : Int)

namespace Database

variable (s : Database) (id : Int)

/-- A transaction that may run a statement now. -/
def statementTxn : Option Transaction :=
  match s.phase id, s.txnMap id with
  | some .idle, some txn => if txn.Live then some txn else none
  | _, _ => none

/-- The state once the new transaction is in the map and registered. -/
def begun (isolationLevel : IsolationLevel) (runningTxns : Watermark) : Database :=
  { s with
    nextTxnId := s.nextTxnId + 1
    txnMap := update s.txnMap s.nextTxnId
      (some { isolationLevel := isolationLevel, readTs := s.lastCommitTs })
    runningTxns := runningTxns
    phase := update s.phase s.nextTxnId (some .idle) }

def beginTxn (isolationLevel : IsolationLevel) : Option (Database × List Event) :=
  match s.runningTxns.addTxn s.lastCommitTs with
  | none => none
  | some runningTxns => some
      (s.begun isolationLevel runningTxns, [.began s.nextTxnId s.lastCommitTs isolationLevel])

/-- `BeginParallelScan` records its predicate for SERIALIZABLE transactions only. -/
def scan (oid : Nat) (p : ScanPredicate) : Option (Database × List Event) :=
  match s.statementTxn id, s.tables oid with
  | some txn, some _ =>
    if txn.isolationLevel = .serializable then
      some (s.setTxn id (txn.appendScanPredicate oid p), [.scanned id oid p])
    else some (s, [])
  | _, _ => none

def insert (oid : Nat) (row : RowBytes) : Option (Database × List Event) :=
  match s.statementTxn id, s.tables oid with
  | some txn, some heap =>
    match s.mvccInsert id txn oid heap row with
    | .inserted rid next => some (next, [.inserted id ⟨oid, rid⟩ row])
    | .tooLarge next => some (next, [])
  | _, _ => none

def modify (e : Entry) (value : Option RowBytes) : Option (Database × List Event) :=
  match s.statementTxn id, s.tables e.oid with
  | some txn, some heap =>
    if e.rid.pageId ∈ heap.pageDirectory then
      match s.applyMvccModify id txn e value with
      | .applied next => some (next, [.modified id e value])
      | .conflict next => some (next, [])
      | .tooLarge next => some (next, [])
      | .badSlot => none
      | .undefined => none
    else none
  | _, _ => none

def requestCancellation : Option (Database × List Event) :=
  match s.statementTxn id with
  | some txn => some (s.setTxn id { txn with cancellationRequested := true }, [])
  | none => none

/-- Write-set entries of every other transaction that committed after the snapshot. -/
def suspects (readTs : Int) : List Entry :=
  ((List.range (s.nextTxnId - txnStartId).toNat).map fun k : Nat => txnStartId + (k : Int)).flatMap
    fun other =>
      match s.txnMap other with
      | some u =>
        if other ≠ id ∧ u.state = .committed ∧ readTs < u.commitTs then u.writeSet else []
      | none => []

/-- `Commit` of a SERIALIZABLE transaction that wrote starts with a check outside the commit mutex. -/
def startCommit : Option (Database × List Event) :=
  match s.statementTxn id with
  | none => none
  | some txn =>
    if txn.state = .running ∧ txn.cancellationRequested = false ∧ txn.isolationLevel = .serializable ∧
        txn.writeSet ≠ [] then
      some (s.setPhase id (some (.verifying false (s.suspects id txn.readTs) none)), [])
    else none

/-- `Commit` takes the commit mutex, once the check outside it has passed where there is one. -/
def lockCommit : Option (Database × List Event) :=
  match s.phase id, s.txnMap id with
  | some phase, some txn =>
    if s.commitMutex = none ∧ s.lastCommitTs + 1 < txnStartId then
      if txn.isolationLevel = .serializable ∧ txn.writeSet ≠ [] then
        if phase = .verifying false [] none then
          some ({ s with commitMutex := some id }.setPhase id
            (some (.verifying true (s.suspects id txn.readTs) none)), [])
        else none
      else if phase = .idle ∧ txn.state = .running ∧ txn.cancellationRequested = false then
        some ({ s with commitMutex := some id }.setPhase id
          (some (.stamping (s.lastCommitTs + 1) txn.writeSet)), [])
      else none
    else none
  | _, _ => none

/-- A failed validation aborts, and releases the commit mutex if it holds it. -/
def rejectCommit (txn : Transaction) (locked : Bool) : Database :=
  { s with commitMutex := if locked then none else s.commitMutex }.setPhase id
    (some (.rollingBack txn.writeSet))

/-- `RidConflictsWithReads` under the page latch: the base tuple and the head link. -/
def verifyRow (e : Entry) : Option (Database × List Event) :=
  match s.phase id, s.txnMap id with
  | some (.verifying locked rest none), some txn =>
    if e ∈ rest then
      match s.tables e.oid with
      | none => some (s.setPhase id (some (.verifying locked (rest.erase e) none)), [])
      | some _ =>
        match s.store.getRow e.rid with
        | none => none
        | some (tupleMeta, row) =>
          if isTempTs tupleMeta.ts then
            some (s.setPhase id
              (some (.verifying locked (rest.erase e) (some (e.oid, s.getUndoLink e.rid)))), [])
          else if !tupleMeta.isDeleted && txn.isScanTuple e.oid row then
            some (s.rejectCommit id txn locked, [])
          else if tupleMeta.ts ≤ txn.readTs then
            some (s.setPhase id (some (.verifying locked (rest.erase e) none)), [])
          else
            some (s.setPhase id
              (some (.verifying locked (rest.erase e) (some (e.oid, s.getUndoLink e.rid)))), [])
    else none
  | _, _ => none

/-- One turn of the latch-free walk over older versions. -/
def verifyLink : Option (Database × List Event) :=
  match s.phase id, s.txnMap id with
  | some (.verifying locked rest (some (oid, link))), some txn =>
    match link.filter UndoLink.isValid |>.bind s.getUndoLogOptional with
    | none => some (s.setPhase id (some (.verifying locked rest none)), [])
    | some undo =>
      if !undo.isDeleted && txn.isScanTuple oid undo.row then some (s.rejectCommit id txn locked, [])
      else if undo.ts ≤ txn.readTs then some (s.setPhase id (some (.verifying locked rest none)), [])
      else some (s.setPhase id (some (.verifying locked rest (some (oid, some undo.prevVersion)))), [])
  | _, _ => none

/-- The second validation has passed. -/
def verified : Option (Database × List Event) :=
  match s.phase id, s.txnMap id with
  | some (.verifying true [] none), some txn =>
    some (s.setPhase id (some (.stamping (s.lastCommitTs + 1) txn.writeSet)), [])
  | _, _ => none

def stamp (e : Entry) : Option (Database × List Event) :=
  match s.phase id with
  | some (.stamping commitTs rest) =>
    if e ∈ rest then
      match s.tables e.oid with
      | none => some (s.setPhase id (some (.stamping commitTs (rest.erase e))), [])
      | some _ =>
        match s.mvccStampCommit e.rid commitTs with
        | none => none
        | some next => some (next.setPhase id (some (.stamping commitTs (rest.erase e))), [])
    else none
  | _ => none

/-- The three stores that make a commit visible to later snapshots. -/
def publish : Option (Database × List Event) :=
  match s.phase id, s.txnMap id with
  | some (.stamping commitTs []), some txn =>
    some (({ s with lastCommitTs := commitTs }.setTxn id
        { txn with commitTs := commitTs, state := .committed }).setPhase id
          (some (.leaving txn.readTs (some commitTs))),
      [.committed id commitTs])
  | _, _ => none

def startAbort : Option (Database × List Event) :=
  match s.statementTxn id with
  | some txn => some (s.setPhase id (some (.rollingBack txn.writeSet)), [])
  | none => none

/-- A rollback that throws leaves the transaction RUNNING or TAINTED, partly rolled back. -/
def rollback (e : Entry) : Option (Database × List Event) :=
  match s.phase id, s.txnMap id with
  | some (.rollingBack rest), some txn =>
    if e ∈ rest then
      match s.tables e.oid with
      | none => some (s.setPhase id (some (.rollingBack (rest.erase e))), [])
      | some _ =>
        match s.mvccRollback id txn e.rid with
        | .restored next => some (next.setPhase id (some (.rollingBack (rest.erase e))), [])
        | .failed => some (s.setPhase id (some .idle), [])
        | .badSlot => none
        | .undefined => none
    else none
  | _, _ => none

def markAborted : Option (Database × List Event) :=
  match s.phase id, s.txnMap id with
  | some (.rollingBack []), some txn =>
    some ((s.setTxn id { txn with state := .aborted }).setPhase id (some (.leaving txn.readTs none)), [])
  | _, _ => none

/-- Deregistration under the transaction-map lock; a commit then drops its mutex. -/
def leave : Option (Database × List Event) :=
  match s.phase id with
  | some (.leaving readTs (some commitTs)) =>
    match (s.runningTxns.updateCommitTs commitTs).removeTxn readTs with
    | none => none
    | some runningTxns =>
      some ({ s with runningTxns := runningTxns, commitMutex := none }.setPhase id none, [])
  | some (.leaving readTs none) =>
    match s.runningTxns.removeTxn readTs with
    | none => none
    | some runningTxns => some ({ s with runningTxns := runningTxns }.setPhase id none, [])
  | _ => none

def readWatermark : Database :=
  { s with gcWatermarks := s.runningTxns.getWatermark :: s.gcWatermarks }

def collectible (watermark : Int) (txn : Transaction) : Bool :=
  txn.state = .aborted || (txn.state = .committed && txn.commitTs ≤ watermark)

def sweep (watermark : Int) (txnMap : Int → Option Transaction) : Int → Option Transaction :=
  fun id => (txnMap id).filter fun txn => !collectible watermark txn

def collect (watermark : Int) : Option (Database × List Event) :=
  if watermark ∈ s.gcWatermarks then
    some ({ s with
      txnMap := sweep watermark s.txnMap
      gcWatermarks := s.gcWatermarks.erase watermark }, [])
  else none

def createTable : Database :=
  { s with
    store := (TableHeap.create s.store).2
    tables := update s.tables s.nextOid (some (TableHeap.create s.store).1)
    nextOid := s.nextOid + 1 }

/-- Table oids are never reused; page ids are. -/
def dropTable (oid : Nat) : Option (Database × List Event) :=
  match s.tables oid with
  | none => none
  | some heap =>
    some ({ s with
      store := heap.freeAllPages s.store
      tables := update s.tables oid none }, [])

def step : Action → Option (Database × List Event)
  | .begin isolationLevel => s.beginTxn isolationLevel
  | .scan id oid p => s.scan id oid p
  | .insert id oid row => s.insert id oid row
  | .modify id e value => s.modify id e value
  | .requestCancellation id => s.requestCancellation id
  | .startCommit id => s.startCommit id
  | .lockCommit id => s.lockCommit id
  | .verifyRow id e => s.verifyRow id e
  | .verifyLink id => s.verifyLink id
  | .verified id => s.verified id
  | .stamp id e => s.stamp id e
  | .publish id => s.publish id
  | .startAbort id => s.startAbort id
  | .rollback id e => s.rollback id e
  | .markAborted id => s.markAborted id
  | .leave id => s.leave id
  | .readWatermark => some (s.readWatermark, [])
  | .collect watermark => s.collect watermark
  | .createTable => some (s.createTable, [])
  | .dropTable oid => s.dropTable oid

/-- A database just opened: no transaction has begun, no table exists, no page was handed out. -/
structure Initial (s : Database) : Prop where
  nextTxnId : s.nextTxnId = txnStartId
  clock : 0 ≤ s.lastCommitTs ∧ s.lastCommitTs < txnStartId
  txnMap : ∀ id, s.txnMap id = none
  runningTxns : s.runningTxns = Watermark.new s.lastCommitTs
  versionInfo : ∀ rid, s.versionInfo rid = none
  commitMutex : s.commitMutex = none
  phase : ∀ id, s.phase id = none
  gcWatermarks : s.gcWatermarks = []
  freePages : s.store.freePages = []
  tables : ∀ oid, s.tables oid = none

instance rowSizes : NeZero (2 ^ 16) := ⟨by decide⟩

/-- A row of zero bytes. -/
def zeroRow (size : Fin (2 ^ 16)) : RowBytes := ⟨size, size.isLt, fun _ => 0⟩

theorem eq_zeroRow {row : RowBytes} {size : Fin (2 ^ 16)} (same : row.size = size)
    (zeros : ∀ i, row.byte i = 0) : row = zeroRow size := by
  obtain ⟨length, small, byte⟩ := row
  subst same
  simp only [zeroRow, RowBytes.mk.injEq, heq_eq_eq, true_and]
  funext i
  exact zeros i

/-- A table with one row, inserted and committed. -/
def oneRow : List Action :=
  [.createTable, .begin .snapshotIsolation, .insert txnStartId 0 (zeroRow 4), .lockCommit txnStartId,
    .stamp txnStartId ⟨0, 0, 0⟩, .publish txnStartId, .leave txnStartId]

/-- A table with two rows, inserted and committed together. -/
def twoRows (size : Fin (2 ^ 16)) : List Action :=
  [.createTable, .begin .snapshotIsolation, .insert txnStartId 0 (zeroRow 4), .insert txnStartId 0 (zeroRow size),
    .lockCommit txnStartId, .stamp txnStartId ⟨0, 0, 0⟩, .stamp txnStartId ⟨0, 0, 1⟩, .publish txnStartId,
    .leave txnStartId]

def opened : Database where
  nextTxnId := txnStartId
  lastCommitTs := 0
  txnMap := fun _ => none
  runningTxns := Watermark.new 0
  versionInfo := fun _ => none
  commitMutex := none
  phase := fun _ => none
  gcWatermarks := []
  store := ⟨fun _ => TablePage.init ⟨invalidPageId, 0, [], fun _ => 0⟩, [], 0⟩
  tables := fun _ => none
  nextOid := 0

theorem opened_initial : Initial opened :=
  ⟨rfl, by decide, fun _ => rfl, rfl, fun _ => rfl, rfl, fun _ => rfl, rfl, rfl, fun _ => rfl⟩

end Database

def system : System Database Action Event where
  init := Database.Initial
  step := Database.step

end BumbleBee.Mvcc
