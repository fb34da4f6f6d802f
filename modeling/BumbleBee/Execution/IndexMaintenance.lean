import BumbleBee.Mvcc.System

/-!
Row statements of parallel workers: `PhysicalInsert`, `PhysicalUpdate`,
`PhysicalDelete` and the `InsertOrRevive` loop they share. A worker buffers its
rows in `Sink` and applies them in `Combine`; between two latch sections of one row
every other worker and every other transaction may step. The primary-key index is
a directory from keys to row ids that nothing is ever removed from.
-/

namespace BumbleBee.Execution
open Library.Transition Mvcc Storage.SlottedPage Concurrency Function

/-- A key column: its offset in the row, its offset in the key, and its fixed width. -/
structure KeyColumn where
  rowOffset : Nat
  keyOffset : Nat
  width : Nat

/-- `value` is what the comparator of the tree takes the bytes of a key for. -/
structure IndexInfo (κ : Type) where
  keyAttrs : List KeyColumn
  keySize : Nat
  value : List UInt8 → κ

structure TableInfo (κ : Type) where
  primaryKey : Option (IndexInfo κ)
  autoId : Bool

abbrev Catalog (κ : Type) := Nat → TableInfo κ

variable {κ : Type}

namespace IndexInfo

/-- `GatherKeys` for one row: the bytes of the key columns, zero-padded to the key size. -/
def gatherKeys (pk : IndexInfo κ) (row : RowBytes) : List UInt8 :=
  (List.range pk.keySize).map fun i =>
    match pk.keyAttrs.find? fun c => decide (c.keyOffset ≤ i ∧ i < c.keyOffset + c.width) with
    | some c =>
      if inside : c.rowOffset + (i - c.keyOffset) < row.size then
        row.byte ⟨c.rowOffset + (i - c.keyOffset), inside⟩
      else 0
    | none => 0

def key (pk : IndexInfo κ) (row : RowBytes) : κ := pk.value (pk.gatherKeys row)

def primaryKeyChanged (pk : IndexInfo κ) (old new : RowBytes) : Bool :=
  decide (pk.gatherKeys old ≠ pk.gatherKeys new)

end IndexInfo

/-- One buffered row of a statement. -/
inductive Job where
  | insert (row : RowBytes)
  | update (rid : RID) (old new : RowBytes)
  | delete (rid : RID)

/-- A row as `ScatterChunk` lays it out, of any length. -/
structure ScatteredRow where
  size : Nat
  byte : Fin size → UInt8

/-- The row with its length cast to `uint16_t`. What becomes of a longer one is not followed. -/
def ScatteredRow.handed (row : ScatteredRow) : Option RowBytes :=
  if small : row.size < 2 ^ 16 then some ⟨row.size, small, row.byte⟩ else none

def ScatteredRow.zeros (size : Nat) : ScatteredRow := ⟨size, fun _ => 0⟩

/-- What the child pipeline hands to `Sink`: a row, or a row id of the table with its new values. -/
inductive Input where
  | insert (row : ScatteredRow)
  | update (rid : RID) (new : ScatteredRow)
  | delete (rid : RID)

/-- How far `InsertOrRevive` has come with the row at hand. -/
inductive Probe where
  | unclassified
  | absent
  | found (rid : RID)
  | appended (rid : RID)
  | dead (rid : RID)
  deriving DecidableEq

/-- A worker: the rows it has buffered, those it has still to apply, those it has applied and where,
and how far it is with the row at hand. -/
structure Task where
  batches : List Job := []
  rest : List Job := []
  applied : List (Job × RID) := []
  combining : Bool := false
  probe : Probe := .unclassified

inductive StatementType where
  | insert
  | update
  | delete
  deriving DecidableEq

/-- `changed` are the rows an UPDATE moves to another key in its `Finalize`. -/
structure Statement where
  type : StatementType
  oid : Nat
  workers : Nat
  tasks : Nat → Task
  changed : List (RID × RowBytes)
  thrown : Bool

/-- `failed` marks the transactions one of whose statements has thrown. -/
structure Engine (κ : Type) where
  db : Database
  directory : Nat → κ → Option RID
  statement : Int → Option Statement
  failed : Int → Bool

inductive Action where
  | mvcc (a : Mvcc.Action)
  | start (id : Int) (type : StatementType) (oid workers : Nat)
  | sink (id : Int) (w : Nat) (input : Input) (fuel : Nat)
  | combine (id : Int) (w : Nat)
  | scanKey (id : Int) (w : Nat)
  | append (id : Int) (w : Nat)
  | insertEntry (id : Int) (w : Nat)
  | checkVisible (id : Int) (w : Nat) (fuel : Nat)
  | revive (id : Int) (w : Nat)
  | modify (id : Int) (w : Nat)
  | finalize (id : Int)
  | finish (id : Int)
  | fail (id : Int) (w : Nat)

namespace Statement

section
variable (st : Statement)

def setTask (w : Nat) (task : Task) : Statement :=
  { st with tasks := update st.tasks w task }

/-- The row at hand of a worker that is in its `Combine`. -/
def job (w : Nat) : Option Job :=
  if w < st.workers ∧ (st.tasks w).combining = true then (st.tasks w).rest.head? else none

def setProbe (w : Nat) (probe : Probe) : Statement :=
  st.setTask w { st.tasks w with probe := probe }

/-- The row at hand is applied at `rid`; the worker turns to its next row. -/
def advance (w : Nat) (job : Job) (rid : RID) : Statement :=
  st.setTask w { st.tasks w with
    rest := (st.tasks w).rest.tail
    applied := (st.tasks w).applied ++ [(job, rid)]
    probe := .unclassified }

/-- A row whose key changes is left to `Finalize`. -/
def defer (w : Nat) (rid : RID) (new : RowBytes) : Statement :=
  { st.setTask w { st.tasks w with rest := (st.tasks w).rest.tail } with
    changed := st.changed ++ [(rid, new)] }

/-- The worker has left its `Combine` with an exception; its remaining rows are never applied. -/
def stopped (w : Nat) : Statement :=
  { st.setTask w { st.tasks w with rest := [], combining := true, probe := .unclassified } with
    thrown := true }

def drained : Prop := ∀ w < st.workers, (st.tasks w).rest = []

end

instance (st : Statement) : Decidable st.drained :=
  decidable_of_iff (∀ w < st.workers, (st.tasks w).rest.isEmpty = true) (by simp [drained])

/-- `Finalize` of an UPDATE: every old row is deleted before any new row is inserted. -/
def finalized (st : Statement) : Statement :=
  { st with
    workers := st.workers + 1
    tasks := update st.tasks st.workers
      { rest := (st.changed.map fun moved => Job.delete moved.1) ++
          st.changed.map fun moved => Job.insert moved.2
        combining := true }
    changed := [] }

end Statement

namespace Engine

section
variable (s : Engine κ)

def setStatement (id : Int) (st : Option Statement) : Engine κ :=
  { s with statement := update s.statement id st }

/-- An exception leaves a worker: the statement has failed, its other workers may still run. -/
def throws (id : Int) (w : Nat) (st : Statement) : Engine κ :=
  { s.setStatement id (some (st.stopped w)) with failed := update s.failed id true }

/-- A statement's transaction commits after it and aborts after it, or once it has thrown. -/
def passes : Mvcc.Action → Bool
  | .insert _ _ _ => false
  | .modify _ _ _ => false
  | .startCommit id | .lockCommit id => (s.statement id).isNone
  | .startAbort id => (s.statement id).all Statement.thrown
  | _ => true

def control (a : Mvcc.Action) : Option (Engine κ × List Event) :=
  if s.passes a then
    match s.db.step a with
    | none => none
    | some (db, events) =>
      match a with
      | .startAbort id => some ({ s with db := db }.setStatement id none, events)
      | _ => some ({ s with db := db }, events)
  else none

def start (id : Int) (type : StatementType) (oid workers : Nat) : Option (Engine κ) :=
  match s.statement id, s.db.statementTxn id, s.db.tables oid with
  | none, some _, some _ => some (s.setStatement id (some ⟨type, oid, workers, fun _ => {}, [], false⟩))
  | _, _, _ => none

/-- What a scan feeds the sink: rows the transaction sees in the table. -/
def scans (id : Int) (oid : Nat) (rid : RID) (fuel : Nat) : Option RowBytes :=
  match s.db.statementTxn id, s.db.tables oid with
  | some txn, some heap =>
    if rid.pageId ∈ heap.pageDirectory then (s.db.collectVisibleVersion id txn rid fuel).join else none
  | _, _ => none

/-- `Sink` of the three operators; an UPDATE buffers the row it read with the one it computed. -/
def buffered (id : Int) (st : Statement) (fuel : Nat) : Input → Option Job
  | .insert row => if st.type = .insert then row.handed.map .insert else none
  | .update rid new =>
    if st.type = .update then
      (s.scans id st.oid rid fuel).bind fun old => new.handed.map fun row => .update rid old row
    else none
  | .delete rid => if st.type = .delete then (s.scans id st.oid rid fuel).map fun _ => .delete rid else none

def sink (id : Int) (w : Nat) (input : Input) (fuel : Nat) : Option (Engine κ) :=
  match s.statement id with
  | none => none
  | some st =>
    if w < st.workers ∧ (st.tasks w).combining = false then
      (s.buffered id st fuel input).map fun job =>
        s.setStatement id (some (st.setTask w { st.tasks w with
          batches := (st.tasks w).batches ++ [job]
          rest := (st.tasks w).rest ++ [job] }))
    else none

def combine (id : Int) (w : Nat) : Option (Engine κ) :=
  match s.statement id with
  | none => none
  | some st =>
    if w < st.workers then
      some (s.setStatement id (some (st.setTask w { st.tasks w with combining := true })))
    else none

/-- The running statement of a transaction and the row a worker has at hand. -/
def atHand (id : Int) (w : Nat) : Option (Statement × Job) :=
  (s.statement id).bind fun st => (st.job w).map fun job => (st, job)

/-- `ScanKey`; the keys an INSERT draws from the auto-id counter are not looked up. -/
def scanKey [DecidableEq κ] (catalog : Catalog κ) (id : Int) (w : Nat) : Option (Engine κ) :=
  match s.atHand id w with
  | some (st, .insert row) =>
    match (catalog st.oid).primaryKey, (st.tasks w).probe with
    | some pk, .unclassified =>
      let found := if (catalog st.oid).autoId && st.type = .insert then none else s.directory st.oid (pk.key row)
      some (s.setStatement id (some (st.setProbe w (found.elim .absent .found))))
    | _, _ => none
  | _ => none

/-- `AppendRowBytes` and `AppendWriteSet`, or `MvccInsert` where the table has no primary key. -/
def append (catalog : Catalog κ) (id : Int) (w : Nat) : Option (Engine κ × List Event) :=
  match s.atHand id w with
  | some (st, .insert row) =>
    if (catalog st.oid).primaryKey.isNone ∨ (st.tasks w).probe = .absent then
      match s.db.insert id st.oid row with
      | none => none
      | some (db, [.inserted writer e bytes]) =>
        let next := if (catalog st.oid).primaryKey.isNone then st.advance w (.insert row) e.rid
          else st.setProbe w (.appended e.rid)
        some ({ s with db := db }.setStatement id (some next), [.inserted writer e bytes])
      | some (db, events) => some ({ s with db := db }.throws id w st, events)
    else none
  | _ => none

/-- `InsertEntry`: the tree checks and publishes under its leaf latch. -/
def insertEntry [DecidableEq κ] (catalog : Catalog κ) (id : Int) (w : Nat) : Option (Engine κ) :=
  match s.atHand id w with
  | some (st, .insert row) =>
    match (catalog st.oid).primaryKey, (st.tasks w).probe with
    | some pk, .appended rid =>
      match s.directory st.oid (pk.key row) with
      | some _ => some (s.throws id w st)
      | none => some ({ s with
          directory := update s.directory st.oid
            (update (s.directory st.oid) (pk.key row) (some rid)) }.setStatement id
              (some (st.advance w (.insert row) rid)))
    | _, _ => none
  | _ => none

/-- A version visible to the inserting transaction makes the key a duplicate. -/
def checkVisible (id : Int) (w fuel : Nat) : Option (Engine κ) :=
  match s.atHand id w, s.db.statementTxn id with
  | some (st, .insert _), some txn =>
    match (st.tasks w).probe with
    | .found rid =>
      match s.db.collectVisibleVersion id txn rid fuel with
      | none => none
      | some (some _) => some (s.throws id w st)
      | some none => some (s.setStatement id (some (st.setProbe w (.dead rid))))
    | _ => none
  | _, _ => none

/-- One row through `ApplyMvccModify`, applied or thrown out. -/
def writes (id : Int) (w : Nat) (st : Statement) (job : Job) (rid : RID) (value : Option RowBytes) :
    Option (Engine κ × List Event) :=
  match s.db.modify id ⟨st.oid, rid⟩ value with
  | none => none
  | some (db, [.modified writer e value]) =>
    some ({ s with db := db }.setStatement id (some (st.advance w job rid)), [.modified writer e value])
  | some (db, events) => some ({ s with db := db }.throws id w st, events)

def revive (id : Int) (w : Nat) : Option (Engine κ × List Event) :=
  match s.atHand id w with
  | some (st, .insert row) =>
    match (st.tasks w).probe with
    | .dead rid => s.writes id w st (.insert row) rid (some row)
    | _ => none
  | _ => none

/-- `MvccUpdate` and `MvccDelete` for one row; a row moving to another key waits for `Finalize`. -/
def modify (catalog : Catalog κ) (id : Int) (w : Nat) : Option (Engine κ × List Event) :=
  match s.atHand id w with
  | some (st, .update rid old new) =>
    if (catalog st.oid).primaryKey.any fun pk => pk.primaryKeyChanged old new then
      some (s.setStatement id (some (st.defer w rid new)), [])
    else s.writes id w st (.update rid old new) rid (some new)
  | some (st, .delete rid) => s.writes id w st (.delete rid) rid none
  | _ => none

def finalize (id : Int) : Option (Engine κ) :=
  match s.statement id with
  | some st =>
    if st.drained ∧ st.changed ≠ [] ∧ st.thrown = false then some (s.setStatement id (some st.finalized))
    else none
  | none => none

def finish (id : Int) : Option (Engine κ) :=
  match s.statement id with
  | some st =>
    if st.drained ∧ st.changed = [] ∧ st.thrown = false then some (s.setStatement id none) else none
  | none => none

def fail (id : Int) (w : Nat) : Option (Engine κ) := (s.statement id).map (s.throws id w)

end

def step [DecidableEq κ] (catalog : Catalog κ) (s : Engine κ) : Action → Option (Engine κ × List Event)
  | .mvcc a => s.control a
  | .start id type oid workers => (s.start id type oid workers).map (·, [])
  | .sink id w input fuel => (s.sink id w input fuel).map (·, [])
  | .combine id w => (s.combine id w).map (·, [])
  | .scanKey id w => (s.scanKey catalog id w).map (·, [])
  | .append id w => s.append catalog id w
  | .insertEntry id w => (s.insertEntry catalog id w).map (·, [])
  | .checkVisible id w fuel => (s.checkVisible id w fuel).map (·, [])
  | .revive id w => s.revive id w
  | .modify id w => s.modify catalog id w
  | .finalize id => (s.finalize id).map (·, [])
  | .finish id => (s.finish id).map (·, [])
  | .fail id w => (s.fail id w).map (·, [])

/-- A database just opened: every directory is empty and no statement runs. -/
structure Initial (s : Engine κ) : Prop where
  db : s.db.Initial
  directory : ∀ oid k, s.directory oid k = none
  statement : ∀ id, s.statement id = none
  failed : ∀ id, s.failed id = false

def opened : Engine κ := ⟨Database.opened, fun _ _ => none, fun _ => none, fun _ => false⟩

theorem opened_initial : Initial (opened : Engine κ) :=
  ⟨Database.opened_initial, fun _ _ => rfl, fun _ => rfl, fun _ => rfl⟩

end Engine

def engine [DecidableEq κ] (catalog : Catalog κ) : System (Engine κ) Action Event where
  init := Engine.Initial
  step := Engine.step catalog

end BumbleBee.Execution
