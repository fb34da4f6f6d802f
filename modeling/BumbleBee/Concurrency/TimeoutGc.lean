import BumbleBee.Concurrency.Transaction
import BumbleBee.Library.Transition

/-!
How a transaction is finalized, step by step: its session enters and leaves
statements, commits and aborts, while any number of garbage collections look for
transactions that have timed out. A step is one atomic access, or one critical
section of the transaction's `finalize_mutex_` unless the mutex is kept. Rows are
only counted here; a row's rollback throws if its pre-image no longer fits its page.
-/

namespace BumbleBee.Concurrency
open Library.Transition Function

structure TxnControl where
  state : TransactionState
  cancellationRequested : Bool
  activeStatements : Nat
  finalizeMutex : Bool
  writes : Nat
  deriving DecidableEq

/-- RUNNING or TAINTED. -/
def TxnControl.isOpen (t : TxnControl) : Bool :=
  match t.state with
  | .running | .tainted => true
  | .committed | .aborted => false

inductive SessionPoint where
  | free
  | entering
  | counted
  | loaded (isOpen : Bool)
  | tainting
  | lockingCommit
  | committing
  | lockingAbort
  | rollingBack (rows : Nat)
  deriving DecidableEq

/-- `depth` counts the statements that were entered successfully and not left. -/
structure SessionState where
  point : SessionPoint
  depth : Nat
  deriving DecidableEq

inductive CollectorPoint (I : Type) where
  | idle
  | reaping (rest : List I)
  | cancelling (id : I) (rest : List I)
  | counting (id : I) (rest : List I)
  | lockingAbort (id : I) (rest : List I)
  | rollingBack (id : I) (rows : Nat) (rest : List I)
  | sweeping
  deriving DecidableEq

/-- Transactions with the session that owns each of them, and the collections in progress. -/
structure Finalization (I C : Type) where
  txn : I → TxnControl
  session : I → SessionState
  collector : C → CollectorPoint I

inductive FinalizationEvent (I : Type) where
  | committed (id : I)
  | rolledBack (id : I)
  | threw
  deriving DecidableEq

/-- `outcome` is the result of the validation of `Commit`, or whether a row's pre-image still fits its page. -/
inductive SessionCall where
  | enterStatement
  | leaveStatement
  | write
  | setTainted
  | commit
  | abort
  | advance (outcome : Bool)
  deriving DecidableEq

/-- `expired` is any list: the states it is made from are read one after the other. `fits` says whether the
pre-image of the next row still fits its page. -/
inductive FinalizationAction (I C : Type) where
  | session (id : I) (call : SessionCall)
  | collect (c : C) (expired : List I)
  | reap (c : C) (fits : Bool)

namespace Finalization
variable {I C : Type} [DecidableEq I] [DecidableEq C]

section
variable (s : Finalization I C)

def setSession (id : I) (t : TxnControl) (x : SessionState) : Finalization I C :=
  { s with txn := update s.txn id t, session := update s.session id x }

def setCollector (c : C) (id : I) (t : TxnControl) (x : CollectorPoint I) : Finalization I C :=
  { s with txn := update s.txn id t, collector := update s.collector c x }

def moveCollector (c : C) (x : CollectorPoint I) : Finalization I C :=
  { s with collector := update s.collector c x }

/-- One step inside a call of the session. -/
def advanceSession (t : TxnControl) (x : SessionState) (outcome : Bool) :
    Option (TxnControl × SessionState × Bool) :=
  match x.point with
  | .free => none
  | .entering => some ({ t with activeStatements := t.activeStatements + 1 }, { x with point := .counted }, false)
  | .counted => some (t, { x with point := .loaded t.isOpen }, false)
  | .loaded isOpen =>
    if t.cancellationRequested || !isOpen then
      some ({ t with activeStatements := t.activeStatements - 1 }, { x with point := .free }, false)
    else some (t, ⟨.free, x.depth + 1⟩, false)
  | .tainting => some ({ t with state := .tainted }, { x with point := .free }, false)
  | .lockingCommit =>
    if t.finalizeMutex then none
    else if t.cancellationRequested then some (t, { x with point := .lockingAbort }, false)
    else some ({ t with finalizeMutex := true }, { x with point := .committing }, false)
  | .committing =>
    if outcome = false then some ({ t with finalizeMutex := false }, { x with point := .lockingAbort }, false)
    else if t.state = .running then
      some ({ t with state := .committed, finalizeMutex := false }, { x with point := .free }, true)
    else some ({ t with finalizeMutex := false }, { x with point := .free }, false)
  | .lockingAbort =>
    if t.finalizeMutex then none
    else if t.isOpen then some ({ t with finalizeMutex := true }, { x with point := .rollingBack t.writes }, false)
    else some (t, { x with point := .free }, false)
  | .rollingBack (rows + 1) =>
    if outcome then some (t, { x with point := .rollingBack rows }, false)
    else some ({ t with finalizeMutex := false }, { x with point := .free }, false)
  | .rollingBack 0 => some ({ t with state := .aborted, finalizeMutex := false }, { x with point := .free }, false)

/-- A call of the session, or a step inside one; the flag says that it committed. -/
def callSession (t : TxnControl) (x : SessionState) : SessionCall → Option (TxnControl × SessionState × Bool)
  | .advance outcome => advanceSession t x outcome
  | .enterStatement =>
    if x.point = .free ∧ t.cancellationRequested = false then some (t, { x with point := .entering }, false)
    else none
  | .leaveStatement =>
    if x.point = .free ∧ 0 < x.depth then
      some ({ t with activeStatements := t.activeStatements - 1 }, { x with depth := x.depth - 1 }, false)
    else none
  | .write =>
    if x.point = .free ∧ 0 < x.depth then some ({ t with writes := t.writes + 1 }, x, false) else none
  | .setTainted =>
    if x.point = .free ∧ 0 < x.depth ∧ t.state = .running then some (t, { x with point := .tainting }, false)
    else none
  | .commit => if x.point = .free then some (t, { x with point := .lockingCommit }, false) else none
  | .abort => if x.point = .free then some (t, { x with point := .lockingAbort }, false) else none

/-- `RequestCancellation`. -/
def requestCancellation (t : TxnControl) : TxnControl :=
  if t.isOpen then { t with cancellationRequested := true } else t

/-- The timeout phase of `GarbageCollection`, and the `Abort` it calls. -/
def reap (c : C) (fits : Bool) : Option (Finalization I C × List (FinalizationEvent I)) :=
  match s.collector c with
  | .idle => none
  | .reaping [] => some (s.moveCollector c .sweeping, [])
  | .reaping (id :: rest) =>
    if (s.txn id).isOpen then some (s.moveCollector c (.cancelling id rest), [])
    else some (s.moveCollector c (.reaping rest), [])
  | .cancelling id rest =>
    if (s.txn id).finalizeMutex then none
    else some (s.setCollector c id (requestCancellation (s.txn id)) (.counting id rest), [])
  | .counting id rest =>
    if (s.txn id).activeStatements = 0 then some (s.moveCollector c (.lockingAbort id rest), [])
    else some (s.moveCollector c (.reaping rest), [])
  | .lockingAbort id rest =>
    if (s.txn id).finalizeMutex then none
    else
      match (s.txn id).state with
      | .aborted => some (s.moveCollector c (.reaping rest), [])
      | .committed => some (s.moveCollector c .idle, [.threw])
      | .running | .tainted =>
        some (s.setCollector c id { s.txn id with finalizeMutex := true } (.rollingBack id (s.txn id).writes rest), [])
  | .rollingBack id (rows + 1) rest =>
    if fits then some (s.moveCollector c (.rollingBack id rows rest), [.rolledBack id])
    else some (s.setCollector c id { s.txn id with finalizeMutex := false } .idle, [.threw])
  | .rollingBack id 0 rest =>
    some (s.setCollector c id { s.txn id with state := .aborted, finalizeMutex := false } (.reaping rest),
      [.rolledBack id])
  | .sweeping => some (s.moveCollector c .idle, [])

def step : FinalizationAction I C → Option (Finalization I C × List (FinalizationEvent I))
  | .session id call =>
    match callSession (s.txn id) (s.session id) call with
    | none => none
    | some (t, x, committed) => some (s.setSession id t x, if committed then [.committed id] else [])
  | .collect c expired =>
    if s.collector c = .idle then some (s.moveCollector c (.reaping expired), []) else none
  | .reap c fits => s.reap c fits

/-- Every transaction has just begun, and no collection runs. -/
def Initial : Prop :=
  (∀ id, s.txn id = ⟨.running, false, 0, false, 0⟩ ∧ s.session id = ⟨.free, 0⟩) ∧ ∀ c, s.collector c = .idle

end

end Finalization

def finalization (I C : Type) [DecidableEq I] [DecidableEq C] :
    System (Finalization I C) (FinalizationAction I C) (FinalizationEvent I) where
  init := Finalization.Initial
  step s a := s.step a

end BumbleBee.Concurrency
