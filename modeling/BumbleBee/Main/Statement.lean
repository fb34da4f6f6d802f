import BumbleBee.Mvcc.Program
import BumbleBee.Mvcc.Serializable

/-!
One autocommit statement of a connection among the steps of all other transactions.
`ExecuteStatement` plans first, and planning evaluates every scalar subquery in a
transaction `EvalScalarSubquery` begins and commits for it; the plan then runs in a
transaction of its own, begun afresh at every retry.
-/

namespace BumbleBee.Main
open Library.Transition Mvcc Storage Storage.SlottedPage Concurrency

/-- A row version an executor was handed by its transaction. -/
structure Read where
  txn : Int
  e : Entry
  value : Option RowBytes

inductive Stage where
  | idle
  | planning (subqueries : Nat)
  | evaluating (subqueries : Nat) (txn : Int)
  | planned
  | executing (txn : Int)
  deriving DecidableEq

/-- `answered` holds the transactions of the subqueries whose values have been substituted, `values` what
those were computed from, `reads` what the running executor has read, and `overtaken` whether a writer has
committed since the first of the subqueries began. -/
structure Connection where
  db : Database
  stage : Stage
  answered : List Int
  values : List Read
  reads : List Read
  overtaken : Bool

inductive Action where
  | mvcc (a : Mvcc.Action)
  | startStatement (subqueries : Nat)
  | beginSubquery (isolationLevel : IsolationLevel)
  | read (e : Entry) (fuel : Nat)
  | returnValue
  | retrySubquery
  | finishPlan
  | beginMain (isolationLevel : IsolationLevel)
  | retryMain
  | finish

namespace Connection

section
variable (c : Connection)

/-- The transaction whose executor is running. -/
def txn : Option Int :=
  match c.stage with
  | .evaluating _ id => some id
  | .executing id => some id
  | _ => none

/-- A scalar subquery is a SELECT. -/
def refuses (a : Mvcc.Action) : Bool :=
  match c.stage, a with
  | .evaluating _ id, .insert other _ _ => other = id
  | .evaluating _ id, .modify other _ _ => other = id
  | _, _ => false

/-- The step publishes a commit that has written something. -/
def publishesWrites (db : Database) (a : Mvcc.Action) : Bool :=
  match a with
  | .publish id => ((db.txnMap id).map fun t => !t.writeSet.isEmpty).getD false
  | _ => false

def mvcc (a : Mvcc.Action) : Option (Connection × List Event) :=
  if c.refuses a then none
  else
    (c.db.step a).map fun (db, events) =>
      ({ c with db := db, overtaken := c.overtaken || publishesWrites c.db a }, events)

def beginSubquery (isolationLevel : IsolationLevel) : Option (Connection × List Event) :=
  match c.stage with
  | .planning (left + 1) =>
    (c.db.step (.begin isolationLevel)).map fun (db, events) =>
      ({ c with
        db := db
        stage := .evaluating left c.db.nextTxnId
        reads := []
        overtaken := !c.answered.isEmpty && c.overtaken }, events)
  | _ => none

def read (e : Entry) (fuel : Nat) : Option (Connection × List Event) :=
  match c.txn with
  | none => none
  | some id =>
    match c.db.statementTxn id, c.db.tables e.oid with
    | some t, some heap =>
      if e.rid.pageId ∈ heap.pageDirectory then
        (c.db.collectVisibleVersion id t e.rid fuel).map fun value =>
          ({ c with reads := ⟨id, e, value⟩ :: c.reads }, [])
      else none
    | _, _ => none

/-- The executor's transaction has left `Commit` or `Abort`, with this state if it is still in the map. -/
def left (id : Int) (state : TransactionState) : Bool :=
  c.db.phase id = none && ((c.db.txnMap id).map fun t => decide (t.state = state)).getD true

def returnValue : Option (Connection × List Event) :=
  match c.stage with
  | .evaluating subqueries id =>
    if c.left id .committed then
      some ({ c with
        stage := .planning subqueries
        answered := id :: c.answered
        values := c.reads ++ c.values
        reads := [] }, [])
    else none
  | _ => none

def retrySubquery : Option (Connection × List Event) :=
  match c.stage with
  | .evaluating subqueries id =>
    if c.left id .aborted then some ({ c with stage := .planning (subqueries + 1), reads := [] }, [])
    else none
  | _ => none

def beginMain (isolationLevel : IsolationLevel) : Option (Connection × List Event) :=
  match c.stage with
  | .planned =>
    (c.db.step (.begin isolationLevel)).map fun (db, events) =>
      ({ c with db := db, stage := .executing c.db.nextTxnId, reads := [] }, events)
  | _ => none

def retryMain : Option (Connection × List Event) :=
  match c.stage with
  | .executing id => if c.left id .aborted then some ({ c with stage := .planned, reads := [] }, []) else none
  | _ => none

def finish : Option (Connection × List Event) :=
  match c.stage with
  | .executing id => if c.db.phase id = none then some ({ c with stage := .idle }, []) else none
  | _ => none

def step : Action → Option (Connection × List Event)
  | .mvcc a => c.mvcc a
  | .startStatement subqueries =>
    if c.stage = .idle then
      some (⟨c.db, .planning subqueries, [], [], [], false⟩, [])
    else none
  | .beginSubquery isolationLevel => c.beginSubquery isolationLevel
  | .read e fuel => c.read e fuel
  | .returnValue => c.returnValue
  | .retrySubquery => c.retrySubquery
  | .finishPlan => if c.stage = .planning 0 then some ({ c with stage := .planned }, []) else none
  | .beginMain isolationLevel => c.beginMain isolationLevel
  | .retryMain => c.retryMain
  | .finish => c.finish

end

def opened : Connection := ⟨Database.opened, .idle, [], [], [], false⟩

structure Initial (c : Connection) : Prop where
  db : c.db.Initial
  stage : c.stage = .idle
  answered : c.answered = []
  values : c.values = []

variable {c next : Connection} {a : Action} {events : List Event}

/-- What a step can do. -/
inductive Turns (c : Connection) : Action → Connection → List Event → Prop
  | stepped {a db events} (allowed : c.refuses a = false) (taken : c.db.step a = some (db, events)) :
      Turns c (.mvcc a) { c with db := db, overtaken := c.overtaken || publishesWrites c.db a } events
  | started {subqueries} :
      Turns c (.startStatement subqueries) ⟨c.db, .planning subqueries, [], [], [], false⟩ []
  | subqueryBegan {subqueries isolationLevel db events}
      (taken : c.db.step (.begin isolationLevel) = some (db, events)) :
      Turns c (.beginSubquery isolationLevel)
        { c with
          db := db
          stage := .evaluating subqueries c.db.nextTxnId
          reads := []
          overtaken := !c.answered.isEmpty && c.overtaken } events
  | fetched {id e fuel t heap value} (running : c.txn = some id) (ready : c.db.Ready id t)
      (table : c.db.tables e.oid = some heap) (listed : e.rid.pageId ∈ heap.pageDirectory)
      (visible : c.db.collectVisibleVersion id t e.rid fuel = some value) :
      Turns c (.read e fuel) { c with reads := ⟨id, e, value⟩ :: c.reads } []
  | returned {subqueries id} (stage : c.stage = .evaluating subqueries id) :
      Turns c .returnValue
        { c with
          stage := .planning subqueries
          answered := id :: c.answered
          values := c.reads ++ c.values
          reads := [] } []
  | subqueryRetried {subqueries} :
      Turns c .retrySubquery { c with stage := .planning subqueries, reads := [] } []
  | planFinished : Turns c .finishPlan { c with stage := .planned } []
  | mainBegan {isolationLevel db events} (taken : c.db.step (.begin isolationLevel) = some (db, events)) :
      Turns c (.beginMain isolationLevel)
        { c with db := db, stage := .executing c.db.nextTxnId, reads := [] } events
  | mainRetried : Turns c .retryMain { c with stage := .planned, reads := [] } []
  | finished : Turns c .finish { c with stage := .idle } []

theorem turns_read {e : Entry} {fuel : Nat} (taken : c.read e fuel = some (next, events)) :
    Turns c (.read e fuel) next events := by
  unfold read at taken
  split at taken
  · cases taken
  · next id running =>
    split at taken
    · next t heap ready table =>
      split at taken
      · next listed =>
        obtain ⟨value, visible, same⟩ := Option.map_eq_some_iff.mp taken
        cases same
        exact Turns.fetched running (Database.statementTxn_ready ready) table listed visible
      · cases taken
    · cases taken

theorem turns_of_step (taken : c.step a = some (next, events)) : Turns c a next events := by
  cases a with
  | mvcc a =>
    simp only [step, mvcc] at taken
    split at taken
    · cases taken
    · next allowed =>
      obtain ⟨⟨db, events⟩, moved, same⟩ := Option.map_eq_some_iff.mp taken
      cases same
      exact Turns.stepped (Bool.eq_false_iff.mpr allowed) moved
  | startStatement subqueries =>
    simp only [step] at taken
    split at taken
    · cases taken
      exact Turns.started
    · cases taken
  | beginSubquery isolationLevel =>
    simp only [step, beginSubquery] at taken
    split at taken
    · obtain ⟨⟨db, events⟩, moved, same⟩ := Option.map_eq_some_iff.mp taken
      cases same
      exact Turns.subqueryBegan moved
    · cases taken
  | read e fuel => exact turns_read taken
  | returnValue =>
    simp only [step, returnValue] at taken
    split at taken
    · next stage =>
      split at taken
      · cases taken
        exact Turns.returned stage
      · cases taken
    · cases taken
  | retrySubquery =>
    simp only [step, retrySubquery] at taken
    split at taken
    · split at taken
      · cases taken
        exact Turns.subqueryRetried
      · cases taken
    · cases taken
  | finishPlan =>
    simp only [step] at taken
    split at taken
    · cases taken
      exact Turns.planFinished
    · cases taken
  | beginMain isolationLevel =>
    simp only [step, beginMain] at taken
    split at taken
    · obtain ⟨⟨db, events⟩, moved, same⟩ := Option.map_eq_some_iff.mp taken
      cases same
      exact Turns.mainBegan moved
    · cases taken
  | retryMain =>
    simp only [step, retryMain] at taken
    split at taken
    · split at taken
      · cases taken
        exact Turns.mainRetried
      · cases taken
    · cases taken
  | finish =>
    simp only [step, finish] at taken
    split at taken
    · split at taken
      · cases taken
        exact Turns.finished
      · cases taken
    · cases taken

/-- The step has no defined effect: its `UpdateRow` leaves the page. -/
def overruns (c : Connection) : Action → Bool
  | .mvcc a => !c.refuses a && c.db.overruns a
  | _ => false

theorem not_overruns (c : Connection) (a : Action) (r : Connection × List Event) (taken : c.step a = some r) :
    c.overruns a = false := by
  cases a with
  | mvcc a =>
    simp only [step, mvcc] at taken
    split at taken
    · cases taken
    · obtain ⟨moved, stepped, -⟩ := Option.map_eq_some_iff.mp taken
      simp [overruns, Database.not_overruns c.db a moved stepped]
  | _ => rfl

end Connection

def connection : System Connection Action Event where
  init := Connection.Initial
  step := Connection.step

/-- The connection, with steps that overrun a page. -/
def program : System Connection (Action × Connection × List Event) Event := connection.faulting Connection.overruns

end BumbleBee.Main
