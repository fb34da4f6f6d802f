import BumbleBee.Library.Transition
import Mathlib.Algebra.BigOperators.Group.Finset.Basic
import Mathlib.Data.Fintype.Basic

/-!
The memory accounting of queries. Each query's manager counts what its operators
have reserved, and passes every reservation on to the database-wide manager; the
sorts and joins reserve per chunk. A step is one atomic operation on one counter.
`held` records the reservations of a task for which `TryReserve` has returned true
and that no `Release` has returned.
-/

namespace BumbleBee.Main
open Library.Transition Function

inductive Operator where
  | inMemory
  | externalMergeSort
  deriving DecidableEq

/-- How far a task has come with `Sink` or `Combine`; `again` marks the reservation after a spill. -/
inductive Point where
  | ready
  | reserving (bytes rows : UInt64) (again : Bool)
  | confirming (bytes rows : UInt64) (again : Bool)
  | returning (bytes rows : UInt64) (again : Bool)
  | spilling (bytes rows : UInt64)
  | spilled (bytes rows released : UInt64)
  | appending (bytes rows : UInt64) (granted : Bool)
  | combining
  | combined (released : UInt64)
  | threw
  | done
  deriving DecidableEq

structure Task where
  operator : Operator
  reserved : UInt64
  batch : UInt64
  point : Point
  held : Nat
  deriving DecidableEq

inductive QueryStage where
  | running
  | draining (outstanding : UInt64)
  | ended
  deriving DecidableEq

structure QueryMemoryManager where
  budget : UInt64
  used : UInt64
  stage : QueryStage
  deriving DecidableEq

structure Memory (Q T : Type) where
  owner : T → Q
  tasks : T → Task
  queries : Q → QueryMemoryManager
  globalBudget : UInt64
  globalUsed : UInt64

inductive MemoryAction (Q T : Type) where
  | sink (t : T) (bytes rows : UInt64)
  | combine (t : T)
  | advance (t : T)
  | destroy (q : Q)
  | drain (q : Q)

/-- The test of both `TryReserve` loops. -/
def fits (budget current bytes : UInt64) : Bool := !(bytes > budget || current > budget - bytes)

namespace Task

/-- Where a refused reservation leads: the in-memory operators throw, the external sort spills what it has once. -/
def refused (task : Task) (bytes rows : UInt64) (again : Bool) : Point :=
  match task.operator with
  | .inMemory => .threw
  | .externalMergeSort =>
    if again = false ∧ 0 < task.batch then .spilling bytes rows else .appending bytes rows false

/-- What a `TryReserve` under way has added to the query's counter. -/
def reserving (task : Task) : Nat :=
  match task.point with
  | .confirming bytes _ _ | .returning bytes _ _ => bytes.toNat
  | _ => 0

/-- What a `Release` under way has taken from the query's counter, and not yet from the database-wide one. -/
def releasing (task : Task) : Nat :=
  match task.point with
  | .spilled _ _ released | .combined released => released.toNat
  | _ => 0

/-- No call of the managers is under way. -/
def atRest (task : Task) : Bool :=
  match task.point with
  | .confirming _ _ _ | .returning _ _ _ | .spilled _ _ _ | .combined _ => false
  | _ => true

end Task

namespace Memory

variable {Q T : Type} [DecidableEq Q] [DecidableEq T]

def setTask (s : Memory Q T) (t : T) (task : Task) : Memory Q T :=
  { s with tasks := update s.tasks t task }

def setUsed (s : Memory Q T) (q : Q) (used : UInt64) : Memory Q T :=
  { s with queries := update s.queries q { s.queries q with used := used } }

def query (s : Memory Q T) (t : T) : QueryMemoryManager := s.queries (s.owner t)

/-- The next atomic operation of a task's call. -/
def advance (s : Memory Q T) (t : T) : Option (Memory Q T) :=
  let task := s.tasks t
  let used := (s.query t).used
  match task.point with
  | .reserving bytes rows again =>
    if fits (s.query t).budget used bytes then
      some ((s.setUsed (s.owner t) (used + bytes)).setTask t
        { task with point := .confirming bytes rows again })
    else some (s.setTask t { task with point := task.refused bytes rows again })
  | .confirming bytes rows again =>
    if fits s.globalBudget s.globalUsed bytes then
      some ({ s with globalUsed := s.globalUsed + bytes }.setTask t
        { task with point := .appending bytes rows true, held := task.held + bytes.toNat })
    else some (s.setTask t { task with point := .returning bytes rows again })
  | .returning bytes rows again =>
    some ((s.setUsed (s.owner t) (used - bytes)).setTask t
      { task with point := task.refused bytes rows again })
  | .spilling bytes rows =>
    some ((s.setUsed (s.owner t) (used - task.reserved)).setTask t
      { task with point := .spilled bytes rows task.reserved })
  | .spilled bytes rows released =>
    some ({ s with globalUsed := s.globalUsed - released }.setTask t
      { task with
        point := .reserving bytes rows true
        reserved := 0
        batch := 0
        held := task.held - released.toNat })
  | .appending bytes rows _ =>
    some (s.setTask t { task with
      point := .ready
      reserved := match task.operator with
        | .inMemory => task.reserved
        | .externalMergeSort => task.reserved + bytes
      batch := task.batch + rows })
  | .combining =>
    some ((s.setUsed (s.owner t) (used - task.reserved)).setTask t
      { task with point := .combined task.reserved })
  | .combined released =>
    some ({ s with globalUsed := s.globalUsed - released }.setTask t
      { task with point := .done, reserved := 0, held := task.held - released.toNat })
  | .ready | .threw | .done => none

/-- `Combine` of the in-memory operators releases nothing. -/
def combine (s : Memory Q T) (t : T) : Option (Memory Q T) :=
  match (s.tasks t).point, (s.tasks t).operator with
  | .ready, .inMemory => some (s.setTask t { s.tasks t with point := .done })
  | .ready, .externalMergeSort => some (s.setTask t { s.tasks t with point := .combining })
  | _, _ => none

variable [Fintype T]

/-- The destructor takes what the counter still shows, once no task is inside a call. -/
def destroy (s : Memory Q T) (q : Q) : Option (Memory Q T) :=
  if (s.queries q).stage = .running ∧ ∀ t, s.owner t = q → (s.tasks t).atRest = true then
    some { s with
      queries := update s.queries q
        { s.queries q with used := 0, stage := .draining (s.queries q).used } }
  else none

/-- It then gives that back to the database-wide manager. -/
def drain (s : Memory Q T) (q : Q) : Option (Memory Q T) :=
  match (s.queries q).stage with
  | .draining outstanding =>
    some { s with
      globalUsed := s.globalUsed - outstanding
      queries := update s.queries q { s.queries q with stage := .ended }
      tasks := fun t => if s.owner t = q then { s.tasks t with held := 0 } else s.tasks t }
  | _ => none

def step (s : Memory Q T) : MemoryAction Q T → Option (Memory Q T)
  | .sink t bytes rows =>
    if (s.query t).stage = .running ∧ (s.tasks t).point = .ready then
      some (s.setTask t { s.tasks t with point := .reserving bytes rows false })
    else none
  | .combine t => if (s.query t).stage = .running then s.combine t else none
  | .advance t => if (s.query t).stage = .running then s.advance t else none
  | .destroy q => s.destroy q
  | .drain q => s.drain q

structure Initial (s : Memory Q T) : Prop where
  tasks : ∀ t, (s.tasks t).reserved = 0 ∧ (s.tasks t).batch = 0 ∧ (s.tasks t).point = .ready ∧
    (s.tasks t).held = 0
  queries : ∀ q, (s.queries q).used = 0 ∧ (s.queries q).stage = .running
  globalUsed : s.globalUsed = 0

end Memory

def memory (Q T : Type) [DecidableEq Q] [DecidableEq T] [Fintype T] : System (Memory Q T) (MemoryAction Q T) Empty where
  init := Memory.Initial
  step := fun s a => (s.step a).map fun next => (next, [])

end BumbleBee.Main
