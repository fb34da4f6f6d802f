import BumbleBee.Library.Transition
import Mathlib.Data.Fintype.Basic

/-!
The execution of one query's pipelines. A plan is the dependency graph that
`Initialize` has built; every worker takes tasks off the queue and drives the
counters on its way out of each task. A step of a worker is one access to what the
workers share: an atomic counter or flag, or a critical section of the scheduler.
What a task computes is left to an outcome: it returns or it throws.
-/

namespace BumbleBee.Parallel
open Library.Transition Function

/-- The pipelines of a query; `Initialize` creates the root one first, and every edge is registered at
both of its ends. `plannedThreads` is what `MaxThreads` says to `PeakTaskDemand` before any pipeline has run,
`maxThreads` what it says to `CreateTasks` when the pipeline's turn has come. -/
structure Plan (P : Type) [DecidableEq P] where
  pipelines : List P
  dependencies : P → List P
  dependents : P → List P
  plannedThreads : P → Nat
  maxThreads : P → Nat
  root : P
  nodup : pipelines.Nodup
  complete : ∀ p, p ∈ pipelines
  clamped : ∀ p, 1 ≤ plannedThreads p
  edges : ∀ p q, (dependents p).count q = (dependencies q).count p
  acyclic : WellFounded fun p q => p ∈ dependencies q

/-- How far a worker is in `WorkUntil` and in the task it has taken. -/
inductive Worker (P : Type) where
  | looking
  | asleep
  | checking (p : P)
  | running (p : P)
  | counting (p : P)
  | last (p : P)
  | finalizing (p : P)
  | releasing (p : P) (rest ready : List P)
  | arming (p q : P) (rest ready : List P)
  | notifying
  | finishing
  | signalling
  | waking
  | returned
  deriving DecidableEq

structure Executor (P W : Type) where
  started : Bool
  dependenciesRemaining : P → Nat
  tasksRemaining : P → Nat
  activeTasks : Nat
  queue : List P
  hasError : Bool
  queryDone : Bool
  workers : W → Worker P

inductive Event (P : Type) where
  | scheduled (p : P)
  | run (p : P)
  | combined (p : P)
  | finalize (p : P)
  | finalized (p : P)
  | error
  | done
  deriving DecidableEq

inductive Action (W : Type) where
  | executeQuery
  | work (w : W) (threw : Bool)

variable {P W : Type} [DecidableEq P] [DecidableEq W]

/-- The number of tasks `CreateTasks` makes of a pipeline. -/
def Plan.tasks (plan : Plan P) (p : P) : Nat := max 1 (plan.maxThreads p)

theorem Plan.tasks_pos (plan : Plan P) (p : P) : 0 < plan.tasks p := Nat.le_max_left 1 _

namespace Executor

def createTasks (plan : Plan P) (s : Executor P W) (p : P) : Executor P W :=
  { s with
    tasksRemaining := update s.tasksRemaining p (plan.tasks p)
    activeTasks := s.activeTasks + plan.tasks p }

section
omit [DecidableEq W]
variable {plan : Plan P} {s : Executor P W} {p q : P}

@[simp, grind =] theorem createTasks_tasksRemaining : (s.createTasks plan q).tasksRemaining p =
    if p = q then plan.tasks q else s.tasksRemaining p := by
  simp [createTasks, update_apply]

@[simp, grind =] theorem createTasks_activeTasks :
    (s.createTasks plan q).activeTasks = s.activeTasks + plan.tasks q := rfl

@[simp, grind =] theorem createTasks_dependenciesRemaining :
    (s.createTasks plan q).dependenciesRemaining = s.dependenciesRemaining := rfl

@[simp, grind =] theorem createTasks_queue : (s.createTasks plan q).queue = s.queue := rfl

@[simp, grind =] theorem createTasks_hasError : (s.createTasks plan q).hasError = s.hasError := rfl

@[simp, grind =] theorem createTasks_queryDone : (s.createTasks plan q).queryDone = s.queryDone := rfl

end

/-- The loop of `ExecuteQuery` over the pipelines that depend on nothing. -/
def createReady (plan : Plan P) (s : Executor P W) : List P → Executor P W × List P
  | [] => (s, [])
  | p :: rest =>
    if s.dependenciesRemaining p = 0 then
      let (next, ready) := createReady plan (s.createTasks plan p) rest
      (next, p :: ready)
    else createReady plan s rest

def executeQuery (plan : Plan P) (s : Executor P W) : Executor P W × List (Event P) :=
  let (next, ready) := s.createReady plan plan.pipelines
  if next.activeTasks = 0 then ({ next with started := true, workers := fun _ => .returned }, [])
  else
    ({ next with
        started := true
        queue := next.queue ++ ready.flatMap fun p => List.replicate (plan.tasks p) p },
      (ready.map .scheduled).reverse)

section
variable (s : Executor P W)

def move (w : W) (x : Worker P) : Executor P W :=
  { s with workers := update s.workers w x }

def notifyAll : Executor P W :=
  { s with workers := fun v => if s.workers v = .asleep then .looking else s.workers v }

/-- `PushError` latches the first exception only. -/
def pushError : Executor P W × List (Event P) :=
  if s.hasError then (s, []) else ({ s with hasError := true }, [.error])

/-- `WorkUntil` from the test of its condition on. -/
def look (w : W) : Executor P W :=
  match s.queue with
  | p :: rest => { s with queue := rest }.move w (.checking p)
  | [] => if s.queryDone then s.move w .returned else s.move w .asleep

def check (w : W) (p : P) : Executor P W × List (Event P) :=
  if s.hasError then (s.move w (.counting p), []) else (s.move w (.running p), [.run p])

def runPipeline (w : W) (p : P) (threw : Bool) : Executor P W × List (Event P) :=
  if threw then (s.pushError.1.move w (.counting p), s.pushError.2)
  else (s.move w (.counting p), [.combined p])

def countDown (w : W) (p : P) : Executor P W :=
  { s with tasksRemaining := update s.tasksRemaining p (s.tasksRemaining p - 1) }.move w
    (if s.tasksRemaining p = 1 then .last p else .finishing)

def lastTask (w : W) (p : P) : Executor P W × List (Event P) :=
  if s.hasError then (s.move w .finishing, []) else (s.move w (.finalizing p), [.finalize p])

end

def finalize (plan : Plan P) (s : Executor P W) (w : W) (p : P) (threw : Bool) : Executor P W × List (Event P) :=
  if threw then (s.pushError.1.move w .finishing, s.pushError.2)
  else (s.move w (.releasing p (plan.dependents p) []), [.finalized p])

/-- One turn of the loop of `ReleaseDependents`, up to the counter's old value. -/
def release (s : Executor P W) (w : W) (p q : P) (rest ready : List P) : Executor P W :=
  { s with
    dependenciesRemaining := update s.dependenciesRemaining q (s.dependenciesRemaining q - 1) }.move w
    (if s.dependenciesRemaining q = 1 then .arming p q rest ready else .releasing p rest ready)

def arm (plan : Plan P) (s : Executor P W) (w : W) (p q : P) (rest ready : List P) :
    Executor P W × List (Event P) :=
  ((s.createTasks plan q).move w (.releasing p rest (ready ++ List.replicate (plan.tasks q) q)), [.scheduled q])

def enqueueAll (s : Executor P W) (w : W) (ready : List P) : Executor P W :=
  if ready = [] then s.move w .finishing else { s with queue := s.queue ++ ready }.move w .notifying

def taskFinished (s : Executor P W) (w : W) : Executor P W :=
  { s with activeTasks := s.activeTasks - 1 }.move w (if s.activeTasks = 1 then .signalling else .looking)

def work (plan : Plan P) (s : Executor P W) (w : W) (threw : Bool) : Option (Executor P W × List (Event P)) :=
  match s.workers w with
  | .looking => some (s.look w, [])
  | .asleep => none
  | .checking p => some (s.check w p)
  | .running p => some (s.runPipeline w p threw)
  | .counting p => some (s.countDown w p, [])
  | .last p => some (s.lastTask w p)
  | .finalizing p => some (s.finalize plan w p threw)
  | .releasing p (q :: rest) ready => some (s.release w p q rest ready, [])
  | .releasing _ [] ready => some (s.enqueueAll w ready, [])
  | .arming p q rest ready => some (s.arm plan w p q rest ready)
  | .notifying => some ((s.move w .finishing).notifyAll, [])
  | .finishing => some (s.taskFinished w, [])
  | .signalling => some ({ s with queryDone := true }.move w .waking, [.done])
  | .waking => some ((s.move w .looking).notifyAll, [])
  | .returned => none

def step (plan : Plan P) (s : Executor P W) : Action W → Option (Executor P W × List (Event P))
  | .executeQuery => if s.started then none else some (s.executeQuery plan)
  | .work w threw => if s.started then s.work plan w threw else none

/-- What `Initialize` leaves. -/
def initial (plan : Plan P) : Executor P W :=
  ⟨false, fun p => (plan.dependencies p).length, fun _ => 0, 0, [], false, false, fun _ => .looking⟩

end Executor

def executor (W : Type) [DecidableEq W] (plan : Plan P) : System (Executor P W) (Action W) (Event P) where
  init s := s = Executor.initial plan
  step s a := s.step plan a

end BumbleBee.Parallel
