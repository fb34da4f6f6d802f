import BumbleBee.Library.Ledger
import BumbleBee.Parallel.Executor

/-!
What one step of a worker can do, said once: the place the worker leaves, the place
it enters, and what happens to the counters in between. Whatever is counted over
the workers moves by the difference of the two places; a notification changes no
such count, because a sleeping worker counts for as much as one that looks for work.
-/

namespace BumbleBee.Parallel
open Library.Ledger Function

variable {P W : Type} [DecidableEq P]

/-- The places from which a worker notifies the others when it leaves. -/
def Worker.notifies : Worker P → Bool
  | .notifying | .waking => true
  | _ => false

inductive Turn (plan : Plan P) (s : Executor P W) :
    Worker P → Worker P → Executor P W → List (Event P) → Prop
  | take {p rest} (queue : s.queue = p :: rest) :
      Turn plan s .looking (.checking p) { s with queue := rest } []
  | quit (queue : s.queue = []) (done : s.queryDone = true) : Turn plan s .looking .returned s []
  | sleep (queue : s.queue = []) (pending : s.queryDone = false) : Turn plan s .looking .asleep s []
  | skip {p} (failed : s.hasError = true) : Turn plan s (.checking p) (.counting p) s []
  | enter {p} (sound : s.hasError = false) : Turn plan s (.checking p) (.running p) s [.run p]
  | combine {p} : Turn plan s (.running p) (.counting p) s [.combined p]
  | fail {p} (sound : s.hasError = false) :
      Turn plan s (.running p) (.counting p) { s with hasError := true } [.error]
  | failAgain {p} (failed : s.hasError = true) : Turn plan s (.running p) (.counting p) s []
  | countDown {p} (more : s.tasksRemaining p ≠ 1) :
      Turn plan s (.counting p) .finishing
        { s with tasksRemaining := update s.tasksRemaining p (s.tasksRemaining p - 1) } []
  | countLast {p} (one : s.tasksRemaining p = 1) :
      Turn plan s (.counting p) (.last p)
        { s with tasksRemaining := update s.tasksRemaining p (s.tasksRemaining p - 1) } []
  | abort {p} (failed : s.hasError = true) : Turn plan s (.last p) .finishing s []
  | finalize {p} (sound : s.hasError = false) :
      Turn plan s (.last p) (.finalizing p) s [.finalize p]
  | finalized {p} :
      Turn plan s (.finalizing p) (.releasing p (plan.dependents p) []) s [.finalized p]
  | finalizeFails {p} (sound : s.hasError = false) :
      Turn plan s (.finalizing p) .finishing { s with hasError := true } [.error]
  | finalizeFailsAgain {p} (failed : s.hasError = true) : Turn plan s (.finalizing p) .finishing s []
  | release {p q rest ready} (more : s.dependenciesRemaining q ≠ 1) :
      Turn plan s (.releasing p (q :: rest) ready) (.releasing p rest ready)
        { s with dependenciesRemaining := update s.dependenciesRemaining q (s.dependenciesRemaining q - 1) } []
  | releaseLast {p q rest ready} (one : s.dependenciesRemaining q = 1) :
      Turn plan s (.releasing p (q :: rest) ready) (.arming p q rest ready)
        { s with dependenciesRemaining := update s.dependenciesRemaining q (s.dependenciesRemaining q - 1) } []
  | arm {p q rest ready} :
      Turn plan s (.arming p q rest ready) (.releasing p rest (ready ++ List.replicate (plan.tasks q) q))
        (s.createTasks plan q) [.scheduled q]
  | enqueueNone {p} : Turn plan s (.releasing p [] []) .finishing s []
  | enqueue {p ready} (some : ready ≠ []) :
      Turn plan s (.releasing p [] ready) .notifying { s with queue := s.queue ++ ready } []
  | notify : Turn plan s .notifying .finishing s []
  | finish (more : s.activeTasks ≠ 1) :
      Turn plan s .finishing .looking { s with activeTasks := s.activeTasks - 1 } []
  | finishLast (one : s.activeTasks = 1) :
      Turn plan s .finishing .signalling { s with activeTasks := s.activeTasks - 1 } []
  | signal : Turn plan s .signalling .waking { s with queryDone := true } [.done]
  | wake : Turn plan s .waking .looking s []

theorem Turn.started {plan : Plan P} {s mid : Executor P W} {x y : Worker P} {events : List (Event P)}
    (turn : Turn plan s x y mid events) : mid.started = s.started := by
  cases turn <;> rfl

namespace Executor
variable [DecidableEq W]

/-- The state after a turn of worker `w` to the place `y` with the counters of `mid`. -/
def turned (mid : Executor P W) (w : W) (x y : Worker P) : Executor P W :=
  if x.notifies then (mid.move w y).notifyAll else mid.move w y

variable {plan : Plan P} {s next : Executor P W} {w : W} {events : List (Event P)} {threw : Bool}

/-- What `work` returns from the place `x` is a turn. -/
def Turns (plan : Plan P) (s : Executor P W) (w : W) (x : Worker P) (result : Executor P W × List (Event P)) : Prop :=
  ∃ y mid, Turn plan s x y mid result.2 ∧ mid.workers = s.workers ∧ result.1 = mid.turned w x y

theorem look_turns : s.Turns plan w .looking (s.look w, []) := by
  fun_cases look s w with
  | case1 p rest queue => exact ⟨_, _, .take queue, rfl, rfl⟩
  | case2 queue done => exact ⟨_, _, .quit queue done, rfl, rfl⟩
  | case3 queue pending => exact ⟨_, _, .sleep queue (Bool.eq_false_of_not_eq_true pending), rfl, rfl⟩

variable {p q : P} {rest ready : List P}

theorem check_turns : s.Turns plan w (.checking p) (s.check w p) := by
  fun_cases check s w p with
  | case1 failed => exact ⟨_, _, .skip failed, rfl, rfl⟩
  | case2 sound => exact ⟨_, _, .enter (Bool.eq_false_of_not_eq_true sound), rfl, rfl⟩

theorem runPipeline_turns : s.Turns plan w (.running p) (s.runPipeline w p threw) := by
  fun_cases runPipeline s w p threw with
  | case1 =>
    fun_cases pushError s with
    | case1 failed => exact ⟨_, _, .failAgain failed, rfl, rfl⟩
    | case2 sound => exact ⟨_, _, .fail (Bool.eq_false_of_not_eq_true sound), rfl, rfl⟩
  | case2 => exact ⟨_, _, .combine, rfl, rfl⟩

theorem countDown_turns : s.Turns plan w (.counting p) (s.countDown w p, []) := by
  unfold countDown
  split
  · next one => exact ⟨_, _, .countLast one, rfl, rfl⟩
  · next more => exact ⟨_, _, .countDown more, rfl, rfl⟩

theorem lastTask_turns : s.Turns plan w (.last p) (s.lastTask w p) := by
  fun_cases lastTask s w p with
  | case1 failed => exact ⟨_, _, .abort failed, rfl, rfl⟩
  | case2 sound => exact ⟨_, _, .finalize (Bool.eq_false_of_not_eq_true sound), rfl, rfl⟩

theorem finalize_turns : s.Turns plan w (.finalizing p) (s.finalize plan w p threw) := by
  fun_cases finalize plan s w p threw with
  | case1 =>
    fun_cases pushError s with
    | case1 failed => exact ⟨_, _, .finalizeFailsAgain failed, rfl, rfl⟩
    | case2 sound => exact ⟨_, _, .finalizeFails (Bool.eq_false_of_not_eq_true sound), rfl, rfl⟩
  | case2 => exact ⟨_, _, .finalized, rfl, rfl⟩

theorem release_turns : s.Turns plan w (.releasing p (q :: rest) ready) (s.release w p q rest ready, []) := by
  unfold release
  split
  · next one => exact ⟨_, _, .releaseLast one, rfl, rfl⟩
  · next more => exact ⟨_, _, .release more, rfl, rfl⟩

theorem enqueueAll_turns : s.Turns plan w (.releasing p [] ready) (s.enqueueAll w ready, []) := by
  fun_cases enqueueAll s w ready with
  | case1 empty =>
    rw [empty]
    exact ⟨_, _, .enqueueNone, rfl, rfl⟩
  | case2 some => exact ⟨_, _, .enqueue some, rfl, rfl⟩

theorem taskFinished_turns : s.Turns plan w .finishing (s.taskFinished w, []) := by
  unfold taskFinished
  split
  · next one => exact ⟨_, _, .finishLast one, rfl, rfl⟩
  · next more => exact ⟨_, _, .finish more, rfl, rfl⟩

theorem turn_of_work {result : Executor P W × List (Event P)} (worked : s.work plan w threw = some result) :
    s.Turns plan w (s.workers w) result := by
  unfold work at worked
  split at worked <;> cases worked <;> rename_i place <;> rw [place]
  · exact look_turns
  · exact check_turns
  · exact runPipeline_turns
  · exact countDown_turns
  · exact lastTask_turns
  · exact finalize_turns
  · exact release_turns
  · exact enqueueAll_turns
  · exact ⟨_, _, .arm, rfl, rfl⟩
  · exact ⟨_, _, .notify, rfl, rfl⟩
  · exact taskFinished_turns
  · exact ⟨_, _, .signal, rfl, rfl⟩
  · exact ⟨_, _, .wake, rfl, rfl⟩

/-- What the workers' places add up to. -/
def total [Fintype W] (s : Executor P W) (f : Worker P → Nat) : Nat := ∑ w, f (s.workers w)

theorem total_turned [Fintype W] {f : Worker P → Nat} (stable : f .asleep = f .looking) {y : Worker P}
    {mid : Executor P W} (same : mid.workers = s.workers) :
    (mid.turned w (s.workers w) y).total f + f (s.workers w) = s.total f + f y := by
  have moved : (mid.move w y).total f + f (s.workers w) = s.total f + f y := by
    unfold total
    rw [← same]
    apply sum_update
    exact Finset.mem_univ w
  have woken : (mid.move w y).notifyAll.total f = (mid.move w y).total f := by
    unfold total notifyAll
    apply Finset.sum_congr rfl
    intro v _
    simp only
    split
    · next asleep => rw [asleep, stable]
    · rfl
  unfold turned
  split
  · rw [woken]
    exact moved
  · exact moved

omit [DecidableEq P] [DecidableEq W] in
theorem le_total [Fintype W] (s : Executor P W) (f : Worker P → Nat) (w : W) : f (s.workers w) ≤ s.total f :=
  Finset.single_le_sum (f := fun v => f (s.workers v)) (fun _ _ => Nat.zero_le _) (Finset.mem_univ w)

@[simp] theorem turned_queue {mid : Executor P W} {x y : Worker P} : (mid.turned w x y).queue = mid.queue := by
  unfold turned
  split <;> rfl

@[simp] theorem turned_activeTasks {mid : Executor P W} {x y : Worker P} :
    (mid.turned w x y).activeTasks = mid.activeTasks := by
  unfold turned
  split <;> rfl

@[simp] theorem turned_tasksRemaining {mid : Executor P W} {x y : Worker P} :
    (mid.turned w x y).tasksRemaining = mid.tasksRemaining := by
  unfold turned
  split <;> rfl

@[simp] theorem turned_dependenciesRemaining {mid : Executor P W} {x y : Worker P} :
    (mid.turned w x y).dependenciesRemaining = mid.dependenciesRemaining := by
  unfold turned
  split <;> rfl

@[simp] theorem turned_hasError {mid : Executor P W} {x y : Worker P} :
    (mid.turned w x y).hasError = mid.hasError := by
  unfold turned
  split <;> rfl

@[simp] theorem turned_queryDone {mid : Executor P W} {x y : Worker P} :
    (mid.turned w x y).queryDone = mid.queryDone := by
  unfold turned
  split <;> rfl

@[simp] theorem turned_started {mid : Executor P W} {x y : Worker P} :
    (mid.turned w x y).started = mid.started := by
  unfold turned
  split <;> rfl

end Executor

end BumbleBee.Parallel
