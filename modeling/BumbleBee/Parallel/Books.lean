import BumbleBee.Parallel.Turns

/-!
The counters of a query. `activeTasks` counts the tasks that are queued, in a
worker's hand or about to be queued; `tasksRemaining` counts those of one pipeline
that have not been counted down; `dependenciesRemaining` counts the edges along
which nothing has been released yet. The log says how often each pipeline was
scheduled, combined and finalized.
-/

namespace BumbleBee.Parallel
open Function

variable {P W : Type} [DecidableEq P]

namespace Worker

/-- The tasks a worker accounts for in `activeTasks`. -/
def held : Worker P → Nat
  | .looking | .asleep | .signalling | .waking | .returned => 0
  | .checking _ | .running _ | .counting _ | .last _ | .finalizing _ | .notifying | .finishing => 1
  | .releasing _ _ ready | .arming _ _ _ ready => 1 + ready.length

/-- The tasks of `p` in a worker's hand that are not counted down. -/
def inHand (p : P) : Worker P → Nat
  | .checking q | .running q | .counting q => if q = p then 1 else 0
  | .releasing _ _ ready | .arming _ _ _ ready => ready.count p
  | _ => 0

/-- The tasks of `p` in a worker's hand that have not combined. -/
def uncombined (p : P) : Worker P → Nat
  | .checking q | .running q => if q = p then 1 else 0
  | .releasing _ _ ready | .arming _ _ _ ready => ready.count p
  | _ => 0

/-- The tasks of `p` in a worker's hand that have not begun. -/
def unbegun (p : P) : Worker P → Nat
  | .checking q => if q = p then 1 else 0
  | .releasing _ _ ready | .arming _ _ _ ready => ready.count p
  | _ => 0

def atLast (p : P) : Worker P → Nat
  | .last q => if q = p then 1 else 0
  | _ => 0

def atFinalize (p : P) : Worker P → Nat
  | .finalizing q => if q = p then 1 else 0
  | _ => 0

/-- The edges to `q` a worker has still to release. -/
def edgesTo (q : P) : Worker P → Nat
  | .releasing _ rest _ | .arming _ _ rest _ => rest.count q
  | _ => 0

def arms (q : P) : Worker P → Nat
  | .arming _ r _ _ => if r = q then 1 else 0
  | _ => 0

def signals : Worker P → Nat
  | .signalling => 1
  | _ => 0

end Worker

open Worker

/-- The edges to `q` of pipelines that are not finalized. -/
def Plan.waiting [Fintype P] (plan : Plan P) (log : List (Event P)) (q : P) : Nat :=
  ∑ p, if Event.finalized p ∈ log then 0 else (plan.dependents p).count q

structure Books [Fintype P] [Fintype W] (plan : Plan P) (log : List (Event P)) (s : Executor P W) : Prop where
  active : s.activeTasks = s.queue.length + s.total held
  remaining : ∀ p, s.tasksRemaining p = s.queue.count p + s.total (inHand p)
  edges : ∀ q, s.dependenciesRemaining q = plan.waiting log q + s.total (edgesTo q)
  scheduled : ∀ q, log.count (.scheduled q) + s.total (arms q) = if s.dependenciesRemaining q = 0 then 1 else 0
  unscheduled : ∀ p, .scheduled p ∉ log → s.tasksRemaining p = 0
  runs : ∀ p, log.count (.run p) + s.queue.count p + s.total (unbegun p) ≤ plan.tasks p * log.count (.scheduled p)
  combined : s.hasError = false → ∀ p,
    log.count (.combined p) + s.queue.count p + s.total (uncombined p) = plan.tasks p * log.count (.scheduled p)
  closing : ∀ p, s.total (atLast p) + log.count (.finalize p) ≤ 1
  early : ∀ p, s.tasksRemaining p ≠ 0 ∨ .scheduled p ∉ log →
    s.total (atLast p) = 0 ∧ log.count (.finalize p) = 0
  finalizing : ∀ p, s.total (atFinalize p) + log.count (.finalized p) ≤ log.count (.finalize p)
  closed : s.hasError = false → ∀ p, .scheduled p ∈ log → s.tasksRemaining p = 0 →
    s.total (atLast p) + s.total (atFinalize p) + log.count (.finalized p) = 1
  errors : log.count .error = s.hasError.toNat
  ended : s.total signals + log.count .done = if s.activeTasks = 0 then 1 else 0
  done : log.count .done = s.queryDone.toNat

section Turned
variable [Fintype P] [Fintype W] {plan : Plan P} {log events : List (Event P)} {s mid : Executor P W} {w : W}
  {y : Worker P}

theorem Books.fresh (books : Books plan log s) {p q : P} {rest ready : List P}
    (place : s.workers w = .arming p q rest ready) : .scheduled q ∉ log ∧ s.dependenciesRemaining q = 0 := by
  have own := s.le_total (arms q) w
  have counted := books.scheduled q
  simp only [place, arms, if_true] at own
  split at counted
  · next none =>
    refine ⟨?_, none⟩
    apply List.count_eq_zero.mp
    omega
  · omega

theorem Books.unfinalized (books : Books plan log s) {p : P} (place : s.workers w = .finalizing p) :
    log.count (.finalized p) = 0 := by
  have own := s.le_total (atFinalize p) w
  have begun := books.finalizing p
  have once := books.closing p
  simp only [place, atFinalize, if_true] at own
  omega

variable [DecidableEq W]

omit [Fintype W] [DecidableEq W] in
theorem waiting_finalized (plan : Plan P) {p : P} (new : .finalized p ∉ log) (q : P) :
    plan.waiting (.finalized p :: log) q + (plan.dependents p).count q = plan.waiting log q := by
  unfold Plan.waiting
  rw [← Finset.add_sum_erase _ _ (Finset.mem_univ p), ← Finset.add_sum_erase (Finset.univ : Finset P) _
    (Finset.mem_univ p), if_pos List.mem_cons_self, if_neg new, Nat.zero_add, Nat.add_comm]
  congr 1
  apply Finset.sum_congr rfl
  intro r other
  have apart : r ≠ p := Finset.ne_of_mem_erase other
  simp [apart]

section
variable (books : Books plan log s) (turn : Turn plan s (s.workers w) y mid events)
include books turn

theorem Books.unscheduled_turned
    (p : P) (missing : .scheduled p ∉ events ++ log) : (mid.turned w (s.workers w) y).tasksRemaining p = 0 := by
  have before := books.unscheduled p
  simp only [Executor.turned_tasksRemaining]
  generalize s.workers w = x at *
  cases turn <;> grind

theorem Books.errors_turned : (events ++ log).count .error = (mid.turned w (s.workers w) y).hasError.toNat := by
  have before := books.errors
  generalize s.workers w = x at *
  cases turn <;> simp_all

theorem Books.done_turned : (events ++ log).count .done = (mid.turned w (s.workers w) y).queryDone.toNat := by
  have own := s.le_total signals w
  have ended := books.ended
  have before := books.done
  simp only [Executor.turned_queryDone]
  generalize s.workers w = x at *
  cases turn <;> grind [signals]

variable (same : mid.workers = s.workers)
include same

theorem Books.active_turned :
    (mid.turned w (s.workers w) y).activeTasks =
      (mid.turned w (s.workers w) y).queue.length + (mid.turned w (s.workers w) y).total held := by
  have moved := Executor.total_turned (f := held) rfl (w := w) (y := y) same
  have before := books.active
  generalize s.workers w = x at *
  cases turn <;> simp_all [held] <;> omega

theorem Books.remaining_turned (p : P) :
    (mid.turned w (s.workers w) y).tasksRemaining p =
      (mid.turned w (s.workers w) y).queue.count p + (mid.turned w (s.workers w) y).total (inHand p) := by
  have moved := Executor.total_turned (f := inHand p) rfl (w := w) (y := y) same
  have before := books.remaining p
  have fresh : ∀ p q rest ready, s.workers w = .arming p q rest ready → s.tasksRemaining q = 0 :=
    fun _ q _ _ place => books.unscheduled q (books.fresh place).1
  simp only [Executor.turned_tasksRemaining, Executor.turned_queue]
  generalize s.workers w = x at *
  cases turn
  all_goals grind [inHand]

theorem Books.edges_turned (q : P) :
    (mid.turned w (s.workers w) y).dependenciesRemaining q =
      plan.waiting (events ++ log) q + (mid.turned w (s.workers w) y).total (edgesTo q) := by
  have moved := Executor.total_turned (f := edgesTo q) rfl (w := w) (y := y) same
  have before := books.edges q
  have unfinalized : ∀ p, s.workers w = .finalizing p → .finalized p ∉ log :=
    fun _ place => List.count_eq_zero.mp (books.unfinalized place)
  simp only [Executor.turned_dependenciesRemaining]
  generalize s.workers w = x at *
  cases turn
  case finalized p =>
    have change := waiting_finalized plan (unfinalized p rfl) q
    simp only [edgesTo, List.cons_append, List.nil_append] at *
    omega
  all_goals simp only [Plan.waiting] at *
  all_goals grind [edgesTo]

theorem Books.scheduled_turned (q : P) :
    (events ++ log).count (.scheduled q) + (mid.turned w (s.workers w) y).total (arms q) =
      if (mid.turned w (s.workers w) y).dependenciesRemaining q = 0 then 1 else 0 := by
  have moved := Executor.total_turned (f := arms q) rfl (w := w) (y := y) same
  have before := books.scheduled q
  simp only [Executor.turned_dependenciesRemaining]
  generalize s.workers w = x at *
  cases turn <;> grind [arms]

theorem Books.runs_turned (p : P) :
    (events ++ log).count (.run p) + (mid.turned w (s.workers w) y).queue.count p +
        (mid.turned w (s.workers w) y).total (unbegun p) ≤
      plan.tasks p * (events ++ log).count (.scheduled p) := by
  have moved := Executor.total_turned (f := unbegun p) rfl (w := w) (y := y) same
  have before := books.runs p
  simp only [Executor.turned_queue]
  generalize s.workers w = x at *
  cases turn
  case arm r q rest ready =>
    by_cases own : q = p
    · have more : plan.tasks q * (List.count (.scheduled q) log + 1) =
          plan.tasks q * List.count (.scheduled q) log + plan.tasks q := Nat.mul_succ _ _
      grind [unbegun]
    · grind [unbegun]
  all_goals grind [unbegun]

theorem Books.combined_turned (sound : (mid.turned w (s.workers w) y).hasError = false) (p : P) :
    (events ++ log).count (.combined p) + (mid.turned w (s.workers w) y).queue.count p +
        (mid.turned w (s.workers w) y).total (uncombined p) =
      plan.tasks p * (events ++ log).count (.scheduled p) := by
  have moved := Executor.total_turned (f := uncombined p) rfl (w := w) (y := y) same
  have before := books.combined
  simp only [Executor.turned_hasError, Executor.turned_queue] at sound ⊢
  generalize s.workers w = x at *
  cases turn
  all_goals grind [uncombined]

theorem Books.closing_turned (p : P) :
    (mid.turned w (s.workers w) y).total (atLast p) + (events ++ log).count (.finalize p) ≤ 1 := by
  have moved := Executor.total_turned (f := atLast p) rfl (w := w) (y := y) same
  have before := books.closing p
  have early := books.early p
  generalize s.workers w = x at *
  cases turn <;> grind [atLast]

theorem Books.early_turned (p : P)
    (more : (mid.turned w (s.workers w) y).tasksRemaining p ≠ 0 ∨ .scheduled p ∉ events ++ log) :
    (mid.turned w (s.workers w) y).total (atLast p) = 0 ∧ (events ++ log).count (.finalize p) = 0 := by
  have moved := Executor.total_turned (f := atLast p) rfl (w := w) (y := y) same
  have early := books.early p
  have unscheduled := books.unscheduled p
  have fresh : ∀ p q rest ready, s.workers w = .arming p q rest ready → .scheduled q ∉ log :=
    fun _ _ _ _ place => (books.fresh place).1
  simp only [Executor.turned_tasksRemaining] at more
  generalize s.workers w = x at *
  cases turn <;> grind [atLast]

theorem Books.finalizing_turned (p : P) :
    (mid.turned w (s.workers w) y).total (atFinalize p) + (events ++ log).count (.finalized p) ≤
      (events ++ log).count (.finalize p) := by
  have moved := Executor.total_turned (f := atFinalize p) rfl (w := w) (y := y) same
  have before := books.finalizing p
  generalize s.workers w = x at *
  cases turn <;> grind [atFinalize]

theorem Books.closed_turned (sound : (mid.turned w (s.workers w) y).hasError = false) (p : P)
    (scheduled : .scheduled p ∈ events ++ log) (none : (mid.turned w (s.workers w) y).tasksRemaining p = 0) :
    (mid.turned w (s.workers w) y).total (atLast p) + (mid.turned w (s.workers w) y).total (atFinalize p) +
      (events ++ log).count (.finalized p) = 1 := by
  have last := Executor.total_turned (f := atLast p) rfl (w := w) (y := y) same
  have finalize := Executor.total_turned (f := atFinalize p) rfl (w := w) (y := y) same
  have before := fun sound => books.closed sound p
  have early := books.early p
  have finalizing := books.finalizing p
  have positive := plan.tasks_pos p
  simp only [Executor.turned_tasksRemaining, Executor.turned_hasError] at none sound
  generalize s.workers w = x at *
  cases turn <;> grind [atLast, atFinalize, inHand]

theorem Books.ended_turned :
    (mid.turned w (s.workers w) y).total signals + (events ++ log).count .done =
      if (mid.turned w (s.workers w) y).activeTasks = 0 then 1 else 0 := by
  have moved := Executor.total_turned (f := signals) rfl (w := w) (y := y) same
  have own := s.le_total held w
  have active := books.active
  have before := books.ended
  simp only [Executor.turned_activeTasks]
  generalize s.workers w = x at *
  cases turn <;> grind [signals, held]

theorem Books.turned : Books plan (events ++ log) (mid.turned w (s.workers w) y) where
  active := books.active_turned turn same
  remaining := books.remaining_turned turn same
  edges := books.edges_turned turn same
  scheduled := books.scheduled_turned turn same
  unscheduled := books.unscheduled_turned turn
  runs := books.runs_turned turn same
  combined := books.combined_turned turn same
  closing := books.closing_turned turn same
  early := books.early_turned turn same
  finalizing := books.finalizing_turned turn same
  closed := books.closed_turned turn same
  errors := books.errors_turned turn
  ended := books.ended_turned turn same
  done := books.done_turned turn

end

end Turned

section Started
variable {plan : Plan P}

/-- The number of tasks `CreateTasks` makes of some pipelines. -/
def Plan.taskTotal (plan : Plan P) : List P → Nat
  | [] => 0
  | p :: rest => plan.tasks p + plan.taskTotal rest

namespace Executor

theorem createReady_eq (s : Executor P W) (pipelines : List P) : s.createReady plan pipelines =
    ({ s with
        tasksRemaining := fun p => if p ∈ pipelines.filter (s.dependenciesRemaining · == 0) then plan.tasks p
          else s.tasksRemaining p
        activeTasks := s.activeTasks + plan.taskTotal (pipelines.filter (s.dependenciesRemaining · == 0)) },
      pipelines.filter (s.dependenciesRemaining · == 0)) := by
  induction pipelines generalizing s with
  | nil => simp [createReady, Plan.taskTotal]
  | cons p rest ih =>
    simp only [createReady]
    split
    · next none =>
      rw [ih]
      simp only [List.filter_cons, none, beq_self_eq_true, if_true,
        Plan.taskTotal, Prod.mk.injEq]
      simp only [createTasks, Executor.mk.injEq, true_and, and_true]
      refine ⟨?_, by omega⟩
      funext q
      by_cases same : q = p
      · subst same
        simp
      · simp [same]
    · next some =>
      rw [ih]
      simp [some]

end Executor

/-- The pipelines `ExecuteQuery` finds ready. -/
def Plan.ready (plan : Plan P) : List P := plan.pipelines.filter fun p => (plan.dependencies p).length == 0

theorem Plan.mem_ready {p : P} : p ∈ plan.ready ↔ plan.dependencies p = [] := by
  simp [Plan.ready, plan.complete p]

theorem Plan.count_ready (p : P) : plan.ready.count p = if plan.dependencies p = [] then 1 else 0 := by
  have nodup : plan.ready.Nodup := plan.nodup.filter _
  split
  · next none => exact List.count_eq_one_of_mem nodup (Plan.mem_ready.mpr none)
  · next some => exact List.count_eq_zero.mpr fun member => some (Plan.mem_ready.mp member)

theorem Plan.exists_ready (plan : Plan P) : ∃ p, p ∈ plan.ready := by
  obtain ⟨p, _, least⟩ := plan.acyclic.has_min Set.univ ⟨plan.root, trivial⟩
  refine ⟨p, Plan.mem_ready.mpr ?_⟩
  exact List.eq_nil_iff_forall_not_mem.mpr fun d => least d trivial

theorem count_flatMap_replicate (ready : List P) (p : P) :
    (ready.flatMap fun q => List.replicate (plan.tasks q) q).count p = plan.tasks p * ready.count p := by
  induction ready with
  | nil => simp
  | cons q rest ih =>
    rw [List.flatMap_cons, List.count_append, ih, List.count_cons, List.count_replicate]
    by_cases same : q = p
    · subst same
      simp only [beq_self_eq_true, if_true, Nat.mul_add]
      omega
    · simp [same]

theorem length_flatMap_replicate (ready : List P) :
    (ready.flatMap fun p => List.replicate (plan.tasks p) p).length = plan.taskTotal ready := by
  induction ready with
  | nil => rfl
  | cons p rest ih => rw [List.flatMap_cons, List.length_append, List.length_replicate, ih, Plan.taskTotal]

theorem Plan.ready_active (plan : Plan P) : plan.taskTotal plan.ready ≠ 0 := by
  obtain ⟨p, member⟩ := plan.exists_ready
  cases ready : plan.ready with
  | nil =>
    rw [ready] at member
    cases member
  | cons q rest =>
    have first := plan.tasks_pos q
    simp only [Plan.taskTotal]
    omega

/-- The state in which the workers start. -/
def Plan.started (plan : Plan P) : Executor P W :=
  ⟨true, fun p => (plan.dependencies p).length, fun p => if p ∈ plan.ready then plan.tasks p else 0,
    plan.taskTotal plan.ready, plan.ready.flatMap fun p => List.replicate (plan.tasks p) p, false, false,
    fun _ => .looking⟩

theorem executeQuery_initial : (Executor.initial plan : Executor P W).executeQuery plan =
    (plan.started, (plan.ready.map .scheduled).reverse) := by
  have some := plan.ready_active
  simp only [Executor.executeQuery, Executor.createReady_eq, Executor.initial]
  rw [if_neg (by simpa [Plan.ready] using some)]
  simp [Plan.started, Plan.ready]

theorem total_started [Fintype W] {f : Worker P → Nat} (none : f .looking = 0) :
    (plan.started : Executor P W).total f = 0 := by
  simp [Executor.total, Plan.started, none]

theorem Books.started [Fintype P] [Fintype W] (plan : Plan P) :
    Books plan (plan.ready.map .scheduled).reverse (plan.started : Executor P W) := by
  have scheduled (p : P) : ((plan.ready.map Event.scheduled).reverse).count (.scheduled p) = plan.ready.count p := by
    rw [List.count_reverse]
    apply List.count_map_of_injective
    exact fun _ _ same => Event.scheduled.inj same
  have other {e : Event P} (apart : ∀ p, e ≠ .scheduled p) :
      ((plan.ready.map Event.scheduled).reverse).count e = 0 := by
    rw [List.count_reverse]
    apply List.count_eq_zero.mpr
    intro member
    obtain ⟨p, _, same⟩ := List.mem_map.mp member
    exact apart p same.symm
  have unready (p : P) (missing : .scheduled p ∉ (plan.ready.map Event.scheduled).reverse) : p ∉ plan.ready := by
    intro member
    apply missing
    rw [List.mem_reverse]
    exact List.mem_map_of_mem member
  have ready (p : P) : (p ∈ plan.ready) = (plan.dependencies p = []) := propext Plan.mem_ready
  constructor
  case active =>
    rw [total_started rfl]
    simp only [Plan.started, length_flatMap_replicate, Nat.add_zero]
  case remaining =>
    intro p
    rw [total_started rfl]
    simp only [Plan.started, count_flatMap_replicate, Plan.count_ready, ready]
    split <;> simp
  case edges =>
    intro q
    rw [total_started rfl]
    have whole : ∑ p, (plan.dependencies q).count p = (plan.dependencies q).length := by
      have card := Multiset.sum_count_eq_card (s := Finset.univ) (m := (plan.dependencies q : Multiset P))
      simpa using card
    simp only [Plan.started, Plan.waiting, ← whole, plan.edges]
    apply Finset.sum_congr rfl
    intro p _
    rw [if_neg (List.count_eq_zero.mp (other (e := .finalized p) (by simp)))]
  case scheduled =>
    intro q
    rw [total_started rfl, scheduled, Plan.count_ready]
    simp [Plan.started]
  case unscheduled =>
    intro p missing
    simp [Plan.started, unready p missing]
  case runs =>
    intro p
    rw [total_started rfl, scheduled, other (e := .run p) (by simp)]
    simp [Plan.started, count_flatMap_replicate]
  case combined =>
    intro _ p
    rw [total_started rfl, scheduled, other (e := .combined p) (by simp)]
    simp [Plan.started, count_flatMap_replicate]
  case closing =>
    intro p
    rw [total_started rfl, other (e := .finalize p) (by simp)]
    exact Nat.zero_le 1
  case early =>
    intro p _
    exact ⟨total_started rfl, other (e := .finalize p) (by simp)⟩
  case finalizing =>
    intro p
    rw [total_started rfl, other (e := .finalized p) (by simp)]
    exact Nat.zero_le _
  case closed =>
    intro _ p member none
    rw [List.mem_reverse] at member
    obtain ⟨q, isReady, same⟩ := List.mem_map.mp member
    cases same
    simp only [Plan.started, isReady, if_true] at none
    have positive := plan.tasks_pos p
    omega
  case errors =>
    rw [other (e := .error) (by simp)]
    rfl
  case ended =>
    rw [total_started rfl, other (e := .done) (by simp)]
    simp [Plan.started, plan.ready_active]
  case done =>
    rw [other (e := .done) (by simp)]
    rfl

end Started

end BumbleBee.Parallel
