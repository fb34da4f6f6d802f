import BumbleBee.Parallel.Order
import Mathlib.Data.Prod.Lex

/-!
Every query comes to its end. A worker sleeps only while there is nothing to take
or a notification is on its way; each turn uses up some of the work left, or sends
a worker that looks for work to sleep; and when no worker can take another turn,
the completion of the query has been signalled.
-/

namespace BumbleBee.Parallel
open Library.Transition Worker Function

variable {P W : Type} [DecidableEq P]

namespace Executor

/-- A worker sleeps on an empty queue, or is about to be notified. -/
def Rested (s : Executor P W) : Prop :=
  ∀ v, s.workers v = .asleep → (s.queue = [] ∧ s.queryDone = false) ∨ ∃ u, (s.workers u).notifies = true

def Quit (s : Executor P W) : Prop := ∀ v, s.workers v = .returned → s.queryDone = true

variable [DecidableEq W] {plan : Plan P} {s mid : Executor P W} {w v : W} {y : Worker P} {events : List (Event P)}

theorem turned_other (same : mid.workers = s.workers) (silent : (s.workers w).notifies = false) (apart : v ≠ w) :
    (mid.turned w (s.workers w) y).workers v = s.workers v := by
  simp [turned, silent, move, update_of_ne apart, same]

theorem turned_own (silent : (s.workers w).notifies = false) : (mid.turned w (s.workers w) y).workers w = y := by
  simp [turned, silent, move]

theorem turned_awake (wakes : (s.workers w).notifies = true) :
    (mid.turned w (s.workers w) y).workers v ≠ .asleep := by
  simp only [turned, wakes, if_true, notifyAll]
  split
  · simp
  · next awake => exact awake

theorem Rested.turned (rested : s.Rested) (turn : Turn plan s (s.workers w) y mid events)
    (same : mid.workers = s.workers) : (mid.turned w (s.workers w) y).Rested := by
  intro v sleeps
  cases wakes : (s.workers w).notifies with
  | true => exact absurd sleeps (turned_awake wakes)
  | false =>
    by_cases own : v = w
    · subst own
      rw [turned_own wakes] at sleeps
      subst sleeps
      left
      generalize s.workers v = x at *
      cases turn with
      | sleep queue pending =>
        exact ⟨queue, pending⟩
    · rw [turned_other same wakes own] at sleeps
      rcases rested v sleeps with ⟨queue, pending⟩ | ⟨u, notifies⟩
      · have after : (mid.turned w (s.workers w) y).workers w = y := turned_own wakes
        generalize place : s.workers w = x at *
        cases turn with
        | take some =>
          rw [queue] at some
          cases some
        | enqueue some => exact .inr ⟨w, by rw [after]; rfl⟩
        | signal => exact .inr ⟨w, by rw [after]; rfl⟩
        | quit | sleep | skip | enter | combine | fail | failAgain | countDown | countLast | abort | finalize
        | finalized | finalizeFails | finalizeFailsAgain | release | releaseLast | arm | enqueueNone | notify
        | finish | finishLast | wake => exact .inl ⟨queue, pending⟩
      · right
        have apart : u ≠ w := by
          rintro rfl
          rw [wakes] at notifies
          cases notifies
        exact ⟨u, by rw [turned_other same wakes apart]; exact notifies⟩

theorem turned_place (same : mid.workers = s.workers) (w : W) (y : Worker P) (v : W) :
    (mid.turned w (s.workers w) y).workers v = .looking ∨ (mid.turned w (s.workers w) y).workers v = y ∨
      (mid.turned w (s.workers w) y).workers v = s.workers v := by
  have moved : (mid.move w y).workers v = y ∨ (mid.move w y).workers v = s.workers v := by
    by_cases own : v = w
    · subst own
      exact .inl (update_self ..)
    · right
      rw [← same]
      exact update_of_ne own ..
  unfold turned
  split
  · simp only [notifyAll]
    split
    · exact .inl rfl
    · exact .inr moved
  · exact .inr moved

theorem Quit.turned (quit : s.Quit) (turn : Turn plan s (s.workers w) y mid events)
    (same : mid.workers = s.workers) : (mid.turned w (s.workers w) y).Quit := by
  intro v returned
  have known := turned_place same w y v
  rw [returned] at known
  generalize s.workers w = x at *
  rcases known with looking | own | before
  · cases looking
  · subst own
    cases turn with
    | quit queue done => exact done
  · have done := quit v before.symm
    cases turn <;> first | exact done | rfl

end Executor

/-- What a queued task may still take: its own turns and those for the dependents of its pipeline. -/
def Plan.taskCost (plan : Plan P) (p : P) : Nat := 11 + 4 * (plan.dependents p).length

def Plan.tasksCost (plan : Plan P) : List P → Nat
  | [] => 0
  | p :: rest => plan.taskCost p + plan.tasksCost rest

def Worker.cost (plan : Plan P) : Worker P → Nat
  | .looking | .asleep | .returned => 0
  | .checking p => 10 + 4 * (plan.dependents p).length
  | .running p => 9 + 4 * (plan.dependents p).length
  | .counting p => 8 + 4 * (plan.dependents p).length
  | .last p => 7 + 4 * (plan.dependents p).length
  | .finalizing p => 6 + 4 * (plan.dependents p).length
  | .releasing _ rest ready => 5 + 4 * rest.length + plan.tasksCost ready
  | .arming _ q rest ready => 6 + 4 * rest.length + plan.tasksCost ready + plan.tasks q * plan.taskCost q
  | .notifying => 4
  | .finishing => 3
  | .signalling => 2
  | .waking => 1

/-- How far a worker is from having left. -/
def Worker.patience : Worker P → Nat
  | .looking => 2
  | .asleep => 1
  | _ => 0

/-- The work in pipelines that are not released. -/
def Plan.pendingCost [Fintype P] (plan : Plan P) (remaining : P → Nat) : Nat :=
  ∑ p, if remaining p = 0 then 0 else plan.tasks p * plan.taskCost p + 1

/-- The work that is left. -/
def Executor.workLeft [Fintype P] [Fintype W] (plan : Plan P) (s : Executor P W) : Nat :=
  plan.tasksCost s.queue + s.total (Worker.cost plan) + plan.pendingCost s.dependenciesRemaining

theorem tasksCost_nil (plan : Plan P) : plan.tasksCost [] = 0 := rfl

theorem tasksCost_append (plan : Plan P) (first second : List P) :
    plan.tasksCost (first ++ second) = plan.tasksCost first + plan.tasksCost second := by
  induction first with
  | nil => simp [Plan.tasksCost]
  | cons p rest ih => rw [List.cons_append, Plan.tasksCost, ih, Plan.tasksCost, Nat.add_assoc]

theorem tasksCost_replicate (plan : Plan P) (n : Nat) (p : P) :
    plan.tasksCost (List.replicate n p) = n * plan.taskCost p := by
  induction n with
  | zero => simp [Plan.tasksCost]
  | succ n ih => rw [List.replicate_succ, Plan.tasksCost, ih, Nat.succ_mul, Nat.add_comm]

section Released
variable [Fintype P] (plan : Plan P) {remaining : P → Nat} {q : P}

theorem pendingCost_kept {n : Nat} (before : remaining q ≠ 0) (after : n ≠ 0) :
    plan.pendingCost (update remaining q n) = plan.pendingCost remaining := by
  apply Finset.sum_congr rfl
  intro p _
  by_cases same : p = q
  · subst same
    simp [before, after]
  · rw [update_of_ne same]

theorem pendingCost_released (before : remaining q ≠ 0) :
    plan.pendingCost (update remaining q 0) + (plan.tasks q * plan.taskCost q + 1) =
      plan.pendingCost remaining := by
  unfold Plan.pendingCost
  rw [← Finset.add_sum_erase _ _ (Finset.mem_univ q), ← Finset.add_sum_erase (Finset.univ : Finset P) _
    (Finset.mem_univ q), update_self, if_pos rfl, if_neg before, Nat.zero_add, Nat.add_comm]
  congr 1
  apply Finset.sum_congr rfl
  intro p other
  rw [update_of_ne (Finset.ne_of_mem_erase other)]

end Released

variable [Fintype P] [Fintype W] [DecidableEq W] {plan : Plan P} {log events : List (Event P)}
  {s mid : Executor P W} {w : W} {y : Worker P}

/-- A turn uses up work, unless a worker that found no task goes to sleep or leaves. -/
theorem Books.workLeft_turned (books : Books plan log s) (turn : Turn plan s (s.workers w) y mid events)
    (same : mid.workers = s.workers) :
    (mid.turned w (s.workers w) y).workLeft plan < s.workLeft plan ∨
      (mid.turned w (s.workers w) y).workLeft plan = s.workLeft plan ∧ s.workers w = .looking ∧
        (y = .asleep ∨ y = .returned) := by
  have moved := Executor.total_turned (f := Worker.cost plan) rfl (w := w) (y := y) same
  have own (q : P) := s.le_total (edgesTo q) w
  have edges := books.edges
  simp only [Executor.workLeft, Executor.turned_queue, Executor.turned_dependenciesRemaining]
  generalize (mid.turned w (s.workers w) y).total (Worker.cost plan) = after at *
  generalize s.workers w = x at *
  cases turn
  case take p rest queue =>
    simp only [Worker.cost, queue, Plan.tasksCost, Plan.taskCost] at *
    omega
  case quit | sleep =>
    right
    simp only [Worker.cost] at moved
    refine ⟨by omega, rfl, ?_⟩
    first | exact .inl rfl | exact .inr rfl
  case release p q rest ready more =>
    have some := own q
    have counted := edges q
    simp only [edgesTo, List.count_cons_self] at some
    rw [pendingCost_kept plan (by omega) (by omega)]
    simp only [Worker.cost, List.length_cons] at *
    omega
  case releaseLast p q rest ready one =>
    have released : plan.pendingCost (update s.dependenciesRemaining q 0) +
        (plan.tasks q * plan.taskCost q + 1) = plan.pendingCost s.dependenciesRemaining :=
      pendingCost_released plan (by omega)
    rw [one]
    simp only [Worker.cost, List.length_cons, Nat.sub_self] at *
    omega
  case arm p q rest ready =>
    simp only [Worker.cost, tasksCost_append, tasksCost_replicate, Executor.createTasks_queue,
      Executor.createTasks_dependenciesRemaining] at *
    omega
  case enqueue p ready some =>
    simp only [Worker.cost, tasksCost_append] at *
    omega
  all_goals
    simp only [Worker.cost, tasksCost_nil] at *
    omega

/-- What is left before the start, then of the work, then of the workers' looking for it. -/
def Executor.bound (plan : Plan P) (s : Executor P W) : Nat ×ₗ (Nat ×ₗ Nat) :=
  toLex ((!s.started).toNat, toLex (s.workLeft plan, s.total Worker.patience))

theorem Books.bound_turned (books : Books plan log s) (turn : Turn plan s (s.workers w) y mid events)
    (same : mid.workers = s.workers) (started : mid.started = s.started) :
    (mid.turned w (s.workers w) y).bound plan < s.bound plan := by
  unfold Executor.bound
  rw [Prod.Lex.toLex_lt_toLex]
  right
  refine ⟨by rw [Executor.turned_started, started], ?_⟩
  rw [Prod.Lex.toLex_lt_toLex]
  rcases books.workLeft_turned turn same with less | ⟨equal, looking, left⟩
  · exact .inl less
  · right
    refine ⟨equal, ?_⟩
    have silent : (s.workers w).notifies = false := by rw [looking]; rfl
    apply Finset.sum_lt_sum
    · intro v _
      by_cases own : v = w
      · subst own
        rw [Executor.turned_own silent, looking]
        rcases left with rfl | rfl <;> simp [Worker.patience]
      · rw [Executor.turned_other same silent own]
    · refine ⟨w, Finset.mem_univ w, ?_⟩
      rw [Executor.turned_own silent, looking]
      rcases left with rfl | rfl <;> simp [Worker.patience]

/-- What holds after every step of a query. -/
structure Working (plan : Plan P) (log : List (Event P)) (s : Executor P W) : Prop where
  books : Books plan log s
  begun : ∀ v, Begun plan log (s.workers v)
  ordered : Justified plan.Ordered log
  rested : s.Rested
  quit : s.Quit

theorem Working.turned (working : Working plan log s) (turn : Turn plan s (s.workers w) y mid events)
    (same : mid.workers = s.workers) : Working plan (events ++ log) (mid.turned w (s.workers w) y) where
  books := working.books.turned turn same
  begun := by
    intro v
    rcases Executor.turned_place same w y v with looking | own | before
    · rw [looking]
      intro p owner
      cases owner
    · rw [own]
      exact (working.begun w).turned working.books turn
    · rw [before]
      exact (working.begun v).grow turn.error_alone
  ordered := Plan.Ordered.turned working.books (working.begun w) turn working.ordered
  rested := working.rested.turned turn same
  quit := working.quit.turned turn same

omit [Fintype P] in
/-- Pipelines without dependencies may be scheduled in any order. -/
theorem ordered_ready {ready : List P} (nodup : ready.Nodup) (free : ∀ p ∈ ready, plan.dependencies p = []) :
    Justified plan.Ordered (ready.map .scheduled) := by
  induction ready with
  | nil => trivial
  | cons p rest ih =>
    obtain ⟨new, nodup⟩ := List.nodup_cons.mp nodup
    refine ⟨⟨?_, ?_, ?_⟩, ih nodup fun q member => free q (List.mem_cons_of_mem p member)⟩
    · intro member
      obtain ⟨q, later, same⟩ := List.mem_map.mp member
      cases same
      exact new later
    · rw [free p List.mem_cons_self]
      exact fun d member => absurd member List.not_mem_nil
    · intro failed
      obtain ⟨q, _, same⟩ := List.mem_map.mp failed
      cases same

omit [DecidableEq W] in
theorem Working.started (plan : Plan P) :
    Working plan (plan.ready.map .scheduled).reverse (plan.started : Executor P W) where
  books := Books.started plan
  begun := by
    intro v p owner
    cases owner
  ordered := by
    rw [← List.map_reverse]
    apply ordered_ready
    · exact List.nodup_reverse.mpr (plan.nodup.filter _)
    · exact fun p member => Plan.mem_ready.mp (List.mem_reverse.mp member)
  rested := by
    intro v sleeps
    cases sleeps
  quit := by
    intro v returned
    cases returned

theorem working_run (run : Run (executor W plan) always log s) :
    (s = Executor.initial plan ∧ log = []) ∨ (s.started = true ∧ Working plan log s) := by
  refine Run.invariant (I := fun log s => (s = Executor.initial plan ∧ log = []) ∨
    (s.started = true ∧ Working plan log s)) ?_ ?_ run
  · exact fun s initial => .inl ⟨initial, rfl⟩
  · intro log s next a events _ before _ taken
    right
    rcases before with ⟨rfl, rfl⟩ | ⟨started, working⟩
    · cases a with
      | executeQuery =>
        have first : some ((Executor.initial plan : Executor P W).executeQuery plan) = some (next, events) := taken
        rw [executeQuery_initial] at first
        cases first
        rw [List.append_nil]
        exact ⟨rfl, Working.started plan⟩
      | work w threw => cases taken
    · cases a with
      | executeQuery => simp [executor, Executor.step, started] at taken
      | work w threw =>
        simp only [executor, Executor.step, started] at taken
        obtain ⟨y, mid, turn, same, rfl⟩ := Executor.turn_of_work taken
        refine ⟨?_, working.turned turn same⟩
        rw [Executor.turned_started, turn.started]
        exact started

theorem bound_run {a : Action W} {next : Executor P W} (run : Run (executor W plan) always log s)
    (taken : (executor W plan).step s a = some (next, events)) : next.bound plan < s.bound plan := by
  rcases working_run run with ⟨rfl, rfl⟩ | ⟨started, working⟩
  · cases a with
    | executeQuery =>
      have first : some ((Executor.initial plan : Executor P W).executeQuery plan) = some (next, events) := taken
      rw [executeQuery_initial] at first
      cases first
      unfold Executor.bound
      rw [Prod.Lex.toLex_lt_toLex]
      exact .inl Nat.zero_lt_one
    | work w threw => cases taken
  · cases a with
    | executeQuery => simp [executor, Executor.step, started] at taken
    | work w threw =>
      simp only [executor, Executor.step, started] at taken
      obtain ⟨y, mid, turn, same, rfl⟩ := Executor.turn_of_work taken
      exact working.books.bound_turned turn same turn.started

omit [DecidableEq W] in
theorem Books.drained (books : Books plan log s) (done : s.queryDone = true) :
    s.activeTasks = 0 ∧ s.queue = [] ∧ ∀ v, (s.workers v).held = 0 := by
  have counted := books.done
  have ended := books.ended
  have active := books.active
  rw [done] at counted
  have none : s.activeTasks = 0 := by
    by_contra some
    rw [if_neg some] at ended
    simp only [Bool.toNat_true] at counted
    omega
  refine ⟨none, List.length_eq_zero_iff.mp (by omega), ?_⟩
  intro v
  have part := s.le_total held v
  omega

omit [Fintype P] [Fintype W] in
theorem Executor.idle_of_stopped (started : s.started = true) (stopped : ∀ a, (executor W plan).step s a = none)
    (v : W) : s.workers v = .asleep ∨ s.workers v = .returned := by
  have none := stopped (.work v false)
  simp only [executor, Executor.step, started, if_true, Executor.work] at none
  split at none <;> cases none
  · next place => exact .inl place
  · next place => exact .inr place

/-- When no turn is left, completion has been signalled and every worker has returned. -/
theorem Working.finished [Inhabited W] (working : Working plan log s) (started : s.started = true)
    (stopped : ∀ a, (executor W plan).step s a = none) : s.queryDone = true ∧ ∀ v, s.workers v = .returned := by
  have idle := Executor.idle_of_stopped started stopped
  have silent (u : W) : ¬ (s.workers u).notifies = true := by
    rcases idle u with place | place <;> rw [place] <;> exact Bool.noConfusion
  have done : s.queryDone = true := by
    by_contra pending
    have asleep : s.workers default = .asleep := by
      rcases idle default with sleeps | returned
      · exact sleeps
      · exact absurd (working.quit default returned) pending
    have empty : s.queue = [] := by
      rcases working.rested default asleep with ⟨queue, _⟩ | ⟨u, notifies⟩
      · exact queue
      · exact absurd notifies (silent u)
    have nothing {f : Worker P → Nat} (sleeps : f .asleep = 0) (returned : f .returned = 0) : s.total f = 0 := by
      apply Finset.sum_eq_zero
      intro v _
      rcases idle v with place | place <;> rw [place] <;> assumption
    have active := working.books.active
    have ended := working.books.ended
    have counted := working.books.done
    rw [nothing rfl rfl, empty] at active
    have none : s.activeTasks = 0 := active
    rw [nothing rfl rfl, if_pos none, counted, Bool.eq_false_iff.mpr pending] at ended
    cases ended
  refine ⟨done, ?_⟩
  intro v
  rcases idle v with sleeps | returned
  · rcases working.rested v sleeps with ⟨_, pending⟩ | ⟨u, notifies⟩
    · rw [done] at pending
      cases pending
    · exact absurd notifies (silent u)
  · exact returned

/-- Whatever the graph, the task counts, the number of workers and their interleaving: events come in
order, completion is signalled only when all tasks have drained, and every run ends with it. -/
theorem query_scheduling {P W : Type} [DecidableEq P] [Fintype P] [DecidableEq W] [Fintype W] [Inhabited W]
    {plan : Plan P} {log : List (Event P)} {s : Executor P W} (run : Run (executor W plan) always log s) :
    Justified plan.Ordered log ∧ (s.queryDone = true ↔ .done ∈ log) ∧
      (s.queryDone = true → s.queue = [] ∧ ∀ w, (s.workers w).held = 0) ∧ ¬ (executor W plan).Endless s ∧
      ((∀ a, (executor W plan).step s a = none) → s.queryDone = true ∧ ∀ w, s.workers w = .returned) := by
  have wellFounded : WellFounded fun x y : Nat ×ₗ (Nat ×ₗ Nat) => x < y := wellFounded_lt
  have finite := Run.not_endless wellFounded (Executor.bound plan) bound_run run
  rcases working_run run with ⟨rfl, rfl⟩ | ⟨started, working⟩
  · refine ⟨trivial, ?_, ?_, finite, ?_⟩
    · simp [Executor.initial]
    · intro done
      cases done
    · intro stopped
      cases stopped .executeQuery
  · refine ⟨working.ordered, ?_, ?_, finite, working.finished started⟩
    · rw [← List.count_pos_iff, working.books.done]
      cases s.queryDone <;> simp
    · exact fun done => (working.books.drained done).2

/-- A root pipeline that joins two others, one of which has a pipeline of its own behind it. -/
def joinPlan : Plan (Fin 4) where
  pipelines := [3, 1, 2, 0]
  dependencies p := match p with | 0 => [] | 1 => [] | 2 => [0] | 3 => [1, 2]
  dependents p := match p with | 0 => [2] | 1 => [3] | 2 => [3] | 3 => []
  plannedThreads _ := 1
  maxThreads _ := 1
  root := 3
  nodup := by decide
  complete := by decide
  clamped _ := Nat.le_refl 1
  edges := by decide
  acyclic := by
    apply Subrelation.wf (r := fun p q : Fin 4 => p < q) _ wellFounded_lt
    intro p q member
    revert p q
    decide

/-- Two workers run a whole query between them. -/
theorem query_scheduling_joined :
    ∃ log s, Run (executor (Fin 2) joinPlan) always log s ∧ (∀ p, log.count (.finalized p) = 1) ∧
      (∀ w, s.workers w = .returned) ∧
      Justified joinPlan.Ordered log ∧ (s.queryDone = true ↔ .done ∈ log) ∧
      (s.queryDone = true → s.queue = [] ∧ ∀ w, (s.workers w).held = 0) ∧
      ¬ (executor (Fin 2) joinPlan).Endless s ∧
      ((∀ a, (executor (Fin 2) joinPlan).step s a = none) → s.queryDone = true ∧ ∀ w, s.workers w = .returned) := by
  obtain ⟨s, log, run, shown⟩ := exec_shows (M := executor (Fin 2) joinPlan)
    (.executeQuery :: List.map (fun w => .work w false) ((List.replicate 12 [0, 1]).flatten ++ List.replicate 7 0 ++
      [1, 0, 1, 0] ++ List.replicate 8 1 ++ [0, 1])) rfl (fun _ _ _ => trivial)
    (fun r => decide ((∀ p, r.2.count (.finalized p) = 1) ∧ ∀ w, r.1.workers w = .returned)) true (by decide +kernel)
  obtain ⟨finalized, returned⟩ := of_decide_eq_true shown
  exact ⟨log, s, run, finalized, returned, query_scheduling run⟩

/-- Pipeline 0 is being finalized when the task of pipeline 1 throws: pipeline 2 is released all the same. -/
theorem released_after_error :
    ∃ s later earlier, Run (executor (Fin 2) joinPlan) always (later ++ .scheduled 2 :: earlier) s ∧
      .error ∈ earlier := by
  obtain ⟨s, log, run, shown⟩ := exec_shows (M := executor (Fin 2) joinPlan)
    [.executeQuery, .work 0 false, .work 1 false, .work 1 false, .work 1 false, .work 1 false, .work 1 false,
      .work 0 false, .work 0 true, .work 1 false, .work 1 false, .work 1 false] rfl (fun _ _ _ => trivial)
    (fun r => r.2) [.scheduled 2, .finalized 0, .error, .run 1, .finalize 0, .combined 0, .run 0, .scheduled 0,
      .scheduled 1] (by decide +kernel)
  simp only at shown
  subst shown
  exact ⟨s, [], _, run, by decide⟩

end BumbleBee.Parallel
