import BumbleBee.Parallel.Books

/-!
The order in which a query schedules, runs and finalizes its pipelines. A worker
that has begun to finalize a pipeline goes on to release its dependents even if an
error is latched meanwhile; nothing else releases a pipeline, and no task enters
its pipeline once the error is latched.
-/

namespace BumbleBee.Parallel
open Library.Transition Worker

variable {P W : Type} [DecidableEq P]

/-- The finalization of `p` began before the error. -/
def BeforeError (p : P) (log : List (Event P)) : Prop :=
  ∃ newer older, log = newer ++ .error :: older ∧ .finalize p ∈ older

/-- What each event of a query has behind it. -/
def Plan.Ordered (plan : Plan P) : Event P → List (Event P) → Prop
  | .scheduled p, earlier => .scheduled p ∉ earlier ∧ (∀ d ∈ plan.dependencies p, .finalized d ∈ earlier) ∧
      (.error ∈ earlier → ∃ d ∈ plan.dependencies p, BeforeError d earlier)
  | .run p, earlier => .scheduled p ∈ earlier ∧ earlier.count (.run p) < plan.tasks p ∧ .error ∉ earlier
  | .combined _, _ => True
  | .finalize p, earlier => .finalize p ∉ earlier ∧ earlier.count (.combined p) = plan.tasks p ∧ .error ∉ earlier
  | .finalized p, earlier => .finalized p ∉ earlier ∧ .finalize p ∈ earlier
  | .error, earlier => .error ∉ earlier
  | .done, earlier => .done ∉ earlier ∧ (.error ∈ earlier ∨ ∀ p, .scheduled p ∈ earlier ∧ .finalized p ∈ earlier)

namespace Worker

/-- The pipeline a worker finalizes or whose dependents it releases. -/
def owner : Worker P → Option P
  | .finalizing p | .releasing p _ _ | .arming p _ _ _ => some p
  | _ => none

/-- The dependents a worker has still to release or to arm. -/
def targets : Worker P → List P
  | .releasing _ rest _ => rest
  | .arming _ q rest _ => q :: rest
  | _ => []

end Worker

/-- A worker that owns a pipeline has begun to finalize it, before any error. -/
def Begun (plan : Plan P) (log : List (Event P)) (x : Worker P) : Prop :=
  ∀ p, x.owner = some p → .finalize p ∈ log ∧ (.error ∈ log → BeforeError p log) ∧
    ∀ q ∈ x.targets, q ∈ plan.dependents p

omit [DecidableEq P] in
theorem BeforeError.grow {p : P} {log : List (Event P)} (events : List (Event P)) (before : BeforeError p log) :
    BeforeError p (events ++ log) := by
  obtain ⟨newer, older, same, member⟩ := before
  exact ⟨events ++ newer, older, by rw [same, List.append_assoc], member⟩

theorem Begun.grow {plan : Plan P} {log events : List (Event P)} {x : Worker P} (begun : Begun plan log x)
    (quiet : .error ∈ events → events = [.error]) : Begun plan (events ++ log) x := by
  intro p owner
  obtain ⟨member, before, targets⟩ := begun p owner
  refine ⟨List.mem_append_right _ member, ?_, targets⟩
  intro failed
  rcases List.mem_append.mp failed with new | old
  · rw [quiet new]
    exact ⟨[], log, rfl, member⟩
  · exact (before old).grow events

variable [Fintype P] [Fintype W] {plan : Plan P} {log events : List (Event P)} {s mid : Executor P W} {w : W}
  {y : Worker P}

theorem Books.error_iff (books : Books plan log s) : .error ∈ log ↔ s.hasError = true := by
  have counted := books.errors
  rw [← List.count_pos_iff, counted]
  cases s.hasError <;> simp

omit [Fintype P] [Fintype W] in
theorem Turn.error_alone {x : Worker P} (turn : Turn plan s x y mid events) (failed : .error ∈ events) :
    events = [.error] := by
  cases turn <;> simp_all

section
variable (books : Books plan log s)
include books

theorem Begun.turned (begun : Begun plan log (s.workers w))
    (turn : Turn plan s (s.workers w) y mid events) : Begun plan (events ++ log) y := by
  have grown : Begun plan (events ++ log) (s.workers w) := begun.grow turn.error_alone
  have failed := books.error_iff
  generalize s.workers w = x at *
  cases turn
  case finalize p sound =>
    intro q same
    cases same
    refine ⟨List.mem_cons_self, ?_, by simp [targets]⟩
    intro member
    simp [failed, sound] at member
  case finalized p =>
    intro q same
    cases same
    obtain ⟨member, before, _⟩ := grown p rfl
    exact ⟨member, before, fun q member => member⟩
  case release p q rest ready more =>
    intro r same
    cases same
    obtain ⟨member, before, targets⟩ := grown p rfl
    exact ⟨member, before, fun r member => targets r (List.mem_cons_of_mem q member)⟩
  case releaseLast p q rest ready one =>
    intro r same
    cases same
    exact grown p rfl
  case arm p q rest ready =>
    intro r same
    cases same
    obtain ⟨member, before, targets⟩ := grown p rfl
    exact ⟨member, before, fun r member => targets r (List.mem_cons_of_mem q member)⟩
  all_goals
    intro q same
    cases same

/-- A pipeline without edges left has all its dependencies finalized. -/
theorem Books.dependencies_finalized {q : P} (none : s.dependenciesRemaining q = 0)
    (d : P) (member : d ∈ plan.dependencies q) : .finalized d ∈ log := by
  have waiting : plan.waiting log q = 0 := by
    have edges := books.edges q
    omega
  by_contra missing
  have part := Finset.sum_eq_zero_iff.mp waiting d (Finset.mem_univ d)
  rw [if_neg missing, plan.edges] at part
  exact List.count_eq_zero.mp part member

/-- With no task left and no error, every pipeline has been scheduled and finalized. -/
theorem Books.complete (none : s.activeTasks = 0) (sound : s.hasError = false) (p : P) :
    .scheduled p ∈ log ∧ .finalized p ∈ log := by
  have held : s.total held = 0 := by
    have active := books.active
    omega
  have free (v : W) : (s.workers v).held = 0 := by
    have part := s.le_total Worker.held v
    omega
  have nothing {f : Worker P → Nat} (below : ∀ x : Worker P, x.held = 0 → f x = 0) : s.total f = 0 :=
    Finset.sum_eq_zero fun v _ => below _ (free v)
  have empty : s.queue = [] := by
    apply List.length_eq_zero_iff.mp
    have active := books.active
    omega
  induction p using plan.acyclic.induction with
  | h p ih =>
    have waiting : plan.waiting log p = 0 := by
      apply Finset.sum_eq_zero
      intro d _
      split
      · rfl
      · next missing =>
        rw [plan.edges]
        exact List.count_eq_zero.mpr fun member => missing (ih d member).2
    have edges := books.edges p
    have scheduled := books.scheduled p
    have remaining := books.remaining p
    rw [nothing (f := edgesTo p) (by intro x; cases x <;> simp [Worker.held, edgesTo])] at edges
    rw [nothing (f := arms p) (by intro x; cases x <;> simp [Worker.held, arms])] at scheduled
    rw [nothing (f := inHand p) (by intro x; cases x <;> simp [Worker.held, inHand]), empty] at remaining
    rw [waiting] at edges
    rw [if_pos edges] at scheduled
    have member : .scheduled p ∈ log := List.count_pos_iff.mp (by omega)
    have closed := books.closed sound p member remaining
    rw [nothing (f := atLast p) (by intro x; cases x <;> simp [Worker.held, atLast]),
      nothing (f := atFinalize p) (by intro x; cases x <;> simp [Worker.held, atFinalize])] at closed
    exact ⟨member, List.count_pos_iff.mp (by omega)⟩

theorem Books.scheduled_once (p : P) : log.count (.scheduled p) ≤ 1 := by
  have counted := books.scheduled p
  split at counted <;> omega

theorem Books.ordered_run {p : P} (place : s.workers w = .checking p)
    (sound : s.hasError = false) : plan.Ordered (.run p) log := by
  have own := s.le_total (unbegun p) w
  have runs := books.runs p
  have most := Nat.mul_le_mul_left (plan.tasks p) (books.scheduled_once p)
  simp only [place, unbegun, if_true] at own
  have member : .scheduled p ∈ log := by
    by_contra missing
    rw [List.count_eq_zero.mpr missing] at runs
    omega
  refine ⟨member, by omega, ?_⟩
  rw [books.error_iff, sound]
  exact Bool.noConfusion

/-- The last task of a pipeline finds all of its tasks combined. -/
theorem Books.ordered_finalize {p : P} (place : s.workers w = .last p)
    (sound : s.hasError = false) : plan.Ordered (.finalize p) log := by
  have own := s.le_total (atLast p) w
  have closing := books.closing p
  simp only [place, atLast, if_true] at own
  have late : s.tasksRemaining p = 0 ∧ .scheduled p ∈ log := by
    by_contra still
    have early := books.early p (by
      by_cases none : s.tasksRemaining p = 0
      · exact .inr fun member => still ⟨none, member⟩
      · exact .inl none)
    omega
  have remaining := books.remaining p
  have combined := books.combined sound p
  have below : s.total (uncombined p) ≤ s.total (inHand p) := by
    apply Finset.sum_le_sum
    intro v _
    cases s.workers v <;> simp [uncombined, inHand]
  have once : log.count (.scheduled p) = 1 := by
    have most := books.scheduled_once p
    have least := List.count_pos_iff.mpr late.2
    omega
  rw [once] at combined
  refine ⟨List.count_eq_zero.mp (by omega), by omega, ?_⟩
  rw [books.error_iff, sound]
  exact Bool.noConfusion

theorem Books.ordered_scheduled (begun : Begun plan log (s.workers w)) {p q : P}
    {rest ready : List P} (place : s.workers w = .arming p q rest ready) : plan.Ordered (.scheduled q) log := by
  obtain ⟨missing, none⟩ := books.fresh place
  refine ⟨missing, books.dependencies_finalized none, ?_⟩
  intro failed
  rw [place] at begun
  obtain ⟨_, before, targets⟩ := begun p rfl
  refine ⟨p, ?_, before failed⟩
  have edge := List.count_pos_iff.mpr (targets q List.mem_cons_self)
  rw [plan.edges] at edge
  exact List.count_pos_iff.mp edge

theorem Books.ordered_done (place : s.workers w = .signalling) : plan.Ordered .done log := by
  have own := s.le_total signals w
  have ended := books.ended
  simp only [place, signals] at own
  have none : s.activeTasks = 0 := by
    by_contra some
    rw [if_neg some] at ended
    omega
  rw [if_pos none] at ended
  refine ⟨List.count_eq_zero.mp (by omega), ?_⟩
  cases failed : s.hasError with
  | true => exact .inl (books.error_iff.mpr failed)
  | false => exact .inr (books.complete none failed)

theorem Plan.Ordered.turned (begun : Begun plan log (s.workers w)) (turn : Turn plan s (s.workers w) y mid events)
    (justified : Justified plan.Ordered log) : Justified plan.Ordered (events ++ log) := by
  have first (sound : s.hasError = false) : plan.Ordered .error log := by
    change .error ∉ log
    rw [books.error_iff, sound]
    exact Bool.noConfusion
  cases place : s.workers w with
  | checking p =>
    rw [place] at turn
    cases turn with
    | skip failed => exact justified
    | enter sound => exact ⟨books.ordered_run place sound, justified⟩
  | running p =>
    rw [place] at turn
    cases turn with
    | combine => exact ⟨trivial, justified⟩
    | fail sound => exact ⟨first sound, justified⟩
    | failAgain failed => exact justified
  | last p =>
    rw [place] at turn
    cases turn with
    | abort failed => exact justified
    | finalize sound => exact ⟨books.ordered_finalize place sound, justified⟩
  | finalizing p =>
    have new := List.count_eq_zero.mp (books.unfinalized place)
    rw [place] at turn begun
    cases turn with
    | finalized => exact ⟨⟨new, (begun p rfl).1⟩, justified⟩
    | finalizeFails sound => exact ⟨first sound, justified⟩
    | finalizeFailsAgain failed => exact justified
  | arming p q rest ready =>
    have ordered := books.ordered_scheduled begun place
    rw [place] at turn
    cases turn
    exact ⟨ordered, justified⟩
  | signalling =>
    rw [place] at turn
    cases turn
    exact ⟨books.ordered_done place, justified⟩
  | looking | asleep | counting p | releasing p rest ready | notifying | finishing | waking | returned =>
    rw [place] at turn
    cases turn <;> exact justified

end

end BumbleBee.Parallel
