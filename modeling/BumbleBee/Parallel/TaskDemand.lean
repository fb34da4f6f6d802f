import BumbleBee.Parallel.Executor
import Mathlib.Algebra.Order.BigOperators.Group.Finset
import Mathlib.Logic.Relation

/-!
`PeakTaskDemand`: how many tasks of a query can be runnable at once. Two pipelines of
which neither waits on the other may overlap, so the demand of a pipeline is its own
tasks and those of every pipeline it is not comparable to. A row of `reaches` never
says more than the dependencies do, and that is what makes the maximum a bound, unless
a pipeline has more tasks when they are created than when it was asked: the source of
a grace join counts partitions that its sink has yet to fill.
-/

namespace BumbleBee.Parallel
open Library.Transition Function

/-- The matrix `reaches` and the flags `done`. -/
structure Closure (P : Type) where
  reaches : P → P → Bool
  done : P → Bool

variable {P : Type} [DecidableEq P]

/-- `i` waits on `d` and on all that `d` waits on. -/
def Closure.absorb (c : Closure P) (i d : P) : Closure P :=
  { c with reaches := update c.reaches i fun k => c.reaches i k || decide (k = d) || c.reaches d k }

/-- The loop of `close` over the dependencies of a pipeline. -/
def closeEach (close : P → Closure P → Option (Closure P)) (i : P) : List P → Closure P → Option (Closure P)
  | [], c => some c
  | d :: rest, c => (close d c).bind fun closed => closeEach close i rest (closed.absorb i d)

namespace Plan

/-- `fuel` bounds the depth of the recursion. -/
def close (plan : Plan P) : Nat → P → Closure P → Option (Closure P)
  | 0, _, _ => none
  | fuel + 1, i, c =>
    if c.done i then some c
    else closeEach (plan.close fuel) i (plan.dependencies i) { c with done := update c.done i true }

def closeAll (plan : Plan P) (fuel : Nat) : List P → Closure P → Option (Closure P)
  | [], c => some c
  | i :: rest, c => (plan.close fuel i c).bind (plan.closeAll fuel rest)

/-- The tasks of the listed pipelines that are not comparable to `i`. -/
def incomparable (plan : Plan P) (c : Closure P) (i : P) : List P → Nat
  | [] => 0
  | j :: rest =>
    (if j ≠ i ∧ c.reaches i j = false ∧ c.reaches j i = false then plan.plannedThreads j else 0) +
      plan.incomparable c i rest

def peakTaskDemand (plan : Plan P) : Option Nat :=
  match plan.pipelines with
  | [] => some 0
  | [p] => some (plan.plannedThreads p)
  | pipelines =>
    (plan.closeAll (pipelines.length + 1) pipelines ⟨fun _ _ => false, fun _ => false⟩).map fun c =>
      pipelines.foldl (fun peak i => max peak (plan.plannedThreads i + plan.incomparable c i pipelines)) 0

/-- `p` starts only after `q` has finished. -/
def Waits (plan : Plan P) : P → P → Prop := Relation.TransGen fun p q => q ∈ plan.dependencies p

/-- Whatever `reaches` says, the dependencies say. -/
def Sound (plan : Plan P) (c : Closure P) : Prop := ∀ i k, c.reaches i k = true → plan.Waits i k

/-- How many pipelines are not yet done. -/
def remaining (plan : Plan P) (c : Closure P) : Nat := plan.pipelines.countP fun p => !c.done p

variable {plan : Plan P} {c next : Closure P} {i : P}

theorem Sound.absorb (sound : plan.Sound c) {d : P} (edge : d ∈ plan.dependencies i) :
    plan.Sound (c.absorb i d) := by
  have direct : plan.Waits i d := Relation.TransGen.single edge
  intro j k reached
  by_cases same : j = i
  · subst same
    simp only [Closure.absorb, update_self, Bool.or_eq_true, decide_eq_true_eq] at reached
    rcases reached with (before | rfl) | onward
    · exact sound j k before
    · exact direct
    · exact direct.trans (sound d k onward)
  · simp only [Closure.absorb, update_of_ne same] at reached
    exact sound j k reached

theorem remaining_le (grows : ∀ p, c.done p = true → next.done p = true) : plan.remaining next ≤ plan.remaining c := by
  refine List.countP_mono_left ?_
  intro p _ undone
  rw [Bool.not_eq_true'] at undone ⊢
  rw [← Bool.not_eq_true] at undone ⊢
  exact fun done => undone (grows p done)

theorem remaining_mark (plan : Plan P) (undone : c.done i = false) :
    plan.remaining { c with done := update c.done i true } < plan.remaining c := by
  obtain ⟨first, second, split⟩ := List.append_of_mem (plan.complete i)
  have fewer (l : List P) :
      (l.countP fun p => !update c.done i true p) ≤ l.countP fun p => !c.done p := by
    refine List.countP_mono_left ?_
    intro p _ unmarked
    by_cases same : p = i
    · rw [same, update_self] at unmarked
      cases unmarked
    · rwa [update_of_ne same] at unmarked
  have before := fewer first
  have after := fewer second
  simp only [remaining, split, List.countP_append, List.countP_cons, update_self, undone, Bool.not_true,
    Bool.not_false, if_true, Bool.false_eq_true, if_false]
  omega

/-- What a closing step yields: it returns, adds only what the dependencies say, and undoes no flag. -/
def Closes (plan : Plan P) (c : Closure P) (result : Option (Closure P)) : Prop :=
  ∃ next, result = some next ∧ plan.Sound next ∧ ∀ p, c.done p = true → next.done p = true

theorem closeEach_closes {step : P → Closure P → Option (Closure P)} {fuel : Nat}
    (closes : ∀ d c, plan.Sound c → plan.remaining c < fuel → plan.Closes c (step d c)) {deps : List P}
    (edges : ∀ d ∈ deps, d ∈ plan.dependencies i) (sound : plan.Sound c) (enough : plan.remaining c < fuel) :
    plan.Closes c (closeEach step i deps c) := by
  induction deps generalizing c with
  | nil => exact ⟨c, rfl, sound, fun _ done => done⟩
  | cons d rest ih =>
    obtain ⟨closed, result, closedSound, grows⟩ := closes d c sound enough
    have edge := edges d List.mem_cons_self
    have fewer : plan.remaining (closed.absorb i d) ≤ plan.remaining c := remaining_le grows
    obtain ⟨next, looped, nextSound, onward⟩ := ih (c := closed.absorb i d)
      (fun e member => edges e (List.mem_cons_of_mem d member)) (closedSound.absorb edge) (by omega)
    refine ⟨next, ?_, nextSound, fun p done => onward p (grows p done)⟩
    rw [closeEach, result]
    exact looped

theorem close_closes (fuel : Nat) (i : P) (c : Closure P) (sound : plan.Sound c) (enough : plan.remaining c < fuel) :
    plan.Closes c (plan.close fuel i c) := by
  induction fuel generalizing i c with
  | zero => exact absurd enough (Nat.not_lt_zero _)
  | succ fuel ih =>
    rw [close]
    split_ifs with done
    · exact ⟨c, rfl, sound, fun _ done => done⟩
    · have fewer := remaining_mark plan (Bool.eq_false_of_not_eq_true done)
      obtain ⟨next, result, nextSound, grows⟩ := closeEach_closes (c := { c with done := update c.done i true }) ih
        (fun d member => member) sound (by omega)
      refine ⟨next, result, nextSound, ?_⟩
      intro p marked
      refine grows p ?_
      by_cases same : p = i
      · rw [same]
        exact update_self _ _ _
      · exact (update_of_ne same _ _).trans marked

theorem closeAll_closes {fuel : Nat} (todo : List P) (sound : plan.Sound c) (enough : plan.remaining c < fuel) :
    ∃ next, plan.closeAll fuel todo c = some next ∧ plan.Sound next := by
  induction todo generalizing c with
  | nil => exact ⟨c, rfl, sound⟩
  | cons i rest ih =>
    obtain ⟨closed, result, closedSound, grows⟩ := close_closes fuel i c sound enough
    obtain ⟨next, looped, nextSound⟩ := ih closedSound ((remaining_le grows).trans_lt enough)
    refine ⟨next, ?_, nextSound⟩
    rw [closeAll, result]
    exact looped

/-- Pipelines that do not wait on one another are counted, each once. -/
theorem sum_le_incomparable {listed : List P} (set : Finset P) (member : ∀ j ∈ set, j ∈ listed)
    (free : ∀ j ∈ set, j ≠ i ∧ c.reaches i j = false ∧ c.reaches j i = false) :
    ∑ j ∈ set, plan.plannedThreads j ≤ plan.incomparable c i listed := by
  induction listed generalizing set with
  | nil =>
    rw [Finset.eq_empty_of_forall_notMem fun j here => List.not_mem_nil (member j here)]
    exact Nat.zero_le _
  | cons j rest ih =>
    rw [incomparable]
    have others := ih (set.erase j)
      (fun k here => (List.mem_cons.mp (member k (Finset.mem_of_mem_erase here))).resolve_left
        (Finset.ne_of_mem_erase here))
      fun k here => free k (Finset.mem_of_mem_erase here)
    by_cases here : j ∈ set
    · rw [← Finset.add_sum_erase set _ here, if_pos (free j here)]
      exact Nat.add_le_add_left others _
    · rw [Finset.erase_eq_of_notMem here] at others
      exact others.trans (Nat.le_add_left _ _)

omit [DecidableEq P] in
theorem le_foldl_max (demand : P → Nat) (listed : List P) (peak : Nat) :
    peak ≤ listed.foldl (fun peak i => max peak (demand i)) peak ∧
      ∀ i ∈ listed, demand i ≤ listed.foldl (fun peak i => max peak (demand i)) peak := by
  induction listed generalizing peak with
  | nil => exact ⟨le_refl peak, fun i member => absurd member List.not_mem_nil⟩
  | cons j rest ih =>
    obtain ⟨least, each⟩ := ih (max peak (demand j))
    refine ⟨(Nat.le_max_left _ _).trans least, ?_⟩
    intro i member
    rcases List.mem_cons.mp member with rfl | later
    · exact (Nat.le_max_right _ _).trans least
    · exact each i later

/-- The heaviest demand of a pipeline bounds every set without waits. -/
theorem sum_le_peak (sound : plan.Sound c) {set : Finset P} (free : ∀ p ∈ set, ∀ q ∈ set, ¬ plan.Waits p q) :
    ∑ p ∈ set, plan.plannedThreads p ≤
      plan.pipelines.foldl (fun peak i => max peak (plan.plannedThreads i + plan.incomparable c i plan.pipelines)) 0 := by
  have unreached (p q : P) (first : p ∈ set) (second : q ∈ set) : c.reaches p q = false :=
    Bool.eq_false_of_not_eq_true fun reached => free p first q second (sound p q reached)
  rcases set.eq_empty_or_nonempty with rfl | ⟨p, member⟩
  · exact Nat.zero_le _
  · rw [← Finset.add_sum_erase set _ member]
    refine le_trans (Nat.add_le_add_left (sum_le_incomparable _ (fun j _ => plan.complete j) ?_) _)
      ((le_foldl_max (fun i => plan.plannedThreads i + plan.incomparable c i plan.pipelines) _ 0).2 p (plan.complete p))
    intro j here
    have inside := Finset.mem_of_mem_erase here
    exact ⟨Finset.ne_of_mem_erase here, unreached p j member inside, unreached j p inside member⟩

theorem peakTaskDemand_spec (plan : Plan P) : ∃ peak, plan.peakTaskDemand = some peak ∧
    ∀ set : Finset P, (∀ p ∈ set, ∀ q ∈ set, ¬ plan.Waits p q) → ∑ p ∈ set, plan.plannedThreads p ≤ peak := by
  have subset (set : Finset P) : ∑ p ∈ set, plan.plannedThreads p ≤ ∑ p ∈ plan.pipelines.toFinset, plan.plannedThreads p :=
    Finset.sum_le_sum_of_subset fun p _ => List.mem_toFinset.mpr (plan.complete p)
  unfold peakTaskDemand
  split
  · next none =>
    refine ⟨0, rfl, fun set _ => (subset set).trans ?_⟩
    rw [none]
    exact le_refl 0
  · next p single =>
    refine ⟨plan.plannedThreads p, rfl, fun set _ => (subset set).trans ?_⟩
    rw [single]
    exact (Finset.sum_singleton plan.plannedThreads p).le
  · have start : plan.Sound ⟨fun _ _ => false, fun _ => false⟩ := fun _ _ reached => by cases reached
    obtain ⟨c, result, sound⟩ := closeAll_closes plan.pipelines start (Nat.lt_succ_of_le List.countP_le_length)
    rw [result]
    exact ⟨_, rfl, fun set free => sum_le_peak sound free⟩

end Plan

/-- `PeakTaskDemand` returns, and if no pipeline's `MaxThreads` has grown when its tasks are created, no set of
pipelines of which none waits on another has more tasks. -/
theorem peakTaskDemand_bounds_overlap (plan : Plan P) (kept : ∀ p, plan.maxThreads p ≤ plan.plannedThreads p) :
    ∃ peak, plan.peakTaskDemand = some peak ∧
      ∀ set : Finset P, (∀ p ∈ set, ∀ q ∈ set, ¬ plan.Waits p q) → ∑ p ∈ set, plan.tasks p ≤ peak := by
  obtain ⟨peak, result, bound⟩ := plan.peakTaskDemand_spec
  refine ⟨peak, result, fun set free => le_trans (Finset.sum_le_sum fun p _ => ?_) (bound set free)⟩
  exact Nat.max_le.mpr ⟨plan.clamped p, kept p⟩

/-- Two independent builds that feed one probe. -/
def twoBuilds : Plan (Fin 3) where
  pipelines := [2, 0, 1]
  dependencies p := match p with | 0 => [] | 1 => [] | 2 => [0, 1]
  dependents p := match p with | 0 => [2] | 1 => [2] | 2 => []
  plannedThreads p := match p with | 0 => 2 | 1 => 3 | 2 => 4
  maxThreads p := match p with | 0 => 2 | 1 => 3 | 2 => 4
  root := 2
  nodup := by decide
  complete := by decide
  clamped := by decide
  edges := by decide
  acyclic := by
    apply Subrelation.wf (r := fun p q : Fin 3 => p < q) _ wellFounded_lt
    intro p q member
    revert p q
    decide

/-- The builds overlap, and their five tasks are what is demanded. -/
theorem peakTaskDemand_bounds_overlap_builds :
    twoBuilds.peakTaskDemand = some 5 ∧ ∑ p ∈ ({0, 1} : Finset (Fin 3)), twoBuilds.tasks p = 5 ∧
      ∀ set : Finset (Fin 3), (∀ p ∈ set, ∀ q ∈ set, ¬ twoBuilds.Waits p q) → ∑ p ∈ set, twoBuilds.tasks p ≤ 5 := by
  have demanded : twoBuilds.peakTaskDemand = some 5 := by decide
  obtain ⟨peak, result, bound⟩ := peakTaskDemand_bounds_overlap twoBuilds (by decide)
  rw [demanded] at result
  cases result
  exact ⟨demanded, by decide, bound⟩

/-- `MaxThreads` of a grace join's source: a task for each probe partition that is not empty, and one for the
rows of a LEFT join whose key is NULL. -/
def graceMaxThreads (probeParts : List Nat) (nullProbeRows : Bool) : Nat :=
  max 1 (probeParts.countP (0 < ·) + nullProbeRows.toNat)

/-- `Pipeline::MaxThreads`: a pipeline whose sink, operators or order ask for it is serial. -/
def pipelineMaxThreads (source limit : Nat) (serial : Bool) : Nat := max 1 (min (if serial then 1 else source) limit)

/-- The pipelines of `SELECT COUNT(*)` over a grace join of two tables of one page. -/
inductive GracePipeline
  | build
  | probe
  | join
  | result
  deriving DecidableEq

def graceCount (probeParts : List Nat) : Plan GracePipeline where
  pipelines := [.result, .join, .build, .probe]
  dependencies
    | .build => []
    | .probe => [.build]
    | .join => [.build, .probe]
    | .result => [.join]
  dependents
    | .build => [.join, .probe]
    | .probe => [.join]
    | .join => [.result]
    | .result => []
  plannedThreads p := pipelineMaxThreads (if p = .join then graceMaxThreads [] false else 1) 8 (p = .result)
  maxThreads p := pipelineMaxThreads (if p = .join then graceMaxThreads probeParts false else 1) 8 (p = .result)
  root := .result
  nodup := by decide
  complete p := by cases p <;> decide
  clamped _ := Nat.le_max_left _ _
  edges p q := by cases p <;> cases q <;> rfl
  acyclic := by
    apply Subrelation.wf _ (measure GracePipeline.ctorIdx).wf
    intro p q member
    show p.ctorIdx < q.ctorIdx
    cases p <;> cases q <;> revert member <;> decide

/-- Eight probe partitions are filled by the time the join's tasks are created: all eight are in the queue, and
the demand was one. -/
theorem peakTaskDemand_misses_grace : (graceCount (List.replicate 8 1)).peakTaskDemand = some 1 ∧
    ∃ log s, Run (executor (Fin 1) (graceCount (List.replicate 8 1))) always log s ∧ s.queue = List.replicate 8 .join := by
  refine ⟨by decide, ?_⟩
  obtain ⟨s, log, run, shown⟩ := exec_shows (M := executor (Fin 1) (graceCount (List.replicate 8 1)))
    (.executeQuery :: List.replicate 23 (.work 0 false)) rfl (fun _ _ _ => trivial) (fun r => r.1.queue)
    (List.replicate 8 .join) (by decide +kernel)
  exact ⟨log, s, run, shown⟩

end BumbleBee.Parallel
