import Mathlib.Data.List.Basic
import Mathlib.Order.WellFounded

/-!
Labelled transition systems with an event log. A step may report events; the log
keeps the newest event first, so that "the last write" is the first entry found.
Runs carry a side condition on every step taken, which is how a theorem speaks
about the runs in which some branch of the program is never entered.
-/

namespace BumbleBee.Library.Transition

structure System (σ α ε : Type) where
  init : σ → Prop
  step : σ → α → Option (σ × List ε)

variable {σ α ε : Type}

/-- Steps taken from `start`, each admitted in the state it is taken in. -/
inductive Stretch (M : System σ α ε) (meets : σ → α → Prop) (start : σ) : List ε → σ → Prop
  | refl : Stretch M meets start [] start
  | step {log : List ε} {s next : σ} {a : α} {events : List ε}
      (before : Stretch M meets start log s) (admitted : meets s a)
      (taken : M.step s a = some (next, events)) : Stretch M meets start (events ++ log) next

def Run (M : System σ α ε) (meets : σ → α → Prop) (log : List ε) (s : σ) : Prop :=
  ∃ start, M.init start ∧ Stretch M meets start log s

/-- The condition met by every step of every run. -/
def always : σ → α → Prop := fun _ _ => True

variable {M : System σ α ε} {meets weaker : σ → α → Prop} {log more : List ε} {s origin after : σ}

theorem Stretch.trans (first : Stretch M meets origin log s) (second : Stretch M meets s more after) :
    Stretch M meets origin (more ++ log) after := by
  induction second with
  | refl => exact first
  | step _ admitted taken ih =>
    rw [List.append_assoc]
    exact Stretch.step ih admitted taken

theorem Stretch.mono (relax : ∀ s a, meets s a → weaker s a) (path : Stretch M meets origin log s) :
    Stretch M weaker origin log s := by
  induction path with
  | refl => exact Stretch.refl
  | step _ admitted taken ih => exact Stretch.step ih (relax _ _ admitted) taken

theorem Run.start (initial : M.init s) : Run M meets [] s := ⟨s, initial, Stretch.refl⟩

theorem Run.extend (run : Run M meets log s) (path : Stretch M meets s more after) :
    Run M meets (more ++ log) after := by
  obtain ⟨start, initial, before⟩ := run
  exact ⟨start, initial, before.trans path⟩

theorem Run.next {a : α} {events : List ε} (run : Run M meets log s) (admitted : meets s a)
    (taken : M.step s a = some (after, events)) : Run M meets (events ++ log) after := by
  obtain ⟨start, initial, before⟩ := run
  exact ⟨start, initial, Stretch.step before admitted taken⟩

theorem Run.mono (relax : ∀ s a, meets s a → weaker s a) (run : Run M meets log s) : Run M weaker log s := by
  obtain ⟨start, initial, path⟩ := run
  exact ⟨start, initial, path.mono relax⟩

/-- What every initial state has and every admitted step keeps holds after every run. -/
theorem Run.invariant {I : List ε → σ → Prop} (initially : ∀ s, M.init s → I [] s)
    (kept : ∀ {log s next a events}, Run M meets log s → I log s → meets s a →
      M.step s a = some (next, events) → I (events ++ log) next)
    (run : Run M meets log s) : I log s := by
  obtain ⟨start, initial, path⟩ := run
  induction path with
  | refl => exact initially start initial
  | step before admitted taken ih => exact kept ⟨start, initial, before⟩ ih admitted taken

theorem Stretch.invariant {base : List ε} {J : List ε → σ → Prop} (reached : Run M meets base origin)
    (first : J base origin)
    (kept : ∀ {log s next a events}, Run M meets log s → J log s → meets s a →
      M.step s a = some (next, events) → J (events ++ log) next)
    (path : Stretch M meets origin log s) : J (log ++ base) s := by
  induction path with
  | refl => exact first
  | step before admitted taken ih =>
    rw [List.append_assoc]
    exact kept (reached.extend before) ih admitted taken

/-- A system whose steps are steps of another, or leave the part of the state the other one has alone,
runs as the other one does. -/
theorem Run.simulate {τ β : Type} {N : System τ β ε} {simulates : τ → β → Prop} (part : σ → τ)
    (initially : ∀ s, M.init s → N.init (part s))
    (matched : ∀ {s next a events}, meets s a → M.step s a = some (next, events) →
      (events = [] ∧ part next = part s) ∨
        ∃ b, simulates (part s) b ∧ N.step (part s) b = some (part next, events))
    (run : Run M meets log s) : Run N simulates log (part s) := by
  refine Run.invariant (I := fun log s => Run N simulates log (part s)) ?_ ?_ run
  · intro s initial
    exact Run.start (initially s initial)
  · intro log s next a events _ simulated admitted taken
    rcases matched admitted taken with ⟨quiet, same⟩ | ⟨b, fits, moved⟩
    · rw [quiet, same]
      exact simulated
    · exact simulated.next fits moved

/-- The program when some steps have no defined effect: such a step leaves what its action carries. -/
def System.faulting (M : System σ α ε) (faults : σ → α → Bool) : System σ (α × σ × List ε) ε where
  init := M.init
  step s a := if faults s a.1 then some a.2 else M.step s a.1

/-- The steps that meet the condition and have a defined effect. -/
def Defined (faults : σ → α → Bool) (meets : σ → α → Prop) (s : σ) (a : α × σ × List ε) : Prop :=
  faults s a.1 = false ∧ meets s a.1

theorem Run.of_faulting {faults : σ → α → Bool} (run : Run (M.faulting faults) (Defined faults meets) log s) :
    Run M meets log s := by
  refine Run.simulate (M := M.faulting faults) id (fun s initial => initial) ?_ run
  intro s next a events admitted taken
  simp only [System.faulting, admitted.1, Bool.false_eq_true, if_false] at taken
  exact .inr ⟨a.1, admitted.2, taken⟩

theorem Run.faulting {faults : σ → α → Bool} (defined : ∀ s a r, M.step s a = some r → faults s a = false)
    (run : Run M meets log s) : Run (M.faulting faults) (Defined faults meets) log s := by
  refine Run.simulate (M := M) id (fun s initial => initial) ?_ run
  intro s next a events admitted taken
  have sound := defined s a _ taken
  refine .inr ⟨(a, next, events), ⟨sound, admitted⟩, ?_⟩
  simp only [System.faulting, id, sound, Bool.false_eq_true, if_false]
  exact taken

/-- Each event of a log stands in the relation to the events before it. -/
def Justified (R : ε → List ε → Prop) : List ε → Prop
  | [] => True
  | e :: earlier => R e earlier ∧ Justified R earlier

/-- Steps can be taken from the state for ever. -/
def System.Endless (M : System σ α ε) (s : σ) : Prop :=
  ∃ path : Nat → σ, path 0 = s ∧ ∀ n, ∃ a events, M.step (path n) a = some (path (n + 1), events)

/-- A measure that every step decreases bounds every run. -/
theorem Run.not_endless {β : Type} [LT β] (wellFounded : WellFounded fun x y : β => x < y) (bound : σ → β)
    (decreases : ∀ {log s next a events}, Run M always log s → M.step s a = some (next, events) →
      bound next < bound s)
    (run : Run M always log s) : ¬ M.Endless s := by
  rintro ⟨path, start, onward⟩
  have reached (n : Nat) : ∃ log, Run M always log (path n) := by
    induction n with
    | zero => exact ⟨log, start ▸ run⟩
    | succ n ih =>
      obtain ⟨log, before⟩ := ih
      obtain ⟨a, events, taken⟩ := onward n
      exact ⟨events ++ log, before.next trivial taken⟩
  obtain ⟨least, ⟨n, rfl⟩, minimal⟩ := wellFounded.has_min (Set.range fun n => bound (path n)) ⟨_, 0, rfl⟩
  obtain ⟨log, before⟩ := reached n
  obtain ⟨a, events, taken⟩ := onward n
  exact minimal _ ⟨n + 1, rfl⟩ (decreases before taken)

/-- Runs the listed actions in order; `none` when one of them is not enabled. -/
def exec (M : System σ α ε) : σ → List ε → List α → Option (σ × List ε)
  | s, log, [] => some (s, log)
  | s, log, a :: rest =>
    match M.step s a with
    | none => none
    | some (next, events) => exec M next (events ++ log) rest

/-- A component of the state, read after one of them was written. -/
theorem of_update {ι β : Type} [DecidableEq ι] {f : ι → β} {i j : ι} {new value : β}
    (read : Function.update f i new j = value) : (j = i ∧ new = value) ∨ (j ≠ i ∧ f j = value) := by
  by_cases same : j = i
  · rw [same, Function.update_self] at read
    exact .inl ⟨same, read⟩
  · rw [Function.update_of_ne same] at read
    exact .inr ⟨same, read⟩

theorem eq_of_some_pair {r : σ × List ε} (done : some r = some (after, log)) : after = r.1 ∧ log = r.2 := by
  cases done
  exact ⟨rfl, rfl⟩

theorem exec_run (actions : List α) (run : Run M meets log s) (admitted : ∀ a ∈ actions, ∀ s, meets s a)
    (result : exec M s log actions = some (after, more)) : Run M meets more after := by
  induction actions generalizing s log with
  | nil =>
    obtain ⟨rfl, rfl⟩ := result
    exact run
  | cons a rest ih =>
    simp only [exec] at result
    split at result
    · cases result
    · next taken =>
      exact ih (run.next (admitted a (by simp) s) taken) (fun b member => admitted b (by simp [member])) result

theorem exec_run_cons {a : α} (rest : List α) (run : Run M meets log s) (first : meets s a)
    (admitted : ∀ b ∈ rest, ∀ s, meets s b) (result : exec M s log (a :: rest) = some (after, more)) :
    Run M meets more after := by
  simp only [exec] at result
  split at result
  · cases result
  · next taken => exact exec_run rest (run.next first taken) admitted result

/-- What an execution from an initial state shows is shown by a run. -/
theorem exec_shows {β : Type} (actions : List α) (initial : M.init s) (admitted : ∀ a ∈ actions, ∀ s, meets s a)
    (observe : σ × List ε → β) (shown : β) (result : (exec M s [] actions).map observe = some shown) :
    ∃ after more, Run M meets more after ∧ observe (after, more) = shown := by
  obtain ⟨⟨after, more⟩, executed, same⟩ := Option.map_eq_some_iff.mp result
  exact ⟨after, more, exec_run actions (Run.start initial) admitted executed, same⟩

/-- Runs the listed actions, each tested in the state it is taken in. -/
def execChecked (M : System σ α ε) (check : σ → α → Bool) : σ → List ε → List α → Option (σ × List ε)
  | s, log, [] => some (s, log)
  | s, log, a :: rest =>
    if check s a then
      match M.step s a with
      | none => none
      | some (next, events) => execChecked M check next (events ++ log) rest
    else none

theorem execChecked_run {check : σ → α → Bool} (sound : ∀ s a, check s a = true → meets s a) (actions : List α)
    (run : Run M meets log s) (result : execChecked M check s log actions = some (after, more)) :
    Run M meets more after := by
  induction actions generalizing s log with
  | nil =>
    obtain ⟨rfl, rfl⟩ := result
    exact run
  | cons a rest ih =>
    simp only [execChecked] at result
    split at result
    · next passed =>
      split at result
      · cases result
      · next taken => exact ih (run.next (sound s a passed) taken) result
    · cases result

/-- What a tested execution from an initial state shows is shown by a run. -/
theorem execChecked_shows {β : Type} {check : σ → α → Bool} (sound : ∀ s a, check s a = true → meets s a)
    (actions : List α) (initial : M.init s) (observe : σ × List ε → β) (shown : β)
    (result : (execChecked M check s [] actions).map observe = some shown) :
    ∃ after more, Run M meets more after ∧ observe (after, more) = shown := by
  obtain ⟨⟨after, more⟩, executed, same⟩ := Option.map_eq_some_iff.mp result
  exact ⟨after, more, execChecked_run sound actions (Run.start initial) executed, same⟩

end BumbleBee.Library.Transition
