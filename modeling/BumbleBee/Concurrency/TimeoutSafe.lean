import BumbleBee.Concurrency.TimeoutGc
import BumbleBee.Library.Ledger

/-!
When the timeout phase of garbage collection is safe. A statement counts itself
before it looks at the cancellation flag, and the collector sets the flag before it
looks at the count, so of the two at least one sees the other. The mutex keeps a
commit and a rollback apart. What is left open is a transaction that commits after
the collector has read its state and before the collector asks for cancellation.
-/

namespace BumbleBee.Concurrency
open Library.Transition Library.Ledger Function

/-- The entries a session has counted and not decided. -/
def SessionPoint.entries : SessionPoint → Nat
  | .counted | .loaded _ => 1
  | .free | .entering | .tainting | .lockingCommit | .committing | .lockingAbort | .rollingBack _ => 0

def SessionPoint.holds : SessionPoint → Nat
  | .committing | .rollingBack _ => 1
  | .free | .entering | .counted | .loaded _ | .tainting | .lockingCommit | .lockingAbort => 0

namespace CollectorPoint
variable {I : Type} [DecidableEq I]

def holds (id : I) : CollectorPoint I → Nat
  | .rollingBack other _ _ => if other = id then 1 else 0
  | _ => 0

/-- The collector has asked for the transaction's cancellation. -/
def Asked (id : I) : CollectorPoint I → Prop
  | .counting other _ | .lockingAbort other _ | .rollingBack other _ _ => other = id
  | _ => False

/-- The collector has found no active statement. -/
def Found (id : I) : CollectorPoint I → Prop
  | .lockingAbort other _ | .rollingBack other _ _ => other = id
  | _ => False

def Rolls (id : I) : CollectorPoint I → Prop
  | .rollingBack other _ _ => other = id
  | _ => False

variable {x : CollectorPoint I}

omit [DecidableEq I] in
theorem Rolls.found {id : I} (rolls : x.Rolls id) : x.Found id := by
  cases x <;> first | exact rolls | exact rolls.elim

omit [DecidableEq I] in
theorem Found.asked {id : I} (found : x.Found id) : x.Asked id := by
  cases x <;> first | exact found | exact found.elim

end CollectorPoint

namespace Finalization

/-- What a session's own steps keep about its transaction. -/
structure Sound (t : TxnControl) (x : SessionState) : Prop where
  counted : t.activeStatements = x.depth + x.point.entries
  loaded : x.point = .loaded true → t.isOpen = true ∨ t.cancellationRequested = true
  tainting : x.point = .tainting → t.state = .running ∧ 0 < x.depth
  rolling : ∀ rows, x.point = .rollingBack rows → t.isOpen = true
  committing : x.point = .committing → t.cancellationRequested = false

/-- What a step of the session does to its transaction. -/
structure Steps (t : TxnControl) (x : SessionState) (t' : TxnControl) (x' : SessionState) (committed : Bool) :
    Prop where
  sound : Sound t' x'
  mutex : t'.finalizeMutex.toNat + x.point.holds = t.finalizeMutex.toNat + x'.point.holds
  cancelled : t'.cancellationRequested = t.cancellationRequested
  closed : t.isOpen = false → t'.isOpen = false
  kept : t.isOpen = true → x.point.holds = 0 → t'.isOpen = true
  entered : x.depth = 0 → 0 < x'.depth → t.cancellationRequested = false ∧ t.isOpen = true
  published : committed = true → t'.state = .committed
  permanent : t.state = .committed → t'.state = .committed
  earlier : t'.state = .committed →
    t.state = .committed ∨ t.cancellationRequested = false ∧ t.isOpen = true

variable {t : TxnControl}

theorem isOpen_of_running (running : t.state = .running) : t.isOpen = true := by
  simp [TxnControl.isOpen, running]

variable {committed : Bool}

theorem advanceSession_steps {t' : TxnControl} {x x' : SessionState} {outcome : Bool}
    (sound : Sound t x) (mutex : x.point.holds = 1 → t.finalizeMutex = true)
    (advanced : advanceSession t x outcome = some (t', x', committed)) : Steps t x t' x' committed := by
  obtain ⟨point, depth⟩ := x
  revert advanced
  fun_cases advanceSession t ⟨point, depth⟩ outcome with
  | case3 here =>
    cases here
    rintro ⟨⟩
    constructor <;> grind [Sound, SessionPoint.entries, SessionPoint.holds]
  | _ =>
    rintro ⟨⟩ <;> constructor <;>
      grind [Sound, SessionPoint.entries, SessionPoint.holds, TxnControl.isOpen]

theorem callSession_steps {t' : TxnControl} {x x' : SessionState} {call : SessionCall}
    (sound : Sound t x) (mutex : x.point.holds = 1 → t.finalizeMutex = true)
    (called : callSession t x call = some (t', x', committed)) : Steps t x t' x' committed := by
  revert called
  fun_cases callSession t x call with
  | case1 outcome => exact advanceSession_steps sound mutex
  | _ =>
    rintro ⟨⟩ <;> constructor <;>
      grind [Sound, SessionPoint.entries, SessionPoint.holds, TxnControl.isOpen]

/-- A collector rolls back no row of a committed transaction. -/
def Harmless {I : Type} : FinalizationEvent I → List (FinalizationEvent I) → Prop
  | .rolledBack id, earlier => .committed id ∉ earlier
  | .committed _, _ | .threw, _ => True

structure Guarded {I C : Type} [DecidableEq I] [Fintype C] (log : List (FinalizationEvent I))
    (s : Finalization I C) : Prop where
  sound : ∀ id, Sound (s.txn id) (s.session id)
  mutex : ∀ id, (s.txn id).finalizeMutex.toNat =
    (s.session id).point.holds + ∑ c, (s.collector c).holds id
  asked : ∀ c id, (s.collector c).Asked id →
    (s.txn id).cancellationRequested = true ∨ (s.txn id).isOpen = false
  found : ∀ c id, (s.collector c).Found id → (s.session id).depth = 0
  rolls : ∀ c id, (s.collector c).Rolls id → (s.txn id).isOpen = true
  committed : ∀ id, .committed id ∈ log → (s.txn id).state = .committed
  harmless : Justified Harmless log

variable {I C : Type} [DecidableEq I] [Fintype C] {log : List (FinalizationEvent I)} {s : Finalization I C}

theorem Initial.guarded (initial : s.Initial) : Guarded [] s := by
  obtain ⟨fresh, idle⟩ := initial
  constructor
  · intro id
    rw [(fresh id).1, (fresh id).2]
    constructor <;> simp [SessionPoint.entries]
  · simp [fresh, idle, SessionPoint.holds, CollectorPoint.holds]
  · intro c id asked
    rw [idle] at asked
    exact asked.elim
  · intro c id found
    rw [idle] at found
    exact found.elim
  · intro c id rolls
    rw [idle] at rolls
    exact rolls.elim
  · intro id member
    cases member
  · trivial

variable {c : C}

theorem Guarded.holder (guarded : Guarded log s) {id : I} (rolls : (s.collector c).Rolls id) :
    (s.txn id).finalizeMutex = true ∧ (s.session id).point.holds = 0 ∧
      ∀ d, (s.collector d).Rolls id → d = c := by
  have one {d : C} (also : (s.collector d).Rolls id) : (s.collector d).holds id = 1 := by
    cases place : s.collector d <;> rw [place] at also <;> first | exact also.elim | exact if_pos also
  have counted := guarded.mutex id
  have most := Bool.toNat_le (s.txn id).finalizeMutex
  have part := Finset.single_le_sum (f := fun d => (s.collector d).holds id) (fun _ _ => Nat.zero_le _)
    (Finset.mem_univ c)
  simp only [one rolls] at part
  refine ⟨?_, by omega, ?_⟩
  · cases locked : (s.txn id).finalizeMutex with
    | true => rfl
    | false =>
      rw [locked] at counted
      simp only [Bool.toNat_false] at counted
      omega
  · intro d also
    by_contra apart
    have pair := Finset.add_le_sum (f := fun d => (s.collector d).holds id) (fun _ _ => Nat.zero_le _)
      (Finset.mem_univ d) (Finset.mem_univ c) apart
    simp only [one also, one rolls] at pair
    omega

theorem Guarded.locked (guarded : Guarded log s) {id : I} (holds : (s.session id).point.holds = 1) :
    (s.txn id).finalizeMutex = true := by
  have counted := guarded.mutex id
  cases flag : (s.txn id).finalizeMutex with
  | true => rfl
  | false =>
    rw [flag] at counted
    simp only [Bool.toNat_false] at counted
    omega

theorem Guarded.session (guarded : Guarded log s) {id : I} {call : SessionCall} {x : SessionState}
    (called : callSession (s.txn id) (s.session id) call = some (t, x, committed)) :
    Guarded ((if committed then [.committed id] else []) ++ log) (s.setSession id t x) := by
  have steps := callSession_steps (guarded.sound id) guarded.locked called
  have other {j : I} (apart : j ≠ id) : (s.setSession id t x).txn j = s.txn j ∧
      (s.setSession id t x).session j = s.session j :=
    ⟨update_of_ne apart .., update_of_ne apart ..⟩
  have own : (s.setSession id t x).txn id = t ∧ (s.setSession id t x).session id = x :=
    ⟨update_self .., update_self ..⟩
  constructor
  · intro j
    by_cases same : j = id
    · subst same
      rw [own.1, own.2]
      exact steps.sound
    · rw [(other same).1, (other same).2]
      exact guarded.sound j
  · intro j
    by_cases same : j = id
    · subst same
      rw [own.1, own.2]
      have before := guarded.mutex j
      have moved := steps.mutex
      change t.finalizeMutex.toNat = x.point.holds + ∑ c, (s.collector c).holds j
      omega
    · rw [(other same).1, (other same).2]
      exact guarded.mutex j
  · intro c j asked
    by_cases same : j = id
    · subst same
      rw [own.1, steps.cancelled]
      exact (guarded.asked c j asked).imp_right steps.closed
    · rw [(other same).1]
      exact guarded.asked c j asked
  · intro c j found
    by_cases same : j = id
    · subst same
      rw [own.2]
      by_contra some
      obtain ⟨quiet, isOpen⟩ := steps.entered (guarded.found c j found) (Nat.pos_of_ne_zero some)
      rcases guarded.asked c j found.asked with cancelled | closed
      · rw [quiet] at cancelled
        cases cancelled
      · rw [isOpen] at closed
        cases closed
    · rw [(other same).2]
      exact guarded.found c j found
  · intro c j rolls
    by_cases same : j = id
    · subst same
      rw [own.1]
      exact steps.kept (guarded.rolls c j rolls) (guarded.holder rolls).2.1
    · rw [(other same).1]
      exact guarded.rolls c j rolls
  · intro j member
    by_cases same : j = id
    · subst same
      rw [own.1]
      rcases List.mem_append.mp member with new | old
      · cases committed with
        | true => exact steps.published rfl
        | false => cases new
      · exact steps.permanent (guarded.committed j old)
    · rw [(other same).1]
      apply guarded.committed
      cases committed with
      | true => simpa [same] using member
      | false => exact member
  · cases committed with
    | true => exact ⟨trivial, guarded.harmless⟩
    | false => exact guarded.harmless

/-- What a step of a collector to `x` does to a transaction. -/
structure Takes (s : Finalization I C) (c : C) (x : CollectorPoint I) (id : I) (t : TxnControl) : Prop where
  sound : Sound t (s.session id)
  mutex : t.finalizeMutex.toNat + (s.collector c).holds id = (s.txn id).finalizeMutex.toNat + x.holds id
  cancelled : (s.txn id).cancellationRequested = true → t.cancellationRequested = true
  closed : (s.txn id).isOpen = false → t.isOpen = false
  asked : x.Asked id → t.cancellationRequested = true ∨ t.isOpen = false
  found : x.Found id → (s.session id).depth = 0
  rolls : x.Rolls id → t.isOpen = true
  kept : ∀ d, d ≠ c → (s.collector d).Rolls id → t.isOpen = true
  committed : t.state = .committed ↔ (s.txn id).state = .committed

variable [DecidableEq C] {events : List (FinalizationEvent I)} {x : CollectorPoint I}

section
variable (guarded : Guarded log s)
include guarded

theorem Guarded.collector {txn : I → TxnControl} (takes : ∀ id, Takes s c x id (txn id))
    (quiet : ∀ id, .committed id ∉ events) (harmless : Justified Harmless (events ++ log)) :
    Guarded (events ++ log) { s with txn := txn, collector := update s.collector c x } := by
  have moved (P : CollectorPoint I → Prop) {d : C} (holds : P (update s.collector c x d)) :
      d = c ∧ P x ∨ d ≠ c ∧ P (s.collector d) := by
    by_cases same : d = c
    · subst same
      rw [update_self] at holds
      exact .inl ⟨rfl, holds⟩
    · rw [update_of_ne same] at holds
      exact .inr ⟨same, holds⟩
  constructor
  · intro id
    exact (takes id).sound
  · intro id
    have moves : ∑ d, (update s.collector c x d).holds id + (s.collector c).holds id =
        ∑ d, (s.collector d).holds id + x.holds id := by
      apply sum_update
      exact Finset.mem_univ c
    have before := guarded.mutex id
    have change := (takes id).mutex
    show (txn id).finalizeMutex.toNat =
      (s.session id).point.holds + ∑ d, (update s.collector c x d).holds id
    omega
  · intro d id asked
    rcases moved (CollectorPoint.Asked id) asked with ⟨rfl, new⟩ | ⟨apart, old⟩
    · exact (takes id).asked new
    · exact (guarded.asked d id old).imp (takes id).cancelled (takes id).closed
  · intro d id found
    rcases moved (CollectorPoint.Found id) found with ⟨rfl, new⟩ | ⟨apart, old⟩
    · exact (takes id).found new
    · exact guarded.found d id old
  · intro d id rolls
    rcases moved (CollectorPoint.Rolls id) rolls with ⟨rfl, new⟩ | ⟨apart, old⟩
    · exact (takes id).rolls new
    · exact (takes id).kept d apart old
  · intro id member
    rcases List.mem_append.mp member with new | old
    · exact absurd new (quiet id)
    · exact (takes id).committed.mpr (guarded.committed id old)
  · exact harmless

omit [DecidableEq C] in
theorem Guarded.stays {id : I} (same : (s.collector c).holds id = x.holds id)
    (asked : x.Asked id → (s.collector c).Asked id) (found : x.Found id → (s.session id).depth = 0)
    (rolls : x.Rolls id → (s.collector c).Rolls id) : Takes s c x id (s.txn id) where
  sound := guarded.sound id
  mutex := by rw [same]
  cancelled flag := flag
  closed flag := flag
  asked now := guarded.asked c id (asked now)
  found := found
  rolls now := guarded.rolls c id (rolls now)
  kept d _ now := guarded.rolls d id now
  committed := Iff.rfl

theorem Guarded.moves (quiet : ∀ id, .committed id ∉ events) (harmless : Justified Harmless (events ++ log))
    (same : ∀ id, (s.collector c).holds id = x.holds id) (asked : ∀ id, x.Asked id → (s.collector c).Asked id)
    (found : ∀ id, x.Found id → (s.session id).depth = 0) (rolls : ∀ id, x.Rolls id → (s.collector c).Rolls id) :
    Guarded (events ++ log) (s.moveCollector c x) := by
  apply guarded.collector _ quiet harmless
  intro id
  exact guarded.stays (same id) (asked id) (found id) (rolls id)

theorem Guarded.sets {id : I} (quiet : ∀ id, .committed id ∉ events)
    (harmless : Justified Harmless (events ++ log)) (own : Takes s c x id t)
    (same : ∀ j, j ≠ id → (s.collector c).holds j = x.holds j) (others : ∀ j, j ≠ id → ¬ x.Asked j) :
    Guarded (events ++ log) (s.setCollector c id t x) := by
  apply guarded.collector _ quiet harmless
  intro j
  by_cases equal : j = id
  · subst equal
    rw [update_self]
    exact own
  · rw [update_of_ne equal]
    apply guarded.stays (same j equal)
    · intro asked
      exact absurd asked (others j equal)
    · intro found
      exact absurd found.asked (others j equal)
    · intro rolls
      exact absurd rolls.found.asked (others j equal)

end

omit [DecidableEq I] [Fintype C] [DecidableEq C] in
theorem requestCancellation_spec (t : TxnControl) :
    (requestCancellation t).finalizeMutex = t.finalizeMutex ∧
      (requestCancellation t).activeStatements = t.activeStatements ∧
      (requestCancellation t).state = t.state ∧
      (t.cancellationRequested = true → (requestCancellation t).cancellationRequested = true) ∧
      ((requestCancellation t).cancellationRequested = true ∨ t.isOpen = false) := by
  unfold requestCancellation
  split
  · simp
  · simp_all

omit [DecidableEq I] [Fintype C] [DecidableEq C] in
theorem isOpen_congr {u : TxnControl} (same : t.state = u.state) : t.isOpen = u.isOpen := by
  rw [TxnControl.isOpen, TxnControl.isOpen, same]

variable {rest : List I}

section
variable (guarded : Guarded log s)
include guarded

theorem Guarded.cancels {id : I} (place : s.collector c = .cancelling id rest)
    (unlocked : (s.txn id).finalizeMutex = false) :
    Guarded ([] ++ log) (s.setCollector c id (requestCancellation (s.txn id)) (.counting id rest)) := by
  obtain ⟨mutex, count, state, flag, asked⟩ := requestCancellation_spec (s.txn id)
  have unchanged := isOpen_congr state
  have sound := guarded.sound id
  have free : (s.session id).point.holds = 0 := by
    have counted := guarded.mutex id
    rw [unlocked, Bool.toNat_false] at counted
    omega
  apply guarded.sets (fun _ => List.not_mem_nil) guarded.harmless
  · constructor
    · constructor
      · rw [count]
        exact sound.counted
      · intro loaded
        rw [unchanged]
        exact (sound.loaded loaded).imp_right flag
      · rw [state]
        exact sound.tainting
      · rw [unchanged]
        exact sound.rolling
      · intro committing
        rw [committing] at free
        cases free
    · rw [mutex, place]
      rfl
    · exact flag
    · intro closed
      rw [unchanged]
      exact closed
    · intro _
      rw [unchanged]
      exact asked
    · intro found
      exact found.elim
    · intro rolls
      exact rolls.elim
    · intro d _ rolls
      rw [unchanged]
      exact guarded.rolls d id rolls
    · rw [state]
  · intro j _
    rw [place]
    rfl
  · intro j apart asked
    exact apart asked.symm

theorem Guarded.begins {id : I} (rows : Nat) (place : s.collector c = .lockingAbort id rest)
    (unlocked : (s.txn id).finalizeMutex = false) (isOpen : (s.txn id).isOpen = true) : Guarded ([] ++ log)
      (s.setCollector c id { s.txn id with finalizeMutex := true } (.rollingBack id rows rest)) := by
  have sound := guarded.sound id
  have asked := guarded.asked c id
  have found := guarded.found c id
  rw [place] at asked found
  apply guarded.sets (fun _ => List.not_mem_nil) guarded.harmless
  · constructor
    · exact ⟨sound.counted, sound.loaded, sound.tainting, sound.rolling, sound.committing⟩
    · simp [place, unlocked, CollectorPoint.holds]
    · exact fun flag => flag
    · exact fun closed => closed
    · exact asked
    · exact found
    · exact fun _ => isOpen
    · exact fun _ _ _ => isOpen
    · exact Iff.rfl
  · intro j apart
    rw [place]
    exact (if_neg (Ne.symm apart)).symm
  · intro j apart asked
    exact apart asked.symm

theorem Guarded.throws {id : I} {rows : Nat} (place : s.collector c = .rollingBack id rows rest) :
    Guarded ([.threw] ++ log) (s.setCollector c id { s.txn id with finalizeMutex := false } .idle) := by
  have sound := guarded.sound id
  have rolls : (s.collector c).Rolls id := by
    rw [place]
    rfl
  have locked := (guarded.holder rolls).1
  have isOpen := guarded.rolls c id rolls
  have harmless : Justified Harmless ([.threw] ++ log) := ⟨trivial, guarded.harmless⟩
  apply guarded.sets (by simp) harmless
  · constructor
    · exact ⟨sound.counted, sound.loaded, sound.tainting, sound.rolling, sound.committing⟩
    · simp [place, locked, CollectorPoint.holds]
    · exact fun flag => flag
    · exact fun closed => closed
    · exact fun asked => asked.elim
    · exact fun found => found.elim
    · exact fun now => now.elim
    · exact fun _ _ _ => isOpen
    · exact Iff.rfl
  · intro j apart
    rw [place]
    exact if_neg (Ne.symm apart)
  · intro j _ asked
    exact asked

omit [DecidableEq C] in
theorem Guarded.uncommitted {id : I} (rolls : (s.collector c).Rolls id) : .committed id ∉ log := by
  intro member
  have isOpen := guarded.rolls c id rolls
  rw [TxnControl.isOpen, guarded.committed id member] at isOpen
  cases isOpen

theorem Guarded.finishes {id : I} {rows : Nat} (place : s.collector c = .rollingBack id rows rest) :
    Guarded ([.rolledBack id] ++ log)
      (s.setCollector c id { s.txn id with state := .aborted, finalizeMutex := false } (.reaping rest)) := by
  have sound := guarded.sound id
  have rolls : (s.collector c).Rolls id := by
    rw [place]
    rfl
  have isOpen := guarded.rolls c id rolls
  obtain ⟨locked, free, alone⟩ := guarded.holder rolls
  have cancelled : (s.txn id).cancellationRequested = true := by
    rcases guarded.asked c id rolls.found.asked with flag | closed
    · exact flag
    · rw [isOpen] at closed
      cases closed
  have harmless : Justified Harmless ([.rolledBack id] ++ log) := ⟨guarded.uncommitted rolls, guarded.harmless⟩
  apply guarded.sets (by simp) harmless
  · constructor
    · constructor
      · exact sound.counted
      · exact fun _ => .inr cancelled
      · intro tainting
        have active := (sound.tainting tainting).2
        rw [guarded.found c id rolls.found] at active
        cases active
      · intro rows rolling
        rw [rolling] at free
        cases free
      · intro committing
        rw [committing] at free
        cases free
    · simp [place, locked, CollectorPoint.holds]
    · exact fun flag => flag
    · exact fun _ => rfl
    · exact fun asked => asked.elim
    · exact fun found => found.elim
    · exact fun now => now.elim
    · intro d apart also
      exact absurd (alone d also) apart
    · constructor
      · intro impossible
        cases impossible
      · intro done
        rw [TxnControl.isOpen, done] at isOpen
        cases isOpen
  · intro j apart
    rw [place]
    exact if_neg (Ne.symm apart)
  · intro j _ asked
    exact asked

theorem Guarded.releases (quiet : ∀ id, .committed id ∉ events) (harmless : Justified Harmless (events ++ log))
    (before : ∀ id, (s.collector c).holds id = 0) (after : ∀ id, x.holds id = 0 ∧ ¬ x.Asked id) :
    Guarded (events ++ log) (s.moveCollector c x) := by
  apply guarded.moves quiet harmless
  · intro id
    rw [before id, (after id).1]
  · intro id asked
    exact absurd asked (after id).2
  · intro id found
    exact absurd found.asked (after id).2
  · intro id rolls
    exact absurd rolls.found.asked (after id).2

end

/-- What a step of a collector does. -/
inductive Reaps (s : Finalization I C) (c : C) (fits : Bool) :
    Finalization I C → List (FinalizationEvent I) → Prop
  | lets {y} (before : ∀ id, (s.collector c).holds id = 0) (after : ∀ id, y.holds id = 0 ∧ ¬ y.Asked id) :
      Reaps s c fits (s.moveCollector c y) []
  | refused {id rest} (place : s.collector c = .lockingAbort id rest) (done : (s.txn id).state = .committed) :
      Reaps s c fits (s.moveCollector c .idle) [.threw]
  | cancels {id rest} (place : s.collector c = .cancelling id rest) (unlocked : (s.txn id).finalizeMutex = false) :
      Reaps s c fits (s.setCollector c id (requestCancellation (s.txn id)) (.counting id rest)) []
  | counts {id rest} (place : s.collector c = .counting id rest) (none : (s.txn id).activeStatements = 0) :
      Reaps s c fits (s.moveCollector c (.lockingAbort id rest)) []
  | begins {id rest} (place : s.collector c = .lockingAbort id rest) (unlocked : (s.txn id).finalizeMutex = false)
      (isOpen : (s.txn id).isOpen = true) :
      Reaps s c fits (s.setCollector c id { s.txn id with finalizeMutex := true }
        (.rollingBack id (s.txn id).writes rest)) []
  | throws {id rows rest} (place : s.collector c = .rollingBack id (rows + 1) rest) (failed : fits = false) :
      Reaps s c fits (s.setCollector c id { s.txn id with finalizeMutex := false } .idle) [.threw]
  | rolls {id rows rest} (place : s.collector c = .rollingBack id (rows + 1) rest) :
      Reaps s c fits (s.moveCollector c (.rollingBack id rows rest)) [.rolledBack id]
  | finishes {id rest} (place : s.collector c = .rollingBack id 0 rest) :
      Reaps s c fits (s.setCollector c id { s.txn id with state := .aborted, finalizeMutex := false }
        (.reaping rest)) [.rolledBack id]

variable {next : Finalization I C} {fits : Bool}

omit [Fintype C] in
theorem reaps_of_reap (reaped : s.reap c fits = some (next, events)) : Reaps s c fits next events := by
  have lets (quiet : ∀ id, (s.collector c).holds id = 0) (x : CollectorPoint I)
      (after : ∀ id, x.holds id = 0 ∧ ¬ x.Asked id) : Reaps s c fits (s.moveCollector c x) [] := .lets quiet after
  revert reaped
  fun_cases Finalization.reap s c fits with
  | case1 | case5 | case9 => rintro ⟨⟩
  | case2 place | case3 _ _ place | case4 _ _ place | case8 _ _ place | case10 _ _ place | case17 place =>
    rintro ⟨⟩
    exact lets (by simp [place, CollectorPoint.holds]) _ fun _ => ⟨rfl, fun asked => asked⟩
  | case6 _ _ place unlocked =>
    rintro ⟨⟩
    exact .cancels place (Bool.eq_false_of_not_eq_true unlocked)
  | case7 _ _ place none =>
    rintro ⟨⟩
    exact .counts place none
  | case11 _ _ place _ done =>
    rintro ⟨⟩
    exact .refused place done
  | case12 _ _ place unlocked running =>
    rintro ⟨⟩
    exact .begins place (Bool.eq_false_of_not_eq_true unlocked) (isOpen_of_running running)
  | case13 _ _ place unlocked tainted =>
    rintro ⟨⟩
    exact .begins place (Bool.eq_false_of_not_eq_true unlocked) (by simp [TxnControl.isOpen, tainted])
  | case14 _ _ _ place =>
    rintro ⟨⟩
    exact .rolls place
  | case15 _ _ _ place outgrown =>
    rintro ⟨⟩
    exact .throws place (Bool.eq_false_of_not_eq_true outgrown)
  | case16 _ _ place =>
    rintro ⟨⟩
    exact .finishes place

theorem Guarded.reap (guarded : Guarded log s) (reaped : s.reap c fits = some (next, events)) :
    Guarded (events ++ log) next := by
  have none_committed (id : I) : FinalizationEvent.committed id ∉ [] := List.not_mem_nil
  cases reaps_of_reap reaped with
  | lets before after => exact guarded.releases none_committed guarded.harmless before after
  | refused place =>
    exact guarded.releases (by simp) (show Justified Harmless ([.threw] ++ log) from ⟨trivial, guarded.harmless⟩)
      (by simp [place, CollectorPoint.holds]) fun _ => ⟨rfl, fun asked => asked⟩
  | cancels place unlocked => exact guarded.cancels place unlocked
  | @counts id rest place none =>
    apply guarded.moves none_committed guarded.harmless
    · intro j
      rw [place]
      rfl
    · intro j asked
      rw [place]
      exact asked
    · intro j found
      have counted := (guarded.sound id).counted
      cases found
      omega
    · intro j rolls
      exact rolls.elim
  | begins place unlocked isOpen => exact guarded.begins _ place unlocked isOpen
  | throws place => exact guarded.throws place
  | @rolls id rows rest place =>
    have rolls : (s.collector c).Rolls id := by
      rw [place]
      rfl
    have harmless : Justified Harmless ([.rolledBack id] ++ log) := ⟨guarded.uncommitted rolls, guarded.harmless⟩
    apply guarded.moves (by simp) harmless
    · intro j
      rw [place]
      rfl
    · intro j asked
      rw [place]
      exact asked
    · intro j found
      cases found
      exact guarded.found c id rolls.found
    · intro j now
      rw [place]
      exact now
  | finishes place => exact guarded.finishes place

variable {a : FinalizationAction I C}

theorem Guarded.step (guarded : Guarded log s) (taken : s.step a = some (next, events)) :
    Guarded (events ++ log) next := by
  cases a with
  | session id call =>
    simp only [Finalization.step] at taken
    split at taken
    · cases taken
    · rename_i t x committed called
      cases taken
      exact guarded.session called
  | collect c expired =>
    simp only [Finalization.step, Option.ite_none_right_eq_some, Option.some.injEq, Prod.mk.injEq] at taken
    obtain ⟨idle, rfl, rfl⟩ := taken
    apply guarded.releases (fun _ => List.not_mem_nil) guarded.harmless
    · intro id
      rw [idle]
      rfl
    · exact fun _ => ⟨rfl, fun asked => asked⟩
  | reap c fits => exact guarded.reap taken

/-- A transaction has not committed when a collector finds it without an active statement, and the pre-image
of every row it rolls back fits its page. -/
def Timely (s : Finalization I C) : FinalizationAction I C → Prop
  | .reap c fits =>
    match s.collector c with
    | .counting id _ => (s.txn id).activeStatements = 0 → (s.txn id).state ≠ .committed
    | .rollingBack _ (_ + 1) _ => fits = true
    | _ => True
  | .session _ _ | .collect _ _ => True

structure Prompt (log : List (FinalizationEvent I)) (s : Finalization I C) : Prop where
  guarded : Guarded log s
  pending : ∀ c id, (s.collector c).Found id → (s.txn id).state ≠ .committed
  calm : .threw ∉ log

omit [Fintype C] in
theorem reap_timely (pending : ∀ c id, (s.collector c).Found id → (s.txn id).state ≠ .committed)
    (timely : s.Timely (.reap c fits)) (reaped : s.reap c fits = some (next, events)) :
    (∀ d id, (next.collector d).Found id → (next.txn id).state ≠ .committed) ∧ .threw ∉ events := by
  have elsewhere {d : C} {id : I} {x : CollectorPoint I}
      (found : (update s.collector c x d).Found id) (new : x.Found id → (s.txn id).state ≠ .committed) :
      (s.txn id).state ≠ .committed := by
    by_cases same : d = c
    · subst same
      rw [update_self] at found
      exact new found
    · rw [update_of_ne same] at found
      exact pending d id found
  have moved {x : CollectorPoint I} (new : ∀ id, x.Found id → (s.txn id).state ≠ .committed) :
      ∀ d id, ((s.moveCollector c x).collector d).Found id →
        ((s.moveCollector c x).txn id).state ≠ .committed := by
    intro d id found
    exact elsewhere found (new id)
  have set {x : CollectorPoint I} {j : I} {t : TxnControl}
      (new : ∀ id, x.Found id → (s.txn id).state ≠ .committed)
      (kept : t.state = .committed → (s.txn j).state = .committed) :
      ∀ d id, ((s.setCollector c j t x).collector d).Found id →
        ((s.setCollector c j t x).txn id).state ≠ .committed := by
    intro d id found
    have before := elsewhere found (new id)
    by_cases same : id = j
    · subst same
      simp only [setCollector, update_self]
      exact fun done => before (kept done)
    · simp only [setCollector, update_of_ne same]
      exact before
  have here (id : I) := pending c id
  cases reaps_of_reap reaped with
  | lets _ after => exact ⟨moved fun id found => absurd found.asked (after id).2, List.not_mem_nil⟩
  | @refused id rest place done =>
    rw [place] at here
    exact absurd done (here id rfl)
  | @cancels id rest place =>
    refine ⟨set (fun _ found => found.elim) ?_, List.not_mem_nil⟩
    rw [(requestCancellation_spec (s.txn id)).2.2.1]
    exact fun done => done
  | @counts id rest place none =>
    simp only [Timely, place] at timely
    refine ⟨moved ?_, List.not_mem_nil⟩
    intro j found
    cases found
    exact timely none
  | begins place =>
    rw [place] at here
    exact ⟨set here fun done => done, List.not_mem_nil⟩
  | throws place failed =>
    simp only [Timely, place, failed] at timely
    cases timely
  | rolls place =>
    rw [place] at here
    exact ⟨moved here, by simp⟩
  | finishes place =>
    refine ⟨set (fun _ found => found.elim) ?_, by simp⟩
    intro impossible
    cases impossible

theorem Prompt.step (prompt : Prompt log s) (timely : s.Timely a) (taken : s.step a = some (next, events)) :
    Prompt (events ++ log) next := by
  have guarded := prompt.guarded.step taken
  cases a with
  | session id call =>
    simp only [Finalization.step] at taken
    split at taken
    · cases taken
    rename_i t x committed called
    cases taken
    have steps := callSession_steps (prompt.guarded.sound id) prompt.guarded.locked called
    refine ⟨guarded, ?_, ?_⟩
    · intro c j found
      by_cases same : j = id
      · subst same
        simp only [setSession, update_self]
        intro done
        rcases steps.earlier done with before | ⟨quiet, isOpen⟩
        · exact prompt.pending c j found before
        · rcases prompt.guarded.asked c j found.asked with cancelled | closed
          · rw [quiet] at cancelled
            cases cancelled
          · rw [isOpen] at closed
            cases closed
      · simp only [setSession, update_of_ne same]
        exact prompt.pending c j found
    · have calm := prompt.calm
      cases committed <;> simpa using calm
  | collect c expired =>
    simp only [Finalization.step, Option.ite_none_right_eq_some, Option.some.injEq, Prod.mk.injEq] at taken
    obtain ⟨idle, rfl, rfl⟩ := taken
    refine ⟨guarded, ?_, prompt.calm⟩
    intro d id found
    by_cases same : d = c
    · subst same
      simp only [moveCollector, update_self] at found
      exact found.elim
    · simp only [moveCollector, update_of_ne same] at found
      exact prompt.pending d id found
  | reap c fits =>
    obtain ⟨pending, quiet⟩ := reap_timely prompt.pending timely taken
    refine ⟨guarded, pending, ?_⟩
    intro member
    rcases List.mem_append.mp member with new | old
    · exact quiet new
    · exact prompt.calm old

end Finalization

open Finalization

/-- In a run of timely steps garbage collection never throws, rolls a transaction back only while it is open
and without an active statement, and never rolls back a transaction that has committed. -/
theorem timeout_gc_safe {I C : Type} [DecidableEq I] [DecidableEq C] [Fintype C]
    {log : List (FinalizationEvent I)} {s : Finalization I C} (run : Run (finalization I C) Timely log s) :
    .threw ∉ log ∧
      (∀ c id, (s.collector c).Rolls id → (s.session id).depth = 0 ∧ (s.txn id).isOpen = true) ∧
      Justified Harmless log := by
  have prompt : Prompt log s := by
    refine Run.invariant (I := Prompt) ?_ ?_ run
    · intro s initial
      refine ⟨initial.guarded, ?_, List.not_mem_nil⟩
      intro c id found
      rw [initial.2 c] at found
      exact found.elim
    · intro log s next a events _ prompt timely taken
      exact prompt.step timely taken
  refine ⟨prompt.calm, ?_, prompt.guarded.harmless⟩
  intro c id rolls
  exact ⟨prompt.guarded.found c id rolls.found, prompt.guarded.rolls c id rolls⟩

/-- One transaction. -/
def justBegun {C : Type} : Finalization Unit C where
  txn _ := ⟨.running, false, 0, false, 0⟩
  session _ := ⟨.free, 0⟩
  collector _ := .idle

theorem justBegun_initial {C : Type} : (justBegun : Finalization Unit C).Initial := ⟨fun _ => ⟨rfl, rfl⟩, fun _ => rfl⟩

def timelyTest (s : Finalization Unit Unit) : FinalizationAction Unit Unit → Bool
  | .reap _ fits => fits && decide ((s.txn ()).state ≠ .committed)
  | .session _ _ | .collect _ _ => true

theorem timely_of_test (s : Finalization Unit Unit) (a : FinalizationAction Unit Unit)
    (passed : timelyTest s a = true) : s.Timely a := by
  cases a with
  | session id call => trivial
  | collect c expired => trivial
  | reap c fits =>
    simp only [timelyTest, Bool.and_eq_true, decide_eq_true_eq] at passed
    simp only [Timely]
    split
    · exact fun _ => passed.2
    · exact passed.1
    · trivial

/-- An idle transaction with one written row has timed out and is being rolled back. -/
theorem timeout_gc_safe_idle :
    ∃ log s, Run (finalization Unit Unit) Timely log s ∧ (s.collector ()).Rolls () ∧ .rolledBack () ∈ log ∧
      (.threw ∉ log ∧
        (∀ c id, (s.collector c).Rolls id → (s.session id).depth = 0 ∧ (s.txn id).isOpen = true) ∧
        Justified Harmless log) := by
  obtain ⟨s, log, run, shown⟩ := execChecked_shows (M := finalization Unit Unit) timely_of_test
    [.session () .enterStatement, .session () (.advance false), .session () (.advance false),
      .session () (.advance false), .session () .write, .session () .leaveStatement, .collect () [()],
      .reap () true, .reap () true, .reap () true, .reap () true, .reap () true] justBegun_initial
    (fun r => (r.1.collector (), r.2)) (.rollingBack () 0 [], [.rolledBack ()]) rfl
  simp only [Prod.mk.injEq] at shown
  obtain ⟨place, logged⟩ := shown
  refine ⟨log, s, run, ?_, ?_, timeout_gc_safe run⟩
  · rw [place]
    rfl
  · rw [logged]
    exact List.mem_singleton.mpr rfl

/-- The session commits after the collector has read the state as RUNNING: `RequestCancellation` refuses, no
statement is active, and `Abort` throws. -/
theorem collector_throws :
    ∃ log s, Run (finalization Unit Unit) always log s ∧ log = [.threw, .committed ()] ∧
      (s.txn ()).state = .committed := by
  obtain ⟨s, log, run, shown⟩ := exec_shows (M := finalization Unit Unit)
    [.collect () [()], .reap () true, .session () .commit, .session () (.advance true),
      .session () (.advance true), .reap () true, .reap () true, .reap () true] justBegun_initial
    (fun _ _ _ => trivial) (fun r => (r.2, (r.1.txn ()).state)) ([.threw, .committed ()], .committed) rfl
  simp only [Prod.mk.injEq] at shown
  exact ⟨log, s, run, shown.1, shown.2⟩

/-- Whatever throws, in every run the mutex of a transaction has one holder at most, its statements are counted, and
nothing is rolled back once it has committed. -/
theorem finalization_guarded {I C : Type} [DecidableEq I] [DecidableEq C] [Fintype C]
    {meets : Finalization I C → FinalizationAction I C → Prop} {log : List (FinalizationEvent I)}
    {s : Finalization I C} (run : Run (finalization I C) meets log s) : Guarded log s := by
  refine Run.invariant (I := Guarded) ?_ ?_ run
  · exact fun s initial => initial.guarded
  · intro log s next a events _ guarded _ taken
    exact guarded.step taken

/-- One collector rolls a transaction back, and another one and the session's `Commit` wait for the mutex. -/
theorem finalization_guarded_contended :
    ∃ log s, Run (finalization Unit Bool) always log s ∧ s.collector false = .rollingBack () 1 [] ∧
      s.collector true = .lockingAbort () [] ∧ (s.session ()).point = .lockingCommit ∧ Guarded log s := by
  obtain ⟨s, log, run, shown⟩ := exec_shows (M := finalization Unit Bool)
    [.session () .enterStatement, .session () (.advance true), .session () (.advance true),
      .session () (.advance true), .session () .write, .session () .write, .session () .leaveStatement,
      .collect false [()], .collect true [()], .reap false true, .reap false true, .reap true true, .reap true true,
      .reap false true, .reap true true, .reap false true, .reap false true, .session () .commit] justBegun_initial
    (fun _ _ _ => trivial) (fun r => (r.1.collector false, r.1.collector true, (r.1.session ()).point))
    (.rollingBack () 1 [], .lockingAbort () [], .lockingCommit) rfl
  simp only [Prod.mk.injEq] at shown
  exact ⟨log, s, run, shown.1, shown.2.1, shown.2.2, finalization_guarded run⟩

end BumbleBee.Concurrency
