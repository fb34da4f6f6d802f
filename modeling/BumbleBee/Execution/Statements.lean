import BumbleBee.Execution.Moves
import BumbleBee.Mvcc.Invariant

/-!
Statements and their transactions. Every step of the row statements is a step of the
transaction manager or leaves it alone; a transaction stays idle while one of its
statements runs, and one that failed a statement never commits.
-/

namespace BumbleBee.Execution
open Library.Transition Mvcc Concurrency Function

namespace Engine

variable {κ : Type} {s next : Engine κ} {id : Int} {a : Action} {events log : List Event}

/-- The steps of the transaction manager all meet the condition. -/
def Under (meets : Database → Mvcc.Action → Prop) (s : Engine κ) (a : Action) : Prop :=
  ∀ b, a = .mvcc b → meets s.db b

/-- The writes of a statement, made on behalf of one of its workers. -/
def RowWrite (b : Mvcc.Action) : Prop :=
  (∃ id oid row, b = .insert id oid row) ∨ ∃ id e value, b = .modify id e value

/-- What a move does to the running statements. -/
inductive Handles (s next : Engine κ) : Prop
  | kept (statement : next.statement = s.statement) (failed : next.failed = s.failed)
  | worked {id st st'} (running : s.statement id = some st)
      (statement : next.statement = update s.statement id (some st')) (thrown : st'.thrown = st.thrown)
      (failed : next.failed = s.failed)
  | threw {id st st'} (running : s.statement id = some st)
      (statement : next.statement = update s.statement id (some st')) (thrown : st'.thrown = true)
      (failed : next.failed = update s.failed id true)
  | started {id st' txn} (ready : s.db.Ready id txn) (unstarted : s.statement id = none)
      (statement : next.statement = update s.statement id (some st')) (thrown : st'.thrown = false)
      (failed : next.failed = s.failed) (db : next.db = s.db)
  | finished {id st} (running : s.statement id = some st) (clean : st.thrown = false)
      (statement : next.statement = update s.statement id none) (failed : next.failed = s.failed)
  | aborting {id rest} (statement : next.statement = update s.statement id none) (failed : next.failed = s.failed)
      (rolling : next.db.phase id = some (.rollingBack rest))

theorem abort_rolls {db after : Database} (taken : db.step (.startAbort id) = some (after, events)) :
    ∃ rest, after.phase id = some (.rollingBack rest) := by
  have steps := Database.steps_of_step taken
  cases steps with
  | abortStarted ready => exact ⟨_, update_self _ _ _⟩

/-- A move of the transaction manager: commits wait for the statement, aborts end it. -/
structure Drives (s next : Engine κ) (a : Action) (b : Mvcc.Action) : Prop where
  source : a = .mvcc b ∨ RowWrite b
  commits : ∀ id, b.Commits id → s.statement id = none
  aborts : ∀ id, b = .startAbort id → next.statement id = none

theorem drives_write {b : Mvcc.Action} (write : RowWrite b) : Drives s next a b := by
  refine ⟨.inr write, ?_, ?_⟩
  · rintro id (rfl | rfl) <;> rcases write with ⟨_, _, _, same⟩ | ⟨_, _, _, same⟩ <;> cases same
  · rintro id rfl
    rcases write with ⟨_, _, _, same⟩ | ⟨_, _, _, same⟩ <;> cases same

section
variable (handles : Handles s next)
include handles

theorem Handles.before {st' : Statement} (still : next.statement id = some st') :
    (∃ st, s.statement id = some st ∧ (st'.thrown = true → st.thrown = true ∨ next.failed id = true)) ∨
      ((∃ txn, s.db.Ready id txn) ∧ next.db = s.db ∧ st'.thrown = false) := by
  have replaced : ∀ {other : Int} {new : Option Statement},
      next.statement = update s.statement other new →
      (id = other ∧ new = some st') ∨ (id ≠ other ∧ s.statement id = some st') := by
    intro other new changed
    rw [changed] at still
    exact of_update still
  cases handles with
  | kept statement failed => exact .inl ⟨st', by rw [← statement]; exact still, .inl⟩
  | worked running statement thrown failed =>
    rcases replaced statement with ⟨rfl, new⟩ | ⟨-, old⟩
    · cases new
      exact .inl ⟨_, running, fun threw => .inl (thrown ▸ threw)⟩
    · exact .inl ⟨st', old, .inl⟩
  | threw running statement thrown failed =>
    rcases replaced statement with ⟨rfl, new⟩ | ⟨-, old⟩
    · exact .inl ⟨_, running, fun _ => .inr (by rw [failed, update_self])⟩
    · exact .inl ⟨st', old, .inl⟩
  | started ready unstarted statement thrown failed db =>
    rcases replaced statement with ⟨rfl, new⟩ | ⟨-, old⟩
    · cases new
      exact .inr ⟨⟨_, ready⟩, db, thrown⟩
    · exact .inl ⟨st', old, .inl⟩
  | finished running clean statement failed | aborting statement failed rolling =>
    rcases replaced statement with ⟨-, new⟩ | ⟨-, old⟩
    · cases new
    · exact .inl ⟨st', old, .inl⟩

theorem Handles.failed_before (failing : next.failed id = true) :
    s.failed id = true ∨
      ∃ st st', s.statement id = some st ∧ next.statement id = some st' ∧ st'.thrown = true := by
  cases handles with
  | @threw other st st' running statement thrown failed =>
    by_cases same : id = other
    · subst same
      exact .inr ⟨st, st', running, by rw [statement, update_self], thrown⟩
    · rw [failed, update_of_ne same] at failing
      exact .inl failing
  | kept statement failed | worked running statement thrown failed
  | started ready unstarted statement thrown failed | finished running clean statement failed
  | aborting statement failed => exact .inl (failed ▸ failing)

theorem Handles.failed_kept (failing : s.failed id = true) : next.failed id = true := by
  cases handles with
  | @threw other st st' running statement thrown failed =>
    rw [failed]
    by_cases same : id = other
    · rw [same, update_self]
    · rw [update_of_ne same]
      exact failing
  | kept statement failed | worked running statement thrown failed
  | started ready unstarted statement thrown failed | finished running clean statement failed
  | aborting statement failed => exact failed ▸ failing

theorem Handles.thrown_kept {st : Statement} (running : s.statement id = some st) (threw : st.thrown = true) :
    (∃ st', next.statement id = some st' ∧ st'.thrown = true) ∨ next.db.Aborting id := by
  have replaced : ∀ {other : Int} {new : Option Statement},
      next.statement = update s.statement other new →
      (id = other ∧ next.statement id = new) ∨ next.statement id = some st := by
    intro other new changed
    by_cases same : id = other
    · exact .inl ⟨same, by rw [changed, same, update_self]⟩
    · exact .inr (by rw [changed, update_of_ne same]; exact running)
  cases handles with
  | kept statement failed => exact .inl ⟨st, by rw [statement]; exact running, threw⟩
  | worked before statement thrown failed =>
    rcases replaced statement with ⟨rfl, new⟩ | old
    · rw [running] at before
      cases before
      exact .inl ⟨_, new, thrown.trans threw⟩
    · exact .inl ⟨st, old, threw⟩
  | threw before statement thrown failed =>
    rcases replaced statement with ⟨-, new⟩ | old
    · exact .inl ⟨_, new, thrown⟩
    · exact .inl ⟨st, old, threw⟩
  | started ready unstarted statement thrown failed db =>
    rcases replaced statement with ⟨rfl, -⟩ | old
    · rw [unstarted] at running
      cases running
    · exact .inl ⟨st, old, threw⟩
  | finished before clean statement failed =>
    rcases replaced statement with ⟨rfl, -⟩ | old
    · rw [running] at before
      cases before
      rw [threw] at clean
      cases clean
    · exact .inl ⟨st, old, threw⟩
  | aborting statement failed rolling =>
    rcases replaced statement with ⟨rfl, -⟩ | old
    · exact .inr (.inr (.inl ⟨_, rolling⟩))
    · exact .inl ⟨st, old, threw⟩

end

structure Sessions (log : List Event) (s : Engine κ) : Prop where
  idle : ∀ id st, s.statement id = some st → s.db.phase id = some .idle
  thrown : ∀ id st, s.statement id = some st → st.thrown = true → s.failed id = true
  known : ∀ id, s.failed id = true → id < s.db.nextTxnId
  uncommitted : ∀ id, s.failed id = true → ∀ commitTs, Event.committed id commitTs ∉ log
  doomed : ∀ id, s.failed id = true →
    (∃ st, s.statement id = some st ∧ st.thrown = true) ∨ s.db.Aborting id

theorem Initial.sessions (initial : s.Initial) : Sessions [] s := by
  have idle id st : s.statement id ≠ some st := by simp [initial.statement id]
  have sane id : s.failed id ≠ true := by simp [initial.failed id]
  exact ⟨fun id st running => absurd running (idle id st), fun id st running => absurd running (idle id st),
    fun id failing => absurd failing (sane id), fun id failing => absurd failing (sane id),
    fun id failing => absurd failing (sane id)⟩

variable [DecidableEq κ] {catalog : Catalog κ}

theorem Moves.handles (moves : Moves catalog s a next events) : Handles s next := by
  cases moves with
  | controlled => exact Handles.kept rfl rfl
  | aborting failing taken =>
    obtain ⟨rest, rolling⟩ := abort_rolls taken
    exact Handles.aborting rfl rfl rolling
  | started none ready => exact Handles.started ready none rfl rfl rfl rfl
  | sunk running | combined running | keyAbsent running | keyFound running | appended running
  | inserted running | registered running | invisible running | revived running | updated running
  | deleted running | deferred running | finalized running drained moving clean =>
    exact Handles.worked running rfl rfl rfl
  | refused running | threw running => exact Handles.threw running rfl rfl rfl
  | finished running drained unmoved clean => exact Handles.finished running clean rfl rfl

theorem Moves.db (moves : Moves catalog s a next events) :
    (events = [] ∧ next.db = s.db) ∨
      ∃ b, Drives s next a b ∧ s.db.step b = some (next.db, events) := by
  cases moves with
  | controlled apart apart' commits kept taken =>
    exact .inr ⟨_, ⟨.inl rfl, commits, fun id same => absurd same (kept id)⟩, taken⟩
  | aborting failing taken =>
    refine .inr ⟨_, ⟨.inl rfl, ?_, ?_⟩, taken⟩
    · rintro id (same | same) <;> cases same
    · intro id same
      cases same
      exact update_self _ _ _
  | appended running hand keyed missed taken | inserted running hand unkeyed taken =>
    exact .inr ⟨_, drives_write (.inl ⟨_, _, _, rfl⟩), taken⟩
  | refused running statement taken =>
    refine .inr ⟨_, drives_write ?_, taken⟩
    rcases statement with ⟨oid, row, rfl⟩ | ⟨e, value, rfl⟩
    · exact .inl ⟨_, oid, row, rfl⟩
    · exact .inr ⟨_, e, value, rfl⟩
  | revived running hand unseen taken | updated running hand same taken | deleted running hand taken =>
    exact .inr ⟨_, drives_write (.inr ⟨_, _, _, rfl⟩), taken⟩
  | _ => exact .inl ⟨rfl, rfl⟩

variable {meets : Database → Mvcc.Action → Prop}

theorem db_run (rows : ∀ db b, RowWrite b → meets db b)
    (run : Run (engine catalog) (Under meets) log s) : Run system meets log s.db := by
  refine Run.simulate (M := engine catalog) (N := system) Engine.db ?_ ?_ run
  · intro s initial
    exact Engine.Initial.db initial
  · intro s next a events admitted taken
    rcases (moves_of_step taken).db with quiet | ⟨b, drives, stepped⟩
    · exact .inl quiet
    · refine .inr ⟨b, ?_, stepped⟩
      rcases drives.source with rfl | write
      · exact admitted b rfl
      · exact rows s.db b write

theorem Sessions.stays (sessions : Sessions log s) (moves : Moves catalog s a next events) {st st' : Statement}
    (running : s.statement id = some st) (still : next.statement id = some st') :
    next.db.phase id = some .idle := by
  have idle := sessions.idle id st running
  rcases moves.db with ⟨-, same⟩ | ⟨b, drives, stepped⟩
  · rw [same]
    exact idle
  · refine Database.idle_kept (Database.steps_of_step stepped) idle ?_ ?_
    · intro same
      have none := drives.commits id same
      rw [none] at running
      cases running
    · intro same
      have none := drives.aborts id same
      rw [none] at still
      cases still

section
variable (moves : Moves catalog s a next events)
include moves

theorem Moves.known (control : s.db.Control) : s.db.nextTxnId ≤ next.db.nextTxnId := by
  rcases moves.db with ⟨-, same⟩ | ⟨b, drives, stepped⟩
  · rw [same]
  · exact (control.keeps (Database.steps_of_step stepped)).ids

theorem Moves.stamping_of_committed {commitTs : Int}
    (member : Event.committed id commitTs ∈ events) : s.db.phase id = some (.stamping commitTs []) := by
  rcases moves.db with ⟨rfl, -⟩ | ⟨b, drives, stepped⟩
  · cases member
  · exact Database.stamping_of_committed (Database.steps_of_step stepped) member

theorem Moves.aborting_kept (restores : ∀ b, a = .mvcc b → s.db.RollbackSucceeds b) (known : id < s.db.nextTxnId)
    (aborting : s.db.Aborting id) : next.db.Aborting id := by
  rcases moves.db with ⟨-, same⟩ | ⟨b, drives, stepped⟩
  · rw [same]
    exact aborting
  · refine aborting.step (Database.steps_of_step stepped) known ?_
    rintro e t heap rfl
    rcases drives.source with rfl | ⟨_, _, _, same⟩ | ⟨_, _, _, same⟩
    · exact restores _ rfl id e t heap rfl
    · cases same
    · cases same

end

theorem Sessions.step (sessions : Sessions log s) (sound : s.db.Sound log) (moves : Moves catalog s a next events)
    (restores : ∀ b, a = .mvcc b → s.db.RollbackSucceeds b) : Sessions (events ++ log) next := by
  have ids := moves.known sound.control
  have handles := moves.handles
  have born : ∀ id, s.db.phase id = some .idle → id < s.db.nextTxnId := by
    intro id idle
    by_contra unborn
    rw [sound.control.unborn id (by omega)] at idle
    cases idle
  constructor
  · intro id st' still
    rcases handles.before still with ⟨st, running, -⟩ | ⟨⟨txn, ready⟩, same, -⟩
    · exact sessions.stays moves running still
    · rw [same]
      exact ready.idle
  · intro id st' still threw
    rcases handles.before still with ⟨st, running, source⟩ | ⟨-, -, clean⟩
    · rcases source threw with before | now
      · exact handles.failed_kept (sessions.thrown id st running before)
      · exact now
    · rw [threw] at clean
      cases clean
  · intro id failing
    rcases handles.failed_before failing with before | ⟨st, st', running, -⟩
    · exact lt_of_lt_of_le (sessions.known id before) ids
    · exact lt_of_lt_of_le (born id (sessions.idle id st running)) ids
  · intro id failing commitTs member
    rcases handles.failed_before failing with before | ⟨st, st', running, still, -⟩
    · rcases List.mem_append.mp member with new | old
      · have stamping := moves.stamping_of_committed new
        rcases sessions.doomed id before with ⟨st, running, -⟩ | aborting
        · simp [sessions.idle id st running] at stamping
        · simp [Database.Aborting, stamping] at aborting
      · exact sessions.uncommitted id before commitTs old
    · rcases List.mem_append.mp member with new | old
      · have stamping := moves.stamping_of_committed new
        simp [sessions.idle id st running] at stamping
      · exact sound.idle_uncommitted (sessions.idle id st running) commitTs old
  · intro id failing
    rcases handles.failed_before failing with before | ⟨st, st', -, still, threw⟩
    · rcases sessions.doomed id before with ⟨st, running, threw⟩ | aborting
      · exact handles.thrown_kept running threw
      · exact .inr (moves.aborting_kept restores (sessions.known id before) aborting)
    · exact .inl ⟨st', still, threw⟩

theorem sessions_run (rows : ∀ db b, RowWrite b → meets db b)
    (restores : ∀ db b, meets db b → db.RollbackSucceeds b) (run : Run (engine catalog) (Under meets) log s) :
    Sessions log s := by
  refine Run.invariant (M := engine catalog) (I := fun log s => Sessions log s)
    (fun s initial => Initial.sessions initial) ?_ run
  intro log s next a events before sessions admitted taken
  exact sessions.step (sound_run (db_run rows before)) (moves_of_step taken)
    fun b same => restores _ _ (admitted b same)

end Engine

end BumbleBee.Execution
