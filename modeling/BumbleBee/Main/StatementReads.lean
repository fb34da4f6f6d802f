import BumbleBee.Main.Statement
import BumbleBee.Mvcc.SnapshotReads

/-!
What an autocommit statement with scalar subqueries reads. Every subquery reads the
newest committed state of its own time; unless a writer commits before the main
transaction begins, that is the state the main transaction's snapshot denotes.
-/

namespace BumbleBee.Main
open Library.Transition Library.Versions Mvcc Storage.SlottedPage Concurrency

namespace Connection

variable {c next : Connection} {a : Action} {events log : List Event} {s after : Database} {b : Mvcc.Action}

/-- The committed state of the moment. -/
def latest (log : List Event) (s : Database) : Entry → Option RowBytes := committedAt log s.lastCommitTs

section
variable (control : Database.Control s)
include control

theorem committedAt_kept (steps : Steps s b after events) {ts : Int}
    (past : ts ≤ s.lastCommitTs) : committedAt (events ++ log) ts = committedAt log ts := by
  cases steps with
  | published phase found =>
    obtain ⟨-, -, -, -, clock, -⟩ := control.finalizing phase (by simp)
    apply committedAt_published
    omega
  | _ => rfl

theorem lastCommitTs_of_steps (steps : Steps s b after events) : s.lastCommitTs ≤ after.lastCommitTs := by
  cases steps with
  | published phase found =>
    obtain ⟨-, -, -, -, clock, -⟩ := control.finalizing phase (by simp)
    have moved : s.lastCommitTs ≤ s.lastCommitTs + 1 := by omega
    rw [← clock] at moved
    exact moved
  | _ => exact le_refl _

theorem latest_kept (slots : Database.Slots true log s) (steps : Steps s b after events)
    (quiet : publishesWrites s b = false) : latest (events ++ log) after = latest log s := by
  cases steps with
  | @published id commitTs t phase found =>
    have empty : t.writeSet = [] := by
      simpa [publishesWrites, found] using quiet
    obtain ⟨-, -, -, -, clock, -⟩ := control.finalizing phase (by simp)
    funext e
    have unwritten : lastWrite id e log = none := by
      apply not_wrote.mp
      intro wrote
      have member := (slots.writes id t found e).mpr wrote
      rw [empty] at member
      cases member
    have unchanged : ∀ v ∈ history e log, v.ts ≤ commitTs → v.ts ≤ s.lastCommitTs :=
      fun v member _ => slots.history_le member
    have kept : history e (.committed id commitTs :: log) = history e log :=
      Database.history_committed_other unwritten
    calc latest (.committed id commitTs :: log) _ e
        = snapshot (history e log) commitTs := by
          rw [← kept]
          rfl
      _ = snapshot (history e log) s.lastCommitTs := by
          apply snapshot_of_unchanged _ unchanged
          omega
  | _ => rfl

end

variable {value : Option RowBytes} {id : Int} {t : Transaction} {fuel : Nat} {e : Entry}

theorem committed_of_read (slots : Database.Slots true log s) (ledger : Database.Ledger log s)
    (control : Database.Control s) (ready : s.Ready id t) (present : s.Present e)
    (visible : s.collectVisibleVersion id t e.rid fuel = some value) :
    value = committedAt log t.readTs e ∨ lastWrite id e log = some value := by
  have shown := slots.shows_of_read ledger control ready.viewing present visible
  rcases shown with own | ⟨foreign, leftBy⟩
  · exact .inr own
  · have denoted := ledger.leftBy_snapshot (slots.ordered e) t.readTs
    exact .inl (ledger.shows_unique (.inr ⟨foreign, leftBy⟩) (.inr ⟨foreign, denoted⟩))

/-- The value was the transaction's own last write to the row at some point of the run. -/
def OwnWrite (log : List Event) (id : Int) (r : Read) : Prop :=
  ∃ past, past <:+ log ∧ lastWrite id r.e past = some r.value

theorem OwnWrite.append {r : Read} (own : OwnWrite log id r) (events : List Event) :
    OwnWrite (events ++ log) id r := by
  obtain ⟨past, earlier, write⟩ := own
  exact ⟨past, earlier.trans (List.suffix_append events log), write⟩

/-- The subqueries answered so far have read this committed state. -/
structure Agrees (log : List Event) (c : Connection) (state : Entry → Option RowBytes) : Prop where
  values : ∀ r ∈ c.values, r.value = state r.e
  answered : ∀ id ∈ c.answered, ∃ readTs isolationLevel, Event.began id readTs isolationLevel ∈ log ∧
    readTs ≤ c.db.lastCommitTs ∧ committedAt log readTs = state

/-- A subquery reads the committed state of the moment and writes nothing. -/
structure Evaluating (log : List Event) (c : Connection) (id readTs : Int) : Prop where
  past : readTs ≤ c.db.lastCommitTs
  began : ∃ isolationLevel, Event.began id readTs isolationLevel ∈ log
  readOnly : ∀ e, ¬Wrote log id e
  current : c.overtaken = false → committedAt log readTs = latest log c.db
  reads : c.overtaken = false → ∀ r ∈ c.reads, r.value = latest log c.db r.e

/-- The plan's transaction and the subqueries before it have read one committed state. -/
structure Executing (log : List Event) (c : Connection) (id readTs : Int) : Prop where
  past : readTs ≤ c.db.lastCommitTs
  began : ∃ isolationLevel, Event.began id readTs isolationLevel ∈ log
  agrees : Agrees log c (committedAt log readTs)
  reads : ∀ r ∈ c.reads, r.value = committedAt log readTs r.e ∨ OwnWrite log id r

structure Consistent (log : List Event) (c : Connection) : Prop where
  unread : c.answered = [] → c.values = []
  fresh : c.overtaken = false → Agrees log c (latest log c.db)
  evaluating : ∀ subqueries id, c.stage = .evaluating subqueries id → ∃ readTs, Evaluating log c id readTs
  executing : ∀ id, c.stage = .executing id → ∃ readTs, Executing log c id readTs

theorem agrees_unread (values : c.values = []) (answered : c.answered = []) (state : Entry → Option RowBytes) :
    Agrees log c state := by
  constructor
  · intro r member
    simp [values] at member
  · intro id member
    simp [answered] at member

theorem consistent_between (between : c.txn = none) (unread : c.answered = [] → c.values = [])
    (fresh : c.overtaken = false → Agrees log c (latest log c.db)) : Consistent log c := by
  refine ⟨unread, fresh, ?_, ?_⟩
  · intro subqueries id stage
    simp [txn, stage] at between
  · intro id stage
    simp [txn, stage] at between

theorem Initial.consistent (initial : Initial c) : Consistent [] c := by
  apply consistent_between
  · simp [txn, initial.stage]
  · exact fun _ => initial.values
  · exact fun _ => agrees_unread initial.values initial.answered _

/-- No table is dropped, no rollback is refused, and no writer has committed since the first subquery began
when the main transaction begins. -/
def Undisturbed (c : Connection) (a : Action) : Prop :=
  (∀ b, a = .mvcc b → c.db.FixedTables b) ∧
    ∀ isolationLevel, a = .beginMain isolationLevel → c.answered = [] ∨ c.overtaken = false

theorem wrote_of_steps (steps : Steps s b after events) (wrote : Wrote (events ++ log) id e) :
    Wrote log id e ∨ (∃ oid row, b = .insert id oid row) ∨ ∃ e value, b = .modify id e value := by
  cases steps with
  | inserted ready table grew placed =>
    rcases ((recordsWrite_inserted _ _ _).wrote ..).mp wrote with ⟨rfl, -⟩ | before
    · exact .inr (.inl ⟨_, _, rfl⟩)
    · exact .inl before
  | rewrote | versioned =>
    rcases ((recordsWrite_modified _ _ _).wrote ..).mp wrote with ⟨rfl, -⟩ | before
    · exact .inr (.inr ⟨_, _, rfl⟩)
    · exact .inl before
  | _ => exact .inl wrote

/-- The committed states of the subqueries' snapshots are still what they were. -/
theorem Agrees.stepped {state : Entry → Option RowBytes} (agrees : Agrees log c state)
    (control : Database.Control c.db) (steps : Steps c.db b after events) (overtaken : Bool) :
    Agrees (events ++ log) { c with db := after, overtaken := overtaken } state := by
  refine ⟨agrees.values, ?_⟩
  intro id member
  obtain ⟨readTs, isolationLevel, began, past, same⟩ := agrees.answered id member
  refine ⟨readTs, isolationLevel, List.mem_append_right _ began,
    le_trans past (lastCommitTs_of_steps control steps), ?_⟩
  rw [committedAt_kept control steps past]
  exact same

/-- A step of the transaction manager: the subqueries' state is still the latest one, or has been overtaken. -/
theorem Consistent.stepped (consistent : Consistent log c) (control : Database.Control c.db)
    (slots : Database.Slots true log c.db) (allowed : c.refuses b = false) (steps : Steps c.db b after events) :
    Consistent (events ++ log) { c with db := after, overtaken := c.overtaken || publishesWrites c.db b } := by
  have quiet : (c.overtaken || publishesWrites c.db b) = false →
      c.overtaken = false ∧ latest (events ++ log) after = latest log c.db := by
    intro none
    have parts := Bool.or_eq_false_iff.mp none
    exact ⟨parts.1, latest_kept control slots steps parts.2⟩
  have later := lastCommitTs_of_steps control steps
  refine ⟨consistent.unread, ?_, ?_, ?_⟩
  · intro none
    obtain ⟨before, same⟩ := quiet none
    simp only [same]
    exact (consistent.fresh before).stepped control steps _
  · intro subqueries id stage
    obtain ⟨readTs, evaluating⟩ := consistent.evaluating subqueries id stage
    have stable : committedAt (events ++ log) readTs = committedAt log readTs :=
      committedAt_kept control steps evaluating.past
    obtain ⟨isolationLevel, began⟩ := evaluating.began
    refine ⟨readTs, le_trans evaluating.past later, ⟨isolationLevel, List.mem_append_right _ began⟩, ?_, ?_, ?_⟩
    · intro e wrote
      simp only at stage
      rcases wrote_of_steps steps wrote with before | ⟨oid, row, rfl⟩ | ⟨e', value, rfl⟩
      · exact evaluating.readOnly e before
      · simp [refuses, stage] at allowed
      · simp [refuses, stage] at allowed
    · intro none
      obtain ⟨before, same⟩ := quiet none
      rw [stable, same]
      exact evaluating.current before
    · intro none r member
      obtain ⟨before, same⟩ := quiet none
      rw [same]
      exact evaluating.reads before r member
  · intro id stage
    obtain ⟨readTs, executing⟩ := consistent.executing id stage
    have stable : committedAt (events ++ log) readTs = committedAt log readTs :=
      committedAt_kept control steps executing.past
    obtain ⟨isolationLevel, began⟩ := executing.began
    refine ⟨readTs, le_trans executing.past later, ⟨isolationLevel, List.mem_append_right _ began⟩, ?_, ?_⟩
    · rw [stable]
      exact executing.agrees.stepped control steps _
    · intro r member
      rw [stable]
      exact (executing.reads r member).imp_right fun own => own.append events

variable {isolationLevel : IsolationLevel}

variable (log) in
theorem begun_of_step (taken : c.db.step (.begin isolationLevel) = some (after, events)) :
    events = [.began c.db.nextTxnId c.db.lastCommitTs isolationLevel] ∧ after.lastCommitTs = c.db.lastCommitTs ∧
      latest (events ++ log) after = latest log c.db := by
  have steps := Database.steps_of_step taken
  cases steps with
  | began added => exact ⟨rfl, rfl, rfl⟩

theorem Consistent.subqueryBegan (consistent : Consistent log c) (sound : Database.Sound log c.db) {subqueries : Nat}
    (taken : c.db.step (.begin isolationLevel) = some (after, events)) :
    Consistent (events ++ log)
      { c with
        db := after
        stage := .evaluating subqueries c.db.nextTxnId
        reads := []
        overtaken := !c.answered.isEmpty && c.overtaken } := by
  obtain ⟨rfl, clock, same⟩ := begun_of_step log taken
  refine ⟨consistent.unread, ?_, ?_, ?_⟩
  · intro none
    simp only [same]
    cases answered : c.answered with
    | nil =>
      apply agrees_unread
      · exact consistent.unread answered
      · rfl
    | cons id rest =>
      have before : c.overtaken = false := by
        simpa [answered] using none
      have agrees := (consistent.fresh before).stepped sound.control (Database.steps_of_step taken) false
      rw [← answered]
      exact ⟨agrees.values, agrees.answered⟩
  · intro left id stage
    cases stage
    refine ⟨c.db.lastCommitTs, le_of_eq clock.symm, ⟨isolationLevel, List.mem_cons_self⟩, ?_, ?_, ?_⟩
    · intro e wrote
      exact lt_irrefl _ (sound.sets.writers _ e wrote)
    · intro _
      rw [same]
      rfl
    · intro _ r member
      cases member
  · intro id stage
    cases stage

theorem Consistent.mainBegan (consistent : Consistent log c) (control : Database.Control c.db)
    (taken : c.db.step (.begin isolationLevel) = some (after, events))
    (undisturbed : c.answered = [] ∨ c.overtaken = false) :
    Consistent (events ++ log) { c with db := after, stage := .executing c.db.nextTxnId, reads := [] } := by
  obtain ⟨rfl, clock, same⟩ := begun_of_step log taken
  have stepped : c.overtaken = false → Agrees ([.began c.db.nextTxnId c.db.lastCommitTs isolationLevel] ++ log)
      { c with db := after, stage := .executing c.db.nextTxnId, reads := [] } (latest log c.db) := by
    intro none
    have agrees := (consistent.fresh none).stepped control (Database.steps_of_step taken) false
    exact ⟨agrees.values, agrees.answered⟩
  refine ⟨consistent.unread, ?_, ?_, ?_⟩
  · intro none
    simp only [same]
    exact stepped none
  · intro subqueries id stage
    cases stage
  · intro id stage
    cases stage
    refine ⟨c.db.lastCommitTs, le_of_eq clock.symm, ⟨isolationLevel, List.mem_cons_self⟩, ?_, ?_⟩
    · rcases undisturbed with unread | none
      · apply agrees_unread
        · exact consistent.unread unread
        · exact unread
      · exact stepped none
    · intro r member
      cases member

theorem row_of_visible {rid : RID}
    (visible : s.collectVisibleVersion id t rid fuel = some value) : ∃ tuple, s.store.getRow rid = some tuple := by
  unfold Database.collectVisibleVersion at visible
  split at visible
  · cases visible
  · next tupleMeta row found => exact ⟨_, found⟩

theorem Consistent.fetched (consistent : Consistent log c) (sound : Database.Sound log c.db)
    (slots : Database.Slots true log c.db) (running : c.txn = some id) (ready : c.db.Ready id t)
    (present : c.db.Present e) (visible : c.db.collectVisibleVersion id t e.rid fuel = some value) :
    Consistent log { c with reads := ⟨id, e, value⟩ :: c.reads } := by
  have read := committed_of_read slots sound.ledger sound.control ready present visible
  have snapshot : ∀ {readTs isolationLevel}, Event.began id readTs isolationLevel ∈ log → t.readTs = readTs :=
    fun began => (sound.ledger.once _ _ _ _ _ (sound.ledger.begins id t ready.found) began).1
  refine ⟨consistent.unread, fun none => ⟨(consistent.fresh none).values, (consistent.fresh none).answered⟩, ?_, ?_⟩
  · intro subqueries other stage
    simp only at stage
    obtain ⟨readTs, evaluating⟩ := consistent.evaluating subqueries other stage
    simp only [txn, stage, Option.some.injEq] at running
    subst running
    obtain ⟨isolationLevel, began⟩ := evaluating.began
    refine ⟨readTs, evaluating.past, evaluating.began, evaluating.readOnly, evaluating.current, ?_⟩
    intro none r member
    rcases List.mem_cons.mp member with rfl | before
    · have committed := read.resolve_right fun own => evaluating.readOnly e ⟨value, own⟩
      rw [snapshot began, evaluating.current none] at committed
      exact committed
    · exact evaluating.reads none r before
  · intro other stage
    simp only at stage
    obtain ⟨readTs, executing⟩ := consistent.executing other stage
    simp only [txn, stage, Option.some.injEq] at running
    subst running
    obtain ⟨isolationLevel, began⟩ := executing.began
    refine ⟨readTs, executing.past, executing.began, ⟨executing.agrees.values, executing.agrees.answered⟩, ?_⟩
    intro r member
    rcases List.mem_cons.mp member with rfl | before
    · rw [snapshot began] at read
      exact read.imp_right fun own => ⟨log, List.suffix_rfl, own⟩
    · exact executing.reads r before

theorem Consistent.step (consistent : Consistent log c) (sound : Database.Sound log c.db)
    (slots : Database.Slots true log c.db) (turns : Turns c a next events) (undisturbed : Undisturbed c a) :
    Consistent (events ++ log) next := by
  cases turns with
  | stepped allowed taken =>
    exact consistent.stepped sound.control slots allowed (Database.steps_of_step taken)
  | started => exact consistent_between rfl (fun _ => rfl) (fun _ => agrees_unread rfl rfl _)
  | subqueryBegan taken => exact consistent.subqueryBegan sound taken
  | fetched running ready table listed visible =>
    exact consistent.fetched sound slots running ready ⟨⟨_, table, listed⟩, row_of_visible visible⟩ visible
  | returned stage =>
    obtain ⟨readTs, evaluating⟩ := consistent.evaluating _ _ stage
    apply consistent_between rfl (fun none => absurd none (List.cons_ne_nil _ _))
    intro none
    constructor
    · intro r member
      rcases List.mem_append.mp member with current | earlier
      · exact evaluating.reads none r current
      · exact (consistent.fresh none).values r earlier
    · intro other member
      rcases List.mem_cons.mp member with rfl | earlier
      · obtain ⟨isolationLevel, began⟩ := evaluating.began
        exact ⟨readTs, isolationLevel, began, evaluating.past, evaluating.current none⟩
      · exact (consistent.fresh none).answered other earlier
  | mainBegan taken => exact consistent.mainBegan sound.control taken (undisturbed.2 _ rfl)
  | _ =>
    exact consistent_between rfl consistent.unread fun none =>
      ⟨(consistent.fresh none).values, (consistent.fresh none).answered⟩

theorem db_of_turns (turns : Turns c a next events) :
    (events = [] ∧ next.db = c.db) ∨
      ∃ b, (a = .mvcc b ∨ ∃ isolationLevel, b = .begin isolationLevel) ∧ c.db.step b = some (next.db, events) := by
  cases turns with
  | stepped allowed taken => exact .inr ⟨_, .inl rfl, taken⟩
  | subqueryBegan taken | mainBegan taken => exact .inr ⟨_, .inr ⟨_, rfl⟩, taken⟩
  | _ => exact .inl ⟨rfl, rfl⟩

theorem fixedTables_begin (s : Database) (isolationLevel : IsolationLevel) : s.FixedTables (.begin isolationLevel) := by
  constructor
  · intro id e _ _ same
    cases same
  · intro oid same
    cases same

theorem db_run (run : Run connection Undisturbed log c) : Run system Database.FixedTables log c.db := by
  apply Run.simulate (M := connection) (N := system) Connection.db _ _ run
  · intro c initial
    exact Initial.db initial
  · intro c next a events undisturbed taken
    rcases db_of_turns (turns_of_step taken) with quiet | ⟨b, source, stepped⟩
    · exact .inl quiet
    · refine .inr ⟨b, ?_, stepped⟩
      rcases source with rfl | ⟨isolationLevel, rfl⟩
      · exact undisturbed.1 b rfl
      · exact fixedTables_begin c.db isolationLevel

theorem consistent_run (run : Run connection Undisturbed log c) : Consistent log c := by
  apply Run.invariant (M := connection) (I := Consistent) _ _ run
  · intro c initial
    exact Initial.consistent initial
  · intro log c next a events before consistent undisturbed taken
    have below := db_run before
    exact consistent.step (sound_run below) (slots_run (untouched_run below).1) (turns_of_step taken) undisturbed

end Connection

open Connection

/-- If no writer commits between the first subquery and the main transaction's begin, the statement and its
subqueries read the one committed state that the main transaction's snapshot denotes, and no commit outside that
state is overwritten. -/
theorem statement_reads_one_state {log : List Event} {c : Connection}
    (run : Run program (Defined overruns Undisturbed) log c) {id : Int} (executing : c.stage = .executing id) :
    ∃ readTs isolationLevel, Event.began id readTs isolationLevel ∈ log ∧
      (∀ subquery ∈ c.answered, ∃ ts level,
        Event.began subquery ts level ∈ log ∧ committedAt log ts = committedAt log readTs) ∧
      (∀ r ∈ c.values, r.value = committedAt log readTs r.e) ∧
      (∀ r ∈ c.reads, r.value = committedAt log readTs r.e ∨ OwnWrite log id r) ∧
      ∀ e commitTs, Event.committed id commitTs ∈ log → Wrote log id e →
        ∀ v ∈ history e log, v.ts < commitTs → v.ts ≤ readTs := by
  have inFrame : Run connection Undisturbed log c := Run.of_faulting run
  obtain ⟨readTs, view⟩ := (consistent_run inFrame).executing id executing
  obtain ⟨isolationLevel, began⟩ := view.began
  have orderly : Run system Database.Orderly log c.db :=
    (db_run inFrame).mono fun s a fixed => ⟨fixed.1, fun oid same => absurd same (fixed.2 oid)⟩
  have separated := (separated_run orderly).2
  refine ⟨readTs, isolationLevel, began, ?_, view.agrees.values, view.reads, ?_⟩
  · intro subquery member
    obtain ⟨ts, level, opened, -, same⟩ := view.agrees.answered subquery member
    exact ⟨ts, level, opened, same⟩
  intro e commitTs committed wrote
  exact separated id commitTs readTs isolationLevel e committed began wrote

/-- A row is committed, and a statement's subquery has read it in a transaction of its own. -/
def evaluated : List Action :=
  [.mvcc .createTable, .mvcc (.begin .snapshotIsolation), .mvcc (.insert txnStartId 0 (Database.zeroRow 4)),
    .mvcc (.lockCommit txnStartId), .mvcc (.stamp txnStartId ⟨0, 0, 0⟩), .mvcc (.publish txnStartId),
    .mvcc (.leave txnStartId), .startStatement 1, .beginSubquery .snapshotIsolation, .read ⟨0, 0, 0⟩ 1,
    .mvcc (.lockCommit (txnStartId + 1)), .mvcc (.publish (txnStartId + 1)), .mvcc (.leave (txnStartId + 1)),
    .returnValue, .finishPlan]

/-- Another session updates the row the subquery has read, and then the statement overwrites it. -/
def overwriting : List Action :=
  [.mvcc (.begin .snapshotIsolation), .mvcc (.modify (txnStartId + 2) ⟨0, 0, 0⟩ (some (Database.zeroRow 3))),
    .mvcc (.lockCommit (txnStartId + 2)), .mvcc (.stamp (txnStartId + 2) ⟨0, 0, 0⟩),
    .mvcc (.publish (txnStartId + 2)), .mvcc (.leave (txnStartId + 2)), .beginMain .snapshotIsolation,
    .mvcc (.modify (txnStartId + 3) ⟨0, 0, 0⟩ (some (Database.zeroRow 2))),
    .mvcc (.lockCommit (txnStartId + 3)), .mvcc (.stamp (txnStartId + 3) ⟨0, 0, 0⟩),
    .mvcc (.publish (txnStartId + 3))]

theorem opened_connection : Connection.Initial Connection.opened := ⟨Database.opened_initial, rfl, rfl, rfl⟩

theorem undisturbed_of_plain {actions : List Action}
    (plain : ∀ a ∈ actions, (∀ id e, a ≠ .mvcc (.rollback id e)) ∧ (∀ oid, a ≠ .mvcc (.dropTable oid)) ∧
      ∀ isolationLevel, a ≠ .beginMain isolationLevel) :
    ∀ a ∈ actions, ∀ c, Undisturbed c a := by
  intro a member c
  obtain ⟨rollback, drop, main⟩ := plain a member
  refine ⟨?_, fun isolationLevel same => absurd same (main isolationLevel)⟩
  rintro b rfl
  exact ⟨fun id e _ _ same => absurd (congrArg Action.mvcc same) (rollback id e),
    fun oid same => absurd (congrArg Action.mvcc same) (drop oid)⟩

/-- The main transaction begins with the row as the subquery has read it. -/
theorem statement_reads_one_state_begun :
    ∃ log c, Run program (Defined overruns Undisturbed) log c ∧ c.stage = .executing (txnStartId + 2) ∧
      c.values.length = 1 ∧ ∃ readTs isolationLevel, Event.began (txnStartId + 2) readTs isolationLevel ∈ log ∧
        (∀ subquery ∈ c.answered, ∃ ts level,
          Event.began subquery ts level ∈ log ∧ committedAt log ts = committedAt log readTs) ∧
        (∀ r ∈ c.values, r.value = committedAt log readTs r.e) ∧
        (∀ r ∈ c.reads, r.value = committedAt log readTs r.e ∨ OwnWrite log (txnStartId + 2) r) ∧
        ∀ e commitTs, Event.committed (txnStartId + 2) commitTs ∈ log → Wrote log (txnStartId + 2) e →
          ∀ v ∈ history e log, v.ts < commitTs → v.ts ≤ readTs := by
  obtain ⟨before, log, run, shown⟩ := exec_shows (M := connection) evaluated opened_connection
    (undisturbed_of_plain (by simp [evaluated]))
    (fun r => (r.1.overtaken, (r.1.beginMain .snapshotIsolation).map fun n => (n.1.stage, n.1.values.length)))
    (false, some (.executing (txnStartId + 2), 1)) rfl
  simp only [Prod.mk.injEq] at shown
  obtain ⟨none, begins⟩ := shown
  obtain ⟨⟨c, events⟩, taken, same⟩ := Option.map_eq_some_iff.mp begins
  simp only [Prod.mk.injEq] at same
  have admitted : Undisturbed before (.beginMain .snapshotIsolation) := by
    constructor
    · intro b same
      cases same
    · intro _ _
      exact .inr none
  have started : Run program (Defined overruns Undisturbed) (events ++ log) c :=
    Run.faulting (M := connection) not_overruns (run.next admitted taken)
  exact ⟨_, c, started, same.1, same.2, statement_reads_one_state started same.1⟩

/-- A commit between the subquery and the main transaction is overwritten by a value that did not see it. -/
theorem statement_overwrites_unread :
    ∃ log c t, Run connection always log c ∧ c.stage = .executing (txnStartId + 3) ∧
      c.db.txnMap (txnStartId + 3) = some t ∧ t.state = .committed ∧ ⟨0, 0, 0⟩ ∈ t.writeSet ∧
      ∃ r ∈ c.values, r.e = ⟨0, 0, 0⟩ ∧ r.value ≠ committedAt log t.readTs r.e := by
  obtain ⟨c, log, run, shown⟩ := exec_shows (M := connection) (evaluated ++ overwriting) opened_connection
    (fun _ _ _ => trivial)
    (fun r => (r.1.stage, (r.1.db.txnMap (txnStartId + 3)).map fun t => (t.state, t.writeSet, t.readTs),
      r.1.values.map fun v => (v.e, v.value.map RowBytes.size),
      (committedAt r.2 3 ⟨0, 0, 0⟩).map RowBytes.size))
    (.executing (txnStartId + 3), some (.committed, [⟨0, 0, 0⟩], 3), [(⟨0, 0, 0⟩, some 4)], some 3) rfl
  simp only [Prod.mk.injEq] at shown
  obtain ⟨stage, found, values, latest⟩ := shown
  obtain ⟨t, found, same⟩ := Option.map_eq_some_iff.mp found
  simp only [Prod.mk.injEq] at same
  obtain ⟨state, writes, readTs⟩ := same
  obtain ⟨r, read, fields⟩ := List.map_eq_singleton_iff.mp values
  simp only [Prod.mk.injEq] at fields
  refine ⟨log, c, t, run, stage, found, state, by simp [writes], r, by simp [read], fields.1, ?_⟩
  intro equal
  rw [readTs, fields.1] at equal
  rw [← equal, fields.2] at latest
  cases latest

end BumbleBee.Main
