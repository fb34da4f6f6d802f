import BumbleBee.Mvcc.Invariant
import BumbleBee.Mvcc.Ledger
import BumbleBee.Mvcc.Program

/-!
First committer wins. When a transaction commits, every version of a row it wrote
is in its snapshot, so of two committed writers of a row the later one began after
the earlier one had committed.
-/

namespace BumbleBee.Mvcc
open Library.Transition Concurrency

namespace Database

variable {s next : Database} {id : Int} {log log' : List Event} {e : Entry} {a : Action}
  {events : List Event}

/-- No rollback of a row is refused, and tables are dropped under the exclusive lease. -/
def Orderly (s : Database) (a : Action) : Prop := s.RollbackSucceeds a ∧ s.Leased a

theorem Orderly.admits (orderly : s.Orderly a) : Admits false s a :=
  ⟨orderly.1, by simp, fun _ => orderly.2⟩

theorem orderly_plain (plain : ∀ id e, a ≠ .rollback id e) (kept : ∀ oid, a ≠ .dropTable oid) : s.Orderly a :=
  ⟨fun id e _ _ same => absurd same (plain id e), fun oid same => absurd same (kept oid)⟩

variable {t : Transaction}

theorem Control.live_before (control : Control s) (steps : Steps s a next events)
    (after : next.txnMap id = some t) (live : t.Live) :
    (∃ before, s.txnMap id = some before ∧ before.Live) ∨ s.nextTxnId ≤ id := by
  rcases control.record steps after with ⟨before, found, follows⟩ | ⟨unborn, -⟩
  · exact .inl ⟨before, found, follows.live live⟩
  · exact .inr unborn

theorem wrote_before (steps : Steps s a next events) (wrote : Wrote (events ++ log) id e) :
    Wrote log id e ∨ ∃ heap, next.tables e.oid = some heap := by
  cases steps with
  | inserted ready table grew placed =>
    rcases ((recordsWrite_inserted _ _ _).wrote ..).mp wrote with ⟨-, rfl⟩ | before
    · exact .inr ⟨_, Function.update_self _ _ _⟩
    · exact .inl before
  | rewrote ready table listed base own stored | versioned ready table listed base foreign inSnapshot stored =>
    rcases ((recordsWrite_modified _ _ _).wrote ..).mp wrote with ⟨-, rfl⟩ | before
    · exact .inr ⟨_, table⟩
    · exact .inl before
  | _ => exact .inl wrote

/-- The tables a live transaction has written to exist. -/
def Rooted (s : Database) : Prop :=
  ∀ id t e, s.txnMap id = some t → t.Live → e ∈ t.writeSet → ∃ heap, s.tables e.oid = some heap

theorem Rooted.step (rooted : s.Rooted) (control : Control s) (slots : Slots false log s)
    (after : Slots false (events ++ log) next) (steps : Steps s a next events) (leased : s.Leased a) :
    next.Rooted := by
  intro id t e found live member
  rcases wrote_before steps ((after.writes id t found e).mp member) with wrote | rooted'
  · rcases control.live_before steps found live with ⟨before, here, live'⟩ | unborn
    · obtain ⟨heap, table⟩ := rooted id before e here live' ((slots.writes id before here e).mpr wrote)
      exact tables_kept steps (fun oid drop => leased oid drop id before here live') table
    · have known := slots.writers id e wrote
      omega
  · exact rooted'

theorem Slots.present_of_rooted (slots : Slots false log s) (control : Control s) (rooted : s.Rooted)
    (member : e ∈ s.pending id) : s.Present e := by
  obtain ⟨t, found, live, inside⟩ := control.live_of_pending member
  obtain ⟨heap, table⟩ := rooted id t e found live inside
  exact slots.present_of_pending control member table

/-- Every version older than a committed write was in its writer's snapshot. -/
def Separated (log : List Event) : Prop :=
  ∀ id commitTs readTs isolationLevel e, Event.committed id commitTs ∈ log →
    Event.began id readTs isolationLevel ∈ log → Wrote log id e →
    ∀ v ∈ history e log, v.ts < commitTs → v.ts ≤ readTs

section
variable (separated : Separated log)
include separated

theorem Separated.plain
    (committed : ∀ id commitTs, Event.committed id commitTs ∈ log' → Event.committed id commitTs ∈ log)
    (began : ∀ id commitTs readTs isolationLevel, Event.committed id commitTs ∈ log →
      Event.began id readTs isolationLevel ∈ log' → Event.began id readTs isolationLevel ∈ log)
    (wrote : ∀ id commitTs e, Event.committed id commitTs ∈ log → Wrote log' id e → Wrote log id e)
    (past : ∀ e, history e log' = history e log) : Separated log' := by
  intro id commitTs readTs isolationLevel e done begins writes v member older
  have before := committed id commitTs done
  rw [past] at member
  exact separated id commitTs readTs isolationLevel e before
    (began id commitTs readTs isolationLevel before begins) (wrote id commitTs e before writes) v member older

theorem Separated.wrote (ledger : Ledger log s) {event : Event}
    (ready : s.Ready id t) (records : RecordsWrite event id e) : Separated (event :: log) := by
  refine separated.plain ?_ ?_ ?_ (records.past log)
  · intro other commitTs member
    exact (List.mem_cons.mp member).resolve_left (records.uncommitting other commitTs).symm
  · intro other _ readTs isolationLevel _ member
    exact (List.mem_cons.mp member).resolve_left (records.unbeginning other readTs isolationLevel).symm
  · intro other commitTs e' committed wrote
    refine ((records.wrote ..).mp wrote).resolve_left ?_
    rintro ⟨rfl, -⟩
    exact ledger.uncommitted ready.found ready.live commitTs committed

theorem Separated.published (ledger : Ledger log s) (control : Control s) (slots : Slots false log s)
    (rooted : s.Rooted) {commitTs : Int} (here : s.phase id = some (.stamping commitTs []))
    (found : s.txnMap id = some t) : Separated (.committed id commitTs :: log) := by
  obtain ⟨u, same, -, -, clock, -, running, -⟩ := control.finalizing here (by simp)
  rw [found] at same
  intro writer ts readTs isolationLevel e done begins writes v member older
  simp only [List.mem_cons, reduceCtorEq, false_or] at begins
  have wrote : Wrote log writer e := writes
  have stamp : v.ts = commitTs ∨ v ∈ history e log := by
    simp only [history] at member
    split at member
    · rcases List.mem_cons.mp member with rfl | inside
      · exact .inl rfl
      · exact .inr inside
    · exact .inr member
  rcases List.mem_cons.mp done with event | before
  · cases event
    have past := stamp.resolve_left (ne_of_lt older)
    have mine : e ∈ s.pending id := by
      rw [pending_eq here found]
      exact (slots.writes id t found e).mpr wrote
    have present := slots.present_of_rooted control rooted mine
    have snapshot := (ledger.once _ _ _ _ _ begins (ledger.begins id t found)).1
    rw [snapshot]
    exact (slots.held id t e found mine present).seen v past
  · have earlier := (ledger.finished writer ts before).1
    rcases stamp with newest | past
    · omega
    · exact separated writer ts readTs isolationLevel e before begins wrote v past older

theorem Separated.step (ledger : Ledger log s) (control : Control s) (slots : Slots false log s)
    (rooted : s.Rooted) (steps : Steps s a next events) : Separated (events ++ log) := by
  cases steps with
  | began added =>
    refine separated.plain (by simp) ?_ (fun _ _ _ _ wrote => wrote) fun _ => rfl
    intro other commitTs readTs isolationLevel committed member
    refine (List.mem_cons.mp member).resolve_left ?_
    rintro event
    cases event
    obtain ⟨-, ⟨_, _, began, -⟩, -⟩ := ledger.finished _ _ committed
    exact absurd (ledger.known _ _ _ began) (lt_irrefl _)
  | scanned ready table serializable =>
    exact separated.plain (by simp) (by simp) (fun _ _ _ _ wrote => wrote) fun _ => rfl
  | inserted ready table grew placed => exact separated.wrote ledger ready (recordsWrite_inserted _ _ _)
  | rewrote ready table listed base own stored | versioned ready table listed base foreign inSnapshot stored =>
    exact separated.wrote ledger ready (recordsWrite_modified _ _ _)
  | published phase found => exact separated.published ledger control slots rooted phase found
  | _ => exact separated

end

end Database

theorem separated_run {log : List Event} {s : Database} (run : Run system Database.Orderly log s) :
    s.Rooted ∧ Database.Separated log := by
  refine Run.invariant (I := fun log s => s.Rooted ∧ Database.Separated log) ?_ ?_ run
  · intro s initial
    refine ⟨?_, fun _ _ _ _ _ committed => by cases committed⟩
    intro id t e found
    rw [Database.Initial.txnMap initial] at found
    cases found
  · rintro log s next a events before ⟨rooted, separated⟩ orderly taken
    have control := control_run before
    have slots := slots_run (before.mono fun _ _ orderly => orderly.admits)
    have after := slots_run ((before.next orderly taken).mono fun _ _ orderly => orderly.admits)
    have steps := Database.steps_of_step taken
    exact ⟨rooted.step control slots after steps orderly.2,
      separated.step (ledger_run before) control slots rooted steps⟩

/-- Of two committed writers of a row, one began after the other had committed. -/
theorem first_committer_wins {log : List Event} {s : Database}
    (run : Run program (Defined Database.overruns Database.Orderly) log s)
    {first second readTs readTs' commitTs commitTs' : Int} {isolationLevel isolationLevel' : IsolationLevel}
    {e : Entry} (apart : first ≠ second) (wrote : Wrote log first e) (wrote' : Wrote log second e)
    (began : Event.began first readTs isolationLevel ∈ log)
    (began' : Event.began second readTs' isolationLevel' ∈ log) (committed : Event.committed first commitTs ∈ log)
    (committed' : Event.committed second commitTs' ∈ log) : commitTs ≤ readTs' ∨ commitTs' ≤ readTs := by
  have run := inFrame_run run
  have ledger := ledger_run run
  have separated := (separated_run run).2
  have version : ∀ {writer ts}, Wrote log writer e → Event.committed writer ts ∈ log →
      ∃ v ∈ history e log, v.ts = ts := by
    rintro writer ts ⟨value, write⟩ done
    exact ⟨⟨ts, value⟩, (ledger.authored e ⟨ts, value⟩).mpr ⟨writer, done, write⟩, rfl⟩
  have distinct : commitTs ≠ commitTs' := by
    rintro rfl
    exact apart (ledger.unique first second commitTs committed committed')
  rcases lt_or_gt_of_ne distinct with earlier | later
  · obtain ⟨v, member, rfl⟩ := version wrote committed
    exact .inl (separated second commitTs' readTs' isolationLevel' e committed' began' wrote' v member earlier)
  · obtain ⟨v, member, rfl⟩ := version wrote' committed'
    exact .inr (separated first commitTs readTs isolationLevel e committed began wrote v member later)

theorem orderly_of_plain {actions : List Action}
    (plain : ∀ a ∈ actions, (∀ id e, a ≠ .rollback id e) ∧ ∀ oid, a ≠ .dropTable oid) :
    ∀ a ∈ actions, ∀ s, Database.Orderly s a := by
  intro a member s
  exact Database.orderly_plain (plain a member).1 (plain a member).2

/-- An update that began after the insert had committed. -/
theorem first_committer_wins_update :
    ∃ log s, Run program (Defined Database.overruns Database.Orderly) log s ∧
      Wrote log txnStartId ⟨0, 0, 0⟩ ∧ Wrote log (txnStartId + 1) ⟨0, 0, 0⟩ ∧ Event.committed txnStartId 1 ∈ log ∧
      Event.committed (txnStartId + 1) 2 ∈ log ∧ ((1 : Int) ≤ 1 ∨ (2 : Int) ≤ 0) := by
  obtain ⟨s, log, run, shown⟩ := exec_shows (M := system)
    (Database.oneRow ++ [.begin .snapshotIsolation, .modify (txnStartId + 1) ⟨0, 0, 0⟩ none,
      .lockCommit (txnStartId + 1), .stamp (txnStartId + 1) ⟨0, 0, 0⟩, .publish (txnStartId + 1)])
    Database.opened_initial (orderly_of_plain (by simp [Database.oneRow])) Prod.snd
    [.committed (txnStartId + 1) 2, .modified (txnStartId + 1) ⟨0, 0, 0⟩ none,
      .began (txnStartId + 1) 1 .snapshotIsolation, .committed txnStartId 1,
      .inserted txnStartId ⟨0, 0, 0⟩ (Database.zeroRow 4), .began txnStartId 0 .snapshotIsolation] rfl
  change log = _ at shown
  have wrote : Wrote log txnStartId ⟨0, 0, 0⟩ := ⟨some (Database.zeroRow 4), by rw [shown]; rfl⟩
  have wrote' : Wrote log (txnStartId + 1) ⟨0, 0, 0⟩ := ⟨none, by rw [shown]; rfl⟩
  have began : Event.began txnStartId 0 .snapshotIsolation ∈ log := by simp [shown]
  have began' : Event.began (txnStartId + 1) 1 .snapshotIsolation ∈ log := by simp [shown]
  have committed : Event.committed txnStartId 1 ∈ log := by simp [shown]
  have committed' : Event.committed (txnStartId + 1) 2 ∈ log := by simp [shown]
  exact ⟨log, s, run_inFrame run, wrote, wrote', committed, committed',
    first_committer_wins (run_inFrame run) (by decide) wrote wrote' began began' committed committed'⟩

/-- A row of 4 bytes and one of 4000 are committed; then one transaction rewrites both in 4 bytes,
the long one first, and another fills the room this left in the page. -/
def filledUp : List Action :=
  Database.twoRows 4000 ++ [.begin .snapshotIsolation, .begin .snapshotIsolation, .begin .snapshotIsolation,
    .modify (txnStartId + 1) ⟨0, 0, 1⟩ (some (Database.zeroRow 4)),
    .modify (txnStartId + 1) ⟨0, 0, 0⟩ (some (Database.zeroRow 4)),
    .insert (txnStartId + 3) 0 (Database.zeroRow 4150)]

/-- A refused rollback leaves its transaction free to commit over a row it has already given back. -/
theorem first_committer_loses :
    ∃ log s, Run system always log s ∧
      Event.began (txnStartId + 1) 1 .snapshotIsolation ∈ log ∧
      Event.began (txnStartId + 2) 1 .snapshotIsolation ∈ log ∧
      Event.committed (txnStartId + 1) 3 ∈ log ∧ Event.committed (txnStartId + 2) 2 ∈ log ∧
      Wrote log (txnStartId + 1) ⟨0, 0, 0⟩ ∧ Wrote log (txnStartId + 2) ⟨0, 0, 0⟩ ∧
      ¬((3 : Int) ≤ 1 ∨ (2 : Int) ≤ 1) := by
  obtain ⟨s, log, run, shown⟩ := exec_shows (M := system) (filledUp ++
    [.startAbort (txnStartId + 1), .rollback (txnStartId + 1) ⟨0, 0, 0⟩,
      .rollback (txnStartId + 1) ⟨0, 0, 1⟩,
      .modify (txnStartId + 2) ⟨0, 0, 0⟩ (some (Database.zeroRow 4)),
      .lockCommit (txnStartId + 2), .stamp (txnStartId + 2) ⟨0, 0, 0⟩, .publish (txnStartId + 2),
      .leave (txnStartId + 2),
      .lockCommit (txnStartId + 1), .stamp (txnStartId + 1) ⟨0, 0, 0⟩, .stamp (txnStartId + 1) ⟨0, 0, 1⟩,
      .publish (txnStartId + 1)])
    Database.opened_initial (fun _ _ _ => trivial) Prod.snd
    [.committed (txnStartId + 1) 3, .committed (txnStartId + 2) 2,
      .modified (txnStartId + 2) ⟨0, 0, 0⟩ (some (Database.zeroRow 4)),
      .inserted (txnStartId + 3) ⟨0, 0, 2⟩ (Database.zeroRow 4150),
      .modified (txnStartId + 1) ⟨0, 0, 0⟩ (some (Database.zeroRow 4)),
      .modified (txnStartId + 1) ⟨0, 0, 1⟩ (some (Database.zeroRow 4)),
      .began (txnStartId + 3) 1 .snapshotIsolation, .began (txnStartId + 2) 1 .snapshotIsolation,
      .began (txnStartId + 1) 1 .snapshotIsolation, .committed txnStartId 1,
      .inserted txnStartId ⟨0, 0, 1⟩ (Database.zeroRow 4000),
      .inserted txnStartId ⟨0, 0, 0⟩ (Database.zeroRow 4), .began txnStartId 0 .snapshotIsolation] rfl
  change log = _ at shown
  exact ⟨log, s, run, by simp [shown], by simp [shown], by simp [shown], by simp [shown],
    ⟨some (Database.zeroRow 4), by rw [shown]; rfl⟩, ⟨some (Database.zeroRow 4), by rw [shown]; rfl⟩,
    by decide⟩

end BumbleBee.Mvcc
