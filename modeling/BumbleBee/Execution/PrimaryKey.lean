import BumbleBee.Execution.Directory
import BumbleBee.Execution.Program

/-!
Primary keys over whole runs: what a transaction sees of a table has one row per
key, and the directory leads to it.
-/

namespace BumbleBee.Execution
open Library.Transition Mvcc Storage Concurrency

namespace Engine

variable {κ : Type} [DecidableEq κ] {catalog : Catalog κ} {pk : IndexInfo κ} {oid : Nat} {s : Engine κ}
  {log : List Event}

theorem fixedTables_rows (db : Database) (b : Mvcc.Action) (write : RowWrite b) : db.FixedTables b := by
  rcases write with ⟨id, oid, row, rfl⟩ | ⟨id, e, value, rfl⟩
  · exact ⟨fun _ _ _ _ same => (by cases same), by simp⟩
  · exact ⟨fun _ _ _ _ same => (by cases same), by simp⟩

theorem keyed_run (declared : (catalog oid).primaryKey = some pk)
    (run : Run (engine catalog) (Under Database.FixedTables) log s) : Keyed pk oid log s := by
  refine Run.invariant (M := engine catalog) (I := fun log s => Keyed pk oid log s)
    (fun s initial => Initial.keyed initial) ?_ run
  intro log s next a events before keyed admitted taken
  have below := db_run fixedTables_rows before
  exact keyed.step declared (sessions_run fixedTables_rows (fun _ _ fixed => fixed.1) before) (sound_run below)
    (slots_run (untouched_run below).1) (moves_of_step taken)

end Engine

open Engine

variable {κ : Type} [DecidableEq κ] {catalog : Catalog κ}

/-- Every row ever stored at a row id of the directory carries its key, and a transaction that has failed
no statement and has no row between its append and its registration sees at most one row per key, the
one the directory has for it. -/
theorem primaryKey_unique {log : List Event} {s : Engine κ}
    (run : Run (program catalog) (Defined (faults catalog) (Under Database.FixedTables)) log s) {oid : Nat}
    {pk : IndexInfo κ} (declared : (catalog oid).primaryKey = some pk) :
    (∀ k rid writer row, s.directory oid k = some rid → Stored log writer ⟨oid, rid⟩ row → pk.key row = k) ∧
    ∀ id t, s.db.Reading id t → s.failed id = false → (∀ rid, ¬Pending oid s id rid) →
      (∀ rid fuel row, s.db.Present ⟨oid, rid⟩ → s.db.collectVisibleVersion id t rid fuel = some (some row) →
        s.directory oid (pk.key row) = some rid) ∧
      ∀ rid rid' fuel fuel' row row', s.db.Present ⟨oid, rid⟩ → s.db.Present ⟨oid, rid'⟩ →
        s.db.collectVisibleVersion id t rid fuel = some (some row) →
        s.db.collectVisibleVersion id t rid' fuel' = some (some row') → pk.key row = pk.key row' → rid = rid' := by
  have run := defined_run run
  have keyed := keyed_run declared run
  have below := db_run fixedTables_rows run
  have sessions := sessions_run fixedTables_rows (fun _ _ fixed => fixed.1) run
  constructor
  · intro k rid writer row known stored
    rcases keyed.written writer rid row stored with listed | ⟨unlisted, -⟩
    · exact keyed.injective _ _ rid listed known
    · exact absurd known (unlisted k)
  · intro id t reading sane settled
    have mapped : ∀ rid fuel row, s.db.Present ⟨oid, rid⟩ →
        s.db.collectVisibleVersion id t rid fuel = some (some row) → s.directory oid (pk.key row) = some rid :=
      fun rid fuel row present read => keyed.visible sessions (sound_run below)
        (slots_run (untouched_run below).1) reading.viewing sane settled present read
    refine ⟨mapped, ?_⟩
    intro rid rid' fuel fuel' row row' present present' read read' same
    have first := mapped rid fuel row present read
    have second := mapped rid' fuel' row' present' read'
    rw [same, second] at first
    exact (Option.some.inj first).symm

/-- A primary key in the first four bytes of the row. -/
def integerKey : IndexInfo (List UInt8) := ⟨[⟨0, 0, 4⟩], 4, fun bytes => bytes⟩

def integerKeyed : Catalog (List UInt8) := fun _ => ⟨some integerKey, false⟩

omit [DecidableEq κ] in
theorem fixedTables_under {actions : List Action}
    (plain : ∀ b, .mvcc b ∈ actions → (∀ id e, b ≠ .rollback id e) ∧ ∀ oid, b ≠ .dropTable oid) :
    ∀ a ∈ actions, ∀ s : Engine κ, Under Database.FixedTables s a := by
  rintro a member s b rfl
  exact ⟨fun id e _ _ same => absurd same ((plain b member).1 id e), (plain b member).2⟩

/-- Two workers of one INSERT, both past the lookup of the same key. -/
def racing : List Action :=
  [.mvcc .createTable, .mvcc (.begin .snapshotIsolation), .start txnStartId .insert 0 2,
    .sink txnStartId 0 (.insert (.zeros 4)) 0, .sink txnStartId 1 (.insert (.zeros 4)) 0,
    .combine txnStartId 0, .combine txnStartId 1, .scanKey txnStartId 0, .scanKey txnStartId 1,
    .append txnStartId 0]

/-- The faster worker has registered its row. -/
theorem primaryKey_unique_registered :
    ∃ log s t row,
      Run (program integerKeyed) (Defined (faults integerKeyed) (Under Database.FixedTables)) log s ∧
      s.db.Reading txnStartId t ∧ s.failed txnStartId = false ∧ (∀ rid, ¬Pending 0 s txnStartId rid) ∧
      s.db.Present ⟨0, 0, 0⟩ ∧ s.db.collectVisibleVersion txnStartId t ⟨0, 0⟩ 1 = some (some row) ∧
      s.directory 0 (integerKey.key row) = some ⟨0, 0⟩ := by
  obtain ⟨s, log, run, shown⟩ := exec_shows (M := engine integerKeyed) (racing ++ [.insertEntry txnStartId 0])
    opened_initial (fixedTables_under (by simp [racing]))
    (fun r => (r.1.db.phase txnStartId, (r.1.db.txnMap txnStartId).map fun t =>
        (t.state, (r.1.db.collectVisibleVersion txnStartId t ⟨0, 0⟩ 1).map Option.isSome),
      (r.1.db.tables 0).map TableHeap.pageDirectory, (r.1.db.store.getRow ⟨0, 0⟩).isSome, r.1.failed txnStartId,
      (r.1.statement txnStartId).map fun st => (st.workers, (st.tasks 0).probe, (st.tasks 1).probe)))
    (some .idle, some (.running, some true), some [0], true, false, some (2, .unclassified, .absent)) rfl
  simp only [Prod.mk.injEq, Option.map_eq_some_iff] at shown
  obtain ⟨idle, ⟨t, found, running, value, read, seen⟩, ⟨heap, table, directory⟩, present, sane, st, statement,
    workers, first, second⟩ := shown
  obtain ⟨row, rfl⟩ := Option.isSome_iff_exists.mp seen
  have reading : s.db.Reading txnStartId t := ⟨found, running, .inl idle⟩
  have here : s.db.Present ⟨0, 0, 0⟩ :=
    ⟨⟨heap, table, by simp [directory]⟩, Option.isSome_iff_exists.mp present⟩
  have settled : ∀ rid, ¬Pending 0 s txnStartId rid := by
    rintro rid ⟨st', statement', -, w, worker, probe⟩
    rw [statement] at statement'
    cases statement'
    have two : w = 0 ∨ w = 1 := by omega
    rcases two with rfl | rfl
    · simp [first] at probe
    · simp [second] at probe
  have run := run_defined run
  obtain ⟨-, mapped⟩ := primaryKey_unique run (show (integerKeyed 0).primaryKey = some integerKey from rfl)
  exact ⟨log, s, t, row, run, reading, sane, settled, here, read,
    (mapped txnStartId t reading sane settled).1 ⟨0, 0⟩ 1 row here read⟩

/-- Between the appends of two workers and their registrations one transaction sees two rows with one
key, and the directory has neither. -/
theorem primaryKey_provisional :
    ∃ log s t row row', Run (engine integerKeyed) (Under Database.FixedTables) log s ∧
      s.db.Reading txnStartId t ∧ s.failed txnStartId = false ∧
      s.db.Present ⟨0, 0, 0⟩ ∧ s.db.Present ⟨0, 0, 1⟩ ∧
      s.db.collectVisibleVersion txnStartId t ⟨0, 0⟩ 1 = some (some row) ∧
      s.db.collectVisibleVersion txnStartId t ⟨0, 1⟩ 1 = some (some row') ∧
      integerKey.key row = integerKey.key row' ∧ s.directory 0 (integerKey.key row) = none := by
  obtain ⟨s, log, run, shown⟩ := exec_shows (M := engine integerKeyed) (racing ++ [.append txnStartId 1])
    opened_initial (fixedTables_under (by simp [racing]))
    (fun r => (r.1.db.phase txnStartId, (r.1.db.txnMap txnStartId).map fun t =>
        (t.state, (r.1.db.collectVisibleVersion txnStartId t ⟨0, 0⟩ 1).map (Option.map integerKey.key),
          (r.1.db.collectVisibleVersion txnStartId t ⟨0, 1⟩ 1).map (Option.map integerKey.key)),
      (r.1.db.tables 0).map TableHeap.pageDirectory, (r.1.db.store.getRow ⟨0, 0⟩).isSome,
      (r.1.db.store.getRow ⟨0, 1⟩).isSome, r.1.failed txnStartId, r.1.directory 0 [0, 0, 0, 0]))
    (some .idle, some (.running, some (some [0, 0, 0, 0]), some (some [0, 0, 0, 0])), some [0], true, true, false,
      none) rfl
  simp only [Prod.mk.injEq, Option.map_eq_some_iff] at shown
  obtain ⟨idle, ⟨t, found, running, ⟨value, read, row, rfl, key⟩, value', read', row', rfl, key'⟩,
    ⟨heap, table, directory⟩, first, second, sane, unknown⟩ := shown
  have owned : s.db.Owns 0 0 := ⟨heap, table, by simp [directory]⟩
  refine ⟨log, s, t, row, row', run, ⟨found, running, .inl idle⟩, sane, ⟨owned, Option.isSome_iff_exists.mp first⟩,
    ⟨owned, Option.isSome_iff_exists.mp second⟩, read, read', key.trans key'.symm, ?_⟩
  rw [key]
  exact unknown

end BumbleBee.Execution
