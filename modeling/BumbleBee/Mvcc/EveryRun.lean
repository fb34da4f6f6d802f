import BumbleBee.Mvcc.Serializable
import BumbleBee.Mvcc.TableLifetime

/-!
What every interleaving keeps: a reader sees whole commits, a collection spares what a
snapshot may read, version chains end and run from new to old, and a write set names
the rows written.
-/

namespace BumbleBee.Mvcc
open Library.Transition Library.Versions Storage Storage.SlottedPage Concurrency Database

/-- What a collection removes is aborted, or committed in the past of every registered snapshot. -/
def Database.CollectsUnneeded (s : Database) : Prop :=
  ∀ watermark next events id t, s.step (.collect watermark) = some (next, events) → s.txnMap id = some t →
    next.txnMap id = none → t.state = .aborted ∨
      t.state = .committed ∧ ∀ other readTs, s.registeredTs other = some readTs → t.commitTs ≤ readTs

/-- The logs behind a row run from new to old, and the walk over them ends at the newest a snapshot may see. -/
def Database.ChainsEnd (s : Database) : Prop :=
  ∀ e, s.Present e → ∃ logs, s.Walk (s.versionInfo e.rid) logs ∧
    logs.Pairwise (fun newer older => older.ts < newer.ts) ∧ ∀ readTs fuel, logs.length < fuel →
      (∃ undo ∈ logs, undo.ts ≤ readTs ∧ (∀ other ∈ logs, other.ts ≤ readTs → other.ts ≤ undo.ts) ∧
        s.walkVisible readTs fuel (s.versionInfo e.rid) = some (UndoLog.version undo).value) ∨
      (s.walkVisible readTs fuel (s.versionInfo e.rid) = some none ∧ ∀ other ∈ logs, readTs < other.ts)

/-- A write set lists each row its transaction wrote, once, and the row is still in its table. -/
def Database.WritesListed (s : Database) (log : List Event) : Prop :=
  ∀ id t, s.txnMap id = some t → t.writeSet.Nodup ∧ ∀ e, (e ∈ t.writeSet ↔ Wrote log id e) ∧
    (e ∈ t.writeSet → ∀ heap, s.tables e.oid = some heap → s.Present e)

variable {log : List Event} {s : Database} {id : Int} {t : Transaction} {e : Entry}

/-- A reader's view is what the commits up to its snapshot leave, each of them whole, under its own writes. -/
theorem commits_show_whole (run : Run program (Defined overruns FixedTables) log s) (viewing : s.Viewing id t)
    (present : s.Present e) :
    ∃ bound, ∀ fuel, bound ≤ fuel → s.collectVisibleVersion id t e.rid fuel =
      some (overlay (fun e => lastWrite id e log)
        (serially log ((commits log).filter fun commit => commit.2 ≤ t.readTs)) e) := by
  have run := inFrame_run run
  have ledger := ledger_run run
  have slots := slots_run (untouched_run run).1
  obtain ⟨value, bound, shows', visible⟩ := slots.shows ledger (control_run run) viewing present
  have view : Shows log id t.readTs e (overlay (fun e => lastWrite id e log) (committedAt log t.readTs) e) := by
    cases write : lastWrite id e log with
    | some own => exact .inl (by simp [overlay, write])
    | none =>
      simp only [Shows, overlay, write, Option.getD_none]
      exact .inr ⟨by simp [Wrote, write], ledger.leftBy_snapshot (slots.ordered e) t.readTs⟩
  rw [(commitOrder_run run).replays, ← ledger.shows_unique shows' view]
  exact ⟨bound, visible⟩

/-- Two rows are committed; a reader has begun, and a commit that rewrites one and deletes the other has
stamped the first. -/
def halfStamped : List Action :=
  twoRows 3 ++ [.begin .snapshotIsolation, .begin .snapshotIsolation,
    .modify (txnStartId + 2) ⟨0, 0, 0⟩ (some (zeroRow 1)), .modify (txnStartId + 2) ⟨0, 0, 1⟩ none,
    .readWatermark, .lockCommit (txnStartId + 2), .stamp (txnStartId + 2) ⟨0, 0, 0⟩]

/-- The reader sees both rows as they were committed first. -/
theorem commits_show_whole_stamping :
    ∃ log s t, Run program (Defined overruns FixedTables) log s ∧
      s.phase (txnStartId + 2) = some (.stamping 2 [⟨0, 0, 1⟩]) ∧ s.Viewing (txnStartId + 1) t ∧
      ∀ slot ∈ [0, 1], s.Present ⟨0, 0, slot⟩ ∧ ∃ bound, ∀ fuel, bound ≤ fuel →
        s.collectVisibleVersion (txnStartId + 1) t ⟨0, slot⟩ fuel =
          some (overlay (fun e => lastWrite (txnStartId + 1) e log)
            (serially log ((commits log).filter fun commit => commit.2 ≤ t.readTs)) ⟨0, 0, slot⟩) := by
  obtain ⟨s, log, run, shown⟩ := exec_shows (M := system) halfStamped opened_initial
    (fixedTables_of_plain (by simp [halfStamped, twoRows]))
    (fun r => (r.1.phase (txnStartId + 2), r.1.phase (txnStartId + 1), (r.1.txnMap (txnStartId + 1)).isSome,
      (r.1.tables 0).map TableHeap.pageDirectory,
      (r.1.store.getRow ⟨0, 0⟩).isSome && (r.1.store.getRow ⟨0, 1⟩).isSome))
    (some (.stamping 2 [⟨0, 0, 1⟩]), some .idle, true, some [0], true) rfl
  simp only [Prod.mk.injEq, Option.map_eq_some_iff, Bool.and_eq_true] at shown
  obtain ⟨stamping, idle, found, ⟨heap, table, directory⟩, first, second⟩ := shown
  obtain ⟨t, found⟩ := Option.isSome_iff_exists.mp found
  have viewing : s.Viewing (txnStartId + 1) t := ⟨found, .inl idle⟩
  have run := run_inFrame run
  refine ⟨log, s, t, run, stamping, viewing, ?_⟩
  have page : ∃ heap, s.tables 0 = some heap ∧ 0 ∈ heap.pageDirectory := ⟨heap, table, by simp [directory]⟩
  have rows : ∀ slot ∈ [0, 1], s.Present ⟨0, 0, slot⟩ := by
    simp only [List.mem_cons, List.not_mem_nil, or_false, forall_eq_or_imp, forall_eq]
    exact ⟨⟨page, Option.isSome_iff_exists.mp first⟩, page, Option.isSome_iff_exists.mp second⟩
  exact fun slot member => ⟨rows slot member, commits_show_whole run viewing (rows slot member)⟩

theorem collect_spares_snapshots (run : Run program (Defined overruns always) log s) : s.CollectsUnneeded := by
  intro watermark next events id t taken found gone
  simp only [step, collect] at taken
  split at taken
  · next pending =>
    cases taken
    have old := ((control_run (inFrame_run run)).watermarks watermark pending).2
    have removed : collectible watermark t = true := by simpa [sweep, found] using gone
    simp only [collectible, Bool.or_eq_true, Bool.and_eq_true, decide_eq_true_eq] at removed
    rcases removed with aborted | ⟨committed, past⟩
    · exact .inl aborted
    · exact .inr ⟨committed, fun other readTs registered => past.trans (old other readTs registered)⟩
  · cases taken

/-- With a reader and a writer at timestamp 1, a collection removes the transaction that committed at 1. -/
theorem collect_spares_snapshots_reader :
    ∃ log s t next, Run program (Defined overruns always) log s ∧ s.registeredTs (txnStartId + 1) = some 1 ∧
      s.txnMap txnStartId = some t ∧ s.step (.collect 1) = some (next, []) ∧ next.txnMap txnStartId = none ∧
      (t.state = .aborted ∨
        t.state = .committed ∧ ∀ other readTs, s.registeredTs other = some readTs → t.commitTs ≤ readTs) := by
  obtain ⟨s, log, run, shown⟩ := exec_shows (M := system) halfStamped opened_initial
    (fun _ _ _ => trivial)
    (fun r => (r.1.registeredTs (txnStartId + 1), (r.1.txnMap txnStartId).isSome,
      (r.1.step (.collect 1)).map fun q => ((q.1.txnMap txnStartId).isSome, q.2)))
    (some 1, true, some (false, [])) rfl
  simp only [Prod.mk.injEq, Option.map_eq_some_iff] at shown
  obtain ⟨reader, found, ⟨next, events⟩, taken, gone, rfl⟩ := shown
  obtain ⟨t, found⟩ := Option.isSome_iff_exists.mp found
  have gone : next.txnMap txnStartId = none := Option.not_isSome_iff_eq_none.mp (by simp [gone])
  have run := run_inFrame run
  exact ⟨log, s, t, next, run, reader, found, taken, gone,
    collect_spares_snapshots run 1 next [] txnStartId t taken found gone⟩

theorem Database.Chain.walked {above : Int} {link : Option UndoLink} {versions : List (Version RowBytes)}
    {logs : List UndoLog} (chain : Chain true s above link versions) (walk : s.Walk link logs) :
    logs.map UndoLog.version <+: versions := by
  induction chain generalizing logs with
  | bottom ends =>
    cases walk with
    | ended => exact List.nil_prefix
    | hop found => simp [ends.follow] at found
  | version valid found committed stamped logged rest ih =>
    cases walk with
    | ended => exact List.nil_prefix
    | hop followed older =>
      cases (follow_of_logged valid found logged).symm.trans followed
      exact List.cons_prefix_cons.mpr ⟨rfl, ih older⟩
  | swept valid known gone =>
    cases walk with
    | ended => exact List.nil_prefix
    | hop followed =>
      obtain ⟨l, owner, same, -, found, -⟩ := follow_some followed
      cases same
      simp [gone] at found

theorem Database.Slots.newestFirst {logs : List UndoLog} (slots : Slots true log s) (ledger : Ledger log s)
    (control : Control s) (present : s.Present e) (walk : s.Walk (s.versionInfo e.rid) logs) :
    (logs.map UndoLog.version).Pairwise fun newer older => older.ts < newer.ts := by
  have whole : ∀ {ground : List (Version RowBytes)}, IsGround ground →
      (history e log ++ ground).Pairwise fun newer older => older.ts < newer.ts := by
    intro ground flat
    refine List.pairwise_append.mpr ⟨slots.ordered e, by rcases flat with rfl | rfl <;> simp, ?_⟩
    intro v member bottom inside
    obtain ⟨writer, committed, -⟩ := (ledger.authored e v).mp member
    obtain ⟨-, ⟨readTs, -, -, positive, earlier⟩, -⟩ := ledger.finished writer v.ts committed
    rcases flat with rfl | rfl
    · cases inside
    · rw [List.mem_singleton.mp inside]
      exact lt_of_le_of_lt positive earlier
  by_cases free : ∀ id, e ∉ s.pending id
  · obtain ⟨tuple, older, ground, -, flat, versions, chain⟩ := slots.settled e present free
    have ordered := whole flat
    rw [← versions] at ordered
    exact ordered.tail.sublist (chain.walked walk).sublist
  · obtain ⟨id, member⟩ := not_forall_not.mp free
    obtain ⟨t, found, -⟩ := control.live_of_pending member
    rcases (slots.held id t e found member present).below with
      ⟨-, bottom⟩ | ⟨idx, undo, older, ground, head, logged, flat, versions, chain⟩
    · cases walk with
      | ended => exact List.Pairwise.nil
      | hop followed => simp [bottom.follow] at followed
    · have valid := UndoLink.isValid_of_txn (control.txns id t found).old idx
      have followed := follow_of_logged valid found logged
      rw [← head] at followed
      cases walk with
      | ended missing => simp [followed] at missing
      | hop again rest =>
        cases followed.symm.trans again
        have ordered := whole flat
        rw [← versions] at ordered
        exact ordered.sublist ((chain.walked rest).sublist.cons_cons _)

theorem version_chains_end (run : Run program (Defined overruns FixedTables) log s) : s.ChainsEnd := by
  intro e present
  have run := inFrame_run run
  obtain ⟨logs, walk⟩ := (walks_run run).heads e.rid
  have ordered := (slots_run (untouched_run run).1).newestFirst (ledger_run run) (control_run run) present walk
  refine ⟨logs, walk, List.pairwise_map.mp ordered, ?_⟩
  intro readTs fuel enough
  rw [walk.visible readTs fuel enough]
  rcases snapshot_spec ordered readTs with ⟨v, member, seen, value, greatest⟩ | ⟨missing, younger⟩
  · obtain ⟨undo, inside, rfl⟩ := List.mem_map.mp member
    exact .inl ⟨undo, inside, seen, fun other there => greatest _ (List.mem_map_of_mem there), by rw [value]⟩
  · exact .inr ⟨by rw [missing], fun other there => younger _ (List.mem_map_of_mem there)⟩

/-- Two committed versions hang below an update under way; a snapshot between them reads the older one. -/
theorem version_chains_end_updated :
    ∃ log s, Run program (Defined overruns FixedTables) log s ∧ s.Present ⟨0, 0, 0⟩ ∧
      (s.follow (s.versionInfo ⟨0, 0⟩)).map UndoLog.ts = some 2 ∧
      (s.walkVisible 1 3 (s.versionInfo ⟨0, 0⟩)).map (Option.map RowBytes.size) = some (some 4) ∧ s.ChainsEnd := by
  obtain ⟨s, log, run, shown⟩ := exec_shows (M := system)
    (updatedOnce ++ [.begin .snapshotIsolation, .modify (txnStartId + 2) ⟨0, 0, 0⟩ none]) opened_initial
    (fixedTables_of_plain (by simp [updatedOnce, Database.oneRow]))
    (fun r => ((r.1.tables 0).map TableHeap.pageDirectory, (r.1.store.getRow ⟨0, 0⟩).isSome,
      (r.1.follow (r.1.versionInfo ⟨0, 0⟩)).map UndoLog.ts,
      (r.1.walkVisible 1 3 (r.1.versionInfo ⟨0, 0⟩)).map (Option.map RowBytes.size)))
    (some [0], true, some 2, some (some 4)) rfl
  rw [Prod.mk.injEq, Prod.mk.injEq, Prod.mk.injEq, Option.map_eq_some_iff] at shown
  obtain ⟨⟨heap, table, directory⟩, row, newest, older⟩ := shown
  have run := run_inFrame run
  exact ⟨log, s, run, ⟨⟨heap, table, by simp [directory]⟩, Option.isSome_iff_exists.mp row⟩, newest, older,
    version_chains_end run⟩

theorem write_sets_listed (run : Run program (Defined overruns always) log s) : s.WritesListed log := by
  intro id t found
  have run := inFrame_run run
  have sets := writeSets_run run
  refine ⟨((control_run run).txns id t found).distinct, ?_⟩
  intro e
  have wrote := sets.writes id t found e
  exact ⟨wrote, fun member => (sets.lasting id e (wrote.mp member)).2⟩

theorem write_sets_listed_stamping :
    ∃ log s t, Run program (Defined overruns always) log s ∧ s.txnMap (txnStartId + 2) = some t ∧
      t.writeSet = [⟨0, 0, 1⟩, ⟨0, 0, 0⟩] ∧ s.WritesListed log := by
  obtain ⟨s, log, run, shown⟩ := exec_shows (M := system) halfStamped opened_initial
    (fun _ _ _ => trivial) (fun r => (r.1.txnMap (txnStartId + 2)).map Transaction.writeSet)
    (some [⟨0, 0, 1⟩, ⟨0, 0, 0⟩]) rfl
  obtain ⟨t, found, writes⟩ := Option.map_eq_some_iff.mp shown
  have run := run_inFrame run
  exact ⟨log, s, t, run, found, writes, write_sets_listed run⟩

end BumbleBee.Mvcc
