import BumbleBee.Mvcc.Rollback
import BumbleBee.Mvcc.SnapshotReads
import BumbleBee.Mvcc.Frames

/-!
Version chains across table lifetimes. Undo links are kept per page id and outlive
the table that owned the page. As long as no page is handed out with a link into a
transaction still in the map, every version found at a slot was written into it;
the aborts of a transaction that inserted the slot leave a tombstone.
-/

namespace BumbleBee.Mvcc
open Library.Transition Library.Versions Storage Storage.SlottedPage Concurrency

/-- The bytes were written into the entry's slot by some statement. -/
def Into (log : List Event) (e : Entry) (row : RowBytes) : Prop :=
  ∃ id, Event.inserted id e row ∈ log ∨ Event.modified id e (some row) ∈ log

def Inserted (log : List Event) (id : Int) (e : Entry) : Prop := ∃ row, Event.inserted id e row ∈ log

variable {log : List Event}

theorem Into.append {e : Entry} {row : RowBytes} (into : Into log e row)
    (events : List Event) : Into (events ++ log) e row := by
  obtain ⟨id, inserted | modified⟩ := into
  · exact ⟨id, .inl (List.mem_append_right _ inserted)⟩
  · exact ⟨id, .inr (List.mem_append_right _ modified)⟩

theorem Inserted.wrote {id : Int} {e : Entry} (inserted : Inserted log id e) : Wrote log id e := by
  obtain ⟨row, member⟩ := inserted
  obtain ⟨later, earlier, rfl⟩ := List.append_of_mem member
  apply wrote_append
  exact ((recordsWrite_inserted id e row).wrote ..).mpr (.inl ⟨rfl, rfl⟩)

namespace Database

/-- A version of the entry's own: its bytes were written into the slot, and it is older than the
snapshot of the live transaction that inserted the slot only as a tombstone. -/
structure Sourced (log : List Event) (s : Database) (e : Entry) (v : Version RowBytes) : Prop where
  into : ∀ row, v.value = some row → Into log e row
  fresh : ∀ id t, s.txnMap id = some t → t.Live → Inserted log id e → v.ts ≤ t.readTs → v = ⟨0, none⟩

structure Provenance (log : List Event) (s : Database) (e : Entry) : Prop where
  base : ∀ tuple, s.store.getRow e.rid = some tuple → Sourced log s e (tupleVersion tuple)
  below : ∀ logs, s.Walk (s.versionInfo e.rid) logs → ∀ undo ∈ logs, Sourced log s e (UndoLog.version undo)

structure Lifetimes (log : List Event) (s : Database) : Prop where
  sourced : ∀ e, s.Present e → Provenance log s e
  vacant : ∀ oid (rid : RID), s.Owns oid rid.pageId → (∀ other, ¬s.Present ⟨other, rid⟩) →
    s.Bottom true (s.versionInfo rid)
  captured : ∀ id t, s.txnMap id = some t → ∀ undo ∈ t.undoLogs, undo.ts ≤ t.readTs

variable {s next : Database} {id : Int} {log : List Event} {e : Entry} {a : Action} {events : List Event}
  {v : Version RowBytes}

theorem Sound.inserted_before (sound : Sound log s) (steps : Steps s a next events) (present : s.Present e)
    (inserted : Inserted (events ++ log) id e) : Inserted log id e := by
  obtain ⟨row, member⟩ := inserted
  rcases List.mem_append.mp member with new | old
  · cases steps with
    | inserted ready table grew placed =>
      cases List.mem_singleton.mp new
      exact absurd present (sound.heaps.insert_absent table grew _)
    | _ => simp at new
  · exact ⟨row, old⟩

theorem Sound.inserter_before (sound : Sound log s) (steps : Steps s a next events) {t : Transaction}
    (found : next.txnMap id = some t) (live : t.Live) (inserted : Inserted log id e) :
    ∃ before, s.txnMap id = some before ∧ before.Live ∧ t.readTs = before.readTs := by
  rcases sound.control.live_before steps found live with ⟨before, here, alive⟩ | unborn
  · obtain ⟨t', there, snapshot, -⟩ := (sound.control.keeps steps).live id before here alive
    rw [found] at there
    cases there
    exact ⟨before, here, alive, snapshot⟩
  · have known := sound.sets.writers id e inserted.wrote
    omega

theorem Sourced.step (sourced : Sourced log s e v) (sound : Sound log s) (steps : Steps s a next events)
    (present : s.Present e) : Sourced (events ++ log) next e v := by
  constructor
  · intro row value
    exact (sourced.into row value).append events
  · intro id t found live inserted seen
    have earlier := sound.inserted_before steps present inserted
    obtain ⟨before, here, alive, snapshot⟩ := sound.inserter_before steps found live earlier
    exact sourced.fresh id before here alive earlier (by rw [← snapshot]; exact seen)

/-- A version newer than every snapshot is anybody's. -/
theorem sourced_of_newer (control : Control next) (into : ∀ row, v.value = some row → Into log e row)
    (newer : next.lastCommitTs < v.ts) : Sourced log next e v := by
  refine ⟨into, ?_⟩
  intro id t found live inserted seen
  have snapshot := (control.txns id t found).snapshot.2
  omega

theorem sourced_tombstone : Sourced log s e ⟨0, none⟩ :=
  ⟨fun _ value => (by cases value), fun _ _ _ _ _ _ => rfl⟩

section
variable (provenance : Provenance log s e)
include provenance

theorem Provenance.below_step (sound : Sound log s) (steps : Steps s a next events) (present : s.Present e)
    {logs : List UndoLog} (walk : next.Walk (s.versionInfo e.rid) logs) {undo : UndoLog} (member : undo ∈ logs) :
    Sourced (events ++ log) next e (UndoLog.version undo) := by
  obtain ⟨before, walked⟩ := sound.walks.heads e.rid
  have start := walk.before walked sound.links (sound.control.grows steps) (sound.links.heads e.rid)
  exact (provenance.below before walked undo (start.subset member)).step sound steps present

theorem Provenance.rebased (sound : Sound log s) (steps : Steps s a next events) (present : s.Present e)
    {tuple : TupleMeta × RowBytes} (row : next.store.getRow e.rid = some tuple)
    (base : Sourced (events ++ log) next e (tupleVersion tuple))
    (link : next.versionInfo e.rid = s.versionInfo e.rid) : Provenance (events ++ log) next e := by
  constructor
  · intro tuple' found
    rw [row] at found
    cases found
    exact base
  · intro logs walk undo member
    rw [link] at walk
    exact provenance.below_step sound steps present walk member

theorem Provenance.frame (sound : Sound log s) (steps : Steps s a next events) (present : s.Present e)
    (row : next.store.getRow e.rid = s.store.getRow e.rid) (link : next.versionInfo e.rid = s.versionInfo e.rid) :
    Provenance (events ++ log) next e := by
  obtain ⟨tuple, found⟩ := present.2
  exact provenance.rebased sound steps present (row.trans found)
    ((provenance.base tuple found).step sound steps present) link

end

section
variable (lifetimes : Lifetimes log s)
include lifetimes

section
variable (sound : Sound log s)
include sound

theorem Lifetimes.targeted (steps : Steps s a next events) (present : s.Present e) (target : a.Targets e) :
    Provenance (events ++ log) next e := by
  have provenance := lifetimes.sourced e present
  have control := sound.control.step steps
  have clock := sound.control.clock
  have taken := steps
  cases steps with
  | @rewrote id e' value t heap tupleMeta row after ready table listed base own stored =>
    cases target
    refine provenance.rebased sound taken present stored.getRow_self ?_ rfl
    rw [tupleVersion_written]
    refine sourced_of_newer control ?_ (lt_of_lt_of_le clock.2 (sound.control.txns id t ready.found).old)
    rintro row rfl
    exact ⟨id, .inr (by simp)⟩
  | @versioned id e' value t heap tupleMeta row after ready table listed base foreign inSnapshot stored =>
    cases target
    have old := (sound.control.txns id t ready.found).old
    constructor
    · intro tuple found
      cases stored.getRow_self.symm.trans found
      rw [tupleVersion_written]
      refine sourced_of_newer control ?_ (lt_of_lt_of_le clock.2 old)
      rintro row rfl
      exact ⟨id, .inr (by simp)⟩
    · intro logs walk undo member
      simp only [setTxn, updateUndoLink, Function.update_self] at walk
      cases walk with
      | ended => cases member
      | hop found rest =>
        cases (follow_appended old _ _).symm.trans found
        rcases List.mem_cons.mp member with rfl | inside
        · rw [version_undoLogOf]
          exact (provenance.base _ base).step sound taken present
        · exact provenance.below_step sound taken present (rest.congr (follow_getD _ _).symm) inside
  | @stamped id e' commitTs rest heap tupleMeta row after phase member table base stored =>
    cases target
    refine provenance.rebased sound taken present stored.getRow_self ?_ rfl
    obtain ⟨-, -, -, -, rfl, -⟩ := sound.control.finalizing phase (by simp)
    exact sourced_of_newer control (fun row value => (provenance.base _ base).into row value)
      (Int.lt_succ _)
  | @restored id e' rest t heap link undo tupleMeta row after phase found member table head valid own logged base stored =>
    cases target
    have followed : s.follow (s.versionInfo e.rid) = some undo := by
      rw [head]
      exact follow_of_logged valid (own ▸ found) logged
    obtain ⟨older, walked⟩ := sound.walks.logs id t found undo (List.mem_of_getElem? logged)
    have whole := Walk.hop followed walked
    constructor
    · intro tuple here
      cases stored.getRow_self.symm.trans here
      rw [tupleVersion_restored]
      exact (provenance.below _ whole undo (by simp)).step sound taken present
    · intro logs walk undo' inside
      simp only [setPhase, updateUndoLink, Function.update_self] at walk
      have ok : ∀ l ∈ some undo.prevVersion, s.LinkOk l := by
        intro l here
        cases here
        exact sound.links.logs id t found undo (List.mem_of_getElem? logged)
      have start := (walk.congr (follow_normalized _ _).symm).before walked sound.links
        (sound.control.grows taken) ok
      exact (provenance.below _ whole undo' (List.mem_cons_of_mem _ (start.subset inside))).step sound
        taken present
  | tombstoned phase member table unowned base stored =>
    cases target
    exact provenance.rebased sound taken present stored.getRow_self sourced_tombstone rfl
  | modifyConflict | rewriteTooLarge | versionTooLarge | stampSkipped | rollbackSkipped | rollbackFailed =>
    exact provenance.frame sound taken present rfl rfl
  | _ => cases target

theorem Lifetimes.vacant_page (fresh : FreshPages s next)
    {oid : Nat} {rid : RID} (owned : next.Owns oid rid.pageId) (absent : ∀ other, ¬s.Present ⟨other, rid⟩) :
    s.Bottom true (s.versionInfo rid) := by
  by_cases before : ∃ other, s.Owns other rid.pageId
  · obtain ⟨other, owns⟩ := before
    exact lifetimes.vacant other rid owns absent
  · exact fresh.bottom sound.links owned fun other owns => before ⟨other, owns⟩

theorem Lifetimes.inserted (fresh : FreshPages s next)
    {row : RowBytes} (steps : Steps s a next [.inserted id e row]) (present : next.Present e)
    (stored : next.store.getRow e.rid = some (⟨id, false⟩, row)) (absent : ∀ other, ¬s.Present ⟨other, e.rid⟩)
    (old : txnStartId ≤ id) : Provenance (.inserted id e row :: log) next e := by
  have control := sound.control.step steps
  constructor
  · intro tuple found
    rw [stored] at found
    cases found
    refine sourced_of_newer control ?_ (lt_of_lt_of_le control.clock.2 old)
    rintro row' same
    cases same
    exact ⟨id, .inl (by simp)⟩
  · intro logs walk undo member
    have ends := (lifetimes.vacant_page sound fresh present.1 absent).keeps (sound.control.keeps steps)
    rw [sound.link_kept steps absent] at walk
    cases walk with
    | ended => cases member
    | hop found => simp [ends.follow] at found

theorem Lifetimes.sourced_step (fresh : FreshPages s next)
    (steps : Steps s a next events) (present : next.Present e) : Provenance (events ++ log) next e := by
  by_cases before : s.Present e
  · by_cases target : a.Targets e
    · exact lifetimes.targeted sound steps before target
    · obtain ⟨row, link⟩ := sound.untargeted steps present before target
      exact (lifetimes.sourced e before).frame sound steps before row link
  · obtain ⟨id, row, new⟩ := (sound.heaps.present_before steps present).resolve_left before
    have taken := steps
    cases steps with
    | inserted ready table grew placed =>
      cases new
      exact lifetimes.inserted sound fresh taken present placed.getRow_new
        (sound.heaps.insert_absent table grew) (sound.control.txns _ _ ready.found).old
    | _ => cases new

end

end

/-- A slot that is missing from an owned page after a step was missing before it. -/
theorem Sound.absent_before (sound : Sound log s) (steps : Steps s a next events) {oid : Nat} {rid : RID}
    (owned : next.Owns oid rid.pageId) (absent : ∀ other, ¬next.Present ⟨other, rid⟩) (other : Nat) :
    ¬s.Present ⟨other, rid⟩ := by
  intro present
  by_cases before : s.Owns oid rid.pageId
  · have same : oid = other := sound.heaps.disjoint oid other rid.pageId before present.1
    subst same
    obtain ⟨heap, table, -⟩ := owned
    exact absent oid (sound.heaps.present_kept steps present table)
  · exact sound.heaps.old_page present.1 (newlyOwned steps owned before)

theorem Lifetimes.step (lifetimes : Lifetimes log s) (sound : Sound log s) (fresh : FreshPages s next)
    (steps : Steps s a next events) : Lifetimes (events ++ log) next := by
  constructor
  · intro e present
    exact lifetimes.sourced_step sound fresh steps present
  · intro oid rid owned absent
    have before := sound.absent_before steps owned absent
    rw [sound.link_kept steps before]
    exact (lifetimes.vacant_page sound fresh owned before).keeps (sound.control.keeps steps)
  · intro id t found undo member
    rcases sound.control.logs steps found member with ⟨before, here, inside⟩ | captured
    · rw [sound.readTs_kept steps found here]
      exact lifetimes.captured id before here undo inside
    · obtain ⟨before, e, heap, tupleMeta, row, ready, -, -, -, inSnapshot, rfl⟩ := captured
      rw [sound.readTs_kept steps found ready.found]
      exact inSnapshot

theorem Initial.lifetimes (initial : Initial s) : Lifetimes [] s := by
  have unowned : ∀ oid pageId, ¬s.Owns oid pageId := by
    rintro oid pageId ⟨heap, table, -⟩
    rw [initial.tables] at table
    cases table
  constructor
  · exact fun e present => absurd present.1 (unowned _ _)
  · exact fun oid rid owned => absurd owned (unowned _ _)
  · intro id t found
    rw [initial.txnMap] at found
    cases found

theorem Lifetimes.visible (lifetimes : Lifetimes log s) (sound : Sound log s) (present : s.Present e) (id : Int)
    (t : Transaction) :
    ∃ value bound, (∀ fuel, bound ≤ fuel → s.collectVisibleVersion id t e.rid fuel = some value) ∧
      ∀ row, value = some row → Into log e row := by
  obtain ⟨base, below⟩ := lifetimes.sourced e present
  obtain ⟨-, ⟨tupleMeta, row⟩, found⟩ := present
  obtain ⟨logs, walk⟩ := sound.walks.heads e.rid
  by_cases direct : tupleMeta.ts = id ∨ tupleMeta.ts ≤ t.readTs
  · refine ⟨(tupleVersion (tupleMeta, row)).value, 0, ?_, (base _ found).into⟩
    intro fuel _
    simp only [collectVisibleVersion, found, reconstructVisible, if_pos direct]
    rfl
  · refine ⟨snapshot (logs.map UndoLog.version) t.readTs, logs.length + 1, ?_, ?_⟩
    · intro fuel enough
      simp only [collectVisibleVersion, found, reconstructVisible, if_neg direct]
      exact walk.visible t.readTs fuel enough
    · intro row shown
      obtain ⟨v, member, same⟩ := snapshot_mem shown
      obtain ⟨undo, inside, rfl⟩ := List.mem_map.mp member
      exact (below logs walk undo inside).into row same

/-- Rolling back a slot the transaction inserted leaves a tombstone, and cannot fail. -/
theorem Lifetimes.rollback_inserted (lifetimes : Lifetimes log s) (sound : Sound log s) {t : Transaction}
    (found : s.txnMap id = some t) (live : t.Live) (inserted : Inserted log id e) (present : s.Present e) :
    ∃ next row, s.mvccRollback id t e.rid = .restored next ∧
      next.store.getRow e.rid = some (⟨0, true⟩, row) := by
  obtain ⟨old, base⟩ := present.2
  have tombstoned : s.mvccRollback id t e.rid = s.tombstone e.rid →
      ∃ next row, s.mvccRollback id t e.rid = .restored next ∧
        next.store.getRow e.rid = some (⟨0, true⟩, row) := by
    intro same
    obtain ⟨next, done, after, heads, rfl, stored, -⟩ := tombstone_spec base
    exact ⟨_, old.2, same.trans done, stored.getRow_self⟩
  cases head : s.versionInfo e.rid with
  | none => exact tombstoned (by simp only [mvccRollback, getUndoLink, head])
  | some link =>
    by_cases own : link.isValid = true ∧ link.prevTxn = id
    · have inside := (sound.links.heads e.rid link head own.1).2 t (own.2 ▸ found)
      obtain ⟨undo, logged⟩ : ∃ undo, t.undoLogs[link.prevLogIdx]? = some undo :=
        ⟨_, List.getElem?_eq_getElem inside⟩
      have followed : s.follow (s.versionInfo e.rid) = some undo := by
        rw [head]
        exact follow_of_logged own.1 (own.2 ▸ found) logged
      have member := List.mem_of_getElem? logged
      obtain ⟨older, walk⟩ := sound.walks.logs id t found undo member
      have sourced := (lifetimes.sourced e present).below _ (Walk.hop followed walk) undo (by simp)
      have tomb := sourced.fresh id t found live inserted (lifetimes.captured id t found undo member)
      have restored : restoredTuple undo old.2 = (⟨0, true⟩, old.2) := by
        obtain ⟨ts, value⟩ := Version.mk.inj tomb
        cases deleted : undo.isDeleted with
        | true => simp only [restoredTuple, deleted, ts, if_true]
        | false => simp [deleted] at value
      have rollback : s.mvccRollback id t e.rid = s.restorePreImage e.rid undo := by
        simp only [mvccRollback, getUndoLink, head, own, and_self, if_true, Transaction.getUndoLog, logged]
      have bound := s.level_le e.rid.pageId
      rcases restorePreImage_spec base undo with ⟨-, next, done, after, heads, rfl, stored, -⟩ | ⟨full, -⟩
      · refine ⟨_, old.2, rollback.trans done, ?_⟩
        rw [← restored]
        exact stored.getRow_self
      · simp only [restored] at full
        omega
    · exact tombstoned (by simp only [mvccRollback, getUndoLink, head, own, if_false])

end Database

theorem lifetimes_run {s : Database} (run : Run system Database.CleanAlloc log s) : Database.Lifetimes log s := by
  refine Run.invariant (I := fun log s => Database.Lifetimes log s)
    (fun s initial => Database.Initial.lifetimes initial) ?_ run
  intro log s next a events before lifetimes clean taken
  exact lifetimes.step (sound_run before) (clean next events taken) (Database.steps_of_step taken)

/-- While every page handed to a table is free of links into the transaction map, no slot ever shows
bytes of a table that owned its page before, and aborting its insertion leaves a tombstone. -/
theorem versions_keep_to_their_table {log : List Event} {s : Database}
    (run : Run program (Defined Database.overruns Database.CleanAlloc) log s) :
    (∀ e, s.Present e → ∀ id t, s.txnMap id = some t →
      ∃ value bound, (∀ fuel, bound ≤ fuel → s.collectVisibleVersion id t e.rid fuel = some value) ∧
        ∀ row, value = some row → Into log e row) ∧
    ∀ id e rest heap, s.phase id = some (.rollingBack rest) → e ∈ rest → s.tables e.oid = some heap →
      Inserted log id e → ∃ next row, s.step (.rollback id e) = some (next, []) ∧
        next.store.getRow e.rid = some (⟨0, true⟩, row) := by
  have run := inFrame_run run
  have sound := sound_run run
  have lifetimes := lifetimes_run run
  constructor
  · intro e present id t _
    exact lifetimes.visible sound present id t
  · intro id e rest heap here member table inserted
    obtain ⟨t, found, -, live, inside, -⟩ := sound.control.finalizing here (by simp)
    have present := sound.sets.present_of_rest found inside member table
    obtain ⟨restored, row, done, tomb⟩ := lifetimes.rollback_inserted sound found live inserted present
    refine ⟨restored.setPhase id (some (.rollingBack (rest.erase e))), row, ?_, tomb⟩
    simp only [Database.step, Database.rollback, here, found, member, table, done, if_true]

/-- Neither an update nor a delete. -/
def Database.InsertOnly (_ : Database) (a : Action) : Prop := ∀ id e value, a ≠ .modify id e value

theorem insertOnly_of_plain {actions : List Action} (plain : ∀ a ∈ actions, ∀ id e value, a ≠ .modify id e value) :
    ∀ a ∈ actions, ∀ s, Database.InsertOnly s a := fun a member _ => plain a member

/-- Without updates and deletes there are no links at all. -/
theorem unlinked_run {s : Database} (run : Run system Database.InsertOnly log s) :
    Run system Database.CleanAlloc log s ∧ ∀ rid, s.versionInfo rid = none := by
  refine Run.invariant (I := fun log s => Run system Database.CleanAlloc log s ∧ ∀ rid, s.versionInfo rid = none)
    ?_ ?_ run
  · intro s initial
    exact ⟨Run.start initial, initial.versionInfo⟩
  · rintro log s next a events - ⟨clean, unlinked⟩ plain taken
    refine ⟨clean.next ?_ taken, ?_⟩
    · intro _ _ _ oid pageId _ _ slotNum link member
      rw [unlinked] at member
      cases member
    · intro rid
      cases Database.steps_of_step taken with
      | versioned => exact absurd rfl (plain _ _ _)
      | restored phase found member table head => simp [unlinked] at head
      | _ => exact unlinked rid

/-- A page of a dropped table serves a new one; aborting the insertion there leaves a tombstone. -/
theorem versions_keep_to_their_table_reused :
    ∃ log s, Run program (Defined Database.overruns Database.CleanAlloc) log s ∧ s.Present ⟨1, 0, 0⟩ ∧
      (∃ t, s.txnMap (txnStartId + 1) = some t ∧ ∃ value bound,
        (∀ fuel, bound ≤ fuel → s.collectVisibleVersion (txnStartId + 1) t ⟨0, 0⟩ fuel = some value) ∧
          ∀ row, value = some row → Into log ⟨1, 0, 0⟩ row) ∧
      ∃ next row, s.step (.rollback (txnStartId + 1) ⟨1, 0, 0⟩) = some (next, []) ∧
        next.store.getRow ⟨0, 0⟩ = some (⟨0, true⟩, row) := by
  obtain ⟨s, log, run, shown⟩ := exec_shows (M := system)
    (Database.oneRow ++ [.dropTable 0, .createTable, .begin .snapshotIsolation,
      .insert (txnStartId + 1) 1 (Database.zeroRow 5), .startAbort (txnStartId + 1)])
    Database.opened_initial (insertOnly_of_plain (by simp [Database.oneRow]))
    (fun r => (r.1.phase (txnStartId + 1), (r.1.txnMap (txnStartId + 1)).isSome,
      (r.1.tables 1).map TableHeap.pageDirectory, (r.1.store.getRow ⟨0, 0⟩).isSome, r.2.head?))
    (some (.rollingBack [⟨1, 0, 0⟩]), true, some [0], true,
      some (.inserted (txnStartId + 1) ⟨1, 0, 0⟩ (Database.zeroRow 5))) rfl
  simp only [Prod.mk.injEq, Option.map_eq_some_iff] at shown
  obtain ⟨phase, found, ⟨heap, table, directory⟩, row, newest⟩ := shown
  obtain ⟨t, found⟩ := Option.isSome_iff_exists.mp found
  have clean := run_inFrame (unlinked_run run).1
  have present : s.Present ⟨1, 0, 0⟩ :=
    ⟨⟨heap, table, by simp [directory]⟩, Option.isSome_iff_exists.mp row⟩
  obtain ⟨reads, aborts⟩ := versions_keep_to_their_table clean
  exact ⟨log, s, clean, present, ⟨t, found, reads ⟨1, 0, 0⟩ present (txnStartId + 1) t found⟩,
    aborts (txnStartId + 1) ⟨1, 0, 0⟩ [⟨1, 0, 0⟩] heap phase (by simp) table ⟨_, List.mem_of_head? newest⟩⟩

/-- A row committed, updated and committed again, its table not dropped yet. -/
def updatedOnce : List Action :=
  Database.oneRow ++ [.begin .snapshotIsolation, .modify (txnStartId + 1) ⟨0, 0, 0⟩ (some (Database.zeroRow 3)),
    .lockCommit (txnStartId + 1), .stamp (txnStartId + 1) ⟨0, 0, 0⟩, .publish (txnStartId + 1),
    .leave (txnStartId + 1)]

/-- A new table on the page of a dropped one: a slot written after a reader's snapshot shows the
reader the bytes the dropped table had there. -/
theorem versions_cross_tables :
    ∃ log s t row, Run system Database.Orderly log s ∧ s.Present ⟨1, 0, 0⟩ ∧
      s.txnMap (txnStartId + 2) = some t ∧
      s.collectVisibleVersion (txnStartId + 2) t ⟨0, 0⟩ 1 = some (some row) ∧
      Into log ⟨0, 0, 0⟩ row ∧ ¬Into log ⟨1, 0, 0⟩ row := by
  obtain ⟨s, log, run, shown⟩ := exec_shows (M := system) updatedOnce
    Database.opened_initial (orderly_of_plain (by simp [updatedOnce, Database.oneRow]))
    (fun r => (r.1.nextTxnId, (r.1.txnMap txnStartId).map Transaction.state,
      (r.1.txnMap (txnStartId + 1)).map Transaction.state,
      (exec system r.1 r.2 [.dropTable 0, .createTable, .begin .snapshotIsolation,
        .begin .snapshotIsolation, .insert (txnStartId + 3) 1 (Database.zeroRow 5)]).map fun q =>
          ((q.1.tables 1).map TableHeap.pageDirectory, (q.1.store.getRow ⟨0, 0⟩).isSome,
            (q.1.txnMap (txnStartId + 2)).map fun t =>
              (q.1.collectVisibleVersion (txnStartId + 2) t ⟨0, 0⟩ 1).map fun value =>
                value.map fun row => (row.size, List.ofFn row.byte), q.2)))
    (txnStartId + 2, some .committed, some .committed,
      some (some [0], true, some (some (some (4, [0, 0, 0, 0]))),
        [.inserted (txnStartId + 3) ⟨1, 0, 0⟩ (Database.zeroRow 5),
          .began (txnStartId + 3) 2 .snapshotIsolation, .began (txnStartId + 2) 2 .snapshotIsolation,
          .committed (txnStartId + 1) 2,
          .modified (txnStartId + 1) ⟨0, 0, 0⟩ (some (Database.zeroRow 3)),
          .began (txnStartId + 1) 1 .snapshotIsolation, .committed txnStartId 1,
          .inserted txnStartId ⟨0, 0, 0⟩ (Database.zeroRow 4),
          .began txnStartId 0 .snapshotIsolation])) rfl
  simp only [Prod.mk.injEq, Option.map_eq_some_iff] at shown
  obtain ⟨ids, ⟨u, first, committed⟩, ⟨u', second, committed'⟩, ⟨s', log'⟩, result,
    ⟨heap, table, directory⟩, row, ⟨t, found, value, visible, bytes, shown, size, zeros⟩, events⟩ := shown
  have leased : s.Orderly (.dropTable 0) := by
    refine ⟨fun _ _ _ _ same => (by cases same), ?_⟩
    intro _ _ id t here live
    have txn := (control_run run).txns id t here
    have either : id = txnStartId ∨ id = txnStartId + 1 := by
      have old := txn.old
      have known := txn.known
      omega
    have settled : t.state = .committed := by
      rcases either with rfl | rfl
      · exact Option.some.inj (first.symm.trans here) ▸ committed
      · exact Option.some.inj (second.symm.trans here) ▸ committed'
    rcases live with running | tainted
    · simp [settled] at running
    · simp [settled] at tainted
  have run' : Run system Database.Orderly log' s' :=
    exec_run_cons _ run leased (orderly_of_plain (by simp)) result
  have same : bytes = Database.zeroRow 4 :=
    Database.eq_zeroRow size fun i => (by
      have member : bytes.byte i ∈ List.ofFn bytes.byte := List.mem_ofFn.mpr ⟨i, rfl⟩
      simpa [zeros] using member)
  subst same
  change log' = _ at events
  subst events
  refine ⟨_, s', t, Database.zeroRow 4, run', ?_, found, ?_, ?_, ?_⟩
  · exact ⟨⟨heap, table, by simp [directory]⟩, Option.isSome_iff_exists.mp row⟩
  · rw [visible, shown]
  · exact ⟨txnStartId, .inl (by simp)⟩
  · rintro ⟨id, member | member⟩
    · have rows : Database.zeroRow 4 = Database.zeroRow 5 := by
        simp at member
        exact member.2
      cases congrArg RowBytes.size rows
    · simp at member

end BumbleBee.Mvcc
