import BumbleBee.Mvcc.Invariant
import BumbleBee.Mvcc.Ledger
import BumbleBee.Mvcc.Program
import BumbleBee.Mvcc.Walks

/-!
What a transaction reads. `CollectVisibleVersion` finds the reader's own last write
if there is one, and otherwise the row as the last transaction that committed within
the reader's snapshot left it, however far the chain has been swept meanwhile.
-/

namespace BumbleBee.Mvcc
open Library.Transition Library.Versions Storage Storage.SlottedPage Concurrency

namespace Database

variable {s next : Database} {id : Int} {log : List Event} {e : Entry} {t : Transaction}

/-- A RUNNING transaction that has started neither to abort nor to stamp its writes. -/
structure Reading (s : Database) (id : Int) (t : Transaction) : Prop where
  found : s.txnMap id = some t
  running : t.state = .running
  phase : s.phase id = some .idle ∨ ∃ locked rest walk, s.phase id = some (.verifying locked rest walk)

/-- A live transaction that has started neither to abort nor to stamp its writes. -/
structure Viewing (s : Database) (id : Int) (t : Transaction) : Prop where
  found : s.txnMap id = some t
  phase : s.phase id = some .idle ∨ ∃ locked rest walk, s.phase id = some (.verifying locked rest walk)

theorem Reading.viewing (reading : s.Reading id t) : s.Viewing id t := ⟨reading.found, reading.phase⟩

theorem Ready.viewing (ready : s.Ready id t) : s.Viewing id t := ⟨ready.found, .inl ready.idle⟩

theorem Viewing.registered (viewing : s.Viewing id t) : s.registeredTs id = some t.readTs := by
  rcases viewing.phase with idle | ⟨locked, rest, walk, verifying⟩
  · simp [registeredTs, idle, viewing.found]
  · simp [registeredTs, verifying, viewing.found]

theorem Viewing.pending (viewing : s.Viewing id t) : s.pending id = t.writeSet := by
  rcases viewing.phase with idle | ⟨locked, rest, walk, verifying⟩
  · exact pending_eq idle viewing.found
  · exact pending_eq verifying viewing.found

theorem Viewing.stampTs (viewing : s.Viewing id t) : s.stampTs id e = id := by
  rcases viewing.phase with idle | ⟨locked, rest, walk, verifying⟩
  · exact stampTs_eq idle
  · exact stampTs_eq verifying

variable {readTs : Int} {link : Option UndoLink}

/-- Walking a chain from a version outside a registered snapshot finds what the snapshot shows. -/
theorem Chain.walk {above : Int} {versions : List (Version RowBytes)} (chain : Chain true s above link versions)
    (registered : s.registeredTs id = some readTs) (newer : readTs < above) :
    ∃ bound, ∀ fuel, bound ≤ fuel →
      s.walkVisible readTs fuel link = some (snapshot versions readTs) := by
  induction chain with
  | bottom ends =>
    refine ⟨1, ?_⟩
    intro fuel enough
    obtain ⟨rest, rfl⟩ := Nat.exists_eq_add_of_le' enough
    exact walkVisible_ended ends.follow readTs rest
  | @version above link owner undo older valid found committed stamped logged rest ih =>
    by_cases current : undo.ts ≤ readTs
    · refine ⟨1, ?_⟩
      intro fuel enough
      obtain ⟨rest, rfl⟩ := Nat.exists_eq_add_of_le' enough
      rw [walkVisible_hop (follow_of_logged valid found logged), if_pos current, snapshot_head current]
    · have future : readTs < (UndoLog.version undo).ts := not_le.mp current
      obtain ⟨bound, walked⟩ := ih future
      refine ⟨bound + 1, ?_⟩
      intro fuel enough
      obtain ⟨rest, rfl⟩ := Nat.exists_eq_add_of_le' enough
      rw [← Nat.add_assoc, walkVisible_hop (follow_of_logged valid found logged), if_neg current, snapshot_tail future]
      exact walked (rest + bound) (Nat.le_add_left _ _)
  | swept valid known gone old =>
    have seen := old.2 id readTs registered
    omega

/-- A tuple in nobody's hands shows the reader its committed history. -/
theorem Slots.visible_settled (slots : Slots true log s) (control : Control s) (viewing : s.Viewing id t)
    (settled : Settled true log s e) :
    ∃ bound, ∀ fuel, bound ≤ fuel →
      s.collectVisibleVersion id t e.rid fuel = some (snapshot (history e log) t.readTs) := by
  have published : ∀ tuple, s.store.getRow e.rid = some tuple → tuple.1.ts ≤ s.lastCommitTs :=
    fun _ base => slots.settled_ts control settled base
  obtain ⟨tuple, older, ground, base, flat, versions, chain⟩ := settled
  have clock := control.clock.2
  have old := (control.txns id t viewing.found).old
  have foreign : tuple.1.ts ≠ id := by
    have below := published tuple base
    omega
  rw [← snapshot_ground _ flat, ← versions]
  by_cases current : tuple.1.ts ≤ t.readTs
  · refine ⟨0, fun fuel _ => ?_⟩
    simp only [collectVisibleVersion, base, reconstructVisible, current, or_true]
    exact congrArg some (snapshot_head (v := tupleVersion tuple) current).symm
  · have future : t.readTs < (tupleVersion tuple).ts := not_le.mp current
    obtain ⟨bound, walked⟩ := chain.walk viewing.registered future
    refine ⟨bound, fun fuel enough => ?_⟩
    simp only [collectVisibleVersion, base, reconstructVisible, current, foreign, or_self, if_false, getUndoLink]
    rw [walked fuel enough, snapshot_tail future]

/-- A tuple in another transaction's hands shows the reader the history below it. -/
theorem Slots.visible_held (slots : Slots true log s) (control : Control s) (viewing : s.Viewing id t)
    {other : Int} (apart : other ≠ id) (present : s.Present e) (member : e ∈ s.pending other) :
    ∃ bound, ∀ fuel, bound ≤ fuel →
      s.collectVisibleVersion id t e.rid fuel = some (snapshot (history e log) t.readTs) := by
  obtain ⟨u, found, live, -⟩ := control.live_of_pending member
  have held := slots.held other u e found member present
  obtain ⟨tuple, base, stamp, -⟩ := held.base
  have newer := control.lt_stampTs member
  have ok := control.txns id t viewing.found
  have foreign : ¬(tuple.1.ts = id ∨ tuple.1.ts ≤ t.readTs) := by
    have snapshot := ok.snapshot.2
    have old := ok.old
    rcases control.stampTs_cases member with ⟨same, -⟩ | ⟨same, room, -⟩ <;> omega
  have walks : ∀ fuel, s.collectVisibleVersion id t e.rid fuel =
      s.walkVisible t.readTs fuel (s.versionInfo e.rid) := by
    intro fuel
    simp only [collectVisibleVersion, base, reconstructVisible, foreign, if_false, getUndoLink]
  simp only [walks]
  rcases held.below with ⟨fresh, ends⟩ | ⟨idx, undo, older, ground, head, logged, flat, versions, chain⟩
  · refine ⟨1, fun fuel enough => ?_⟩
    obtain ⟨rest, rfl⟩ := Nat.exists_eq_add_of_le' enough
    rw [walkVisible_ended ends.follow, fresh]
    rfl
  · have valid := UndoLink.isValid_of_txn (control.txns other u found).old idx
    rw [← snapshot_ground _ flat, ← versions, head]
    by_cases current : undo.ts ≤ t.readTs
    · refine ⟨1, fun fuel enough => ?_⟩
      obtain ⟨rest, rfl⟩ := Nat.exists_eq_add_of_le' enough
      rw [walkVisible_hop (follow_of_logged valid found logged), if_pos current, snapshot_head current]
    · have future : t.readTs < (UndoLog.version undo).ts := not_le.mp current
      obtain ⟨bound, walked⟩ := chain.walk viewing.registered future
      refine ⟨bound + 1, fun fuel enough => ?_⟩
      obtain ⟨rest, rfl⟩ := Nat.exists_eq_add_of_le' enough
      rw [← Nat.add_assoc, walkVisible_hop (follow_of_logged valid found logged), if_neg current, snapshot_tail future]
      exact walked (rest + bound) (Nat.le_add_left _ _)

variable {value : Option RowBytes}

/-- The reader's own last write is in the tuple itself. -/
theorem Slots.visible_own (slots : Slots true log s) (viewing : s.Viewing id t) (present : s.Present e)
    (member : e ∈ s.pending id) (write : lastWrite id e log = some value)
    (fuel : Nat) : s.collectVisibleVersion id t e.rid fuel = some value := by
  obtain ⟨tuple, base, stamp, written⟩ := (slots.held id t e viewing.found member present).base
  rw [viewing.stampTs] at stamp
  rw [write] at written
  simp only [collectVisibleVersion, base, reconstructVisible, stamp]
  exact written.symm

/-- The row as the greatest commit within the snapshot left it, nothing if there is none. -/
def LeftBy (log : List Event) (e : Entry) (readTs : Int) (value : Option RowBytes) : Prop :=
  (∃ writer commitTs, Event.committed writer commitTs ∈ log ∧ commitTs ≤ readTs ∧
    lastWrite writer e log = some value ∧
    ∀ other ts, Event.committed other ts ∈ log → ts ≤ readTs → Wrote log other e → ts ≤ commitTs) ∨
  (value = none ∧ ∀ other ts, Event.committed other ts ∈ log → ts ≤ readTs → ¬Wrote log other e)

/-- What a transaction with this snapshot is to read at an entry. -/
def Shows (log : List Event) (id readTs : Int) (e : Entry) (value : Option RowBytes) : Prop :=
  lastWrite id e log = some value ∨ (¬Wrote log id e ∧ LeftBy log e readTs value)

theorem Shows.writer {row : RowBytes} (shows' : Shows log id readTs e (some row)) :
    ∃ writer, Stored log writer e row ∧ (writer = id ∨ ∃ commitTs, Event.committed writer commitTs ∈ log) := by
  rcases shows' with own | ⟨-, ⟨writer, commitTs, committed, -, write, -⟩ | ⟨missing, -⟩⟩
  · exact ⟨id, stored_of_lastWrite own, .inl rfl⟩
  · exact ⟨writer, stored_of_lastWrite write, .inr ⟨commitTs, committed⟩⟩
  · cases missing

theorem Ledger.leftBy_snapshot (ledger : Ledger log s)
    (ordered : (history e log).Pairwise fun newer older => older.ts < newer.ts) (readTs : Int) :
    LeftBy log e readTs (snapshot (history e log) readTs) := by
  rcases snapshot_spec ordered readTs with ⟨v, member, seen, value, greatest⟩ | ⟨missing, younger⟩
  · obtain ⟨writer, committed, write⟩ := (ledger.authored e v).mp member
    refine .inl ⟨writer, v.ts, committed, seen, by rw [value]; exact write, ?_⟩
    rintro other ts committed' before ⟨value', write'⟩
    exact greatest ⟨ts, value'⟩ ((ledger.authored e ⟨ts, value'⟩).mpr ⟨other, committed', write'⟩) before
  · refine .inr ⟨missing, ?_⟩
    rintro other ts committed before ⟨value, write⟩
    have later := younger ⟨ts, value⟩ ((ledger.authored e ⟨ts, value⟩).mpr ⟨other, committed, write⟩)
    simp only at later
    omega

theorem Ledger.shows_unique (ledger : Ledger log s) {value' : Option RowBytes}
    (shows' : Shows log id readTs e value) (shown : Shows log id readTs e value') : value = value' := by
  rcases shows' with own | ⟨foreign, left⟩ <;> rcases shown with own' | ⟨foreign', left'⟩
  · rw [own] at own'
    exact Option.some.inj own'
  · exact absurd ⟨value, own⟩ foreign'
  · exact absurd ⟨value', own'⟩ foreign
  · rcases left with ⟨writer, ts, committed, seen, write, greatest⟩ | ⟨rfl, unwritten⟩ <;>
      rcases left' with ⟨writer', ts', committed', seen', write', greatest'⟩ | ⟨rfl, unwritten'⟩
    · have above := greatest writer' ts' committed' seen' ⟨value', write'⟩
      have below := greatest' writer ts committed seen ⟨value, write⟩
      have same : ts = ts' := le_antisymm below above
      subst same
      have author := ledger.unique writer writer' ts committed committed'
      subst author
      rw [write] at write'
      exact Option.some.inj write'
    · exact absurd ⟨value, write⟩ (unwritten' writer ts committed seen)
    · exact absurd ⟨value', write'⟩ (unwritten writer' ts' committed' seen')
    · rfl

theorem Slots.shows (slots : Slots true log s) (ledger : Ledger log s) (control : Control s)
    (viewing : s.Viewing id t) (present : s.Present e) :
    ∃ value bound, Shows log id t.readTs e value ∧
      ∀ fuel, bound ≤ fuel → s.collectVisibleVersion id t e.rid fuel = some value := by
  by_cases wrote : Wrote log id e
  · obtain ⟨value, write⟩ := wrote
    have member : e ∈ s.pending id := by
      rw [viewing.pending]
      exact (slots.writes id t viewing.found e).mpr ⟨value, write⟩
    exact ⟨value, 0, .inl write, fun fuel _ => slots.visible_own viewing present member write fuel⟩
  · have left := ledger.leftBy_snapshot (slots.ordered e) t.readTs
    have visible : ∃ bound, ∀ fuel, bound ≤ fuel →
        s.collectVisibleVersion id t e.rid fuel = some (snapshot (history e log) t.readTs) := by
      by_cases free : ∀ other, e ∉ s.pending other
      · exact slots.visible_settled control viewing (slots.settled e present free)
      · obtain ⟨other, member⟩ := not_forall_not.mp free
        refine slots.visible_held control viewing ?_ present member
        rintro rfl
        rw [viewing.pending] at member
        exact wrote ((slots.writes other t viewing.found e).mp member)
    obtain ⟨bound, visible⟩ := visible
    exact ⟨_, bound, .inr ⟨wrote, left⟩, visible⟩

theorem walkVisible_mono {fuel more : Nat} (enough : fuel ≤ more)
    (walked : s.walkVisible readTs fuel link = some value) : s.walkVisible readTs more link = some value := by
  induction fuel generalizing more link with
  | zero => cases walked
  | succ fuel ih =>
    obtain ⟨rest, rfl⟩ := Nat.exists_eq_add_of_le' enough
    cases found : s.follow link with
    | none =>
      rw [walkVisible_ended found] at walked
      rw [← Nat.add_assoc, walkVisible_ended found]
      exact walked
    | some undo =>
      rw [walkVisible_hop found] at walked
      rw [← Nat.add_assoc, walkVisible_hop found]
      split
      · next current =>
        rw [if_pos current] at walked
        exact walked
      · next newer =>
        rw [if_neg newer] at walked
        exact ih (Nat.le_add_left _ _) walked

theorem collectVisibleVersion_mono {rid : RID} {fuel more : Nat} (enough : fuel ≤ more)
    (read : s.collectVisibleVersion id t rid fuel = some value) :
    s.collectVisibleVersion id t rid more = some value := by
  unfold collectVisibleVersion reconstructVisible at read ⊢
  split at read
  · cases read
  · split at read
    · next direct => rw [if_pos direct, read]
    · next indirect =>
      rw [if_neg indirect]
      exact walkVisible_mono enough read

/-- Whatever a view returns is what the log shows it. -/
theorem Slots.shows_of_read (slots : Slots true log s) (ledger : Ledger log s) (control : Control s)
    (viewing : s.Viewing id t) (present : s.Present e) {fuel : Nat}
    (read : s.collectVisibleVersion id t e.rid fuel = some value) : Shows log id t.readTs e value := by
  obtain ⟨shown, bound, shows', visible⟩ := slots.shows ledger control viewing present
  have here := visible (max bound fuel) (Nat.le_max_left _ _)
  rw [collectVisibleVersion_mono (Nat.le_max_right bound fuel) read] at here
  cases here
  exact shows'

/-- No table is dropped and no rollback of a row is refused. -/
def FixedTables (s : Database) (a : Action) : Prop :=
  s.RollbackSucceeds a ∧ ∀ oid, a ≠ .dropTable oid

/-- Page ids only ever counted up, and no link at a page not handed out yet. -/
structure Untouched (s : Database) : Prop where
  freePages : s.store.freePages = []
  links : ∀ rid, s.store.nextPageId ≤ rid.pageId → s.versionInfo rid = none

section
variable (untouched : s.Untouched)
include untouched

theorem Untouched.newPage : s.store.newPage.1 = s.store.nextPageId := by
  simp only [PageStore.newPage, untouched.freePages]

theorem Untouched.counted :
    s.store.newPage.2.freePages = [] ∧ s.store.nextPageId ≤ s.store.newPage.2.nextPageId := by
  simp only [PageStore.newPage, untouched.freePages, true_and]
  omega

theorem Untouched.keep (freePages : next.store.freePages = s.store.freePages)
    (nextPageId : s.store.nextPageId ≤ next.store.nextPageId)
    (links : ∀ rid, s.versionInfo rid = none → s.store.nextPageId ≤ rid.pageId → next.versionInfo rid = none) :
    next.Untouched := by
  refine ⟨freePages.trans untouched.freePages, ?_⟩
  intro rid beyond
  have outside := le_trans nextPageId beyond
  exact links rid (untouched.links rid outside) outside

theorem Untouched.grew {heap grown : TableHeap} {linked : PageStore}
    (grew : TableHeap.Grew heap s.store grown linked) :
    linked.freePages = s.store.freePages ∧ s.store.nextPageId ≤ linked.nextPageId := by
  cases grew with
  | kept => exact ⟨rfl, le_refl _⟩
  | linked after rows freePages nextPageId =>
    rw [freePages, nextPageId, untouched.freePages]
    exact untouched.counted

theorem Untouched.step (heaps : Heaps s) {a : Action} {events : List Event} (steps : Steps s a next events)
    (fixed : ∀ oid, a ≠ .dropTable oid) : next.Untouched := by
  cases steps with
  | inserted ready table grew placed =>
    obtain ⟨free, counter⟩ := untouched.grew grew
    exact untouched.keep (placed.freePages.trans free) (by rw [← placed.nextPageId] at counter; exact counter)
      fun _ none _ => none
  | insertTooLarge table grew =>
    obtain ⟨free, counter⟩ := untouched.grew grew
    exact untouched.keep free counter fun _ none _ => none
  | rewrote ready table listed base own stored | stamped phase member table base stored
  | tombstoned phase member table unowned base stored =>
    exact untouched.keep stored.freePages (le_of_eq stored.nextPageId.symm) fun _ none _ => none
  | versioned ready table listed base foreign inSnapshot stored =>
    refine untouched.keep stored.freePages (le_of_eq stored.nextPageId.symm) ?_
    intro rid none outside
    have allocated := (heaps.allocated _ _ ⟨_, table, listed⟩).1
    exact (Function.update_of_ne (fun same => by subst same; omega) _ _).trans none
  | restored phase found member table head valid own logged base stored =>
    refine untouched.keep stored.freePages (le_of_eq stored.nextPageId.symm) ?_
    intro rid none _
    exact (Function.update_of_ne (fun same => by subst same; simp [head] at none) _ _).trans none
  | created =>
    have counted := untouched.counted
    exact untouched.keep (counted.1.trans untouched.freePages.symm) counted.2 fun _ none _ => none
  | dropped table => exact absurd rfl (fixed _)
  | _ => exact untouched.keep rfl (le_refl _) fun _ none _ => none

theorem Untouched.freshPages {a : Action} {events : List Event} (steps : Steps s a next events) :
    FreshPages s next := by
  intro oid pageId owned unowned slotNum link member
  have page := newlyOwned steps owned (unowned oid)
  rw [untouched.newPage] at page
  rw [untouched.links ⟨pageId, slotNum⟩ (le_of_eq page.symm)] at member
  cases member

end

end Database

theorem untouched_run {log : List Event} {s : Database} (run : Run system Database.FixedTables log s) :
    Run system (Database.Admits true) log s ∧ s.Untouched := by
  refine Run.invariant (I := fun log s => Run system (Database.Admits true) log s ∧ s.Untouched) ?_ ?_ run
  · intro s initial
    exact ⟨Run.start initial, initial.freePages, fun rid _ => initial.versionInfo rid⟩
  · rintro log s next a events before ⟨clean, untouched⟩ ⟨restores, fixed⟩ taken
    have fresh : s.CleanAlloc a := fun next events taken =>
      untouched.freshPages (Database.steps_of_step taken)
    refine ⟨clean.next ⟨restores, fun _ => fresh, by simp⟩ taken, ?_⟩
    exact untouched.step (heaps_run before) (Database.steps_of_step taken) fixed

/-- Over a fixed set of tables a reader sees its own last write, or else its snapshot. -/
theorem collectVisibleVersion_shows {log : List Event} {s : Database}
    (run : Run program (Defined Database.overruns Database.FixedTables) log s) {id : Int} {t : Transaction}
    {e : Entry} (reading : s.Reading id t) (present : s.Present e) :
    ∃ value bound, Database.Shows log id t.readTs e value ∧
      ∀ fuel, bound ≤ fuel → s.collectVisibleVersion id t e.rid fuel = some value := by
  have run := inFrame_run run
  exact (slots_run (untouched_run run).1).shows (ledger_run run) (control_run run) reading.viewing present

theorem fixedTables_of_plain {actions : List Action}
    (plain : ∀ a ∈ actions, (∀ id e, a ≠ .rollback id e) ∧ ∀ oid, a ≠ .dropTable oid) :
    ∀ a ∈ actions, ∀ s, Database.FixedTables s a := by
  intro a member s
  exact ⟨fun id e _ _ same => absurd same ((plain a member).1 id e), (plain a member).2⟩

/-- A second transaction reads what the first one committed. -/
theorem collectVisibleVersion_shows_committed :
    ∃ log s t, Run program (Defined Database.overruns Database.FixedTables) log s ∧
      s.Reading (txnStartId + 1) t ∧ s.Present ⟨0, 0, 0⟩ ∧
      ∃ value bound, Database.Shows log (txnStartId + 1) t.readTs ⟨0, 0, 0⟩ value ∧
        ∀ fuel, bound ≤ fuel → s.collectVisibleVersion (txnStartId + 1) t ⟨0, 0⟩ fuel = some value := by
  obtain ⟨s, log, run, shown⟩ := exec_shows (M := system)
    (Database.oneRow ++ [.begin .snapshotIsolation]) Database.opened_initial
    (fixedTables_of_plain (by simp [Database.oneRow]))
    (fun r => (r.1.phase (txnStartId + 1), (r.1.txnMap (txnStartId + 1)).map Transaction.state,
      (r.1.tables 0).map TableHeap.pageDirectory, (r.1.store.getRow ⟨0, 0⟩).isSome))
    (some .idle, some .running, some [0], true) rfl
  simp only [Prod.mk.injEq, Option.map_eq_some_iff] at shown
  obtain ⟨idle, ⟨t, found, running⟩, ⟨heap, table, directory⟩, row⟩ := shown
  have reading : s.Reading (txnStartId + 1) t := ⟨found, running, .inl idle⟩
  have present : s.Present ⟨0, 0, 0⟩ :=
    ⟨⟨heap, table, by simp [directory]⟩, Option.isSome_iff_exists.mp row⟩
  exact ⟨log, s, t, run_inFrame run, reading, present,
    collectVisibleVersion_shows (run_inFrame run) reading present⟩

/-- In the middle of its commit a RUNNING transaction no longer finds the row it inserted. -/
theorem collectVisibleVersion_stamped :
    ∃ log s t row, Run system Database.FixedTables log s ∧ s.txnMap txnStartId = some t ∧
      t.state = .running ∧ s.phase txnStartId = some (.stamping 1 []) ∧ s.Present ⟨0, 0, 0⟩ ∧
      lastWrite txnStartId ⟨0, 0, 0⟩ log = some (some row) ∧
      s.collectVisibleVersion txnStartId t ⟨0, 0⟩ 1 = some none := by
  obtain ⟨s, log, run, shown⟩ := exec_shows (M := system)
    [.createTable, .begin .snapshotIsolation, .insert txnStartId 0 (Database.zeroRow 4),
      .lockCommit txnStartId, .stamp txnStartId ⟨0, 0, 0⟩]
    Database.opened_initial (fixedTables_of_plain (by simp))
    (fun r => (r.1.phase txnStartId, (r.1.txnMap txnStartId).map fun t =>
        (t.state, (r.1.collectVisibleVersion txnStartId t ⟨0, 0⟩ 1).map Option.isSome),
      (r.1.tables 0).map TableHeap.pageDirectory, (r.1.store.getRow ⟨0, 0⟩).isSome,
      (lastWrite txnStartId ⟨0, 0, 0⟩ r.2).map Option.isSome))
    (some (.stamping 1 []), some (.running, some false), some [0], true, some true) rfl
  simp only [Prod.mk.injEq, Option.map_eq_some_iff] at shown
  obtain ⟨phase, ⟨t, found, running, result, read, missing⟩, ⟨heap, table, directory⟩, present, wrote⟩ := shown
  obtain ⟨value, write, inserted⟩ := wrote
  obtain ⟨row, rfl⟩ := Option.isSome_iff_exists.mp inserted
  refine ⟨log, s, t, row, run, found, running, phase,
    ⟨⟨heap, table, by simp [directory]⟩, Option.isSome_iff_exists.mp present⟩, write, ?_⟩
  rw [read]
  cases result with
  | none => rfl
  | some found => cases missing

end BumbleBee.Mvcc
