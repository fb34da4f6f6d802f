import BumbleBee.Mvcc.Slots
import BumbleBee.Mvcc.Links

/-!
Statements keep the slots: the timestamp of a tuple tells who holds it, so a write
that passes the conflict test meets either its own earlier write or a settled row.
-/

namespace BumbleBee.Mvcc
open Library.Versions Storage Storage.SlottedPage Concurrency Function

namespace Database

variable {s next : Database} {id : Int} {clean : Bool} {log log' : List Event} {e : Entry}

/-- A pending write is stamped with its writer's id or with the next commit timestamp. -/
theorem Control.stampTs_cases (control : Control s) (member : e ∈ s.pending id) :
    (s.stampTs id e = id ∧ txnStartId ≤ id) ∨
      (s.stampTs id e = s.lastCommitTs + 1 ∧ s.lastCommitTs + 1 < txnStartId ∧
        s.commitMutex = some id) := by
  obtain ⟨t, found, -, -⟩ := control.live_of_pending member
  have old := (control.txns id t found).old
  cases here : s.phase id with
  | none => simp [pending_unborn here] at member
  | some phase =>
    rw [stampTs_eq here]
    cases phase with
    | stamping commitTs rest =>
      obtain ⟨-, -, -, held, rfl, room, -⟩ := control.finalizing here (by simp)
      simp only [Phase.stampTs]
      split
      · exact .inl ⟨rfl, old⟩
      · exact .inr ⟨rfl, room, held⟩
    | _ => exact .inl ⟨rfl, old⟩

theorem Control.lt_stampTs (control : Control s) (member : e ∈ s.pending id) :
    s.lastCommitTs < s.stampTs id e := by
  have clock := control.clock
  rcases control.stampTs_cases member with ⟨same, old⟩ | ⟨same, -⟩ <;> rw [same] <;> omega

theorem Slots.holder_unique (slots : Slots clean log s) (control : Control s) {other : Int}
    (present : s.Present e) (member : e ∈ s.pending id) (member' : e ∈ s.pending other) : other = id := by
  obtain ⟨t, found, -⟩ := control.live_of_pending member
  obtain ⟨u, found', -⟩ := control.live_of_pending member'
  obtain ⟨tuple, base, stamp, -⟩ := (slots.held id t e found member present).base
  obtain ⟨tuple', base', stamp', -⟩ := (slots.held other u e found' member' present).base
  rw [base] at base'
  cases base'
  rcases control.stampTs_cases member with ⟨same, old⟩ | ⟨same, room, mutex⟩ <;>
    rcases control.stampTs_cases member' with ⟨same', old'⟩ | ⟨same', room', mutex'⟩
  · omega
  · omega
  · omega
  · rw [mutex] at mutex'
    exact (Option.some.inj mutex').symm

theorem Slots.history_le (slots : Slots clean log s) {v : Version RowBytes} (member : v ∈ history e log) :
    v.ts ≤ s.lastCommitTs := by
  obtain ⟨writer, committed, -⟩ := mem_history member
  exact slots.commits writer v.ts committed

variable {tuple : TupleMeta × RowBytes}

theorem Slots.settled_ts (slots : Slots clean log s) (control : Control s) (settled : Settled clean log s e)
    (base : s.store.getRow e.rid = some tuple) : tuple.1.ts ≤ s.lastCommitTs := by
  obtain ⟨tuple', older, ground, base', flat, versions, -⟩ := settled
  rw [base] at base'
  cases base'
  have member : tupleVersion tuple ∈ history e log ++ ground := by simp [← versions]
  rcases List.mem_append.mp member with inside | bottom
  · exact slots.history_le inside
  · have clock := control.clock.1
    rcases flat with rfl | rfl
    · cases bottom
    · have same := List.mem_singleton.mp bottom
      have zero : tuple.1.ts = 0 := congrArg Version.ts same
      omega

theorem Slots.holds_own (slots : Slots clean log s) (control : Control s) (present : s.Present e)
    (base : s.store.getRow e.rid = some tuple) (temp : txnStartId ≤ id)
    (own : tuple.1.ts = id) : e ∈ s.pending id := by
  have clock := control.clock
  by_cases free : ∀ other, e ∉ s.pending other
  · have published := slots.settled_ts control (slots.settled e present free) base
    omega
  · obtain ⟨other, member⟩ := not_forall_not.mp free
    obtain ⟨t, found, -⟩ := control.live_of_pending member
    obtain ⟨tuple', base', stamp, -⟩ := (slots.held other t e found member present).base
    rw [base] at base'
    cases base'
    rcases control.stampTs_cases member with ⟨same, -⟩ | ⟨same, room, -⟩
    · have equal : other = id := by omega
      exact equal ▸ member
    · omega

theorem Slots.free_of_le (slots : Slots clean log s) (control : Control s) (present : s.Present e)
    (base : s.store.getRow e.rid = some tuple)
    (published : tuple.1.ts ≤ s.lastCommitTs) : ∀ other, e ∉ s.pending other := by
  intro other member
  obtain ⟨t, found, -⟩ := control.live_of_pending member
  obtain ⟨tuple', base', stamp, -⟩ := (slots.held other t e found member present).base
  rw [base] at base'
  cases base'
  have newer := control.lt_stampTs member
  omega

theorem tupleVersion_written (id : Int) (value : Option RowBytes) (old : RowBytes) :
    tupleVersion (written id value old) = ⟨id, value⟩ := by
  cases value <;> rfl

theorem version_undoLogOf (s : Database) (rid : RID) (tupleMeta : TupleMeta) (row : RowBytes) :
    UndoLog.version (s.undoLogOf rid tupleMeta row) = tupleVersion (tupleMeta, row) := by
  simp only [UndoLog.version, tupleVersion, undoLogOf]
  split <;> rfl

/-- What a statement's write changes besides the slot it writes: the writer's record. -/
structure WritesAt (s next : Database) (id : Int) (e : Entry) (changed : Transaction) : Prop where
  tables : next.tables = s.tables
  lastCommitTs : next.lastCommitTs = s.lastCommitTs
  phase : next.phase = s.phase
  txns : next.txnMap = update s.txnMap id (some (changed.appendWriteSet e))
  presence : ∀ e', next.Present e' ↔ s.Present e' ∨ e' = e
  rows : ∀ e', s.Present e' → e' ≠ e → next.store.getRow e'.rid = s.store.getRow e'.rid
  links : ∀ rid, rid ≠ e.rid → next.versionInfo rid = s.versionInfo rid
  apart : ∀ e', s.Present e' → e' ≠ e → e'.rid ≠ e.rid

variable {t : Transaction}

/-- A statement's write keeps the slots once the slot it wrote is accounted for. -/
theorem Slots.wrote (slots : Slots clean log s) (control : Control s) (keeps : Keeps s next)
    {changed : Transaction} {event : Event} (kept : WriteSets (event :: log) next) (ready : s.Ready id t)
    (mine : ∀ other, e ∈ s.pending other → other = id) (records : RecordsWrite event id e)
    (writes : WritesAt s next id e changed) (sets : changed.writeSet = t.writeSet)
    (held : Held clean (event :: log) next id (changed.appendWriteSet e) e) :
    Slots clean (event :: log) next := by
  have here : next.txnMap id = some (changed.appendWriteSet e) := by rw [writes.txns, update_self]
  have others : ∀ other, other ≠ id → next.txnMap other = s.txnMap other := by
    intro other apart
    rw [writes.txns, update_of_ne apart]
  have idle : next.phase id = some .idle := by rw [writes.phase]; exact ready.idle
  have mineNow : next.pending id = (changed.appendWriteSet e).writeSet := pending_eq idle here
  have theirs : ∀ other, other ≠ id → next.pending other = s.pending other := fun other apart =>
    pending_congr (by rw [writes.phase]) (others other apart)
  have unmoved : ∀ e', next.Present e' → e' ≠ e → Unmoved log (event :: log) s next e' := by
    intro e' present apart
    have before := ((writes.presence e').mp present).resolve_right apart
    refine ⟨before, ⟨writes.rows e' before apart, writes.links _ (writes.apart e' before apart), records.past log e'⟩,
      fun other => records.elsewhere log other e' fun both => apart both.2, ?_,
      fun other _ => stampTs_congr (by rw [writes.phase])⟩
    intro other
    by_cases same : other = id
    · subst same
      rw [mineNow, ready.pending, mem_appendWriteSet, sets, or_iff_right apart]
    · rw [theirs other same]
  constructor
  · exact kept
  · intro other commitTs member
    rw [writes.lastCommitTs]
    rcases List.mem_cons.mp member with same | before
    · exact absurd same.symm (records.uncommitting other commitTs)
    · exact slots.commits other commitTs before
  · intro e'
    rw [records.past]
    exact slots.ordered e'
  · intro other u e' found member present
    by_cases same : e' = e
    · subst same
      by_cases actor : other = id
      · subst actor
        rw [here] at found
        cases found
        exact held
      · rw [theirs other actor] at member
        exact absurd (mine other member) actor
    · exact (unmoved e' present same).held slots control keeps found member
  · intro e' present free
    by_cases same : e' = e
    · subst same
      exact absurd (mineNow ▸ mem_appendWriteSet.mpr (.inl rfl)) (free id)
    · exact (unmoved e' present same).settled slots control keeps free
  · intro rid unfilled scope
    have elsewhere : rid ≠ e.rid := by
      rintro rfl
      exact unfilled e.oid ((writes.presence e).mpr (.inr rfl))
    rw [writes.links rid elsewhere]
    refine (slots.unfilled rid
      (fun oid before => unfilled oid ((writes.presence _).mpr (.inl before))) ?_).keeps keeps
    simpa only [owns_congr writes.tables] using scope

theorem Heaps.writesAt (heaps : Heaps s) {changed : Transaction} (owned : s.Owns e.oid e.rid.pageId)
    (tables : next.tables = s.tables) (lastCommitTs : next.lastCommitTs = s.lastCommitTs)
    (phase : next.phase = s.phase) (txns : next.txnMap = update s.txnMap id (some (changed.appendWriteSet e)))
    (stored : PageStore.SlotWritten s.store e.rid tuple next.store)
    (links : ∀ rid, rid ≠ e.rid → next.versionInfo rid = s.versionInfo rid) : WritesAt s next id e changed := by
  have present : s.Present e := ⟨owned, stored.present⟩
  have apart : ∀ e', s.Present e' → e' ≠ e → e'.rid ≠ e.rid := fun e' present' different same =>
    different (heaps.entry_eq present'.1 owned same)
  refine ⟨tables, lastCommitTs, phase, txns, ?_, ?_, links, apart⟩
  · intro e'
    rw [present_of_slotWritten tables stored]
    constructor
    · exact .inl
    · rintro (before | rfl)
      · exact before
      · exact present
  · intro e' present' different
    exact stored.getRow_other (apart e' present' different)

theorem appendWriteSet_of_mem (member : e ∈ t.writeSet) : t.appendWriteSet e = t :=
  if_pos member

variable {after : PageStore} {row : RowBytes} {value : Option RowBytes}

theorem Slots.rewrote (slots : Slots clean log s) (control : Control s) {tupleMeta : TupleMeta}
    (keeps : Keeps s next) (kept : WriteSets (.modified id e value :: log) next)
    (ready : s.Ready id t) (owned : s.Owns e.oid e.rid.pageId) (writes : WritesAt s next id e t)
    (base : s.store.getRow e.rid = some (tupleMeta, row)) (own : tupleMeta.ts = id)
    (stored : PageStore.SlotWritten s.store e.rid (written id value row) next.store)
    (link : next.versionInfo e.rid = s.versionInfo e.rid) : Slots clean (.modified id e value :: log) next := by
  have present : s.Present e := ⟨owned, _, base⟩
  have member : e ∈ s.pending id :=
    slots.holds_own control present base (control.txns id t ready.found).old own
  have inside : e ∈ t.writeSet := ready.pending ▸ member
  have before := slots.held id t e ready.found member present
  refine slots.wrote control keeps kept ready
    (fun other member' => slots.holder_unique control present member member')
    (recordsWrite_modified id e value) writes rfl ?_
  rw [appendWriteSet_of_mem inside]
  constructor
  · exact before.seen
  · refine ⟨written id value row, stored.getRow_self, ?_, ?_⟩
    · exact (stampTs_eq (by rw [writes.phase, ready.idle])).symm
    · simp [lastWrite, tupleVersion_written]
  · exact before.below_frame control keeps link rfl (List.prefix_refl _)

/-- In a history, everything below a version in the snapshot is in the snapshot. -/
theorem Slots.seen_of_head (slots : Slots clean log s) {v : Version RowBytes}
    {older ground : List (Version RowBytes)} (versions : v :: older = history e log ++ ground)
    {readTs : Int} (inSnapshot : v.ts ≤ readTs) : ∀ w ∈ history e log, w.ts ≤ readTs := by
  intro w member
  have order := slots.ordered e
  cases past : history e log with
  | nil =>
    rw [past] at member
    cases member
  | cons newest rest =>
    rw [past, List.cons_append, List.cons.injEq] at versions
    rw [past] at member order
    rw [← versions.1] at member order
    rcases List.mem_cons.mp member with same | inside
    · exact same ▸ inSnapshot
    · exact le_of_lt (lt_of_lt_of_le ((List.pairwise_cons.mp order).1 w inside) inSnapshot)

theorem Slots.versioned (slots : Slots clean log s) (control : Control s) {tupleMeta : TupleMeta}
    (keeps : Keeps s next) (kept : WriteSets (.modified id e value :: log) next)
    (ready : s.Ready id t) (owned : s.Owns e.oid e.rid.pageId)
    (writes : WritesAt s next id e (Transaction.logged t (s.undoLogOf e.rid tupleMeta row)))
    (base : s.store.getRow e.rid = some (tupleMeta, row)) (inSnapshot : tupleMeta.ts ≤ t.readTs)
    (stored : PageStore.SlotWritten s.store e.rid (written id value row) next.store)
    (link : next.versionInfo e.rid = some ⟨id, t.undoLogs.length⟩) :
    Slots clean (.modified id e value :: log) next := by
  have present : s.Present e := ⟨owned, _, base⟩
  have snapshot := (control.txns id t ready.found).snapshot.2
  have free := slots.free_of_le control present base (le_trans inSnapshot snapshot)
  obtain ⟨tuple, older, ground, base', flat, versions, chain⟩ := slots.settled e present free
  rw [base] at base'
  cases base'
  refine slots.wrote control keeps kept ready
    (fun other member => absurd member (free other)) (recordsWrite_modified id e value) writes rfl ?_
  constructor
  · rw [readTs_appendWriteSet]
    exact slots.seen_of_head versions inSnapshot
  · refine ⟨written id value row, stored.getRow_self, ?_, ?_⟩
    · exact (stampTs_eq (by rw [writes.phase, ready.idle])).symm
    · simp [lastWrite, tupleVersion_written]
  · refine .inr ⟨t.undoLogs.length, s.undoLogOf e.rid tupleMeta row, older, ground, link, ?_, flat, ?_, ?_⟩
    · rw [undoLogs_appendWriteSet]
      exact List.getElem?_concat_length
    · rw [version_undoLogOf]
      exact versions
    · exact chain.getD.keeps control.known keeps

/-- A step that only moves table space: no row of a table that stays is touched. -/
structure Space (s next : Database) : Prop where
  txnMap : next.txnMap = s.txnMap
  phase : next.phase = s.phase
  versionInfo : next.versionInfo = s.versionInfo
  nextTxnId : next.nextTxnId = s.nextTxnId
  lastCommitTs : next.lastCommitTs = s.lastCommitTs
  present : ∀ e, next.Present e → s.Present e ∧ next.store.getRow e.rid = s.store.getRow e.rid

theorem Space.keeps (space : Space s next) : Keeps s next :=
  (Keeps.refl s).congr space.nextTxnId space.lastCommitTs space.txnMap space.phase

theorem Slots.space (slots : Slots clean log s) (control : Control s) (kept : WriteSets log next)
    (space : Space s next)
    (unfilled : ∀ rid, (∀ oid, ¬next.Present ⟨oid, rid⟩) →
      (clean = false ∨ ∃ oid, next.Owns oid rid.pageId) → s.Bottom clean (s.versionInfo rid)) :
    Slots clean log next := by
  have keeps := space.keeps
  have pendings : ∀ id, next.pending id = s.pending id := fun id =>
    pending_congr (by rw [space.phase]) (by rw [space.txnMap])
  have unmoved : ∀ e, next.Present e → Unmoved log log s next e := by
    intro e present
    obtain ⟨before, row⟩ := space.present e present
    exact ⟨before, ⟨row, by rw [space.versionInfo], rfl⟩, fun _ => rfl, fun id => by rw [pendings],
      fun id _ => stampTs_congr (by rw [space.phase])⟩
  constructor
  · exact kept
  · rw [space.lastCommitTs]
    exact slots.commits
  · exact slots.ordered
  · intro id t e found member present
    exact (unmoved e present).held slots control keeps found member
  · intro e present free
    exact (unmoved e present).settled slots control keeps free
  · intro rid empty scope
    rw [space.versionInfo]
    exact (unfilled rid empty scope).keeps keeps

/-- Every page a step hands to a heap carries no link into a transaction still in the map. -/
def FreshPages (s next : Database) : Prop :=
  ∀ oid pageId, next.Owns oid pageId → (∀ other, ¬s.Owns other pageId) → ∀ slotNum,
    ∀ link ∈ s.versionInfo ⟨pageId, slotNum⟩, link.isValid = true → s.txnMap link.prevTxn = none

variable {oid : Nat}

theorem FreshPages.bottom (fresh : FreshPages s next) (links : Links s) {rid : RID}
    (owned : next.Owns oid rid.pageId) (unowned : ∀ other, ¬s.Owns other rid.pageId) :
    s.Bottom true (s.versionInfo rid) := by
  intro link member valid
  refine ⟨(links.heads rid link member valid).1, ?_⟩
  intro owner found
  rw [fresh oid rid.pageId owned unowned rid.slotNum link member valid] at found
  cases found

theorem Slots.extended (slots : Slots clean log s) (control : Control s) (links : Links s)
    (kept : WriteSets log next) (space : Space s next) (fresh : clean = true → FreshPages s next)
    (shrinks : ∀ e, s.Present e → next.Present e) : Slots clean log next := by
  refine slots.space control kept space ?_
  intro rid empty scope
  by_cases owned : ∃ oid, s.Owns oid rid.pageId
  · exact slots.unfilled rid (fun oid before => empty oid (shrinks _ before)) (.inr owned)
  · cases clean with
    | false => exact slots.unfilled rid (fun oid before => empty oid (shrinks _ before)) (.inl rfl)
    | true =>
      obtain ⟨oid, owns⟩ := scope.resolve_left (by simp)
      exact (fresh rfl).bottom links owns fun other before => owned ⟨other, before⟩

theorem space_of_emptyPage (heaps : Heaps s) (oid : Nat) (grown : TableHeap) (nextOid : Nat) {pageId : Int}
    {store : PageStore} (fresh : ¬s.store.Allocated pageId) (rows : store.rows = update s.store.rows pageId [])
    (directory : ∀ p, p ∈ grown.pageDirectory ↔ s.Owns oid p ∨ p = pageId)
    (moved : next = { s with store := store, tables := update s.tables oid (some grown), nextOid := nextOid }) :
    Space s next ∧ ∀ e, s.Present e → next.Present e := by
  subst moved
  have unowned : ∀ other, ¬s.Owns other pageId := fun other owns =>
    fresh (heaps.allocated other pageId owns)
  have owns : ∀ other p, Owns { s with
      store := store, tables := update s.tables oid (some grown), nextOid := nextOid } other p ↔
      s.Owns other p ∨ (other = oid ∧ p = pageId) := by
    intro other p
    by_cases same : other = oid
    · subst same
      simp only [true_and, ← directory p]
      simp [Owns]
    · simp [Owns, same]
  have row : ∀ rid : RID, rid.pageId ≠ pageId → store.getRow rid = s.store.getRow rid := by
    intro rid apart
    rw [PageStore.getRow_eq, PageStore.getRow_eq, rows, update_of_ne apart]
  refine ⟨⟨rfl, rfl, rfl, rfl, rfl, ?_⟩, ?_⟩
  · rintro e ⟨owned, tuple, found⟩
    have apart : e.rid.pageId ≠ pageId := by
      intro same
      simp only [PageStore.getRow_eq, rows, same, update_self, List.getElem?_nil,
        reduceCtorEq] at found
    refine ⟨⟨((owns _ _).mp owned).resolve_right fun new => apart new.2, tuple, ?_⟩, row _ apart⟩
    rw [← row _ apart]
    exact found
  · rintro e ⟨owned, tuple, found⟩
    have apart : e.rid.pageId ≠ pageId := fun same => unowned e.oid (same ▸ owned)
    exact ⟨(owns _ _).mpr (.inl owned), tuple, (row _ apart).trans found⟩

variable {heap : TableHeap}

theorem Heaps.space_grew (heaps : Heaps s) {grown : TableHeap} {linked : PageStore}
    (table : s.tables oid = some heap) (grew : TableHeap.Grew heap s.store grown linked) :
    Space s { s with store := linked, tables := update s.tables oid (some grown) } ∧
      ∀ e, s.Present e →
        Present { s with store := linked, tables := update s.tables oid (some grown) } e := by
  cases grew with
  | kept =>
    rw [← table, update_eq_self]
    exact ⟨⟨rfl, rfl, rfl, rfl, rfl, fun _ present => ⟨present, rfl⟩⟩, fun _ present => present⟩
  | linked after rows free counter =>
    obtain ⟨-, unallocated, -⟩ := heaps.sound.newPage
    have directory : ∀ p, p ∈ heap.pageDirectory ++ [s.store.newPage.1] ↔
        s.Owns oid p ∨ p = s.store.newPage.1 := by
      intro p
      simp only [List.mem_append, List.mem_singleton, Owns, table, Option.some.injEq, exists_eq_left']
    exact space_of_emptyPage heaps oid { heap with
        lastPageId := s.store.newPage.1
        pageDirectory := heap.pageDirectory ++ [s.store.newPage.1] }
      s.nextOid unallocated rows directory rfl

theorem Heaps.space_created (heaps : Heaps s) :
    Space s s.createTable ∧ ∀ e, s.Present e → s.createTable.Present e := by
  obtain ⟨-, unallocated, -⟩ := heaps.sound.newPage
  have absent := heaps.oids s.nextOid (Nat.le_refl _)
  exact space_of_emptyPage heaps s.nextOid (TableHeap.create s.store).1 (s.nextOid + 1) unallocated
    (TableHeap.rows_create s.store) (fun p => by simp [TableHeap.create, Owns, absent]) rfl

theorem Chain.bottom_false {above : Int} {link : Option UndoLink} {versions : List (Version RowBytes)}
    (chain : Chain clean s above link versions) (control : Control s) : s.Bottom false link := by
  cases chain with
  | bottom ends =>
    intro l member valid
    obtain ⟨known, owners⟩ := ends l member valid
    exact ⟨known, fun owner found => ⟨rfl, (owners owner found).2⟩⟩
  | version valid found committed stamped logged rest =>
    intro l member _
    cases member
    refine ⟨(control.txns _ _ found).known, ?_⟩
    intro owner here
    rw [found] at here
    cases here
    exact ⟨rfl, committed⟩
  | swept valid known gone old =>
    intro l member _
    cases member
    refine ⟨known, ?_⟩
    intro owner here
    rw [gone] at here
    cases here

theorem present_dropped (e : Entry) :
    Present { s with
      store := heap.freeAllPages s.store
      tables := update s.tables oid none } e ↔ s.Present e ∧ e.oid ≠ oid := by
  have row : (heap.freeAllPages s.store).getRow e.rid = s.store.getRow e.rid := by
    rw [TableHeap.freeAllPages_eq]
    rfl
  simp only [Present, owns_dropped, row]
  tauto

theorem space_dropped :
    Space s { s with store := heap.freeAllPages s.store, tables := update s.tables oid none } := by
  refine ⟨rfl, rfl, rfl, rfl, rfl, ?_⟩
  intro e present
  refine ⟨((present_dropped e).mp present).1, ?_⟩
  rw [TableHeap.freeAllPages_eq]
  rfl

theorem Slots.dropped (slots : Slots clean log s) (control : Control s) (heaps : Heaps s)
    (kept : WriteSets log next)
    (moved : next = { s with store := heap.freeAllPages s.store, tables := update s.tables oid none })
    (leased : clean = false → ∀ id t, s.txnMap id = some t → ¬t.Live) : Slots clean log next := by
  subst moved
  refine slots.space control kept space_dropped ?_
  intro rid empty scope
  by_cases filled : ∃ other, s.Present ⟨other, rid⟩
  · obtain ⟨other, present⟩ := filled
    have here : other = oid := by
      by_contra apart
      exact empty other ((present_dropped ⟨other, rid⟩).mpr ⟨present, apart⟩)
    subst here
    cases clean with
    | false =>
      have free : ∀ id, (⟨other, rid⟩ : Entry) ∉ s.pending id := by
        intro id member
        obtain ⟨t, found, live, -⟩ := control.live_of_pending member
        exact leased rfl id t found live
      obtain ⟨tuple, older, ground, -, -, -, chain⟩ := slots.settled ⟨other, rid⟩ present free
      exact chain.bottom_false control
    | true =>
      obtain ⟨another, owned⟩ := scope.resolve_left (by simp)
      obtain ⟨before, apart⟩ := (owns_dropped _ _).mp owned
      exact absurd (heaps.disjoint another other rid.pageId before present.1) apart
  · refine slots.unfilled rid (fun other present => filled ⟨other, present⟩) ?_
    rcases scope with unclean | ⟨another, owned⟩
    · exact .inl unclean
    · exact .inr ⟨another, ((owns_dropped _ _).mp owned).1⟩

theorem Slots.unwritten (slots : Slots clean log s) (table : s.tables e.oid = some heap)
    (absent : ¬s.Present e) (id : Int) : ¬Wrote log id e := fun wrote =>
  absent ((slots.lasting id e wrote).2 heap table)

theorem history_nil_of_unwritten (unwritten : ∀ id, ¬Wrote log id e) : history e log = [] := by
  by_contra written
  obtain ⟨v, member⟩ := List.exists_mem_of_ne_nil _ written
  obtain ⟨id, -, wrote⟩ := mem_history member
  exact wrote (not_wrote.mp (unwritten id))

theorem Slots.placed (slots : Slots clean log s) (control : Control s) (heaps : Heaps s) (ready : s.Ready id t)
    (table : s.tables e.oid = some heap)
    (place : e.rid = ⟨heap.lastPageId, (s.store.rows heap.lastPageId).length⟩)
    (placed : TableHeap.Placed s.store heap.lastPageId (⟨id, false⟩, row) after)
    (keeps : Keeps s next) (kept : WriteSets (.inserted id e row :: log) next)
    (moved : next = { s with store := after }.setTxn id (t.appendWriteSet e)) :
    Slots clean (.inserted id e row :: log) next := by
  subst moved
  have owned : s.Owns e.oid e.rid.pageId := ⟨heap, table, by rw [place]; exact heaps.last _ _ table⟩
  have empty : s.store.getRow e.rid = none := by
    rw [place]
    exact TableHeap.Placed.getRow_absent _ _
  have stored : after.getRow e.rid = some (⟨id, false⟩, row) := by
    rw [place]
    exact placed.getRow_new
  have elsewhere : ∀ rid, rid ≠ e.rid → after.getRow rid = s.store.getRow rid := by
    intro rid apart
    rw [place] at apart
    exact placed.getRow_other apart
  have vacant : ∀ e', s.Present e' → e'.rid ≠ e.rid := by
    rintro e' ⟨-, tuple, found⟩ same
    rw [same, empty] at found
    cases found
  have unwritten := slots.unwritten table fun present => vacant e present rfl
  have fresh := history_nil_of_unwritten unwritten
  refine slots.wrote control keeps kept ready ?_ (recordsWrite_inserted id e row)
    ⟨rfl, rfl, rfl, rfl, ?_, fun e' present _ => elsewhere _ (vacant e' present), fun _ _ => rfl,
      fun e' present _ => vacant e' present⟩ rfl ?_
  · intro other member
    obtain ⟨u, here, -, inside⟩ := control.live_of_pending member
    exact absurd ((slots.writes other u here e).mp inside) (unwritten other)
  · intro e'
    constructor
    · rintro ⟨owns, tuple, found⟩
      by_cases same : e'.rid = e.rid
      · exact .inr (heaps.entry_eq owns owned same)
      · exact .inl ⟨owns, tuple, (elsewhere _ same).symm.trans found⟩
    · rintro (⟨owns, tuple, found⟩ | rfl)
      · exact ⟨owns, tuple, (elsewhere _ (vacant e' ⟨owns, tuple, found⟩)).trans found⟩
      · exact ⟨owned, _, stored⟩
  · refine ⟨?_, ⟨_, stored, ?_, ?_⟩, .inl ⟨fresh, ?_⟩⟩
    · intro v inside
      have none : v ∈ history e log := inside
      rw [fresh] at none
      cases none
    · exact (stampTs_eq ready.idle).symm
    · simp [lastWrite, tupleVersion]
    · refine (slots.unfilled e.rid ?_ (.inr ⟨_, owned⟩)).keeps keeps
      exact fun oid present => vacant ⟨oid, e.rid⟩ present rfl

end Database

end BumbleBee.Mvcc
