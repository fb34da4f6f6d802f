import BumbleBee.Mvcc.Control
import BumbleBee.Mvcc.Heaps
import BumbleBee.Mvcc.History

/-!
Write sets against the log: a transaction's write set is what the log says it wrote,
and a row once written stays in its table for as long as the table does.
-/

namespace BumbleBee.Mvcc
open Library.Transition Storage Storage.SlottedPage Concurrency Function

namespace Database

variable {s next : Database} {id : Int} {log : List Event} {e : Entry} {a : Action} {events : List Event}

structure WriteSets (log : List Event) (s : Database) : Prop where
  writes : ∀ id t, s.txnMap id = some t → ∀ e, e ∈ t.writeSet ↔ Wrote log id e
  writers : ∀ id e, Wrote log id e → id < s.nextTxnId
  lasting : ∀ id e, Wrote log id e →
    e.oid < s.nextOid ∧ ∀ heap, s.tables e.oid = some heap → s.Present e

variable {heap : TableHeap} {oid : Nat}

theorem tables_kept (steps : Steps s a next events) (fixed : ∀ oid, a ≠ .dropTable oid)
    (table : s.tables oid = some heap) : ∃ heap, next.tables oid = some heap := by
  have updated : ∀ other grown, ∃ heap, update s.tables other (some grown) oid = some heap := by
    intro other grown
    by_cases same : oid = other
    · exact ⟨grown, by rw [same, update_self]⟩
    · exact ⟨heap, by rw [update_of_ne same]; exact table⟩
  cases steps with
  | inserted | insertTooLarge | created => exact updated _ _
  | dropped => exact absurd rfl (fixed _)
  | _ => exact ⟨heap, table⟩

theorem tables_before (steps : Steps s a next events)
    (used : oid < s.nextOid) (table : next.tables oid = some heap) : ∃ heap, s.tables oid = some heap := by
  have updated : ∀ {other : Nat} {before grown : TableHeap}, s.tables other = some before →
      update s.tables other (some grown) oid = some heap → ∃ heap, s.tables oid = some heap := by
    intro other before grown known here
    rcases of_update here with ⟨rfl, -⟩ | ⟨-, old⟩
    · exact ⟨before, known⟩
    · exact ⟨heap, old⟩
  cases steps with
  | inserted ready known grew placed => exact updated known table
  | insertTooLarge known grew => exact updated known table
  | created =>
    simp only [createTable, update_of_ne (Nat.ne_of_lt used)] at table
    exact ⟨heap, table⟩
  | @dropped other known =>
    rcases of_update table with ⟨-, new⟩ | ⟨-, old⟩
    · cases new
    · exact ⟨heap, old⟩
  | _ => exact ⟨heap, table⟩

theorem present_of_slotWritten {rid : RID} {tuple : TupleMeta × RowBytes} (tables : next.tables = s.tables)
    (stored : PageStore.SlotWritten s.store rid tuple next.store) (e : Entry) : next.Present e ↔ s.Present e := by
  unfold Present
  rw [owns_congr tables]
  by_cases same : e.rid = rid
  · rw [same, stored.getRow_self]
    simp only [Option.some.injEq, exists_eq', and_true, iff_self_and]
    intro _
    exact stored.present
  · rw [stored.getRow_other same]

theorem Heaps.used (heaps : Heaps s) (table : s.tables oid = some heap) : oid < s.nextOid := by
  by_contra unused
  rw [heaps.oids oid (Nat.le_of_not_lt unused)] at table
  cases table

theorem Heaps.old_page (heaps : Heaps s) {pageId : Int} (owned : s.Owns oid pageId) :
    pageId ≠ s.store.newPage.1 := by
  intro same
  obtain ⟨-, unallocated, -⟩ := heaps.sound.newPage
  exact unallocated (heaps.allocated oid _ (same ▸ owned))

theorem Heaps.present_kept (heaps : Heaps s) (steps : Steps s a next events)
    (present : s.Present e) (table : next.tables e.oid = some heap) : next.Present e := by
  have old := heaps.old_page present.1
  have grown : ∀ {oid : Nat} {before after : TableHeap} {linked : PageStore}, s.tables oid = some before →
      TableHeap.Grew before s.store after linked →
      (∃ found, update s.tables oid (some after) e.oid = some found ∧
        e.rid.pageId ∈ found.pageDirectory) ∧ linked.getRow e.rid = s.store.getRow e.rid := by
    intro oid before after linked known grew
    refine ⟨?_, grew.getRow old⟩
    obtain ⟨found, here, listed⟩ := present.1
    by_cases same : e.oid = oid
    · rw [same, known, Option.some.injEq] at here
      exact ⟨after, by rw [same, update_self], grew.listed (here ▸ listed)⟩
    · exact ⟨found, by rw [update_of_ne same]; exact here, listed⟩
  obtain ⟨owned, tuple, row⟩ := present
  have rewritten : ∀ {rid : RID} {new : TupleMeta × RowBytes} {after : PageStore},
      PageStore.SlotWritten s.store rid new after → ∃ tuple, after.getRow e.rid = some tuple := by
    intro rid new after stored
    by_cases same : e.rid = rid
    · exact ⟨new, by rw [same]; exact stored.getRow_self⟩
    · exact ⟨tuple, (stored.getRow_other same).trans row⟩
  cases steps with
  | inserted ready known grew placed =>
    obtain ⟨owns, same⟩ := grown known grew
    exact ⟨owns, tuple, placed.getRow_kept (same.trans row)⟩
  | insertTooLarge known grew =>
    obtain ⟨owns, same⟩ := grown known grew
    exact ⟨owns, tuple, same.trans row⟩
  | rewrote ready known listed base own stored | versioned ready known listed base foreign inSnapshot stored
  | stamped phase member known base stored
  | restored phase found member known head valid own logged base stored
  | tombstoned phase member known unowned base stored =>
    exact ⟨owned, rewritten stored⟩
  | created =>
    obtain ⟨found, here, listed⟩ := owned
    have used := heaps.used here
    refine ⟨⟨found, ?_, listed⟩, tuple, ?_⟩
    · simp only [createTable, update_of_ne (Nat.ne_of_lt used)]
      exact here
    · simp only [createTable, PageStore.getRow_eq, TableHeap.rows_create, update_of_ne old]
      rw [← PageStore.getRow_eq]
      exact row
  | @dropped other known =>
    have apart : e.oid ≠ other := by
      intro same
      simp only [same, update_self, reduceCtorEq] at table
    refine ⟨(owns_dropped _ _).mpr ⟨owned, apart⟩, tuple, ?_⟩
    simp only [TableHeap.freeAllPages_eq]
    exact row
  | _ => exact ⟨owned, tuple, row⟩

theorem mem_appendWriteSet {t : Transaction} {e e' : Entry} :
    e' ∈ (t.appendWriteSet e).writeSet ↔ e' = e ∨ e' ∈ t.writeSet := by
  unfold Transaction.appendWriteSet
  split
  · next inside =>
    constructor
    · exact .inr
    · rintro (rfl | member)
      · exact inside
      · exact member
  · exact List.mem_cons

theorem WriteSets.silent (sets : WriteSets log s) (heaps : Heaps s) (steps : Steps s a next events)
    (plain : ∀ id e, Wrote (events ++ log) id e → Wrote log id e) (ids : s.nextTxnId ≤ next.nextTxnId)
    (oids : s.nextOid ≤ next.nextOid)
    (same : ∀ id t, next.txnMap id = some t →
      (∃ before, s.txnMap id = some before ∧ t.writeSet = before.writeSet) ∨
        (s.nextTxnId ≤ id ∧ t.writeSet = [])) : WriteSets (events ++ log) next := by
  constructor
  · intro id t found e
    have wrote : Wrote (events ++ log) id e ↔ Wrote log id e := ⟨plain id e, wrote_append events⟩
    rw [wrote]
    rcases same id t found with ⟨before, here, equal⟩ | ⟨unborn, empty⟩
    · rw [equal]
      exact sets.writes id before here e
    · simp only [empty, List.not_mem_nil, false_iff]
      intro earlier
      have known := sets.writers id e earlier
      omega
  · intro id e wrote
    exact lt_of_lt_of_le (sets.writers id e (plain id e wrote)) ids
  · intro id e wrote
    obtain ⟨used, stays⟩ := sets.lasting id e (plain id e wrote)
    refine ⟨Nat.lt_of_lt_of_le used oids, ?_⟩
    intro heap table
    obtain ⟨before, known⟩ := tables_before steps used table
    exact heaps.present_kept steps (stays before known) table

theorem WriteSets.wrote (sets : WriteSets log s) (heaps : Heaps s) {event : Event} {t changed : Transaction}
    (steps : Steps s a next [event]) (records : RecordsWrite event id e) (found : s.txnMap id = some t)
    (known : id < s.nextTxnId) (same : changed.writeSet = t.writeSet)
    (txns : next.txnMap = update s.txnMap id (some (changed.appendWriteSet e)))
    (ids : next.nextTxnId = s.nextTxnId) (oids : next.nextOid = s.nextOid) (used : e.oid < s.nextOid)
    (present : next.Present e) : WriteSets (event :: log) next := by
  constructor
  · intro other u here e'
    rw [records.wrote]
    rw [txns] at here
    rcases of_update here with ⟨rfl, new⟩ | ⟨self, old⟩
    · cases new
      rw [mem_appendWriteSet, same, sets.writes other t found e']
      simp [eq_comm]
    · rw [sets.writes other u old e', or_iff_right fun both => self both.1.symm]
  · intro other e' wrote
    rw [ids]
    rcases (records.wrote ..).mp wrote with ⟨rfl, -⟩ | before
    · exact known
    · exact sets.writers other e' before
  · intro other e' wrote
    rw [oids]
    rcases (records.wrote ..).mp wrote with ⟨-, rfl⟩ | before
    · exact ⟨used, fun _ _ => present⟩
    · obtain ⟨old, stays⟩ := sets.lasting other e' before
      refine ⟨old, ?_⟩
      intro heap table
      obtain ⟨heap', earlier⟩ := tables_before steps old table
      exact heaps.present_kept steps (stays heap' earlier) table

theorem sets_setTxn {t changed u : Transaction} {other : Int} (found : s.txnMap id = some t)
    (same : changed.writeSet = t.writeSet) (here : update s.txnMap id (some changed) other = some u) :
    (∃ before, s.txnMap other = some before ∧ u.writeSet = before.writeSet) ∨
      (s.nextTxnId ≤ other ∧ u.writeSet = []) := by
  rcases of_update here with ⟨rfl, new⟩ | ⟨-, old⟩
  · cases new
    exact .inl ⟨t, found, same⟩
  · exact .inl ⟨u, old, rfl⟩

theorem WriteSets.step (sets : WriteSets log s) (heaps : Heaps s)
    (known : ∀ id t, s.txnMap id = some t → id < s.nextTxnId) (steps : Steps s a next events) :
    WriteSets (events ++ log) next := by
  have taken := steps
  have plain : ∀ id e, Wrote log id e → Wrote log id e := fun _ _ wrote => wrote
  have kept : ∀ id t, s.txnMap id = some t →
      (∃ before, s.txnMap id = some before ∧ t.writeSet = before.writeSet) ∨
        (s.nextTxnId ≤ id ∧ t.writeSet = []) := fun _ t found => .inl ⟨t, found, rfl⟩
  cases steps with
  | began added =>
    refine sets.silent heaps taken plain (Int.le_of_lt (Int.lt_succ _)) (Nat.le_refl _) ?_
    intro other t here
    rcases of_update here with ⟨rfl, new⟩ | ⟨-, old⟩
    · cases new
      exact .inr ⟨le_refl _, rfl⟩
    · exact .inl ⟨t, old, rfl⟩
  | scanned ready table serializable | versionTooLarge ready | cancelled ready =>
    exact sets.silent heaps taken plain (le_refl _) (Nat.le_refl _) fun _ _ => sets_setTxn ready.found rfl
  | @inserted id oid row t heap grown linked after ready table grew placed =>
    refine sets.wrote heaps taken (recordsWrite_inserted _ _ _) ready.found (known _ _ ready.found) rfl rfl rfl rfl
      (heaps.used table) ⟨⟨grown, update_self _ _ _, ?_⟩, _, placed.getRow_new⟩
    cases grew with
    | kept => exact heaps.last oid _ table
    | linked => exact List.mem_append_right _ (by simp)
  | rewrote ready table listed base own stored =>
    exact sets.wrote heaps taken (recordsWrite_modified _ _ _) ready.found (known _ _ ready.found) rfl rfl rfl rfl
      (heaps.used table) ⟨⟨_, table, listed⟩, _, stored.getRow_self⟩
  | versioned ready table listed base foreign inSnapshot stored =>
    refine sets.wrote heaps taken (recordsWrite_modified _ _ _) ready.found (known _ _ ready.found) ?_ rfl rfl rfl
      (heaps.used table) ⟨⟨_, table, listed⟩, _, stored.getRow_self⟩
    rfl
  | modifyConflict ready base foreign outside =>
    refine sets.silent heaps taken plain (le_refl _) (Nat.le_refl _) fun _ _ => sets_setTxn ready.found ?_
    unfold Transaction.setTainted
    split <;> rfl
  | published phase found | markedAborted phase found =>
    exact sets.silent heaps taken plain (le_refl _) (Nat.le_refl _) fun _ _ => sets_setTxn found rfl
  | collected pending =>
    refine sets.silent heaps taken plain (le_refl _) (Nat.le_refl _) ?_
    intro other t here
    exact .inl ⟨t, (Option.filter_eq_some_iff.mp here).1, rfl⟩
  | created => exact sets.silent heaps taken plain (le_refl _) (Nat.le_succ _) kept
  | _ => exact sets.silent heaps taken plain (le_refl _) (Nat.le_refl _) kept

theorem Initial.writeSets (initial : Initial s) : WriteSets [] s := by
  have unwritten : ∀ id e, ¬Wrote [] id e := fun id e => not_wrote.mpr rfl
  constructor
  · intro id t found
    rw [initial.txnMap] at found
    cases found
  · exact fun id e wrote => absurd wrote (unwritten id e)
  · exact fun id e wrote => absurd wrote (unwritten id e)

end Database

theorem writeSets_run {meets : Database → Action → Prop} {log : List Event} {s : Database}
    (run : Run system meets log s) : Database.WriteSets log s := by
  refine Run.invariant (I := fun log s => Database.WriteSets log s)
    (fun s initial => Database.Initial.writeSets initial) ?_ run
  intro log s next a events before sets _ taken
  exact sets.step (heaps_run before) (control_run before).known (Database.steps_of_step taken)

end BumbleBee.Mvcc
