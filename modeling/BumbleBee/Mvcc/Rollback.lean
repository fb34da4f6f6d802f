import BumbleBee.Mvcc.FirstCommitter

/-!
`Abort`, row by row. Restoring a pre-image needs room in its page again, which others
may have taken since; how much each rollback needs is read off the state before the
abort, and the abort goes through exactly when every page keeps within its size.
-/

namespace BumbleBee.Mvcc
open Library.Transition Storage Storage.SlottedPage Concurrency Function

namespace Database

variable {s next : Database} {id : Int} {log : List Event} {e : Entry} {t : Transaction} {rest : List Entry}

/-- Bytes a page gains when a row of the transaction is rolled back. -/
def growth (s : Database) (id : Int) (t : Transaction) (e : Entry) : Int :=
  match s.versionInfo e.rid, s.store.getRow e.rid with
  | some link, some (_, row) =>
    if link.isValid ∧ link.prevTxn = id then
      match t.getUndoLog link.prevLogIdx with
      | some undo => if undo.isDeleted then 0 else (undo.row.size : Int) - row.size
      | none => 0
    else 0
  | _, _ => 0

def level (s : Database) (pageId : Int) : Int := used (s.store.rows pageId)

/-- Rolling back in this order, no page ever needs more than its size. -/
def Fits (growth : Entry → Int) : (Int → Int) → List Entry → Prop
  | _, [] => True
  | level, e :: rest =>
    level e.rid.pageId + growth e ≤ pageSize ∧
      Fits growth (update level e.rid.pageId (level e.rid.pageId + growth e)) rest

theorem fits_congr {growth growth' : Entry → Int} {order : List Entry} (same : ∀ e ∈ order, growth e = growth' e)
    (level : Int → Int) : Fits growth level order ↔ Fits growth' level order := by
  induction order generalizing level with
  | nil => exact Iff.rfl
  | cons e order ih =>
    have here := same e (by simp)
    have later := ih fun e' member => same e' (List.mem_cons_of_mem _ member)
    simp only [Fits, here, later]

theorem level_le (s : Database) (pageId : Int) : s.level pageId ≤ pageSize := by
  have bound := (s.store.pages pageId).used_le
  unfold level PageStore.rows
  omega

variable {old : TupleMeta × RowBytes}

theorem level_slotWritten {new : TupleMeta × RowBytes} {after : PageStore}
    (base : s.store.getRow e.rid = some old) (stored : PageStore.SlotWritten s.store e.rid new after) :
    (fun pageId => (used (after.rows pageId) : Int)) =
      update s.level e.rid.pageId (s.level e.rid.pageId + new.2.size - old.2.size) := by
  rw [PageStore.getRow_eq] at base
  have sizes := TablePage.used_set base new
  funext pageId
  by_cases same : pageId = e.rid.pageId
  · subst same
    simp only [level, stored.rows, update_self]
    omega
  · simp only [level, stored.rows, update_of_ne same]

/-- One slot and its head link changed, nothing else. -/
def Relinked (s : Database) (e : Entry) (new : TupleMeta × RowBytes) (next : Database) : Prop :=
  ∃ after links, next = { s with store := after, versionInfo := links } ∧
    PageStore.SlotWritten s.store e.rid new after ∧ ∀ rid, rid ≠ e.rid → links rid = s.versionInfo rid

theorem tombstone_spec (base : s.store.getRow e.rid = some old) :
    ∃ next, s.tombstone e.rid = .restored next ∧ Relinked s e (⟨0, true⟩, old.2) next := by
  have here := base
  rw [PageStore.getRow_eq] at here
  obtain ⟨page, updated, -⟩ := (s.store.pages e.rid.pageId).updateTupleMeta_eq ⟨0, true⟩ here
  refine ⟨s.writePage e.rid.pageId page, ?_, s.store.write e.rid.pageId page, s.versionInfo, rfl,
    PageStore.slotWritten_updateTupleMeta base updated, fun _ _ => rfl⟩
  simp only [tombstone, updated]

theorem restorePreImage_spec (base : s.store.getRow e.rid = some old) (undo : UndoLog) :
    (s.level e.rid.pageId + (restoredTuple undo old.2).2.size - old.2.size ≤ pageSize ∧
      ∃ next, s.restorePreImage e.rid undo = .restored next ∧ Relinked s e (restoredTuple undo old.2) next) ∨
    (pageSize < s.level e.rid.pageId + (restoredTuple undo old.2).2.size - old.2.size ∧
      (s.restorePreImage e.rid undo = .failed ∨ s.restorePreImage e.rid undo = .undefined)) := by
  have here := base
  rw [PageStore.getRow_eq] at here
  have relinked : ∀ page, PageStore.SlotWritten s.store e.rid (restoredTuple undo old.2)
      (s.store.write e.rid.pageId page) → Relinked s e (restoredTuple undo old.2)
        ((s.writePage e.rid.pageId page).updateUndoLink e.rid
          (if undo.prevVersion.isValid then some undo.prevVersion else none)) := fun page stored =>
    ⟨_, _, rfl, stored, fun rid apart => update_of_ne apart _ _⟩
  by_cases deleted : undo.isDeleted = true
  · obtain ⟨page, updated, -⟩ :=
      (s.store.pages e.rid.pageId).updateTupleMeta_eq ⟨undo.ts, undo.isDeleted⟩ here
    have stored := PageStore.slotWritten_updateTupleMeta base updated
    have tuple : restoredTuple undo old.2 = (⟨undo.ts, undo.isDeleted⟩, old.2) := by
      simp [restoredTuple, deleted]
    have bound := s.level_le e.rid.pageId
    have room : s.level e.rid.pageId + (restoredTuple undo old.2).2.size - old.2.size ≤ pageSize := by
      simp only [tuple]
      omega
    refine .inl ⟨room, _, ?_, relinked page (by rw [tuple]; exact stored)⟩
    simp only [restorePreImage, deleted, if_true] at updated ⊢
    rw [updated]
  · have tuple : restoredTuple undo old.2 = (⟨undo.ts, undo.isDeleted⟩, undo.row) := by
      simp [restoredTuple, deleted]
    have sizes := TablePage.used_set here (⟨undo.ts, undo.isDeleted⟩, undo.row)
    have total : s.level e.rid.pageId + (restoredTuple undo old.2).2.size - old.2.size =
        used ((s.store.rows e.rid.pageId).set e.rid.slotNum (⟨undo.ts, undo.isDeleted⟩, undo.row)) := by
      simp only [tuple, level] at sizes ⊢
      omega
    rw [total]
    rcases (s.store.pages e.rid.pageId).updateRow_eq ⟨undo.ts, undo.isDeleted⟩ undo.row here with
      ⟨fits, page, updated, -⟩ | ⟨full, refused⟩
    · have stored := PageStore.slotWritten_updateRow base updated
      refine .inl ⟨by exact_mod_cast fits, _, ?_, relinked page (by rw [tuple]; exact stored)⟩
      simp only [restorePreImage, deleted, Bool.false_eq_true, if_false] at updated ⊢
      rw [updated]
    · refine .inr ⟨by exact_mod_cast full, ?_⟩
      simp only [restorePreImage, deleted, Bool.false_eq_true, if_false] at refused ⊢
      rcases refused with refused | undefined
      · exact .inl (by rw [refused])
      · exact .inr (by rw [undefined])

/-- A rollback goes through exactly when its page keeps within its size. -/
theorem mvccRollback_spec (links : Links s) (found : s.txnMap id = some t)
    (base : s.store.getRow e.rid = some old) :
    (s.level e.rid.pageId + s.growth id t e ≤ pageSize ∧
      ∃ next new, s.mvccRollback id t e.rid = .restored next ∧ Relinked s e new next ∧
        (new.2.size : Int) = old.2.size + s.growth id t e) ∨
    (pageSize < s.level e.rid.pageId + s.growth id t e ∧
      (s.mvccRollback id t e.rid = .failed ∨ s.mvccRollback id t e.rid = .undefined)) := by
  have bound := s.level_le e.rid.pageId
  have tombstoned : s.growth id t e = 0 → s.mvccRollback id t e.rid = s.tombstone e.rid →
      s.level e.rid.pageId + s.growth id t e ≤ pageSize ∧
        ∃ next new, s.mvccRollback id t e.rid = .restored next ∧ Relinked s e new next ∧
          (new.2.size : Int) = old.2.size + s.growth id t e := by
    intro flat same
    obtain ⟨next, done, relinked⟩ := tombstone_spec base
    rw [same, flat]
    exact ⟨by omega, next, _, done, relinked, by simp⟩
  cases head : s.versionInfo e.rid with
  | none => exact .inl (tombstoned (by simp only [growth, head]) (by simp only [mvccRollback, getUndoLink, head]))
  | some link =>
    by_cases own : link.isValid = true ∧ link.prevTxn = id
    · have inside := ((links.heads e.rid link head) own.1).2 t (own.2 ▸ found)
      have logged : t.getUndoLog link.prevLogIdx = some (t.undoLogs.get ⟨link.prevLogIdx, inside⟩) :=
        List.getElem?_eq_getElem inside
      generalize t.undoLogs.get ⟨link.prevLogIdx, inside⟩ = undo at logged
      have rollback : s.mvccRollback id t e.rid = s.restorePreImage e.rid undo := by
        simp only [mvccRollback, getUndoLink, head, own, and_self, if_true, logged]
      have grows : s.growth id t e = ((restoredTuple undo old.2).2.size : Int) - old.2.size := by
        simp only [growth, head, base, own, and_self, if_true, logged, restoredTuple]
        split
        · omega
        · rfl
      have total : s.level e.rid.pageId + s.growth id t e =
          s.level e.rid.pageId + (restoredTuple undo old.2).2.size - old.2.size := by omega
      rw [rollback, total]
      rcases restorePreImage_spec base undo with ⟨fits, next, done, relinked⟩ | refused
      · exact .inl ⟨fits, next, _, done, relinked, by omega⟩
      · exact .inr refused
    · exact .inl (tombstoned (by simp only [growth, head, base, own, if_false])
        (by simp only [mvccRollback, getUndoLink, head, own, if_false]))

/-- One turn of the loop in `Abort`. -/
structure Turn (s next : Database) (id : Int) (t : Transaction) (e : Entry) (rest : List Entry) : Prop where
  phase : next.phase = update s.phase id (some (.rollingBack (rest.erase e)))
  txnMap : next.txnMap = s.txnMap
  tables : next.tables = s.tables
  rows : ∀ rid, rid ≠ e.rid → next.store.getRow rid = s.store.getRow rid
  links : ∀ rid, rid ≠ e.rid → next.versionInfo rid = s.versionInfo rid
  level : next.level = update s.level e.rid.pageId (s.level e.rid.pageId + s.growth id t e)

theorem Turn.growth (turn : Turn s next id t e rest) {e' : Entry} (apart : e'.rid ≠ e.rid) :
    next.growth id t e' = s.growth id t e' := by
  simp only [Database.growth, turn.rows _ apart, turn.links _ apart]

theorem rollback_turn (control : Control s) (links : Links s) (slots : Slots false log s) (rooted : s.Rooted)
    (here : s.phase id = some (.rollingBack rest)) (found : s.txnMap id = some t) (member : e ∈ rest) :
    (s.level e.rid.pageId + s.growth id t e ≤ pageSize ∧
      ∃ next, s.step (.rollback id e) = some (next, []) ∧ s.Orderly (.rollback id e) ∧
        Turn s next id t e rest) ∨
    (pageSize < s.level e.rid.pageId + s.growth id t e ∧
      ∀ next events, s.step (.rollback id e) = some (next, events) → next.phase id = some .idle) := by
  have mine : e ∈ s.pending id := by
    rw [pending_eq here found]
    exact member
  obtain ⟨⟨heap, table, -⟩, old, base⟩ := slots.present_of_rooted control rooted mine
  rcases mvccRollback_spec links found base with ⟨room, restored, new, done, relinked, size⟩ | ⟨full, refused⟩
  · obtain ⟨after, heads, rfl, stored, others⟩ := relinked
    have total : s.level e.rid.pageId + new.2.size - old.2.size = s.level e.rid.pageId + s.growth id t e := by
      omega
    have level := level_slotWritten (s := s) (e := e) base stored
    rw [total] at level
    have turn : Turn s ({ s with store := after, versionInfo := heads }.setPhase id
        (some (.rollingBack (rest.erase e)))) id t e rest :=
      ⟨rfl, rfl, rfl, fun rid apart => stored.getRow_other apart, others, level⟩
    refine .inl ⟨room, _, ?_, ⟨?_, ?_⟩, turn⟩
    · simp only [step, rollback, here, found, member, if_true, table, done]
    · intro id' e' u heap' same found' _
      cases same
      rw [found] at found'
      cases found'
      rw [done]
      simp
    · intro oid same
      cases same
  · refine .inr ⟨full, ?_⟩
    intro next events taken
    simp only [step, rollback, here, found, member, table] at taken
    rcases refused with refused | undefined
    · rw [refused] at taken
      cases taken
      exact update_self _ _ _
    · rw [undefined] at taken
      cases taken

/-- What the whole loop of `Abort` leaves as it was. -/
structure Reverted (s next : Database) (id : Int) (order : List Entry) : Prop where
  phase : next.phase = update s.phase id (some (.rollingBack []))
  txnMap : next.txnMap = s.txnMap
  tables : next.tables = s.tables
  rows : ∀ rid, (∀ e ∈ order, e.rid ≠ rid) → next.store.getRow rid = s.store.getRow rid
  links : ∀ rid, (∀ e ∈ order, e.rid ≠ rid) → next.versionInfo rid = s.versionInfo rid

theorem Reverted.cons {after : Database} {order : List Entry} (turn : Turn s next id t e rest)
    (reverted : Reverted next after id order) : Reverted s after id (e :: order) := by
  constructor
  · rw [reverted.phase, turn.phase, update_idem]
  · rw [reverted.txnMap, turn.txnMap]
  · rw [reverted.tables, turn.tables]
  · intro rid apart
    rw [reverted.rows rid fun e' member => apart e' (List.mem_cons_of_mem _ member)]
    exact turn.rows rid (apart e List.mem_cons_self).symm
  · intro rid apart
    rw [reverted.links rid fun e' member => apart e' (List.mem_cons_of_mem _ member)]
    exact turn.links rid (apart e List.mem_cons_self).symm

theorem exec_idle {actions : List Action} (idle : s.phase id = some .idle) (order : List Entry) :
    exec system s log (order.map (.rollback id) ++ .markAborted id :: actions) = none := by
  cases order with
  | nil => simp only [List.map_nil, List.nil_append, exec, system, step, markAborted, idle]
  | cons e order =>
    simp only [List.map_cons, List.cons_append, exec, system, step, rollback, idle]

theorem Slots.rids_distinct (slots : Slots false log s) (control : Control s) (heaps : Heaps s)
    (rooted : s.Rooted) {e' : Entry} (mine : e ∈ s.pending id) (mine' : e' ∈ s.pending id)
    (apart : e' ≠ e) : e'.rid ≠ e.rid := by
  intro same
  have present := slots.present_of_rooted control rooted mine
  have present' := slots.present_of_rooted control rooted mine'
  exact apart (heaps.entry_eq present'.1 present.1 same)

end Database

open Database in
/-- The loop of `Abort` goes through exactly when the rows fit in the order it visits them. -/
theorem rollback_loop {id : Int} {t : Transaction} (order : List Entry) {log : List Event} {s : Database}
    {rest : List Entry} (run : Run system Orderly log s) (here : s.phase id = some (.rollingBack rest))
    (found : s.txnMap id = some t) (distinct : order.Nodup) (perm : order.Perm rest) (actions : List Action) :
    (Fits (s.growth id t) s.level order ∧ ∃ next, Run system Orderly log next ∧ Reverted s next id order ∧
      exec system s log (order.map (.rollback id) ++ .markAborted id :: actions) =
        exec system next log (.markAborted id :: actions)) ∨
    (¬Fits (s.growth id t) s.level order ∧
      exec system s log (order.map (.rollback id) ++ .markAborted id :: actions) = none) := by
  induction order generalizing s rest with
  | nil =>
    have done := List.nil_perm.mp perm
    subst done
    have phase : s.phase = update s.phase id (some (.rollingBack [])) := by
      rw [← here, update_eq_self]
    exact .inl ⟨trivial, s, run, ⟨phase, rfl, rfl, fun _ _ => rfl, fun _ _ => rfl⟩, rfl⟩
  | cons e order ih =>
    have control := control_run run
    have slots := slots_run (run.mono fun _ _ orderly => orderly.admits)
    have rooted := (separated_run run).1
    obtain ⟨fresh, tail⟩ := List.nodup_cons.mp distinct
    have member : e ∈ rest := perm.subset List.mem_cons_self
    have pending : ∀ e' ∈ e :: order, e' ∈ s.pending id := by
      intro e' inside
      rw [pending_eq here found]
      exact perm.subset inside
    rcases rollback_turn control (links_run run) slots rooted here found member with
      ⟨room, next, taken, orderly, turn⟩ | ⟨full, stuck⟩
    · have here' : next.phase id = some (.rollingBack (rest.erase e)) := by
        rw [turn.phase, update_self]
      have perm' : order.Perm (rest.erase e) := by
        have shorter := perm.erase e
        rwa [List.erase_cons_head] at shorter
      have same : ∀ e' ∈ order, next.growth id t e' = s.growth id t e' := by
        intro e' inside
        have apart : e' ≠ e := by
          intro equal
          exact fresh (equal ▸ inside)
        exact turn.growth (slots.rids_distinct control (heaps_run run) rooted (pending e List.mem_cons_self)
          (pending e' (List.mem_cons_of_mem _ inside)) apart)
      have later := ih (run.next orderly taken) here' (by rw [turn.txnMap]; exact found) tail perm'
      rw [fits_congr same, turn.level] at later
      have first : exec system s log ((e :: order).map (.rollback id) ++ .markAborted id :: actions) =
          exec system next log (order.map (.rollback id) ++ .markAborted id :: actions) := by
        simp only [List.map_cons, List.cons_append, exec]
        rw [show system.step s (.rollback id e) = some (next, []) from taken]
        rfl
      rw [first]
      rcases later with ⟨fits, after, run', reverted, same'⟩ | ⟨misfit, failed⟩
      · exact .inl ⟨⟨room, fits⟩, after, run', Reverted.cons turn reverted, same'⟩
      · exact .inr ⟨fun fits => misfit fits.2, failed⟩
    · refine .inr ⟨fun fits => absurd fits.1 (not_le.mpr full), ?_⟩
      simp only [List.map_cons, List.cons_append, exec]
      cases taken : system.step s (.rollback id e) with
      | none => rfl
      | some outcome => exact exec_idle (stuck outcome.1 outcome.2 taken) order

end BumbleBee.Mvcc
