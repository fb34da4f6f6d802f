import BumbleBee.Mvcc.Ledger
import BumbleBee.Mvcc.Walks
import BumbleBee.Mvcc.Writes

/-!
What holds in every run, and what a step leaves alone. A slot exists after a step
only if it existed before or was just inserted, and its tuple and head link stay
unless the step names it.
-/

namespace BumbleBee.Mvcc
open Library.Transition Storage Storage.SlottedPage Concurrency Function

/-- The actions that write the slot of an existing entry. -/
def Action.Targets (e : Entry) : Action → Prop
  | .modify _ target _ => target = e
  | .stamp _ target => target = e
  | .rollback _ target => target = e
  | _ => False

namespace Database

structure Sound (log : List Event) (s : Database) : Prop where
  control : Control s
  heaps : Heaps s
  sets : WriteSets log s
  links : Links s
  walks : Walks s
  ledger : Ledger log s

variable {s next : Database} {id : Int} {log : List Event} {e : Entry} {a : Action} {events : List Event}
  {linked : PageStore} {oid : Nat}

/-- The slot an insert fills did not exist. -/
theorem Heaps.insert_absent (heaps : Heaps s) {heap grown : TableHeap} (table : s.tables oid = some heap)
    (grew : TableHeap.Grew heap s.store grown linked) (other : Nat) :
    ¬s.Present ⟨other, grown.lastPageId, (linked.rows grown.lastPageId).length⟩ := by
  intro present
  obtain ⟨-, tuple, found⟩ := (heaps.space_grew table grew).2 _ present
  have absent : linked.getRow ⟨grown.lastPageId, (linked.rows grown.lastPageId).length⟩ = none :=
    TableHeap.Placed.getRow_absent _ _
  rw [absent] at found
  cases found

theorem Heaps.listed_grown (heaps : Heaps s) {heap grown : TableHeap} (table : s.tables oid = some heap)
    (grew : TableHeap.Grew heap s.store grown linked) : grown.lastPageId ∈ grown.pageDirectory := by
  cases grew with
  | kept => exact heaps.last oid _ table
  | linked => exact List.mem_append_right _ (by simp)

theorem Heaps.inserted_elsewhere (heaps : Heaps s) {heap grown : TableHeap} {after : PageStore}
    {tuple : TupleMeta × RowBytes} (table : s.tables oid = some heap)
    (grew : TableHeap.Grew heap s.store grown linked)
    (placed : TableHeap.Placed linked grown.lastPageId tuple after)
    (tables : next.tables = update s.tables oid (some grown)) (store : next.store = after)
    (present : next.Present e) (apart : e ≠ ⟨oid, grown.lastPageId, (linked.rows grown.lastPageId).length⟩) :
    s.Present e ∧ next.store.getRow e.rid = s.store.getRow e.rid := by
  have steps : Steps s (.insert 0 oid tuple.2)
      { s with store := linked, tables := update s.tables oid (some grown) } [] :=
    Steps.insertTooLarge table grew
  obtain ⟨owned, found⟩ := present
  have owned' : Owns { s with store := linked, tables := update s.tables oid (some grown) }
      e.oid e.rid.pageId := by
    simpa only [Owns, tables] using owned
  have elsewhere : e.rid ≠ ⟨grown.lastPageId, (linked.rows grown.lastPageId).length⟩ := by
    intro same
    refine apart ((heaps.step steps).entry_eq owned' ?_ same)
    exact ⟨grown, update_self _ _ _, heaps.listed_grown table grew⟩
  have row : next.store.getRow e.rid = linked.getRow e.rid := by
    rw [store]
    exact placed.getRow_other elsewhere
  rw [row] at found ⊢
  exact (heaps.space_grew table grew).1.present e ⟨owned', found⟩

theorem Heaps.present_before (heaps : Heaps s) (steps : Steps s a next events) (present : next.Present e) :
    s.Present e ∨ ∃ id row, events = [.inserted id e row] := by
  have rewritten : ∀ {rid : RID} {new : TupleMeta × RowBytes} {after : PageStore},
      PageStore.SlotWritten s.store rid new after → (∃ tuple, after.getRow e.rid = some tuple) →
      ∃ tuple, s.store.getRow e.rid = some tuple := by
    intro rid new after stored found
    by_cases same : e.rid = rid
    · rw [same]
      exact stored.present
    · rwa [stored.getRow_other same] at found
  cases steps with
  | @inserted id oid row t heap grown linked after ready table grew placed =>
    by_cases same : e = ⟨oid, grown.lastPageId, (linked.rows grown.lastPageId).length⟩
    · exact .inr ⟨id, row, by rw [same]⟩
    · exact .inl (heaps.inserted_elsewhere table grew placed rfl rfl present same).1
  | insertTooLarge table grew => exact .inl ((heaps.space_grew table grew).1.present e present).1
  | rewrote ready table listed base own stored | versioned ready table listed base foreign inSnapshot stored
  | stamped phase member table base stored
  | restored phase found member table head valid own logged base stored
  | tombstoned phase member table unowned base stored =>
    exact .inl ⟨present.1, rewritten stored present.2⟩
  | created => exact .inl (heaps.space_created.1.present e present).1
  | dropped table => exact .inl ((present_dropped e).mp present).1
  | _ => exact .inl present

variable {rest : List Entry}

/-- The entries a finalization still has to visit exist as long as their tables do. -/
theorem WriteSets.present_of_rest (sets : WriteSets log s) {t : Transaction}
    {heap : TableHeap} (found : s.txnMap id = some t) (inside : rest ⊆ t.writeSet) (member : e ∈ rest)
    (table : s.tables e.oid = some heap) : s.Present e :=
  (sets.lasting id e ((sets.writes id t found e).mp (inside member))).2 heap table

theorem Control.rest_stamping (control : Control s) {commitTs : Int}
    (here : s.phase id = some (.stamping commitTs rest)) : ∃ t, s.txnMap id = some t ∧ rest ⊆ t.writeSet := by
  obtain ⟨t, found, -, -, -, -, -, inside, -⟩ := control.finalizing here (by simp)
  exact ⟨t, found, inside⟩

theorem Control.rest_rollingBack (control : Control s) (here : s.phase id = some (.rollingBack rest)) :
    ∃ t, s.txnMap id = some t ∧ rest ⊆ t.writeSet := by
  obtain ⟨t, found, -, -, inside, -⟩ := control.finalizing here (by simp)
  exact ⟨t, found, inside⟩

/-- A slot that was there keeps its tuple and its link unless the step names it. -/
theorem Sound.untargeted (sound : Sound log s) (steps : Steps s a next events) (present : next.Present e)
    (before : s.Present e) (other : ¬a.Targets e) :
    next.store.getRow e.rid = s.store.getRow e.rid ∧ next.versionInfo e.rid = s.versionInfo e.rid := by
  obtain ⟨control, heaps, sets, -, -, -⟩ := sound
  have apart : ∀ {target : Entry}, s.Owns target.oid target.rid.pageId → target ≠ e → e.rid ≠ target.rid :=
    fun owned different same => different (heaps.entry_eq before.1 owned same).symm
  cases steps with
  | @inserted id oid row t heap grown linked after ready table grew placed =>
    refine ⟨(heaps.inserted_elsewhere table grew placed rfl rfl present ?_).2, rfl⟩
    rintro rfl
    exact heaps.insert_absent table grew oid before
  | insertTooLarge table grew => exact ⟨((heaps.space_grew table grew).1.present e present).2, rfl⟩
  | rewrote ready table listed base own stored =>
    exact ⟨stored.getRow_other (apart ⟨_, table, listed⟩ other), rfl⟩
  | versioned ready table listed base foreign inSnapshot stored =>
    have elsewhere := apart ⟨_, table, listed⟩ other
    exact ⟨stored.getRow_other elsewhere, update_of_ne elsewhere _ _⟩
  | stamped phase member table base stored =>
    obtain ⟨t, found, inside⟩ := control.rest_stamping phase
    have elsewhere := apart (sets.present_of_rest found inside member table).1 other
    exact ⟨stored.getRow_other elsewhere, rfl⟩
  | restored phase found member table head valid own logged base stored =>
    obtain ⟨t, found', inside⟩ := control.rest_rollingBack phase
    have elsewhere := apart (sets.present_of_rest found' inside member table).1 other
    exact ⟨stored.getRow_other elsewhere, update_of_ne elsewhere _ _⟩
  | tombstoned phase member table unowned base stored =>
    obtain ⟨t, found, inside⟩ := control.rest_rollingBack phase
    have elsewhere := apart (sets.present_of_rest found inside member table).1 other
    exact ⟨stored.getRow_other elsewhere, rfl⟩
  | created => exact ⟨(heaps.space_created.1.present e present).2, rfl⟩
  | dropped table => exact ⟨(space_dropped.present e present).2, rfl⟩
  | _ => exact ⟨rfl, rfl⟩

theorem Sound.link_kept (sound : Sound log s) (steps : Steps s a next events) {rid : RID}
    (absent : ∀ oid, ¬s.Present ⟨oid, rid⟩) : next.versionInfo rid = s.versionInfo rid := by
  have apart : ∀ {target : Entry}, s.Present target → rid ≠ target.rid := by
    rintro target present rfl
    exact absent target.oid present
  cases steps with
  | versioned ready table listed base foreign inSnapshot stored =>
    exact update_of_ne (apart ⟨⟨_, table, listed⟩, _, base⟩) _ _
  | restored phase found member table head valid own logged base stored =>
    obtain ⟨t, found', inside⟩ := sound.control.rest_rollingBack phase
    exact update_of_ne (apart (sound.sets.present_of_rest found' inside member table)) _ _
  | _ => rfl

theorem Sound.readTs_kept (sound : Sound log s) (steps : Steps s a next events) {t before : Transaction}
    (found : next.txnMap id = some t) (here : s.txnMap id = some before) : t.readTs = before.readTs := by
  have ledger := sound.ledger.step sound.control steps
  have began := List.mem_append_right events (sound.ledger.begins id before here)
  exact (ledger.once id _ _ _ _ (ledger.begins id t found) began).1

/-- The phases a call of `Begin`, `Commit` or `Abort` takes its own transaction through. -/
inductive PhaseStep (s : Database) (id : Int) : Action → Option Phase → Prop
  | begun {isolationLevel} (new : id = s.nextTxnId) :
      PhaseStep s id (.begin isolationLevel) (some .idle)
  | committing {a after} (commits : a.Commits id) (idle : s.phase id = some .idle) (closed : after ≠ .idle)
      : PhaseStep s id a (some after)
  | verifying {a locked rest walk after} (before : s.phase id = some (.verifying locked rest walk))
      (closed : after ≠ .idle) :
      PhaseStep s id a (some after)
  | stamping {a commitTs rest rest'} (before : s.phase id = some (.stamping commitTs rest)) :
      PhaseStep s id a (some (.stamping commitTs rest'))
  | published {commitTs readTs} (before : s.phase id = some (.stamping commitTs [])) :
      PhaseStep s id (.publish id) (some (.leaving readTs (some commitTs)))
  | abortStarted {rest : List Entry} (idle : s.phase id = some .idle) :
      PhaseStep s id (.startAbort id) (some (.rollingBack rest))
  | rolledBack {e rest rest'} (before : s.phase id = some (.rollingBack rest)) :
      PhaseStep s id (.rollback id e) (some (.rollingBack rest'))
  | rollbackFailed {e rest txn heap} (before : s.phase id = some (.rollingBack rest))
      (found : s.txnMap id = some txn) (table : s.tables e.oid = some heap)
      (refused : s.mvccRollback id txn e.rid = .failed) :
      PhaseStep s id (.rollback id e) (some .idle)
  | markedAborted {readTs} (before : s.phase id = some (.rollingBack [])) :
      PhaseStep s id (.markAborted id) (some (.leaving readTs none))
  | left {readTs commitTs} (before : s.phase id = some (.leaving readTs commitTs)) :
      PhaseStep s id (.leave id) none

section
variable (steps : Steps s a next events)
include steps

theorem phase_of_steps (id : Int) : next.phase id = s.phase id ∨ PhaseStep s id a (next.phase id) := by
  have moved : ∀ {other : Int} {after : Option Phase} {a : Action}, PhaseStep s other a after →
      update s.phase other after id = s.phase id ∨
        PhaseStep s id a (update s.phase other after id) := by
    intro other after a move
    by_cases same : id = other
    · subst same
      rw [update_self]
      exact .inr move
    · rw [update_of_ne same]
      exact .inl rfl
  cases steps with
  | began added => exact moved (PhaseStep.begun rfl)
  | commitStarted ready running => exact moved (PhaseStep.committing (.inl rfl) ready.idle (by simp))
  | lockedToStamp ready running unchecked free room =>
    exact moved (PhaseStep.committing (.inr rfl) ready.idle (by simp))
  | lockedToVerify phase found free room | verifySkipped phase member dropped | verifyRejected phase found
  | verifyPassed phase found member base settled unread inSnapshot
  | verifyWalking phase found member table base tested | linkEnded phase missing | linkRejected phase found
  | linkPassed phase found resolved unread inSnapshot | linkFollowed phase found resolved unread newer
  | verified phase found => exact moved (PhaseStep.verifying phase (by simp))
  | stampSkipped phase member dropped | stamped phase member table base stored =>
    exact moved (PhaseStep.stamping phase)
  | published phase found => exact moved (PhaseStep.published phase)
  | abortStarted ready => exact moved (PhaseStep.abortStarted ready.idle)
  | rollbackSkipped phase member dropped
  | restored phase found member table head valid own logged base stored
  | tombstoned phase member table unowned base stored => exact moved (PhaseStep.rolledBack phase)
  | rollbackFailed phase found table refused =>
    exact moved (PhaseStep.rollbackFailed phase found table refused)
  | markedAborted phase found => exact moved (PhaseStep.markedAborted phase)
  | leftCommitted phase removed | leftAborted phase removed => exact moved (PhaseStep.left phase)
  | _ => exact .inl rfl

/-- Only a transaction with all its writes stamped commits. -/
theorem stamping_of_committed {commitTs : Int}
    (member : Event.committed id commitTs ∈ events) : s.phase id = some (.stamping commitTs []) := by
  cases steps with
  | published phase found =>
    cases List.mem_singleton.mp member
    exact phase
  | _ => simp at member

theorem idle_kept (idle : s.phase id = some .idle) (uncommitted : ¬a.Commits id) (unaborted : a ≠ .startAbort id) :
    next.phase id = some .idle := by
  rcases phase_of_steps steps id with same | move
  · exact same.trans idle
  · generalize next.phase id = after at move ⊢
    cases move with
    | begun new => rfl
    | committing commits => exact absurd commits uncommitted
    | abortStarted => exact absurd rfl unaborted
    | verifying before | stamping before | published before | rolledBack before | rollbackFailed before
    | markedAborted before | left before => simp [idle] at before

end

theorem Sound.idle_uncommitted (sound : Sound log s) (idle : s.phase id = some .idle) (commitTs : Int) :
    Event.committed id commitTs ∉ log := by
  intro member
  obtain ⟨t, found, -, live⟩ := sound.control.finalizing idle (by simp)
  have committed := ((sound.ledger.finished id commitTs member).2.2 t found).1
  rcases live with running | tainted
  · simp [running] at committed
  · simp [tainted] at committed

/-- On its way out through `Abort`, or gone without a commit. -/
def Aborting (s : Database) (id : Int) : Prop :=
  s.phase id = none ∨ (∃ rest, s.phase id = some (.rollingBack rest)) ∨
    ∃ readTs, s.phase id = some (.leaving readTs none)

theorem Aborting.step (aborting : s.Aborting id) (steps : Steps s a next events) (known : id < s.nextTxnId)
    (restores : ∀ e t heap, a = .rollback id e → s.txnMap id = some t → s.tables e.oid = some heap →
      s.mvccRollback id t e.rid ≠ .failed) :
    next.Aborting id := by
  rcases phase_of_steps steps id with same | move
  · unfold Aborting
    rw [same]
    exact aborting
  · unfold Aborting at aborting ⊢
    generalize next.phase id = after at move ⊢
    cases move with
    | begun new => omega
    | rolledBack before | abortStarted idle => exact .inr (.inl ⟨_, rfl⟩)
    | rollbackFailed before found table refused => exact absurd refused (restores _ _ _ rfl found table)
    | markedAborted before => exact .inr (.inr ⟨_, rfl⟩)
    | left before => exact .inl rfl
    | committing commits idle => simp [idle] at aborting
    | verifying before | stamping before | published before => simp [before] at aborting

end Database

theorem sound_run {meets : Database → Action → Prop} {log : List Event} {s : Database}
    (run : Run system meets log s) : Database.Sound log s :=
  ⟨control_run run, heaps_run run, writeSets_run run, links_run run, walks_run run, ledger_run run⟩

end BumbleBee.Mvcc
