import BumbleBee.Mvcc.Writes

/-!
`Commit` and `Abort` keep the slots. Stamping changes a timestamp of a held slot;
publishing turns every held slot of the writer into a settled one whose history
has grown by the writer's version; rolling back returns a slot to its history.
-/

namespace BumbleBee.Mvcc
open Storage Storage.SlottedPage Concurrency Function

namespace Database

variable {s next : Database} {id : Int} {clean : Bool} {log : List Event} {e : Entry}

/-- One turn of the stamping or of the rollback loop: one slot, one phase. -/
structure FinalizesAt (s next : Database) (id : Int) (e : Entry) (t : Transaction) (before after : Phase) :
    Prop where
  here : s.phase id = some before
  found : s.txnMap id = some t
  phase : next.phase = update s.phase id (some after)
  txnMap : next.txnMap = s.txnMap
  tables : next.tables = s.tables
  lastCommitTs : next.lastCommitTs = s.lastCommitTs
  stored : ∃ tuple, PageStore.SlotWritten s.store e.rid tuple next.store
  links : ∀ rid, rid ≠ e.rid → next.versionInfo rid = s.versionInfo rid
  entries : ∀ e', e' ≠ e → (e' ∈ after.entries t.writeSet ↔ e' ∈ before.entries t.writeSet)
  stamps : ∀ e', e' ≠ e → after.stampTs id e' = before.stampTs id e'

variable {t : Transaction}

theorem FinalizesAt.pending_self {before after : Phase}
    (turn : FinalizesAt s next id e t before after) : next.pending id = after.entries t.writeSet :=
  pending_eq (by rw [turn.phase, update_self]) (by rw [turn.txnMap]; exact turn.found)

theorem FinalizesAt.pending_other {before after : Phase} (turn : FinalizesAt s next id e t before after)
    {other : Int} (apart : other ≠ id) : next.pending other = s.pending other :=
  pending_congr (by rw [turn.phase, update_of_ne apart]) (by rw [turn.txnMap])

theorem Slots.finalizedAt (slots : Slots clean log s) (control : Control s) (heaps : Heaps s)
    (keeps : Keeps s next) (kept : WriteSets log next) {before after : Phase} (owned : s.Owns e.oid e.rid.pageId)
    (turn : FinalizesAt s next id e t before after)
    (held : ∀ other u, next.txnMap other = some u → e ∈ next.pending other → Held clean log next other u e)
    (settled : (∀ other, e ∉ next.pending other) → Settled clean log next e) : Slots clean log next := by
  obtain ⟨tuple, stored⟩ := turn.stored
  have presence := present_of_slotWritten turn.tables stored
  have present : s.Present e := ⟨owned, stored.present⟩
  have unmoved : ∀ e', next.Present e' → e' ≠ e → Unmoved log log s next e' := by
    intro e' present' apart
    have before' := (presence e').mp present'
    have elsewhere : e'.rid ≠ e.rid := fun same => apart (heaps.entry_eq before'.1 owned same)
    refine ⟨before', ⟨stored.getRow_other elsewhere, turn.links _ elsewhere, rfl⟩, fun _ => rfl, ?_, ?_⟩
    · intro other
      by_cases same : other = id
      · subst same
        rw [turn.pending_self, pending_eq turn.here turn.found]
        exact turn.entries e' apart
      · rw [turn.pending_other same]
    · intro other member
      by_cases same : other = id
      · subst same
        have now : next.phase other = some after := by rw [turn.phase, update_self]
        rw [stampTs_eq now, stampTs_eq turn.here]
        exact turn.stamps e' apart
      · exact stampTs_congr (by rw [turn.phase, update_of_ne same])
  constructor
  · exact kept
  · rw [turn.lastCommitTs]
    exact slots.commits
  · exact slots.ordered
  · intro other u e' found member present'
    by_cases same : e' = e
    · subst same
      exact held other u found member
    · exact (unmoved e' present' same).held slots control keeps found member
  · intro e' present' free
    by_cases same : e' = e
    · subst same
      exact settled free
    · exact (unmoved e' present' same).settled slots control keeps free
  · intro rid unfilled scope
    have elsewhere : rid ≠ e.rid := by
      rintro rfl
      exact unfilled e.oid ((presence e).mpr present)
    rw [turn.links rid elsewhere]
    refine (slots.unfilled rid (fun oid before' => unfilled oid ((presence _).mpr before')) ?_).keeps keeps
    simpa only [owns_congr turn.tables] using scope

variable {heap : TableHeap}

theorem Slots.present_of_pending (slots : Slots clean log s) (control : Control s)
    (member : e ∈ s.pending id) (table : s.tables e.oid = some heap) : s.Present e := by
  obtain ⟨t, found, -, inside⟩ := control.live_of_pending member
  exact (slots.lasting id e ((slots.writes id t found e).mp inside)).2 heap table

variable {rest : List Entry}

theorem mem_erase_iff_of_ne {e' : Entry} (apart : e' ≠ e) :
    e' ∈ rest.erase e ↔ e' ∈ rest := List.mem_erase_of_ne apart

variable {row : RowBytes}

theorem Slots.stamped (slots : Slots clean log s) (control : Control s) (heaps : Heaps s)
    {commitTs : Int} {tupleMeta : TupleMeta} (keeps : Keeps s next) (kept : WriteSets log next)
    (turn : FinalizesAt s next id e t (.stamping commitTs rest) (.stamping commitTs (rest.erase e)))
    (member : e ∈ rest) (table : s.tables e.oid = some heap) (base : s.store.getRow e.rid = some (tupleMeta, row))
    (stored : PageStore.SlotWritten s.store e.rid ({ tupleMeta with ts := commitTs }, row) next.store)
    (link : next.versionInfo e.rid = s.versionInfo e.rid) : Slots clean log next := by
  have found := turn.found
  obtain ⟨u, same, -, -, -, -, -, inside, distinct⟩ := control.finalizing turn.here (by simp)
  cases found.symm.trans same
  have mine : e ∈ s.pending id := by
    rw [pending_eq turn.here found]
    exact inside member
  have present := slots.present_of_pending control mine table
  have before := slots.held id t e found mine present
  have mineNow : e ∈ next.pending id := by
    rw [turn.pending_self]
    exact inside member
  refine slots.finalizedAt control heaps keeps kept present.1 turn ?_ fun free => absurd mineNow (free id)
  intro other u found' member'
  have same : other = id := by
    by_contra apart
    rw [turn.pending_other apart] at member'
    exact apart (slots.holder_unique control present mine member')
  subst same
  rw [turn.txnMap, found] at found'
  cases found'
  refine ⟨before.seen, ⟨_, stored.getRow_self, ?_, ?_⟩, ?_⟩
  · have now : next.phase other = some (.stamping commitTs (rest.erase e)) := by rw [turn.phase, update_self]
    rw [stampTs_eq now]
    simp only [Phase.stampTs, distinct.mem_erase_iff, ne_eq, not_true_eq_false, false_and, if_false]
  · obtain ⟨tuple, base', -, write⟩ := before.base
    rw [base] at base'
    cases base'
    exact write
  · exact before.below_frame control keeps link rfl (List.prefix_refl _)

theorem Slots.rolledBack (slots : Slots clean log s) (control : Control s) (heaps : Heaps s)
    (keeps : Keeps s next) (kept : WriteSets log next) (present : s.Present e) (mine : e ∈ s.pending id)
    (distinct : rest.Nodup) (turn : FinalizesAt s next id e t (.rollingBack rest) (.rollingBack (rest.erase e)))
    (settled : Settled clean log next e) : Slots clean log next := by
  refine slots.finalizedAt control heaps keeps kept present.1 turn ?_ fun _ => settled
  intro other u _ member
  by_cases same : other = id
  · subst same
    rw [turn.pending_self] at member
    exact absurd rfl (distinct.mem_erase_iff.mp member).1
  · rw [turn.pending_other same] at member
    exact absurd (slots.holder_unique control present mine member) same

theorem tupleVersion_restored (undo : UndoLog) (old : RowBytes) :
    tupleVersion (restoredTuple undo old) = UndoLog.version undo := by
  simp only [tupleVersion, restoredTuple, UndoLog.version]
  split <;> rfl

theorem Held.logged_of_own {link : UndoLink} (held : Held clean log s id t e)
    (found : s.txnMap id = some t) (live : t.Live) (head : s.versionInfo e.rid = some link)
    (valid : link.isValid = true) (own : link.prevTxn = id) : Logged clean log s id t e := by
  rcases held.below with ⟨-, ends⟩ | logged
  · obtain ⟨-, owners⟩ := ends link head valid
    rcases live with running | tainted <;> simp_all
  · exact logged

theorem Slots.restored (slots : Slots clean log s) (control : Control s) (heaps : Heaps s)
    {link : UndoLink} {undo : UndoLog} (keeps : Keeps s next) (kept : WriteSets log next)
    (turn : FinalizesAt s next id e t (.rollingBack rest) (.rollingBack (rest.erase e)))
    (member : e ∈ rest) (table : s.tables e.oid = some heap) (head : s.versionInfo e.rid = some link)
    (valid : link.isValid = true) (own : link.prevTxn = id) (logged : t.undoLogs[link.prevLogIdx]? = some undo)
    (stored : PageStore.SlotWritten s.store e.rid (restoredTuple undo row) next.store)
    (relinked : next.versionInfo e.rid = if undo.prevVersion.isValid then some undo.prevVersion else none) :
    Slots clean log next := by
  obtain ⟨u, same, -, live, inside, distinct⟩ := control.finalizing turn.here (by simp)
  cases turn.found.symm.trans same
  have mine : e ∈ s.pending id := by
    rw [pending_eq turn.here turn.found]
    exact member
  have present := slots.present_of_pending control mine table
  have before := slots.held id t e turn.found mine present
  obtain ⟨idx, undo', older, ground, head', logged', flat, versions, chain⟩ :=
    before.logged_of_own turn.found live head valid own
  rw [head, Option.some.injEq] at head'
  subst head'
  rw [logged] at logged'
  cases logged'
  refine slots.rolledBack control heaps keeps kept present mine distinct turn
    ⟨restoredTuple undo row, older, ground, stored.getRow_self, flat, ?_, ?_⟩
  · rw [tupleVersion_restored]
    exact versions
  · rw [relinked]
    exact chain.normalized.keeps control.known keeps

theorem Slots.tombstoned (slots : Slots clean log s) (control : Control s) (heaps : Heaps s)
    (keeps : Keeps s next) (kept : WriteSets log next)
    (turn : FinalizesAt s next id e t (.rollingBack rest) (.rollingBack (rest.erase e)))
    (member : e ∈ rest) (table : s.tables e.oid = some heap)
    (unowned : ∀ link ∈ s.versionInfo e.rid, ¬(link.isValid = true ∧ link.prevTxn = id))
    (stored : PageStore.SlotWritten s.store e.rid (⟨0, true⟩, row) next.store)
    (link : next.versionInfo e.rid = s.versionInfo e.rid) : Slots clean log next := by
  obtain ⟨u, same, -, live, inside, distinct⟩ := control.finalizing turn.here (by simp)
  cases turn.found.symm.trans same
  have mine : e ∈ s.pending id := by
    rw [pending_eq turn.here turn.found]
    exact member
  have present := slots.present_of_pending control mine table
  have before := slots.held id t e turn.found mine present
  rcases before.below with ⟨fresh, ends⟩ | ⟨idx, undo, older, ground, head, -⟩
  · refine slots.rolledBack control heaps keeps kept present mine distinct turn
      ⟨(⟨0, true⟩, row), [], [⟨0, none⟩], stored.getRow_self, .inr rfl, ?_, Chain.bottom ?_⟩
    · rw [fresh]
      rfl
    · rw [link]
      exact ends.keeps keeps
  · exact absurd ⟨UndoLink.isValid_of_txn (control.txns id t turn.found).old idx, rfl⟩ (unowned _ head)

/-- The stores of `publish`: the writer is committed and the clock shows its timestamp. -/
structure Publishes (s next : Database) (id commitTs : Int) (t : Transaction) : Prop where
  here : s.phase id = some (.stamping commitTs [])
  found : s.txnMap id = some t
  phase : next.phase = update s.phase id (some (.leaving t.readTs (some commitTs)))
  txnMap : next.txnMap = update s.txnMap id
    (some { t with commitTs := commitTs, state := .committed })
  clock : next.lastCommitTs = commitTs
  store : next.store = s.store
  links : next.versionInfo = s.versionInfo
  tables : next.tables = s.tables

variable {commitTs : Int} {t : Transaction}

section
variable (publishes : Publishes s next id commitTs t)
include publishes

theorem Publishes.now : next.txnMap id = some { t with commitTs := commitTs, state := .committed } := by
  rw [publishes.txnMap, update_self]

theorem Publishes.pending_self : next.pending id = [] := by
  have left : next.phase id = some (.leaving t.readTs (some commitTs)) := by
    rw [publishes.phase, update_self]
  exact pending_leaving left

theorem Publishes.pending_other {other : Int} (apart : other ≠ id) : next.pending other = s.pending other :=
  pending_congr (by rw [publishes.phase, update_of_ne apart])
    (by rw [publishes.txnMap, update_of_ne apart])

theorem Publishes.present : next.Present e ↔ s.Present e := by
  simp only [Present, Owns, publishes.tables, publishes.store]

end

theorem history_committed {value : Option RowBytes} (write : lastWrite id e log = some value) :
    history e (.committed id commitTs :: log) = ⟨commitTs, value⟩ :: history e log := by
  simp only [history, write]

theorem history_committed_other (write : lastWrite id e log = none) :
    history e (.committed id commitTs :: log) = history e log := by
  simp only [history, write]

/-- A slot of the writer becomes settled, its history grown by the writer's version. -/
theorem Slots.settled_published (slots : Slots clean log s) (control : Control s) (keeps : Keeps s next)
    (publishes : Publishes s next id commitTs t) (present : s.Present e) (mine : e ∈ s.pending id) :
    Settled clean (.committed id commitTs :: log) next e := by
  have held := slots.held id t e publishes.found mine present
  obtain ⟨tuple, base, stamp, write⟩ := held.base
  rw [stampTs_eq publishes.here] at stamp
  have carries : tuple.1.ts = commitTs := by simpa [Phase.stampTs] using stamp
  have version : tupleVersion tuple = ⟨commitTs, (tupleVersion tuple).value⟩ := by
    rw [← carries]
    rfl
  have grown : history e (.committed id commitTs :: log) =
      ⟨commitTs, (tupleVersion tuple).value⟩ :: history e log := history_committed write
  rw [← publishes.store] at base
  rcases held.below with ⟨fresh, ends⟩ | ⟨idx, undo, older, ground, head, logged, flat, versions, chain⟩
  · refine ⟨tuple, [], [], base, .inl rfl, ?_, ?_⟩
    · rw [grown, fresh, ← version]
      rfl
    · rw [publishes.links]
      exact Chain.bottom (ends.keeps keeps)
  · refine ⟨tuple, UndoLog.version undo :: older, ground, base, flat, ?_, ?_⟩
    · rw [grown, ← version, versions]
      rfl
    · rw [publishes.links, head]
      refine Chain.version (UndoLink.isValid_of_txn (control.txns id t publishes.found).old idx)
        publishes.now rfl carries.symm logged ?_
      exact chain.keeps control.known keeps

theorem Slots.unmoved_published (slots : Slots clean log s) (publishes : Publishes s next id commitTs t)
    (present : s.Present e) (foreign : e ∉ s.pending id) :
    Unmoved log (.committed id commitTs :: log) s next e := by
  have unwritten : lastWrite id e log = none := by
    rw [pending_eq publishes.here publishes.found] at foreign
    exact not_wrote.mp fun wrote => foreign ((slots.writes id t publishes.found e).mpr wrote)
  refine ⟨present, ⟨by rw [publishes.store], by rw [publishes.links], history_committed_other unwritten⟩,
    fun _ => rfl, ?_, ?_⟩
  · intro other
    by_cases same : other = id
    · subst same
      simp only [publishes.pending_self, List.not_mem_nil, false_iff]
      exact foreign
    · rw [publishes.pending_other same]
  · intro other member
    have apart : other ≠ id := fun same => foreign (same ▸ member)
    exact stampTs_congr (by rw [publishes.phase, update_of_ne apart])

theorem Slots.published (slots : Slots clean log s) (control : Control s) (keeps : Keeps s next)
    (kept : WriteSets (.committed id commitTs :: log) next) (publishes : Publishes s next id commitTs t) :
    Slots clean (.committed id commitTs :: log) next := by
  obtain ⟨u, -, -, -, clock, -⟩ := control.finalizing publishes.here (by simp)
  constructor
  · exact kept
  · intro other ts member
    rw [publishes.clock]
    rcases List.mem_cons.mp member with same | before
    · cases same
      exact le_refl _
    · have earlier := slots.commits other ts before
      omega
  · intro e
    cases write : lastWrite id e log with
    | none =>
      rw [history_committed_other write]
      exact slots.ordered e
    | some value =>
      rw [history_committed write]
      refine List.pairwise_cons.mpr ⟨?_, slots.ordered e⟩
      intro v member
      have earlier := slots.history_le member
      simp only
      omega
  · intro other u e found member present
    have apart : other ≠ id := by
      rintro rfl
      simp [publishes.pending_self] at member
    have before := publishes.present.mp present
    rw [publishes.pending_other apart] at member
    have foreign : e ∉ s.pending id := fun mine => apart (slots.holder_unique control before mine member)
    refine (slots.unmoved_published publishes before foreign).held slots control keeps found ?_
    rwa [publishes.pending_other apart]
  · intro e present free
    have before := publishes.present.mp present
    by_cases mine : e ∈ s.pending id
    · exact slots.settled_published control keeps publishes before mine
    · exact (slots.unmoved_published publishes before mine).settled slots control keeps free
  · intro rid unfilled scope
    rw [publishes.links]
    refine (slots.unfilled rid ?_ ?_).keeps keeps
    · simpa only [publishes.present] using unfilled
    · simpa only [owns_congr publishes.tables] using scope

end Database

end BumbleBee.Mvcc
