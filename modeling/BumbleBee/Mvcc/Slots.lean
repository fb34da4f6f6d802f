import BumbleBee.Mvcc.Chains
import BumbleBee.Mvcc.WriteSets

/-!
What is stored at every slot. While a transaction holds a slot its last write is in
the tuple, stamped with its id or, during its commit, with its commit timestamp,
and the row's committed history hangs below its undo log. A slot nobody holds is
the row's committed history itself.
-/

namespace BumbleBee.Mvcc
open Library.Versions Concurrency Function

/-- Write-set entries not yet published or rolled back in this phase. -/
def Phase.entries (writeSet : List Entry) : Phase → List Entry
  | .rollingBack rest => rest
  | .leaving _ _ => []
  | _ => writeSet

/-- The stamp a write carries in this phase: the writer's id until the commit stamps the row. -/
def Phase.stampTs (id : Int) (e : Entry) : Phase → Int
  | .stamping commitTs rest => if e ∈ rest then id else commitTs
  | _ => id

namespace Database

def pending (s : Database) (id : Int) : List Entry :=
  match s.phase id, s.txnMap id with
  | some phase, some t => phase.entries t.writeSet
  | _, _ => []

def stampTs (s : Database) (id : Int) (e : Entry) : Int :=
  match s.phase id with
  | some phase => phase.stampTs id e
  | none => id

/-- The logged pre-image of a held slot is the newest committed version of its row. -/
def Logged (clean : Bool) (log : List Event) (s : Database) (id : Int) (t : Transaction) (e : Entry) : Prop :=
  ∃ idx undo older ground, s.versionInfo e.rid = some ⟨id, idx⟩ ∧ t.undoLogs[idx]? = some undo ∧
    IsGround ground ∧ UndoLog.version undo :: older = history e log ++ ground ∧
    Chain clean s undo.ts (some undo.prevVersion) older

structure Held (clean : Bool) (log : List Event) (s : Database) (id : Int) (t : Transaction) (e : Entry) :
    Prop where
  seen : ∀ v ∈ history e log, v.ts ≤ t.readTs
  base : ∃ tuple, s.store.getRow e.rid = some tuple ∧ tuple.1.ts = s.stampTs id e ∧
    lastWrite id e log = some (tupleVersion tuple).value
  below : (history e log = [] ∧ s.Bottom clean (s.versionInfo e.rid)) ∨ Logged clean log s id t e

def Settled (clean : Bool) (log : List Event) (s : Database) (e : Entry) : Prop :=
  ∃ tuple older ground, s.store.getRow e.rid = some tuple ∧ IsGround ground ∧
    tupleVersion tuple :: older = history e log ++ ground ∧
    Chain clean s tuple.1.ts (s.versionInfo e.rid) older

structure Slots (clean : Bool) (log : List Event) (s : Database) : Prop extends WriteSets log s where
  commits : ∀ id commitTs, Event.committed id commitTs ∈ log → commitTs ≤ s.lastCommitTs
  ordered : ∀ e, (history e log).Pairwise fun newer older => older.ts < newer.ts
  held : ∀ id t e, s.txnMap id = some t → e ∈ s.pending id → s.Present e → Held clean log s id t e
  settled : ∀ e, s.Present e → (∀ id, e ∉ s.pending id) → Settled clean log s e
  unfilled : ∀ rid, (∀ oid, ¬s.Present ⟨oid, rid⟩) → (clean = false ∨ ∃ oid, s.Owns oid rid.pageId) →
    s.Bottom clean (s.versionInfo rid)

variable {s next : Database} {id : Int} {clean : Bool} {log log' : List Event} {e : Entry}

/-- A slot, its head link and its row's history, all as they were. -/
structure SameAt (log log' : List Event) (s next : Database) (e : Entry) : Prop where
  row : next.store.getRow e.rid = s.store.getRow e.rid
  link : next.versionInfo e.rid = s.versionInfo e.rid
  past : history e log' = history e log

theorem undoLog_extended {logs logs' : List UndoLog} {idx : Nat} {undo : UndoLog} (kept : logs <+: logs')
    (found : logs[idx]? = some undo) : logs'[idx]? = some undo := by
  obtain ⟨more, rfl⟩ := kept
  rw [List.getElem?_append_left (List.getElem?_eq_some_iff.mp found).1]
  exact found

variable {t : Transaction}

theorem Held.below_frame {t' : Transaction} (held : Held clean log s id t e) (control : Control s)
    (keeps : Keeps s next) (link : next.versionInfo e.rid = s.versionInfo e.rid)
    (past : history e log' = history e log) (logs : t.undoLogs <+: t'.undoLogs) :
    (history e log' = [] ∧ next.Bottom clean (next.versionInfo e.rid)) ∨
      Logged clean log' next id t' e := by
  rcases held.below with ⟨fresh, ends⟩ | ⟨idx, undo, older, ground, head, found, flat, versions, chain⟩
  · exact .inl ⟨past.trans fresh, by rw [link]; exact ends.keeps keeps⟩
  · exact .inr ⟨idx, undo, older, ground, link.trans head, undoLog_extended logs found, flat,
      by rw [past]; exact versions, chain.keeps control.known keeps⟩

theorem Held.frame {t' : Transaction} (held : Held clean log s id t e) (control : Control s)
    (keeps : Keeps s next) (same : SameAt log log' s next e) (snapshot : t'.readTs = t.readTs)
    (logs : t.undoLogs <+: t'.undoLogs) (stamp : next.stampTs id e = s.stampTs id e)
    (write : lastWrite id e log' = lastWrite id e log) : Held clean log' next id t' e where
  seen := by rw [same.past, snapshot]; exact held.seen
  base := by rw [same.row, stamp, write]; exact held.base
  below := held.below_frame control keeps same.link same.past logs

theorem Settled.frame (settled : Settled clean log s e) (control : Control s) (keeps : Keeps s next)
    (same : SameAt log log' s next e) : Settled clean log' next e := by
  obtain ⟨tuple, older, ground, base, flat, versions, chain⟩ := settled
  refine ⟨tuple, older, ground, same.row.trans base, flat, by rw [same.past]; exact versions, ?_⟩
  rw [same.link]
  exact chain.keeps control.known keeps

/-- An entry a step does not concern: its slot, its history and its holders stay. -/
structure Unmoved (log log' : List Event) (s next : Database) (e : Entry) : Prop where
  present : s.Present e
  same : SameAt log log' s next e
  write : ∀ id, lastWrite id e log' = lastWrite id e log
  holder : ∀ id, e ∈ next.pending id ↔ e ∈ s.pending id
  stamp : ∀ id, e ∈ s.pending id → next.stampTs id e = s.stampTs id e

theorem pending_eq {phase : Phase} (here : s.phase id = some phase)
    (found : s.txnMap id = some t) : s.pending id = phase.entries t.writeSet := by
  simp [pending, here, found]

theorem stampTs_eq {phase : Phase} (here : s.phase id = some phase) : s.stampTs id e = phase.stampTs id e := by
  simp [stampTs, here]

theorem pending_unborn (unborn : s.phase id = none) : s.pending id = [] := by
  simp [pending, unborn]

theorem Ready.pending (ready : s.Ready id t) : s.pending id = t.writeSet :=
  pending_eq ready.idle ready.found

/-- A transaction with pending entries is live. -/
theorem Control.live_of_pending (control : Control s) (member : e ∈ s.pending id) :
    ∃ t, s.txnMap id = some t ∧ t.Live ∧ e ∈ t.writeSet := by
  cases here : s.phase id with
  | none => simp [pending_unborn here] at member
  | some phase =>
    cases phase with
    | leaving readTs commitTs =>
      unfold Database.pending at member
      rw [here] at member
      cases found : s.txnMap id <;> simp [found, Phase.entries] at member
    | rollingBack rest =>
      obtain ⟨t, found, -, live, inside, -⟩ := control.finalizing here (by simp)
      rw [pending_eq here found] at member
      exact ⟨t, found, live, inside member⟩
    | idle =>
      obtain ⟨t, found, -, live⟩ := control.finalizing here (by simp)
      rw [pending_eq here found] at member
      exact ⟨t, found, live, member⟩
    | verifying locked rest walk =>
      obtain ⟨t, found, -, -, running⟩ := control.finalizing here (by simp)
      rw [pending_eq here found] at member
      exact ⟨t, found, .inl running, member⟩
    | stamping commitTs rest =>
      obtain ⟨t, found, -, -, -, -, running, -⟩ := control.finalizing here (by simp)
      rw [pending_eq here found] at member
      exact ⟨t, found, .inl running, member⟩

theorem Unmoved.held (unmoved : Unmoved log log' s next e) (slots : Slots clean log s)
    (control : Control s) (keeps : Keeps s next) (found : next.txnMap id = some t)
    (member : e ∈ next.pending id) : Held clean log' next id t e := by
  have before := (unmoved.holder id).mp member
  obtain ⟨u, here, live, -⟩ := control.live_of_pending before
  obtain ⟨u', there, snapshot, logs⟩ := keeps.live id u here live
  rw [found] at there
  cases there
  exact (slots.held id u e here before unmoved.present).frame control keeps unmoved.same snapshot logs
    (unmoved.stamp id before) (unmoved.write id)

theorem Unmoved.settled (unmoved : Unmoved log log' s next e) (slots : Slots clean log s) (control : Control s)
    (keeps : Keeps s next) (free : ∀ id, e ∉ next.pending id) : Settled clean log' next e :=
  (slots.settled e unmoved.present fun id member => free id ((unmoved.holder id).mpr member)).frame
    control keeps unmoved.same

/-- Events that neither write a row nor commit a transaction. -/
structure Plain (log log' : List Event) : Prop where
  past : ∀ e, history e log' = history e log
  write : ∀ id e, lastWrite id e log' = lastWrite id e log
  committed : ∀ id commitTs, Event.committed id commitTs ∈ log' → Event.committed id commitTs ∈ log

theorem Plain.refl (log : List Event) : Plain log log := ⟨fun _ => rfl, fun _ _ => rfl, fun _ _ h => h⟩

theorem Plain.began (log : List Event) (id readTs : Int) (isolationLevel : IsolationLevel) :
    Plain log (.began id readTs isolationLevel :: log) :=
  ⟨fun _ => rfl, fun _ _ => rfl, fun _ _ member => by simpa using member⟩

theorem Plain.scanned (log : List Event) (id : Int) (oid : Nat) (p : ScanPredicate) :
    Plain log (.scanned id oid p :: log) :=
  ⟨fun _ => rfl, fun _ _ => rfl, fun _ _ member => by simpa using member⟩

/-- A step that touches no table, page or link, and moves entries between no holders. -/
structure Quiet (s next : Database) : Prop where
  store : next.store = s.store
  links : next.versionInfo = s.versionInfo
  tables : next.tables = s.tables
  lastCommitTs : next.lastCommitTs = s.lastCommitTs
  holder : ∀ id e, s.Present e → (e ∈ next.pending id ↔ e ∈ s.pending id)
  stamp : ∀ id e, s.Present e → e ∈ s.pending id → next.stampTs id e = s.stampTs id e

theorem Quiet.present (quiet : Quiet s next) : next.Present e ↔ s.Present e := by
  simp [Present, Owns, quiet.tables, quiet.store]

theorem Slots.quiet (slots : Slots clean log s) (control : Control s) (keeps : Keeps s next)
    (sets : WriteSets log' next) (plain : Plain log log') (quiet : Quiet s next) : Slots clean log' next := by
  have unmoved : ∀ e, next.Present e → Unmoved log log' s next e := by
    intro e present
    have before := quiet.present.mp present
    exact ⟨before, ⟨by rw [quiet.store], by rw [quiet.links], plain.past e⟩, fun id => plain.write id e,
      fun id => quiet.holder id e before, fun id => quiet.stamp id e before⟩
  constructor
  · exact sets
  · intro id commitTs member
    rw [quiet.lastCommitTs]
    exact slots.commits id commitTs (plain.committed id commitTs member)
  · intro e
    rw [plain.past]
    exact slots.ordered e
  · intro id t e found member present
    exact (unmoved e present).held slots control keeps found member
  · intro e present free
    exact (unmoved e present).settled slots control keeps free
  · intro rid unfilled scope
    rw [quiet.links]
    refine (slots.unfilled rid ?_ ?_).keeps keeps
    · simpa [quiet.present] using unfilled
    · simpa [owns_congr quiet.tables] using scope

theorem pending_congr (phase : next.phase id = s.phase id) (txn : next.txnMap id = s.txnMap id) :
    next.pending id = s.pending id := by
  simp [pending, phase, txn]

theorem stampTs_congr (phase : next.phase id = s.phase id) : next.stampTs id e = s.stampTs id e := by
  simp [stampTs, phase]

theorem quiet_setTxn {changed : Transaction} (ready : s.Ready id t)
    (sets : changed.writeSet = t.writeSet) : Quiet s (s.setTxn id changed) := by
  refine ⟨rfl, rfl, rfl, rfl, ?_, fun _ _ _ _ => rfl⟩
  · intro other e _
    by_cases same : other = id
    · subst same
      have after : (s.setTxn other changed).pending other = changed.writeSet :=
        pending_eq (s := s.setTxn other changed) ready.idle (update_self _ _ _)
      rw [after, ready.pending, sets]
    · have after : (s.setTxn id changed).pending other = s.pending other :=
        pending_congr rfl (update_of_ne same _ _)
      rw [after]

variable {mutex : Option Int} {after : Phase}

theorem quiet_setPhase {before : Phase} (here : s.phase id = some before) (found : s.txnMap id = some t)
    (holder : ∀ e, s.Present e → (e ∈ after.entries t.writeSet ↔ e ∈ before.entries t.writeSet))
    (stamp : ∀ e, s.Present e → e ∈ before.entries t.writeSet → after.stampTs id e = before.stampTs id e) :
    Quiet s ({ s with commitMutex := mutex }.setPhase id (some after)) := by
  have changed : ({ s with commitMutex := mutex }.setPhase id (some after)).phase id = some after :=
    update_self _ _ _
  have others : ∀ other, other ≠ id →
      ({ s with commitMutex := mutex }.setPhase id (some after)).phase other = s.phase other :=
    fun other apart => update_of_ne apart _ _
  refine ⟨rfl, rfl, rfl, rfl, ?_, ?_⟩
  · intro other e present
    by_cases same : other = id
    · subst same
      rw [pending_eq changed found, pending_eq here found]
      exact holder e present
    · rw [← pending_congr (others other same) rfl]
  · intro other e present member
    by_cases same : other = id
    · subst same
      rw [pending_eq here found] at member
      rw [stampTs_eq changed, stampTs_eq here]
      exact stamp e present member
    · exact stampTs_congr (others other same)

theorem quiet_ready (ready : s.Ready id t) (entries : after.entries t.writeSet = t.writeSet)
    (stamp : ∀ e ∈ t.writeSet, after.stampTs id e = id) :
    Quiet s ({ s with commitMutex := mutex }.setPhase id (some after)) := by
  refine quiet_setPhase ready.idle ready.found ?_ fun e _ member => stamp e member
  intro e _
  rw [entries]
  exact Iff.rfl

variable {rest : List Entry} {locked : Bool}

theorem quiet_verifying {walk : WalkAt} (here : s.phase id = some (.verifying locked rest walk))
    (found : s.txnMap id = some t) (entries : after.entries t.writeSet = t.writeSet)
    (stamp : ∀ e ∈ t.writeSet, after.stampTs id e = id) :
    Quiet s ({ s with commitMutex := mutex }.setPhase id (some after)) := by
  refine quiet_setPhase here found ?_ fun e _ member => stamp e member
  intro e _
  rw [entries]
  exact Iff.rfl

theorem Control.quiet_verifyMoved (control : Control s) {after : List Entry}
    {walk walk' : WalkAt} (here : s.phase id = some (.verifying locked rest walk)) :
    Quiet s (s.setPhase id (some (.verifying locked after walk'))) := by
  obtain ⟨t, found, -⟩ := control.finalizing here (by simp)
  exact quiet_verifying here found rfl fun _ _ => rfl

theorem mem_erase_of_present {e' : Entry} (dropped : s.tables e.oid = none)
    (present : s.Present e') : e' ∈ rest.erase e ↔ e' ∈ rest := by
  have apart : e' ≠ e := by
    rintro rfl
    obtain ⟨⟨heap, table, -⟩, -⟩ := present
    rw [dropped] at table
    cases table
  exact List.mem_erase_of_ne apart

theorem Control.quiet_stampSkipped (control : Control s) {commitTs : Int}
    (here : s.phase id = some (.stamping commitTs rest)) (dropped : s.tables e.oid = none) :
    Quiet s (s.setPhase id (some (.stamping commitTs (rest.erase e)))) := by
  obtain ⟨t, found, -⟩ := control.finalizing here (by simp)
  refine quiet_setPhase here found (fun _ _ => Iff.rfl) ?_
  intro e' present _
  simp [Phase.stampTs, mem_erase_of_present dropped present]

theorem Control.quiet_rollbackSkipped (control : Control s) (here : s.phase id = some (.rollingBack rest))
    (dropped : s.tables e.oid = none) : Quiet s (s.setPhase id (some (.rollingBack (rest.erase e)))) := by
  obtain ⟨t, found, -⟩ := control.finalizing here (by simp)
  exact quiet_setPhase here found (fun e' present => mem_erase_of_present dropped present)
    fun _ _ _ => rfl

theorem quiet_of_pending (store : next.store = s.store) (links : next.versionInfo = s.versionInfo)
    (tables : next.tables = s.tables) (lastCommitTs : next.lastCommitTs = s.lastCommitTs)
    (same : ∀ id, next.pending id = s.pending id)
    (stamp : ∀ id, s.pending id ≠ [] → next.phase id = s.phase id) : Quiet s next := by
  refine ⟨store, links, tables, lastCommitTs, fun id e _ => by rw [same], ?_⟩
  intro id e _ member
  exact stampTs_congr (stamp id (List.ne_nil_of_mem member))

theorem Control.quiet_begun (control : Control s) (isolationLevel : IsolationLevel)
    (runningTxns : Watermark) : Quiet s (s.begun isolationLevel runningTxns) := by
  have unborn := control.unborn s.nextTxnId (le_refl _)
  refine quiet_of_pending rfl rfl rfl rfl ?_ ?_
  · intro id
    by_cases same : id = s.nextTxnId
    · subst same
      rw [pending_unborn unborn]
      exact pending_eq (s := s.begun isolationLevel runningTxns) (update_self _ _ _)
        (update_self _ _ _)
    · exact pending_congr (update_of_ne same _ _) (update_of_ne same _ _)
  · intro id holds
    have apart : id ≠ s.nextTxnId := by
      rintro rfl
      exact holds (pending_unborn unborn)
    exact update_of_ne apart _ _

theorem pending_leaving {readTs : Int} {commitTs : Option Int}
    (here : s.phase id = some (.leaving readTs commitTs)) : s.pending id = [] := by
  unfold pending
  rw [here]
  cases s.txnMap id <;> rfl

theorem quiet_left {readTs : Int} {commitTs : Option Int} {runningTxns : Watermark}
    (here : s.phase id = some (.leaving readTs commitTs)) :
    Quiet s ({ s with runningTxns := runningTxns, commitMutex := mutex }.setPhase id none) := by
  refine quiet_of_pending rfl rfl rfl rfl ?_ ?_
  · intro other
    by_cases same : other = id
    · subst same
      rw [pending_leaving here]
      exact pending_unborn (update_self _ _ _)
    · exact pending_congr (update_of_ne same _ _) rfl
  · intro other holds
    have apart : other ≠ id := by
      rintro rfl
      exact holds (pending_leaving here)
    exact update_of_ne apart _ _

theorem Control.quiet_collected (control : Control s) {watermark : Int} {gcWatermarks : List Int} :
    Quiet s { s with txnMap := sweep watermark s.txnMap, gcWatermarks := gcWatermarks } := by
  refine quiet_of_pending rfl rfl rfl rfl ?_ fun _ _ => rfl
  · intro id
    cases here : s.phase id with
    | none => rw [pending_unborn here]; exact pending_unborn here
    | some phase =>
      by_cases holds : s.pending id = []
      · cases found : s.txnMap id with
        | none =>
          exact pending_congr rfl (by simp [sweep, found])
        | some t =>
          by_cases kept : collectible watermark t = false
          · exact pending_congr rfl (by rw [found]; exact sweep_kept found kept)
          · rw [holds]
            simp [pending, sweep, found, kept]
      · obtain ⟨e, member⟩ := List.exists_mem_of_ne_nil _ holds
        obtain ⟨t, found, live, -⟩ := control.live_of_pending member
        refine pending_congr rfl ?_
        rw [found]
        exact sweep_kept found (not_collectible_of_live live)

theorem quiet_markAborted (here : s.phase id = some (.rollingBack [])) (found : s.txnMap id = some t) :
    Quiet s ((s.setTxn id { t with state := .aborted }).setPhase id (some (.leaving t.readTs none))) := by
  have empty : s.pending id = [] := pending_eq here found
  refine quiet_of_pending rfl rfl rfl rfl ?_ ?_
  · intro other
    by_cases same : other = id
    · subst same
      rw [empty]
      exact pending_leaving (update_self _ _ _)
    · exact pending_congr (update_of_ne same _ _) (update_of_ne same _ _)
  · intro other holds
    have apart : other ≠ id := by
      rintro rfl
      exact holds empty
    exact update_of_ne apart _ _

end Database

end BumbleBee.Mvcc
