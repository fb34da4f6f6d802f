import BumbleBee.Mvcc.Rollback

/-!
What a completed `Abort` leaves behind: every row as it was before the transaction
first wrote it, no undo link that names the transaction, and nothing else touched.
-/

namespace BumbleBee.Mvcc
open Library.Transition Library.Versions Storage Storage.SlottedPage Concurrency Function

namespace Database

variable {s next : Database} {id : Int} {log : List Event} {e : Entry} {t : Transaction} {a : Action}
  {events : List Event}

/-- The calls `Abort` makes, the write set visited in the given order. -/
def abortActions (id : Int) (order : List Entry) : List Action :=
  .startAbort id :: (order.map (.rollback id) ++ [.markAborted id, .leave id])

/-- Logged links lead to committed or swept transactions only. -/
def LogsSettled (s : Database) : Prop :=
  ∀ id t, s.txnMap id = some t → ∀ undo ∈ t.undoLogs, s.Bottom false (some undo.prevVersion)

theorem LogsSettled.step (logs : s.LogsSettled) (control : Control s) (slots : Slots false log s)
    (steps : Steps s a next events) : next.LogsSettled := by
  have keeps := control.keeps steps
  intro other u here undo member
  rcases control.logs steps here member with ⟨before, found, inside⟩ | captured
  · exact (logs other before found undo inside).keeps keeps
  · obtain ⟨t, e, heap, tupleMeta, row, ready, table, listed, base, inSnapshot, rfl⟩ := captured
    have present : s.Present e := ⟨⟨heap, table, listed⟩, _, base⟩
    have published := le_trans inSnapshot (control.txns other t ready.found).snapshot.2
    have free := slots.free_of_le control present base published
    obtain ⟨tuple, older, ground, -, -, -, chain⟩ := slots.settled e present free
    exact (chain.getD.bottom_false control).keeps keeps

theorem Slots.head_owner (slots : Slots false log s) (control : Control s) {rid : RID} {link : UndoLink}
    {owner : Transaction} (head : s.versionInfo rid = some link) (valid : link.isValid = true)
    (found : s.txnMap link.prevTxn = some owner) : owner.Live ∨ owner.state = .committed := by
  have settled : s.Bottom false (s.versionInfo rid) → owner.Live ∨ owner.state = .committed :=
    fun ends => .inr ((ends link head valid).2 owner found).2
  by_cases filled : ∃ oid, s.Present ⟨oid, rid⟩
  · obtain ⟨oid, present⟩ := filled
    by_cases free : ∀ other, (⟨oid, rid⟩ : Entry) ∉ s.pending other
    · obtain ⟨tuple, older, ground, -, -, -, chain⟩ := slots.settled ⟨oid, rid⟩ present free
      exact settled (chain.bottom_false control)
    · obtain ⟨other, member⟩ := not_forall_not.mp free
      obtain ⟨u, here, live, -⟩ := control.live_of_pending member
      rcases (slots.held other u _ here member present).below with ⟨-, ends⟩ | ⟨idx, undo, _, _, own, -⟩
      · exact settled ends
      · rw [head, Option.some.injEq] at own
        rw [own, here] at found
        cases found
        exact .inl live
  · exact settled (slots.unfilled rid (fun oid present => filled ⟨oid, present⟩) (.inl rfl))

theorem idle_before (steps : Steps s a next events) (restores : s.RollbackSucceeds a)
    (known : id < s.nextTxnId) (idle : next.phase id = some .idle) : s.phase id = some .idle := by
  have busied : ∀ {other : Int} {phase : Option Phase}, phase ≠ some .idle →
      update s.phase other phase id = some .idle → s.phase id = some .idle := by
    intro other phase busy here
    exact (of_update here).elim (fun new => absurd new.2 busy) And.right
  cases steps with
  | began added =>
    have apart : id ≠ s.nextTxnId := ne_of_lt known
    simp only [Database.begun, update_of_ne apart] at idle
    exact idle
  | commitStarted | lockedToVerify | lockedToStamp | verifySkipped | verifyRejected | verifyPassed | verifyWalking
  | linkEnded | linkRejected | linkPassed | linkFollowed | verified | stampSkipped | stamped | published
  | abortStarted | rollbackSkipped | restored | tombstoned | markedAborted | leftCommitted | leftAborted =>
    exact busied (by simp) idle
  | rollbackFailed phase found table refused => exact absurd refused (restores _ _ _ _ rfl found table)
  | _ => exact idle

/-- While a transaction holds a row nobody else's commit adds to the row's history. -/
theorem Slots.history_step (slots : Slots false log s) (control : Control s) (rooted : s.Rooted)
    (steps : Steps s a next events) (idle : s.phase id = some .idle) (member : e ∈ s.pending id) :
    history e (events ++ log) = history e log := by
  cases steps with
  | @published writer commitTs u phase found =>
    cases write : lastWrite writer e log with
    | none => exact history_committed_other write
    | some value =>
      have theirs : e ∈ s.pending writer := by
        rw [pending_eq phase found]
        exact (slots.writes writer u found e).mpr ⟨value, write⟩
      have same := slots.holder_unique control (slots.present_of_rooted control rooted member) member theirs
      rw [same, idle] at phase
      cases phase
  | _ => rfl

end Database

/-- `before` is the state in which the transaction first wrote the entry, on the way to `s`. -/
structure FirstWrite (id : Int) (e : Entry) (past : List Event) (before : Database) (log : List Event)
    (s : Database) : Prop where
  run : Run system Database.Orderly past before
  unwritten : ¬Wrote past id e
  written : ∃ a after events more, before.Orderly a ∧ before.step a = some (after, events) ∧
    Wrote (events ++ past) id e ∧ Stretch system Database.Orderly after more s ∧
    log = more ++ (events ++ past)

variable {before : Database} {s : Database} {past : List Event} {log : List Event} {id : Int}

open Database in
/-- The history of a row does not move between a transaction's first write of it and its abort. -/
theorem FirstWrite.history_eq {e : Entry} (first : FirstWrite id e past before log s)
    (idle : s.phase id = some .idle) : history e log = history e past := by
  obtain ⟨a, after, events, more, orderly, taken, wrote, path, rfl⟩ := first.written
  have reached : Run system Orderly (events ++ past) after := first.run.next orderly taken
  have start : history e (events ++ past) = history e past := by
    have steps := steps_of_step taken
    cases steps with
    | published => exact absurd wrote first.unwritten
    | _ => rfl
  have kept := Stretch.invariant (J := fun log s => Wrote log id e ∧
    (s.phase id = some .idle → history e log = history e past)) reached
    ⟨wrote, fun _ => start⟩ (fun {log s next a events} run held orderly taken => ?_) path
  · exact kept.2 idle
  · have slots := slots_run (run.mono fun _ _ orderly => orderly.admits)
    have control := control_run run
    have steps := steps_of_step taken
    refine ⟨wrote_append events held.1, fun idle' => ?_⟩
    have was := idle_before steps orderly.1 (slots.writers id e held.1) idle'
    obtain ⟨t, found, -⟩ := control.finalizing was (by simp)
    have member : e ∈ s.pending id := by
      rw [pending_eq was found]
      exact (slots.writes id t found e).mpr held.1
    rw [slots.history_step control (separated_run run).1 steps was member]
    exact held.2 was

theorem logsSettled_run (run : Run system Database.Orderly log s) : s.LogsSettled := by
  refine Run.invariant (I := fun _ s => s.LogsSettled) ?_ ?_ run
  · intro s initial id t found
    rw [Database.Initial.txnMap initial] at found
    cases found
  · intro log s next a events before logs _ taken
    exact logs.step (control_run before) (slots_run (before.mono fun _ _ orderly => orderly.admits))
      (Database.steps_of_step taken)

theorem tuple_of_version {tuple old : TupleMeta × RowBytes} (same : tupleVersion tuple = tupleVersion old) :
    tuple.1 = old.1 ∧ (tuple.1.isDeleted = false → tuple.2 = old.2) := by
  obtain ⟨⟨ts, deleted⟩, row⟩ := tuple
  obtain ⟨⟨ts', deleted'⟩, row'⟩ := old
  simp only [tupleVersion, Version.mk.injEq] at same
  cases deleted <;> cases deleted' <;> simp_all

open Database in
theorem FirstWrite.base {e : Entry} (first : FirstWrite id e past before log s) :
    (before.Present e ∧ Settled false past before e) ∨ (¬before.Present e ∧ history e past = []) := by
  obtain ⟨a, after, events, more, orderly, taken, wrote, -, -⟩ := first.written
  have control := control_run first.run
  have heaps := heaps_run first.run
  have slots := slots_run (first.run.mono fun _ _ orderly => orderly.admits)
  have steps := steps_of_step taken
  cases steps with
  | @inserted writer oid row t heap grown linked after ready table grew placed =>
    rcases ((recordsWrite_inserted _ _ _).wrote ..).mp wrote with ⟨-, rfl⟩ | earlier
    · have absent : ¬before.Present ⟨oid, grown.lastPageId, (linked.rows grown.lastPageId).length⟩ := by
        intro present
        obtain ⟨owned, tuple, found⟩ := present
        cases grew with
        | kept =>
          rw [TableHeap.Placed.getRow_absent] at found
          cases found
        | linked linked =>
          obtain ⟨-, unallocated, -⟩ := heaps.sound.newPage
          exact unallocated (heaps.allocated _ _ owned)
      exact .inr ⟨absent, history_nil_of_unwritten (slots.unwritten table absent)⟩
    · exact absurd earlier first.unwritten
  | @rewrote writer target value t heap tupleMeta row after ready table listed base own stored =>
    rcases ((recordsWrite_modified _ _ _).wrote ..).mp wrote with ⟨rfl, rfl⟩ | earlier
    · have present : before.Present target := ⟨⟨heap, table, listed⟩, _, base⟩
      have held := slots.holds_own control present base (control.txns writer t ready.found).old own
      rw [ready.pending] at held
      exact absurd ((slots.writes writer t ready.found target).mp held) first.unwritten
    · exact absurd earlier first.unwritten
  | @versioned writer target value t heap tupleMeta row after ready table listed base foreign inSnapshot stored =>
    rcases ((recordsWrite_modified _ _ _).wrote ..).mp wrote with ⟨-, rfl⟩ | earlier
    · have present : before.Present target := ⟨⟨heap, table, listed⟩, _, base⟩
      have published := le_trans inSnapshot (control.txns writer t ready.found).snapshot.2
      exact .inl ⟨present, slots.settled target present (slots.free_of_le control present base published)⟩
    · exact absurd earlier first.unwritten
  | _ => exact absurd wrote first.unwritten

/-- The rows, links and records after `Abort`, against those before the transaction's writes. -/
structure AbortedExactly (log : List Event) (s : Database) (id : Int) (t : Transaction) (next : Database) :
    Prop where
  aborted : next.txnMap id = some { t with state := .aborted }
  restored : ∀ e ∈ t.writeSet, ∀ past before, FirstWrite id e past before log s → before.Present e →
    ∃ tuple old, next.store.getRow e.rid = some tuple ∧ before.store.getRow e.rid = some old ∧
      tuple.1 = old.1 ∧ (tuple.1.isDeleted = false → tuple.2 = old.2)
  tombstoned : ∀ e ∈ t.writeSet, ∀ past before, FirstWrite id e past before log s → ¬before.Present e →
    ∃ row, next.store.getRow e.rid = some (⟨0, true⟩, row)
  heads : ∀ rid, ∀ link ∈ next.versionInfo rid, link.isValid = true → link.prevTxn ≠ id
  logs : ∀ other u, next.txnMap other = some u → ∀ undo ∈ u.undoLogs,
    undo.prevVersion.isValid = true → undo.prevVersion.prevTxn ≠ id
  others : ∀ rid, (∀ e ∈ t.writeSet, e.rid ≠ rid) →
    next.store.getRow rid = s.store.getRow rid ∧ next.versionInfo rid = s.versionInfo rid

/-- The state once `Abort` has returned, against the state its loop ended in. -/
structure Departed (s next : Database) (id : Int) (t : Transaction) : Prop where
  txnMap : next.txnMap = update s.txnMap id (some { t with state := .aborted })
  phase : next.phase = update s.phase id none
  store : next.store = s.store
  versionInfo : next.versionInfo = s.versionInfo
  tables : next.tables = s.tables

open Database in
/-- After its loop nothing stops `Abort` any more. -/
theorem abort_departs {t : Transaction} (run : Run system Orderly log s)
    (here : s.phase id = some (.rollingBack [])) (found : s.txnMap id = some t) :
    ∃ next, exec system s log [.markAborted id, .leave id] = some (next, log) ∧
      Run system Orderly log next ∧ Departed s next id t := by
  have marked : system.step s (.markAborted id) = some ((s.setTxn id { t with state := .aborted }).setPhase id
      (some (.leaving t.readTs none)), []) := by
    simp only [system, step, markAborted, here, found]
  have run' := run.next (orderly_plain (by simp) (by simp)) marked
  have leaving : ((s.setTxn id { t with state := .aborted }).setPhase id
      (some (.leaving t.readTs none))).phase id = some (.leaving t.readTs none) := update_self _ _ _
  have registered : ((s.setTxn id { t with state := .aborted }).setPhase id
      (some (.leaving t.readTs none))).registeredTs id = some t.readTs := by
    simp only [registeredTs, leaving]
  obtain ⟨runningTxns, removed, -⟩ := Watermark.removeTxn_eq ((control_run run').registry.counted registered)
  have left : system.step ((s.setTxn id { t with state := .aborted }).setPhase id
      (some (.leaving t.readTs none))) (.leave id) =
      some ({ (s.setTxn id { t with state := .aborted }).setPhase id (some (.leaving t.readTs none)) with
        runningTxns := runningTxns }.setPhase id none, []) := by
    simp only [system, step, leave, leaving, removed]
  refine ⟨_, ?_, run'.next (orderly_plain (by simp) (by simp)) left,
    ⟨rfl, update_idem _ _ _, rfl, rfl, rfl⟩⟩
  simp only [exec, marked, left]
  rfl

/-- Start and end of an `Abort` that went through. -/
structure Undone (s next : Database) (id : Int) (t : Transaction) : Prop where
  txnMap : next.txnMap = update s.txnMap id (some { t with state := .aborted })
  phase : next.phase = update s.phase id none
  tables : next.tables = s.tables
  others : ∀ rid, (∀ e ∈ t.writeSet, e.rid ≠ rid) →
    next.store.getRow rid = s.store.getRow rid ∧ next.versionInfo rid = s.versionInfo rid

namespace Undone
open Database

variable {log : List Event} {s next : Database} {id : Int} {t : Transaction} {e : Entry}

section
variable (undone : Undone s next id t)
include undone

section
variable (run : Run system Orderly log s)
include run

theorem free (ready : s.Ready id t) (member : e ∈ t.writeSet) (other : Int) : e ∉ next.pending other := by
  intro held
  by_cases same : other = id
  · subst same
    rw [pending_unborn (by rw [undone.phase, update_self])] at held
    cases held
  · have before : next.pending other = s.pending other := by
      apply pending_congr
      · rw [undone.phase, update_of_ne same]
      · rw [undone.txnMap, update_of_ne same]
    rw [before] at held
    have mine : e ∈ s.pending id := ready.pending ▸ member
    have slots := slots_run (run.mono fun _ _ orderly => orderly.admits)
    have present := slots.present_of_rooted (control_run run) (separated_run run).1 mine
    exact same (slots.holder_unique (control_run run) present mine held)

section
variable (run' : Run system Orderly log next)
include run'

section
variable (ready : s.Ready id t)
include ready

section
variable (member : e ∈ t.writeSet)
include member

theorem settled : Settled false log next e := by
  have slots := slots_run (run.mono fun _ _ orderly => orderly.admits)
  have slots' := slots_run (run'.mono fun _ _ orderly => orderly.admits)
  have wrote := (slots.writes id t ready.found e).mp member
  obtain ⟨heap, table⟩ := (separated_run run).1 id t e ready.found ready.live member
  have present : next.Present e := (slots'.lasting id e wrote).2 heap (by rw [undone.tables]; exact table)
  exact slots'.settled e present (undone.free run ready member)

theorem restored (first : FirstWrite id e past before log s) (present : before.Present e) :
    ∃ tuple old, next.store.getRow e.rid = some tuple ∧ before.store.getRow e.rid = some old ∧
      tuple.1 = old.1 ∧ (tuple.1.isDeleted = false → tuple.2 = old.2) := by
  obtain ⟨tuple, older, ground, found, flat, versions, -⟩ := undone.settled run run' ready member
  rw [first.history_eq ready.idle] at versions
  rcases first.base with ⟨-, settled⟩ | ⟨absent, -⟩
  · obtain ⟨old, older', ground', found', flat', versions', -⟩ := settled
    exact ⟨tuple, old, found, found', tuple_of_version (newest_unique flat flat' versions versions')⟩
  · exact absurd present absent

theorem tombstoned (first : FirstWrite id e past before log s) (absent : ¬before.Present e) :
    ∃ row, next.store.getRow e.rid = some (⟨0, true⟩, row) := by
  obtain ⟨tuple, older, ground, found, flat, versions, -⟩ := undone.settled run run' ready member
  rw [first.history_eq ready.idle] at versions
  rcases first.base with ⟨present, -⟩ | ⟨-, fresh⟩
  · exact absurd present absent
  · rw [fresh] at versions
    have bottom : tupleVersion (⟨0, true⟩, tuple.2) :: [] = [] ++ [⟨0, none⟩] := rfl
    have same := (tuple_of_version (newest_unique flat (.inr rfl) versions bottom)).1
    exact ⟨tuple.2, found.trans (congrArg some (Prod.ext same rfl))⟩

end

theorem exactly : AbortedExactly log s id t next := by
  have record : next.txnMap id = some { t with state := .aborted } := by
    rw [undone.txnMap, update_self]
  have slots' := slots_run (run'.mono fun _ _ orderly => orderly.admits)
  refine ⟨record, fun e member past before => undone.restored run run' ready member,
    fun e member past before => undone.tombstoned run run' ready member, ?_, ?_, undone.others⟩
  · intro rid link head valid same
    rcases slots'.head_owner (control_run run') head valid (same ▸ record) with live | committed
    · rcases live with running | tainted
      · cases running
      · cases tainted
    · cases committed
  · intro other u found undo inside valid same
    cases ((logsSettled_run run' other u found undo inside _ rfl valid).2 _ (same ▸ record)).2

end

end

end

end

end Undone

open Database in
/-- `Abort` of a live transaction goes through, and exactly, just when every page it restores rows in
keeps within its size on the way. -/
theorem abort_exact_iff_fits {log : List Event} {s : Database}
    (run : Run program (Defined overruns Orderly) log s) {t : Transaction} (ready : s.Ready id t)
    {order : List Entry} (perm : order.Perm t.writeSet) :
    (∃ next, exec system s log (abortActions id order) = some (next, log) ∧ AbortedExactly log s id t next) ↔
      Fits (s.growth id t) s.level order := by
  have run := inFrame_run run
  have started : system.step s (.startAbort id) =
      some (s.setPhase id (some (.rollingBack t.writeSet)), []) := by
    simp only [system, step, startAbort, statementTxn, ready.idle, ready.found, ready.live, if_true]
  have run' : Run system Orderly log (s.setPhase id (some (.rollingBack t.writeSet))) :=
    run.next (orderly_plain (by simp) (by simp)) started
  have here : (s.setPhase id (some (.rollingBack t.writeSet))).phase id = some (.rollingBack t.writeSet) :=
    update_self _ _ _
  have distinct : order.Nodup := perm.nodup_iff.mpr ((control_run run).txns id t ready.found).distinct
  have first : exec system s log (abortActions id order) =
      exec system (s.setPhase id (some (.rollingBack t.writeSet))) log
        (order.map (.rollback id) ++ .markAborted id :: [.leave id]) := by
    simp only [abortActions, exec, started]
    rfl
  rw [first]
  rcases rollback_loop order run' here ready.found distinct perm [.leave id] with
    ⟨fits, mid, runMid, reverted, same⟩ | ⟨misfit, failed⟩
  · refine ⟨fun _ => fits, fun _ => ?_⟩
    have ended : mid.phase id = some (.rollingBack []) := by rw [reverted.phase, update_self]
    have found : mid.txnMap id = some t := by rw [reverted.txnMap]; exact ready.found
    obtain ⟨next, done, runNext, departed⟩ := abort_departs runMid ended found
    have undone : Undone s next id t := by
      constructor
      · rw [departed.txnMap, reverted.txnMap]
        rfl
      · rw [departed.phase, reverted.phase, update_idem]
        exact update_idem _ _ _
      · rw [departed.tables, reverted.tables]
        rfl
      · intro rid apart
        have outside : ∀ e ∈ order, e.rid ≠ rid := fun e member => apart e (perm.subset member)
        rw [departed.store, departed.versionInfo, reverted.rows rid outside, reverted.links rid outside]
        exact ⟨rfl, rfl⟩
    exact ⟨next, by rw [same]; exact done, undone.exactly run runNext ready⟩
  · rw [failed]
    constructor
    · intro aborted
      obtain ⟨next, done, -⟩ := aborted
      cases done
    · intro fits
      exact absurd fits misfit

/-- An update in place, taken back. -/
theorem abort_exact_update :
    ∃ log s t, Run program (Defined Database.overruns Database.Orderly) log s ∧ s.Ready (txnStartId + 1) t ∧
      ∃ next, exec system s log (Database.abortActions (txnStartId + 1) t.writeSet) = some (next, log) ∧
        AbortedExactly log s (txnStartId + 1) t next := by
  obtain ⟨s, log, run, shown⟩ := exec_shows (M := system)
    (Database.oneRow ++ [.begin .snapshotIsolation, .modify (txnStartId + 1) ⟨0, 0, 0⟩ (some (Database.zeroRow 3))])
    Database.opened_initial (orderly_of_plain (by simp [Database.oneRow]))
    (fun r => (r.1.phase (txnStartId + 1), r.1.level 0, (r.1.txnMap (txnStartId + 1)).map fun t =>
      (t.state, t.writeSet, r.1.growth (txnStartId + 1) t ⟨0, 0, 0⟩)))
    (some .idle, 35, some (.running, [⟨0, 0, 0⟩], 1)) rfl
  simp only [Prod.mk.injEq, Option.map_eq_some_iff] at shown
  obtain ⟨idle, level, t, found, running, writeSet, growth⟩ := shown
  have ready : s.Ready (txnStartId + 1) t := ⟨idle, found, .inl running⟩
  have fits : Database.Fits (s.growth (txnStartId + 1) t) s.level t.writeSet := by
    simp only [writeSet, Database.Fits, growth, level, and_true]
    decide
  have run := run_inFrame run
  exact ⟨log, s, t, run, ready, (abort_exact_iff_fits run ready (List.Perm.refl _)).mpr fits⟩

/-- An `Abort` that throws: the room its pre-image needs is taken, and the transaction stays RUNNING
with one of its rows given back and the other still stamped with its id. -/
theorem abort_throws :
    ∃ log s t, Run system Database.Orderly log s ∧ s.Ready (txnStartId + 1) t ∧ t.state = .running ∧
      t.writeSet = [⟨0, 0, 0⟩, ⟨0, 0, 1⟩] ∧
      exec system s log (Database.abortActions (txnStartId + 1) [⟨0, 0, 0⟩, ⟨0, 0, 1⟩]) = none ∧
      ∃ next log' u, exec system s log [.startAbort (txnStartId + 1), .rollback (txnStartId + 1) ⟨0, 0, 0⟩,
          .rollback (txnStartId + 1) ⟨0, 0, 1⟩] = some (next, log') ∧
        next.phase (txnStartId + 1) = some .idle ∧ next.txnMap (txnStartId + 1) = some u ∧
        u.state = .running ∧ (next.store.getRow ⟨0, 0⟩).map (·.1.ts) = some 1 ∧
        (next.store.getRow ⟨0, 1⟩).map (·.1.ts) = some (txnStartId + 1) := by
  obtain ⟨s, log, run, shown⟩ := exec_shows (M := system) filledUp
    Database.opened_initial (orderly_of_plain (by simp [filledUp, Database.twoRows]))
    (fun r => (r.1.phase (txnStartId + 1),
      (r.1.txnMap (txnStartId + 1)).map fun t => (t.state, t.writeSet),
      (exec system r.1 r.2 (Database.abortActions (txnStartId + 1) [⟨0, 0, 0⟩, ⟨0, 0, 1⟩])).isSome,
      (exec system r.1 r.2 [.startAbort (txnStartId + 1), .rollback (txnStartId + 1) ⟨0, 0, 0⟩,
        .rollback (txnStartId + 1) ⟨0, 0, 1⟩]).map fun q => (q.1.phase (txnStartId + 1),
          (q.1.txnMap (txnStartId + 1)).map Transaction.state,
          (q.1.store.getRow ⟨0, 0⟩).map (·.1.ts), (q.1.store.getRow ⟨0, 1⟩).map (·.1.ts))))
    (some .idle, some (.running, [⟨0, 0, 0⟩, ⟨0, 0, 1⟩]), false,
      some (some .idle, some .running, some 1, some (txnStartId + 1))) rfl
  rw [Prod.mk.injEq, Prod.mk.injEq, Prod.mk.injEq, Option.map_eq_some_iff, Option.map_eq_some_iff] at shown
  obtain ⟨idle, ⟨t, found, record⟩, thrown, ⟨next, log'⟩, stopped, after⟩ := shown
  rw [Prod.mk.injEq] at record
  rw [Prod.mk.injEq, Prod.mk.injEq, Prod.mk.injEq, Option.map_eq_some_iff] at after
  obtain ⟨idle', ⟨u, found', running'⟩, first, second⟩ := after
  exact ⟨log, s, t, run, ⟨idle, found, .inl record.1⟩, record.1, record.2,
    Option.not_isSome_iff_eq_none.mp (by simp [thrown]), next, log', u, stopped, idle', found', running',
    first, second⟩

end BumbleBee.Mvcc
