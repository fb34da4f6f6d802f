import BumbleBee.Mvcc.Control
import BumbleBee.Mvcc.History

/-!
The event log against the transaction map: who began with which snapshot, who
recorded which scans, and who committed when. A transaction writes nothing after
its commit, so the history of a row can be read off the log as it stands.
-/

namespace BumbleBee.Mvcc
open Library.Transition Concurrency Function

namespace Database

structure Ledger (log : List Event) (s : Database) : Prop where
  begins : ∀ id t, s.txnMap id = some t → Event.began id t.readTs t.isolationLevel ∈ log
  known : ∀ id readTs isolationLevel, Event.began id readTs isolationLevel ∈ log → id < s.nextTxnId
  once : ∀ id readTs readTs' isolationLevel isolationLevel', Event.began id readTs isolationLevel ∈ log →
    Event.began id readTs' isolationLevel' ∈ log → readTs = readTs' ∧ isolationLevel = isolationLevel'
  scans : ∀ id oid p, Event.scanned id oid p ∈ log →
    id < s.nextTxnId ∧ ∀ t, s.txnMap id = some t → (oid, p) ∈ t.scanPredicates
  finished : ∀ id commitTs, Event.committed id commitTs ∈ log →
    commitTs ≤ s.lastCommitTs ∧
    (∃ readTs isolationLevel, Event.began id readTs isolationLevel ∈ log ∧ 0 ≤ readTs ∧ readTs < commitTs) ∧
    ∀ t, s.txnMap id = some t → t.state = .committed ∧ t.commitTs = commitTs
  recorded : ∀ id t, s.txnMap id = some t → t.state = .committed → Event.committed id t.commitTs ∈ log
  unique : ∀ id id' commitTs, Event.committed id commitTs ∈ log → Event.committed id' commitTs ∈ log →
    id = id'
  authored : ∀ e v, v ∈ history e log ↔
    ∃ id, Event.committed id v.ts ∈ log ∧ lastWrite id e log = some v.value

variable {s next : Database} {id : Int} {log : List Event}

/-- What a step leaves alone in a transaction's record. -/
structure SameRecord (t t' : Transaction) : Prop where
  readTs : t'.readTs = t.readTs
  isolationLevel : t'.isolationLevel = t.isolationLevel
  scans : ∀ recorded ∈ t.scanPredicates, recorded ∈ t'.scanPredicates
  commitTs : t'.commitTs = t.commitTs
  committed : t'.state = .committed ↔ t.state = .committed

theorem SameRecord.refl (t : Transaction) : SameRecord t t := ⟨rfl, rfl, fun _ member => member, rfl, Iff.rfl⟩

structure SameRecords (s next : Database) : Prop where
  ids : next.nextTxnId = s.nextTxnId
  clock : next.lastCommitTs = s.lastCommitTs
  txns : ∀ id t', next.txnMap id = some t' → ∃ t, s.txnMap id = some t ∧ SameRecord t t'

variable {t : Transaction}

/-- A step that begins and commits nothing leaves the records as far as the log knows them. -/
theorem Control.sameRecords (control : Control s) {a : Action} {events : List Event}
    (steps : Steps s a next events) (ids : next.nextTxnId = s.nextTxnId)
    (clock : next.lastCommitTs = s.lastCommitTs) : SameRecords s next := by
  refine ⟨ids, clock, ?_⟩
  intro id t' here
  have updated : ∀ {actor : Int} {u u' : Transaction}, s.txnMap actor = some u → SameRecord u u' →
      update s.txnMap actor (some u') id = some t' → ∃ t, s.txnMap id = some t ∧ SameRecord t t' := by
    intro actor u u' found record after
    rcases of_update after with ⟨rfl, new⟩ | ⟨-, old⟩
    · cases new
      exact ⟨u, found, record⟩
    · exact ⟨t', old, SameRecord.refl t'⟩
  obtain ⟨after, step, same⟩ := control.acts steps
  rw [same.nextTxnId] at ids
  rw [same.lastCommitTs] at clock
  rw [same.txnMap] at here
  cases step with
  | same | moved | left | watermarkRead => exact ⟨t', here, SameRecord.refl t'⟩
  | begun added =>
    simp only [Database.begun] at ids
    omega
  | amended ready amends =>
    refine updated ready.found ⟨amends.readTs, amends.isolationLevel, amends.scans, amends.commitTs, ?_⟩ here
    rcases ready.live with running | tainted <;> rcases amends.live with running' | tainted' <;> simp [*]
  | published phase found =>
    obtain ⟨-, -, -, -, stamp, -⟩ := control.finalizing phase (by simp)
    simp only [Database.setPhase, Database.setTxn] at clock
    omega
  | @markedAborted actor u phase found =>
    have record : SameRecord u { u with state := .aborted } := by
      refine ⟨rfl, rfl, fun _ member => member, rfl, ?_⟩
      rcases control.live_of_phase phase (by simp) found with running | tainted <;> simp [*]
    exact updated found record here
  | collected sweeps pending => exact ⟨t', (sweep_some here).1, SameRecord.refl t'⟩

section
variable (ledger : Ledger log s)
include ledger

theorem Ledger.silent (same : SameRecords s next) : Ledger log next := by
  refine ⟨?_, ?_, ledger.once, ?_, ?_, ?_, ledger.unique, ledger.authored⟩
  · intro id t' found
    obtain ⟨t, before, record⟩ := same.txns id t' found
    rw [record.readTs, record.isolationLevel]
    exact ledger.begins id t before
  · rw [same.ids]
    exact ledger.known
  · intro id oid p member
    obtain ⟨below, recorded⟩ := ledger.scans id oid p member
    refine ⟨by rw [same.ids]; exact below, ?_⟩
    intro t' found
    obtain ⟨t, before, record⟩ := same.txns id t' found
    exact record.scans _ (recorded t before)
  · intro id commitTs member
    obtain ⟨past, began, state⟩ := ledger.finished id commitTs member
    refine ⟨by rw [same.clock]; exact past, began, ?_⟩
    intro t' found
    obtain ⟨t, before, record⟩ := same.txns id t' found
    rw [record.committed, record.commitTs]
    exact state t before
  · intro id t' found committed
    obtain ⟨t, before, record⟩ := same.txns id t' found
    rw [record.commitTs]
    exact ledger.recorded id t before (record.committed.mp committed)

theorem Ledger.uncommitted (found : s.txnMap id = some t)
    (live : t.Live) (commitTs : Int) : Event.committed id commitTs ∉ log := by
  intro member
  obtain ⟨-, -, state⟩ := ledger.finished id commitTs member
  rcases live with running | tainted <;> simp_all

theorem Ledger.wrote {event : Event} {e : Entry} (records : RecordsWrite event id e)
    (unfinished : ∀ commitTs, Event.committed id commitTs ∉ log) : Ledger (event :: log) s := by
  have began : ∀ other readTs isolationLevel, Event.began other readTs isolationLevel ∈ event :: log ↔
      Event.began other readTs isolationLevel ∈ log := by
    intro other readTs isolationLevel
    rw [List.mem_cons, or_iff_right (records.unbeginning other readTs isolationLevel).symm]
  have scanned : ∀ other oid p, Event.scanned other oid p ∈ event :: log ↔
      Event.scanned other oid p ∈ log := by
    intro other oid p
    rw [List.mem_cons, or_iff_right (records.unscanning other oid p).symm]
  have committed : ∀ other commitTs, Event.committed other commitTs ∈ event :: log ↔
      Event.committed other commitTs ∈ log := by
    intro other commitTs
    rw [List.mem_cons, or_iff_right (records.uncommitting other commitTs).symm]
  refine ⟨?_, ?_, ?_, ?_, ?_, ?_, ?_, ?_⟩
  · simpa only [began] using ledger.begins
  · simpa only [began] using ledger.known
  · simpa only [began] using ledger.once
  · simpa only [scanned] using ledger.scans
  · simpa only [committed, began] using ledger.finished
  · simpa only [committed] using ledger.recorded
  · simpa only [committed] using ledger.unique
  · intro e' v
    rw [records.past, ledger.authored]
    simp only [committed]
    refine exists_congr fun other => and_congr_right fun done => ?_
    have apart : other ≠ id := by
      rintro rfl
      exact unfinished _ done
    rw [records.elsewhere log other e' fun both => apart both.1]

theorem Ledger.began {isolationLevel : IsolationLevel} {runningTxns : Watermark} :
    Ledger (.began s.nextTxnId s.lastCommitTs isolationLevel :: log) (s.begun isolationLevel runningTxns) := by
  have old : ∀ other t, other ≠ s.nextTxnId →
      (s.begun isolationLevel runningTxns).txnMap other = some t → s.txnMap other = some t := by
    intro other t apart found
    simpa only [Database.begun, update_of_ne apart] using found
  have before : ∀ other commitTs, Event.committed other commitTs ∈
      Event.began s.nextTxnId s.lastCommitTs isolationLevel :: log → Event.committed other commitTs ∈ log := by
    intro other commitTs member
    simpa using member
  refine ⟨?_, ?_, ?_, ?_, ?_, ?_, fun a b c first second => ledger.unique a b c (before a c first) (before b c second), ?_⟩
  · intro other t found
    by_cases same : other = s.nextTxnId
    · subst same
      simp only [Database.begun, update_self, Option.some.injEq] at found
      subst found
      exact List.mem_cons_self
    · exact List.mem_cons_of_mem _ (ledger.begins other t (old other t same found))
  · intro other readTs level member
    rcases List.mem_cons.mp member with same | inside
    · cases same
      exact Int.lt_succ _
    · exact lt_trans (ledger.known other readTs level inside) (Int.lt_succ _)
  · intro other readTs readTs' level level' first second
    rcases List.mem_cons.mp first with same | inside <;> rcases List.mem_cons.mp second with same' | inside'
    · cases same
      cases same'
      exact ⟨rfl, rfl⟩
    · cases same
      exact absurd (ledger.known _ _ _ inside') (lt_irrefl _)
    · cases same'
      exact absurd (ledger.known _ _ _ inside) (lt_irrefl _)
    · exact ledger.once other readTs readTs' level level' inside inside'
  · intro other oid p member
    simp only [List.mem_cons, reduceCtorEq, false_or] at member
    obtain ⟨below, recorded⟩ := ledger.scans other oid p member
    refine ⟨lt_trans below (Int.lt_succ _), ?_⟩
    intro t found
    exact recorded t (old other t (ne_of_lt below) found)
  · intro other commitTs member
    obtain ⟨past, ⟨readTs, level, begins, earlier⟩, state⟩ := ledger.finished other commitTs (before _ _ member)
    refine ⟨past, ⟨readTs, level, List.mem_cons_of_mem _ begins, earlier⟩, ?_⟩
    intro t found
    exact state t (old other t (ne_of_lt (ledger.known _ _ _ begins)) found)
  · intro other t found committed
    have apart : other ≠ s.nextTxnId := by
      rintro rfl
      simp only [Database.begun, update_self, Option.some.injEq] at found
      subst found
      cases committed
    exact List.mem_cons_of_mem _ (ledger.recorded other t (old other t apart found) committed)
  · intro e v
    simp only [history, List.mem_cons, reduceCtorEq, false_or]
    exact ledger.authored e v

theorem Ledger.scanned (oid : Nat) (p : ScanPredicate) (known : id < s.nextTxnId)
    (recorded : ∀ t, s.txnMap id = some t → (oid, p) ∈ t.scanPredicates) : Ledger (.scanned id oid p :: log) s := by
  refine ⟨?_, ?_, ?_, ?_, ?_, ?_, ?_, ?_⟩
  · exact fun other u here => List.mem_cons_of_mem _ (ledger.begins other u here)
  · simpa using ledger.known
  · simpa using ledger.once
  · intro other oid' p' member
    rcases List.mem_cons.mp member with event | inside
    · cases event
      exact ⟨known, recorded⟩
    · exact ledger.scans other oid' p' inside
  · simpa using ledger.finished
  · exact fun other u here committed => List.mem_cons_of_mem _ (ledger.recorded other u here committed)
  · simpa using ledger.unique
  · intro e v
    simp only [history, List.mem_cons, reduceCtorEq, false_or]
    exact ledger.authored e v

theorem Ledger.published (control : Control s) {commitTs : Int}
    (here : s.phase id = some (.stamping commitTs [])) (found : s.txnMap id = some t) :
    Ledger (.committed id commitTs :: log) (({ s with lastCommitTs := commitTs }.setTxn id
      { t with commitTs := commitTs, state := .committed }).setPhase id
        (some (.leaving t.readTs (some commitTs)))) := by
  obtain ⟨u, same, -, -, clock, -, running, -⟩ := control.finalizing here (by simp)
  rw [found] at same
  cases same
  obtain ⟨old, snapshot⟩ := (control.txns id t found).snapshot
  have begins := ledger.begins id t found
  have unfinished := ledger.uncommitted found (.inl running)
  have later : ∀ other ts, Event.committed other ts ∈ log → ts < commitTs := by
    intro other ts member
    have past := (ledger.finished other ts member).1
    omega
  have record : ∀ other u, (({ s with lastCommitTs := commitTs }.setTxn id
      { t with commitTs := commitTs, state := .committed }).setPhase id
        (some (.leaving t.readTs (some commitTs)))).txnMap other = some u →
      (other = id ∧ u = { t with commitTs := commitTs, state := .committed }) ∨
        (other ≠ id ∧ s.txnMap other = some u) := by
    intro other u after
    exact (of_update after).imp_left fun new => ⟨new.1, (Option.some.inj new.2).symm⟩
  refine ⟨?_, ?_, ?_, ?_, ?_, ?_, ?_, ?_⟩
  · intro other u after
    rcases record other u after with ⟨rfl, rfl⟩ | ⟨-, before⟩
    · exact List.mem_cons_of_mem _ begins
    · exact List.mem_cons_of_mem _ (ledger.begins other u before)
  · intro other readTs level member
    simp only [List.mem_cons, reduceCtorEq, false_or] at member
    exact ledger.known other readTs level member
  · simpa using ledger.once
  · intro other oid p member
    simp only [List.mem_cons, reduceCtorEq, false_or] at member
    obtain ⟨below, recorded⟩ := ledger.scans other oid p member
    refine ⟨below, ?_⟩
    intro u after
    rcases record other u after with ⟨rfl, rfl⟩ | ⟨-, before⟩
    · exact recorded t found
    · exact recorded u before
  · intro other ts member
    rcases List.mem_cons.mp member with event | inside
    · cases event
      refine ⟨le_refl _, ⟨t.readTs, t.isolationLevel, List.mem_cons_of_mem _ begins, by omega, by omega⟩, ?_⟩
      intro u after
      rcases record id u after with ⟨-, rfl⟩ | ⟨apart, -⟩
      · exact ⟨rfl, rfl⟩
      · exact absurd rfl apart
    · obtain ⟨past, ⟨readTs, level, began, earlier⟩, state⟩ := ledger.finished other ts inside
      refine ⟨le_of_lt (later other ts inside), ⟨readTs, level, List.mem_cons_of_mem _ began, earlier⟩, ?_⟩
      intro u after
      rcases record other u after with ⟨rfl, -⟩ | ⟨-, before⟩
      · exact absurd inside (unfinished ts)
      · exact state u before
  · intro other u after committed
    rcases record other u after with ⟨rfl, rfl⟩ | ⟨-, before⟩
    · exact List.mem_cons_self
    · exact List.mem_cons_of_mem _ (ledger.recorded other u before committed)
  · intro first second ts member member'
    rcases List.mem_cons.mp member with event | inside <;> rcases List.mem_cons.mp member' with event' | inside'
    · cases event
      cases event'
      rfl
    · cases event
      exact absurd (later second _ inside') (lt_irrefl _)
    · cases event'
      exact absurd (later first _ inside) (lt_irrefl _)
    · exact ledger.unique first second ts inside inside'
  · intro e v
    have older := ledger.authored e v
    have mine : (∃ writer, Event.committed writer v.ts ∈ Event.committed id commitTs :: log ∧
        lastWrite writer e (.committed id commitTs :: log) = some v.value) ↔
        (v.ts = commitTs ∧ lastWrite id e log = some v.value) ∨ v ∈ history e log := by
      rw [older]
      simp only [List.mem_cons, Event.committed.injEq]
      constructor
      · rintro ⟨writer, ⟨rfl, stamp⟩ | inside, write⟩
        · exact .inl ⟨stamp, write⟩
        · exact .inr ⟨writer, inside, write⟩
      · rintro (⟨stamp, write⟩ | ⟨writer, inside, write⟩)
        · exact ⟨id, .inl ⟨rfl, stamp⟩, write⟩
        · exact ⟨writer, .inr inside, write⟩
    rw [mine]
    cases write : lastWrite id e log with
    | none => simp [history, write]
    | some value =>
      simp only [history, write, List.mem_cons, Option.some.injEq]
      constructor
      · rintro (rfl | inside)
        · exact .inl ⟨rfl, rfl⟩
        · exact .inr inside
      · rintro (⟨stamp, rfl⟩ | inside)
        · exact .inl (by cases v; simp_all)
        · exact .inr inside

end

theorem Ledger.step (ledger : Ledger log s) (control : Control s) {a : Action} {events : List Event}
    (steps : Steps s a next events) : Ledger (events ++ log) next := by
  have taken := steps
  cases steps with
  | began added => exact ledger.began
  | scanned ready table serializable =>
    refine (ledger.silent (control.sameRecords taken rfl rfl)).scanned _ _ (control.known _ _ ready.found) ?_
    intro u here
    simp only [Database.setTxn, update_self, Option.some.injEq] at here
    subst here
    exact List.mem_cons_self
  | inserted ready table grew placed =>
    exact (ledger.wrote (recordsWrite_inserted _ _ _) (ledger.uncommitted ready.found ready.live)).silent
      (control.sameRecords taken rfl rfl)
  | rewrote ready table listed base own stored | versioned ready table listed base foreign inSnapshot stored =>
    exact (ledger.wrote (recordsWrite_modified _ _ _) (ledger.uncommitted ready.found ready.live)).silent
      (control.sameRecords taken rfl rfl)
  | published phase found => exact ledger.published control phase found
  | _ => exact ledger.silent (control.sameRecords taken rfl rfl)

theorem Initial.ledger (initial : Initial s) : Ledger [] s := by
  refine ⟨?_, ?_, ?_, ?_, ?_, ?_, ?_, ?_⟩
  · intro id t found
    rw [initial.txnMap] at found
    cases found
  · exact fun _ _ _ member => by cases member
  · exact fun _ _ _ _ _ member => by cases member
  · exact fun _ _ _ member => by cases member
  · exact fun _ _ member => by cases member
  · intro id t found
    rw [initial.txnMap] at found
    cases found
  · exact fun _ _ _ member => by cases member
  · simp [history]

end Database

theorem ledger_run {meets : Database → Action → Prop} {log : List Event} {s : Database}
    (run : Run system meets log s) : Database.Ledger log s := by
  refine Run.invariant (I := fun log s => Database.Ledger log s) (fun s initial => Database.Initial.ledger initial) ?_ run
  intro log s next a events before ledger _ taken
  exact ledger.step (control_run before) (Database.steps_of_step taken)

end BumbleBee.Mvcc
