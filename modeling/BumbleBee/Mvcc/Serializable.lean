import BumbleBee.Mvcc.Validation

/-!
Serializable commits. Between its snapshot and its commit timestamp nothing a
validated transaction scanned for has changed, so its scans return what they would
return if the committed writers ran one by one in the order of their commits.
-/

namespace BumbleBee.Mvcc
open Library.Transition Library.Versions Storage.SlottedPage Concurrency

/-- The committed state at a timestamp. -/
def committedAt (log : List Event) (ts : Int) : Entry → Option RowBytes :=
  fun e => snapshot (history e log) ts

/-- What a scan of the table returns in a state. -/
def matching (oid : Nat) (p : ScanPredicate) (state : Entry → Option RowBytes) : Set (RID × RowBytes) :=
  { found | state ⟨oid, found.1⟩ = some found.2 ∧ p found.2 = true }

/-- A state as a transaction sees it that has written `own`. -/
def overlay (own : Entry → Option (Option RowBytes)) (state : Entry → Option RowBytes) :
    Entry → Option RowBytes :=
  fun e => (own e).getD (state e)

/-- The commits in the log with their timestamps, the first one first. -/
def commits : List Event → List (Int × Int)
  | [] => []
  | .committed id commitTs :: earlier => commits earlier ++ [(id, commitTs)]
  | .began _ _ _ :: earlier => commits earlier
  | .scanned _ _ _ :: earlier => commits earlier
  | .inserted _ _ _ :: earlier => commits earlier
  | .modified _ _ _ :: earlier => commits earlier

/-- The state after the listed transactions have run one by one, each leaving its last writes. -/
def serially (log : List Event) (order : List (Int × Int)) : Entry → Option RowBytes :=
  order.foldl (fun state commit => overlay (fun e => lastWrite commit.1 e log) state) fun _ => none

variable {log : List Event} {id commitTs readTs ts : Int} {oid : Nat} {p : ScanPredicate} {e : Entry}

theorem mem_commits : (id, commitTs) ∈ commits log ↔ Event.committed id commitTs ∈ log := by
  induction log with
  | nil => simp [commits]
  | cons event earlier ih => cases event <;> simp [commits, ih, or_comm]

theorem serially_congr {log' : List Event} {order : List (Int × Int)}
    (same : ∀ commit ∈ order, ∀ e, lastWrite commit.1 e log' = lastWrite commit.1 e log) :
    serially log' order = serially log order := by
  unfold serially
  generalize (fun _ => none : Entry → Option RowBytes) = state
  induction order generalizing state with
  | nil => rfl
  | cons commit later ih =>
    have here : (fun e => lastWrite commit.1 e log') = fun e => lastWrite commit.1 e log :=
      funext (same commit (by simp))
    simp only [List.foldl_cons, here]
    exact ih (fun other member => same other (List.mem_cons_of_mem _ member)) _

theorem serially_append (order : List (Int × Int)) (commit : Int × Int) :
    serially log (order ++ [commit]) = overlay (fun e => lastWrite commit.1 e log) (serially log order) := by
  simp [serially]

/-- Commits in timestamp order, and the committed state what they leave one by one. -/
structure CommitOrder (log : List Event) : Prop where
  ordered : (commits log).Pairwise fun first second => first.2 < second.2
  replays : ∀ ts, serially log ((commits log).filter fun commit => commit.2 ≤ ts) = committedAt log ts

open Database

variable {s next : Database} {a : Action} {events : List Event} {t : Transaction}

theorem CommitOrder.wrote (order : CommitOrder log) (ledger : Ledger log s) {event : Event}
    (found : s.txnMap id = some t) (live : t.Live) (records : RecordsWrite event id e) :
    CommitOrder (event :: log) := by
  have same : commits (event :: log) = commits log := by
    cases event with
    | committed other ts => exact absurd rfl (records.uncommitting other ts)
    | _ => rfl
  constructor
  · rw [same]
    exact order.ordered
  · intro ts
    have states : committedAt (event :: log) ts = committedAt log ts := by
      funext e'
      simp only [committedAt, records.past]
    rw [same, states, ← order.replays ts]
    apply serially_congr
    intro commit member e'
    apply records.elsewhere
    rintro ⟨own, -⟩
    have committed := mem_commits.mp (List.mem_filter.mp member).1
    rw [own] at committed
    exact ledger.uncommitted found live _ committed

theorem committedAt_published (seen : ts < commitTs) :
    committedAt (.committed id commitTs :: log) ts = committedAt log ts := by
  funext e
  simp only [committedAt]
  cases write : lastWrite id e log with
  | none => rw [history_committed_other write]
  | some value => rw [history_committed write, snapshot_tail seen]

theorem CommitOrder.published (order : CommitOrder log)
    (clock : ∀ other ts, Event.committed other ts ∈ log → ts < commitTs) :
    CommitOrder (.committed id commitTs :: log) := by
  constructor
  · refine List.pairwise_append.mpr ⟨order.ordered, List.pairwise_singleton _ _, ?_⟩
    intro first member second last
    rw [List.mem_singleton.mp last]
    exact clock first.1 first.2 (mem_commits.mp member)
  · intro ts
    have before : serially (.committed id commitTs :: log) ((commits log).filter fun commit => commit.2 ≤ ts) =
        committedAt log ts := by
      rw [← order.replays ts]
      exact serially_congr fun _ _ _ => rfl
    simp only [commits, List.filter_append]
    by_cases seen : commitTs ≤ ts
    · have last : [(id, commitTs)].filter (fun commit => decide (commit.2 ≤ ts)) = [(id, commitTs)] := by
        simp [seen]
      rw [last, serially_append, before]
      funext e
      simp only [overlay, committedAt, lastWrite]
      cases write : lastWrite id e log with
      | none => rw [history_committed_other write]; rfl
      | some value => rw [history_committed write, snapshot_head seen]; rfl
    · have none : [(id, commitTs)].filter (fun commit => decide (commit.2 ≤ ts)) = [] := by
        simp [seen]
      rw [none, List.append_nil, before, committedAt_published (not_le.mp seen)]

theorem CommitOrder.step (order : CommitOrder log) (ledger : Ledger log s) (control : Control s)
    (steps : Steps s a next events) : CommitOrder (events ++ log) := by
  cases steps with
  | inserted ready => exact order.wrote ledger ready.found ready.live (recordsWrite_inserted _ _ _)
  | rewrote ready | versioned ready =>
    exact order.wrote ledger ready.found ready.live (recordsWrite_modified _ _ _)
  | published phase found =>
    obtain ⟨-, -, -, -, clock, -⟩ := control.finalizing phase (by simp)
    refine order.published ?_
    intro other ts committed
    have earlier := (ledger.finished other ts committed).1
    omega
  | began added | scanned ready =>
    refine ⟨order.ordered, fun ts => ?_⟩
    exact (serially_congr fun _ _ _ => rfl).trans (order.replays ts)
  | _ => exact order

theorem commitOrder_run {meets : Database → Action → Prop} (run : Run system meets log s) : CommitOrder log := by
  refine Run.invariant (I := fun log _ => CommitOrder log) ?_ ?_ run
  · intro s initial
    exact ⟨List.Pairwise.nil, fun ts => rfl⟩
  · intro log s next a events before order _ taken
    exact order.step (ledger_run before) (control_run before) (steps_of_step taken)

theorem matching_overlay {state state' : Entry → Option RowBytes} (same : matching oid p state = matching oid p state')
    (own : Entry → Option (Option RowBytes)) :
    matching oid p (overlay own state) = matching oid p (overlay own state') := by
  ext ⟨rid, row⟩
  have here : (rid, row) ∈ matching oid p state ↔ (rid, row) ∈ matching oid p state' := by rw [same]
  simp only [matching, Set.mem_ofPred_eq, overlay] at here ⊢
  cases own ⟨oid, rid⟩ with
  | none => exact here
  | some value => exact Iff.rfl

/-- Nothing a committed serializable writer scanned for changed between its snapshot and its commit. -/
def Stable (log : List Event) : Prop :=
  ∀ id commitTs readTs oid p, Event.committed id commitTs ∈ log →
    Event.began id readTs .serializable ∈ log → (∃ e, Wrote log id e) → Event.scanned id oid p ∈ log →
    matching oid p (committedAt log readTs) = matching oid p (committedAt log (commitTs - 1))

/-- A committed transaction begins, scans and writes no more. -/
structure Finished (log log' : List Event) (id : Int) : Prop where
  began : ∀ readTs isolationLevel, Event.began id readTs isolationLevel ∈ log' →
    Event.began id readTs isolationLevel ∈ log
  scanned : ∀ oid p, Event.scanned id oid p ∈ log' → Event.scanned id oid p ∈ log
  wrote : ∀ e, Wrote log' id e → Wrote log id e

theorem finished_wrote (ledger : Ledger log s) {event : Event} {other : Int}
    (found : s.txnMap other = some t) (live : t.Live) (records : RecordsWrite event other e)
    (committed : Event.committed id commitTs ∈ log) : Finished log (event :: log) id := by
  refine ⟨?_, ?_, ?_⟩
  · intro readTs isolationLevel member
    exact (List.mem_cons.mp member).resolve_left fun same => records.unbeginning _ _ _ same.symm
  · intro oid p member
    exact (List.mem_cons.mp member).resolve_left fun same => records.unscanning _ _ _ same.symm
  · intro e' wrote
    refine ((records.wrote ..).mp wrote).resolve_left ?_
    rintro ⟨rfl, -⟩
    exact ledger.uncommitted found live _ committed

theorem finished_of_steps (ledger : Ledger log s) (steps : Steps s a next events)
    (committed : Event.committed id commitTs ∈ log) : Finished log (events ++ log) id := by
  cases steps with
  | began added =>
    refine ⟨?_, fun _ _ member => by simpa using member, fun _ wrote => wrote⟩
    intro readTs isolationLevel member
    refine (List.mem_cons.mp member).resolve_left fun same => ?_
    obtain ⟨-, ⟨readTs', isolationLevel', earlier, -⟩, -⟩ := ledger.finished id commitTs committed
    have known := ledger.known id readTs' isolationLevel' earlier
    rw [Event.began.injEq] at same
    omega
  | scanned ready table serializable =>
    refine ⟨fun _ _ member => by simpa using member, ?_, fun _ wrote => wrote⟩
    intro oid p member
    refine (List.mem_cons.mp member).resolve_left fun same => ?_
    cases same
    exact ledger.uncommitted ready.found ready.live _ committed
  | inserted ready => exact finished_wrote ledger ready.found ready.live (recordsWrite_inserted _ _ _) committed
  | rewrote ready | versioned ready =>
    exact finished_wrote ledger ready.found ready.live (recordsWrite_modified _ _ _) committed
  | published phase found =>
    exact ⟨fun _ _ member => by simpa using member, fun _ _ member => by simpa using member, fun _ wrote => wrote⟩
  | _ => exact ⟨fun _ _ member => member, fun _ _ member => member, fun _ wrote => wrote⟩

/-- A validated transaction publishes: its scans are the same at its snapshot and now. -/
theorem stable_now (control : Control s) (found : s.txnMap id = some t)
    (tested : ∀ e, Recent log t.readTs e → Tested log id t.readTs e) (scanned : Event.scanned id oid p ∈ log) :
    matching oid p (committedAt log t.readTs) = matching oid p (committedAt log s.lastCommitTs) := by
  have order := (control.txns id t found).snapshot.2
  ext ⟨rid, row⟩
  simp only [matching, Set.mem_ofPred_eq, committedAt]
  by_cases recent : Recent log t.readTs ⟨oid, rid⟩
  · have cleared := tested ⟨oid, rid⟩ recent
    constructor
    · rintro ⟨shown, hit⟩
      have missed := cleared.snapshot (le_refl _) shown p scanned
      simp [missed] at hit
    · rintro ⟨shown, hit⟩
      have missed := cleared.snapshot order shown p scanned
      simp [missed] at hit
  · have unchanged : snapshot (history ⟨oid, rid⟩ log) s.lastCommitTs =
        snapshot (history ⟨oid, rid⟩ log) t.readTs := by
      apply snapshot_of_unchanged order
      intro v member _
      exact not_lt.mp fun newer => recent ⟨v, member, newer⟩
    rw [unchanged]

theorem Stable.published (stable : Stable log) (sound : Sound log s) (validation : Validation log s)
    (phase : s.phase id = some (.stamping commitTs [])) (found : s.txnMap id = some t) :
    Stable (.committed id commitTs :: log) := by
  obtain ⟨u, same, -, -, clock, -, running, -⟩ := sound.control.finalizing phase (by simp)
  rw [found] at same
  cases same
  have steps := Steps.published phase found
  intro other ts readTs oid p committed began writer scanned
  by_cases self : other = id
  · subst self
    have old : ∀ ts', Event.committed other ts' ∉ log := sound.ledger.uncommitted found (.inl running)
    cases (List.mem_cons.mp committed).resolve_right (old ts)
    have began' : Event.began other readTs .serializable ∈ log := by simpa using began
    have scanned' : Event.scanned other oid p ∈ log := by simpa using scanned
    obtain ⟨snapshot, level⟩ := sound.ledger.once other _ _ _ _ (sound.ledger.begins other t found) began'
    obtain ⟨e, wrote⟩ := writer
    have member := (sound.sets.writes other t found e).mpr wrote
    have tested := validation other t found
    rw [phase] at tested
    have now := stable_now sound.control found (tested level (List.ne_nil_of_mem member)) scanned'
    have bound := (sound.control.txns other t found).snapshot.2
    rw [committedAt_published (by omega), committedAt_published (by omega), ← snapshot, now, clock,
      add_sub_cancel_right]
  · have committed' : Event.committed other ts ∈ log :=
      (List.mem_cons.mp committed).resolve_left fun same => self (by cases same; rfl)
    have finished : Finished log (.committed id commitTs :: log) other :=
      finished_of_steps sound.ledger steps committed'
    obtain ⟨published, ⟨readTs', level', began', earlier⟩, -⟩ := sound.ledger.finished other ts committed'
    have began'' := finished.began _ _ began
    have same := (sound.ledger.once other _ _ _ _ began' began'').1
    obtain ⟨e, wrote⟩ := writer
    rw [committedAt_published (by omega), committedAt_published (by omega)]
    exact stable other ts readTs oid p committed' began'' ⟨e, finished.wrote e wrote⟩ (finished.scanned _ _ scanned)

theorem Stable.step (stable : Stable log) (sound : Sound log s) (validation : Validation log s)
    (steps : Steps s a next events) : Stable (events ++ log) := by
  have taken := steps
  have kept : (∀ e, history e (events ++ log) = history e log) →
      (∀ other ts, Event.committed other ts ∈ events ++ log → Event.committed other ts ∈ log) →
      Stable (events ++ log) := by
    intro past commits other ts readTs oid p committed began writer scanned
    have committed' := commits other ts committed
    have finished := finished_of_steps sound.ledger taken committed'
    obtain ⟨e, wrote⟩ := writer
    have states : committedAt (events ++ log) = committedAt log := by
      funext ts e
      simp only [committedAt, past]
    rw [states]
    exact stable other ts readTs oid p committed' (finished.began _ _ began) ⟨e, finished.wrote e wrote⟩
      (finished.scanned _ _ scanned)
  cases steps with
  | published phase found => exact stable.published sound validation phase found
  | _ => exact kept (fun _ => rfl) fun _ _ member => by simpa using member

theorem stable_run (run : Run system Validates log s) : Stable log := by
  refine Run.invariant (I := fun log _ => Stable log) ?_ ?_ run
  · intro s initial id commitTs readTs oid p committed
    cases committed
  · intro log s next a events before stable _ taken
    exact stable.step (sound_run before) (validation_run before) (steps_of_step taken)

/-- The committed state is what the committed writers leave when they run one by one in the order of
their timestamps, and every scan of a serializable writer returns what it returns in that order. -/
theorem serializable_commits (run : Run program (Defined overruns Validates) log s) :
    (commits log).Pairwise (fun first second => first.2 < second.2) ∧
    (∀ ts, serially log ((commits log).filter fun commit => commit.2 ≤ ts) = committedAt log ts) ∧
    ∀ id commitTs readTs oid p, Event.committed id commitTs ∈ log →
      Event.began id readTs .serializable ∈ log → (∃ e, Wrote log id e) → Event.scanned id oid p ∈ log →
      matching oid p (committedAt log readTs) = matching oid p (committedAt log (commitTs - 1)) ∧
      ∀ own, matching oid p (overlay own (committedAt log readTs)) = matching oid p (overlay own
        (serially log ((commits log).filter fun commit => commit.2 ≤ commitTs - 1))) := by
  have run := inFrame_run run
  have order := commitOrder_run run
  refine ⟨order.ordered, order.replays, ?_⟩
  intro id commitTs readTs oid p committed began writer scanned
  have same := stable_run run id commitTs readTs oid p committed began writer scanned
  refine ⟨same, fun own => ?_⟩
  rw [order.replays]
  exact matching_overlay same own

theorem validates_of_plain {actions : List Action}
    (plain : ∀ a ∈ actions, (∀ id e, a ≠ .rollback id e) ∧ (∀ oid, a ≠ .dropTable oid) ∧
      ∀ watermark, a ≠ .collect watermark) :
    ∀ a ∈ actions, ∀ s, Validates s a := by
  intro a member s
  obtain ⟨stays, keeps, unswept⟩ := plain a member
  exact ⟨orderly_plain stays keeps, fun watermark sweep => absurd sweep (unswept watermark)⟩

def fourBytes : ScanPredicate := fun row => decide (row.size = 4)

/-- A serializable transaction has scanned and inserted, and its commit has passed the check outside the
mutex when another one changes the row `e` and commits. -/
def overtaken (e : Entry) : List Action :=
  twoRows 3 ++ [.begin .serializable, .scan (txnStartId + 1) 0 fourBytes,
    .insert (txnStartId + 1) 0 (zeroRow 2), .startCommit (txnStartId + 1), .begin .snapshotIsolation,
    .modify (txnStartId + 2) e (some (zeroRow 1)), .lockCommit (txnStartId + 2), .stamp (txnStartId + 2) e,
    .publish (txnStartId + 2), .leave (txnStartId + 2)]

def overtakenLog (e : Entry) : List Event :=
  [.committed (txnStartId + 2) 2, .modified (txnStartId + 2) e (some (zeroRow 1)),
    .began (txnStartId + 2) 1 .snapshotIsolation, .inserted (txnStartId + 1) ⟨0, 0, 2⟩ (zeroRow 2),
    .scanned (txnStartId + 1) 0 fourBytes, .began (txnStartId + 1) 1 .serializable, .committed txnStartId 1,
    .inserted txnStartId ⟨0, 0, 1⟩ (zeroRow 3), .inserted txnStartId ⟨0, 0, 0⟩ (zeroRow 4),
    .began txnStartId 0 .snapshotIsolation]

/-- The changed row never matched the scan: the second validation tests both its versions and passes. -/
theorem serializable_commits_overtaken :
    ∃ log s, Run program (Defined overruns Validates) log s ∧ Event.committed (txnStartId + 2) 2 ∈ log ∧
      Event.committed (txnStartId + 1) 3 ∈ log ∧
      matching 0 fourBytes (committedAt log 1) = matching 0 fourBytes (committedAt log (3 - 1)) := by
  obtain ⟨s, log, run, shown⟩ := exec_shows (M := system) (overtaken ⟨0, 0, 1⟩ ++
    [.lockCommit (txnStartId + 1), .verifyRow (txnStartId + 1) ⟨0, 0, 1⟩, .verifyLink (txnStartId + 1),
      .verified (txnStartId + 1), .stamp (txnStartId + 1) ⟨0, 0, 2⟩, .publish (txnStartId + 1)])
    opened_initial (validates_of_plain (by simp [overtaken, twoRows])) Prod.snd
    (.committed (txnStartId + 1) 3 :: overtakenLog ⟨0, 0, 1⟩) rfl
  change log = _ at shown
  subst shown
  have run := run_inFrame run
  obtain ⟨-, -, scans⟩ := serializable_commits run
  refine ⟨_, s, run, by simp [overtakenLog], by simp, ?_⟩
  exact (scans (txnStartId + 1) 3 1 0 fourBytes (by simp) (by simp [overtakenLog])
    ⟨⟨0, 0, 2⟩, some (zeroRow 2), rfl⟩ (by simp [overtakenLog])).1

def rollbackRefused (s : Database) (id : Int) (rid : RID) : Bool :=
  match s.txnMap id with
  | none => false
  | some t =>
    match s.mvccRollback id t rid with
    | .failed => true
    | _ => false

/-- The link the second validation holds leads into a transaction that aborts and is swept before the link
is followed: the walk ends, and the commit goes through although a row it scanned was changed. -/
theorem serializable_scan_missed :
    ∃ log s, Run system Orderly log s ∧ Event.committed (txnStartId + 1) 3 ∈ log ∧
      Event.began (txnStartId + 1) 1 .serializable ∈ log ∧ (∃ e, Wrote log (txnStartId + 1) e) ∧
      Event.scanned (txnStartId + 1) 0 fourBytes ∈ log ∧
      matching 0 fourBytes (committedAt log 1) ≠ matching 0 fourBytes (committedAt log (3 - 1)) := by
  obtain ⟨s, log, run, shown⟩ := exec_shows (M := system) (overtaken ⟨0, 0, 0⟩ ++
    [.begin .snapshotIsolation, .modify (txnStartId + 3) ⟨0, 0, 0⟩ (some (zeroRow 2)),
      .lockCommit (txnStartId + 1), .verifyRow (txnStartId + 1) ⟨0, 0, 0⟩, .startAbort (txnStartId + 3)])
    opened_initial (orderly_of_plain (by simp [overtaken, twoRows]))
    (fun r => (rollbackRefused r.1 (txnStartId + 3) ⟨0, 0⟩,
      (exec system r.1 r.2 [.rollback (txnStartId + 3) ⟨0, 0, 0⟩, .markAborted (txnStartId + 3),
        .leave (txnStartId + 3), .readWatermark, .collect 1, .verifyLink (txnStartId + 1),
        .verified (txnStartId + 1), .stamp (txnStartId + 1) ⟨0, 0, 2⟩, .publish (txnStartId + 1)]).map
          Prod.snd))
    (false, some (.committed (txnStartId + 1) 3 :: .modified (txnStartId + 3) ⟨0, 0, 0⟩ (some (zeroRow 2)) ::
      .began (txnStartId + 3) 2 .snapshotIsolation :: overtakenLog ⟨0, 0, 0⟩)) rfl
  rw [Prod.mk.injEq, Option.map_eq_some_iff] at shown
  obtain ⟨restores, ⟨s', log'⟩, result, events⟩ := shown
  have orderly : s.Orderly (.rollback (txnStartId + 3) ⟨0, 0, 0⟩) := by
    refine ⟨?_, fun _ drop => (by cases drop)⟩
    rintro id e t heap same found - refused
    cases same
    simp [rollbackRefused, found, refused] at restores
  have run' : Run system Orderly log' s' :=
    exec_run_cons _ run orderly (orderly_of_plain (by simp)) result
  change log' = _ at events
  subst events
  refine ⟨_, s', run', by simp, by simp [overtakenLog], ⟨⟨0, 0, 2⟩, some (zeroRow 2), rfl⟩,
    by simp [overtakenLog], ?_⟩
  intro same
  have still := (Set.ext_iff.mp same (⟨0, 0⟩, zeroRow 4)).mp ⟨rfl, rfl⟩
  have changed : some (zeroRow 1) = some (zeroRow 4) := still.1
  cases congrArg RowBytes.size (Option.some.inj changed)

end BumbleBee.Mvcc
