import BumbleBee.Mvcc.Steps

/-!
The control state of the transaction manager: which transactions are live, how far
each finalization has come, who holds the commit mutex, and which snapshots the
watermark knows. It holds in every run, whatever the rows and chains look like.
-/

namespace BumbleBee.Mvcc
open Library.Transition Storage Storage.SlottedPage Concurrency Function

structure TxnOk (nextTxnId lastCommitTs id : Int) (t : Transaction) : Prop where
  old : txnStartId ≤ id
  known : id < nextTxnId
  snapshot : 0 ≤ t.readTs ∧ t.readTs ≤ lastCommitTs
  stamped : t.state = .committed → t.readTs < t.commitTs ∧ t.commitTs ≤ lastCommitTs
  distinct : t.writeSet.Nodup

variable {t : Transaction} {lastCommitTs : Int}

theorem TxnOk.mono {nextTxnId laterId laterTs id : Int} (ok : TxnOk nextTxnId lastCommitTs id t)
    (ids : nextTxnId ≤ laterId) (grows : lastCommitTs ≤ laterTs) :
    TxnOk laterId laterTs id t where
  old := ok.old
  known := lt_of_lt_of_le ok.known ids
  snapshot := ⟨ok.snapshot.1, le_trans ok.snapshot.2 grows⟩
  stamped := fun committed => ⟨(ok.stamped committed).1, le_trans (ok.stamped committed).2 grows⟩
  distinct := ok.distinct

/-- What the phase of a finalization says about its transaction. -/
def PhaseOk (lastCommitTs : Int) (mutex : Option Int) (id : Int) :
    Option Phase → Option Transaction → Prop
  | none, none => True
  | none, some t => ¬t.Live
  | some .idle, some t => t.Live
  | some (.verifying locked _ _), some t =>
    (locked = true → mutex = some id ∧ lastCommitTs + 1 < txnStartId) ∧ t.state = .running
  | some (.stamping commitTs rest), some t =>
    mutex = some id ∧ commitTs = lastCommitTs + 1 ∧ commitTs < txnStartId ∧ t.state = .running ∧
      rest ⊆ t.writeSet ∧ rest.Nodup
  | some (.rollingBack rest), some t => t.Live ∧ rest ⊆ t.writeSet ∧ rest.Nodup
  | some (.leaving readTs (some commitTs)), some t =>
    mutex = some id ∧ commitTs = lastCommitTs ∧ t.state = .committed ∧ t.readTs = readTs ∧
      t.commitTs = commitTs
  | some (.leaving readTs none), some t =>
    readTs ≤ lastCommitTs ∧ t.state = .aborted ∧ t.readTs = readTs
  | some (.leaving readTs none), none => readTs ≤ lastCommitTs
  | some _, none => False

variable {mutex : Option Int}

theorem PhaseOk.frame {laterTs id : Int} {mutex' : Option Int} {phase : Option Phase} {t : Option Transaction}
    (ok : PhaseOk lastCommitTs mutex id phase t) (grows : lastCommitTs ≤ laterTs)
    (holder : mutex = some id → laterTs = lastCommitTs ∧ mutex' = some id) :
    PhaseOk laterTs mutex' id phase t := by
  rcases phase with _ | phase
  · cases t <;> exact ok
  cases phase with
  | leaving readTs commitTs =>
    cases commitTs with
    | some commitTs =>
      cases t with
      | none => exact ok
      | some t =>
        obtain ⟨same, held⟩ := holder ok.1
        subst same
        exact ⟨held, ok.2⟩
    | none =>
      cases t with
      | none => exact le_trans ok grows
      | some t => exact ⟨le_trans ok.1 grows, ok.2⟩
  | idle | rollingBack rest => cases t <;> exact ok
  | verifying locked rest walk =>
    cases t with
    | none => exact ok
    | some t =>
      refine ⟨fun inside => ?_, ok.2⟩
      obtain ⟨mine, room⟩ := ok.1 inside
      obtain ⟨rfl, held⟩ := holder mine
      exact ⟨held, room⟩
  | stamping commitTs rest =>
    cases t with
    | none => exact ok
    | some t =>
      obtain ⟨same, held⟩ := holder ok.1
      subst same
      exact ⟨held, ok.2⟩

theorem PhaseOk.live {id : Int} {phase : Phase} (ok : PhaseOk lastCommitTs mutex id (some phase) (some t))
    (staying : ∀ r c, phase ≠ .leaving r c) : t.Live := by
  cases phase with
  | idle => exact ok
  | verifying locked rest walk => exact .inl ok.2
  | stamping commitTs rest => exact .inl ok.2.2.2.1
  | rollingBack rest => exact ok.1
  | leaving readTs commitTs => exact absurd rfl (staying _ _)

namespace Database

/-- The snapshot a transaction has registered with the watermark, until it leaves. -/
def registeredTs (s : Database) (id : Int) : Option Int :=
  match s.phase id with
  | none => none
  | some (.leaving readTs _) => some readTs
  | some _ => (s.txnMap id).map Transaction.readTs

/-- A timestamp no registered snapshot is older than. -/
def Old (s : Database) (ts : Int) : Prop :=
  ts ≤ s.lastCommitTs ∧ ∀ id readTs, s.registeredTs id = some readTs → ts ≤ readTs

/-- The watermark counts exactly the registered transactions. -/
def Registry (s : Database) : Prop :=
  ∃ ids : List Int, ids.Nodup ∧ (∀ id, id ∈ ids ↔ ∃ readTs, s.registeredTs id = some readTs) ∧
    ∀ ts, s.runningTxns.count ts = ids.countP fun id => s.registeredTs id = some ts

structure Control (s : Database) : Prop where
  start : txnStartId ≤ s.nextTxnId
  clock : 0 ≤ s.lastCommitTs ∧ s.lastCommitTs < txnStartId
  txns : ∀ id t, s.txnMap id = some t → TxnOk s.nextTxnId s.lastCommitTs id t
  phases : ∀ id, PhaseOk s.lastCommitTs s.commitMutex id (s.phase id) (s.txnMap id)
  unborn : ∀ id, s.nextTxnId ≤ id → s.phase id = none
  registry : s.Registry
  published : s.runningTxns.commitTs ≤ s.lastCommitTs
  watermarks : ∀ w ∈ s.gcWatermarks, s.Old w

variable {s next : Database} {id : Int}

theorem Control.known (control : Control s) (id : Int) (t : Transaction) (found : s.txnMap id = some t) :
    id < s.nextTxnId := (control.txns id t found).known

theorem Registry.frame (registry : s.Registry) (running : next.runningTxns = s.runningTxns)
    (same : ∀ id, next.registeredTs id = s.registeredTs id) : next.Registry := by
  obtain ⟨ids, distinct, members, counts⟩ := registry
  refine ⟨ids, distinct, ?_, ?_⟩
  · intro id
    rw [same]
    exact members id
  · intro ts
    rw [running, counts ts]
    simp only [same]

theorem Old.frame {ts : Int} (old : s.Old ts) (grows : s.lastCommitTs ≤ next.lastCommitTs)
    (same : ∀ id readTs, next.registeredTs id = some readTs →
      s.registeredTs id = some readTs ∨ s.lastCommitTs ≤ readTs) : next.Old ts := by
  refine ⟨le_trans old.1 grows, ?_⟩
  intro id readTs registered
  rcases same id readTs registered with before | fresh
  · exact old.2 id readTs before
  · exact le_trans old.1 fresh

variable {readTs : Int}

/-- A registered snapshot is counted, so the watermark is at or below it. -/
theorem Registry.counted (registry : s.Registry)
    (registered : s.registeredTs id = some readTs) : 0 < s.runningTxns.count readTs := by
  obtain ⟨ids, -, members, counts⟩ := registry
  rw [counts, List.countP_pos_iff]
  exact ⟨id, (members id).mpr ⟨readTs, registered⟩, by simpa using registered⟩

theorem Registry.of_counted (registry : s.Registry)
    (counted : 0 < s.runningTxns.count readTs) : ∃ id, s.registeredTs id = some readTs := by
  obtain ⟨ids, -, members, counts⟩ := registry
  rw [counts, List.countP_pos_iff] at counted
  obtain ⟨id, -, registered⟩ := counted
  exact ⟨id, by simpa using registered⟩

theorem Control.leaving_committed (control : Control s) {commitTs : Int}
    (phase : s.phase id = some (.leaving readTs (some commitTs))) :
    ∃ t, s.txnMap id = some t ∧ s.commitMutex = some id ∧ commitTs = s.lastCommitTs ∧ t.state = .committed ∧
      t.readTs = readTs ∧ t.commitTs = commitTs := by
  have ok := control.phases id
  rw [phase] at ok
  cases found : s.txnMap id with
  | none => rw [found] at ok; exact ok.elim
  | some t => rw [found] at ok; exact ⟨t, rfl, ok⟩

theorem Control.registered_le (control : Control s)
    (registered : s.registeredTs id = some readTs) : readTs ≤ s.lastCommitTs := by
  unfold registeredTs at registered
  split at registered
  · cases registered
  · next readTs commitTs phase =>
    cases registered
    cases commitTs with
    | none =>
      have ok := control.phases id
      rw [phase] at ok
      cases found : s.txnMap id with
      | none => rw [found] at ok; exact ok
      | some t => rw [found] at ok; exact ok.1
    | some commitTs =>
      obtain ⟨t, found, -, -, -, rfl, -⟩ := control.leaving_committed phase
      exact (control.txns id t found).snapshot.2
  · obtain ⟨t, found, rfl⟩ := Option.map_eq_some_iff.mp registered
    exact (control.txns id t found).snapshot.2

/-- A step that concerns one transaction leaves the control state of the others alone. -/
structure ActsOn (s next : Database) (id : Int) : Prop where
  nextTxnId : next.nextTxnId = s.nextTxnId
  grows : s.lastCommitTs ≤ next.lastCommitTs
  running : next.runningTxns = s.runningTxns
  gc : next.gcWatermarks = s.gcWatermarks
  txnMap : ∀ other, other ≠ id → next.txnMap other = s.txnMap other
  phase : ∀ other, other ≠ id → next.phase other = s.phase other
  mutex : ∀ other, other ≠ id → s.commitMutex = some other →
    next.lastCommitTs = s.lastCommitTs ∧ next.commitMutex = some other
  registered : next.registeredTs id = s.registeredTs id

theorem ActsOn.registeredTs (acts : ActsOn s next id) (other : Int) :
    next.registeredTs other = s.registeredTs other := by
  by_cases same : other = id
  · rw [same, acts.registered]
  · simp only [Database.registeredTs, acts.txnMap other same, acts.phase other same]

theorem Control.actsOn (control : Control s) (acts : ActsOn s next id) (clock : next.lastCommitTs < txnStartId)
    (here : next.txnMap id = some t) (txn : TxnOk next.nextTxnId next.lastCommitTs id t)
    (phase : PhaseOk next.lastCommitTs next.commitMutex id (next.phase id) (some t)) : Control next where
  start := by rw [acts.nextTxnId]; exact control.start
  clock := ⟨le_trans control.clock.1 acts.grows, clock⟩
  txns := by
    intro other u found
    by_cases same : other = id
    · subst same
      rw [here] at found
      cases found
      exact txn
    · rw [acts.txnMap other same] at found
      exact (control.txns other u found).mono (le_of_eq acts.nextTxnId.symm) acts.grows
  phases := by
    intro other
    by_cases same : other = id
    · subst same
      rw [here]
      exact phase
    · rw [acts.txnMap other same, acts.phase other same]
      exact (control.phases other).frame acts.grows (acts.mutex other same)
  unborn := by
    intro other unborn
    have known := txn.known
    have apart : other ≠ id := by omega
    rw [acts.phase other apart]
    exact control.unborn other (by rw [← acts.nextTxnId]; exact unborn)
  registry := control.registry.frame acts.running acts.registeredTs
  published := by rw [acts.running]; exact le_trans control.published acts.grows
  watermarks := by
    intro w member
    rw [acts.gc] at member
    refine (control.watermarks w member).frame acts.grows ?_
    intro other readTs registered
    exact .inl (by rw [← acts.registeredTs]; exact registered)

/-- Tables, pages and version links are no part of the control state. -/
structure SameControl (s next : Database) : Prop where
  nextTxnId : next.nextTxnId = s.nextTxnId
  lastCommitTs : next.lastCommitTs = s.lastCommitTs
  txnMap : next.txnMap = s.txnMap
  running : next.runningTxns = s.runningTxns
  mutex : next.commitMutex = s.commitMutex
  phase : next.phase = s.phase
  gc : next.gcWatermarks = s.gcWatermarks

section
variable (same : SameControl s next)
include same

theorem SameControl.registeredTs (id : Int) : next.registeredTs id = s.registeredTs id := by
  simp only [Database.registeredTs, same.phase, same.txnMap]

theorem SameControl.old {ts : Int} (old : s.Old ts) : next.Old ts := by
  refine old.frame (le_of_eq same.lastCommitTs.symm) ?_
  intro id readTs registered
  rw [same.registeredTs] at registered
  exact .inl registered

theorem Control.congr (control : Control s) : Control next where
  start := by rw [same.nextTxnId]; exact control.start
  clock := by rw [same.lastCommitTs]; exact control.clock
  txns := by rw [same.nextTxnId, same.lastCommitTs, same.txnMap]; exact control.txns
  phases := by rw [same.lastCommitTs, same.mutex, same.phase, same.txnMap]; exact control.phases
  unborn := by rw [same.nextTxnId, same.phase]; exact control.unborn
  registry := control.registry.frame same.running same.registeredTs
  published := by rw [same.running, same.lastCommitTs]; exact control.published
  watermarks := by
    intro w member
    rw [same.gc] at member
    exact same.old (control.watermarks w member)

end

theorem registeredTs_begun (isolationLevel : IsolationLevel) (runningTxns : Watermark) (id : Int) :
    (s.begun isolationLevel runningTxns).registeredTs id =
      if id = s.nextTxnId then some s.lastCommitTs else s.registeredTs id := by
  split
  · next same =>
    subst same
    simp [registeredTs, begun]
  · next apart => simp only [registeredTs, begun, update_of_ne apart]

/-- Whoever else is inside the commit mutex stays inside. -/
def OthersHold (s : Database) (id : Int) (mutex : Option Int) : Prop :=
  ∀ other, other ≠ id → s.commitMutex = some other → mutex = some other

variable {runningTxns : Watermark}

theorem Registry.begun (registry : s.Registry) (unborn : s.phase s.nextTxnId = none)
    (isolationLevel : IsolationLevel)
    (counts : ∀ ts, runningTxns.count ts = s.runningTxns.count ts + if ts = s.lastCommitTs then 1 else 0) :
    (s.begun isolationLevel runningTxns).Registry := by
  obtain ⟨ids, distinct, members, counted⟩ := registry
  have fresh : s.nextTxnId ∉ ids := by
    intro member
    obtain ⟨readTs, registered⟩ := (members _).mp member
    simp only [registeredTs, unborn, reduceCtorEq] at registered
  refine ⟨s.nextTxnId :: ids, List.nodup_cons.mpr ⟨fresh, distinct⟩, ?_, ?_⟩
  · intro id
    rw [registeredTs_begun, List.mem_cons, members id]
    by_cases same : id = s.nextTxnId <;> simp [same]
  · intro ts
    have others : ids.countP (fun id => (s.begun isolationLevel runningTxns).registeredTs id = some ts) =
        ids.countP fun id => s.registeredTs id = some ts := by
      apply List.countP_congr
      intro id member
      have apart : id ≠ s.nextTxnId := fun same => fresh (same ▸ member)
      rw [registeredTs_begun, if_neg apart]
    rw [List.countP_cons, others, ← counted, registeredTs_begun]
    show runningTxns.count ts = _
    rw [counts]
    simp [eq_comm]

theorem Control.begun (control : Control s) (isolationLevel : IsolationLevel)
    (added : s.runningTxns.addTxn s.lastCommitTs = some runningTxns) :
    Control (s.begun isolationLevel runningTxns) := by
  obtain ⟨running, same, commitTs, counts⟩ := Watermark.addTxn_eq control.published
  rw [added] at same
  cases same
  have start := control.start
  constructor
  · show txnStartId ≤ s.nextTxnId + 1
    omega
  · exact control.clock
  · intro id t found
    rcases of_update found with ⟨rfl, new⟩ | ⟨-, old⟩
    · cases new
      refine ⟨control.start, Int.lt_succ _, ⟨control.clock.1, le_refl _⟩, ?_, List.nodup_nil⟩
      intro committed
      cases committed
    · exact (control.txns id t old).mono (Int.le_of_lt (Int.lt_succ _)) (le_refl _)
  · intro id
    by_cases same : id = s.nextTxnId
    · subst same
      simp only [Database.begun, update_self]
      exact .inl rfl
    · simp only [Database.begun, update_of_ne same]
      exact control.phases id
  · intro id unborn
    have later : s.nextTxnId + 1 ≤ id := unborn
    have apart : id ≠ s.nextTxnId := by omega
    simp only [Database.begun, update_of_ne apart]
    exact control.unborn id (by omega)
  · exact control.registry.begun (control.unborn _ (le_refl _)) isolationLevel counts
  · show runningTxns.commitTs ≤ s.lastCommitTs
    rw [commitTs]
    exact control.published
  · intro w member
    refine (control.watermarks w member).frame (le_refl _) ?_
    intro id readTs registered
    rw [registeredTs_begun] at registered
    split at registered
    · cases registered
      exact .inr (le_refl _)
    · exact .inl registered

theorem Registry.left (registry : s.Registry) (registered : s.registeredTs id = some readTs)
    (counts : ∀ ts, runningTxns.count ts + (if ts = readTs then 1 else 0) = s.runningTxns.count ts) :
    ({ s with runningTxns := runningTxns, commitMutex := mutex }.setPhase id none).Registry := by
  obtain ⟨ids, distinct, members, counted⟩ := registry
  have after : ∀ other, registeredTs ({ s with
      runningTxns := runningTxns, commitMutex := mutex }.setPhase id none) other =
      if other = id then none else s.registeredTs other := by
    intro other
    split
    · next same => simp only [same, registeredTs, setPhase, update_self]
    · next apart => simp only [registeredTs, setPhase, update_of_ne apart]
  have member : id ∈ ids := (members id).mpr ⟨readTs, registered⟩
  refine ⟨ids.erase id, distinct.erase id, ?_, ?_⟩
  · intro other
    rw [distinct.mem_erase_iff, after, members other]
    by_cases same : other = id <;> simp
  · intro ts
    have others : (ids.erase id).countP (fun other => registeredTs ({ s with
        runningTxns := runningTxns, commitMutex := mutex }.setPhase id none) other = some ts) =
        (ids.erase id).countP fun other => s.registeredTs other = some ts := by
      apply List.countP_congr
      intro other inside
      rw [after, if_neg (distinct.mem_erase_iff.mp inside).1]
    have total := counts ts
    rw [counted, (List.perm_cons_erase member).countP_eq, List.countP_cons, registered] at total
    rw [others]
    show runningTxns.count ts = _
    by_cases same : ts = readTs
    · subst same
      simpa using total
    · simpa [same, Ne.symm same] using total

theorem Control.left (control : Control s) {commitTs : Option Int}
    (phase : s.phase id = some (.leaving readTs commitTs))
    (counts : ∀ ts, runningTxns.count ts + (if ts = readTs then 1 else 0) = s.runningTxns.count ts)
    (published : runningTxns.commitTs ≤ s.lastCommitTs) (others : s.OthersHold id mutex) :
    Control ({ s with runningTxns := runningTxns, commitMutex := mutex }.setPhase id none) := by
  have registered : s.registeredTs id = some readTs := by simp only [registeredTs, phase]
  constructor
  · exact control.start
  · exact control.clock
  · exact control.txns
  · intro other
    by_cases same : other = id
    · subst same
      have ok := control.phases other
      simp only [setPhase, update_self]
      cases found : s.txnMap other with
      | none => trivial
      | some t =>
        cases commitTs with
        | none | some commitTs =>
          intro live
          rcases live with running | tainted <;> simp_all [PhaseOk]
    · simp only [setPhase, update_of_ne same]
      exact (control.phases other).frame (le_refl _) fun held => ⟨rfl, others other same held⟩
  · intro other unborn
    have before := control.unborn other unborn
    by_cases same : other = id
    · subst same
      rw [phase] at before
      cases before
    · simpa only [setPhase, update_of_ne same] using before
  · exact control.registry.left registered counts
  · exact published
  · intro w member
    refine (control.watermarks w member).frame (le_refl _) ?_
    intro other before found
    by_cases same : other = id
    · subst same
      simp only [registeredTs, setPhase, update_self, reduceCtorEq] at found
    · simp only [registeredTs, setPhase, update_of_ne same] at found
      exact .inl found

theorem Control.readWatermark (control : Control s) : Control s.readWatermark := by
  have same : ∀ id, s.readWatermark.registeredTs id = s.registeredTs id := fun _ => rfl
  refine ⟨control.start, control.clock, control.txns, control.phases, control.unborn,
    control.registry.frame rfl same, control.published, ?_⟩
  intro w member
  have frame : ∀ ts, s.Old ts → s.readWatermark.Old ts := fun ts old =>
    old.frame (le_refl _) fun id readTs registered => .inl registered
  rcases List.mem_cons.mp member with now | before
  · subst now
    refine ⟨?_, ?_⟩
    · rcases s.runningTxns.getWatermark_cases with ⟨idle, -⟩ | counted
      · rw [idle]
        exact control.published
      · obtain ⟨id, registered⟩ := control.registry.of_counted counted
        exact control.registered_le registered
    · intro id readTs registered
      exact Watermark.getWatermark_le (control.registry.counted registered)
  · exact frame w (control.watermarks w before)

variable {watermark : Int} {txnMap : Int → Option Transaction}

theorem sweep_some (found : sweep watermark txnMap id = some t) :
    txnMap id = some t ∧ collectible watermark t = false := by
  obtain ⟨before, kept⟩ := Option.filter_eq_some_iff.mp found
  exact ⟨before, by simpa using kept⟩

theorem sweep_kept (found : txnMap id = some t) (kept : collectible watermark t = false) :
    sweep watermark txnMap id = some t := by
  simp only [sweep, found, Option.filter_some, kept, Bool.not_false, if_true]

theorem not_collectible_of_live (live : t.Live) : collectible watermark t = false := by
  rcases live with running | tainted <;> simp [collectible, *]

/-- Sweeping below a watermark keeps every transaction whose finalization is not over. -/
theorem sweep_phaseOk {phase : Option Phase}
    (ok : PhaseOk lastCommitTs mutex id phase (txnMap id))
    (reader : ∀ readTs commitTs, phase = some (.leaving readTs (some commitTs)) →
      watermark ≤ readTs ∧ readTs < commitTs) :
    PhaseOk lastCommitTs mutex id phase (sweep watermark txnMap id) := by
  cases found : txnMap id with
  | none =>
    have gone : sweep watermark txnMap id = none := by simp [sweep, found]
    rwa [gone, ← found]
  | some t =>
    rw [found] at ok
    by_cases kept : collectible watermark t = false
    · rwa [sweep_kept found kept]
    · have gone : sweep watermark txnMap id = none := by simp [sweep, found, kept]
      rw [gone]
      rcases phase with _ | phase
      · trivial
      cases phase with
      | idle => exact kept (not_collectible_of_live ok)
      | verifying locked rest walk => exact kept (not_collectible_of_live (.inl ok.2))
      | stamping commitTs rest => exact kept (not_collectible_of_live (.inl ok.2.2.2.1))
      | rollingBack rest => exact kept (not_collectible_of_live ok.1)
      | leaving readTs commitTs =>
        cases commitTs with
        | none => exact ok.1
        | some commitTs =>
          have bound := reader readTs commitTs rfl
          obtain ⟨-, -, committed, -, stamped⟩ := ok
          apply kept
          simp only [collectible, committed]
          simp
          omega

theorem registeredTs_sweep {gcWatermarks : List Int}
    (phases : ∀ id, PhaseOk s.lastCommitTs s.commitMutex id (s.phase id) (sweep watermark s.txnMap id)) :
    registeredTs { s with txnMap := sweep watermark s.txnMap, gcWatermarks := gcWatermarks } id =
      s.registeredTs id := by
  have ok := phases id
  unfold registeredTs
  simp only
  split
  · rfl
  · rfl
  · next phase notLeaving here =>
    cases found : sweep watermark s.txnMap id with
    | some t => rw [(sweep_some found).1]
    | none =>
      rw [found, here] at ok
      cases phase <;> first | exact ok.elim | exact absurd rfl (notLeaving _ _)

section
variable (control : Control s)
include control

section
variable (pending : watermark ∈ s.gcWatermarks)
include pending

theorem Control.phases_sweep (id : Int) :
    PhaseOk s.lastCommitTs s.commitMutex id (s.phase id) (sweep watermark s.txnMap id) := by
  refine sweep_phaseOk (control.phases id) ?_
  intro readTs commitTs leaving
  refine ⟨(control.watermarks watermark pending).2 id readTs (by simp only [registeredTs, leaving]), ?_⟩
  obtain ⟨t, found, -, -, committed, rfl, rfl⟩ := control.leaving_committed leaving
  exact ((control.txns id t found).stamped committed).1

theorem Control.registeredTs_collected (id : Int) :
    registeredTs { s with
      txnMap := sweep watermark s.txnMap
      gcWatermarks := s.gcWatermarks.erase watermark } id = s.registeredTs id :=
  registeredTs_sweep (control.phases_sweep pending)

theorem Control.collected :
    Control { s with
      txnMap := sweep watermark s.txnMap
      gcWatermarks := s.gcWatermarks.erase watermark } := by
  have same := control.registeredTs_collected pending
  refine ⟨control.start, control.clock, ?_, control.phases_sweep pending, control.unborn,
    control.registry.frame rfl same, control.published, ?_⟩
  · intro id t found
    exact control.txns id t (sweep_some found).1
  · intro w member
    refine (control.watermarks w (List.mem_of_mem_erase member)).frame (le_refl _) ?_
    intro id readTs registered
    rw [same] at registered
    exact .inl registered

end

end

theorem actsOn_setTxn {changed : Transaction} (ready : s.Ready id t)
    (snapshot : changed.readTs = t.readTs) : ActsOn s (s.setTxn id changed) id := by
  refine ⟨rfl, le_refl _, rfl, rfl, ?_, fun _ _ => rfl, fun _ _ held => ⟨rfl, held⟩, ?_⟩
  · intro other apart
    exact update_of_ne apart _ _
  · simp [registeredTs, setTxn, ready.found, update_self, Option.map_some, snapshot]

/-- The log of a row in the snapshot of the transaction that is about to write it. -/
def Captured (s : Database) (id : Int) (undo : UndoLog) : Prop :=
  ∃ (t : Transaction) (e : Entry) (heap : TableHeap) (tupleMeta : TupleMeta) (row : RowBytes),
    s.Ready id t ∧ s.tables e.oid = some heap ∧ e.rid.pageId ∈ heap.pageDirectory ∧
    s.store.getRow e.rid = some (tupleMeta, row) ∧ tupleMeta.ts ≤ t.readTs ∧ undo = s.undoLogOf e.rid tupleMeta row

/-- What a statement may do to the record of its transaction. -/
structure Amends (s : Database) (id : Int) (t t' : Transaction) : Prop where
  live : t'.Live
  readTs : t'.readTs = t.readTs
  isolationLevel : t'.isolationLevel = t.isolationLevel
  commitTs : t'.commitTs = t.commitTs
  scans : t.scanPredicates ⊆ t'.scanPredicates
  logs : ∃ new, t'.undoLogs = t.undoLogs ++ new ∧ ∀ undo ∈ new, s.Captured id undo
  distinct : t.writeSet.Nodup → t'.writeSet.Nodup

theorem amends_refl (live : t.Live) : Amends s id t t :=
  ⟨live, rfl, rfl, rfl, fun _ member => member, ⟨[], by simp⟩, fun distinct => distinct⟩

theorem amends_scanned (live : t.Live) (oid : Nat) (p : ScanPredicate) :
    Amends s id t (t.appendScanPredicate oid p) :=
  { amends_refl live with scans := fun _ member => List.mem_cons_of_mem _ member }

theorem amends_logged (live : t.Live) {undo : UndoLog} (captured : s.Captured id undo) :
    Amends s id t (Transaction.logged t undo) :=
  ⟨live, rfl, rfl, rfl, fun _ member => member, ⟨[undo], rfl, by simpa using captured⟩, fun distinct => distinct⟩

theorem amends_tainted (live : t.Live) : Amends s id t t.setTainted := by
  unfold Transaction.setTainted
  split
  · exact { amends_refl live with live := .inr rfl }
  · exact amends_refl live

theorem Amends.wrote {t' : Transaction} (amends : Amends s id t t') (e : Entry) :
    Amends s id t (t'.appendWriteSet e) := by
  unfold Transaction.appendWriteSet
  split
  · exact amends
  · next fresh => exact { amends with distinct := fun distinct => List.nodup_cons.mpr ⟨fresh, amends.distinct distinct⟩ }

theorem Amends.grows {t' : Transaction} (amends : Amends s id t t') : t.undoLogs <+: t'.undoLogs := by
  obtain ⟨new, logs, -⟩ := amends.logs
  rw [logs]
  exact List.prefix_append _ _

theorem Control.setTxn (control : Control s) {t' : Transaction} (ready : s.Ready id t)
    (amends : Amends s id t t') : Control (s.setTxn id t') := by
  have ok := control.txns id t ready.found
  have live := amends.live
  refine control.actsOn (actsOn_setTxn ready amends.readTs) control.clock.2 (update_self _ _ _) ?_ ?_
  · refine ⟨ok.old, ok.known, by rw [amends.readTs]; exact ok.snapshot, ?_, amends.distinct ok.distinct⟩
    rcases live with running | tainted <;> simp_all
  · rw [show (s.setTxn id t').phase id = some .idle from ready.idle]
    exact live

variable {phase : Phase}

theorem actsOn_setPhase (found : s.txnMap id = some t) (registered : s.registeredTs id = some t.readTs)
    (staying : ∀ r c, phase ≠ .leaving r c) (others : s.OthersHold id mutex) :
    ActsOn s ({ s with commitMutex := mutex }.setPhase id (some phase)) id := by
  refine ⟨rfl, le_refl _, rfl, rfl, fun _ _ => rfl, ?_, fun other apart held =>
    ⟨rfl, others other apart held⟩, ?_⟩
  · intro other apart
    exact update_of_ne apart _ _
  · rw [registered]
    simp only [registeredTs, setPhase, update_self]
    simp [found]

theorem Control.setPhase (control : Control s) (found : s.txnMap id = some t)
    (registered : s.registeredTs id = some t.readTs) (staying : ∀ r c, phase ≠ .leaving r c)
    (ok : PhaseOk s.lastCommitTs mutex id (some phase) (some t)) (others : s.OthersHold id mutex) :
    Control ({ s with commitMutex := mutex }.setPhase id (some phase)) := by
  refine control.actsOn (actsOn_setPhase found registered staying others) control.clock.2 found
    (control.txns id t found) ?_
  have here : ({ s with commitMutex := mutex }.setPhase id (some phase)).phase id = some phase :=
    update_self _ _ _
  rw [here]
  exact ok

@[simp] theorem readTs_appendWriteSet (t : Transaction) (e : Entry) : (t.appendWriteSet e).readTs = t.readTs := by
  unfold Transaction.appendWriteSet
  split <;> rfl

theorem Control.finalizing (control : Control s) (here : s.phase id = some phase)
    (staying : ∀ r c, phase ≠ .leaving r c) :
    ∃ t, s.txnMap id = some t ∧ s.registeredTs id = some t.readTs ∧
      PhaseOk s.lastCommitTs s.commitMutex id (some phase) (some t) := by
  have ok := control.phases id
  rw [here] at ok
  cases found : s.txnMap id with
  | none =>
    rw [found] at ok
    cases phase <;> first | exact ok.elim | exact absurd rfl (staying _ _)
  | some t =>
    rw [found] at ok
    refine ⟨t, rfl, ?_, ok⟩
    simp only [registeredTs, here, found, Option.map_some]

theorem Control.live_of_phase (control : Control s) (here : s.phase id = some phase)
    (staying : ∀ r c, phase ≠ .leaving r c) (found : s.txnMap id = some t) : t.Live := by
  obtain ⟨u, same, rest⟩ := control.finalizing here staying
  cases found.symm.trans same
  exact PhaseOk.live rest.2 staying

variable {commitTs : Int}

section
variable (control : Control s)
include control

theorem Control.actsOn_publish (here : s.phase id = some (.stamping commitTs [])) (found : s.txnMap id = some t) :
    ActsOn s (({ s with lastCommitTs := commitTs }.setTxn id
      { t with commitTs := commitTs, state := .committed }).setPhase id
        (some (.leaving t.readTs (some commitTs)))) id := by
  obtain ⟨u, same, registered, held, ts, -⟩ := control.finalizing here (by simp)
  rw [found] at same
  cases same
  refine ⟨rfl, by simp only [Database.setPhase, Database.setTxn]; omega, rfl, rfl,
    fun other apart => update_of_ne apart _ _,
    fun other apart => update_of_ne apart _ _, ?_, ?_⟩
  · intro other apart taken
    rw [held] at taken
    exact absurd (Option.some.inj taken).symm apart
  · rw [registered]
    simp [registeredTs, Database.setPhase]

theorem Control.publish (here : s.phase id = some (.stamping commitTs [])) (found : s.txnMap id = some t) :
    Control (({ s with lastCommitTs := commitTs }.setTxn id
      { t with commitTs := commitTs, state := .committed }).setPhase id
        (some (.leaving t.readTs (some commitTs)))) := by
  obtain ⟨u, same, -, held, ts, room, -⟩ := control.finalizing here (by simp)
  have ok := control.txns id t found
  have snapshot := ok.snapshot
  refine control.actsOn (control.actsOn_publish here found) room (update_self _ _ _) ?_ ?_
  · refine ⟨ok.old, ok.known, ⟨snapshot.1, ?_⟩, fun _ => ⟨?_, le_refl _⟩, ok.distinct⟩
    · simp only [Database.setPhase, Database.setTxn]
      omega
    · simp only
      omega
  · simp only [Database.setPhase, update_self]
    exact ⟨held, rfl, rfl, rfl, rfl⟩

theorem Control.actsOn_markAborted (here : s.phase id = some (.rollingBack [])) (found : s.txnMap id = some t) :
    ActsOn s ((s.setTxn id { t with state := .aborted }).setPhase id (some (.leaving t.readTs none))) id := by
  obtain ⟨u, same, registered, -⟩ := control.finalizing here (by simp)
  rw [found] at same
  cases same
  refine ⟨rfl, le_refl _, rfl, rfl, fun other apart => update_of_ne apart _ _,
    fun other apart => update_of_ne apart _ _, fun _ _ taken => ⟨rfl, taken⟩, ?_⟩
  rw [registered]
  simp [registeredTs, Database.setPhase]

theorem Control.markAborted (here : s.phase id = some (.rollingBack [])) (found : s.txnMap id = some t) :
    Control ((s.setTxn id { t with state := .aborted }).setPhase id (some (.leaving t.readTs none))) := by
  have ok := control.txns id t found
  refine control.actsOn (control.actsOn_markAborted here found) control.clock.2
    (update_self _ _ _) ?_ ?_
  · exact ⟨ok.old, ok.known, ok.snapshot, fun committed => (by cases committed), ok.distinct⟩
  · simp only [Database.setPhase, update_self]
    exact ⟨ok.snapshot.2, rfl, rfl⟩

end

/-- What a step does to the control state. -/
inductive ControlStep (s : Database) (a : Action) : Database → Prop
  | same : ControlStep s a s
  | begun {isolationLevel runningTxns} (added : s.runningTxns.addTxn s.lastCommitTs = some runningTxns) :
      ControlStep s a (s.begun isolationLevel runningTxns)
  | amended {id t t'} (ready : s.Ready id t) (amends : Amends s id t t') :
      ControlStep s a (s.setTxn id t')
  | moved {id : Int} {t phase mutex} (found : s.txnMap id = some t) (live : t.Live)
      (registered : s.registeredTs id = some t.readTs) (staying : ∀ r c, phase ≠ .leaving r c)
      (ok : PhaseOk s.lastCommitTs mutex id (some phase) (some t)) (others : s.OthersHold id mutex) :
      ControlStep s a ({ s with commitMutex := mutex }.setPhase id (some phase))
  | published {id : Int} {commitTs t} (here : s.phase id = some (.stamping commitTs []))
      (found : s.txnMap id = some t) :
      ControlStep s a (({ s with lastCommitTs := commitTs }.setTxn id
        { t with commitTs := commitTs, state := .committed }).setPhase id
          (some (.leaving t.readTs (some commitTs))))
  | markedAborted {id : Int} {t} (here : s.phase id = some (.rollingBack [])) (found : s.txnMap id = some t) :
      ControlStep s a ((s.setTxn id { t with state := .aborted }).setPhase id (some (.leaving t.readTs none)))
  | left {id : Int} {readTs commitTs mutex runningTxns} (phase : s.phase id = some (.leaving readTs commitTs))
      (counts : ∀ ts, runningTxns.count ts + (if ts = readTs then 1 else 0) = s.runningTxns.count ts)
      (published : runningTxns.commitTs ≤ s.lastCommitTs) (others : s.OthersHold id mutex) :
      ControlStep s a ({ s with runningTxns := runningTxns, commitMutex := mutex }.setPhase id none)
  | watermarkRead : ControlStep s a s.readWatermark
  | collected {watermark : Int} (sweeps : a = .collect watermark) (pending : watermark ∈ s.gcWatermarks) :
      ControlStep s a
        { s with txnMap := sweep watermark s.txnMap, gcWatermarks := s.gcWatermarks.erase watermark }

variable {a : Action} {events : List Event}

section
variable (control : Control s)
include control

theorem Control.moves {before phase : Phase} (here : s.phase id = some before)
    (was : ∀ r c, before ≠ .leaving r c) (staying : ∀ r c, phase ≠ .leaving r c)
    (ok : ∀ t, s.txnMap id = some t → PhaseOk s.lastCommitTs s.commitMutex id (some before) (some t) →
      PhaseOk s.lastCommitTs mutex id (some phase) (some t))
    (others : s.OthersHold id mutex) :
    ControlStep s a ({ s with commitMutex := mutex }.setPhase id (some phase)) := by
  obtain ⟨t, found, rest⟩ := control.finalizing here was
  exact .moved found (PhaseOk.live rest.2 was) rest.1 staying (ok t found rest.2) others

variable {locked : Bool} {rest : List Entry}

theorem Control.verifyMoves {after : List Entry} {walk walk' : WalkAt}
    (here : s.phase id = some (.verifying locked rest walk)) :
    ControlStep s a (s.setPhase id (some (.verifying locked after walk'))) :=
  control.moves here (by simp) (by simp) (fun _ _ ok => ok) fun _ _ held => held

theorem Control.rejects {walk : WalkAt} (here : s.phase id = some (.verifying locked rest walk))
    (found : s.txnMap id = some t) : ControlStep s a (s.rejectCommit id t locked) := by
  obtain ⟨-, -, -, held, -⟩ := control.finalizing here (by simp)
  refine control.moves here (by simp) (by simp) ?_ ?_
  · intro u same ok
    cases found.symm.trans same
    exact ⟨.inl ok.2, List.Subset.refl _, (control.txns id t found).distinct⟩
  · intro other apart taken
    cases locked with
    | false => exact taken
    | true =>
      rw [(held rfl).1] at taken
      exact absurd (Option.some.inj taken).symm apart

theorem Control.stampMoves (e : Entry) (here : s.phase id = some (.stamping commitTs rest)) :
    ControlStep s a (s.setPhase id (some (.stamping commitTs (rest.erase e)))) := by
  refine control.moves here (by simp) (by simp) ?_ fun _ _ held => held
  rintro t - ⟨held, ts, room, running, inside, distinct⟩
  exact ⟨held, ts, room, running, fun x member => inside (List.mem_of_mem_erase member), distinct.erase e⟩

theorem Control.rollbackMoves (e : Entry) (here : s.phase id = some (.rollingBack rest)) :
    ControlStep s a (s.setPhase id (some (.rollingBack (rest.erase e)))) := by
  refine control.moves here (by simp) (by simp) ?_ fun _ _ held => held
  rintro t - ⟨live, inside, distinct⟩
  exact ⟨live, fun x member => inside (List.mem_of_mem_erase member), distinct.erase e⟩

theorem Control.leaves {runningTxns : Watermark} {commitTs : Option Int} (before : Watermark)
    (phase : s.phase id = some (.leaving readTs commitTs)) (counts : before.count = s.runningTxns.count)
    (removed : before.removeTxn readTs = some runningTxns) (published : before.commitTs ≤ s.lastCommitTs)
    (others : s.OthersHold id mutex) :
    ControlStep s a ({ s with runningTxns := runningTxns, commitMutex := mutex }.setPhase id none) := by
  have registered : s.registeredTs id = some readTs := by simp only [registeredTs, phase]
  have counted := control.registry.counted registered
  rw [← counts] at counted
  obtain ⟨w, same, last, left⟩ := Watermark.removeTxn_eq counted
  rw [removed] at same
  cases same
  exact .left phase (by rw [← counts]; exact left) (by rw [last]; exact published) others

theorem Control.acts (steps : Steps s a next events) :
    ∃ after, ControlStep s a after ∧ SameControl after next := by
  have exactly : ∀ {after}, ControlStep s a after → ∃ after', ControlStep s a after' ∧ SameControl after' after :=
    fun step => ⟨_, step, ⟨rfl, rfl, rfl, rfl, rfl, rfl, rfl⟩⟩
  cases steps with
  | began added => exact exactly (.begun added)
  | scanned ready table serializable => exact exactly (.amended ready (amends_scanned ready.live _ _))
  | cancelled ready => exact exactly (.amended ready { amends_refl ready.live with live := ready.live })
  | inserted ready table grew placed | rewrote ready table listed base own stored =>
    exact ⟨_, .amended ready ((amends_refl ready.live).wrote _), ⟨rfl, rfl, rfl, rfl, rfl, rfl, rfl⟩⟩
  | versioned ready table listed base foreign inSnapshot stored =>
    have captured : s.Captured _ _ := ⟨_, _, _, _, _, ready, table, listed, base, inSnapshot, rfl⟩
    exact ⟨_, .amended ready ((amends_logged ready.live captured).wrote _), ⟨rfl, rfl, rfl, rfl, rfl, rfl, rfl⟩⟩
  | modifyConflict ready base foreign outside => exact exactly (.amended ready (amends_tainted ready.live))
  | versionTooLarge ready table listed base inSnapshot =>
    have captured : s.Captured _ _ := ⟨_, _, _, _, _, ready, table, listed, base, inSnapshot, rfl⟩
    exact exactly (.amended ready (amends_logged ready.live captured))
  | commitStarted ready running =>
    refine exactly (control.moves ready.idle (by simp) (by simp) ?_ fun _ _ held => held)
    intro u same _
    cases ready.found.symm.trans same
    exact ⟨fun inside => (by cases inside), running⟩
  | lockedToVerify phase found free room =>
    exact exactly (control.moves phase (by simp) (by simp) (fun _ _ ok => ⟨fun _ => ⟨rfl, room⟩, ok.2⟩)
      (by simp [OthersHold, free]))
  | lockedToStamp ready running unchecked free room =>
    refine exactly (control.moves ready.idle (by simp) (by simp) ?_ (by simp [OthersHold, free]))
    intro u same _
    cases ready.found.symm.trans same
    exact ⟨rfl, rfl, room, running, List.Subset.refl _, (control.txns _ _ same).distinct⟩
  | verifySkipped phase member dropped | verifyPassed phase found member base settled unread inSnapshot
  | verifyWalking phase found member table base tested | linkEnded phase missing
  | linkPassed phase found resolved unread inSnapshot | linkFollowed phase found resolved unread newer =>
    exact exactly (control.verifyMoves phase)
  | verifyRejected phase found | linkRejected phase found => exact exactly (control.rejects phase found)
  | verified phase found =>
    refine exactly (control.moves phase (by simp) (by simp) ?_ fun _ _ held => held)
    rintro u same ⟨inside, running⟩
    obtain ⟨held, room⟩ := inside rfl
    cases found.symm.trans same
    exact ⟨held, rfl, room, running, List.Subset.refl _, (control.txns _ _ same).distinct⟩
  | stampSkipped phase member dropped => exact exactly (control.stampMoves _ phase)
  | stamped phase member table base stored =>
    exact ⟨_, control.stampMoves _ phase, ⟨rfl, rfl, rfl, rfl, rfl, rfl, rfl⟩⟩
  | published phase found => exact exactly (.published phase found)
  | abortStarted ready =>
    refine exactly (control.moves ready.idle (by simp) (by simp) ?_ fun _ _ held => held)
    intro u same live
    cases ready.found.symm.trans same
    exact ⟨live, List.Subset.refl _, (control.txns _ _ same).distinct⟩
  | rollbackSkipped phase member dropped => exact exactly (control.rollbackMoves _ phase)
  | restored phase found member table head valid own logged base stored
  | tombstoned phase member table unowned base stored =>
    exact ⟨_, control.rollbackMoves _ phase, ⟨rfl, rfl, rfl, rfl, rfl, rfl, rfl⟩⟩
  | rollbackFailed phase found table refused =>
    exact exactly (control.moves phase (by simp) (by simp) (fun _ _ ok => ok.1) fun _ _ held => held)
  | markedAborted phase found => exact exactly (.markedAborted phase found)
  | @leftCommitted id readTs commitTs runningTxns phase removed =>
    obtain ⟨-, -, held, last, -⟩ := control.leaving_committed phase
    refine exactly (control.leaves (s.runningTxns.updateCommitTs commitTs) phase rfl removed (le_of_eq last) ?_)
    intro other apart taken
    rw [held] at taken
    exact absurd (Option.some.inj taken).symm apart
  | leftAborted phase removed => exact exactly (control.leaves _ phase rfl removed control.published fun _ _ held => held)
  | watermarkRead => exact exactly .watermarkRead
  | collected pending => exact exactly (.collected rfl pending)
  | _ => exact ⟨s, .same, ⟨rfl, rfl, rfl, rfl, rfl, rfl, rfl⟩⟩

theorem Control.step (steps : Steps s a next events) : Control next := by
  obtain ⟨after, step, same⟩ := control.acts steps
  refine Control.congr same ?_
  cases step with
  | same => exact control
  | begun added => exact control.begun _ added
  | amended ready amends => exact control.setTxn ready amends
  | moved found live registered staying ok others => exact control.setPhase found registered staying ok others
  | published here found => exact control.publish here found
  | markedAborted here found => exact control.markAborted here found
  | left phase counts published others => exact control.left phase counts published others
  | watermarkRead => exact control.readWatermark
  | collected sweeps pending => exact control.collected pending

end

/-- A record a step leaves, next to the one it was made from. -/
structure Follows (s : Database) (id : Int) (t t' : Transaction) : Prop where
  live : t'.Live → t.Live
  logs : ∃ new, t'.undoLogs = t.undoLogs ++ new ∧ ∀ undo ∈ new, s.Captured id undo

theorem Control.record (control : Control s) (steps : Steps s a next events) {t' : Transaction}
    (here : next.txnMap id = some t') :
    (∃ t, s.txnMap id = some t ∧ Follows s id t t') ∨ (s.nextTxnId ≤ id ∧ t'.undoLogs = []) := by
  have kept : ∀ {u}, s.txnMap id = some u → ∃ t, s.txnMap id = some t ∧ Follows s id t u :=
    fun found => ⟨_, found, fun live => live, [], by simp⟩
  have updated : ∀ {actor u u'}, s.txnMap actor = some u → Follows s actor u u' →
      update s.txnMap actor (some u') id = some t' → ∃ t, s.txnMap id = some t ∧ Follows s id t t' := by
    intro actor u u' found follows after
    rcases of_update after with ⟨rfl, new⟩ | ⟨-, old⟩
    · cases new
      exact ⟨u, found, follows⟩
    · exact kept old
  obtain ⟨after, step, same⟩ := control.acts steps
  rw [same.txnMap] at here
  cases step with
  | same | moved | left | watermarkRead => exact .inl (kept here)
  | begun added =>
    rcases of_update here with ⟨same, new⟩ | ⟨-, old⟩
    · cases new
      exact .inr ⟨le_of_eq same.symm, rfl⟩
    · exact .inl (kept old)
  | amended ready amends => exact .inl (updated ready.found ⟨fun _ => ready.live, amends.logs⟩ here)
  | published phase found | markedAborted phase found =>
    exact .inl (updated found ⟨fun _ => control.live_of_phase phase (by simp) found, [], by simp⟩ here)
  | collected sweeps pending => exact .inl (kept (sweep_some here).1)

theorem Initial.control (initial : Initial s) : Control s := by
  have unregistered : ∀ id, s.registeredTs id = none := by
    intro id
    simp only [registeredTs, initial.phase id]
  refine ⟨le_of_eq initial.nextTxnId.symm, initial.clock, ?_, ?_, fun id _ => initial.phase id, ?_, ?_, ?_⟩
  · intro id t found
    rw [initial.txnMap id] at found
    cases found
  · intro id
    rw [initial.phase id, initial.txnMap id]
    trivial
  · refine ⟨[], List.nodup_nil, ?_, ?_⟩
    · simp [unregistered]
    · intro ts
      rw [initial.runningTxns]
      rfl
  · rw [initial.runningTxns]
    exact le_refl _
  · simp [initial.gcWatermarks]

end Database

theorem control_run {meets : Database → Action → Prop} {log : List Event} {s : Database}
    (run : Run system meets log s) : s.Control := by
  refine Run.invariant (I := fun _ s => s.Control) (fun s initial => Database.Initial.control initial) ?_ run
  intro log s next a events _ control _ taken
  exact control.step (Database.steps_of_step taken)

end BumbleBee.Mvcc
