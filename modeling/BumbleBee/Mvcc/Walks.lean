import BumbleBee.Mvcc.Links

/-!
The version walk. Following undo links from any head ends in every reachable state,
whatever was rolled back, swept or reused on the way: a log names a version older
than itself, and a step only appends logs or cuts a walk short.
-/

namespace BumbleBee.Mvcc
open Library.Transition Library.Versions Storage Concurrency Function

namespace Database

/-- The log a link leads to, if it is valid and its owner is still in the map. -/
def follow (s : Database) (link : Option UndoLink) : Option UndoLog :=
  (link.filter UndoLink.isValid).bind s.getUndoLogOptional

/-- The logs met by following links from `link` until one leads nowhere. -/
inductive Walk (s : Database) : Option UndoLink → List UndoLog → Prop
  | ended {link : Option UndoLink} (missing : s.follow link = none) : Walk s link []
  | hop {link : Option UndoLink} {undo : UndoLog} {older : List UndoLog} (found : s.follow link = some undo)
      (rest : Walk s (some undo.prevVersion) older) : Walk s link (undo :: older)

structure Walks (s : Database) : Prop where
  heads : ∀ rid, ∃ logs, s.Walk (s.versionInfo rid) logs
  logs : ∀ id t, s.txnMap id = some t → ∀ undo ∈ t.undoLogs, ∃ older, s.Walk (some undo.prevVersion) older

variable {s next : Database} {id : Int} {link : Option UndoLink} {logs : List UndoLog} {a : Action}
  {events : List Event} {undo : UndoLog}

theorem follow_some (found : s.follow link = some undo) :
    ∃ l owner, link = some l ∧ l.isValid = true ∧ s.txnMap l.prevTxn = some owner ∧
      owner.undoLogs[l.prevLogIdx]? = some undo := by
  obtain ⟨l, kept, here⟩ := Option.bind_eq_some_iff.mp found
  obtain ⟨owner, present, logged⟩ := Option.bind_eq_some_iff.mp here
  obtain ⟨same, valid⟩ := Option.filter_eq_some_iff.mp kept
  exact ⟨l, owner, same, valid, present, logged⟩

theorem follow_of_logged {l : UndoLink} {owner : Transaction} (valid : l.isValid = true)
    (present : s.txnMap l.prevTxn = some owner) (logged : owner.undoLogs[l.prevLogIdx]? = some undo) :
    s.follow (some l) = some undo := by
  have kept : (some l).filter UndoLink.isValid = some l := Option.filter_eq_some_iff.mpr ⟨rfl, valid⟩
  simp only [follow, kept, Option.bind_some, getUndoLogOptional, present]
  exact logged

theorem Bottom.follow (ends : s.Bottom true link) : s.follow link = none := by
  cases here : s.follow link with
  | none => rfl
  | some undo =>
    obtain ⟨l, owner, rfl, valid, present, -⟩ := follow_some here
    cases ((ends l rfl valid).2 owner present).1

theorem follow_getD (s : Database) (link : Option UndoLink) : s.follow (some (link.getD {})) = s.follow link := by
  cases link <;> rfl

theorem follow_normalized (s : Database) (l : UndoLink) :
    s.follow (if l.isValid then some l else none) = s.follow (some l) := by
  split
  · rfl
  · next invalid => simp only [follow, Option.filter, invalid, if_false, Bool.false_eq_true]

theorem Walk.congr {link' : Option UndoLink} (walk : s.Walk link logs) (same : s.follow link' = s.follow link) :
    s.Walk link' logs := by
  cases walk with
  | ended missing => exact Walk.ended (same.trans missing)
  | hop found rest => exact Walk.hop (same.trans found) rest

theorem Walk.unique {logs' : List UndoLog} (walk : s.Walk link logs) (walk' : s.Walk link logs') :
    logs = logs' := by
  induction walk generalizing logs' with
  | ended missing =>
    cases walk' with
    | ended => rfl
    | hop found => simp [missing] at found
  | hop found rest ih =>
    cases walk' with
    | ended missing => simp [missing] at found
    | hop found' rest' =>
      rw [found] at found'
      cases found'
      rw [ih rest']

/-- A link met by a step leads where it led, or its owner has been swept. -/
theorem Grows.follow (grows : Grows s next) (ok : ∀ l ∈ link, s.LinkOk l) :
    next.follow link = s.follow link ∨ next.follow link = none := by
  cases here : next.follow link with
  | none => exact .inr rfl
  | some undo =>
    left
    obtain ⟨l, owner, rfl, valid, present, logged⟩ := follow_some here
    obtain ⟨known, bound⟩ := ok l rfl valid
    rcases grows.txns _ owner present with ⟨before, found, kept⟩ | ⟨unborn, -⟩
    · obtain ⟨more, grown⟩ := kept
      rw [← grown, List.getElem?_append_left (bound before found)] at logged
      exact (follow_of_logged valid found logged).symm
    · omega

theorem Walk.grows (walk : s.Walk link logs) (links : Links s) (grows : Grows s next)
    (ok : ∀ l ∈ link, s.LinkOk l) : ∃ logs', next.Walk link logs' ∧ logs' <+: logs := by
  induction walk with
  | ended missing =>
    refine ⟨[], Walk.ended ?_, List.prefix_refl _⟩
    rcases grows.follow ok with same | gone
    · exact same.trans missing
    · exact gone
  | hop found rest ih =>
    rcases grows.follow ok with same | gone
    · obtain ⟨l, owner, rfl, valid, present, logged⟩ := follow_some found
      have older := links.logs _ owner present _ (List.mem_of_getElem? logged)
      obtain ⟨logs', walk', kept⟩ := ih fun l member => by
        cases member
        exact older
      exact ⟨_ :: logs', Walk.hop (same.trans found) walk', List.cons_prefix_cons.mpr ⟨rfl, kept⟩⟩
    · exact ⟨[], Walk.ended gone, List.nil_prefix⟩

theorem Walk.before {logs' : List UndoLog} (walk' : next.Walk link logs') (walk : s.Walk link logs)
    (links : Links s) (grows : Grows s next) (ok : ∀ l ∈ link, s.LinkOk l) : logs' <+: logs := by
  obtain ⟨kept, again, start⟩ := walk.grows links grows ok
  rw [walk'.unique again]
  exact start

theorem follow_appended {t : Transaction} (old : txnStartId ≤ id) (e : Entry) (undo : UndoLog) {store : PageStore}
    {heads : RID → Option UndoLink} :
    follow ({ s with store := store, versionInfo := heads }.setTxn id
      ((Transaction.logged t undo).appendWriteSet e)) (some ⟨id, t.undoLogs.length⟩) = some undo := by
  refine follow_of_logged (UndoLink.isValid_of_txn old _) (update_self _ _ _) ?_
  rw [undoLogs_appendWriteSet]
  exact List.getElem?_concat_length

theorem Walks.step (walks : Walks s) (links : Links s) (control : Control s) (steps : Steps s a next events) :
    Walks next := by
  have grows := control.grows steps
  have kept : ∀ {link logs}, (∀ l ∈ link, s.LinkOk l) → s.Walk link logs → ∃ logs', next.Walk link logs' := by
    intro link logs ok walk
    obtain ⟨logs', walk', -⟩ := walk.grows links grows ok
    exact ⟨logs', walk'⟩
  have logged : ∀ id t, s.txnMap id = some t → ∀ undo ∈ t.undoLogs,
      ∃ older, next.Walk (some undo.prevVersion) older := by
    intro id t found undo member
    obtain ⟨older, walk⟩ := walks.logs id t found undo member
    refine kept ?_ walk
    intro l here
    cases here
    exact links.logs id t found undo member
  have head : ∀ rid, ∃ older, next.Walk (s.versionInfo rid) older := by
    intro rid
    obtain ⟨older, walk⟩ := walks.heads rid
    exact kept (links.heads rid) walk
  constructor
  · intro rid
    cases steps with
    | @versioned id e value t heap tupleMeta row after ready table listed base foreign inSnapshot stored =>
      by_cases same : rid = e.rid
      · subst same
        obtain ⟨older, walk⟩ := head e.rid
        refine ⟨s.undoLogOf e.rid tupleMeta row :: older, Walk.hop ?_ (walk.congr (follow_getD _ _))⟩
        simp only [setTxn, updateUndoLink, update_self]
        exact follow_appended (control.txns id t ready.found).old e _
      · simp only [setTxn, updateUndoLink, update_of_ne same]
        exact head rid
    | @restored id e rest t heap link undo tupleMeta row after phase found inside table linked valid own
        here base stored =>
      by_cases same : rid = e.rid
      · subst same
        obtain ⟨older, walk⟩ := logged id t found undo (List.mem_of_getElem? here)
        refine ⟨older, walk.congr ?_⟩
        simp only [setPhase, updateUndoLink, update_self]
        exact follow_normalized _ _
      · simp only [setPhase, updateUndoLink, update_of_ne same]
        exact head rid
    | _ => exact head rid
  · intro other u here undo member
    rcases control.logs steps here member with ⟨before, found, inside⟩ | captured
    · exact logged other before found undo inside
    · obtain ⟨-, e, -, tupleMeta, row, -, -, -, -, -, rfl⟩ := captured
      obtain ⟨older, walk⟩ := head e.rid
      exact ⟨older, walk.congr (follow_getD _ _)⟩

theorem Initial.walks (initial : Initial s) : Walks s := by
  constructor
  · intro rid
    rw [initial.versionInfo rid]
    exact ⟨[], Walk.ended rfl⟩
  · intro id t found
    rw [initial.txnMap id] at found
    cases found

theorem walkVisible_ended (missing : s.follow link = none) (readTs : Int) (fuel : Nat) :
    s.walkVisible readTs (fuel + 1) link = some none := by
  cases link with
  | none => rfl
  | some l =>
    simp only [walkVisible]
    split
    · next valid =>
      have unresolved : s.getUndoLogOptional l = none := by
        simpa [follow, valid] using missing
      rw [unresolved]
    · rfl

theorem walkVisible_hop (found : s.follow link = some undo) (readTs : Int) (fuel : Nat) :
    s.walkVisible readTs (fuel + 1) link =
      if undo.ts ≤ readTs then some (UndoLog.version undo).value
      else s.walkVisible readTs fuel (some undo.prevVersion) := by
  obtain ⟨l, owner, rfl, valid, present, logged⟩ := follow_some found
  simp only [walkVisible, valid, getUndoLogOptional, present, Option.bind_some,
    Transaction.getUndoLog, logged]
  rfl

/-- With fuel enough the walk finds the version current at the snapshot. -/
theorem Walk.visible (walk : s.Walk link logs) (readTs : Int) :
    ∀ fuel, logs.length < fuel →
      s.walkVisible readTs fuel link = some (snapshot (logs.map UndoLog.version) readTs) := by
  induction walk with
  | ended missing =>
    intro fuel enough
    obtain ⟨rest, rfl⟩ := Nat.exists_eq_add_of_lt enough
    exact walkVisible_ended missing readTs _
  | @hop link undo older found rest ih =>
    intro fuel enough
    obtain ⟨rest, rfl⟩ := Nat.exists_eq_add_of_lt enough
    rw [walkVisible_hop found, List.map_cons]
    by_cases current : undo.ts ≤ readTs
    · rw [if_pos current, snapshot_head current]
    · have future : readTs < (UndoLog.version undo).ts := not_le.mp current
      rw [if_neg current, snapshot_tail future]
      exact ih _ (by simp only [List.length_cons]; omega)

end Database

theorem walks_run {meets : Database → Action → Prop} {log : List Event} {s : Database}
    (run : Run system meets log s) : s.Walks := by
  refine Run.invariant (I := fun _ s => s.Walks) (fun s initial => Database.Initial.walks initial) ?_ run
  intro log s next a events before walks _ taken
  exact walks.step (links_run before) (control_run before) (Database.steps_of_step taken)

end BumbleBee.Mvcc
