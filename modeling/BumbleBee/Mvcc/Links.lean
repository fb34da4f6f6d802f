import BumbleBee.Mvcc.Chains

/-!
Undo links point backwards: at transactions already begun and, while such a
transaction is in the map, at a log it has written. Logs are never removed, so a
link stays good until its owner is swept.
-/

namespace BumbleBee.Mvcc
open Library.Transition Storage Concurrency Function

namespace Database

def LinkOk (s : Database) (link : UndoLink) : Prop :=
  link.isValid = true → link.prevTxn < s.nextTxnId ∧
    ∀ owner, s.txnMap link.prevTxn = some owner → link.prevLogIdx < owner.undoLogs.length

structure Links (s : Database) : Prop where
  heads : ∀ rid, ∀ link ∈ s.versionInfo rid, s.LinkOk link
  logs : ∀ id t, s.txnMap id = some t → ∀ undo ∈ t.undoLogs, s.LinkOk undo.prevVersion

/-- Undo buffers only grow, and only begun transactions appear. -/
structure Grows (s next : Database) : Prop where
  ids : s.nextTxnId ≤ next.nextTxnId
  txns : ∀ id t, next.txnMap id = some t →
    (∃ before, s.txnMap id = some before ∧ before.undoLogs <+: t.undoLogs) ∨
      (s.nextTxnId ≤ id ∧ t.undoLogs = [])

variable {s next : Database} {id : Int} {t : Transaction} {events : List Event} {a : Action}

theorem Control.grows (control : Control s) (steps : Steps s a next events) : Grows s next := by
  refine ⟨(control.keeps steps).ids, ?_⟩
  intro id t here
  rcases control.record steps here with ⟨before, found, follows⟩ | unborn
  · obtain ⟨new, logs, -⟩ := follows.logs
    exact .inl ⟨before, found, by rw [logs]; exact List.prefix_append _ _⟩
  · exact .inr unborn

theorem LinkOk.grows {link : UndoLink} (ok : s.LinkOk link) (grows : Grows s next) : next.LinkOk link := by
  intro valid
  obtain ⟨known, bound⟩ := ok valid
  refine ⟨Int.lt_of_lt_of_le known grows.ids, ?_⟩
  intro owner found
  rcases grows.txns _ owner found with ⟨before, here, logs⟩ | ⟨unborn, -⟩
  · exact Nat.lt_of_lt_of_le (bound before here) logs.length_le
  · omega

theorem linkOk_invalid : s.LinkOk {} := fun valid => by cases valid

theorem Links.getD (links : Links s) (rid : RID) : s.LinkOk ((s.versionInfo rid).getD {}) := by
  cases head : s.versionInfo rid with
  | none => exact linkOk_invalid
  | some link => exact links.heads rid link head

variable {undo : UndoLog}

theorem Control.logs (control : Control s) (steps : Steps s a next events) {u : Transaction}
    {other : Int} (here : next.txnMap other = some u) (member : undo ∈ u.undoLogs) :
    (∃ before, s.txnMap other = some before ∧ undo ∈ before.undoLogs) ∨ s.Captured other undo := by
  rcases control.record steps here with ⟨before, found, follows⟩ | ⟨-, empty⟩
  · obtain ⟨new, logs, captured⟩ := follows.logs
    rw [logs] at member
    rcases List.mem_append.mp member with old | fresh
    · exact .inl ⟨before, found, old⟩
    · exact .inr (captured undo fresh)
  · simp [empty] at member

theorem linkOk_appended (known : id < s.nextTxnId) (e : Entry) (log : UndoLog) {store : PageStore}
    {links : RID → Option UndoLink} :
    LinkOk ({ s with store := store, versionInfo := links }.setTxn id
      ((Transaction.logged t log).appendWriteSet e)) ⟨id, t.undoLogs.length⟩ := by
  intro _
  refine ⟨known, ?_⟩
  intro owner found
  simp only [setTxn, update_self, Option.some.injEq] at found
  subst found
  simp [undoLogs_appendWriteSet, Transaction.logged]

/-- Links are installed by a versioned write and by the rollback that takes it back. -/
theorem Links.heads_step (links : Links s) (control : Control s) (steps : Steps s a next events) :
    ∀ rid, ∀ link ∈ next.versionInfo rid, next.LinkOk link := by
  have grows := control.grows steps
  intro rid link member
  cases steps with
  | @versioned id e value txn heap tupleMeta row after ready table listed base foreign inSnapshot stored =>
    simp only [setTxn, updateUndoLink] at member
    rcases of_update member with ⟨-, new⟩ | ⟨-, old⟩
    · cases new
      exact linkOk_appended (control.known _ _ ready.found) _ _
    · exact (links.heads rid link old).grows grows
  | @restored id e rest txn heap head log tupleMeta row after phase found inside table linked valid own logged base stored =>
    simp only [setPhase, updateUndoLink] at member
    rcases of_update member with ⟨-, new⟩ | ⟨-, old⟩
    · split at new
      · cases new
        exact (links.logs _ _ found _ (List.mem_of_getElem? logged)).grows grows
      · cases new
    · exact (links.heads rid link old).grows grows
  | _ => exact (links.heads rid link member).grows grows

theorem Links.step (links : Links s) (control : Control s) (steps : Steps s a next events) : Links next := by
  have grows := control.grows steps
  refine ⟨links.heads_step control steps, ?_⟩
  intro other u here undo member
  rcases control.logs steps here member with ⟨before, found, inside⟩ | captured
  · exact (links.logs other before found undo inside).grows grows
  · obtain ⟨-, e, -, tupleMeta, row, -, -, -, -, -, rfl⟩ := captured
    exact (links.getD e.rid).grows grows

theorem Initial.links (initial : Initial s) : Links s := by
  constructor
  · intro rid link member
    rw [initial.versionInfo rid] at member
    cases member
  · intro id t found
    rw [initial.txnMap id] at found
    cases found

end Database

theorem links_run {meets : Database → Action → Prop} {log : List Event} {s : Database}
    (run : Run system meets log s) : s.Links := by
  refine Run.invariant (I := fun _ s => s.Links) (fun s initial => Database.Initial.links initial) ?_ run
  intro log s next a events before links _ taken
  exact links.step (control_run before) (Database.steps_of_step taken)

end BumbleBee.Mvcc
