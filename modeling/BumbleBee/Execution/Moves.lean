import BumbleBee.Execution.IndexMaintenance
import BumbleBee.Mvcc.Frames

/-!
What a step of the row statements can do, outcome by outcome, and how the steps map
to those of the transaction manager.
-/

namespace BumbleBee.Execution
open Mvcc Storage.SlottedPage Concurrency

namespace Engine

variable {κ : Type} {s next : Engine κ} {id : Int} {w : Nat}
  {a : Action} {events : List Event}

theorem atHand_eq {st : Statement} {job : Job} (hand : s.atHand id w = some (st, job)) :
    s.statement id = some st ∧ st.job w = some job := by
  obtain ⟨st', running, mapped⟩ := Option.bind_eq_some_iff.mp hand
  obtain ⟨job', here, same⟩ := Option.map_eq_some_iff.mp mapped
  cases same
  exact ⟨running, here⟩

theorem insert_events {db db' : Database} {oid : Nat} {row : RowBytes}
    (taken : db.step (.insert id oid row) = some (db', events)) :
    events = [] ∨ ∃ rid, events = [.inserted id ⟨oid, rid⟩ row] := by
  have steps := Database.steps_of_step taken
  cases steps with
  | inserted ready table grew placed => exact .inr ⟨_, rfl⟩
  | insertTooLarge table grew => exact .inl rfl

variable {value : Option RowBytes}

theorem modify_events {db db' : Database} {e : Entry} (taken : db.step (.modify id e value) = some (db', events)) :
    events = [] ∨ events = [.modified id e value] := by
  have steps := Database.steps_of_step taken
  cases steps with
  | rewrote ready table listed base own stored => exact .inr rfl
  | versioned ready table listed base foreign inSnapshot stored => exact .inr rfl
  | modifyConflict ready base foreign outside => exact .inl rfl
  | rewriteTooLarge => exact .inl rfl
  | versionTooLarge ready table listed base inSnapshot => exact .inl rfl

/-- A row written through `ApplyMvccModify` is applied, or the worker throws. -/
theorem writes_cases {st : Statement} {job : Job} {rid : RID}
    (taken : s.writes id w st job rid value = some (next, events)) :
    (∃ db, s.db.step (.modify id ⟨st.oid, rid⟩ value) = some (db, [.modified id ⟨st.oid, rid⟩ value]) ∧
      next = { s with db := db }.setStatement id (some (st.advance w job rid)) ∧
      events = [.modified id ⟨st.oid, rid⟩ value]) ∨
    ∃ db, s.db.step (.modify id ⟨st.oid, rid⟩ value) = some (db, []) ∧
      next = { s with db := db }.throws id w st ∧ events = [] := by
  unfold writes at taken
  cases result : s.db.modify id ⟨st.oid, rid⟩ value with
  | none =>
    rw [result] at taken
    cases taken
  | some outcome =>
    obtain ⟨db, reported⟩ := outcome
    have stepped : s.db.step (.modify id ⟨st.oid, rid⟩ value) = some (db, reported) := result
    rw [result] at taken
    rcases modify_events stepped with rfl | rfl
    · cases taken
      exact .inr ⟨db, stepped, rfl, rfl⟩
    · cases taken
      exact .inl ⟨db, stepped, rfl, rfl⟩

variable [DecidableEq κ] {catalog : Catalog κ}

/-- What a step can do, outcome by outcome. -/
inductive Moves (catalog : Catalog κ) (s : Engine κ) : Action → Engine κ → List Event → Prop
  | controlled {a db events} (apart : ∀ id oid row, a ≠ .insert id oid row)
      (apart' : ∀ id e value, a ≠ .modify id e value) (commits : ∀ id, a.Commits id → s.statement id = none)
      (kept : ∀ id, a ≠ .startAbort id) (taken : s.db.step a = some (db, events)) :
      Moves catalog s (.mvcc a) { s with db := db } events
  | aborting {id db events} (failing : ∀ st, s.statement id = some st → st.thrown = true)
      (taken : s.db.step (.startAbort id) = some (db, events)) :
      Moves catalog s (.mvcc (.startAbort id)) ({ s with db := db }.setStatement id none) events
  | started {id type oid workers txn} (none : s.statement id = none) (ready : s.db.Ready id txn) :
      Moves catalog s (.start id type oid workers)
        (s.setStatement id (some ⟨type, oid, workers, fun _ => {}, [], false⟩)) []
  | sunk {id w fuel input st job} (running : s.statement id = some st) (worker : w < st.workers)
      (sinking : (st.tasks w).combining = false) (accepted : s.buffered id st fuel input = some job) :
      Moves catalog s (.sink id w input fuel) (s.setStatement id (some (st.setTask w { st.tasks w with
          batches := (st.tasks w).batches ++ [job]
          rest := (st.tasks w).rest ++ [job] }))) []
  | combined {id w st} (running : s.statement id = some st) (worker : w < st.workers) :
      Moves catalog s (.combine id w)
        (s.setStatement id (some (st.setTask w { st.tasks w with combining := true }))) []
  | keyAbsent {id w st row pk} (running : s.statement id = some st) (hand : st.job w = some (.insert row))
      (keyed : (catalog st.oid).primaryKey = some pk) (fresh : (st.tasks w).probe = .unclassified) :
      Moves catalog s (.scanKey id w) (s.setStatement id (some (st.setProbe w .absent))) []
  | keyFound {id w st row pk rid} (running : s.statement id = some st) (hand : st.job w = some (.insert row))
      (keyed : (catalog st.oid).primaryKey = some pk) (fresh : (st.tasks w).probe = .unclassified)
      (known : s.directory st.oid (pk.key row) = some rid) :
      Moves catalog s (.scanKey id w) (s.setStatement id (some (st.setProbe w (.found rid)))) []
  | appended {id w st row pk db rid} (running : s.statement id = some st) (hand : st.job w = some (.insert row))
      (keyed : (catalog st.oid).primaryKey = some pk) (missed : (st.tasks w).probe = .absent)
      (taken : s.db.step (.insert id st.oid row) = some (db, [.inserted id ⟨st.oid, rid⟩ row])) :
      Moves catalog s (.append id w)
        ({ s with db := db }.setStatement id (some (st.setProbe w (.appended rid))))
        [.inserted id ⟨st.oid, rid⟩ row]
  | inserted {id w st row db rid} (running : s.statement id = some st) (hand : st.job w = some (.insert row))
      (unkeyed : (catalog st.oid).primaryKey = none)
      (taken : s.db.step (.insert id st.oid row) = some (db, [.inserted id ⟨st.oid, rid⟩ row])) :
      Moves catalog s (.append id w)
        ({ s with db := db }.setStatement id (some (st.advance w (.insert row) rid)))
        [.inserted id ⟨st.oid, rid⟩ row]
  | refused {id w st a b db} (running : s.statement id = some st)
      (statement : (∃ oid row, b = .insert id oid row) ∨ ∃ e value, b = .modify id e value)
      (taken : s.db.step b = some (db, [])) : Moves catalog s a ({ s with db := db }.throws id w st) []
  | registered {id w st row pk rid} (running : s.statement id = some st) (hand : st.job w = some (.insert row))
      (keyed : (catalog st.oid).primaryKey = some pk) (pending : (st.tasks w).probe = .appended rid)
      (unknown : s.directory st.oid (pk.key row) = none) :
      Moves catalog s (.insertEntry id w)
        ({ s with
          directory := Function.update s.directory st.oid
            (Function.update (s.directory st.oid) (pk.key row) (some rid)) }.setStatement id
              (some (st.advance w (.insert row) rid))) []
  | threw {id w st a} (running : s.statement id = some st) :
      Moves catalog s a (s.throws id w st) []
  | invisible {id w fuel st row txn rid} (running : s.statement id = some st)
      (hand : st.job w = some (.insert row)) (ready : s.db.Ready id txn) (found : (st.tasks w).probe = .found rid)
      (unseen : s.db.collectVisibleVersion id txn rid fuel = some none) :
      Moves catalog s (.checkVisible id w fuel) (s.setStatement id (some (st.setProbe w (.dead rid)))) []
  | revived {id w st row db rid} (running : s.statement id = some st) (hand : st.job w = some (.insert row))
      (unseen : (st.tasks w).probe = .dead rid)
      (taken : s.db.step (.modify id ⟨st.oid, rid⟩ (some row)) =
        some (db, [.modified id ⟨st.oid, rid⟩ (some row)])) :
      Moves catalog s (.revive id w)
        ({ s with db := db }.setStatement id (some (st.advance w (.insert row) rid)))
        [.modified id ⟨st.oid, rid⟩ (some row)]
  | updated {id w st rid old new db} (running : s.statement id = some st)
      (hand : st.job w = some (.update rid old new))
      (same : ∀ pk, (catalog st.oid).primaryKey = some pk → pk.gatherKeys old = pk.gatherKeys new)
      (taken : s.db.step (.modify id ⟨st.oid, rid⟩ (some new)) =
        some (db, [.modified id ⟨st.oid, rid⟩ (some new)])) :
      Moves catalog s (.modify id w)
        ({ s with db := db }.setStatement id (some (st.advance w (.update rid old new) rid)))
        [.modified id ⟨st.oid, rid⟩ (some new)]
  | deleted {id w st rid db} (running : s.statement id = some st) (hand : st.job w = some (.delete rid))
      (taken : s.db.step (.modify id ⟨st.oid, rid⟩ none) = some (db, [.modified id ⟨st.oid, rid⟩ none])) :
      Moves catalog s (.modify id w)
        ({ s with db := db }.setStatement id (some (st.advance w (.delete rid) rid)))
        [.modified id ⟨st.oid, rid⟩ none]
  | deferred {id w st rid old new} (running : s.statement id = some st)
      (hand : st.job w = some (.update rid old new)) :
      Moves catalog s (.modify id w) (s.setStatement id (some (st.defer w rid new))) []
  | finalized {id st} (running : s.statement id = some st) (drained : st.drained) (moving : st.changed ≠ [])
      (clean : st.thrown = false) :
      Moves catalog s (.finalize id) (s.setStatement id (some st.finalized)) []
  | finished {id st} (running : s.statement id = some st) (drained : st.drained) (unmoved : st.changed = [])
      (clean : st.thrown = false) :
      Moves catalog s (.finish id) (s.setStatement id none) []

theorem control_moves {b : Mvcc.Action} (taken : s.control b = some (next, events)) :
    Moves catalog s (.mvcc b) next events := by
  revert taken
  fun_cases control s b <;> rintro ⟨⟩
  · next id passed stepped =>
    refine Moves.aborting ?_ stepped
    intro st running
    simpa [passes, running] using passed
  · next passed kept stepped =>
    refine Moves.controlled ?_ ?_ ?_ kept stepped
    · rintro id oid row rfl
      simp [passes] at passed
    · rintro id e value rfl
      simp [passes] at passed
    · rintro id (rfl | rfl) <;> simpa [passes] using passed

theorem append_moves (taken : s.append catalog id w = some (next, events)) :
    Moves catalog s (.append id w) next events := by
  revert taken
  fun_cases append s catalog id w <;> rintro ⟨⟩
  · next st row hand allowed db writer e bytes result after =>
    obtain ⟨running, here⟩ := atHand_eq hand
    obtain nothing | ⟨rid, same⟩ := insert_events result
    · cases nothing
    cases same
    cases keyed : (catalog st.oid).primaryKey with
    | none =>
      simp only [after, keyed, Option.isNone_none, if_true]
      exact Moves.inserted running here keyed result
    | some pk =>
      simp only [after, keyed, Option.isNone_some, Bool.false_eq_true, if_false]
      exact Moves.appended running here keyed (by simpa [keyed] using allowed) result
  · next st row hand allowed db other result =>
    obtain rfl | ⟨rid, rfl⟩ := insert_events result
    · exact Moves.refused (atHand_eq hand).1 (.inl ⟨_, _, rfl⟩) result
    · exact absurd rfl (other _ _ _)

theorem scanKey_moves (taken : s.scanKey catalog id w = some next) : Moves catalog s (.scanKey id w) next [] := by
  revert taken
  fun_cases scanKey s catalog id w <;> rintro ⟨⟩
  next st row hand pk fresh keyed found =>
  obtain ⟨running, here⟩ := atHand_eq hand
  unfold found
  split
  · exact Moves.keyAbsent running here keyed fresh
  · cases known : s.directory st.oid (pk.key row) with
    | none => exact Moves.keyAbsent running here keyed fresh
    | some rid => exact Moves.keyFound running here keyed fresh known

theorem insertEntry_moves (taken : s.insertEntry catalog id w = some next) :
    Moves catalog s (.insertEntry id w) next [] := by
  revert taken
  fun_cases insertEntry s catalog id w <;> rintro ⟨⟩
  · next st row hand pk rid pending keyed known found => exact Moves.threw (atHand_eq hand).1
  · next st row hand pk rid pending keyed unknown =>
    obtain ⟨running, here⟩ := atHand_eq hand
    exact Moves.registered running here keyed pending unknown

theorem checkVisible_moves {fuel : Nat} (taken : s.checkVisible id w fuel = some next) :
    Moves catalog s (.checkVisible id w fuel) next [] := by
  revert taken
  fun_cases checkVisible s id w fuel <;> rintro ⟨⟩
  · next st row txn ready hand rid found seen visible => exact Moves.threw (atHand_eq hand).1
  · next st row txn ready hand rid found unseen =>
    obtain ⟨running, here⟩ := atHand_eq hand
    exact Moves.invisible running here (Database.statementTxn_ready ready) found unseen

theorem revive_moves (taken : s.revive id w = some (next, events)) :
    Moves catalog s (.revive id w) next events := by
  revert taken
  fun_cases revive s id w with
  | case1 st row hand rid unseen =>
    intro taken
    obtain ⟨running, here⟩ := atHand_eq hand
    rcases writes_cases taken with ⟨db, stepped, rfl, rfl⟩ | ⟨db, stepped, rfl, rfl⟩
    · exact Moves.revived running here unseen stepped
    · exact Moves.refused running (.inr ⟨_, _, rfl⟩) stepped
  | case2 | case3 => rintro ⟨⟩

theorem modify_moves (taken : s.modify catalog id w = some (next, events)) :
    Moves catalog s (.modify id w) next events := by
  revert taken
  fun_cases modify s catalog id w with
  | case1 st rid old new hand =>
    rintro ⟨⟩
    obtain ⟨running, here⟩ := atHand_eq hand
    exact Moves.deferred running here
  | case2 st rid old new hand same =>
    intro taken
    obtain ⟨running, here⟩ := atHand_eq hand
    rcases writes_cases taken with ⟨db, stepped, rfl, rfl⟩ | ⟨db, stepped, rfl, rfl⟩
    · refine Moves.updated running here ?_ stepped
      intro pk keyed
      simpa [keyed, IndexInfo.primaryKeyChanged] using same
    · exact Moves.refused running (.inr ⟨_, _, rfl⟩) stepped
  | case3 st rid hand =>
    intro taken
    obtain ⟨running, here⟩ := atHand_eq hand
    rcases writes_cases taken with ⟨db, stepped, rfl, rfl⟩ | ⟨db, stepped, rfl, rfl⟩
    · exact Moves.deleted running here stepped
    · exact Moves.refused running (.inr ⟨_, _, rfl⟩) stepped
  | case4 => rintro ⟨⟩

theorem moves_of_step (taken : s.step catalog a = some (next, events)) : Moves catalog s a next events := by
  have quiet : ∀ {result : Option (Engine κ)}, (result.map fun after => (after, ([] : List Event))) =
      some (next, events) → result = some next ∧ events = [] := by
    intro result mapped
    obtain ⟨after, here, same⟩ := Option.map_eq_some_iff.mp mapped
    cases same
    exact ⟨here, rfl⟩
  cases a with
  | mvcc b => exact control_moves taken
  | append id w => exact append_moves taken
  | revive id w => exact revive_moves taken
  | modify id w => exact modify_moves taken
  | scanKey id w =>
    obtain ⟨here, rfl⟩ := quiet taken
    exact scanKey_moves here
  | insertEntry id w =>
    obtain ⟨here, rfl⟩ := quiet taken
    exact insertEntry_moves here
  | checkVisible id w fuel =>
    obtain ⟨here, rfl⟩ := quiet taken
    exact checkVisible_moves here
  | start id type oid workers =>
    obtain ⟨here, rfl⟩ := quiet taken
    revert here
    fun_cases start s id type oid workers <;> rintro ⟨⟩
    next table ready idle => exact Moves.started idle (Database.statementTxn_ready ready)
  | sink id w input fuel =>
    obtain ⟨here, rfl⟩ := quiet taken
    revert here
    fun_cases sink s id w input fuel with
    | case2 st running sinking =>
      intro here
      obtain ⟨job, accepted, rfl⟩ := Option.map_eq_some_iff.mp here
      exact Moves.sunk running sinking.1 sinking.2 accepted
    | case1 | case3 => rintro ⟨⟩
  | combine id w =>
    obtain ⟨here, rfl⟩ := quiet taken
    revert here
    fun_cases combine s id w <;> rintro ⟨⟩
    next st running worker => exact Moves.combined running worker
  | finalize id =>
    obtain ⟨here, rfl⟩ := quiet taken
    revert here
    fun_cases finalize s id <;> rintro ⟨⟩
    next st running done => exact Moves.finalized running done.1 done.2.1 done.2.2
  | finish id =>
    obtain ⟨here, rfl⟩ := quiet taken
    revert here
    fun_cases finish s id <;> rintro ⟨⟩
    next st running done => exact Moves.finished running done.1 done.2.1 done.2.2
  | fail id w =>
    obtain ⟨here, rfl⟩ := quiet taken
    obtain ⟨st, running, rfl⟩ := Option.map_eq_some_iff.mp here
    exact Moves.threw running

end Engine

end BumbleBee.Execution
