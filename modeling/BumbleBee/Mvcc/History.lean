import BumbleBee.Library.Versions
import BumbleBee.Mvcc.System

/-!
The committed history of a row, read off the event log: one version for every
commit of a transaction that had written the row, holding that transaction's last
write of it.
-/

namespace BumbleBee.Mvcc
open Library.Versions Storage.SlottedPage Concurrency

/-- The last thing a transaction wrote at an entry, `some none` being a delete. -/
def lastWrite (id : Int) (e : Entry) : List Event → Option (Option RowBytes)
  | [] => none
  | .inserted writer target row :: earlier =>
    if writer = id ∧ target = e then some (some row) else lastWrite id e earlier
  | .modified writer target value :: earlier =>
    if writer = id ∧ target = e then some value else lastWrite id e earlier
  | .began _ _ _ :: earlier => lastWrite id e earlier
  | .scanned _ _ _ :: earlier => lastWrite id e earlier
  | .committed _ _ :: earlier => lastWrite id e earlier

def history (e : Entry) : List Event → List (Version RowBytes)
  | [] => []
  | .committed id commitTs :: earlier =>
    match lastWrite id e earlier with
    | some value => ⟨commitTs, value⟩ :: history e earlier
    | none => history e earlier
  | .began _ _ _ :: earlier => history e earlier
  | .scanned _ _ _ :: earlier => history e earlier
  | .inserted _ _ _ :: earlier => history e earlier
  | .modified _ _ _ :: earlier => history e earlier

def Wrote (log : List Event) (id : Int) (e : Entry) : Prop := ∃ value, lastWrite id e log = some value

def tupleVersion (tuple : TupleMeta × RowBytes) : Version RowBytes :=
  ⟨tuple.1.ts, if tuple.1.isDeleted then none else some tuple.2⟩

def UndoLog.version (log : UndoLog) : Version RowBytes :=
  ⟨log.ts, if log.isDeleted then none else some log.row⟩

variable {log : List Event} {e : Entry} {id : Int}

theorem wrote_cons (event : Event) (wrote : Wrote log id e) : Wrote (event :: log) id e := by
  obtain ⟨value, found⟩ := wrote
  cases event with
  | inserted writer target row | modified writer target value' =>
    simp only [Wrote, lastWrite]
    split
    · exact ⟨_, rfl⟩
    · exact ⟨value, found⟩
  | _ => exact ⟨value, found⟩

theorem wrote_append (events : List Event) (wrote : Wrote log id e) : Wrote (events ++ log) id e := by
  induction events with
  | nil => exact wrote
  | cons event rest ih => exact wrote_cons event ih

theorem not_wrote : ¬Wrote log id e ↔ lastWrite id e log = none := by
  unfold Wrote
  cases lastWrite id e log <;> simp

/-- The transaction stored the bytes in the entry's slot. -/
def Stored (log : List Event) (id : Int) (e : Entry) (row : RowBytes) : Prop :=
  Event.inserted id e row ∈ log ∨ Event.modified id e (some row) ∈ log

variable {row : RowBytes}

theorem Stored.append (stored : Stored log id e row) (events : List Event) : Stored (events ++ log) id e row :=
  stored.imp (List.mem_append_right _) (List.mem_append_right _)

theorem stored_of_lastWrite (write : lastWrite id e log = some (some row)) : Stored log id e row := by
  induction log with
  | nil => cases write
  | cons event earlier ih =>
    have older : lastWrite id e earlier = some (some row) → Stored (event :: earlier) id e row :=
      fun before => (ih before).append [event]
    cases event with
    | inserted writer target bytes =>
      simp only [lastWrite] at write
      split at write
      · next same =>
        obtain ⟨rfl, rfl⟩ := same
        cases write
        exact .inl (by simp)
      · exact older write
    | modified writer target value =>
      simp only [lastWrite] at write
      split at write
      · next same =>
        obtain ⟨rfl, rfl⟩ := same
        cases write
        exact .inr (by simp)
      · exact older write
    | _ => exact older write

theorem Stored.wrote (stored : Stored log id e row) : ∃ value, lastWrite id e log = some value := by
  induction log with
  | nil => rcases stored with member | member <;> cases member
  | cons event earlier ih =>
    have older : Stored earlier id e row → ∃ value, lastWrite id e (event :: earlier) = some value :=
      fun before => wrote_cons event (ih before)
    rcases stored with member | member <;> rcases List.mem_cons.mp member with rfl | before
    · exact ⟨some row, by simp [lastWrite]⟩
    · exact older (.inl before)
    · exact ⟨some row, by simp [lastWrite]⟩
    · exact older (.inr before)

theorem mem_history {v : Version RowBytes} (member : v ∈ history e log) :
    ∃ id, Event.committed id v.ts ∈ log ∧ lastWrite id e log ≠ none := by
  induction log with
  | nil => simp [history] at member
  | cons event earlier ih =>
    have older : v ∈ history e earlier →
        ∃ id, Event.committed id v.ts ∈ event :: earlier ∧ lastWrite id e (event :: earlier) ≠ none := by
      intro inside
      obtain ⟨id, committed, wrote⟩ := ih inside
      obtain ⟨value, found⟩ := Option.ne_none_iff_exists'.mp wrote
      obtain ⟨value', found'⟩ := wrote_cons event ⟨value, found⟩
      exact ⟨id, List.mem_cons_of_mem _ committed, by simp [found']⟩
    cases event with
    | committed id commitTs =>
      simp only [history] at member
      split at member
      · next value found =>
        rcases List.mem_cons.mp member with same | inside
        · subst same
          exact ⟨id, by simp, by simp [lastWrite, found]⟩
        · exact older inside
      · exact older member
    | _ => exact older member

/-- An event that records one write and nothing else. -/
structure RecordsWrite (event : Event) (id : Int) (e : Entry) : Prop where
  wrote : ∀ log other e', Wrote (event :: log) other e' ↔ (id = other ∧ e = e') ∨ Wrote log other e'
  elsewhere : ∀ log other e', ¬(other = id ∧ e' = e) →
    lastWrite other e' (event :: log) = lastWrite other e' log
  past : ∀ log e', history e' (event :: log) = history e' log
  uncommitting : ∀ other commitTs, event ≠ .committed other commitTs
  unbeginning : ∀ other readTs isolationLevel, event ≠ .began other readTs isolationLevel
  unscanning : ∀ other oid p, event ≠ .scanned other oid p

theorem recordsWrite_modified (id : Int) (e : Entry) (value : Option RowBytes) :
    RecordsWrite (.modified id e value) id e := by
  refine ⟨?_, ?_, fun _ _ => rfl, fun _ _ => by simp, fun _ _ _ => by simp, fun _ _ _ => by simp⟩
  · intro log other e'
    simp only [Wrote, lastWrite]
    split
    · next same => simp [same]
    · next apart => simp [apart]
  · intro log other e' apart
    simp only [lastWrite]
    rw [if_neg fun same => apart ⟨same.1.symm, same.2.symm⟩]

theorem recordsWrite_inserted (id : Int) (e : Entry) (row : RowBytes) :
    RecordsWrite (.inserted id e row) id e := by
  refine ⟨?_, ?_, fun _ _ => rfl, fun _ _ => by simp, fun _ _ _ => by simp, fun _ _ _ => by simp⟩
  · intro log other e'
    simp only [Wrote, lastWrite]
    split
    · next same => simp [same]
    · next apart => simp [apart]
  · intro log other e' apart
    simp only [lastWrite]
    rw [if_neg fun same => apart ⟨same.1.symm, same.2.symm⟩]

end BumbleBee.Mvcc
