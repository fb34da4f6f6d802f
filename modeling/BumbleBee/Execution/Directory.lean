import BumbleBee.Execution.Statements
import BumbleBee.Mvcc.SnapshotReads

/-!
The key directory of a table. Every row stored at a row id of the directory carries the key the
directory has it under. A row id outside the directory holds rows of one transaction
only: a worker of it has yet to register the key, or it has failed a statement.
-/

namespace BumbleBee.Execution
open Library.Transition Mvcc Storage.SlottedPage Concurrency Function

variable {job : Job}

namespace Engine

variable {κ : Type} {pk : IndexInfo κ} {oid : Nat} {s next : Engine κ} {id : Int}
  {a : Action} {events log : List Event}

/-- A worker of the transaction has appended the row and not registered it yet. -/
def Pending (oid : Nat) (s : Engine κ) (id : Int) (rid : RID) : Prop :=
  ∃ st, s.statement id = some st ∧ st.oid = oid ∧ ∃ w < st.workers, (st.tasks w).probe = .appended rid

/-- A row id outside the directory that only the transaction may have rows at. -/
def Loose (oid : Nat) (s : Engine κ) (id : Int) (rid : RID) : Prop :=
  (∀ k, s.directory oid k ≠ some rid) ∧ (s.failed id = true ∨ Pending oid s id rid)

structure TaskOk (pk : IndexInfo κ) (oid : Nat) (log : List Event) (s : Engine κ) (id : Int) (task : Task) :
    Prop where
  updates : ∀ rid old new, Job.update rid old new ∈ task.rest →
    ∃ writer, Stored log writer ⟨oid, rid⟩ old ∧ (writer = id ∨ ∃ commitTs, Event.committed writer commitTs ∈ log)
  found : ∀ rid, task.probe = .found rid ∨ task.probe = .dead rid →
    ∃ row, task.rest.head? = some (.insert row) ∧ s.directory oid (pk.key row) = some rid
  pinned : ∀ rid, task.probe = .appended rid → (∀ k, s.directory oid k ≠ some rid) ∧
    ∃ row, task.rest.head? = some (.insert row) ∧ Stored log id ⟨oid, rid⟩ row ∧
      ∀ other row', Stored log other ⟨oid, rid⟩ row' → other = id ∧ pk.key row' = pk.key row

structure Keyed (pk : IndexInfo κ) (oid : Nat) (log : List Event) (s : Engine κ) : Prop where
  injective : ∀ k k' rid, s.directory oid k = some rid → s.directory oid k' = some rid → k = k'
  listed : ∀ k rid, s.directory oid k = some rid → ∃ id row, Stored log id ⟨oid, rid⟩ row
  written : ∀ id rid row, Stored log id ⟨oid, rid⟩ row →
    s.directory oid (pk.key row) = some rid ∨ Loose oid s id rid
  tasks : ∀ id st, s.statement id = some st → st.oid = oid → ∀ w < st.workers,
    TaskOk pk oid log s id (st.tasks w)
  apart : ∀ id st, s.statement id = some st → st.oid = oid → ∀ w < st.workers, ∀ w' < st.workers, ∀ rid,
    (st.tasks w).probe = .appended rid → (st.tasks w').probe = .appended rid → w = w'

variable {row : RowBytes} {e : Entry}

theorem stored_append (events : List Event) (stored : Stored (events ++ log) id e row) :
    Stored events id e row ∨ Stored log id e row := by
  rcases stored with member | member <;> rcases List.mem_append.mp member with new | old
  · exact .inl (.inl new)
  · exact .inr (.inl old)
  · exact .inl (.inr new)
  · exact .inr (.inr old)

variable {task : Task}

theorem TaskOk.advance (ok : TaskOk pk oid log s id task) (batches : List Job) (applied : List (Job × RID))
    (combining : Bool) : TaskOk pk oid log s id ⟨batches, task.rest.tail, applied, combining, .unclassified⟩ := by
  refine ⟨?_, fun rid probe => ?_, fun rid probe => ?_⟩
  · intro rid old new member
    exact ok.updates rid old new (List.mem_of_mem_tail member)
  · simp at probe
  · simp at probe

/-- The row may be stored at the row id: the directory has it there, or the transaction alone has
rows there, and one with this key. -/
def Backed (pk : IndexInfo κ) (oid : Nat) (log : List Event) (s : Engine κ) (id : Int) (rid : RID)
    (row : RowBytes) : Prop :=
  s.directory oid (pk.key row) = some rid ∨
    (Loose oid s id rid ∧ ∃ old, Stored log id ⟨oid, rid⟩ old ∧ pk.key old = pk.key row)

variable {w : Nat}

/-- A move of one worker: the directory gains at most the key of the row the worker has pending, and rows
are stored where they belong or in a slot that never held one. -/
structure Grown (pk : IndexInfo κ) (oid : Nat) (log events : List Event) (s next : Engine κ) (id : Int)
    (w : Nat) : Prop where
  kept : ∀ k rid, s.directory oid k = some rid → next.directory oid k = some rid
  gained : ∀ k rid, next.directory oid k = some rid → s.directory oid k = some rid ∨
    ∃ st row, s.statement id = some st ∧ st.oid = oid ∧ w < st.workers ∧ (st.tasks w).probe = .appended rid ∧
      (st.tasks w).rest.head? = some (.insert row) ∧ pk.key row = k
  failed : ∀ id, s.failed id = true → next.failed id = true
  stores : ∀ id rid row, Stored events id ⟨oid, rid⟩ row → Backed pk oid log s id rid row ∨
    (Loose oid next id rid ∧ ∀ other row', ¬Stored log other ⟨oid, rid⟩ row')

theorem grown_aside (directory : next.directory oid = s.directory oid)
    (failed : ∀ id, s.failed id = true → next.failed id = true)
    (stores : ∀ id rid row, Stored events id ⟨oid, rid⟩ row → Backed pk oid log s id rid row) :
    Grown pk oid log events s next id w :=
  ⟨fun _ _ => (directory ▸ ·), fun _ _ known => .inl (directory ▸ known), failed,
    fun id rid row stored => .inl (stores id rid row stored)⟩

theorem unwritten (id : Int) (rid : RID) (row : RowBytes) (stored : Stored [] id ⟨oid, rid⟩ row) :
    Backed pk oid log s id rid row := by
  simp [Stored] at stored

theorem TaskOk.grown {actor : Int} (ok : TaskOk pk oid log s id task)
    (grown : Grown pk oid log events s next actor w)
    (still : ∀ k rid, task.probe = .appended rid → next.directory oid k = some rid → s.directory oid k = some rid) :
    TaskOk pk oid (events ++ log) next id task := by
  constructor
  · intro rid old new member
    obtain ⟨writer, stored, source⟩ := ok.updates rid old new member
    refine ⟨writer, stored.append events, source.imp_right ?_⟩
    rintro ⟨commitTs, committed⟩
    exact ⟨commitTs, List.mem_append_right _ committed⟩
  · intro rid probe
    obtain ⟨row, hand, known⟩ := ok.found rid probe
    exact ⟨row, hand, grown.kept _ _ known⟩
  · intro rid probe
    obtain ⟨free, row, hand, stored, only⟩ := ok.pinned rid probe
    refine ⟨fun k known => free k (still k rid probe known), row, hand, stored.append events, ?_⟩
    intro other row' here
    rcases stored_append events here with new | old
    · rcases grown.stores other rid row' new with (known | ⟨-, old, before, same⟩) | ⟨-, unstored⟩
      · exact absurd known (free _)
      · obtain ⟨rfl, key⟩ := only other old before
        exact ⟨rfl, same.symm.trans key⟩
      · exact absurd stored (unstored id row)
    · exact only other row' old

variable {st : Statement}

section
variable (keyed : Keyed pk oid log s)
include keyed

/-- What the directory gains is held by the worker's transaction, under its key alone. -/
theorem Keyed.gained (grown : Grown pk oid log events s next id w) {k : κ} {rid : RID}
    (known : next.directory oid k = some rid) : s.directory oid k = some rid ∨
      (∀ k', s.directory oid k' ≠ some rid) ∧ (∃ row, Stored log id ⟨oid, rid⟩ row) ∧
        ∀ other row, Stored log other ⟨oid, rid⟩ row → other = id ∧ pk.key row = k := by
  refine (grown.gained k rid known).imp_right ?_
  rintro ⟨st, row, running, table, worker, probe, head, rfl⟩
  obtain ⟨free, row₀, head₀, stored, only⟩ := (keyed.tasks id st running table w worker).pinned rid probe
  rw [head] at head₀
  cases head₀
  exact ⟨free, ⟨row, stored⟩, only⟩

theorem Keyed.statement (grown : Grown pk oid log events s next id w)
    {new : Option Statement} (changed : next.statement = update s.statement id new)
    (pending : ∀ rid, Pending oid s id rid →
      next.failed id = true ∨ Pending oid next id rid ∨ ∃ k, next.directory oid k = some rid)
    (tasks : ∀ st, new = some st → st.oid = oid → ∀ w < st.workers, TaskOk pk oid (events ++ log) next id (st.tasks w))
    (apart : ∀ st, new = some st → st.oid = oid → ∀ w < st.workers, ∀ w' < st.workers, ∀ rid,
      (st.tasks w).probe = .appended rid → (st.tasks w').probe = .appended rid → w = w') :
    Keyed pk oid (events ++ log) next := by
  have elsewhere : ∀ other, other ≠ id → next.statement other = s.statement other :=
    fun other distinct => by rw [changed, update_of_ne distinct]
  have here : next.statement id = new := by rw [changed, update_self]
  have carried : ∀ other rid row, Backed pk oid log s other rid row →
      next.directory oid (pk.key row) = some rid ∨ Loose oid next other rid := by
    rintro other rid row (known | ⟨⟨unknown, source⟩, old, stored, same⟩)
    · exact .inl (grown.kept _ _ known)
    by_cases taken : ∃ k, next.directory oid k = some rid
    · obtain ⟨k, known⟩ := taken
      rcases keyed.gained grown known with before | ⟨-, -, only⟩
      · exact absurd before (unknown k)
      · rw [← same, (only other old stored).2]
        exact .inl known
    refine .inr ⟨fun k known => taken ⟨k, known⟩, ?_⟩
    rcases source with failing | waiting
    · exact .inl (grown.failed other failing)
    by_cases mine : other = id
    · subst mine
      exact (pending rid waiting).imp_right fun kept => kept.resolve_right taken
    · obtain ⟨st, running, rest⟩ := waiting
      exact .inr ⟨st, by rw [elsewhere other mine]; exact running, rest⟩
  have matched : ∀ k k' rid, s.directory oid k = some rid → next.directory oid k' = some rid → k = k' := by
    intro k k' rid known known'
    rcases keyed.gained grown known' with before | ⟨free, -⟩
    · exact keyed.injective k k' rid known before
    · exact absurd known (free k)
  constructor
  · intro k k' rid first second
    rcases keyed.gained grown first with before | ⟨-, ⟨row, stored⟩, only⟩
    · exact matched k k' rid before second
    rcases keyed.gained grown second with before | ⟨-, -, only'⟩
    · exact (matched k' k rid before first).symm
    · exact (only id row stored).2.symm.trans (only' id row stored).2
  · intro k rid known
    rcases keyed.gained grown known with before | ⟨-, ⟨row, stored⟩, -⟩
    · obtain ⟨writer, row, stored⟩ := keyed.listed k rid before
      exact ⟨writer, row, stored.append events⟩
    · exact ⟨id, row, stored.append events⟩
  · intro other rid row stored
    rcases stored_append events stored with new | old
    · exact (grown.stores other rid row new).elim (carried other rid row) fun loose => .inr loose.1
    · exact carried other rid row ((keyed.written other rid row old).imp_right fun loose => ⟨loose, row, old, rfl⟩)
  · intro other st running table w' worker
    by_cases mine : other = id
    · subst mine
      exact tasks st (here.symm.trans running) table w' worker
    · rw [elsewhere other mine] at running
      have ok := keyed.tasks other st running table w' worker
      refine ok.grown grown fun k rid probe known => (keyed.gained grown known).resolve_right ?_
      rintro ⟨-, -, only⟩
      obtain ⟨-, row, -, stored, -⟩ := ok.pinned rid probe
      exact mine (only other row stored).1
  · intro other st running table
    by_cases mine : other = id
    · subst mine
      exact apart st (here.symm.trans running) table
    · rw [elsewhere other mine] at running
      exact keyed.apart other st running table

/-- One worker of a statement moves. -/
theorem Keyed.worked (grown : Grown pk oid log events s next id w) {st' : Statement}
    (running : s.statement id = some st)
    (changed : next.statement = update s.statement id (some st')) (table : st'.oid = st.oid)
    (workers : st'.workers = st.workers) (set : st'.tasks = update st.tasks w task)
    (ok : st.oid = oid → w < st.workers → TaskOk pk oid log s id (st.tasks w) →
      TaskOk pk oid (events ++ log) next id task)
    (gained : st.oid = oid → w < st.workers → ∀ rid, task.probe = .appended rid →
      (st.tasks w).probe = .appended rid ∨ ∀ other row, ¬Stored log other ⟨oid, rid⟩ row)
    (lost : st.oid = oid → w < st.workers → ∀ rid, (st.tasks w).probe = .appended rid →
      next.failed id = true ∨ task.probe = .appended rid ∨ ∃ k, next.directory oid k = some rid) :
    Keyed pk oid (events ++ log) next := by
  have elsewhere : ∀ w', w' ≠ w → st'.tasks w' = st.tasks w' := fun w' distinct => by
    rw [set, update_of_ne distinct]
  have here : st'.tasks w = task := by rw [set, update_self]
  refine keyed.statement grown changed ?_ ?_ ?_
  · rintro rid ⟨st₀, running₀, table₀, w', worker, probe⟩
    rw [running] at running₀
    cases running₀
    have still : (st'.tasks w').probe = .appended rid → Pending oid next id rid := fun probe' =>
      ⟨st', by rw [changed, update_self], table.trans table₀, w', workers ▸ worker, probe'⟩
    by_cases mine : w' = w
    · subst mine
      exact (lost table₀ worker rid probe).imp_right fun kept => kept.imp_left fun after => still (here ▸ after)
    · exact .inr (.inl (still (by rw [elsewhere w' mine]; exact probe)))
  · intro after same table' w' worker
    cases same
    rw [table] at table'
    rw [workers] at worker
    have before := keyed.tasks id st running table' w' worker
    by_cases mine : w' = w
    · subst mine
      rw [here]
      exact ok table' worker before
    · rw [elsewhere w' mine]
      refine before.grown grown fun k rid probe known => (grown.gained k rid known).resolve_right ?_
      rintro ⟨st₀, row, running₀, -, worker₀, probe₀, -⟩
      rw [running] at running₀
      cases running₀
      exact mine (keyed.apart id st running table' w' worker w worker₀ rid probe probe₀)
  · intro after same table' w₁ worker₁ w₂ worker₂ rid first second
    cases same
    rw [table] at table'
    rw [workers] at worker₁ worker₂
    have held : ∀ w' < st.workers, (st'.tasks w').probe = .appended rid → (st.tasks w').probe = .appended rid ∨
        w' = w ∧ ∀ other row, ¬Stored log other ⟨oid, rid⟩ row := by
      intro w' worker probe
      by_cases mine : w' = w
      · subst mine
        exact (gained table' worker rid (here ▸ probe)).imp_right fun unstored => ⟨rfl, unstored⟩
      · exact .inl (elsewhere w' mine ▸ probe)
    have stored : ∀ w' < st.workers, (st.tasks w').probe = .appended rid → ∃ row, Stored log id ⟨oid, rid⟩ row := by
      intro w' worker probe
      obtain ⟨-, row, -, here, -⟩ := (keyed.tasks id st running table' w' worker).pinned rid probe
      exact ⟨row, here⟩
    rcases held w₁ worker₁ first with old | ⟨rfl, unstored⟩ <;>
      rcases held w₂ worker₂ second with old' | ⟨same, unstored'⟩
    · exact keyed.apart id st running table' w₁ worker₁ w₂ worker₂ rid old old'
    · obtain ⟨row, here⟩ := stored w₁ worker₁ old
      exact absurd here (unstored' id row)
    · obtain ⟨row, here⟩ := stored w₂ worker₂ old'
      exact absurd here (unstored id row)
    · exact same.symm

/-- A worker moves on without a change to the directory. -/
theorem Keyed.turned {st' : Statement} (directory : next.directory = s.directory)
    (failed : ∀ id, s.failed id = true → next.failed id = true)
    (stores : ∀ id rid row, Stored events id ⟨oid, rid⟩ row → Backed pk oid log s id rid row)
    (running : s.statement id = some st)
    (changed : next.statement = update s.statement id (some st')) (table : st'.oid = st.oid)
    (workers : st'.workers = st.workers) (set : st'.tasks = update st.tasks w task)
    (ok : st.oid = oid → TaskOk pk oid log s id (st.tasks w) → TaskOk pk oid log s id task)
    (probe : st.oid = oid → w < st.workers → (∀ rid, task.probe ≠ .appended rid) ∧ next.failed id = true ∨
      ∀ rid, task.probe = .appended rid ↔ (st.tasks w).probe = .appended rid) :
    Keyed pk oid (events ++ log) next := by
  have same : next.directory oid = s.directory oid := congrFun directory oid
  have grown : Grown pk oid log events s next id w := grown_aside same failed stores
  refine keyed.worked grown running changed table workers set ?_ ?_ ?_
  · intro here worker before
    exact (ok here before).grown grown fun k rid _ known => same ▸ known
  · intro here worker rid after
    rcases probe here worker with ⟨unprobed, -⟩ | same
    · exact absurd after (unprobed rid)
    · exact .inl ((same rid).mp after)
  · intro here worker rid before
    rcases probe here worker with ⟨-, failing⟩ | same
    · exact .inl failing
    · exact .inr (.inl ((same rid).mpr before))

end

theorem Statement.job_head (hand : st.job w = some job) :
    w < st.workers ∧ (st.tasks w).rest.head? = some job := by
  unfold Statement.job at hand
  split at hand
  · next working => exact ⟨working.1, hand⟩
  · cases hand

/-- The slot a new row goes to has never held one. -/
theorem insert_unstored {db db' : Database} (sound : db.Sound log)
    (taken : db.step (.insert id oid row) = some (db', [.inserted id e row])) (other : Int) (row' : RowBytes) :
    ¬Stored log other e row' := by
  intro stored
  have steps := Database.steps_of_step taken
  cases steps with
  | inserted ready table grew placed =>
    exact sound.heaps.insert_absent table grew _ ((sound.sets.lasting _ _ stored.wrote).2 _ table)

theorem stored_source {db db' : Database} {b : Mvcc.Action} (taken : db.step b = some (db', events))
    (stored : Stored events id e row) :
    (∃ oid row, b = .insert id oid row) ∨ ∃ e value, b = .modify id e value := by
  have steps := Database.steps_of_step taken
  cases steps with
  | inserted ready table grew placed =>
    refine .inl ?_
    rcases stored with member | member <;> cases List.mem_singleton.mp member
    exact ⟨_, _, rfl⟩
  | rewrote ready table listed base own written
  | versioned ready table listed base foreign inSnapshot written =>
    refine .inr ?_
    rcases stored with member | member <;> cases List.mem_singleton.mp member
    exact ⟨_, _, rfl⟩
  | _ => simp [Stored] at stored

variable {rid : RID}

section
variable (ok : TaskOk pk oid log s id task)
include ok

theorem TaskOk.looked {probe : Probe}
    (idle : probe = .unclassified ∨ probe = .absent) : TaskOk pk oid log s id { task with probe := probe } := by
  refine ⟨ok.updates, ?_, ?_⟩
  · intro rid here
    rcases idle with rfl | rfl <;> simp at here
  · intro rid here
    rcases idle with rfl | rfl <;> simp at here

theorem TaskOk.hit {probe : Probe}
    (head : task.rest.head? = some (.insert row)) (known : s.directory oid (pk.key row) = some rid)
    (found : probe = .found rid ∨ probe = .dead rid) : TaskOk pk oid log s id { task with probe := probe } := by
  refine ⟨ok.updates, ?_, ?_⟩
  · intro rid' here
    rcases found with rfl | rfl <;> simp at here <;> exact ⟨row, head, here ▸ known⟩
  · intro rid' here
    rcases found with rfl | rfl <;> simp at here

theorem TaskOk.sunk
    (source : ∀ rid old new, job = .update rid old new →
      ∃ writer, Stored log writer ⟨oid, rid⟩ old ∧ (writer = id ∨ ∃ commitTs, Event.committed writer commitTs ∈ log)) :
    TaskOk pk oid log s id { task with batches := task.batches ++ [job], rest := task.rest ++ [job] } := by
  have head : ∀ {row : RowBytes}, task.rest.head? = some (.insert row) →
      (task.rest ++ [job]).head? = some (.insert row) := by
    intro row here
    rw [List.head?_append, here]
    rfl
  refine ⟨?_, ?_, ?_⟩
  · intro rid old new member
    rcases List.mem_append.mp member with before | last
    · exact ok.updates rid old new before
    · exact source rid old new (List.mem_singleton.mp last).symm
  · intro rid probe
    obtain ⟨row, here, known⟩ := ok.found rid probe
    exact ⟨row, head here, known⟩
  · intro rid probe
    obtain ⟨free, row, here, rest⟩ := ok.pinned rid probe
    exact ⟨free, row, head here, rest⟩

theorem TaskOk.deferred {old new : RowBytes} (head : task.rest.head? = some (.update rid old new)) :
    TaskOk pk oid log s id { task with rest := task.rest.tail } := by
  refine ⟨?_, ?_, ?_⟩
  · intro rid' old' new' member
    exact ok.updates rid' old' new' (List.mem_of_mem_tail member)
  · intro rid' probe
    obtain ⟨row, here, -⟩ := ok.found rid' probe
    simp [head] at here
  · intro rid' probe
    obtain ⟨-, row, here, -⟩ := ok.pinned rid' probe
    simp [head] at here

end

theorem buffered_source {fuel : Nat} {input : Input} {old new : RowBytes} (sound : s.db.Sound log)
    (slots : Database.Slots true log s.db) (accepted : s.buffered id st fuel input = some (.update rid old new)) :
    ∃ writer, Stored log writer ⟨st.oid, rid⟩ old ∧
      (writer = id ∨ ∃ commitTs, Event.committed writer commitTs ∈ log) := by
  cases input with
  | insert row => simp [buffered] at accepted
  | delete rid' => simp [buffered] at accepted
  | update rid' new' =>
    simp only [buffered] at accepted
    split at accepted
    · obtain ⟨old', scanned, handed⟩ := Option.bind_eq_some_iff.mp accepted
      obtain ⟨row, -, same⟩ := Option.map_eq_some_iff.mp handed
      cases same
      unfold scans at scanned
      split at scanned
      · next txn heap ready table =>
        split at scanned
        · next listed =>
          have read := Option.join_eq_some_iff.mp scanned
          have viewing := (Database.statementTxn_ready ready).viewing
          have present : s.db.Present ⟨st.oid, rid⟩ := by
            refine ⟨⟨heap, table, listed⟩, ?_⟩
            cases row : s.db.store.getRow rid with
            | none => simp [Database.collectVisibleVersion, row] at read
            | some tuple => exact ⟨tuple, rfl⟩
          exact (slots.shows_of_read (e := ⟨st.oid, rid⟩) sound.ledger sound.control viewing present read).writer
        · cases scanned
      · cases scanned
    · cases accepted

theorem Initial.keyed (initial : s.Initial) : Keyed pk oid [] s := by
  constructor
  · intro k k' rid known
    simp [initial.directory oid k] at known
  · intro k rid known
    simp [initial.directory oid k] at known
  · rintro id rid row (member | member) <;> cases member
  · intro id st running
    simp [initial.statement id] at running
  · intro id st running
    simp [initial.statement id] at running

section
variable (keyed : Keyed pk oid log s)
include keyed

/-- A worker with another job in hand than an insert has no row to register. -/
theorem Keyed.unpinned (running : s.statement id = some st) (table : st.oid = oid) (hand : st.job w = some job)
    (other : ∀ row, job ≠ .insert row) (rid : RID) : (st.tasks w).probe ≠ .appended rid := by
  intro probe
  obtain ⟨worker, head⟩ := Statement.job_head hand
  obtain ⟨-, row, head', -⟩ := (keyed.tasks id st running table w worker).pinned rid probe
  rw [head] at head'
  exact other row (Option.some_inj.mp head')

theorem Keyed.unpending (running : s.statement id = some st) (drained : st.drained) (rid : RID) :
    ¬Pending oid s id rid := by
  rintro ⟨st₀, running₀, table, w, worker, probe⟩
  rw [running] at running₀
  cases running₀
  obtain ⟨-, row, head, -⟩ := (keyed.tasks id st running table w worker).pinned rid probe
  simp [drained w worker] at head

theorem Keyed.appended (sound : s.db.Sound log) {db : Database} (running : s.statement id = some st)
    (hand : st.job w = some (.insert row)) (missed : (st.tasks w).probe = .absent)
    (taken : s.db.step (.insert id st.oid row) = some (db, [.inserted id ⟨st.oid, rid⟩ row])) :
    Keyed pk oid (.inserted id ⟨st.oid, rid⟩ row :: log)
      ({ s with db := db }.setStatement id (some (st.setProbe w (.appended rid)))) := by
  obtain ⟨worker, head⟩ := Statement.job_head hand
  have unstored := insert_unstored sound taken
  have stored_new : ∀ {other : Int} {rid' : RID} {row' : RowBytes},
      Stored [.inserted id ⟨st.oid, rid⟩ row] other ⟨oid, rid'⟩ row' →
      st.oid = oid ∧ other = id ∧ rid' = rid ∧ row' = row := by
    rintro other rid' row' (member | member) <;> cases List.mem_singleton.mp member
    exact ⟨rfl, rfl, rfl, rfl⟩
  have unlisted : st.oid = oid → ∀ k, s.directory oid k ≠ some rid := by
    rintro rfl k entry
    obtain ⟨writer, row', stored⟩ := keyed.listed k rid entry
    exact unstored writer row' stored
  have grown : Grown pk oid log [.inserted id ⟨st.oid, rid⟩ row] s
      ({ s with db := db }.setStatement id (some (st.setProbe w (.appended rid)))) id w := by
    refine ⟨fun _ _ known => known, fun _ _ => .inl, fun _ => (·), fun id' rid' row' stored => .inr ?_⟩
    obtain ⟨rfl, rfl, rfl, rfl⟩ := stored_new stored
    exact ⟨⟨unlisted rfl, .inr ⟨_, update_self _ _ _, rfl, w, worker, by simp [Statement.setProbe, Statement.setTask]⟩⟩,
      unstored⟩
  refine keyed.worked grown running rfl rfl rfl rfl ?_ ?_ ?_
  · intro table _ before
    refine ⟨(before.grown grown fun _ _ _ known => known).updates, by simp, ?_⟩
    rintro rid' probe
    cases probe
    refine ⟨unlisted table, row, head, .inl (by simp [table]), ?_⟩
    intro writer row' stored
    rcases stored_append [_] stored with new | old
    · obtain ⟨-, rfl, -, rfl⟩ := stored_new new
      exact ⟨rfl, rfl⟩
    · exact absurd (table ▸ old) (unstored writer row')
  · intro table _ rid' probe
    cases probe
    exact .inr (table ▸ unstored)
  · intro _ _ rid' probe
    simp [missed] at probe

theorem Keyed.finalized (running : s.statement id = some st) (drained : st.drained) :
    Keyed pk oid ([] ++ log) (s.setStatement id (some st.finalized)) := by
  have spawned : st.finalized.tasks st.workers = ⟨[], (st.changed.map fun moved => Job.delete moved.1) ++
      st.changed.map fun moved => Job.insert moved.2, [], true, .unclassified⟩ := update_self _ _ _
  have stayed : ∀ w, w ≠ st.workers → st.finalized.tasks w = st.tasks w :=
    fun w apart => update_of_ne apart _ _
  have unpending := keyed.unpending running drained
  refine keyed.statement (w := 0) (grown_aside rfl (fun _ => (·)) unwritten) rfl
    (fun rid waiting => absurd waiting (unpending rid)) ?_ ?_
  · intro after same table w worker
    cases same
    have earlier : w < st.workers + 1 := worker
    by_cases last : w = st.workers
    · rw [last, spawned]
      exact ⟨by simp, by simp, by simp⟩
    · rw [stayed w last]
      have ok := keyed.tasks id st running table w (by omega)
      exact ⟨ok.updates, ok.found, ok.pinned⟩
  · intro after same table w worker w' worker' rid probe
    cases same
    have earlier : w < st.workers + 1 := worker
    by_cases last : w = st.workers
    · rw [last, spawned] at probe
      cases probe
    · rw [stayed w last] at probe
      exact absurd ⟨st, running, table, w, by omega, probe⟩ (unpending rid)

theorem Keyed.updated_backed (sessions : Sessions log s) (sound : s.db.Sound log) {old new : RowBytes}
    (same : pk.key old = pk.key new) {writer : Int} (stored : Stored log writer ⟨oid, rid⟩ old)
    (source : writer = id ∨ ∃ commitTs, Event.committed writer commitTs ∈ log) :
    Backed pk oid log s id rid new := by
  unfold Backed
  rw [← same]
  rcases source with rfl | ⟨commitTs, committed⟩
  · exact (keyed.written writer rid old stored).imp_right fun loose => ⟨loose, old, stored, rfl⟩
  · rcases keyed.written writer rid old stored with known | ⟨-, failing | ⟨st, running, -⟩⟩
    · exact .inl known
    · exact absurd committed (sessions.uncommitted writer failing commitTs)
    · exact absurd committed (sound.idle_uncommitted (sessions.idle writer st running) commitTs)

/-- A row visible to a transaction with nothing loose in the table is the one the directory has. -/
theorem Keyed.visible (sessions : Sessions log s) (sound : s.db.Sound log)
    (slots : Database.Slots true log s.db) {t : Transaction} (viewing : s.db.Viewing id t)
    (sane : s.failed id = false) (settled : ∀ rid, ¬Pending oid s id rid) {fuel : Nat}
    (present : s.db.Present ⟨oid, rid⟩) (read : s.db.collectVisibleVersion id t rid fuel = some (some row)) :
    s.directory oid (pk.key row) = some rid := by
  obtain ⟨writer, stored, source⟩ :=
    (slots.shows_of_read (e := ⟨oid, rid⟩) sound.ledger sound.control viewing present read).writer
  rcases keyed.updated_backed sessions sound rfl stored source with known | ⟨⟨-, failing | waiting⟩, -⟩
  · exact known
  · rw [sane] at failing
    cases failing
  · exact absurd waiting (settled rid)

end

variable [DecidableEq κ] {catalog : Catalog κ}

theorem known_registered {directory : Nat → κ → Option RID} {table : Nat} {key k : κ} {rid' : RID}
    (unknown : directory table key = none) (known : directory oid k = some rid') :
    update directory table (update (directory table) key (some rid)) oid k = some rid' := by
  by_cases here : oid = table
  · subst here
    have apart : k ≠ key := by
      rintro rfl
      simp [unknown] at known
    rw [update_self, update_of_ne apart, known]
  · rw [update_of_ne here, known]

theorem registered_cases {directory : Nat → κ → Option RID} {table : Nat} {key k : κ} {rid' : RID}
    (known : update directory table (update (directory table) key (some rid)) oid k = some rid') :
    directory oid k = some rid' ∨ (oid = table ∧ k = key ∧ rid' = rid) := by
  by_cases here : oid = table
  · subst here
    rw [update_self] at known
    rcases of_update known with ⟨same, new⟩ | ⟨-, old⟩
    · exact .inr ⟨rfl, same, (Option.some_inj.mp new).symm⟩
    · exact .inl old
  · rw [update_of_ne here] at known
    exact .inl known

theorem Keyed.registered (keyed : Keyed pk oid log s) {info : IndexInfo κ} (own : st.oid = oid → info = pk)
    (running : s.statement id = some st)
    (hand : st.job w = some (.insert row)) (pending : (st.tasks w).probe = .appended rid)
    (unknown : s.directory st.oid (info.key row) = none) : Keyed pk oid log ({ s with
      directory := update s.directory st.oid (update (s.directory st.oid) (info.key row) (some rid)) }.setStatement
        id (some (st.advance w (.insert row) rid))) := by
  obtain ⟨worker, head⟩ := Statement.job_head hand
  have grown : Grown pk oid log [] s ({ s with
      directory := update s.directory st.oid (update (s.directory st.oid) (info.key row) (some rid)) }.setStatement
        id (some (st.advance w (.insert row) rid))) id w := by
    refine ⟨fun _ _ => known_registered unknown, ?_, fun _ failed => failed,
      fun id rid row stored => .inl (unwritten id rid row stored)⟩
    intro k rid' entry
    refine (registered_cases entry).imp_right ?_
    rintro ⟨rfl, rfl, rfl⟩
    cases own rfl
    exact ⟨st, row, running, rfl, worker, pending, head, rfl⟩
  refine keyed.worked grown running rfl rfl rfl rfl ?_ ?_ ?_
  · exact fun table _ before => (before.advance _ _ _).grown grown fun _ _ probe => (by cases probe)
  · intro table _ rid' probe
    cases probe
  · rintro rfl _ rid' probe
    rw [pending] at probe
    cases probe
    exact .inr (.inr ⟨info.key row, by simp [setStatement]⟩)

theorem Keyed.step (keyed : Keyed pk oid log s) (declared : (catalog oid).primaryKey = some pk)
    (sessions : Sessions log s) (sound : s.db.Sound log) (slots : Database.Slots true log s.db)
    (moves : Moves catalog s a next events) : Keyed pk oid (events ++ log) next := by
  have failing : ∀ id, s.failed id = true → next.failed id = true :=
    fun id failed => moves.handles.failed_kept failed
  cases moves with
  | @controlled b db events apart apart' commits kept taken =>
    have grown : Grown pk oid log events s { s with db := db } 0 0 := by
      refine grown_aside rfl failing fun id rid row stored => ?_
      rcases stored_source taken stored with ⟨_, _, same⟩ | ⟨_, _, same⟩
      · exact absurd same (apart _ _ _)
      · exact absurd same (apart' _ _ _)
    refine keyed.statement grown (update_eq_self 0 s.statement).symm ?_ ?_ ?_
    · exact fun rid waiting => .inr (.inl waiting)
    · exact fun st running table w worker => (keyed.tasks 0 st running table w worker).grown grown fun _ _ _ => id
    · exact fun st running table => keyed.apart 0 st running table
  | @aborting id db events doomed taken =>
    refine keyed.statement (w := 0) (grown_aside rfl failing ?_) rfl ?_ (fun st same => by cases same)
      (fun st same => by cases same)
    · intro id rid row stored
      rcases stored_source taken stored with ⟨_, _, same⟩ | ⟨_, _, same⟩ <;> cases same
    · rintro rid ⟨st, running, -⟩
      exact .inl (sessions.thrown id st running (doomed st running))
  | started none ready =>
    refine keyed.statement (w := 0) (grown_aside rfl failing unwritten) rfl ?_ ?_ ?_
    · rintro rid ⟨st, running, -⟩
      simp [none] at running
    · intro st same table w worker
      cases same
      exact ⟨by simp, by simp, by simp⟩
    · intro st same table w worker w' worker' rid probe
      cases same
      simp at probe
  | @sunk id w fuel input st job running worker sinking accepted =>
    refine keyed.turned rfl failing unwritten running rfl rfl rfl rfl ?_ fun _ _ => .inr fun _ => Iff.rfl
    intro table before
    refine before.sunk ?_
    rintro rid old new rfl
    rw [← table]
    exact buffered_source sound slots accepted
  | combined running worker =>
    exact keyed.turned rfl failing unwritten running rfl rfl rfl rfl
      (fun _ before => ⟨before.updates, before.found, before.pinned⟩) fun _ _ => .inr fun _ => Iff.rfl
  | keyAbsent running hand known fresh =>
    exact keyed.turned rfl failing unwritten running rfl rfl rfl rfl (fun _ before => before.looked (.inr rfl))
      fun _ _ => .inr (by simp [fresh])
  | @keyFound id w st row info rid running hand known fresh entry =>
    refine keyed.turned rfl failing unwritten running rfl rfl rfl rfl ?_ fun _ _ => .inr (by simp [fresh])
    intro table before
    rw [table, declared] at known
    cases known
    exact before.hit (Statement.job_head hand).2 (table ▸ entry) (.inl rfl)
  | appended running hand known missed taken => exact keyed.appended sound running hand missed taken
  | @inserted id w st row db rid running hand unkeyed taken =>
    have table : st.oid ≠ oid := by
      rintro rfl
      simp [declared] at unkeyed
    refine keyed.turned rfl failing ?_ running rfl rfl rfl rfl (absurd · table) (absurd · table)
    rintro id' rid' row' (member | member) <;> cases List.mem_singleton.mp member
    exact absurd rfl table
  | refused running statement taken | threw running =>
    exact keyed.turned rfl failing unwritten running rfl rfl rfl rfl (fun _ _ => ⟨by simp, by simp, by simp⟩)
      fun _ _ => .inl ⟨by simp, update_self _ _ _⟩
  | registered running hand known pending unknown =>
    refine keyed.registered ?_ running hand pending unknown
    rintro rfl
    exact Option.some_inj.mp (known.symm.trans declared)
  | @invisible id w fuel st row txn rid running hand ready found unseen =>
    refine keyed.turned rfl failing unwritten running rfl rfl rfl rfl ?_ fun _ _ => .inr (by simp [found])
    intro table before
    obtain ⟨row', head, known⟩ := before.found rid (.inl found)
    exact before.hit head known (.inr rfl)
  | @revived id w st row db rid running hand unseen taken =>
    refine keyed.turned rfl failing ?_ running rfl rfl rfl rfl (fun _ before => before.advance _ _ _)
      fun _ _ => .inr (by simp [unseen])
    rintro id' rid' row' (member | member) <;> cases List.mem_singleton.mp member
    obtain ⟨worker, head⟩ := Statement.job_head hand
    obtain ⟨row₀, head₀, known⟩ := (keyed.tasks id st running rfl w worker).found rid (.inr unseen)
    rw [head] at head₀
    cases head₀
    exact .inl known
  | @updated id w st rid old new db running hand same taken =>
    refine keyed.turned rfl failing ?_ running rfl rfl rfl rfl (fun _ before => before.advance _ _ _)
      fun table _ => .inr (by simp [keyed.unpinned running table hand])
    rintro id' rid' row' (member | member) <;> cases List.mem_singleton.mp member
    obtain ⟨worker, head⟩ := Statement.job_head hand
    obtain ⟨writer, stored, source⟩ :=
      (keyed.tasks id st running rfl w worker).updates rid old new (List.mem_of_head? head)
    exact keyed.updated_backed sessions sound (congrArg pk.value (same pk declared)) stored source
  | @deleted id w st rid db running hand taken =>
    exact keyed.turned rfl failing (by simp [Stored]) running rfl rfl rfl rfl (fun _ before => before.advance _ _ _)
      fun table _ => .inr (by simp [keyed.unpinned running table hand])
  | deferred running hand =>
    exact keyed.turned rfl failing unwritten running rfl rfl rfl rfl
      (fun _ before => before.deferred (Statement.job_head hand).2) fun _ _ => .inr fun _ => Iff.rfl
  | finalized running drained => exact keyed.finalized running drained
  | finished running drained unmoved clean =>
    exact keyed.statement (w := 0) (grown_aside rfl failing unwritten) rfl
      (fun rid waiting => absurd waiting (keyed.unpending running drained rid)) (fun st same => by cases same)
      (fun st same => by cases same)

end Engine

end BumbleBee.Execution
