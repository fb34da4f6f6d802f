import BumbleBee.Execution.PrimaryKey
import BumbleBee.Mvcc.FirstCommitter

/-!
The workers of one INSERT. As long as no worker revives a slot in which its own
transaction has just put a row, every row a worker has applied stays in the slot the
directory has for its key, so a statement that completes has taken every key once.
-/

namespace BumbleBee.Execution
open Library.Transition Mvcc Storage Storage.SlottedPage Concurrency Function

namespace Engine

variable {κ : Type} {pk : IndexInfo κ} {oid : Nat} {s next : Engine κ} {id : Int}
  {a : Action} {events log : List Event} {st st' : Statement}

/-- The slot a worker is about to revive holds no live version of its own transaction. -/
def ReviveClear (s : Engine κ) (a : Action) : Prop :=
  ∀ id w st rid tuple, a = .revive id w → s.statement id = some st → (st.tasks w).probe = .dead rid →
    s.db.store.getRow rid = some tuple → ¬(tuple.1.ts = id ∧ tuple.1.isDeleted = false)

def Lossless (s : Engine κ) (a : Action) : Prop := Under Database.FixedTables s a ∧ s.ReviveClear a

/-- A worker of an INSERT: what it was offered is what it has applied and what is left, and what it has
applied is in place. -/
structure WorkerOk (pk : IndexInfo κ) (log : List Event) (s : Engine κ) (id : Int) (oid : Nat) (thrown : Bool)
    (task : Task) : Prop where
  inserts : ∀ job ∈ task.rest, ∃ row, job = .insert row
  accounted : thrown = false → task.batches = task.applied.map Prod.fst ++ task.rest
  landed : ∀ row rid, (Job.insert row, rid) ∈ task.applied →
    s.directory oid (pk.key row) = some rid ∧ lastWrite id ⟨oid, rid⟩ log = some (some row)
  pending : ∀ row rid, task.probe = .appended rid → task.rest.head? = some (.insert row) →
    lastWrite id ⟨oid, rid⟩ log = some (some row)

/-- The workers have applied every key once. -/
structure InsertOk (pk : IndexInfo κ) (log : List Event) (s : Engine κ) (id : Int) (st : Statement) : Prop where
  unmoved : st.changed = []
  workers : ∀ w < st.workers, WorkerOk pk log s id st.oid st.thrown (st.tasks w)
  once : ∀ w < st.workers, ∀ w' < st.workers, ∀ (i j : Nat) row rid row' rid',
    (st.tasks w).applied[i]? = some (Job.insert row, rid) → (st.tasks w').applied[j]? = some (Job.insert row', rid') →
    pk.key row = pk.key row' → w = w' ∧ i = j

/-- A statement whose rows stay where they are. -/
theorem InsertOk.carried {log' : List Event} (ok : InsertOk pk log s id st)
    (grows : ∀ k rid, s.directory st.oid k = some rid → next.directory st.oid k = some rid)
    (kept : ∀ rid row, lastWrite id ⟨st.oid, rid⟩ log = some (some row) →
      lastWrite id ⟨st.oid, rid⟩ log' = some (some row)) : InsertOk pk log' next id st := by
  refine ⟨ok.unmoved, fun w worker => ?_, ok.once⟩
  obtain ⟨inserts, accounted, landed, pending⟩ := ok.workers w worker
  refine ⟨inserts, accounted, ?_, fun row rid probe head => kept rid row (pending row rid probe head)⟩
  intro row rid member
  exact (landed row rid member).imp (grows _ _) (kept rid row)

variable {w : Nat} {task : Task}

theorem InsertOk.turned (ok : InsertOk pk log s id st)
    (same : st'.oid = st.oid ∧ st'.workers = st.workers ∧ st'.changed = st.changed)
    (clean : st'.thrown = false → st.thrown = false) (set : st'.tasks = update st.tasks w task)
    (applied : task.applied = (st.tasks w).applied)
    (moved : w < st.workers → WorkerOk pk log s id st.oid st'.thrown task) : InsertOk pk log s id st' := by
  obtain ⟨table, workers, changed⟩ := same
  have kept : ∀ w', (st'.tasks w').applied = (st.tasks w').applied := by
    intro w'
    rw [set]
    by_cases mine : w' = w
    · rw [mine, update_self, applied]
    · rw [update_of_ne mine]
  refine ⟨changed.trans ok.unmoved, ?_, ?_⟩
  · intro w' worker
    rw [workers] at worker
    rw [table, set]
    by_cases mine : w' = w
    · subst mine
      rw [update_self]
      exact moved worker
    · rw [update_of_ne mine]
      obtain ⟨inserts, accounted, landed, pending⟩ := ok.workers w' worker
      exact ⟨inserts, fun unthrown => accounted (clean unthrown), landed, pending⟩
  · intro w₁ worker₁ w₂ worker₂ i j row rid row' rid' first second
    rw [workers] at worker₁ worker₂
    rw [kept] at first second
    exact ok.once w₁ worker₁ w₂ worker₂ i j row rid row' rid' first second

variable {row : RowBytes} {rid : RID}

/-- A worker applies its row at hand in a slot no other applied or pending row is in. -/
theorem InsertOk.advanced (ok : InsertOk pk log s id st) (hand : st.job w = some (.insert row))
    (known : s.directory st.oid (pk.key row) = some rid)
    (write : lastWrite id ⟨st.oid, rid⟩ log = some (some row))
    (alone : ∀ w' < st.workers, ∀ row' rid', (Job.insert row', rid') ∈ (st.tasks w').applied → pk.key row' ≠ pk.key row) :
    InsertOk pk log s id (st.advance w (.insert row) rid) := by
  obtain ⟨worker₀, head⟩ := Statement.job_head hand
  obtain ⟨rest, split⟩ : ∃ rest, (st.tasks w).rest = .insert row :: rest := by
    cases here : (st.tasks w).rest with
    | nil => simp [here] at head
    | cons job rest =>
      rw [here] at head
      cases head
      exact ⟨rest, rfl⟩
  have here : (st.advance w (.insert row) rid).tasks w = ⟨(st.tasks w).batches, (st.tasks w).rest.tail,
      (st.tasks w).applied ++ [(.insert row, rid)], (st.tasks w).combining, .unclassified⟩ := update_self _ _ _
  have elsewhere : ∀ w', w' ≠ w → (st.advance w (.insert row) rid).tasks w' = st.tasks w' :=
    fun w' apart => update_of_ne apart _ _
  have origin : ∀ w' row' rid' (i : Nat),
      ((st.advance w (.insert row) rid).tasks w').applied[i]? = some (Job.insert row', rid') →
      (st.tasks w').applied[i]? = some (Job.insert row', rid') ∨
        (w' = w ∧ i = (st.tasks w).applied.length ∧ row' = row ∧ rid' = rid) := by
    intro w' row' rid' i found
    by_cases mine : w' = w
    · subst mine
      rw [here, List.getElem?_append] at found
      split at found
      · exact .inl found
      · next past =>
        have last : i - (st.tasks w').applied.length = 0 := by
          by_contra beyond
          rw [List.getElem?_eq_none (by simp; omega)] at found
          cases found
        rw [last] at found
        cases found
        exact .inr ⟨rfl, by omega, rfl, rfl⟩
    · rw [elsewhere w' mine] at found
      exact .inl found
  refine ⟨ok.unmoved, ?_, ?_⟩
  · intro w' worker
    obtain ⟨inserts, accounted, landed, pending⟩ := ok.workers w' worker
    by_cases mine : w' = w
    · subst mine
      rw [here]
      refine ⟨fun job member => inserts job (List.mem_of_mem_tail member), ?_, ?_, fun _ _ probe => by cases probe⟩
      · intro unthrown
        simp [accounted unthrown, split]
      · intro row' rid' member
        rcases List.mem_append.mp member with old | last
        · exact landed row' rid' old
        · cases List.mem_singleton.mp last
          exact ⟨known, write⟩
    · rw [elsewhere w' mine]
      exact ⟨inserts, accounted, landed, pending⟩
  · intro w₁ worker₁ w₂ worker₂ i j row₁ rid₁ row₂ rid₂ first second same
    rcases origin w₁ row₁ rid₁ i first with old | ⟨rfl, rfl, rfl, rfl⟩ <;>
      rcases origin w₂ row₂ rid₂ j second with old' | ⟨left, right, rfl, rfl⟩
    · exact ok.once w₁ worker₁ w₂ worker₂ i j row₁ rid₁ row₂ rid₂ old old' same
    · exact absurd same (alone w₁ worker₁ row₁ rid₁ (List.mem_of_getElem? old))
    · exact absurd same.symm (alone w₂ worker₂ row₂ rid₂ (List.mem_of_getElem? old'))
    · exact ⟨left.symm, right.symm⟩

theorem own_live {t : Transaction} (sound : s.db.Sound log) (slots : Database.Slots true log s.db)
    (ready : s.db.Ready id t) {e : Entry} {heap : TableHeap} (table : s.db.tables e.oid = some heap)
    (write : lastWrite id e log = some (some row)) :
    ∃ tuple, s.db.store.getRow e.rid = some tuple ∧ tuple.1.ts = id ∧ tuple.1.isDeleted = false := by
  have wrote : Wrote log id e := ⟨_, write⟩
  have present := (sound.sets.lasting id e wrote).2 heap table
  have member : e ∈ s.db.pending id := by
    rw [ready.viewing.pending]
    exact (slots.writes id t ready.found e).mpr wrote
  obtain ⟨tuple, base, stamp, written⟩ := (slots.held id t e ready.found member present).base
  rw [ready.viewing.stampTs] at stamp
  rw [write] at written
  refine ⟨tuple, base, stamp, ?_⟩
  cases deleted : tuple.1.isDeleted with
  | false => rfl
  | true => simp [tupleVersion, deleted] at written

variable {db : Database}

theorem lastWrite_controlled {db' : Database} {b : Mvcc.Action} (taken : db.step b = some (db', events))
    (apart : ∀ id oid row, b ≠ .insert id oid row) (apart' : ∀ id e value, b ≠ .modify id e value) (id : Int)
    (e : Entry) : lastWrite id e (events ++ log) = lastWrite id e log := by
  have steps := Database.steps_of_step taken
  cases steps with
  | inserted ready table grew placed => exact absurd rfl (apart _ _ _)
  | rewrote ready table listed base own stored => exact absurd rfl (apart' _ _ _)
  | versioned ready table listed base foreign inSnapshot stored => exact absurd rfl (apart' _ _ _)
  | _ => rfl

theorem InsertOk.appended (ok : InsertOk pk log s id st) (hand : st.job w = some (.insert row))
    (unstored : ∀ other row', ¬Stored log other ⟨st.oid, rid⟩ row') :
    InsertOk pk (.inserted id ⟨st.oid, rid⟩ row :: log)
      ({ s with db := db }.setStatement id (some (st.setProbe w (.appended rid)))) id
      (st.setProbe w (.appended rid)) := by
  have head := (Statement.job_head hand).2
  have extended : InsertOk pk (.inserted id ⟨st.oid, rid⟩ row :: log)
      ({ s with db := db }.setStatement id (some (st.setProbe w (.appended rid)))) id st := by
    refine ok.carried (fun _ _ known => known) ?_
    intro rid' row' write
    rw [(recordsWrite_inserted id ⟨st.oid, rid⟩ row).elsewhere]
    · exact write
    · rintro ⟨-, same⟩
      cases same
      exact unstored id row' (stored_of_lastWrite write)
  refine extended.turned ⟨rfl, rfl, rfl⟩ (fun clean => clean) rfl rfl fun worker => ?_
  obtain ⟨inserts, accounted, landed, -⟩ := extended.workers w worker
  refine ⟨inserts, accounted, landed, fun row' rid' probe head' => ?_⟩
  cases probe
  rw [head] at head'
  cases head'
  simp [lastWrite]

theorem InsertOk.revived (ok : InsertOk pk log s id st) (hand : st.job w = some (.insert row))
    (known : s.directory st.oid (pk.key row) = some rid)
    (clear : ∀ row', lastWrite id ⟨st.oid, rid⟩ log ≠ some (some row')) :
    InsertOk pk (.modified id ⟨st.oid, rid⟩ (some row) :: log)
      ({ s with db := db }.setStatement id (some (st.advance w (.insert row) rid))) id
      (st.advance w (.insert row) rid) := by
  have extended : InsertOk pk (.modified id ⟨st.oid, rid⟩ (some row) :: log)
      ({ s with db := db }.setStatement id (some (st.advance w (.insert row) rid))) id st := by
    refine ok.carried (fun _ _ known => known) ?_
    intro rid' row' write
    rw [(recordsWrite_modified id ⟨st.oid, rid⟩ (some row)).elsewhere]
    · exact write
    · rintro ⟨-, same⟩
      cases same
      exact clear row' write
  refine extended.advanced hand known (by simp [lastWrite]) ?_
  intro w' worker row' rid' member same
  obtain ⟨entry, write⟩ := (ok.workers w' worker).landed row' rid' member
  rw [same, known] at entry
  cases entry
  exact clear row' write

theorem modify_ready {db' : Database} {e : Entry} {value : Option RowBytes}
    (taken : db.step (.modify id e value) = some (db', [.modified id e value])) :
    ∃ t heap, db.Ready id t ∧ db.tables e.oid = some heap := by
  have steps := Database.steps_of_step taken
  cases steps with
  | rewrote ready table listed base own stored => exact ⟨_, _, ready, table⟩
  | versioned ready table listed base foreign inSnapshot stored => exact ⟨_, _, ready, table⟩

theorem ReviveClear.unwritten (clear : s.ReviveClear (.revive id w)) (sound : s.db.Sound log)
    (slots : Database.Slots true log s.db) (running : s.statement id = some st)
    (unseen : (st.tasks w).probe = .dead rid)
    (taken : s.db.step (.modify id ⟨st.oid, rid⟩ (some row)) = some (db, [.modified id ⟨st.oid, rid⟩ (some row)]))
    (row' : RowBytes) : lastWrite id ⟨st.oid, rid⟩ log ≠ some (some row') := by
  intro write
  obtain ⟨t, heap, ready, table⟩ := modify_ready taken
  obtain ⟨tuple, base, own, live⟩ := own_live sound slots ready table write
  exact clear id w st rid tuple rfl running unseen base ⟨own, live⟩

theorem WorkerOk.sunk {thrown : Bool} (ok : WorkerOk pk log s id oid thrown task) (row : RowBytes)
    (pinned : ∀ rid, task.probe = .appended rid → ∃ row, task.rest.head? = some (.insert row)) :
    WorkerOk pk log s id oid thrown
      { task with batches := task.batches ++ [.insert row], rest := task.rest ++ [.insert row] } := by
  obtain ⟨inserts, accounted, landed, pending⟩ := ok
  refine ⟨?_, fun clean => by simp [accounted clean], landed, ?_⟩
  · intro job member
    rcases List.mem_append.mp member with before | last
    · exact inserts job before
    · exact ⟨row, List.mem_singleton.mp last⟩
  · intro row' rid probe head
    obtain ⟨first, here⟩ := pinned rid probe
    rw [List.head?_append, here] at head
    cases head
    exact pending _ rid probe here

theorem buffered_insert {fuel : Nat} {input : Input} {job : Job} (type : st.type = .insert)
    (accepted : s.buffered id st fuel input = some job) : ∃ row, job = .insert row := by
  cases input with
  | insert row =>
    simp only [buffered, type, if_true] at accepted
    obtain ⟨handed, -, same⟩ := Option.map_eq_some_iff.mp accepted
    exact ⟨handed, same.symm⟩
  | update rid new => simp [buffered, type] at accepted
  | delete rid => simp [buffered, type] at accepted

/-- Every running INSERT on the table has its rows in place. -/
def Inserting (pk : IndexInfo κ) (oid : Nat) (log : List Event) (s : Engine κ) : Prop :=
  ∀ id st, s.statement id = some st → st.oid = oid → st.type = .insert → InsertOk pk log s id st

section
variable (inserting : Inserting pk oid log s)
include inserting

/-- A move that replaces one statement and leaves the last writes of all other transactions. -/
theorem Inserting.replaced {actor : Int} {new : Option Statement}
    (changed : next.statement = update s.statement actor new)
    (grows : ∀ k rid, s.directory oid k = some rid → next.directory oid k = some rid)
    (writes : ∀ id e, id ≠ actor → lastWrite id e (events ++ log) = lastWrite id e log)
    (own : ∀ st, new = some st → st.oid = oid → st.type = .insert → InsertOk pk (events ++ log) next actor st) :
    Inserting pk oid (events ++ log) next := by
  intro id st still table type
  by_cases mine : id = actor
  · subst mine
    rw [changed, update_self] at still
    exact own st still table type
  · rw [changed, update_of_ne mine] at still
    refine (inserting id st still table type).carried ?_ fun _ _ => (writes id _ mine).trans
    rw [table]
    exact grows

/-- A worker moves on without applying a row. -/
theorem Inserting.turned (running : s.statement id = some st)
    (changed : next.statement = update s.statement id (some st')) (directory : next.directory = s.directory)
    (same : st'.oid = st.oid ∧ st'.workers = st.workers ∧ st'.changed = st.changed) (kind : st'.type = st.type)
    (clean : st'.thrown = false → st.thrown = false) (set : st'.tasks = update st.tasks w task)
    (applied : task.applied = (st.tasks w).applied)
    (work : WorkerOk pk log s id st.oid st.thrown (st.tasks w) → w < st.workers → st.type = .insert →
      st.oid = oid → WorkerOk pk log s id st.oid st'.thrown task) :
    Inserting pk oid log next := by
  have grows : ∀ oid k rid, s.directory oid k = some rid → next.directory oid k = some rid := by
    rw [directory]
    exact fun _ _ _ known => known
  change Inserting pk oid ([] ++ log) next
  refine inserting.replaced changed (grows oid) (fun _ _ _ => rfl) ?_
  intro after here table type
  cases here
  rw [same.1] at table
  rw [kind] at type
  have ok := inserting id st running table type
  refine (ok.turned same clean set applied ?_).carried (grows _) fun _ _ write => write
  exact fun worker => work (ok.workers w worker) worker type table

end

variable [DecidableEq κ] {catalog : Catalog κ}

theorem InsertOk.registered (ok : InsertOk pk log s id st) (hand : st.job w = some (.insert row))
    (pending : (st.tasks w).probe = .appended rid) (unknown : s.directory st.oid (pk.key row) = none) :
    InsertOk pk log ({ s with
      directory := update s.directory st.oid (update (s.directory st.oid) (pk.key row) (some rid)) }.setStatement
        id (some (st.advance w (.insert row) rid))) id (st.advance w (.insert row) rid) := by
  obtain ⟨worker, head⟩ := Statement.job_head hand
  refine InsertOk.advanced (ok.carried (fun _ _ => known_registered unknown) fun _ _ write => write) hand
    (by simp [setStatement]) ((ok.workers w worker).pending row rid pending head) ?_
  intro w' worker' row' rid' member same
  have entry := ((ok.workers w' worker').landed row' rid' member).1
  simp [same, unknown] at entry

theorem Inserting.step (inserting : Inserting pk oid log s) (declared : (catalog oid).primaryKey = some pk)
    (keyed : Keyed pk oid log s)
    (sound : s.db.Sound log) (slots : Database.Slots true log s.db) (moves : Moves catalog s a next events)
    (clear : s.ReviveClear a) : Inserting pk oid (events ++ log) next := by
  have offered : ∀ {id : Int} {st : Statement} {w : Nat} {job : Job}, s.statement id = some st → st.oid = oid →
      st.type = .insert → st.job w = some job → ∃ row, job = .insert row := by
    intro id st w job running here insert hand
    obtain ⟨worker, head⟩ := Statement.job_head hand
    exact ((inserting id st running here insert).workers w worker).inserts job (List.mem_of_head? head)
  cases moves with
  | controlled apart apart' commits kept taken =>
    intro id st still table type
    exact (inserting id st still table type).carried (fun _ _ known => known)
      fun _ _ => (lastWrite_controlled taken apart apart' id _).trans
  | aborting failing taken =>
    refine inserting.replaced rfl (fun _ _ known => known) ?_ fun st same => (by cases same)
    exact fun id e _ => lastWrite_controlled taken (by simp) (by simp) id e
  | started none ready =>
    refine inserting.replaced rfl (fun _ _ known => known) (fun _ _ _ => rfl) fun st same _ _ => ?_
    cases same
    exact ⟨rfl, fun w worker => ⟨by simp, by simp, by simp, by simp⟩, by simp⟩
  | @sunk id w fuel input st job running worker sinking accepted =>
    refine inserting.turned running rfl rfl ⟨rfl, rfl, rfl⟩ rfl (fun clean => clean) rfl rfl ?_
    intro ok worker insert here
    obtain ⟨row, rfl⟩ := buffered_insert insert accepted
    exact ok.sunk row fun rid probe => ((keyed.tasks id st running here w worker).pinned rid probe).2.imp fun _ => And.left
  | combined running worker =>
    refine inserting.turned running rfl rfl ⟨rfl, rfl, rfl⟩ rfl (fun clean => clean) rfl rfl ?_
    exact fun ok _ _ _ => ⟨ok.inserts, ok.accounted, ok.landed, ok.pending⟩
  | keyAbsent running hand known fresh | keyFound running hand known fresh entry
  | invisible running hand ready found unseen =>
    refine inserting.turned running rfl rfl ⟨rfl, rfl, rfl⟩ rfl (fun clean => clean) rfl rfl ?_
    exact fun ok _ _ _ => ⟨ok.inserts, ok.accounted, ok.landed, fun row rid probe => (by cases probe)⟩
  | @appended id w st row info db rid running hand known missed taken =>
    refine inserting.replaced rfl (fun _ _ known => known) (fun _ _ apart =>
      (recordsWrite_inserted _ _ _).elsewhere _ _ _ fun same => apart same.1) fun st' same table type => ?_
    cases same
    exact (inserting id st running table type).appended hand (insert_unstored sound taken)
  | @inserted id w st row db rid running hand unkeyed taken =>
    refine inserting.replaced rfl (fun _ _ known => known) (fun _ _ apart =>
      (recordsWrite_inserted _ _ _).elsewhere _ _ _ fun same => apart same.1) fun st' same table type => ?_
    cases same
    have here : st.oid = oid := table
    simp [here, declared] at unkeyed
  | refused running statement taken | threw running =>
    refine inserting.turned running rfl rfl ⟨rfl, rfl, rfl⟩ rfl (fun clean => (by cases clean)) rfl rfl ?_
    exact fun ok _ _ _ => ⟨by simp, fun clean => (by cases clean), ok.landed, fun row rid probe => (by cases probe)⟩
  | @registered id w st row info rid running hand known pending unknown =>
    refine inserting.replaced rfl (fun _ _ => known_registered unknown) (fun _ _ _ => rfl) fun st' same table type => ?_
    cases same
    obtain rfl : st.oid = oid := table
    rw [declared] at known
    cases known
    exact (inserting id st running rfl type).registered hand pending unknown
  | @revived id w st row db rid running hand unseen taken =>
    refine inserting.replaced rfl (fun _ _ known => known) (fun _ _ apart =>
      (recordsWrite_modified _ _ _).elsewhere _ _ _ fun same => apart same.1) fun st' same table type => ?_
    cases same
    obtain rfl : st.oid = oid := table
    obtain ⟨worker, head⟩ := Statement.job_head hand
    obtain ⟨row₀, head₀, known⟩ := (keyed.tasks id st running rfl w worker).found rid (.inr unseen)
    rw [head] at head₀
    cases head₀
    exact (inserting id st running rfl type).revived hand known (clear.unwritten sound slots running unseen taken)
  | updated running hand same taken | deleted running hand taken =>
    refine inserting.replaced rfl (fun _ _ known => known) (fun _ _ apart =>
      (recordsWrite_modified _ _ _).elsewhere _ _ _ fun same => apart same.1) fun st' same table type => ?_
    cases same
    obtain ⟨row, same⟩ := offered running table type hand
    cases same
  | deferred running hand =>
    refine inserting.replaced rfl (fun _ _ known => known) (fun _ _ _ => rfl) fun st' same table type => ?_
    cases same
    obtain ⟨row, same⟩ := offered running table type hand
    cases same
  | @finalized id st running drained moving clean =>
    refine inserting.replaced rfl (fun _ _ known => known) (fun _ _ _ => rfl) fun st' same table type => ?_
    cases same
    exact absurd (inserting id st running table type).unmoved moving
  | finished running drained unmoved clean =>
    exact inserting.replaced rfl (fun _ _ known => known) (fun _ _ _ => rfl) fun st same => (by cases same)

omit [DecidableEq κ] in
theorem tables_of_wrote (run : Run system Database.FixedTables log db) {e : Entry}
    (wrote : Wrote log id e) : ∃ heap, db.tables e.oid = some heap := by
  have all : ∀ id e, Wrote log id e → ∃ heap, db.tables e.oid = some heap := by
    refine Run.invariant (M := system)
      (I := fun log db => ∀ id e, Wrote log id e → ∃ heap, db.tables e.oid = some heap) ?_ ?_ run
    · rintro db - id e ⟨value, write⟩
      cases write
    · intro log db next a events _ kept admitted taken id e wrote
      have steps := Database.steps_of_step taken
      rcases Database.wrote_before steps wrote with before | now
      · obtain ⟨heap, table⟩ := kept id e before
        exact Database.tables_kept steps admitted.2 table
      · exact now
  exact all id e wrote

theorem inserting_run (declared : (catalog oid).primaryKey = some pk)
    (run : Run (engine catalog) Lossless log s) : Inserting pk oid log s := by
  refine Run.invariant (M := engine catalog) (I := fun log s => Inserting pk oid log s) ?_ ?_ run
  · intro s initial id st running
    rw [Initial.statement initial id] at running
    cases running
  · intro log s next a events before inserting admitted taken
    have fixed : Run (engine catalog) (Under Database.FixedTables) log s :=
      before.mono fun s a lossless => lossless.1
    have below := db_run fixedTables_rows fixed
    exact inserting.step declared (keyed_run declared fixed) (sound_run below)
      (slots_run (untouched_run below).1) (moves_of_step taken) admitted.2

end Engine

open Engine

variable {κ : Type} [DecidableEq κ] {catalog : Catalog κ}

/-- If no worker revives a slot its own transaction has a live row in, a completed INSERT was offered every
key at most once, and its transaction sees every row it was offered. -/
theorem insert_loses_nothing {log : List Event} {s : Engine κ}
    (run : Run (program catalog) (Defined (faults catalog) Lossless) log s)
    {id : Int} {st : Statement} {pk : IndexInfo κ} (running : s.statement id = some st) (type : st.type = .insert)
    (declared : (catalog st.oid).primaryKey = some pk) (completes : (s.finish id).isSome) :
    (∀ w < st.workers, ∀ w' < st.workers, ∀ (i j : Nat) row row', (st.tasks w).batches[i]? = some (.insert row) →
      (st.tasks w').batches[j]? = some (.insert row') → pk.key row = pk.key row' → w = w' ∧ i = j) ∧
    ∀ w < st.workers, ∀ row, Job.insert row ∈ (st.tasks w).batches → ∃ rid t, s.db.txnMap id = some t ∧
      s.db.Present ⟨st.oid, rid⟩ ∧ ∀ fuel, s.db.collectVisibleVersion id t rid fuel = some (some row) := by
  have run := defined_run run
  have ok := inserting_run declared run id st running rfl type
  have fixed : Run (engine catalog) (Under Database.FixedTables) log s := run.mono fun s a lossless => lossless.1
  have below := db_run fixedTables_rows fixed
  obtain ⟨drained, clean⟩ : st.drained ∧ st.thrown = false := by
    unfold finish at completes
    rw [running] at completes
    by_cases done : st.drained ∧ st.changed = [] ∧ st.thrown = false
    · exact ⟨done.1, done.2.2⟩
    · simp [done] at completes
  have offered : ∀ w < st.workers, (st.tasks w).batches = (st.tasks w).applied.map Prod.fst := by
    intro w worker
    rw [(ok.workers w worker).accounted clean, drained w worker, List.append_nil]
  constructor
  · intro w worker w' worker' i j row row' first second same
    rw [offered w worker, List.getElem?_map, Option.map_eq_some_iff] at first
    rw [offered w' worker', List.getElem?_map, Option.map_eq_some_iff] at second
    obtain ⟨⟨job, rid⟩, here, rfl⟩ := first
    obtain ⟨⟨job', rid'⟩, here', rfl⟩ := second
    exact ok.once w worker w' worker' i j row rid row' rid' here here' same
  · intro w worker row member
    rw [offered w worker, List.mem_map] at member
    obtain ⟨⟨job, rid⟩, applied, rfl⟩ := member
    have write := ((ok.workers w worker).landed row rid applied).2
    have idle := (sessions_run fixedTables_rows (fun _ _ kept => kept.1) fixed).idle id st running
    have sound := sound_run below
    obtain ⟨t, found, -, live⟩ := sound.control.finalizing idle (by simp)
    have viewing : s.db.Viewing id t := ⟨found, .inl idle⟩
    obtain ⟨heap, table⟩ := tables_of_wrote below ⟨_, write⟩
    have present := (sound.sets.lasting id _ ⟨_, write⟩).2 heap table
    have slots := slots_run (untouched_run below).1
    have owned : (⟨st.oid, rid⟩ : Entry) ∈ s.db.pending id := by
      rw [viewing.pending]
      exact (slots.writes id t found _).mpr ⟨_, write⟩
    exact ⟨rid, t, found, present, slots.visible_own viewing present owned write⟩

/-- The row of an INSERT's job. -/
def Job.inserted : Job → Option RowBytes
  | .insert row => some row
  | _ => none

theorem Job.inserted_eq {job : Job} {row : RowBytes} (same : job.inserted = some row) : job = .insert row := by
  cases job with
  | insert row' =>
    cases same
    rfl
  | update rid old new => cases same
  | delete rid => cases same

omit [DecidableEq κ] in
theorem lossless_of_plain {actions : List Action}
    (plain : ∀ b, .mvcc b ∈ actions → (∀ id e, b ≠ .rollback id e) ∧ ∀ oid, b ≠ .dropTable oid)
    (unrevived : ∀ id w, .revive id w ∉ actions) : ∀ a ∈ actions, ∀ s : Engine κ, Lossless s a := by
  intro a member s
  refine ⟨fixedTables_under plain a member s, ?_⟩
  rintro id w st rid tuple rfl
  exact absurd member (unrevived id w)

/-- Two workers, each with a row of its own key, step in turns. -/
theorem insert_loses_nothing_interleaved :
    ∃ log s st, Run (program integerKeyed) (Defined (faults integerKeyed) Lossless) log s ∧
      s.statement txnStartId = some st ∧ st.type = .insert ∧ (s.finish txnStartId).isSome ∧
      ∀ w < 2, ∃ row, Job.insert row ∈ (st.tasks w).batches ∧
        ∃ rid t, s.db.txnMap txnStartId = some t ∧ s.db.Present ⟨st.oid, rid⟩ ∧
          ∀ fuel, s.db.collectVisibleVersion txnStartId t rid fuel = some (some row) := by
  obtain ⟨s, log, run, shown⟩ := exec_shows (M := engine integerKeyed)
    [.mvcc .createTable, .mvcc (.begin .snapshotIsolation), .start txnStartId .insert 0 2,
      .sink txnStartId 0 (.insert (.zeros 4)) 0, .sink txnStartId 1 (.insert ⟨4, fun _ => 1⟩) 0,
      .combine txnStartId 0, .combine txnStartId 1, .scanKey txnStartId 0, .scanKey txnStartId 1,
      .append txnStartId 1, .append txnStartId 0, .insertEntry txnStartId 0, .insertEntry txnStartId 1]
    opened_initial (lossless_of_plain (by simp) (by simp))
    (fun r => ((r.1.finish txnStartId).isSome, (r.1.statement txnStartId).map fun st =>
      (st.type, st.workers, (((st.tasks 0).batches[0]?).bind Job.inserted).isSome,
        (((st.tasks 1).batches[0]?).bind Job.inserted).isSome)))
    (true, some (.insert, 2, true, true)) rfl
  simp only [Prod.mk.injEq, Option.map_eq_some_iff] at shown
  obtain ⟨completes, st, running, type, workers, offered⟩ := shown
  have run := run_defined run
  obtain ⟨-, seen⟩ := insert_loses_nothing run running type (show (integerKeyed st.oid).primaryKey = _ from rfl) completes
  refine ⟨log, s, st, run, running, type, completes, ?_⟩
  intro w worker
  have row : (((st.tasks w).batches[0]?).bind Job.inserted).isSome := by
    rcases (by omega : w = 0 ∨ w = 1) with rfl | rfl
    · exact offered.1
    · exact offered.2
  obtain ⟨row, offered⟩ := Option.isSome_iff_exists.mp row
  obtain ⟨job, here, same⟩ := Option.bind_eq_some_iff.mp offered
  cases Job.inserted_eq same
  have member := List.mem_of_getElem? here
  exact ⟨row, member, seen w (by omega) row member⟩

/-- A row inserted and committed, then deleted and committed, then offered again by two workers of one
INSERT: both have looked before either has written. -/
def reviving : List Action :=
  [.mvcc .createTable, .mvcc (.begin .snapshotIsolation), .start txnStartId .insert 0 1,
    .sink txnStartId 0 (.insert (.zeros 5)) 0, .combine txnStartId 0, .scanKey txnStartId 0,
    .append txnStartId 0, .insertEntry txnStartId 0, .finish txnStartId, .mvcc (.lockCommit txnStartId),
    .mvcc (.stamp txnStartId ⟨0, 0, 0⟩), .mvcc (.publish txnStartId), .mvcc (.leave txnStartId),
    .mvcc (.begin .snapshotIsolation), .start (txnStartId + 1) .delete 0 1,
    .sink (txnStartId + 1) 0 (.delete ⟨0, 0⟩) 1, .combine (txnStartId + 1) 0, .modify (txnStartId + 1) 0,
    .finish (txnStartId + 1), .mvcc (.lockCommit (txnStartId + 1)), .mvcc (.stamp (txnStartId + 1) ⟨0, 0, 0⟩),
    .mvcc (.publish (txnStartId + 1)), .mvcc (.leave (txnStartId + 1)), .mvcc (.begin .snapshotIsolation),
    .start (txnStartId + 2) .insert 0 2, .sink (txnStartId + 2) 0 (.insert (.zeros 5)) 0,
    .sink (txnStartId + 2) 1 (.insert (.zeros 4)) 0, .combine (txnStartId + 2) 0,
    .combine (txnStartId + 2) 1, .scanKey (txnStartId + 2) 0, .scanKey (txnStartId + 2) 1,
    .checkVisible (txnStartId + 2) 0 2, .checkVisible (txnStartId + 2) 1 2, .revive (txnStartId + 2) 0,
    .revive (txnStartId + 2) 1]

/-- Both workers succeed with the same key; the row of the first is gone. -/
theorem insert_loses_row :
    ∃ log s st t row row' seen, Run (engine integerKeyed) (Under Database.FixedTables) log s ∧
      s.statement (txnStartId + 2) = some st ∧ st.type = .insert ∧ (s.finish (txnStartId + 2)).isSome ∧
      (st.tasks 0).batches[0]? = some (.insert row) ∧ (st.tasks 1).batches[0]? = some (.insert row') ∧
      integerKey.key row = integerKey.key row' ∧ s.directory 0 (integerKey.key row) = some ⟨0, 0⟩ ∧
      s.db.txnMap (txnStartId + 2) = some t ∧
      s.db.collectVisibleVersion (txnStartId + 2) t ⟨0, 0⟩ 1 = some (some seen) ∧ seen.size ≠ row.size := by
  obtain ⟨s, log, run, shown⟩ := exec_shows (M := engine integerKeyed) reviving
    opened_initial (fixedTables_under (by simp [reviving]))
    (fun r => ((r.1.finish (txnStartId + 2)).isSome, (r.1.statement (txnStartId + 2)).map fun st =>
      (st.type, (((st.tasks 0).batches[0]?).bind Job.inserted).map fun row => (row.size, integerKey.key row),
        (((st.tasks 1).batches[0]?).bind Job.inserted).map integerKey.key),
      r.1.directory 0 [0, 0, 0, 0], (r.1.db.txnMap (txnStartId + 2)).map fun t =>
        (r.1.db.collectVisibleVersion (txnStartId + 2) t ⟨0, 0⟩ 1).map fun value => value.map RowBytes.size))
    (true, some (.insert, some (5, [0, 0, 0, 0]), some [0, 0, 0, 0]), some ⟨0, 0⟩, some (some (some 4))) rfl
  simp only [Prod.mk.injEq, Option.map_eq_some_iff, Option.bind_eq_some_iff] at shown
  obtain ⟨completes, ⟨st, running, type, ⟨row, ⟨job, here, same⟩, size, key⟩, row', ⟨job', here', same'⟩, key'⟩,
    entry, t, found, value, read, seen, rfl, short⟩ := shown
  cases Job.inserted_eq same
  cases Job.inserted_eq same'
  exact ⟨log, s, st, t, row, row', seen, run, running, type, completes, here, here', key.trans key'.symm,
    key ▸ entry, found, read, by omega⟩

end BumbleBee.Execution
