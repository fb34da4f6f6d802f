import BumbleBee.Mvcc.FirstCommitter
import BumbleBee.Mvcc.Frames

/-!
The rows committed to since a live transaction's snapshot. Their tables exist and
their writers are still in the map, so `VerifyTxn` finds all of them.
-/

namespace BumbleBee.Mvcc
open Library.Transition Library.Versions Storage.SlottedPage Concurrency

namespace Database

variable {s next : Database} {id : Int} {log : List Event} {e : Entry} {a : Action} {events : List Event}

/-- The row was committed to after the snapshot. -/
def Recent (log : List Event) (readTs : Int) (e : Entry) : Prop := ∃ v ∈ history e log, readTs < v.ts

/-- A committed transaction stays in the map until no registered snapshot is older than it. -/
def Retained (log : List Event) (s : Database) : Prop :=
  ∀ id commitTs, Event.committed id commitTs ∈ log → (∃ t, s.txnMap id = some t) ∨ s.Old commitTs

theorem Retained.step (retained : Retained log s) (sound : Sound log s) (steps : Steps s a next events) :
    Retained (events ++ log) next := by
  intro id commitTs member
  have keeps := sound.control.keeps steps
  rcases List.mem_append.mp member with new | old
  · cases steps with
    | published phase found =>
      cases List.mem_singleton.mp new
      exact .inl ⟨_, Function.update_self _ _ _⟩
    | _ => simp at new
  · rcases retained id commitTs old with ⟨t, found⟩ | older
    · obtain ⟨committed, stamp⟩ := (sound.ledger.finished id commitTs old).2.2 t found
      rcases keeps.committed id t found committed with same | ⟨-, older⟩
      · exact .inl ⟨t, same⟩
      · exact .inr (stamp ▸ older)
    · exact .inr (keeps.old commitTs older)

/-- The table of a row committed to since a live transaction's snapshot exists. -/
def Anchored (log : List Event) (s : Database) : Prop :=
  ∀ id t e, s.txnMap id = some t → t.Live → Recent log t.readTs e → ∃ heap, s.tables e.oid = some heap

theorem history_of_steps (steps : Steps s a next events) {v : Version RowBytes}
    (member : v ∈ history e (events ++ log)) :
    v ∈ history e log ∨ ∃ id t commitTs value, s.phase id = some (.stamping commitTs []) ∧
      s.txnMap id = some t ∧ lastWrite id e log = some value ∧ next.tables = s.tables := by
  cases steps with
  | @published id commitTs t phase found =>
    cases write : lastWrite id e log with
    | none =>
      have old : v ∈ history e log := by
        rw [← history_committed_other write]
        exact member
      exact .inl old
    | some value => exact .inr ⟨id, t, commitTs, value, phase, found, write, rfl⟩
  | _ => exact .inl member

theorem Anchored.step (anchored : Anchored log s) (sound : Sound log s) (slots : Slots false log s)
    (rooted : s.Rooted) (steps : Steps s a next events) (leased : s.Leased a) :
    Anchored (events ++ log) next := by
  rintro id t e found live ⟨v, member, newer⟩
  rcases history_of_steps steps member with old | ⟨writer, u, commitTs, value, phase, here, write, tables⟩
  · rcases sound.control.live_before steps found live with ⟨before, here, alive⟩ | unborn
    · have snapshot := sound.readTs_kept steps found here
      obtain ⟨heap, table⟩ := anchored id before e here alive ⟨v, old, by rw [← snapshot]; exact newer⟩
      exact tables_kept steps (fun oid drop => leased oid drop id before here alive) table
    · have published := slots.history_le old
      have began := (sound.ledger.step sound.control steps).begins id t found
      rcases List.mem_append.mp began with new | earlier
      · cases steps with
        | began added =>
          have same := List.mem_singleton.mp new
          rw [Event.began.injEq] at same
          omega
        | _ => simp at new
      · have known := sound.ledger.known id _ _ earlier
        omega
  · obtain ⟨u', same, -, -, -, -, running, -⟩ := sound.control.finalizing phase (by simp)
    rw [here] at same
    cases same
    obtain ⟨heap, table⟩ := rooted writer u e here (.inl running)
      ((sound.sets.writes writer u here e).mpr ⟨value, write⟩)
    exact ⟨heap, by rw [tables]; exact table⟩

theorem Sound.present_of_recent (sound : Sound log s) (anchored : Anchored log s) {t : Transaction}
    (found : s.txnMap id = some t) (live : t.Live) (recent : Recent log t.readTs e) : s.Present e := by
  obtain ⟨heap, table⟩ := anchored id t e found live recent
  obtain ⟨v, member, -⟩ := recent
  obtain ⟨writer, -, wrote⟩ := (sound.ledger.authored e v).mp member
  exact (sound.sets.lasting writer e ⟨_, wrote⟩).2 heap table

/-- `VerifyTxn` collects every row committed to since the snapshot. -/
theorem Sound.suspects_complete (sound : Sound log s) (retained : Retained log s) {t : Transaction}
    (found : s.txnMap id = some t) (registered : s.registeredTs id = some t.readTs)
    (unsettled : t.state ≠ .committed) (recent : Recent log t.readTs e) : e ∈ s.suspects id t.readTs := by
  obtain ⟨v, member, newer⟩ := recent
  obtain ⟨writer, committed, wrote⟩ := (sound.ledger.authored e v).mp member
  have kept : ∃ u, s.txnMap writer = some u := by
    rcases retained writer v.ts committed with present | old
    · exact present
    · have seen := old.2 id t.readTs registered
      omega
  obtain ⟨u, here⟩ := kept
  obtain ⟨settled, stamp⟩ := (sound.ledger.finished writer v.ts committed).2.2 u here
  have apart : writer ≠ id := by
    rintro rfl
    rw [found] at here
    cases here
    exact unsettled settled
  have txn := sound.control.txns writer u here
  have range : writer ∈ (List.range (s.nextTxnId - txnStartId).toNat).map fun k : Nat => txnStartId + (k : Int) := by
    have old := txn.old
    have known := txn.known
    refine List.mem_map.mpr ⟨(writer - txnStartId).toNat, List.mem_range.mpr ?_, ?_⟩
    · omega
    · omega
  refine List.mem_flatMap.mpr ⟨writer, range, ?_⟩
  simp only [here, apart, settled, stamp, newer, ne_eq]
  exact (sound.sets.writes writer u here e).mpr ⟨_, wrote⟩

end Database

theorem window_run {log : List Event} {s : Database} (run : Run system Database.Orderly log s) :
    Database.Retained log s ∧ Database.Anchored log s := by
  refine Run.invariant (I := fun log s => Database.Retained log s ∧ Database.Anchored log s) ?_ ?_ run
  · intro s initial
    constructor
    · intro id commitTs member
      cases member
    · intro id t e found
      rw [initial.txnMap] at found
      cases found
  · rintro log s next a events before ⟨retained, anchored⟩ orderly taken
    have sound := sound_run before
    have slots := slots_run (before.mono fun _ _ orderly => orderly.admits)
    have steps := Database.steps_of_step taken
    exact ⟨retained.step sound steps, anchored.step sound slots (separated_run before).1 steps orderly.2⟩

end BumbleBee.Mvcc
