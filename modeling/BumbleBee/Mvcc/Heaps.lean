import BumbleBee.Mvcc.Steps

/-!
Tables own their pages: two tables never list the same page, and a page handed out
is listed by nobody. A slot that exists in a table is therefore named by one entry.
-/

namespace BumbleBee.Mvcc
open Library.Transition Storage Concurrency Function

namespace Database

def Owns (s : Database) (oid : Nat) (pageId : Int) : Prop :=
  ∃ heap, s.tables oid = some heap ∧ pageId ∈ heap.pageDirectory

/-- The entry names a slot that exists in its table. -/
def Present (s : Database) (e : Entry) : Prop :=
  s.Owns e.oid e.rid.pageId ∧ ∃ tuple, s.store.getRow e.rid = some tuple

structure Heaps (s : Database) : Prop where
  oids : ∀ oid, s.nextOid ≤ oid → s.tables oid = none
  last : ∀ oid heap, s.tables oid = some heap → heap.lastPageId ∈ heap.pageDirectory
  distinct : ∀ oid heap, s.tables oid = some heap → heap.pageDirectory.Nodup
  disjoint : ∀ oid oid' pageId, s.Owns oid pageId → s.Owns oid' pageId → oid = oid'
  allocated : ∀ oid pageId, s.Owns oid pageId → s.store.Allocated pageId
  sound : s.store.Sound

variable {s next : Database}

theorem Heaps.entry_eq (heaps : Heaps s) {e e' : Entry} (present : s.Owns e.oid e.rid.pageId)
    (present' : s.Owns e'.oid e'.rid.pageId) (same : e.rid = e'.rid) : e = e' := by
  have oids := heaps.disjoint e.oid e'.oid e.rid.pageId present (same ▸ present')
  cases e
  simp_all

theorem owns_congr (tables : next.tables = s.tables) (oid : Nat) (pageId : Int) :
    next.Owns oid pageId ↔ s.Owns oid pageId := by
  simp only [Owns, tables]

theorem Heaps.congr (heaps : Heaps s) (tables : next.tables = s.tables) (nextOid : next.nextOid = s.nextOid)
    (freePages : next.store.freePages = s.store.freePages)
    (nextPageId : next.store.nextPageId = s.store.nextPageId) : Heaps next where
  oids := by rw [tables, nextOid]; exact heaps.oids
  last := by rw [tables]; exact heaps.last
  distinct := by rw [tables]; exact heaps.distinct
  disjoint := by simpa only [owns_congr tables] using heaps.disjoint
  allocated := by
    simpa only [owns_congr tables, PageStore.allocated_congr freePages nextPageId] using heaps.allocated
  sound := heaps.sound.congr freePages nextPageId

theorem Heaps.extended (heaps : Heaps s) (oid : Nat) {grown : TableHeap} {pageId : Int}
    (tables : next.tables = update s.tables oid (some grown))
    (directory : ∀ p, p ∈ grown.pageDirectory ↔ s.Owns oid p ∨ p = pageId) (distinct : grown.pageDirectory.Nodup)
    (last : grown.lastPageId ∈ grown.pageDirectory) (fresh : ¬s.store.Allocated pageId) (sound : next.store.Sound)
    (allocated : ∀ p, next.store.Allocated p ↔ s.store.Allocated p ∨ p = pageId)
    (oids : ∀ other, next.nextOid ≤ other → s.nextOid ≤ other ∧ other ≠ oid) : Heaps next := by
  have unowned : ∀ other, ¬s.Owns other pageId := fun other owns =>
    fresh (heaps.allocated other pageId owns)
  have owns : ∀ other p, next.Owns other p ↔ s.Owns other p ∨ (other = oid ∧ p = pageId) := by
    intro other p
    by_cases same : other = oid
    · subst same
      have listed := directory p
      simp only [true_and, ← listed]
      simp [Owns, tables]
    · simp only [Owns, tables, update_of_ne same, same, false_and, or_false]
  constructor
  · intro other beyond
    obtain ⟨unused, apart⟩ := oids other beyond
    rw [tables, update_of_ne apart]
    exact heaps.oids other unused
  · intro other heap found
    rw [tables] at found
    rcases of_update found with ⟨-, new⟩ | ⟨-, old⟩
    · exact Option.some.inj new ▸ last
    · exact heaps.last other heap old
  · intro other heap found
    rw [tables] at found
    rcases of_update found with ⟨-, new⟩ | ⟨-, old⟩
    · exact Option.some.inj new ▸ distinct
    · exact heaps.distinct other heap old
  · intro first second p left right
    rcases (owns first p).mp left with before | ⟨rfl, rfl⟩
    · rcases (owns second p).mp right with before' | ⟨-, rfl⟩
      · exact heaps.disjoint first second p before before'
      · exact absurd before (unowned first)
    · rcases (owns second p).mp right with before' | ⟨rfl, -⟩
      · exact absurd before' (unowned second)
      · rfl
  · intro other p owned
    rw [allocated]
    rcases (owns other p).mp owned with before | ⟨-, here⟩
    · exact .inl (heaps.allocated other p before)
    · exact .inr here
  · exact sound

variable {oid : Nat}

theorem Heaps.grew (heaps : Heaps s) {heap grown : TableHeap} {linked : PageStore}
    (table : s.tables oid = some heap) (grew : TableHeap.Grew heap s.store grown linked)
    (tables : next.tables = update s.tables oid (some grown)) (nextOid : next.nextOid = s.nextOid)
    (freePages : next.store.freePages = linked.freePages)
    (nextPageId : next.store.nextPageId = linked.nextPageId) : Heaps next := by
  have used : oid < s.nextOid := by
    by_contra unused
    rw [heaps.oids oid (by omega)] at table
    cases table
  cases grew with
  | kept =>
    rw [← table, update_eq_self] at tables
    exact heaps.congr tables nextOid freePages nextPageId
  | linked after rows free counter =>
    obtain ⟨sound, fresh, allocated⟩ := heaps.sound.newPage
    have freed : next.store.freePages = s.store.newPage.2.freePages := freePages.trans free
    have counted : next.store.nextPageId = s.store.newPage.2.nextPageId := nextPageId.trans counter
    refine heaps.extended oid tables ?_ ?_ ?_ fresh (sound.congr freed counted) ?_ ?_
    · intro p
      simp only [List.mem_append, List.mem_singleton, Owns, table, Option.some.injEq, exists_eq_left']
    · refine List.Nodup.append (heaps.distinct oid heap table) (List.nodup_singleton _) ?_
      intro p inside new
      rw [List.mem_singleton.mp new] at inside
      exact fresh (heaps.allocated oid _ ⟨heap, table, inside⟩)
    · simp
    · intro p
      rw [PageStore.allocated_congr freed counted]
      exact allocated p
    · intro other beyond
      rw [nextOid] at beyond
      exact ⟨beyond, by omega⟩

theorem Heaps.created (heaps : Heaps s) : Heaps s.createTable := by
  obtain ⟨sound, fresh, allocated⟩ := heaps.sound.newPage
  have absent := heaps.oids s.nextOid (Nat.le_refl _)
  refine heaps.extended s.nextOid rfl ?_ ?_ ?_ fresh (sound.congr rfl rfl) ?_ ?_
  · simp [TableHeap.create, Owns, absent]
  · simp [TableHeap.create]
  · simp [TableHeap.create]
  · intro p
    rw [← allocated p]
    exact PageStore.allocated_congr rfl rfl p
  · intro other beyond
    have later : s.nextOid + 1 ≤ other := beyond
    exact ⟨by omega, by omega⟩

theorem owns_dropped {store : PageStore} (other : Nat) (pageId : Int) :
    Owns { s with store := store, tables := update s.tables oid none } other pageId ↔
      s.Owns other pageId ∧ other ≠ oid := by
  by_cases same : other = oid
  · subst same
    simp [Owns]
  · simp [Owns, same]

theorem Heaps.dropped (heaps : Heaps s) {heap : TableHeap} (table : s.tables oid = some heap) :
    Heaps { s with
      store := heap.freeAllPages s.store
      tables := update s.tables oid none } := by
  have kept : ∀ {other found}, update s.tables oid none other = some found →
      s.tables other = some found := by
    intro other found here
    by_cases same : other = oid
    · subst same
      simp at here
    · rwa [update_of_ne same] at here
  constructor
  · intro other beyond
    by_cases same : other = oid
    · subst same
      exact update_self _ _ _
    · exact (update_of_ne same _ _).trans (heaps.oids other beyond)
  · exact fun other found here => heaps.last other found (kept here)
  · exact fun other found here => heaps.distinct other found (kept here)
  · intro first second p left right
    exact heaps.disjoint first second p ((owns_dropped _ _).mp left).1 ((owns_dropped _ _).mp right).1
  · intro other p owned
    obtain ⟨before, apart⟩ := (owns_dropped _ _).mp owned
    refine (TableHeap.allocated_freeAllPages heap s.store p).mpr ⟨heaps.allocated other p before, ?_⟩
    intro inside
    exact apart (heaps.disjoint other oid p before ⟨heap, table, inside⟩)
  · exact TableHeap.sound_freeAllPages heaps.sound (heaps.distinct oid heap table)
      fun p inside => heaps.allocated oid p ⟨heap, table, inside⟩

theorem Heaps.step (heaps : Heaps s) {a : Action} {events : List Event} (steps : Steps s a next events) :
    Heaps next := by
  cases steps with
  | inserted ready table grew placed =>
    exact heaps.grew table grew rfl rfl placed.freePages placed.nextPageId
  | insertTooLarge table grew => exact heaps.grew table grew rfl rfl rfl rfl
  | created => exact heaps.created
  | dropped table => exact heaps.dropped table
  | rewrote ready table listed base own stored | versioned ready table listed base foreign inSnapshot stored
  | stamped phase member table base stored
  | restored phase found member table head valid own logged base stored
  | tombstoned phase member table unowned base stored =>
    exact heaps.congr rfl rfl stored.freePages stored.nextPageId
  | _ => exact heaps.congr rfl rfl rfl rfl

/-- The only page a step can give to a table is the next one the store hands out. -/
theorem newlyOwned {a : Action} {events : List Event} (steps : Steps s a next events) {pageId : Int}
    (owned : next.Owns oid pageId) (unowned : ¬s.Owns oid pageId) : pageId = s.store.newPage.1 := by
  have grown : ∀ {oid' : Nat} {heap after : TableHeap} {linked : PageStore}, s.tables oid' = some heap →
      TableHeap.Grew heap s.store after linked →
      (∃ found, update s.tables oid' (some after) oid = some found ∧
        pageId ∈ found.pageDirectory) → pageId = s.store.newPage.1 := by
    intro oid' heap after linked table grew owned
    obtain ⟨found, here, listed⟩ := owned
    rcases of_update here with ⟨rfl, new⟩ | ⟨-, old⟩
    · cases new
      cases grew with
      | kept => exact absurd ⟨heap, table, listed⟩ unowned
      | linked linked =>
        rcases List.mem_append.mp listed with before | new
        · exact absurd ⟨heap, table, before⟩ unowned
        · exact List.mem_singleton.mp new
    · exact absurd ⟨found, old, listed⟩ unowned
  cases steps with
  | inserted ready table grew placed => exact grown table grew owned
  | insertTooLarge table grew => exact grown table grew owned
  | created =>
    obtain ⟨found, here, listed⟩ := owned
    rcases of_update here with ⟨-, new⟩ | ⟨-, old⟩
    · cases new
      exact List.mem_singleton.mp listed
    · exact absurd ⟨found, old, listed⟩ unowned
  | dropped table => exact absurd ((owns_dropped _ _).mp owned).1 unowned
  | _ => exact absurd owned unowned

theorem Initial.heaps (initial : Initial s) : Heaps s := by
  have unowned : ∀ oid pageId, ¬s.Owns oid pageId := by
    rintro oid pageId ⟨heap, found, -⟩
    rw [initial.tables oid] at found
    cases found
  refine ⟨fun oid _ => initial.tables oid, ?_, ?_, ?_, ?_, ?_⟩
  · intro oid heap found
    rw [initial.tables oid] at found
    cases found
  · intro oid heap found
    rw [initial.tables oid] at found
    cases found
  · exact fun oid oid' pageId owns => absurd owns (unowned oid pageId)
  · exact fun oid pageId owns => absurd owns (unowned oid pageId)
  · exact ⟨by simp [initial.freePages], by simp [initial.freePages]⟩

end Database

theorem heaps_run {meets : Database → Action → Prop} {log : List Event} {s : Database}
    (run : Run system meets log s) : s.Heaps := by
  refine Run.invariant (I := fun _ s => s.Heaps) (fun s initial => Database.Initial.heaps initial) ?_ run
  intro log s next a events _ heaps _ taken
  exact heaps.step (Database.steps_of_step taken)

end BumbleBee.Mvcc
