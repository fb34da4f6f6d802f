import BumbleBee.HashTable.GroupRounds

/-!
A table filled by any sequence of `FindOrCreateGroups` calls. It holds each key once
and every row gets the address of the row with its key, provided a key equals itself.
A key with a NaN does not, and neither does one with a NULL in a table without
`null_equal_keys`: each such row makes a group of its own.
-/

namespace BumbleBee.HashTable

/-- The calls of a sequence of chunks, and the table after them. -/
def groupChunks : PRLHashTable → List Chunk → Option (List GroupState × PRLHashTable)
  | t, [] => some ([], t)
  | t, chunk :: chunks => do
    let result ← t.findOrCreateGroups chunk
    let rest ← groupChunks result.table chunks
    some (result :: rest.1, rest.2)

/-- A new table's layout and initial capacity, and the chunks passed to it. -/
structure GroupInput where
  layout : KeyLayout
  capacity : Nat
  chunks : List Chunk
  consistent : Consistent layout chunks.flatten

def GroupInput.run (input : GroupInput) : Option (List GroupState × PRLHashTable) :=
  groupChunks (PRLHashTable.make 0 input.layout input.capacity) input.chunks

/-- The answer to one call, where `seen` are the rows of the calls before. -/
structure CallAnswers (layout : KeyLayout) (seen : List InputRow) (chunk : Chunk) (result : GroupState) : Prop where
  address : ∀ i row, chunk[i]? = some row → ∃ entry ∈ result.table.rows, result.addresses i = some entry.row ∧
    layout.keyEqual entry.row.cells row.cells ∧
    ∀ other ∈ result.table.rows, layout.keyEqual other.row.cells row.cells → other = entry
  places : (result.table.rows.map fun entry => entry.row.address).Nodup
  reported : result.newGroups.Nodup
  new : ∀ i, i ∈ result.newGroups ↔ ∃ row, chunk[i]? = some row ∧
    ∀ earlier ∈ seen ++ chunk.take i, ¬ layout.keyEqual earlier.cells row.cells

def CallsAnswer (layout : KeyLayout) : List InputRow → List Chunk → List GroupState → Prop
  | _, [], [] => True
  | seen, chunk :: chunks, result :: results =>
    CallAnswers layout seen chunk result ∧ CallsAnswer layout (seen ++ chunk) chunks results
  | _, _, _ => False

/-- `scanned` has each key of `rows` once. -/
structure DistinctKeys (layout : KeyLayout) (rows : List InputRow) (scanned : List Row) : Prop where
  once : scanned.Pairwise fun a b => ¬ layout.keyEqual a b
  all : ∀ row ∈ rows, ∃ found ∈ scanned, layout.keyEqual found row.cells
  only : ∀ found ∈ scanned, ∃ row ∈ rows, row.cells = found

/-- Every call returns with the right answers, and `Scan` then enumerates the distinct keys. -/
def GroupsFound (input : GroupInput) : Prop :=
  ∃ results table, input.run = some (results, table) ∧ CallsAnswer input.layout [] input.chunks results ∧
    DistinctKeys input.layout input.chunks.flatten table.scanAll

/-- A table that holds the keys of the rows `seen`. -/
structure Tracks (layout : KeyLayout) (t : PRLHashTable) (seen : List InputRow) : Prop where
  indexed : t.Indexed
  allocated : t.Allocated
  keys : t.layout = layout
  built : t.directoryStale = false
  once : t.rows.Pairwise fun a b => ¬ layout.keyEqual a.row.cells b.row.cells
  all : ∀ row ∈ seen, ∃ entry ∈ t.rows, layout.keyEqual entry.row.cells row.cells
  only : ∀ entry ∈ t.rows, entry.input ∈ seen

section Calls

variable {layout : KeyLayout} {t : PRLHashTable} {seen : List InputRow} {chunk : Chunk} {result : GroupState}

theorem mem_of_pairwise {rows : List HTEntry} (once : rows.Pairwise fun a b => ¬ layout.keyEqual a.row.cells b.row.cells)
    {a b : HTEntry} (first : a ∈ rows) (second : b ∈ rows) (equal : layout.keyEqual a.row.cells b.row.cells) :
    a = b := by
  refine List.Pairwise.forall_of_forall_of_flip (l := rows)
    (R := fun a b => layout.keyEqual a.row.cells b.row.cells → a = b) ?_ ?_ ?_ first second equal
  · exact fun _ _ _ => rfl
  · exact once.imp fun unequal equal => absurd equal unequal
  · exact once.imp fun unequal equal => absurd (KeyLayout.keyEqual_symm equal) unequal

theorem Grouped.new_once (grouped : Grouped t chunk result) {new : List HTEntry}
    (sources : new.map (fun entry => some entry.input) = result.newGroups.map (fun i => chunk[i]?)) :
    new.Pairwise fun a b => ¬ t.layout.keyEqual a.row.cells b.row.cells := by
  have groups : (result.newGroups.map fun i => chunk[i]?).Pairwise
      fun x y => ∀ a b, x = some a → y = some b → ¬ t.layout.keyEqual a.cells b.cells := by
    rw [List.pairwise_map]
    refine List.Pairwise.imp_of_mem ?_ grouped.distinct
    intro i j first second different a b readA readB equal
    rcases Nat.lt_or_gt_of_ne different with before | behind
    · exact (((grouped.groups j).mp second).2 b readB).2 i before a readA equal
    · exact (((grouped.groups i).mp first).2 a readA).2 j behind b readB (KeyLayout.keyEqual_symm equal)
  rw [← sources, List.pairwise_map] at groups
  exact groups.imp fun apart => apart _ _ rfl rfl

theorem Grouped.once (grouped : Grouped t chunk result)
    (old : t.rows.Pairwise fun a b => ¬ t.layout.keyEqual a.row.cells b.row.cells) :
    result.table.rows.Pairwise fun a b => ¬ t.layout.keyEqual a.row.cells b.row.cells := by
  obtain ⟨new, rows, sources⟩ := grouped.stored
  rw [rows]
  refine List.pairwise_append.mpr ⟨old, grouped.new_once sources, ?_⟩
  intro entry before other added
  obtain ⟨i, group, read⟩ := made_mem sources added
  exact (((grouped.groups i).mp group).2 _ read).1 entry before

variable {row : InputRow}

/-- Every row of the chunk has the address of a stored row with its key. -/
theorem Grouped.found (grouped : Grouped t chunk result)
    (reflexive : ∀ row ∈ chunk, t.layout.keyEqual row.cells row.cells) {i : Nat}
    (read : chunk[i]? = some row) : ∃ entry ∈ result.table.rows, result.addresses i = some entry.row ∧
      t.layout.keyEqual entry.row.cells row.cells := by
  obtain ⟨entry, answer⟩ := grouped.answered i row read
  refine ⟨entry, answer.stored, answer.address, ?_⟩
  by_cases own : i ∈ result.newGroups
  · have input := answer.own own
    have self := reflexive row (List.mem_of_getElem? read)
    rw [← input] at self ⊢
    exact self
  · exact answer.equal own

section
variable (tracks : Tracks layout t seen)
include tracks

theorem Tracks.call (grouped : Grouped t chunk result)
    (reflexive : ∀ row ∈ chunk, layout.keyEqual row.cells row.cells) : Tracks layout result.table (seen ++ chunk) := by
  obtain ⟨new, rows, sources⟩ := grouped.stored
  have same := tracks.keys
  constructor
  case indexed => exact grouped.indexed
  case allocated => exact grouped.allocated
  case keys => exact grouped.layout.trans same
  case built => exact grouped.stale.trans tracks.built
  case once =>
    rw [← same]
    apply grouped.once
    rw [same]
    exact tracks.once
  case all =>
    intro row member
    rcases List.mem_append.mp member with before | here
    · obtain ⟨entry, stored, equal⟩ := tracks.all row before
      exact ⟨entry, rows ▸ List.mem_append_left _ stored, equal⟩
    · obtain ⟨i, read⟩ := List.mem_iff_getElem?.mp here
      obtain ⟨entry, stored, -, equal⟩ := grouped.found (same ▸ reflexive) read
      exact ⟨entry, stored, same ▸ equal⟩
  case only =>
    intro entry member
    rw [rows] at member
    rcases List.mem_append.mp member with before | added
    · exact List.mem_append_left _ (tracks.only entry before)
    · obtain ⟨i, -, read⟩ := made_mem sources added
      exact List.mem_append_right _ (List.mem_of_getElem? read)

/-- A key is in the table before row `i` exactly if an earlier row has it. -/
theorem Tracks.fresh_iff {i : Nat} (read : chunk[i]? = some row) :
    Fresh t chunk i ↔ ∀ earlier ∈ seen ++ chunk.take i, ¬ layout.keyEqual earlier.cells row.cells := by
  rw [Fresh, tracks.keys]
  constructor
  · intro fresh earlier member equal
    obtain ⟨table, inside⟩ := fresh row read
    rcases List.mem_append.mp member with before | here
    · obtain ⟨entry, stored, same⟩ := tracks.all earlier before
      exact table entry stored (KeyLayout.keyEqual_trans same equal)
    · obtain ⟨j, position⟩ := List.mem_iff_getElem?.mp here
      rw [List.getElem?_take] at position
      split_ifs at position with before
      exact inside j before earlier position equal
  · intro none' row' read'
    rw [read] at read'
    cases read'
    refine ⟨fun entry stored => none' _ (List.mem_append_left _ (tracks.only entry stored)), ?_⟩
    intro j before earlier position
    apply none' earlier (List.mem_append_right _ _)
    exact List.mem_iff_getElem?.mpr ⟨j, by rw [List.getElem?_take, if_pos before, position]⟩

theorem Tracks.answers (grouped : Grouped t chunk result)
    (reflexive : ∀ row ∈ chunk, layout.keyEqual row.cells row.cells) : CallAnswers layout seen chunk result := by
  have after := tracks.call grouped reflexive
  have same := tracks.keys
  constructor
  case address =>
    intro i row read
    obtain ⟨entry, stored, address, equal⟩ := grouped.found (same ▸ reflexive) read
    rw [same] at equal
    refine ⟨entry, stored, address, equal, ?_⟩
    intro other member equal'
    exact mem_of_pairwise after.once member stored (KeyLayout.keyEqual_trans equal' (KeyLayout.keyEqual_symm equal))
  case places => exact grouped.allocated.distinct
  case reported => exact grouped.distinct
  case new =>
    intro i
    rw [grouped.groups]
    constructor
    · rintro ⟨inside, fresh⟩
      have read := List.getElem?_eq_getElem inside
      exact ⟨chunk[i], read, (tracks.fresh_iff read).mp fresh⟩
    · rintro ⟨row, read, unseen⟩
      exact ⟨(List.getElem?_eq_some_iff.mp read).1, (tracks.fresh_iff read).mpr unseen⟩

end

theorem Tracks.calls (chunks : List Chunk) (tracks : Tracks layout t seen)
    (consistent : Consistent layout (seen ++ chunks.flatten))
    (reflexive : ∀ row ∈ chunks.flatten, layout.keyEqual row.cells row.cells) :
    ∃ results table, groupChunks t chunks = some (results, table) ∧ CallsAnswer layout seen chunks results ∧
      Tracks layout table (seen ++ chunks.flatten) := by
  induction chunks generalizing t seen with
  | nil => exact ⟨[], t, rfl, trivial, by rwa [List.flatten_nil, List.append_nil]⟩
  | cons chunk chunks ih =>
    rw [List.flatten_cons, ← List.append_assoc] at consistent ⊢
    have here : ∀ row ∈ chunk, layout.keyEqual row.cells row.cells := fun row member =>
      reflexive row (List.mem_append_left _ member)
    obtain ⟨result, called, grouped⟩ := findOrCreateGroups_spec chunk tracks.indexed tracks.allocated
      tracks.built (tracks.keys ▸ consistent)
      (fun entry stored => List.mem_append_left _ (List.mem_append_left _ (tracks.only entry stored)))
      (fun row member => List.mem_append_left _ (List.mem_append_right _ member))
    obtain ⟨results, table, rest, answers, after⟩ := ih (tracks.call grouped here) consistent
      (fun row member => reflexive row (List.mem_append_right _ member))
    refine ⟨result :: results, table, ?_, ⟨tracks.answers grouped here, answers⟩, after⟩
    rw [groupChunks, called]
    dsimp only [Option.bind_eq_bind, Option.bind_some]
    rw [rest]
    rfl

theorem tracks_make (layout : KeyLayout) (capacity : Nat) : Tracks layout (PRLHashTable.make 0 layout capacity) [] where
  indexed := PRLHashTable.indexed_make 0 layout capacity
  allocated := PRLHashTable.allocated_make 0 layout capacity
  keys := rfl
  built := rfl
  once := List.Pairwise.nil
  all row member := by cases member
  only entry member := by cases member

theorem Tracks.scanned (tracks : Tracks layout t seen) : DistinctKeys layout seen t.scanAll := by
  rw [PRLHashTable.scanAll_eq]
  constructor
  · exact List.pairwise_map.mpr tracks.once
  · intro row member
    obtain ⟨entry, stored, equal⟩ := tracks.all row member
    exact ⟨entry.row.cells, List.mem_map_of_mem stored, equal⟩
  · intro found member
    obtain ⟨entry, stored, rfl⟩ := List.mem_map.mp member
    exact ⟨entry.input, tracks.only entry stored, rfl⟩

end Calls

theorem DistinctKeys.reflexive {layout : KeyLayout} {rows : List InputRow} {scanned : List Row}
    (keys : DistinctKeys layout rows scanned) {row : InputRow} (member : row ∈ rows) :
    layout.keyEqual row.cells row.cells := by
  obtain ⟨found, -, equal⟩ := keys.all row member
  exact KeyLayout.keyEqual_self_left (KeyLayout.keyEqual_symm equal)

/-- Every sequence of chunks is grouped as it should exactly if every key in it equals itself. -/
theorem groups_found_iff (input : GroupInput) :
    GroupsFound input ↔ ∀ row ∈ input.chunks.flatten, input.layout.keyEqual row.cells row.cells := by
  constructor
  · rintro ⟨results, table, -, -, scanned⟩ row member
    exact scanned.reflexive member
  · intro reflexive
    obtain ⟨results, table, ran, answers, tracks⟩ :=
      (tracks_make input.layout input.capacity).calls input.chunks input.consistent reflexive
    exact ⟨results, table, ran, answers, tracks.scanned⟩

def nanRow : InputRow := ⟨7, [some (.floating .nan)]⟩

/-- One chunk, GROUP BY semantics, the same NaN key twice. -/
def nanInput : GroupInput where
  layout := ⟨1, true⟩
  capacity := PRLHashTable.initialCapacity
  chunks := [[nanRow, nanRow]]
  consistent a first b second _ := by
    have same : ∀ row ∈ [[nanRow, nanRow]].flatten, row = nanRow := by decide
    rw [same a first, same b second]

/-- Both rows report a new group, and `Scan` returns the key twice. -/
theorem nan_key_grouped_twice :
    nanInput.run.map (fun ran => (ran.1.map GroupState.newGroups, ran.2.scanAll)) =
        some ([[0, 1]], [nanRow.cells, nanRow.cells]) ∧
      ¬ GroupsFound nanInput := by
  constructor
  · decide +kernel
  · rintro ⟨results, table, -, -, scanned⟩
    have equal := scanned.reflexive (show nanRow ∈ nanInput.chunks.flatten by decide)
    exact absurd equal (by decide)

end BumbleBee.HashTable
