import BumbleBee.HashTable.Table

/-!
`FindOrCreateGroups`. The rows of a chunk look for their groups in rounds. In a round
each pending row reads its bucket: an empty one makes it a new group, an equal hash
makes it a candidate for `Match`, another hash sends it to the next bucket. Rows with
equal keys have equal hashes, so they move together and in input order; hence the
first of them makes the group and the others find it in the same round.
-/

namespace BumbleBee.HashTable
open Library.LinearProbing Function

structure InputRow where
  hash : Nat
  cells : Row
  deriving DecidableEq

abbrev Chunk := List InputRow

/-- A row that has no group yet, with `buckets[idx]`. -/
structure Pending where
  index : Nat
  row : InputRow
  bucket : Nat

structure GroupState where
  table : PRLHashTable
  addresses : Nat → Option StoredRow
  newGroups : List Nat

structure Round extends GroupState where
  compare : List Pending
  noMatch : List Pending

def HTEntry.input (entry : HTEntry) : InputRow := ⟨entry.hash, entry.row.cells⟩

namespace Round

/-- One row of the first loop of a round. -/
def classify (round : Round) (p : Pending) : Round :=
  match round.table.directory p.bucket with
  | none =>
    let row := round.table.allocateRow p.row.cells
    let entry : HTEntry := ⟨p.row.hash, row⟩
    { round with
      table := round.table.store (update round.table.directory p.bucket (some entry)) entry
      addresses := update round.addresses p.index (some row)
      newGroups := round.newGroups ++ [p.index] }
  | some entry =>
    if entry.hash = p.row.hash then
      { round with
        addresses := update round.addresses p.index (some entry.row)
        compare := round.compare ++ [p] }
    else { round with noMatch := round.noMatch ++ [p] }

/-- The columns of the row a candidate's address points to. -/
def candidateRow (round : Round) (p : Pending) : Row := ((round.addresses p.index).map StoredRow.cells).getD []

def failures (round : Round) : List Pending :=
  (matchRows round.table.layout (fun p => p.row.cells) round.candidateRow round.compare).2

def advanceBucket (capacity : Nat) (p : Pending) : Pending := { p with bucket := advance capacity p.bucket }

/-- The rows of the next round. -/
def next (round : Round) : List Pending :=
  (round.noMatch ++ round.failures).map (advanceBucket round.table.capacity)

end Round

def runRound (state : GroupState) (pending : List Pending) : Round :=
  pending.foldl Round.classify ⟨state, [], []⟩

def rounds : Nat → GroupState → List Pending → Option GroupState
  | _, state, [] => some state
  | 0, _, _ :: _ => none
  | fuel + 1, state, p :: pending =>
    let round := runRound state (p :: pending)
    rounds fuel round.toGroupState round.next

def firstPending (capacity : Nat) (chunk : Chunk) : List Pending :=
  chunk.zipIdx.map fun pair => ⟨pair.2, pair.1, bucketOf capacity pair.1.hash⟩

/-- `none` is a failed assertion, or rows still without a group after as many rounds as buckets. -/
def PRLHashTable.findOrCreateGroups (t : PRLHashTable) (chunk : Chunk) : Option GroupState :=
  if chunk.isEmpty then some ⟨t, fun _ => none, []⟩
  else if t.directoryStale then none
  else do
    let grown ← t.grow chunk.length
    rounds grown.capacity ⟨grown, fun _ => none, []⟩ (firstPending grown.capacity chunk)

/-- How far a round has come: `seen` are the rows it has read, `made` those that made a group. -/
structure Classified (start : GroupState) (seen made : List Pending) (now : Round) : Prop where
  layout : now.table.layout = start.table.layout
  capacity : now.table.capacity = start.table.capacity
  stale : now.table.directoryStale = start.table.directoryStale
  indexed : now.table.Indexed
  allocated : now.table.Allocated
  kept : ∀ {b entry}, start.table.directory b = some entry → now.table.directory b = some entry
  added : ∃ new : List HTEntry, now.table.rows = start.table.rows ++ new ∧
    new.map HTEntry.input = made.map Pending.row
  newGroups : now.newGroups = start.newGroups ++ made.map Pending.index
  split : (made ++ (now.compare ++ now.noMatch)).Perm seen
  compareOrder : now.compare.Sublist seen
  noMatchOrder : now.noMatch.Sublist seen
  empty : ∀ p ∈ made, start.table.directory p.bucket = none
  first : seen.Pairwise fun q p => p ∈ made → q.bucket ≠ p.bucket
  settled : ∀ p ∈ made, ∃ entry, now.table.directory p.bucket = some entry ∧ entry.input = p.row ∧
    now.addresses p.index = some entry.row
  compared : ∀ p ∈ now.compare, ∃ entry, now.table.directory p.bucket = some entry ∧ entry.hash = p.row.hash ∧
    now.addresses p.index = some entry.row
  passed : ∀ p ∈ now.noMatch, ∃ entry, now.table.directory p.bucket = some entry ∧ entry.hash ≠ p.row.hash
  frame : ∀ i, (∀ p ∈ seen, p.index ≠ i) → now.addresses i = start.addresses i

section Classify

variable {start : GroupState} {seen made : List Pending} {now : Round} {p : Pending}

theorem classified_start (indexed : start.table.Indexed) (allocated : start.table.Allocated) :
    Classified start [] [] ⟨start, [], []⟩ where
  layout := rfl
  capacity := rfl
  stale := rfl
  indexed := indexed
  allocated := allocated
  kept found := found
  added := ⟨[], (List.append_nil _).symm, rfl⟩
  newGroups := (List.append_nil _).symm
  split := List.Perm.refl _
  compareOrder := List.Sublist.refl _
  noMatchOrder := List.Sublist.refl _
  empty p member := by cases member
  first := List.Pairwise.nil
  settled p member := by cases member
  compared p member := by cases member
  passed p member := by cases member
  frame i outside := rfl

section
variable (classified : Classified start seen made now)
include classified

theorem Classified.mem_seen : p ∈ seen ↔ p ∈ made ∨ p ∈ now.compare ∨ p ∈ now.noMatch := by
  rw [← classified.split.mem_iff, List.mem_append, List.mem_append]

theorem Classified.occupied (member : p ∈ seen) : now.table.directory p.bucket ≠ none := by
  rcases classified.mem_seen.mp member with created | candidate | rejected
  · obtain ⟨entry, found, -⟩ := classified.settled p created
    rw [found]
    exact Option.some_ne_none entry
  · obtain ⟨entry, found, -⟩ := classified.compared p candidate
    rw [found]
    exact Option.some_ne_none entry
  · obtain ⟨entry, found, -⟩ := classified.passed p rejected
    rw [found]
    exact Option.some_ne_none entry

theorem Classified.first_append (new : ∀ q ∈ seen, q.index ≠ p.index) :
    (seen ++ [p]).Pairwise fun q other => other ∈ made → q.bucket ≠ other.bucket := by
  refine List.pairwise_append.mpr ⟨classified.first, List.pairwise_singleton _ _, ?_⟩
  intro q before other last created
  rw [List.mem_singleton.mp last] at created
  exact absurd rfl (new p (classified.mem_seen.mpr (.inl created)))

theorem Classified.frame_append {i : Nat} (row : Option StoredRow) (outside : ∀ q ∈ seen ++ [p], q.index ≠ i) :
    update now.addresses p.index row i = start.addresses i := by
  rw [update_of_ne (outside p (List.mem_append_right _ List.mem_cons_self)).symm]
  exact classified.frame i fun q member => outside q (List.mem_append_left _ member)

end

theorem Classified.update_address (new : ∀ q ∈ seen, q.index ≠ p.index) {q : Pending} (member : q ∈ seen)
    (row : Option StoredRow) : update now.addresses p.index row q.index = now.addresses q.index :=
  update_of_ne (new q member) _ _

theorem Classified.skip (classified : Classified start seen made now) (new : ∀ q ∈ seen, q.index ≠ p.index)
    {entry : HTEntry} (found : now.table.directory p.bucket = some entry) (other : entry.hash ≠ p.row.hash) :
    Classified start (seen ++ [p]) made { now with noMatch := now.noMatch ++ [p] } where
  layout := classified.layout
  capacity := classified.capacity
  stale := classified.stale
  indexed := classified.indexed
  allocated := classified.allocated
  kept := classified.kept
  added := classified.added
  newGroups := classified.newGroups
  split := by
    rw [← List.append_assoc now.compare, ← List.append_assoc made]
    exact classified.split.append_right [p]
  compareOrder := classified.compareOrder.trans (List.sublist_append_left _ _)
  noMatchOrder := classified.noMatchOrder.append (List.Sublist.refl _)
  empty := classified.empty
  first := classified.first_append new
  settled := classified.settled
  compared := classified.compared
  passed q member := by
    rcases List.mem_append.mp member with old | last
    · exact classified.passed q old
    · rw [List.mem_singleton.mp last]
      exact ⟨entry, found, other⟩
  frame i outside := classified.frame i fun q member => outside q (List.mem_append_left _ member)

theorem Classified.candidate (classified : Classified start seen made now) (new : ∀ q ∈ seen, q.index ≠ p.index)
    {entry : HTEntry} (found : now.table.directory p.bucket = some entry) (same : entry.hash = p.row.hash) :
    Classified start (seen ++ [p]) made
      { now with
        addresses := update now.addresses p.index (some entry.row)
        compare := now.compare ++ [p] } where
  layout := classified.layout
  capacity := classified.capacity
  stale := classified.stale
  indexed := classified.indexed
  allocated := classified.allocated
  kept := classified.kept
  added := classified.added
  newGroups := classified.newGroups
  split := by
    have moved : (now.compare ++ [p] ++ now.noMatch).Perm (now.compare ++ now.noMatch ++ [p]) := by
      rw [List.append_assoc, List.append_assoc]
      exact List.perm_append_comm.append_left _
    refine (moved.append_left made).trans ?_
    rw [← List.append_assoc]
    exact classified.split.append_right [p]
  compareOrder := classified.compareOrder.append (List.Sublist.refl _)
  noMatchOrder := classified.noMatchOrder.trans (List.sublist_append_left _ _)
  empty := classified.empty
  first := classified.first_append new
  settled q member := by
    obtain ⟨entry, place, input, address⟩ := classified.settled q member
    refine ⟨entry, place, input, ?_⟩
    exact (update_address new (classified.mem_seen.mpr (.inl member)) _).trans address
  compared q member := by
    rcases List.mem_append.mp member with old | last
    · obtain ⟨entry, place, hash, address⟩ := classified.compared q old
      refine ⟨entry, place, hash, ?_⟩
      exact (update_address new (classified.mem_seen.mpr (.inr (.inl old))) _).trans address
    · rw [List.mem_singleton.mp last]
      exact ⟨entry, found, same, update_self _ _ _⟩
  passed := classified.passed
  frame i outside := classified.frame_append _ outside

/-- The bucket of a row in round `r`, behind occupied ones. -/
structure Reached (table : PRLHashTable) (r : Nat) (p : Pending) : Prop where
  bucket : p.bucket = slot table.capacity (bucketOf table.capacity p.row.hash) r
  occupied : ∀ j < r, table.directory (slot table.capacity (bucketOf table.capacity p.row.hash) j) ≠ none

variable {r : Nat}

section
variable (classified : Classified start seen made now)
include classified

theorem Classified.create (new : ∀ q ∈ seen, q.index ≠ p.index)
    (reached : Reached start.table r p) (small : r < start.table.capacity)
    (room : now.table.count + 1 < start.table.capacity) (free : now.table.directory p.bucket = none) :
    Classified start (seen ++ [p]) (made ++ [p]) (now.classify p) := by
  have capacity := classified.capacity
  have result : now.classify p = { now with
      table := now.table.store
        (update now.table.directory p.bucket (some ⟨p.row.hash, now.table.allocateRow p.row.cells⟩))
        ⟨p.row.hash, now.table.allocateRow p.row.cells⟩
      addresses := update now.addresses p.index (some (now.table.allocateRow p.row.cells))
      newGroups := now.newGroups ++ [p.index] } := by
    rw [Round.classify, free]
  have keeps : ∀ {b entry}, now.table.directory b = some entry →
      update now.table.directory p.bucket (some ⟨p.row.hash, now.table.allocateRow p.row.cells⟩) b =
        some entry := by
    intro b entry found
    rw [update_of_ne ?_, found]
    intro same
    rw [same, free] at found
    cases found
  rw [result]
  constructor
  case layout => exact classified.layout
  case capacity => exact capacity
  case stale => exact classified.stale
  case indexed =>
    have place : p.bucket = slot now.table.capacity
        (homeOf now.table.capacity ⟨p.row.hash, now.table.allocateRow p.row.cells⟩) r := by
      rw [capacity]
      exact reached.bucket
    rw [place] at free
    rw [place]
    apply classified.indexed.store (by rw [capacity]; exact room) _ (by rw [capacity]; exact small) free
    intro j before
    rw [capacity]
    obtain ⟨entry, found⟩ := Option.ne_none_iff_exists'.mp (reached.occupied j before)
    rw [homeOf, classified.kept found]
    exact Option.some_ne_none entry
  case allocated => exact classified.allocated.store _ _ _
  case kept => exact fun found => keeps (classified.kept found)
  case added =>
    obtain ⟨rows, stored, inputs⟩ := classified.added
    refine ⟨rows ++ [⟨p.row.hash, now.table.allocateRow p.row.cells⟩], ?_, ?_⟩
    · rw [← List.append_assoc, ← stored]
      rfl
    · rw [List.map_append, List.map_append, inputs]
      rfl
  case newGroups =>
    rw [classified.newGroups, List.append_assoc, List.map_append]
    rfl
  case split =>
    refine List.Perm.trans ?_ (classified.split.append_right [p])
    rw [List.append_assoc, List.append_assoc]
    exact List.perm_append_comm.append_left made
  case compareOrder => exact classified.compareOrder.trans (List.sublist_append_left _ _)
  case noMatchOrder => exact classified.noMatchOrder.trans (List.sublist_append_left _ _)
  case empty =>
    intro q member
    rcases List.mem_append.mp member with old | last
    · exact classified.empty q old
    · rw [List.mem_singleton.mp last]
      by_contra occupied
      obtain ⟨entry, found⟩ := Option.ne_none_iff_exists'.mp occupied
      rw [classified.kept found] at free
      cases free
  case first =>
    refine List.pairwise_append.mpr ⟨?_, List.pairwise_singleton _ _, ?_⟩
    · refine classified.first.imp_of_mem ?_
      intro q other before behind apart created
      rcases List.mem_append.mp created with old | last
      · exact apart old
      · exact absurd (congrArg Pending.index (List.mem_singleton.mp last)) (new other behind)
    · intro q before other last created same
      rw [List.mem_singleton.mp last] at same
      rw [← same] at free
      exact classified.occupied before free
  case settled =>
    intro q member
    rcases List.mem_append.mp member with old | last
    · obtain ⟨entry, place, input, address⟩ := classified.settled q old
      refine ⟨entry, keeps place, input, ?_⟩
      exact (update_address new (classified.mem_seen.mpr (.inl old)) _).trans address
    · rw [List.mem_singleton.mp last]
      exact ⟨_, update_self _ _ _, rfl, update_self _ _ _⟩
  case compared =>
    intro q member
    obtain ⟨entry, place, hash, address⟩ := classified.compared q member
    refine ⟨entry, keeps place, hash, ?_⟩
    exact (update_address new (classified.mem_seen.mpr (.inr (.inl member))) _).trans address
  case passed =>
    intro q member
    obtain ⟨entry, place, hash⟩ := classified.passed q member
    exact ⟨entry, keeps place, hash⟩
  case frame => exact fun i outside => classified.frame_append _ outside

theorem Classified.step (new : ∀ q ∈ seen, q.index ≠ p.index) (reached : Reached start.table r p)
    (small : r < start.table.capacity) (room : now.table.count + 1 < start.table.capacity) :
    ∃ made', Classified start (seen ++ [p]) made' (now.classify p) := by
  cases found : now.table.directory p.bucket with
  | none => exact ⟨made ++ [p], classified.create new reached small room found⟩
  | some entry =>
    refine ⟨made, ?_⟩
    rw [Round.classify, found]
    dsimp only
    split_ifs with same
    · exact classified.candidate new found same
    · exact classified.skip new found same

theorem Classified.count_le : now.table.count ≤ start.table.count + seen.length := by
  obtain ⟨rows, stored, inputs⟩ := classified.added
  have same := congrArg List.length inputs
  have parts := classified.split.length_eq
  rw [List.length_map, List.length_map] at same
  rw [List.length_append] at parts
  rw [PRLHashTable.count, stored, List.length_append, PRLHashTable.count]
  omega

theorem classified_loop (small : r < start.table.capacity) (rest : List Pending)
    (reached : ∀ p ∈ rest, Reached start.table r p) (distinct : ((seen ++ rest).map Pending.index).Nodup)
    (room : start.table.count + (seen ++ rest).length < start.table.capacity) :
    ∃ made', Classified start (seen ++ rest) made' (rest.foldl Round.classify now) := by
  induction rest generalizing seen made now with
  | nil =>
    rw [List.append_nil]
    exact ⟨made, classified⟩
  | cons p rest ih =>
    have new : ∀ q ∈ seen, q.index ≠ p.index := by
      intro q member
      rw [List.map_append] at distinct
      exact (List.nodup_append.mp distinct).2.2 _ (List.mem_map_of_mem member) _ List.mem_cons_self
    have count := classified.count_le
    rw [List.length_append, List.length_cons] at room
    obtain ⟨made', step⟩ := classified.step new (reached p List.mem_cons_self) small (by omega)
    rw [List.append_cons] at distinct ⊢
    apply ih step (fun q member => reached q (List.mem_cons_of_mem _ member)) distinct
    rw [List.length_append, List.length_append, List.length_singleton]
    omega

end

theorem runRound_classified {pending : List Pending} (indexed : start.table.Indexed)
    (allocated : start.table.Allocated) (small : r < start.table.capacity)
    (reached : ∀ p ∈ pending, Reached start.table r p) (distinct : (pending.map Pending.index).Nodup)
    (room : start.table.count + pending.length < start.table.capacity) :
    ∃ made, Classified start pending made (runRound start pending) :=
  classified_loop (classified_start indexed allocated) small pending reached distinct room

end Classify

end BumbleBee.HashTable
