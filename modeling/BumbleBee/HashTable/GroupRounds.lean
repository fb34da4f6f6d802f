import BumbleBee.HashTable.Groups
import Mathlib.Data.List.Perm.Subperm

/-!
What the rounds of `FindOrCreateGroups` keep, and what a call returns. In round `r` a
pending row lies `r` buckets behind its home and differs from the rows it has passed.
So a row that meets an empty bucket has no equal in the table, and the row pending
longest can pass at most the occupied buckets.
-/

namespace BumbleBee.HashTable
open Library.LinearProbing

/-- Rows with equal keys have equal hashes. -/
def Consistent (layout : KeyLayout) (pool : List InputRow) : Prop :=
  ∀ a ∈ pool, ∀ b ∈ pool, layout.keyEqual a.cells b.cells → a.hash = b.hash

/-- No row of the table and no earlier row of the chunk has the key of row `i`. -/
def Fresh (base : PRLHashTable) (chunk : Chunk) (i : Nat) : Prop :=
  ∀ row, chunk[i]? = some row → (∀ entry ∈ base.rows, ¬ base.layout.keyEqual entry.row.cells row.cells) ∧
    ∀ j < i, ∀ earlier, chunk[j]? = some earlier → ¬ base.layout.keyEqual earlier.cells row.cells

/-- Row `i` has the address of a stored row: its own if it made a group, else one with its key. -/
structure Answered (base : PRLHashTable) (state : GroupState) (i : Nat) (row : InputRow)
    (entry : HTEntry) : Prop where
  stored : entry ∈ state.table.rows
  address : state.addresses i = some entry.row
  own : i ∈ state.newGroups → entry.input = row
  equal : i ∉ state.newGroups → base.layout.keyEqual entry.row.cells row.cells

/-- The state before round `r`; `new` are the rows stored by this call. -/
structure Probing (base : PRLHashTable) (chunk : Chunk) (r : Nat) (state : GroupState) (pending : List Pending)
    (new : List HTEntry) : Prop where
  indexed : state.table.Indexed
  allocated : state.table.Allocated
  layout : state.table.layout = base.layout
  capacity : state.table.capacity = base.capacity
  stale : state.table.directoryStale = base.directoryStale
  rows : state.table.rows = base.rows ++ new
  made : new.map (fun entry => some entry.input) = state.newGroups.map (fun i => chunk[i]?)
  distinct : (state.newGroups ++ pending.map Pending.index).Nodup
  input : ∀ p ∈ pending, chunk[p.index]? = some p.row
  bucket : ∀ p ∈ pending, p.bucket = slot base.capacity (bucketOf base.capacity p.row.hash) r
  passed : ∀ p ∈ pending, ∀ j < r, ∃ entry,
    state.table.directory (slot base.capacity (bucketOf base.capacity p.row.hash) j) = some entry ∧
      ¬ base.layout.keyEqual entry.row.cells p.row.cells
  ordered : pending.Pairwise fun p q => base.layout.keyEqual p.row.cells q.row.cells → p.index < q.index
  apart : ∀ entry ∈ new, ∀ p ∈ pending, ¬ base.layout.keyEqual entry.row.cells p.row.cells
  fresh : ∀ i ∈ state.newGroups, Fresh base chunk i
  answered : ∀ i row, chunk[i]? = some row → (∀ p ∈ pending, p.index ≠ i) → ∃ entry, Answered base state i row entry

section Start

variable {base : PRLHashTable} {chunk : Chunk} {p : Pending}

theorem mem_firstPending {capacity : Nat} :
    p ∈ firstPending capacity chunk ↔ chunk[p.index]? = some p.row ∧ p.bucket = bucketOf capacity p.row.hash := by
  rw [firstPending, List.mem_map]
  constructor
  · rintro ⟨⟨row, index⟩, member, rfl⟩
    exact ⟨List.mem_zipIdx_iff_getElem?.mp member, rfl⟩
  · rintro ⟨read, bucket⟩
    refine ⟨(p.row, p.index), List.mem_zipIdx_iff_getElem?.mpr read, ?_⟩
    rw [← bucket]

theorem firstPending_index (capacity : Nat) (chunk : Chunk) :
    (firstPending capacity chunk).map Pending.index = List.range chunk.length := by
  rw [firstPending, List.map_map, List.range_eq_range', ← List.zipIdx_map_snd 0 chunk]
  rfl

theorem probing_start (indexed : base.Indexed) (allocated : base.Allocated) :
    Probing base chunk 0 ⟨base, fun _ => none, []⟩ (firstPending base.capacity chunk) [] where
  indexed := indexed
  allocated := allocated
  layout := rfl
  capacity := rfl
  stale := rfl
  rows := (List.append_nil _).symm
  made := rfl
  distinct := by
    rw [firstPending_index]
    exact List.nodup_range
  input p member := (mem_firstPending.mp member).1
  bucket p member := by
    rw [(mem_firstPending.mp member).2, slot, Nat.add_zero, bucketOf, and_mask indexed.power, Nat.mod_mod]
  passed p member j below := absurd below (Nat.not_lt_zero j)
  ordered := by
    have increasing : ((firstPending base.capacity chunk).map Pending.index).Pairwise (· < ·) := by
      rw [firstPending_index]
      exact List.pairwise_lt_range
    refine (List.pairwise_map.mp increasing).imp ?_
    intro p q less equal
    exact less
  apart entry member := by cases member
  fresh i member := by cases member
  answered i row read outside := by
    have first : (⟨i, row, bucketOf base.capacity row.hash⟩ : Pending) ∈ firstPending base.capacity chunk :=
      mem_firstPending.mpr ⟨read, rfl⟩
    exact absurd rfl (outside _ first)

end Start

section Round

variable {base : PRLHashTable} {chunk : Chunk} {pool : List InputRow} {r : Nat} {state : GroupState}
  {pending : List Pending} {new : List HTEntry} {p : Pending}

theorem made_mem {groups : List Nat}
    (made : new.map (fun entry => some entry.input) = groups.map (fun i => chunk[i]?)) {entry : HTEntry}
    (member : entry ∈ new) : ∃ i ∈ groups, chunk[i]? = some entry.input := by
  have listed := List.mem_map_of_mem (f := fun entry : HTEntry => some entry.input) member
  rw [made] at listed
  exact List.mem_map.mp listed

section
variable (probing : Probing base chunk r state pending new)
include probing

theorem Probing.room (fits : base.count + chunk.length < base.capacity) :
    state.table.count + pending.length < state.table.capacity := by
  have inside : state.newGroups ++ pending.map Pending.index ⊆ List.range chunk.length := by
    intro i member
    rw [List.mem_range]
    have read : ∃ row, chunk[i]? = some row := by
      rcases List.mem_append.mp member with made | waiting
      · have listed := List.mem_map_of_mem (f := fun i => chunk[i]?) made
        rw [← probing.made] at listed
        obtain ⟨entry, -, same⟩ := List.mem_map.mp listed
        exact ⟨entry.input, same.symm⟩
      · obtain ⟨p, here, rfl⟩ := List.mem_map.mp waiting
        exact ⟨p.row, probing.input p here⟩
    obtain ⟨row, read⟩ := read
    exact (List.getElem?_eq_some_iff.mp read).1
  have size := (List.subperm_of_subset probing.distinct inside).length_le
  have same := congrArg List.length probing.made
  rw [List.length_map, List.length_map] at same
  rw [List.length_append, List.length_map, List.length_range] at size
  rw [probing.capacity, PRLHashTable.count, probing.rows, List.length_append]
  rw [PRLHashTable.count] at fits
  omega

theorem Probing.reached (member : p ∈ pending) :
    Reached state.table r p where
  bucket := by
    rw [probing.capacity]
    exact probing.bucket p member
  occupied j below := by
    rw [probing.capacity]
    obtain ⟨entry, found, -⟩ := probing.passed p member j below
    rw [found]
    exact Option.some_ne_none entry

/-- A row is pending for fewer rounds than there are buckets. -/
theorem Probing.round_lt (member : p ∈ pending) : r < state.table.capacity := by
  have fewer : (entries state.table.capacity state.table.directory).length < state.table.capacity := by
    rw [probing.indexed.complete.length_eq]
    exact probing.indexed.fewer
  obtain ⟨d, small, free⟩ := exists_free fewer (bucketOf state.table.capacity p.row.hash)
  by_contra late
  exact (probing.reached member).occupied d (by omega) free

/-- A row at an empty bucket has no equal in the table. -/
theorem Probing.no_equal (consistent : Consistent base.layout pool)
    (drawn : ∀ entry ∈ state.table.rows, entry.input ∈ pool) (taken : ∀ row ∈ chunk, row ∈ pool)
    (member : p ∈ pending) (free : state.table.directory p.bucket = none) {entry : HTEntry}
    (stored : entry ∈ state.table.rows) : ¬ base.layout.keyEqual entry.row.cells p.row.cells := by
  intro equal
  have hash : entry.hash = p.row.hash :=
    consistent _ (drawn entry stored) _ (taken _ (List.mem_of_getElem? (probing.input p member))) equal
  obtain ⟨b, found⟩ := probing.indexed.mem_rows.mp stored
  have home : homeOf state.table.capacity entry = bucketOf base.capacity p.row.hash := by
    rw [homeOf, hash, probing.capacity]
  rw [probing.bucket p member, ← home, ← probing.capacity] at free
  obtain ⟨d, before, place⟩ := probing.indexed.linked.before_free found free
  obtain ⟨other, here, unequal⟩ := probing.passed p member d before
  rw [← home, ← probing.capacity, place, found] at here
  cases here
  exact unequal equal

end

variable {q : Pending}

theorem Probing.index_injective (probing : Probing base chunk r state pending new) (first : p ∈ pending)
    (second : q ∈ pending) (same : p.index = q.index) : p = q :=
  List.inj_on_of_nodup_map (List.nodup_append.mp probing.distinct).2.1 first second same

/-- Pending rows with equal keys are at the same bucket. -/
theorem Probing.same_bucket (probing : Probing base chunk r state pending new)
    (consistent : Consistent base.layout pool) (taken : ∀ row ∈ chunk, row ∈ pool) (first : p ∈ pending)
    (second : q ∈ pending) (equal : base.layout.keyEqual p.row.cells q.row.cells) :
    p.row.hash = q.row.hash ∧ p.bucket = q.bucket := by
  have hash : p.row.hash = q.row.hash := consistent _ (taken _ (List.mem_of_getElem? (probing.input p first))) _
    (taken _ (List.mem_of_getElem? (probing.input q second))) equal
  refine ⟨hash, ?_⟩
  rw [probing.bucket p first, probing.bucket q second, hash]

end Round

section Step

variable {base : PRLHashTable} {chunk : Chunk} {pool : List InputRow} {r : Nat} {state : GroupState}
  {pending made : List Pending} {new : List HTEntry} {round : Round} {p q : Pending}

section
variable (classified : Classified state pending made round)
include classified

theorem Classified.candidateRow
    (member : p ∈ round.compare) : ∃ entry, round.table.directory p.bucket = some entry ∧
      entry.hash = p.row.hash ∧ round.addresses p.index = some entry.row ∧ round.candidateRow p = entry.row.cells := by
  obtain ⟨entry, found, hash, address⟩ := classified.compared p member
  refine ⟨entry, found, hash, address, ?_⟩
  rw [Round.candidateRow, address]
  rfl

theorem Classified.compare_nodup (distinct : (pending.map Pending.index).Nodup) : round.compare.Nodup :=
  classified.compareOrder.nodup distinct.of_map

theorem Classified.drawn (old : ∀ entry ∈ state.table.rows, entry.input ∈ pool)
    (inputs : ∀ p ∈ pending, p.row ∈ pool) : ∀ entry ∈ round.table.rows, entry.input ∈ pool := by
  obtain ⟨rows, stored, same⟩ := classified.added
  intro entry member
  rw [stored] at member
  rcases List.mem_append.mp member with before | added
  · exact old entry before
  · have listed := List.mem_map_of_mem (f := HTEntry.input) added
    rw [same] at listed
    obtain ⟨p, created, row⟩ := List.mem_map.mp listed
    rw [← row]
    exact inputs p (classified.mem_seen.mpr (.inl created))

theorem Classified.goes_on (consistent : Consistent round.table.layout pool)
    (drawn : ∀ entry ∈ round.table.rows, entry.input ∈ pool) (distinct : (pending.map Pending.index).Nodup)
    (inputs : ∀ p ∈ pending, p.row ∈ pool) (member : p ∈ round.noMatch ++ round.failures) :
    p ∈ pending ∧ ∃ entry, round.table.directory p.bucket = some entry ∧
      ¬ round.table.layout.keyEqual entry.row.cells p.row.cells := by
  rcases List.mem_append.mp member with rejected | failed
  · have waiting := classified.mem_seen.mpr (.inr (.inr rejected))
    obtain ⟨entry, found, hash⟩ := classified.passed p rejected
    refine ⟨waiting, entry, found, fun equal => hash ?_⟩
    exact consistent _ (drawn entry (classified.indexed.mem_rows.mpr ⟨_, found⟩)) _ (inputs p waiting) equal
  · obtain ⟨candidate, unequal⟩ := mem_failures failed (classified.compare_nodup distinct)
    obtain ⟨entry, found, -, -, row⟩ := classified.candidateRow candidate
    rw [row] at unequal
    exact ⟨classified.mem_seen.mpr (.inr (.inl candidate)), entry, found,
      fun equal => unequal (KeyLayout.keyEqual_symm equal)⟩

theorem Classified.stops (member : p ∈ pending) (stopped : p ∉ round.noMatch ++ round.failures) :
    p ∈ made ∨ ∃ entry, round.table.directory p.bucket = some entry ∧ round.addresses p.index = some entry.row ∧
      round.table.layout.keyEqual entry.row.cells p.row.cells := by
  rcases classified.mem_seen.mp member with created | candidate | rejected
  · exact .inl created
  · right
    obtain ⟨entry, found, -, address, row⟩ := classified.candidateRow candidate
    have split : p ∈ (matchRows round.table.layout (fun p => p.row.cells) round.candidateRow round.compare).2 ++
        (matchRows round.table.layout (fun p => p.row.cells) round.candidateRow round.compare).1 :=
      matchRows_perm.mem_iff.mpr candidate
    rcases List.mem_append.mp split with failed | matched
    · exact absurd (List.mem_append_right _ failed) stopped
    · rw [matchRows_fst, List.mem_filter, row] at matched
      exact ⟨entry, found, address, KeyLayout.keyEqual_symm matched.2⟩
  · exact absurd (List.mem_append_left _ rejected) stopped

end

section
variable (probing : Probing base chunk r state pending new)
include probing

section
variable (classified : Classified state pending made round)
include classified

section
variable (consistent : Consistent base.layout pool)
include consistent

/-- Rows with equal keys that go on keep their order. -/
theorem Probing.ordered_next (taken : ∀ row ∈ chunk, row ∈ pool) :
    (round.noMatch ++ round.failures).Pairwise
      fun p q => base.layout.keyEqual p.row.cells q.row.cells → p.index < q.index := by
  have layout : round.table.layout = base.layout := classified.layout.trans probing.layout
  have waits : ∀ {p}, p ∈ round.compare → p ∈ pending := fun candidate =>
    classified.mem_seen.mpr (.inr (.inl candidate))
  have distinct := (List.nodup_append.mp probing.distinct).2.1
  refine List.pairwise_append.mpr ⟨probing.ordered.sublist classified.noMatchOrder, ?_, ?_⟩
  · apply failures_pairwise (probing.ordered.sublist classified.compareOrder)
    intro p first q second unordered
    have equal := (Classical.not_imp.mp unordered).1
    obtain ⟨-, bucket⟩ := probing.same_bucket consistent taken (waits first) (waits second) equal
    obtain ⟨entry, found, -, -, row⟩ := classified.candidateRow first
    obtain ⟨other, found', -, -, row'⟩ := classified.candidateRow second
    rw [bucket, found'] at found
    cases found
    rw [layout, row, row']
    exact ⟨equal, rfl⟩
  · intro p rejected q failed equal
    have candidate := (mem_failures failed (classified.compare_nodup distinct)).1
    obtain ⟨hash, bucket⟩ := probing.same_bucket consistent taken
      (classified.mem_seen.mpr (.inr (.inr rejected))) (waits candidate) equal
    obtain ⟨entry, found, unequal⟩ := classified.passed p rejected
    obtain ⟨other, found', same, -⟩ := classified.candidateRow candidate
    rw [bucket, found'] at found
    cases found
    exact absurd (same.trans hash.symm) unequal

section
variable (drawn : ∀ entry ∈ state.table.rows, entry.input ∈ pool)
include drawn

theorem Probing.fresh_made (taken : ∀ row ∈ chunk, row ∈ pool) (created : p ∈ made) :
    Fresh base chunk p.index := by
  have waiting := classified.mem_seen.mpr (.inl created)
  have alone : ∀ entry ∈ state.table.rows, ¬ base.layout.keyEqual entry.row.cells p.row.cells :=
    fun entry => probing.no_equal consistent drawn taken waiting (classified.empty p created)
  intro row read
  rw [probing.input p waiting] at read
  cases read
  refine ⟨fun entry member => alone entry (probing.rows ▸ List.mem_append_left _ member), ?_⟩
  intro j before earlier read equal
  by_cases still : ∃ q ∈ pending, q.index = j
  · obtain ⟨q, waits, rfl⟩ := still
    rw [probing.input q waits] at read
    cases read
    have bucket := (probing.same_bucket consistent taken waits waiting equal).2
    have other : q ≠ p := fun same => Nat.lt_irrefl _ (same ▸ before)
    have order : q.bucket ≠ p.bucket ∨ p.index < q.index := by
      refine List.Pairwise.forall_of_forall_of_flip (l := pending)
        (R := fun q p => q ≠ p → p ∈ made → base.layout.keyEqual q.row.cells p.row.cells →
          q.bucket ≠ p.bucket ∨ p.index < q.index) ?_ ?_ ?_ waits waiting other created equal
      · exact fun _ _ different => absurd rfl different
      · exact classified.first.imp fun apart _ created _ => .inl (apart created)
      · exact probing.ordered.imp fun less _ _ equal => .inr (less (KeyLayout.keyEqual_symm equal))
    rcases order with apart | behind
    · exact apart bucket
    · omega
  · push Not at still
    obtain ⟨entry, answer⟩ := probing.answered j earlier read still
    apply alone entry answer.stored
    by_cases own : j ∈ state.newGroups
    · have same := answer.own own
      rw [← same] at equal
      exact equal
    · exact KeyLayout.keyEqual_trans (answer.equal own) equal

theorem Probing.apart_next (taken : ∀ row ∈ chunk, row ∈ pool) (created : q ∈ made)
    (onward : p ∈ round.noMatch ++ round.failures) : ¬ base.layout.keyEqual q.row.cells p.row.cells := by
  intro equal
  have layout : round.table.layout = base.layout := classified.layout.trans probing.layout
  have inputs : ∀ p ∈ pending, p.row ∈ pool := fun p member =>
    taken _ (List.mem_of_getElem? (probing.input p member))
  obtain ⟨waiting, entry, found, unequal⟩ := classified.goes_on (layout ▸ consistent)
    (classified.drawn drawn inputs) (List.nodup_append.mp probing.distinct).2.1 inputs onward
  have bucket := (probing.same_bucket consistent taken (classified.mem_seen.mpr (.inl created)) waiting equal).2
  obtain ⟨other, found', input, -⟩ := classified.settled q created
  rw [bucket, found] at found'
  cases found'
  rw [layout] at unequal
  apply unequal
  rw [← input] at equal
  exact equal

end

end

theorem Probing.mem_newGroups (member : p ∈ pending) : p.index ∈ round.newGroups ↔ p ∈ made := by
  rw [classified.newGroups, List.mem_append]
  constructor
  · rintro (old | created)
    · exact absurd rfl ((List.nodup_append.mp probing.distinct).2.2 _ old _ (List.mem_map_of_mem member))
    · obtain ⟨q, created, same⟩ := List.mem_map.mp created
      rw [← probing.index_injective (classified.mem_seen.mpr (.inl created)) member same]
      exact created
  · exact fun created => .inr (List.mem_map_of_mem created)

/-- A row that goes no further has its address. -/
theorem Probing.answered_next {i : Nat} {row : InputRow} (read : chunk[i]? = some row)
    (done : ∀ p ∈ round.noMatch ++ round.failures, p.index ≠ i) :
    ∃ entry, Answered base round.toGroupState i row entry := by
  have layout : round.table.layout = base.layout := classified.layout.trans probing.layout
  by_cases waiting : ∃ p ∈ pending, p.index = i
  · obtain ⟨p, member, rfl⟩ := waiting
    rw [probing.input p member] at read
    cases read
    by_cases created : p ∈ made
    · obtain ⟨entry, found, input, address⟩ := classified.settled p created
      refine ⟨entry, classified.indexed.mem_rows.mpr ⟨_, found⟩, address, fun _ => input, ?_⟩
      exact fun absent => absurd ((probing.mem_newGroups classified member).mpr created) absent
    · obtain ⟨entry, found, address, equal⟩ :=
        (classified.stops member fun onward => done p onward rfl).resolve_left created
      rw [layout] at equal
      refine ⟨entry, classified.indexed.mem_rows.mpr ⟨_, found⟩, address, ?_, fun _ => equal⟩
      exact fun listed => absurd ((probing.mem_newGroups classified member).mp listed) created
  · push Not at waiting
    obtain ⟨entry, answer⟩ := probing.answered i row read waiting
    obtain ⟨added, stored, -⟩ := classified.added
    have groups : i ∈ round.newGroups ↔ i ∈ state.newGroups := by
      rw [classified.newGroups, List.mem_append, or_iff_left]
      intro listed
      obtain ⟨p, created, same⟩ := List.mem_map.mp listed
      exact waiting p (classified.mem_seen.mpr (.inl created)) same
    refine ⟨entry, stored ▸ List.mem_append_left _ answer.stored, ?_, ?_, ?_⟩
    · exact (classified.frame i waiting).trans answer.address
    · exact fun listed => answer.own (groups.mp listed)
    · exact fun absent => answer.equal fun listed => absent (groups.mpr listed)

theorem Probing.distinct_next :
    (round.newGroups ++ (round.noMatch ++ round.failures).map Pending.index).Nodup := by
  have parts : (made ++ (round.noMatch ++ round.failures)).Subperm pending := by
    have failed : round.failures.Subperm round.compare :=
      ((List.sublist_append_left _ _).subperm).trans matchRows_perm.subperm
    refine List.Subperm.trans ?_ classified.split.subperm
    apply (List.subperm_append_left made).mpr
    exact List.perm_append_comm.subperm.trans ((List.subperm_append_right _).mpr failed)
  obtain ⟨kept, same, sub⟩ := parts
  rw [classified.newGroups, List.append_assoc, ← List.map_append]
  apply ((same.map Pending.index).append_left state.newGroups).nodup_iff.mp
  exact ((sub.map Pending.index).append_left state.newGroups).nodup probing.distinct

theorem Probing.step (consistent : Consistent base.layout pool)
    (drawn : ∀ entry ∈ state.table.rows, entry.input ∈ pool) (taken : ∀ row ∈ chunk, row ∈ pool) :
    ∃ added, Probing base chunk (r + 1) round.toGroupState round.next (new ++ added) := by
  have layout : round.table.layout = base.layout := classified.layout.trans probing.layout
  have capacity : round.table.capacity = base.capacity := classified.capacity.trans probing.capacity
  have walk := walk_mask (probing.capacity ▸ probing.indexed.power)
  have inputs : ∀ p ∈ pending, p.row ∈ pool := fun p member =>
    taken _ (List.mem_of_getElem? (probing.input p member))
  have onward : ∀ q ∈ round.next, ∃ p ∈ round.noMatch ++ round.failures, p.index = q.index ∧ p.row = q.row ∧
      q.bucket = advance base.capacity p.bucket ∧ p ∈ pending ∧ ∃ entry, round.table.directory p.bucket = some entry ∧
        ¬ base.layout.keyEqual entry.row.cells p.row.cells := by
    intro q member
    obtain ⟨p, going, rfl⟩ := List.mem_map.mp member
    obtain ⟨waiting, entry, found, unequal⟩ := classified.goes_on (layout ▸ consistent)
      (classified.drawn drawn inputs) (List.nodup_append.mp probing.distinct).2.1 inputs going
    refine ⟨p, going, rfl, rfl, ?_, waiting, entry, found, layout ▸ unequal⟩
    rw [← capacity]
    rfl
  obtain ⟨added, stored, same⟩ := classified.added
  refine ⟨added, ?_⟩
  constructor
  case indexed => exact classified.indexed
  case allocated => exact classified.allocated
  case layout => exact layout
  case capacity => exact capacity
  case stale => exact classified.stale.trans probing.stale
  case rows => rw [stored, probing.rows, List.append_assoc]
  case made =>
    rw [List.map_append, probing.made, classified.newGroups, List.map_append, List.map_map]
    congr 1
    calc added.map (fun entry => some entry.input) = (added.map HTEntry.input).map some := by
          rw [List.map_map]
          rfl
      _ = (made.map Pending.row).map some := by rw [same]
      _ = made.map ((fun i => chunk[i]?) ∘ Pending.index) := by
          rw [List.map_map]
          apply List.map_congr_left
          intro p created
          exact (probing.input p (classified.mem_seen.mpr (.inl created))).symm
  case distinct =>
    have named : round.next.map Pending.index = (round.noMatch ++ round.failures).map Pending.index := by
      rw [Round.next, List.map_map]
      rfl
    rw [named]
    exact probing.distinct_next classified
  case input =>
    intro q member
    obtain ⟨p, -, index, row, -, waiting, -⟩ := onward q member
    rw [← index, ← row]
    exact probing.input p waiting
  case bucket =>
    intro q member
    obtain ⟨p, -, index, row, bucket, waiting, -⟩ := onward q member
    rw [bucket, probing.bucket p waiting, walk.next_slot, row]
  case passed =>
    intro q member j below
    obtain ⟨p, -, index, row, bucket, waiting, entry, found, unequal⟩ := onward q member
    rw [← row]
    rcases Nat.lt_succ_iff_lt_or_eq.mp below with earlier | last
    · obtain ⟨entry, found, unequal⟩ := probing.passed p waiting j earlier
      exact ⟨entry, classified.kept found, unequal⟩
    · rw [last, ← probing.bucket p waiting]
      exact ⟨entry, found, unequal⟩
  case ordered =>
    exact List.pairwise_map.mpr (probing.ordered_next classified consistent taken)
  case apart =>
    intro entry member q going
    obtain ⟨p, goes, index, row, bucket, waiting, -⟩ := onward q going
    rw [← row]
    rcases List.mem_append.mp member with old | fresh
    · exact probing.apart entry old p waiting
    · have listed := List.mem_map_of_mem (f := HTEntry.input) fresh
      rw [same] at listed
      obtain ⟨maker, created, input⟩ := List.mem_map.mp listed
      have unequal := probing.apart_next classified consistent drawn taken created goes
      rw [input] at unequal
      exact unequal
  case fresh =>
    intro i member
    rw [classified.newGroups] at member
    rcases List.mem_append.mp member with old | fresh
    · exact probing.fresh i old
    · obtain ⟨p, created, rfl⟩ := List.mem_map.mp fresh
      exact probing.fresh_made classified consistent drawn taken created
  case answered =>
    intro i row read outside
    apply probing.answered_next classified read
    intro p going
    exact outside (Round.advanceBucket round.table.capacity p) (List.mem_map_of_mem going)

end

end

end Step

section Call

variable {base t : PRLHashTable} {chunk : Chunk} {pool : List InputRow} {r : Nat} {state : GroupState}
  {pending : List Pending} {new : List HTEntry}

theorem Probing.drawn (probing : Probing base chunk r state pending new)
    (old : ∀ entry ∈ base.rows, entry.input ∈ pool) (taken : ∀ row ∈ chunk, row ∈ pool) :
    ∀ entry ∈ state.table.rows, entry.input ∈ pool := by
  intro entry member
  rw [probing.rows] at member
  rcases List.mem_append.mp member with before | added
  · exact old entry before
  · obtain ⟨i, -, read⟩ := made_mem probing.made added
    exact taken _ (List.mem_of_getElem? read)

/-- The rounds end, within as many as there are buckets. -/
theorem rounds_spec (fuel : Nat) (probing : Probing base chunk r state pending new)
    (consistent : Consistent base.layout pool) (old : ∀ entry ∈ base.rows, entry.input ∈ pool)
    (taken : ∀ row ∈ chunk, row ∈ pool) (fits : base.count + chunk.length < base.capacity)
    (enough : base.capacity ≤ r + fuel) :
    ∃ result last new', rounds fuel state pending = some result ∧ Probing base chunk last result [] new' := by
  induction fuel generalizing r state pending new with
  | zero =>
    cases pending with
    | nil => exact ⟨state, r, new, rfl, probing⟩
    | cons p pending =>
      have early := probing.round_lt List.mem_cons_self
      rw [probing.capacity] at early
      omega
  | succ fuel ih =>
    cases pending with
    | nil => exact ⟨state, r, new, rfl, probing⟩
    | cons p pending =>
      obtain ⟨made, classified⟩ := runRound_classified probing.indexed probing.allocated
        (probing.round_lt List.mem_cons_self) (fun q member => probing.reached member)
        (List.nodup_append.mp probing.distinct).2.1 (probing.room fits)
      obtain ⟨added, next⟩ := probing.step classified consistent (probing.drawn old taken) taken
      exact ih next (by omega)

/-- What a call of `FindOrCreateGroups` does. -/
structure Grouped (t : PRLHashTable) (chunk : Chunk) (result : GroupState) : Prop where
  indexed : result.table.Indexed
  allocated : result.table.Allocated
  layout : result.table.layout = t.layout
  stale : result.table.directoryStale = t.directoryStale
  stored : ∃ new, result.table.rows = t.rows ++ new ∧
    new.map (fun entry => some entry.input) = result.newGroups.map (fun i => chunk[i]?)
  distinct : result.newGroups.Nodup
  groups : ∀ i, i ∈ result.newGroups ↔ i < chunk.length ∧ Fresh t chunk i
  answered : ∀ i row, chunk[i]? = some row → ∃ entry, Answered t result i row entry

theorem Probing.not_fresh (probing : Probing base chunk r state [] new) {i : Nat} {row : InputRow}
    (read : chunk[i]? = some row) (old : i ∉ state.newGroups) : ¬ Fresh base chunk i := by
  intro fresh
  obtain ⟨entry, answer⟩ := probing.answered i row read fun p member => by cases member
  have equal := answer.equal old
  have stored := answer.stored
  rw [probing.rows] at stored
  rcases List.mem_append.mp stored with before | added
  · exact (fresh row read).1 entry before equal
  · obtain ⟨j, group, source⟩ := made_mem probing.made added
    rcases Nat.lt_trichotomy j i with earlier | same | later
    · exact (fresh row read).2 j earlier entry.input source equal
    · exact old (same ▸ group)
    · exact (probing.fresh j group entry.input source).2 i later row read (KeyLayout.keyEqual_symm equal)

theorem Probing.grouped (probing : Probing base chunk r state [] new) : Grouped base chunk state where
  indexed := probing.indexed
  allocated := probing.allocated
  layout := probing.layout
  stale := probing.stale
  stored := ⟨new, probing.rows, probing.made⟩
  distinct := (List.nodup_append.mp probing.distinct).1
  groups i := by
    constructor
    · intro group
      refine ⟨?_, probing.fresh i group⟩
      have listed := List.mem_map_of_mem (f := fun i => chunk[i]?) group
      rw [← probing.made] at listed
      obtain ⟨entry, -, read⟩ := List.mem_map.mp listed
      exact (List.getElem?_eq_some_iff.mp read.symm).1
    · rintro ⟨inside, fresh⟩
      by_contra old
      exact probing.not_fresh (List.getElem?_eq_getElem inside) old fresh
  answered i row read := probing.answered i row read fun p member => by cases member

theorem Grouped.regrown {grown : PRLHashTable} {result : GroupState} (same : t.Regrown grown)
    (grouped : Grouped grown chunk result) : Grouped t chunk result where
  indexed := grouped.indexed
  allocated := grouped.allocated
  layout := grouped.layout.trans same.layout
  stale := grouped.stale.trans same.stale
  stored := same.rows ▸ grouped.stored
  distinct := grouped.distinct
  groups i := by
    have fresh : Fresh grown chunk i ↔ Fresh t chunk i := by rw [Fresh, Fresh, same.rows, same.layout]
    rw [← fresh]
    exact grouped.groups i
  answered i row read := by
    obtain ⟨entry, answer⟩ := grouped.answered i row read
    exact ⟨entry, answer.stored, answer.address, answer.own, same.layout ▸ answer.equal⟩

/-- The probing of a call ends, and every row has its group. -/
theorem findOrCreateGroups_spec (chunk : Chunk) (indexed : t.Indexed) (allocated : t.Allocated)
    (built : t.directoryStale = false) (consistent : Consistent t.layout pool) (old : ∀ entry ∈ t.rows, entry.input ∈ pool)
    (taken : ∀ row ∈ chunk, row ∈ pool) :
    ∃ result, t.findOrCreateGroups chunk = some result ∧ Grouped t chunk result := by
  rw [PRLHashTable.findOrCreateGroups]
  cases chunk with
  | nil => exact ⟨_, rfl, (probing_start indexed allocated).grouped⟩
  | cons first rest =>
    obtain ⟨grown, result, ready, same, fits⟩ := PRLHashTable.grow_spec indexed (first :: rest).length
    obtain ⟨answer, last, new, finished, probing⟩ := rounds_spec grown.capacity
      (probing_start ready (same.allocated_iff.mpr allocated)) (same.layout ▸ consistent) (same.rows ▸ old) taken fits
      (by omega)
    refine ⟨answer, ?_, probing.grouped.regrown same⟩
    rw [List.isEmpty_cons, built, result]
    exact finished

end Call

end BumbleBee.HashTable
