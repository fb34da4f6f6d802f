import BumbleBee.HashTable.Probe

/-!
Tables filled in join mode. `Append` links every row at once, `AppendUnbuilt` only
stores them, `Merge` moves the rows of another table and `BuildDirectory` links
everything anew. `Merge` leaves the directory of the other table as it is, so rows
that have moved away stay in it; they are harmless until the next `Append`.
-/

namespace BumbleBee.HashTable
open Library.LinearProbing Function

namespace PRLHashTable

/-- The rows stored under consecutive serials. -/
def newEntries (name : Nat) : Nat → List InputRow → List HTEntry
  | _, [] => []
  | serial, row :: rows => ⟨row.hash, ⟨⟨name, serial⟩, row.cells⟩⟩ :: newEntries name (serial + 1) rows

def appendRow (t : PRLHashTable) (row : InputRow) : Option PRLHashTable :=
  let entry : HTEntry := ⟨row.hash, t.allocateRow row.cells⟩
  let bucket := firstFree (advance t.capacity) t.directory t.capacity (bucketOf t.capacity row.hash)
  match t.directory bucket with
  | some _ => none
  | none => some (t.store (update t.directory bucket (some entry)) entry)

def appendRows : List InputRow → PRLHashTable → Option PRLHashTable
  | [], t => some t
  | row :: rows, t => do
    let next ← t.appendRow row
    appendRows rows next

/-- `rows` are the selected rows. -/
def append (t : PRLHashTable) (rows : List InputRow) : Except CallError PRLHashTable :=
  if rows.isEmpty then .ok t
  else if t.directoryStale then .error .assertion
  else
    match (t.grow rows.length).bind (appendRows rows) with
    | none => .error .endless
    | some filled => .ok filled

def storeRows (t : PRLHashTable) (rows : List InputRow) : PRLHashTable :=
  rows.foldl (fun t row => t.store t.directory ⟨row.hash, t.allocateRow row.cells⟩) t

def appendUnbuilt (t : PRLHashTable) (rows : List InputRow) : PRLHashTable :=
  if rows.isEmpty then t else { t.storeRows rows with directoryStale := true }

/-- The two tables after `t.Merge(other)`. -/
def merge (t other : PRLHashTable) : PRLHashTable × PRLHashTable :=
  if other.rows.isEmpty then (t, other)
  else ({ t with rows := t.rows ++ other.rows, directoryStale := true }, { other with rows := [] })

def buildDirectory (t : PRLHashTable) : PRLHashTable :=
  let capacity := max initialCapacity (nextPowerOfTwo (t.count * 2))
  { t with
    capacity := capacity
    directory := linkAll capacity (homeOf capacity) (advance capacity) (fun _ => none) t.rows
    directoryStale := false }

end PRLHashTable

/-- The tables by their names. -/
abbrev Tables := Nat → PRLHashTable

inductive FillStep where
  | append (table : Nat) (rows : List InputRow)
  | appendUnbuilt (table : Nat) (rows : List InputRow)
  | merge (table other : Nat) (apart : table ≠ other)
  | buildDirectory (table : Nat)

namespace FillStep

def run (step : FillStep) (w : Tables) : Except CallError Tables :=
  match step with
  | .append i rows => ((w i).append rows).map (update w i)
  | .appendUnbuilt i rows => .ok (update w i ((w i).appendUnbuilt rows))
  | .merge i j _ =>
    .ok (update (update w i ((w i).merge (w j)).1) j ((w i).merge (w j)).2)
  | .buildDirectory i => .ok (update w i (w i).buildDirectory)

/-- What a step is for: the rows each table stores afterwards. -/
def apply (step : FillStep) (contents : Nat → List InputRow) : Nat → List InputRow :=
  match step with
  | .append i rows => update contents i (contents i ++ rows)
  | .appendUnbuilt i rows => update contents i (contents i ++ rows)
  | .merge i j _ => update (update contents i (contents i ++ contents j)) j []
  | .buildDirectory _ => contents

/-- No `Append` to a table whose directory has rows that were moved away. -/
def Clean (step : FillStep) (w : Tables) : Prop :=
  match step with
  | .append i _ => ∀ b entry, (w i).directory b = some entry → entry ∈ (w i).rows
  | _ => True

end FillStep

/-- Tables reached by clean steps, and what they should store. -/
inductive Filled (layout : KeyLayout) (capacity : Nat → Nat) : Tables → (Nat → List InputRow) → Prop
  | start : Filled layout capacity (fun i => .make i layout (capacity i)) (fun _ => [])
  | step {w next : Tables} {contents : Nat → List InputRow} (step : FillStep) (filled : Filled layout capacity w contents)
      (clean : step.Clean w) (ran : step.run w = .ok next) : Filled layout capacity next (step.apply contents)

namespace PRLHashTable

variable {t grown : PRLHashTable}

/-- A table that is ready to be probed is indexed, or has no rows. -/
structure Sound (t : PRLHashTable) : Prop where
  power : ∃ k, t.capacity = 2 ^ k
  ready : t.directoryStale = false → t.Indexed ∨ t.rows = []

/-- The rows `more` were stored, and nothing else changed but the directory. -/
structure Extended (t grown : PRLHashTable) (more : List InputRow) : Prop where
  name : grown.name = t.name
  layout : grown.layout = t.layout
  rows : grown.rows = t.rows ++ newEntries t.name t.allocated more
  allocated : grown.allocated = t.allocated + more.length

theorem extended_refl (t : PRLHashTable) : t.Extended t [] where
  name := rfl
  layout := rfl
  rows := (List.append_nil _).symm
  allocated := rfl

theorem Extended.cons {row : InputRow} {rows : List InputRow} {directory : Nat → Option HTEntry}
    (rest : (t.store directory ⟨row.hash, t.allocateRow row.cells⟩).Extended grown rows) :
    t.Extended grown (row :: rows) where
  name := rest.name
  layout := rest.layout
  rows := rest.rows.trans (List.append_assoc _ _ _)
  allocated := by
    have next : (t.store directory ⟨row.hash, t.allocateRow row.cells⟩).allocated = t.allocated + 1 := rfl
    rw [rest.allocated, List.length_cons]
    omega

theorem storeRows_extended (t : PRLHashTable) (rows : List InputRow) : t.Extended (t.storeRows rows) rows := by
  induction rows generalizing t with
  | nil => exact t.extended_refl
  | cons row rows ih => exact (ih _).cons

theorem Indexed.appendRow (indexed : t.Indexed) (room : t.count + 1 < t.capacity) (row : InputRow) :
    ∃ directory, t.appendRow row = some (t.store directory ⟨row.hash, t.allocateRow row.cells⟩) ∧
      (t.store directory ⟨row.hash, t.allocateRow row.cells⟩).Indexed := by
  have walk := walk_mask indexed.power
  have fewer : (entries t.capacity t.directory).length < t.capacity := by
    rw [indexed.complete.length_eq]
    exact indexed.fewer
  obtain ⟨d, small, free⟩ := exists_free fewer (bucketOf t.capacity row.hash)
  obtain ⟨d, -, small, reached, free, passed⟩ :=
    firstFree_spec walk (r := 0) t.capacity ⟨d, Nat.zero_le d, by omega, free⟩
  have start : slot t.capacity (bucketOf t.capacity row.hash) 0 = bucketOf t.capacity row.hash :=
    (walk.start ⟨row.hash, t.allocateRow row.cells⟩).symm
  rw [start] at reached
  refine ⟨update t.directory (slot t.capacity (bucketOf t.capacity row.hash) d)
    (some ⟨row.hash, t.allocateRow row.cells⟩), ?_, ?_⟩
  · rw [PRLHashTable.appendRow, reached, free]
  · exact indexed.store room ⟨row.hash, t.allocateRow row.cells⟩ (by omega) free
      fun j below => passed j (Nat.zero_le j) below

theorem Indexed.appendRows (rows : List InputRow) (indexed : t.Indexed) (room : t.count + rows.length < t.capacity) :
    ∃ filled, PRLHashTable.appendRows rows t = some filled ∧ filled.Indexed ∧ t.Extended filled rows ∧
      filled.directoryStale = t.directoryStale := by
  induction rows generalizing t with
  | nil => exact ⟨t, rfl, indexed, t.extended_refl, rfl⟩
  | cons row rows ih =>
    rw [List.length_cons] at room
    obtain ⟨directory, stored, next⟩ := indexed.appendRow (by omega) row
    have size : (t.store directory ⟨row.hash, t.allocateRow row.cells⟩).count = t.count + 1 := List.length_append
    obtain ⟨filled, result, ready, extended, stale⟩ := ih next (by rw [size]; change _ < t.capacity; omega)
    refine ⟨filled, ?_, ready, extended.cons, stale⟩
    rw [PRLHashTable.appendRows, stored]
    exact result

theorem Extended.regrown {filled : PRLHashTable} {rows : List InputRow} (same : t.Regrown grown)
    (extended : grown.Extended filled rows) : t.Extended filled rows where
  name := extended.name.trans same.name
  layout := extended.layout.trans same.layout
  rows := by rw [extended.rows, same.rows, same.name, same.allocated]
  allocated := by rw [extended.allocated, same.allocated]

theorem sound_make (name : Nat) (layout : KeyLayout) (capacity : Nat) : (make name layout capacity).Sound where
  power := (indexed_make name layout capacity).power
  ready _ := .inl (indexed_make name layout capacity)

theorem Sound.indexed (sound : t.Sound) (built : t.directoryStale = false)
    (clean : ∀ b entry, t.directory b = some entry → entry ∈ t.rows) : t.Indexed := by
  rcases sound.ready built with indexed | empty
  · exact indexed
  · have vacant : t.directory = fun _ => none := by
      funext b
      by_contra occupied
      obtain ⟨entry, found⟩ := Option.ne_none_iff_exists'.mp occupied
      have stored := clean b entry found
      rw [empty] at stored
      cases stored
    refine ⟨sound.power, ?_, ?_, ?_⟩
    · rw [vacant]
      exact linked_empty _ _
    · rw [vacant, entries_empty, empty]
    · rw [count, empty]
      exact power_pos sound.power

theorem Sound.append (sound : t.Sound) (clean : ∀ b entry, t.directory b = some entry → entry ∈ t.rows)
    (rows : List InputRow) :
    (t.directoryStale = true ∧ t.append rows = .error .assertion) ∨
      ∃ filled, t.append rows = .ok filled ∧ filled.Sound ∧ t.Extended filled rows := by
  rw [PRLHashTable.append]
  split_ifs with idle stale
  · rw [List.isEmpty_iff.mp idle]
    exact .inr ⟨t, rfl, sound, t.extended_refl⟩
  · exact .inl ⟨stale, rfl⟩
  · obtain ⟨grown, result, ready, same, room⟩ :=
      grow_spec (sound.indexed (Bool.not_eq_true _ ▸ stale) clean) rows.length
    obtain ⟨filled, appended, indexed, extended, -⟩ := ready.appendRows rows room
    rw [result, Option.bind_some, appended]
    exact .inr ⟨filled, rfl, ⟨indexed.power, fun _ => .inl indexed⟩, extended.regrown same⟩

theorem storeRows_capacity (t : PRLHashTable) (rows : List InputRow) : (t.storeRows rows).capacity = t.capacity := by
  induction rows generalizing t with
  | nil => rfl
  | cons row rows ih => exact ih _

theorem appendUnbuilt_extended (t : PRLHashTable) (rows : List InputRow) :
    t.Extended (t.appendUnbuilt rows) rows := by
  rw [PRLHashTable.appendUnbuilt]
  split_ifs with idle
  · rw [List.isEmpty_iff.mp idle]
    exact t.extended_refl
  · obtain ⟨name, layout, stored, allocated⟩ := t.storeRows_extended rows
    exact ⟨name, layout, stored, allocated⟩

theorem Sound.appendUnbuilt (sound : t.Sound) (rows : List InputRow) : (t.appendUnbuilt rows).Sound := by
  rw [PRLHashTable.appendUnbuilt]
  split_ifs with idle
  · exact sound
  · refine ⟨?_, fun built => by cases built⟩
    obtain ⟨k, power⟩ := sound.power
    exact ⟨k, (t.storeRows_capacity rows).trans power⟩

theorem nextPowerOfTwoLoop_le {n fuel p : Nat} (enough : n ≤ p * 2 ^ fuel) : n ≤ nextPowerOfTwoLoop n fuel p := by
  induction fuel generalizing p with
  | zero => rwa [pow_zero, Nat.mul_one] at enough
  | succ fuel ih =>
    rw [nextPowerOfTwoLoop]
    split_ifs with small
    · apply ih
      rwa [pow_succ, Nat.mul_comm (2 ^ fuel) 2, ← Nat.mul_assoc] at enough
    · exact Nat.not_lt.mp small

theorem le_nextPowerOfTwo (n : Nat) : n ≤ nextPowerOfTwo n := by
  apply nextPowerOfTwoLoop_le
  rw [Nat.one_mul]
  exact Nat.le_of_lt Nat.lt_two_pow_self

theorem buildDirectory_indexed (t : PRLHashTable) : t.buildDirectory.Indexed := by
  have power : ∃ k, t.buildDirectory.capacity = 2 ^ k := max_power ⟨10, rfl⟩ (nextPowerOfTwo_power _)
  have large : t.count * 2 ≤ t.buildDirectory.capacity :=
    Nat.le_trans (le_nextPowerOfTwo _) (Nat.le_max_right _ _)
  have positive := power_pos power
  have room : (entries t.buildDirectory.capacity fun _ => (none : Option HTEntry)).length + t.rows.length ≤
      t.buildDirectory.capacity := by
    rw [entries_empty, List.length_nil, Nat.zero_add]
    exact Nat.le_trans (Nat.le_mul_of_pos_right t.count (by decide)) large
  obtain ⟨linked, all⟩ :=
    (linked_empty t.buildDirectory.capacity (homeOf t.buildDirectory.capacity)).linkAll (walk_mask power) t.rows room
  rw [entries_empty, List.append_nil] at all
  refine ⟨power, linked, all, ?_⟩
  have same : t.buildDirectory.count = t.count := rfl
  omega

end PRLHashTable

end BumbleBee.HashTable
