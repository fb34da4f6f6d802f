import BumbleBee.HashTable.Rows
import BumbleBee.Library.LinearProbing

/-!
`PRLHashTable`: rows in insertion order and an open-addressed directory over them. A
stored row is its address and what was scattered there; rows never move. The
directory has a power of two of buckets, so `& bitmask_` is a remainder. It doubles
until the rows to come leave it under the load factor, which is compared in `float`.
-/

namespace BumbleBee.HashTable
open Library.LinearProbing Library.Binary BumbleBee.Types

def standardVectorSize : Nat := 1024

/-- The allocating table and the number of its rows allocated before. -/
structure Address where
  owner : Nat
  serial : Nat
  deriving DecidableEq

structure StoredRow where
  address : Address
  cells : Row
  deriving DecidableEq

structure HTEntry where
  hash : Nat
  row : StoredRow
  deriving DecidableEq

/-- `rows` pairs `row_addrs_` with `row_hashes_`; its length is `count_`. -/
structure PRLHashTable where
  name : Nat
  layout : KeyLayout
  capacity : Nat
  directory : Nat → Option HTEntry
  rows : List HTEntry
  allocated : Nat
  directoryStale : Bool

def nextPowerOfTwoLoop (n : Nat) : Nat → Nat → Nat
  | 0, p => p
  | fuel + 1, p => if p < n then nextPowerOfTwoLoop n fuel (p * 2) else p

def nextPowerOfTwo (n : Nat) : Nat := nextPowerOfTwoLoop n n 1

def bucketOf (capacity hash : Nat) : Nat := hash &&& (capacity - 1)

def homeOf (capacity : Nat) (entry : HTEntry) : Nat := bucketOf capacity entry.hash

def advance (capacity bucket : Nat) : Nat := (bucket + 1) &&& (capacity - 1)

/-- Whether `n` rows in `capacity` buckets exceed `LOAD_FACTOR`. -/
def crowded (n capacity : Nat) : Bool :=
  3 / 4 < FloatType.float.format.round (FloatType.float.format.round n / FloatType.float.format.round capacity)

namespace PRLHashTable

def count (t : PRLHashTable) : Nat := t.rows.length

def initialCapacity : Nat := 1024

/-- The constructor. -/
def make (name : Nat) (layout : KeyLayout) (capacity : Nat) : PRLHashTable where
  name := name
  layout := layout
  capacity := max (nextPowerOfTwo capacity) initialCapacity
  directory _ := none
  rows := []
  allocated := 0
  directoryStale := false

def resize (t : PRLHashTable) (capacity : Nat) : PRLHashTable :=
  { t with
    capacity := capacity
    directory := linkAll capacity (homeOf capacity) (advance capacity) (fun _ => none)
      (entries t.capacity t.directory) }

def growLoop : Nat → PRLHashTable → Nat → Option PRLHashTable
  | 0, _, _ => none
  | fuel + 1, t, more =>
    if t.capacity ≤ t.count + more ∨ crowded (t.count + more) t.capacity then
      growLoop fuel (t.resize (t.capacity * 2)) more
    else some t

/-- Doubles the directory until `more` rows fit; `none` would be a loop still running. -/
def grow (t : PRLHashTable) (more : Nat) : Option PRLHashTable := growLoop (t.count + more + 6) t more

/-- `AllocateRow` and the row's part of `Scatter`. -/
def allocateRow (t : PRLHashTable) (cells : Row) : StoredRow := ⟨⟨t.name, t.allocated⟩, cells⟩

/-- Records a row just allocated; the directory is given. -/
def store (t : PRLHashTable) (directory : Nat → Option HTEntry) (entry : HTEntry) : PRLHashTable :=
  { t with directory := directory, rows := t.rows ++ [entry], allocated := t.allocated + 1 }

/-- The rows of one `Scan` call. -/
def scan (t : PRLHashTable) (offset : Nat) : List Row :=
  ((t.rows.drop offset).take standardVectorSize).map fun entry => entry.row.cells

def scanLoop (t : PRLHashTable) : Nat → Nat → List Row
  | 0, _ => []
  | fuel + 1, offset =>
    if (t.scan offset).isEmpty then []
    else t.scan offset ++ t.scanLoop fuel (offset + (t.scan offset).length)

/-- Scans from the first row until a call returns nothing. -/
def scanAll (t : PRLHashTable) : List Row := t.scanLoop (t.count + 1) 0

/-- Every row is in the directory, and the directory has room. -/
structure Indexed (t : PRLHashTable) : Prop where
  power : ∃ k, t.capacity = 2 ^ k
  linked : Linked t.capacity (homeOf t.capacity) t.directory
  complete : (entries t.capacity t.directory).Perm t.rows
  fewer : t.count < t.capacity

/-- Rows have addresses of their own. -/
structure Allocated (t : PRLHashTable) : Prop where
  earlier : ∀ entry ∈ t.rows, entry.row.address.owner = t.name → entry.row.address.serial < t.allocated
  distinct : (t.rows.map fun entry => entry.row.address).Nodup

end PRLHashTable

section Buckets

variable {capacity : Nat}

section
variable (power : ∃ k, capacity = 2 ^ k)
include power

theorem and_mask (n : Nat) : n &&& (capacity - 1) = n % capacity := by
  obtain ⟨k, rfl⟩ := power
  exact Nat.and_two_pow_sub_one_eq_mod n k

theorem power_pos : 0 < capacity := by
  obtain ⟨k, rfl⟩ := power
  exact Nat.two_pow_pos k

theorem walk_mask : Walk capacity (homeOf capacity) (advance capacity) where
  home_lt entry := by
    rw [homeOf, bucketOf, and_mask power]
    exact Nat.mod_lt _ (power_pos power)
  next_eq bucket := and_mask power (bucket + 1)

end

theorem nextPowerOfTwoLoop_power (n fuel : Nat) {p : Nat} (power : ∃ k, p = 2 ^ k) :
    ∃ k, nextPowerOfTwoLoop n fuel p = 2 ^ k := by
  induction fuel generalizing p with
  | zero => exact power
  | succ fuel ih =>
    rw [nextPowerOfTwoLoop]
    split_ifs
    · obtain ⟨k, rfl⟩ := power
      exact ih ⟨k + 1, (pow_succ 2 k).symm⟩
    · exact power

theorem nextPowerOfTwo_power (n : Nat) : ∃ k, nextPowerOfTwo n = 2 ^ k := nextPowerOfTwoLoop_power n n ⟨0, rfl⟩

theorem max_power {a b : Nat} (first : ∃ k, a = 2 ^ k) (second : ∃ k, b = 2 ^ k) : ∃ k, max a b = 2 ^ k := by
  rcases max_choice a b with left | right
  · rwa [left]
  · rwa [right]

/-- A directory many times as large as its rows is not crowded. -/
theorem not_crowded {n : Nat} (power : ∃ k, capacity = 2 ^ k) (large : 16 * (n + 1) ≤ capacity) :
    crowded n capacity = false := by
  have whole : FloatType.float.format.round capacity = capacity := by
    obtain ⟨k, rfl⟩ := power
    apply Format.round_of_representable
    exact ⟨1, k, by decide, by simp [FloatType.format], by push_cast; simp⟩
  have tiny : (2 : ℚ) ^ FloatType.float.format.least ≤ 1 / 4 := by
    simp only [FloatType.format]
    norm_num
  have room : (16 : ℚ) * (n + 1) ≤ capacity := by exact_mod_cast large
  have positive : (0 : ℚ) < capacity := by exact_mod_cast power_pos power
  have share : FloatType.float.format.round n / capacity ≤ 1 / 8 := by
    rw [div_le_iff₀ positive]
    linarith [Format.round_le (f := FloatType.float.format) (Nat.cast_nonneg (α := ℚ) n)]
  have above : (0 : ℚ) ≤ FloatType.float.format.round n / capacity :=
    div_nonneg (Format.round_nonneg (Nat.cast_nonneg n)) positive.le
  rw [crowded, whole, decide_eq_false_iff_not]
  linarith [Format.round_le (f := FloatType.float.format) above]

end Buckets

namespace PRLHashTable

variable {t : PRLHashTable}

theorem indexed_make (name : Nat) (layout : KeyLayout) (capacity : Nat) : (make name layout capacity).Indexed where
  power := max_power (nextPowerOfTwo_power capacity) ⟨10, rfl⟩
  linked := linked_empty _ _
  complete := by
    rw [make, entries_empty]
  fewer := Nat.lt_of_lt_of_le (show 0 < initialCapacity by decide) (Nat.le_max_right _ _)

theorem allocated_make (name : Nat) (layout : KeyLayout) (capacity : Nat) :
    (make name layout capacity).Allocated where
  earlier entry member := by cases member
  distinct := List.nodup_nil

theorem Indexed.resize (indexed : t.Indexed) {capacity : Nat} (power : ∃ k, capacity = 2 ^ k)
    (larger : t.capacity ≤ capacity) : (t.resize capacity).Indexed := by
  have size : (entries t.capacity t.directory).length = t.count := indexed.complete.length_eq
  have room : (entries capacity fun _ => (none : Option HTEntry)).length +
      (entries t.capacity t.directory).length ≤ capacity := by
    have fewer := indexed.fewer
    rw [entries_empty, List.length_nil]
    omega
  obtain ⟨linked, all⟩ := (linked_empty capacity (homeOf capacity)).linkAll (walk_mask power) _ room
  rw [entries_empty, List.append_nil] at all
  exact ⟨power, linked, all.trans indexed.complete, Nat.lt_of_lt_of_le indexed.fewer larger⟩

/-- What the growth of the directory leaves alone. -/
structure Regrown (t grown : PRLHashTable) : Prop where
  name : grown.name = t.name
  layout : grown.layout = t.layout
  rows : grown.rows = t.rows
  allocated : grown.allocated = t.allocated
  stale : grown.directoryStale = t.directoryStale

theorem growLoop_spec (fuel : Nat) (indexed : t.Indexed) (more : Nat)
    (enough : 16 * (t.count + more + 1) ≤ t.capacity * 2 ^ fuel) :
    ∃ grown, growLoop (fuel + 1) t more = some grown ∧ grown.Indexed ∧ t.Regrown grown ∧
      grown.count + more < grown.capacity := by
  induction fuel generalizing t with
  | zero =>
    rw [pow_zero, Nat.mul_one] at enough
    have roomy := not_crowded indexed.power enough
    refine ⟨t, ?_, indexed, ⟨rfl, rfl, rfl, rfl, rfl⟩, by omega⟩
    rw [growLoop, if_neg]
    rw [roomy, not_or]
    exact ⟨by omega, Bool.false_ne_true⟩
  | succ fuel ih =>
    rw [growLoop]
    split_ifs with small
    · obtain ⟨k, power⟩ := indexed.power
      have doubled : (t.resize (t.capacity * 2)).Indexed :=
        indexed.resize ⟨k + 1, by rw [power, pow_succ]⟩ (by omega)
      obtain ⟨grown, result, done, same, room⟩ := ih doubled (by
        rw [pow_succ, Nat.mul_comm (2 ^ fuel) 2, ← Nat.mul_assoc] at enough
        exact enough)
      exact ⟨grown, result, done, ⟨same.name, same.layout, same.rows, same.allocated, same.stale⟩, room⟩
    · rw [not_or, Nat.not_le] at small
      exact ⟨t, rfl, indexed, ⟨rfl, rfl, rfl, rfl, rfl⟩, small.1⟩

/-- Growing stops, and leaves room for the rows to come. -/
theorem grow_spec (indexed : t.Indexed) (more : Nat) :
    ∃ grown, t.grow more = some grown ∧ grown.Indexed ∧ t.Regrown grown ∧
      grown.count + more < grown.capacity := by
  apply growLoop_spec (t.count + more + 5) indexed more
  have positive := power_pos indexed.power
  have power : t.count + more < 2 ^ (t.count + more) := Nat.lt_two_pow_self
  calc 16 * (t.count + more + 1) ≤ 2 ^ (t.count + more + 5) := by rw [pow_add]; omega
    _ ≤ t.capacity * 2 ^ (t.count + more + 5) := Nat.le_mul_of_pos_left _ positive

theorem Regrown.allocated_iff {grown : PRLHashTable} (same : t.Regrown grown) : grown.Allocated ↔ t.Allocated := by
  constructor
  · intro held
    refine ⟨?_, ?_⟩
    · rw [← same.rows, ← same.name, ← same.allocated]
      exact held.earlier
    · rw [← same.rows]
      exact held.distinct
  · intro held
    refine ⟨?_, ?_⟩
    · rw [same.rows, same.name, same.allocated]
      exact held.earlier
    · rw [same.rows]
      exact held.distinct

theorem Allocated.store (held : t.Allocated) (directory : Nat → Option HTEntry) (hash : Nat) (cells : Row) :
    (t.store directory ⟨hash, t.allocateRow cells⟩).Allocated := by
  constructor
  · intro entry member own
    rcases List.mem_append.mp member with old | new
    · exact Nat.lt_succ_of_lt (held.earlier entry old own)
    · rw [List.mem_singleton.mp new]
      exact Nat.lt_succ_self _
  · rw [PRLHashTable.store, List.map_append]
    refine List.nodup_append.mpr ⟨held.distinct, List.nodup_singleton _, ?_⟩
    intro address old new member same
    obtain ⟨entry, stored, rfl⟩ := List.mem_map.mp old
    rw [List.mem_singleton.mp member] at same
    have earlier := held.earlier entry stored (congrArg Address.owner same)
    rw [congrArg Address.serial same] at earlier
    exact Nat.lt_irrefl _ earlier

theorem Indexed.store (indexed : t.Indexed) (room : t.count + 1 < t.capacity) (entry : HTEntry) {d : Nat}
    (small : d < t.capacity) (free : t.directory (slot t.capacity (homeOf t.capacity entry) d) = none)
    (passed : ∀ j < d, t.directory (slot t.capacity (homeOf t.capacity entry) j) ≠ none) :
    (t.store (Function.update t.directory (slot t.capacity (homeOf t.capacity entry) d) (some entry)) entry).Indexed
    where
  power := indexed.power
  linked := indexed.linked.place small passed
  complete := by
    apply (entries_update (slot_lt (power_pos indexed.power) _ _) free entry).trans
    exact (indexed.complete.cons entry).trans (List.perm_append_singleton _ _).symm
  fewer := by
    rw [count, PRLHashTable.store, List.length_append]
    exact room

theorem Indexed.mem_rows (indexed : t.Indexed) {entry : HTEntry} :
    entry ∈ t.rows ↔ ∃ b, t.directory b = some entry := by
  rw [← indexed.complete.mem_iff, mem_entries]
  constructor
  · rintro ⟨b, -, found⟩
    exact ⟨b, found⟩
  · rintro ⟨b, found⟩
    exact ⟨b, indexed.linked.inside found, found⟩

theorem scanLoop_eq (fuel offset : Nat) (enough : t.count < offset + fuel) :
    t.scanLoop fuel offset = (t.rows.drop offset).map fun entry => entry.row.cells := by
  have positive : 0 < standardVectorSize := by decide
  induction fuel generalizing offset with
  | zero => rw [scanLoop, List.drop_eq_nil_of_le (show t.rows.length ≤ offset from Nat.le_of_lt enough), List.map_nil]
  | succ fuel ih =>
    have rest : (t.rows.drop offset).length = t.count - offset := List.length_drop
    have size : (t.scan offset).length = min standardVectorSize (t.count - offset) := by
      rw [scan, List.length_map, List.length_take, rest]
    rw [scanLoop]
    split_ifs with done
    · rw [List.isEmpty_iff_length_eq_zero] at done
      rw [List.length_eq_zero_iff.mp (show (t.rows.drop offset).length = 0 by omega), List.map_nil]
    · rw [List.isEmpty_iff_length_eq_zero] at done
      rw [ih _ (by omega), size, scan, ← List.map_append, List.take_eq_take_min, rest, ← List.drop_drop,
        List.take_append_drop]

theorem scanAll_eq (t : PRLHashTable) : t.scanAll = t.rows.map fun entry => entry.row.cells :=
  scanLoop_eq (t.count + 1) 0 (by omega)

end PRLHashTable

end BumbleBee.HashTable
