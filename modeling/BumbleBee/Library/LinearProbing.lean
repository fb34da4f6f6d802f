import Mathlib.Data.Finset.Dedup
import Mathlib.Data.List.Nodup
import Mathlib.Data.List.Perm.Basic
import Mathlib.Data.Nat.ModEq
import Mathlib.Logic.Function.Basic

/-!
Open addressing with linear probing. A directory of `n` buckets is a partial function;
an entry is stored at the first free bucket behind its home, wrapping around, and
every bucket between its home and its place stays occupied. So an entry is found
before the first free bucket behind its home.
-/

namespace BumbleBee.Library.LinearProbing
open Function

variable {E : Type}

/-- The bucket `d` steps behind a home. -/
def slot (n home d : Nat) : Nat := (home + d) % n

section Slots

variable {n : Nat}

theorem slot_succ (n home d : Nat) : (slot n home d + 1) % n = slot n home (d + 1) := by
  rw [slot, slot, Nat.mod_add_mod, Nat.add_assoc]

theorem slot_lt (positive : 0 < n) (home d : Nat) : slot n home d < n := Nat.mod_lt _ positive

theorem slot_injective {home d e : Nat} (first : d < n) (second : e < n) (same : slot n home d = slot n home e) :
    d = e := by
  have close := Nat.ModEq.add_left_cancel' home (show home + d ≡ home + e [MOD n] from same)
  rw [Nat.ModEq, Nat.mod_eq_of_lt first, Nat.mod_eq_of_lt second] at close
  exact close

theorem exists_slot {b : Nat} (inside : b < n) (home : Nat) : ∃ d < n, slot n home d = b := by
  have positive : 0 < n := Nat.lt_of_le_of_lt (Nat.zero_le b) inside
  refine ⟨(b + (n - home % n)) % n, Nat.mod_lt _ positive, ?_⟩
  have below := Nat.mod_lt home positive
  rw [slot, Nat.add_mod_mod, ← Nat.mod_add_mod, show home % n + (b + (n - home % n)) = b + n by omega,
    Nat.add_mod_right, Nat.mod_eq_of_lt inside]

end Slots

section Entries

variable {n : Nat} {dir : Nat → Option E} {b : Nat} {e : E}

/-- All entries, in bucket order. -/
def entries (n : Nat) (dir : Nat → Option E) : List E := (List.range n).filterMap dir

theorem mem_entries : e ∈ entries n dir ↔ ∃ b < n, dir b = some e := by
  rw [entries, List.mem_filterMap]
  constructor
  · rintro ⟨b, member, found⟩
    exact ⟨b, List.mem_range.mp member, found⟩
  · rintro ⟨b, inside, found⟩
    exact ⟨b, List.mem_range.mpr inside, found⟩

theorem entries_empty (n : Nat) : entries n (fun _ => (none : Option E)) = [] :=
  List.filterMap_eq_nil_iff.mpr fun _ _ => rfl

theorem filterMap_update {buckets : List Nat} (absent : b ∉ buckets) (dir : Nat → Option E) (e : E) :
    buckets.filterMap (update dir b (some e)) = buckets.filterMap dir := by
  apply List.filterMap_congr
  intro c member
  apply update_of_ne
  intro same
  exact absent (same ▸ member)

theorem entries_update (inside : b < n) (free : dir b = none) (e : E) :
    (entries n (update dir b (some e))).Perm (e :: entries n dir) := by
  obtain ⟨front, back, cut⟩ := List.append_of_mem (List.mem_range.mpr inside)
  have nodup : (front ++ b :: back).Nodup := cut ▸ List.nodup_range
  rw [List.nodup_middle, List.nodup_cons, List.mem_append, not_or] at nodup
  obtain ⟨⟨before, behind⟩, -⟩ := nodup
  rw [entries, entries, cut, List.filterMap_append, List.filterMap_append, List.filterMap_cons_some (b := e)
    (update_self ..), List.filterMap_cons_none free, filterMap_update before, filterMap_update behind]
  exact List.perm_middle

theorem length_filterMap_of_some {buckets : List Nat} (full : ∀ b ∈ buckets, dir b ≠ none) :
    (buckets.filterMap dir).length = buckets.length := by
  induction buckets with
  | nil => rfl
  | cons b buckets ih =>
    obtain ⟨e, found⟩ := Option.ne_none_iff_exists'.mp (full b List.mem_cons_self)
    rw [List.filterMap_cons_some found, List.length_cons, List.length_cons,
      ih fun c member => full c (List.mem_cons_of_mem _ member)]

/-- A directory with fewer entries than buckets has a free bucket behind every home. -/
theorem exists_free (fewer : (entries n dir).length < n) (home : Nat) : ∃ d < n, dir (slot n home d) = none := by
  by_contra full
  push Not at full
  have all : ∀ b ∈ List.range n, dir b ≠ none := by
    intro b member
    obtain ⟨d, small, rfl⟩ := exists_slot (List.mem_range.mp member) home
    exact full d small
  have size := length_filterMap_of_some all
  rw [List.length_range] at size
  rw [entries, size] at fewer
  exact Nat.lt_irrefl n fewer

end Entries

/-- Every bucket between an entry's home and its place is occupied. -/
structure Linked (n : Nat) (home : E → Nat) (dir : Nat → Option E) : Prop where
  inside : ∀ {b e}, dir b = some e → b < n
  path : ∀ {b e}, dir b = some e → ∃ d < n, slot n (home e) d = b ∧ ∀ j < d, dir (slot n (home e) j) ≠ none

section Linking

variable {n : Nat} {home : E → Nat} {dir : Nat → Option E} {b : Nat} {e : E}

theorem linked_empty (n : Nat) (home : E → Nat) : Linked n home (fun _ => (none : Option E)) where
  inside found := by cases found
  path found := by cases found

theorem Linked.place (linked : Linked n home dir) {d : Nat} (small : d < n)
    (passed : ∀ j < d, dir (slot n (home e) j) ≠ none) :
    Linked n home (update dir (slot n (home e) d) (some e)) := by
  have kept : ∀ b, dir b ≠ none → update dir (slot n (home e) d) (some e) b ≠ none := by
    intro b occupied
    by_cases same : b = slot n (home e) d
    · rw [same, update_self]
      exact Option.some_ne_none e
    · rw [update_of_ne same]
      exact occupied
  constructor
  · intro b f found
    by_cases same : b = slot n (home e) d
    · exact same ▸ slot_lt (Nat.lt_of_le_of_lt (Nat.zero_le d) small) _ _
    · rw [update_of_ne same] at found
      exact linked.inside found
  · intro b f found
    by_cases same : b = slot n (home e) d
    · rw [same, update_self] at found
      cases found
      exact ⟨d, small, same.symm, fun j below => kept _ (passed j below)⟩
    · rw [update_of_ne same] at found
      obtain ⟨d', small', place, occupied⟩ := linked.path found
      exact ⟨d', small', place, fun j below => kept _ (occupied j below)⟩

theorem Linked.before_free (linked : Linked n home dir) (found : dir b = some e) {r : Nat}
    (free : dir (slot n (home e) r) = none) : ∃ d < r, slot n (home e) d = b := by
  obtain ⟨d, -, place, occupied⟩ := linked.path found
  refine ⟨d, ?_, place⟩
  rcases Nat.lt_trichotomy d r with before | rfl | behind
  · exact before
  · rw [place, found] at free
    cases free
  · exact absurd free (occupied r behind)

/-- A way to compute homes and next buckets. -/
structure Walk (n : Nat) (home : E → Nat) (next : Nat → Nat) : Prop where
  home_lt : ∀ e, home e < n
  next_eq : ∀ b, next b = (b + 1) % n

variable {next : Nat → Nat}

theorem Walk.start (walk : Walk n home next) (e : E) : home e = slot n (home e) 0 :=
  (Nat.mod_eq_of_lt (walk.home_lt e)).symm

theorem Walk.next_slot (walk : Walk n home next) (h d : Nat) : next (slot n h d) = slot n h (d + 1) := by
  rw [walk.next_eq, slot_succ]

/-- The first free bucket from a bucket on. -/
def firstFree (next : Nat → Nat) (dir : Nat → Option E) : Nat → Nat → Nat
  | 0, b => b
  | fuel + 1, b =>
    match dir b with
    | none => b
    | some _ => firstFree next dir fuel (next b)

theorem firstFree_spec (walk : Walk n home next) {h r : Nat} (fuel : Nat)
    (free : ∃ d, r ≤ d ∧ d < r + fuel ∧ dir (slot n h d) = none) :
    ∃ d, r ≤ d ∧ d < r + fuel ∧ firstFree next dir fuel (slot n h r) = slot n h d ∧ dir (slot n h d) = none ∧
      ∀ j, r ≤ j → j < d → dir (slot n h j) ≠ none := by
  induction fuel generalizing r with
  | zero =>
    omega
  | succ fuel ih =>
    cases here : dir (slot n h r) with
    | none =>
      refine ⟨r, Nat.le_refl r, by omega, ?_, here, fun j above below => by omega⟩
      rw [firstFree, here]
    | some e =>
      obtain ⟨d, above, below, empty⟩ := free
      have further : r ≠ d := by
        intro same
        rw [same, empty] at here
        cases here
      obtain ⟨d', above', below', reached, empty', occupied⟩ := ih (r := r + 1) ⟨d, by omega, by omega, empty⟩
      refine ⟨d', by omega, by omega, ?_, empty', ?_⟩
      · rw [firstFree, here]
        rw [walk.next_slot, reached]
      · intro j low high
        rcases Nat.eq_or_lt_of_le low with rfl | low
        · rw [here]
          exact Option.some_ne_none e
        · exact occupied j low high

/-- Stores an entry at the first free bucket from its home on. -/
def link (n : Nat) (home : E → Nat) (next : Nat → Nat) (dir : Nat → Option E) (e : E) : Nat → Option E :=
  update dir (firstFree next dir n (home e)) (some e)

theorem Linked.link (linked : Linked n home dir) (walk : Walk n home next) (fewer : (entries n dir).length < n)
    (e : E) :
    Linked n home (LinearProbing.link n home next dir e) ∧
      (entries n (LinearProbing.link n home next dir e)).Perm (e :: entries n dir) := by
  obtain ⟨d, small, free⟩ := exists_free fewer (home e)
  obtain ⟨d', -, small', reached, free', passed⟩ :=
    firstFree_spec walk (r := 0) n ⟨d, Nat.zero_le d, by omega, free⟩
  have stored : LinearProbing.link n home next dir e = update dir (slot n (home e) d') (some e) := by
    rw [LinearProbing.link, ← reached, ← walk.start]
  rw [stored]
  refine ⟨linked.place (by omega) fun j below => passed j (Nat.zero_le j) below, ?_⟩
  exact entries_update (slot_lt (by omega) _ _) free' e

def linkAll (n : Nat) (home : E → Nat) (next : Nat → Nat) (dir : Nat → Option E) (more : List E) :
    Nat → Option E :=
  more.foldl (link n home next) dir

theorem Linked.linkAll (linked : Linked n home dir) (walk : Walk n home next) (more : List E)
    (fewer : (entries n dir).length + more.length ≤ n) :
    Linked n home (LinearProbing.linkAll n home next dir more) ∧
      (entries n (LinearProbing.linkAll n home next dir more)).Perm (more ++ entries n dir) := by
  induction more generalizing dir with
  | nil => exact ⟨linked, List.Perm.refl _⟩
  | cons e more ih =>
    rw [List.length_cons] at fewer
    obtain ⟨step, grown⟩ := linked.link walk (by omega) e
    obtain ⟨done, all⟩ := ih step (by rw [grown.length_eq, List.length_cons]; omega)
    exact ⟨done, all.trans ((grown.append_left more).trans List.perm_middle)⟩

/-- The entries from a bucket up to the first free one; `none` if there is none. -/
def cluster (next : Nat → Nat) (dir : Nat → Option E) : Nat → Nat → Option (List E)
  | 0, _ => none
  | fuel + 1, b =>
    match dir b with
    | none => some []
    | some e => (cluster next dir fuel (next b)).map (e :: ·)

theorem cluster_spec (walk : Walk n home next) {h d : Nat} (fuel r : Nat) (near : r ≤ d) (enough : d < r + fuel)
    (free : dir (slot n h d) = none) (passed : ∀ j, r ≤ j → j < d → dir (slot n h j) ≠ none) :
    cluster next dir fuel (slot n h r) = some (((List.range' r (d - r)).map (slot n h)).filterMap dir) := by
  induction fuel generalizing r with
  | zero => omega
  | succ fuel ih =>
    rcases Nat.eq_or_lt_of_le near with rfl | before
    · rw [cluster, free, Nat.sub_self]
      rfl
    · obtain ⟨e, found⟩ := Option.ne_none_iff_exists'.mp (passed r (Nat.le_refl r) before)
      rw [cluster, found]
      rw [walk.next_slot, ih (r + 1) before (by omega) fun j above below => passed j (by omega) below,
        show d - r = d - (r + 1) + 1 by omega, List.range'_succ, List.map_cons, List.filterMap_cons_some found]
      rfl

theorem slots_perm (home : Nat) : ((List.range n).map (slot n home)).Perm (List.range n) := by
  apply List.perm_of_nodup_nodup_toFinset_eq
  · apply List.Nodup.map_on _ List.nodup_range
    intro d first e second same
    exact slot_injective (List.mem_range.mp first) (List.mem_range.mp second) same
  · exact List.nodup_range
  · ext b
    rw [List.mem_toFinset, List.mem_toFinset, List.mem_map, List.mem_range]
    constructor
    · rintro ⟨d, member, rfl⟩
      exact slot_lt (Nat.lt_of_le_of_lt (Nat.zero_le d) (List.mem_range.mp member)) home d
    · intro inside
      obtain ⟨d, small, place⟩ := exists_slot inside home
      exact ⟨d, List.mem_range.mpr small, place⟩

/-- The cluster behind a home has every entry of that home, once. -/
theorem Linked.cluster (linked : Linked n home dir) (walk : Walk n home next) (fewer : (entries n dir).length < n)
    {h : Nat} (inside : h < n) :
    ∃ found, LinearProbing.cluster next dir n h = some found ∧
      ∀ P : E → Bool, (∀ e, P e → home e = h) → (found.filter P).Perm ((entries n dir).filter P) := by
  obtain ⟨d, small, free⟩ := exists_free fewer h
  obtain ⟨d, -, small, -, free, passed⟩ := firstFree_spec walk (r := 0) n ⟨d, Nat.zero_le d, by omega, free⟩
  have start : slot n h 0 = h := Nat.mod_eq_of_lt inside
  have walked := cluster_spec walk n 0 (Nat.zero_le d) small free passed
  rw [start, ← List.range_eq_range'] at walked
  refine ⟨_, walked, ?_⟩
  intro P homes
  have whole : (entries n dir).Perm (((List.range d).map (slot n h)).filterMap dir ++
      ((List.range' d (n - d)).map (slot n h)).filterMap dir) := by
    rw [← List.filterMap_append, ← List.map_append]
    have parts : List.range d ++ List.range' d (n - d) = List.range n := by
      have joined := List.range'_append_1 (s := 0) (m := d) (n := n - d)
      rw [Nat.zero_add, Nat.add_sub_cancel' (by omega)] at joined
      rw [List.range_eq_range', List.range_eq_range', joined]
    rw [parts]
    exact ((slots_perm h).filterMap dir).symm
  have behind : (((List.range' d (n - d)).map (slot n h)).filterMap dir).filter P = [] := by
    apply List.filter_eq_nil_iff.mpr
    intro e member wanted
    obtain ⟨b, place, found⟩ := List.mem_filterMap.mp member
    obtain ⟨j, range, rfl⟩ := List.mem_map.mp place
    rw [List.mem_range'_1] at range
    rw [← homes e wanted] at free found
    obtain ⟨i, before, same⟩ := linked.before_free found free
    have := slot_injective (by omega) (by omega) same
    omega
  have filtered := whole.filter P
  rw [List.filter_append, behind, List.append_nil] at filtered
  exact filtered.symm

end Linking

end BumbleBee.Library.LinearProbing
