import BumbleBee.HashTable.JoinTable

/-!
Probing the tables of a join. However tables are filled by `Append`, `AppendUnbuilt`,
`Merge` and `BuildDirectory`, a table stores what was put into it, and a probe returns
all pairs of equal non-NULL keys, each once. The exception is an `Append` to a table
that was merged away before: its directory still has the rows that went.
-/

namespace BumbleBee.HashTable
open Function

/-- The SQL comparison of keys: every column is there on both sides and equal. -/
def equalNonNullKeys (keyCount : Nat) (a b : Row) : Bool :=
  (List.range keyCount).all fun column =>
    match cellAt a column, cellAt b column with
    | some v, some w => valueEqual v w
    | _, _ => false

def matchingPairs (keyCount : Nat) (rows : List HTEntry) (keys : Chunk) (sel : List Nat) : List (StoredRow × Nat) :=
  sel.flatMap fun row =>
    (rows.filter fun entry => equalNonNullKeys keyCount (keyAt keys row).cells entry.row.cells).map
      fun entry => (entry.row, row)

theorem keyEqual_nonNull (keyCount : Nat) (a b : Row) :
    (KeyLayout.mk keyCount false).keyEqual a b = equalNonNullKeys keyCount a b := by
  rw [KeyLayout.keyEqual]
  congr 1
  funext column
  rw [KeyLayout.columnEqual]
  cases cellAt a column <;> cases cellAt b column <;> rfl

theorem joinPairs_nonNull (keyCount : Nat) (rows : List HTEntry) (keys : Chunk) (sel : List Nat) :
    joinPairs ⟨keyCount, false⟩ rows keys sel = matchingPairs keyCount rows keys sel := by
  rw [joinPairs]
  congr 1
  funext row
  congr 2
  funext entry
  exact keyEqual_nonNull keyCount _ _

/-- What holds of the tables after clean steps. -/
structure Kept (layout : KeyLayout) (w : Tables) (contents : Nat → List InputRow) : Prop where
  name : ∀ i, (w i).name = i
  keys : ∀ i, (w i).layout = layout
  sound : ∀ i, (w i).Sound
  stores : ∀ i, (w i).rows.map HTEntry.input = contents i
  earlier : ∀ i, ∀ entry ∈ (w i).rows, entry.row.address.serial < (w entry.row.address.owner).allocated
  distinct : ∀ i, ((w i).rows.map fun entry => entry.row.address).Nodup
  apart : ∀ i j, i ≠ j → ∀ entry ∈ (w i).rows, ∀ other ∈ (w j).rows, entry.row.address ≠ other.row.address

section Entries
open PRLHashTable

theorem newEntries_input (name serial : Nat) (rows : List InputRow) :
    (newEntries name serial rows).map HTEntry.input = rows := by
  induction rows generalizing serial with
  | nil => rfl
  | cons row rows ih => rw [newEntries, List.map_cons, ih, HTEntry.input]

variable {rows : List InputRow}

theorem mem_newEntries {name serial : Nat} {entry : HTEntry} (member : entry ∈ newEntries name serial rows) :
    entry.row.address.owner = name ∧ serial ≤ entry.row.address.serial ∧
      entry.row.address.serial < serial + rows.length := by
  induction rows generalizing serial with
  | nil => cases member
  | cons row rows ih =>
    rw [List.length_cons]
    rcases List.mem_cons.mp member with rfl | later
    · exact ⟨rfl, Nat.le_refl _, by dsimp only; omega⟩
    · obtain ⟨owner, above, below⟩ := ih later
      exact ⟨owner, by omega, by omega⟩

theorem newEntries_distinct (name serial : Nat) (rows : List InputRow) :
    ((newEntries name serial rows).map fun entry => entry.row.address).Nodup := by
  induction rows generalizing serial with
  | nil => exact List.nodup_nil
  | cons row rows ih =>
    refine List.nodup_cons.mpr ⟨?_, ih (serial + 1)⟩
    intro again
    obtain ⟨entry, member, same⟩ := List.mem_map.mp again
    have above := (mem_newEntries member).2.1
    rw [same] at above
    exact Nat.lt_irrefl _ above

end Entries

section Steps

variable {layout : KeyLayout} {w next : Tables} {contents : Nat → List InputRow} {i : Nat} {rows : List InputRow}

section
variable (kept : Kept layout w contents)
include kept

theorem Kept.fresh {k serial : Nat} {entry other : HTEntry} (counter : (w i).allocated ≤ serial)
    (old : entry ∈ (w k).rows) (new : other ∈ PRLHashTable.newEntries (w i).name serial rows) :
    entry.row.address ≠ other.row.address := by
  intro same
  obtain ⟨owner, above, -⟩ := mem_newEntries new
  have earlier := kept.earlier k entry old
  rw [same, owner, kept.name i] at earlier
  omega

theorem Kept.extend {t : PRLHashTable} (sound : t.Sound) (extended : (w i).Extended t rows) :
    Kept layout (update w i t) (update contents i (contents i ++ rows)) := by
  have grows : ∀ k, (w k).allocated ≤ (update w i t k).allocated := by
    intro k
    by_cases here : k = i
    · rw [here, update_self, extended.allocated]
      exact Nat.le_add_right _ _
    · rw [update_of_ne here]
  have split : ∀ {k entry}, entry ∈ (update w i t k).rows →
      entry ∈ (w k).rows ∨ (k = i ∧ entry ∈ PRLHashTable.newEntries (w i).name (w i).allocated rows) := by
    intro k entry member
    by_cases here : k = i
    · subst here
      rw [update_self, extended.rows] at member
      exact (List.mem_append.mp member).imp_right fun new => ⟨rfl, new⟩
    · rw [update_of_ne here] at member
      exact .inl member
  constructor
  case name =>
    exact forall_update_iff w (fun k t => t.name = k) |>.mpr
      ⟨extended.name.trans (kept.name i), fun k _ => kept.name k⟩
  case keys =>
    exact forall_update_iff w (fun k t => t.layout = layout) |>.mpr
      ⟨extended.layout.trans (kept.keys i), fun k _ => kept.keys k⟩
  case sound =>
    exact forall_update_iff w (fun k t => t.Sound) |>.mpr ⟨sound, fun k _ => kept.sound k⟩
  case stores =>
    intro k
    by_cases here : k = i
    · subst here
      rw [update_self, update_self, extended.rows, List.map_append, kept.stores, newEntries_input]
    · rw [update_of_ne here, update_of_ne here, kept.stores]
  case earlier =>
    intro k entry member
    rcases split member with old | ⟨-, new⟩
    · exact Nat.lt_of_lt_of_le (kept.earlier k entry old) (grows _)
    · obtain ⟨owner, -, below⟩ := mem_newEntries new
      rw [owner, kept.name i, update_self, extended.allocated]
      exact below
  case distinct =>
    intro k
    by_cases here : k = i
    · subst here
      rw [update_self, extended.rows, List.map_append]
      refine List.nodup_append.mpr ⟨kept.distinct k, newEntries_distinct _ _ _, ?_⟩
      intro address old other new
      obtain ⟨entry, member, rfl⟩ := List.mem_map.mp old
      obtain ⟨later, added, rfl⟩ := List.mem_map.mp new
      exact kept.fresh (Nat.le_refl _) member added
    · rw [update_of_ne here]
      exact kept.distinct k
  case apart =>
    intro k l different entry first other second
    rcases split first with old | ⟨rfl, new⟩
    · rcases split second with old' | ⟨rfl, new'⟩
      · exact kept.apart k l different entry old other old'
      · exact kept.fresh (Nat.le_refl _) old new'
    · rcases split second with old' | ⟨rfl, -⟩
      · exact (kept.fresh (Nat.le_refl _) old' new).symm
      · exact absurd rfl different

theorem Kept.redirect {t : PRLHashTable} (sound : t.Sound) (name : t.name = (w i).name)
    (keys : t.layout = (w i).layout) (rows : t.rows = (w i).rows) (allocated : t.allocated = (w i).allocated) :
    Kept layout (update w i t) contents := by
  have extended : (w i).Extended t [] := ⟨name, keys, rows.trans (List.append_nil _).symm, allocated⟩
  have after := kept.extend sound extended
  rwa [List.append_nil, update_eq_self] at after

end

/-- The tables after the rows of `j` have moved to `i`. -/
def moved (w : Tables) (i j : Nat) : Tables :=
  update (update w i { w i with rows := (w i).rows ++ (w j).rows, directoryStale := true }) j
    { w j with rows := [] }

variable {j : Nat}

theorem moved_other {k : Nat} (first : k ≠ i) (second : k ≠ j) : moved w i j k = w k := by
  rw [moved, update_of_ne second, update_of_ne first]

theorem moved_source (w : Tables) (i j : Nat) : moved w i j j = { w j with rows := [] } := update_self _ _ _

theorem moved_target (different : i ≠ j) :
    moved w i j i = { w i with rows := (w i).rows ++ (w j).rows, directoryStale := true } := by
  rw [moved, update_of_ne different, update_self]

theorem moved_fixed (different : i ≠ j) (k : Nat) :
    (moved w i j k).name = (w k).name ∧ (moved w i j k).layout = (w k).layout ∧
      (moved w i j k).allocated = (w k).allocated := by
  by_cases target : k = i
  · rw [target, moved_target different]
    exact ⟨rfl, rfl, rfl⟩
  · by_cases source : k = j
    · rw [source, moved_source]
      exact ⟨rfl, rfl, rfl⟩
    · rw [moved_other target source]
      exact ⟨rfl, rfl, rfl⟩

theorem mem_moved {k : Nat} (different : i ≠ j) {entry : HTEntry} (member : entry ∈ (moved w i j k).rows) :
    k ≠ j ∧ (entry ∈ (w k).rows ∨ (k = i ∧ entry ∈ (w j).rows)) := by
  by_cases source : k = j
  · rw [source, moved_source] at member
    cases member
  · refine ⟨source, ?_⟩
    by_cases target : k = i
    · subst target
      rw [moved_target different] at member
      exact (List.mem_append.mp member).imp_right fun other => ⟨rfl, other⟩
    · rw [moved_other target source] at member
      exact .inl member

theorem Kept.moved (kept : Kept layout w contents) (different : i ≠ j) :
    Kept layout (HashTable.moved w i j) (update (update contents i (contents i ++ contents j)) j []) := by
  have fixed := moved_fixed (w := w) different
  constructor
  case name => exact fun k => (fixed k).1.trans (kept.name k)
  case keys => exact fun k => (fixed k).2.1.trans (kept.keys k)
  case sound =>
    intro k
    by_cases target : k = i
    · rw [target, moved_target different]
      exact ⟨(kept.sound i).power, fun built => by cases built⟩
    · by_cases source : k = j
      · rw [source, moved_source]
        exact ⟨(kept.sound j).power, fun _ => .inr rfl⟩
      · rw [moved_other target source]
        exact kept.sound k
  case stores =>
    intro k
    by_cases source : k = j
    · rw [source, moved_source, update_self]
      rfl
    · rw [update_of_ne source]
      by_cases target : k = i
      · rw [target, moved_target different, update_self, List.map_append, kept.stores, kept.stores]
      · rw [moved_other target source, update_of_ne target, kept.stores]
  case earlier =>
    intro k entry member
    rw [(fixed _).2.2]
    rcases (mem_moved different member).2 with own | ⟨-, other⟩
    · exact kept.earlier k entry own
    · exact kept.earlier j entry other
  case distinct =>
    intro k
    by_cases source : k = j
    · rw [source, moved_source]
      exact List.nodup_nil
    · by_cases target : k = i
      · rw [target, moved_target different, List.map_append]
        refine List.nodup_append.mpr ⟨kept.distinct i, kept.distinct j, ?_⟩
        intro address first other second
        obtain ⟨entry, own, rfl⟩ := List.mem_map.mp first
        obtain ⟨later, added, rfl⟩ := List.mem_map.mp second
        exact kept.apart i j different entry own later added
      · rw [moved_other target source]
        exact kept.distinct k
  case apart =>
    intro k l unlike entry first other second
    obtain ⟨notSource, from'⟩ := mem_moved different first
    obtain ⟨notSource', from''⟩ := mem_moved different second
    rcases from' with own | ⟨rfl, taken⟩
    · rcases from'' with own' | ⟨rfl, taken'⟩
      · exact kept.apart k l unlike entry own other own'
      · exact kept.apart k j notSource entry own other taken'
    · rcases from'' with own' | ⟨rfl, -⟩
      · exact (kept.apart l j notSource' other own' entry taken).symm
      · exact absurd rfl unlike

theorem Kept.merge (kept : Kept layout w contents) (different : i ≠ j) :
    Kept layout (update (update w i ((w i).merge (w j)).1) j ((w i).merge (w j)).2)
      (update (update contents i (contents i ++ contents j)) j []) := by
  rw [PRLHashTable.merge]
  split_ifs with empty
  · have nothing : contents j = [] := by
      rw [← kept.stores j, List.isEmpty_iff.mp empty]
      rfl
    have same : update (update contents i (contents i ++ contents j)) j [] = contents := by
      rw [nothing, List.append_nil, update_eq_self, ← nothing, update_eq_self]
    rw [same, update_eq_self, update_eq_self]
    exact kept
  · exact kept.moved different

theorem kept_start (layout : KeyLayout) (capacity : Nat → Nat) :
    Kept layout (fun i => .make i layout (capacity i)) (fun _ => []) where
  name _ := rfl
  keys _ := rfl
  sound i := PRLHashTable.sound_make i layout (capacity i)
  stores _ := rfl
  earlier i entry member := by cases member
  distinct i := List.nodup_nil
  apart i j different entry member := by cases member

/-- A clean step ends, and stores what it should. -/
theorem Kept.step (kept : Kept layout w contents) (step : FillStep) (clean : step.Clean w) :
    step.run w = .error .assertion ∨ ∃ next, step.run w = .ok next ∧ Kept layout next (step.apply contents) := by
  cases step with
  | append i rows =>
    rcases (kept.sound i).append clean rows with ⟨-, refused⟩ | ⟨filled, result, sound, extended⟩
    · exact .inl (by rw [FillStep.run, refused]; rfl)
    · exact .inr ⟨_, by rw [FillStep.run, result]; rfl, kept.extend sound extended⟩
  | appendUnbuilt i rows =>
    exact .inr ⟨_, rfl, kept.extend ((kept.sound i).appendUnbuilt rows) ((w i).appendUnbuilt_extended rows)⟩
  | merge i j different => exact .inr ⟨_, rfl, kept.merge different⟩
  | buildDirectory i =>
    have indexed := (w i).buildDirectory_indexed
    exact .inr ⟨_, rfl, kept.redirect ⟨indexed.power, fun _ => .inl indexed⟩ rfl rfl rfl rfl⟩

theorem Filled.kept {capacity : Nat → Nat} (filled : Filled layout capacity w contents) : Kept layout w contents := by
  induction filled with
  | start => exact kept_start layout capacity
  | step step before clean ran ih =>
    rcases ih.step step clean with refused | ⟨next, result, kept⟩
    · rw [refused] at ran
      cases ran
    · rw [result] at ran
      cases ran
      exact kept

end Steps

section Result

variable {keyCount : Nat} {t : PRLHashTable} {keys : Chunk} {sel : List Nat}

/-- The call returns and appends all pairs of equal non-NULL keys, each once, and flags the probe rows
that have one. -/
def ProbesExactly (keyCount : Nat) (t : PRLHashTable) (keys : Chunk) (sel : List Nat) (out : ProbeOutput) : Prop :=
  ∃ result new, t.probe keys sel out = .ok result ∧ result.pairs = out.pairs ++ new ∧
    new.Perm (matchingPairs keyCount t.rows keys sel) ∧
    (sel.Nodup → (new.map fun pair => (pair.1.address, pair.2)).Nodup) ∧
    ∀ i, result.matched i = (out.matched i || new.any fun pair => pair.2 == i)

theorem matchingPairs_distinct (distinct : (t.rows.map fun entry => entry.row.address).Nodup) (once : sel.Nodup) :
    ((matchingPairs keyCount t.rows keys sel).map fun pair => (pair.1.address, pair.2)).Nodup := by
  rw [matchingPairs, List.map_flatMap]
  refine List.nodup_flatMap.mpr ⟨?_, ?_⟩
  · intro row member
    rw [List.map_map]
    have kept := (List.filter_sublist (p := fun entry : HTEntry =>
      equalNonNullKeys keyCount (keyAt keys row).cells entry.row.cells) (l := t.rows)).map
        fun entry => entry.row.address
    have addresses := kept.nodup distinct
    refine List.Nodup.of_map Prod.fst ?_
    rw [List.map_map]
    exact addresses
  · refine once.imp ?_
    intro row other different pair first second
    dsimp only at first second
    rw [List.map_map] at first second
    obtain ⟨entry, -, rfl⟩ := List.mem_map.mp first
    obtain ⟨entry', -, same⟩ := List.mem_map.mp second
    exact different (congrArg Prod.snd same).symm

theorem probesExactly_idle {out : ProbeOutput} (idle : t.rows = [] ∨ sel = []) : ProbesExactly keyCount t keys sel out := by
  have nothing : matchingPairs keyCount t.rows keys sel = [] := by
    rcases idle with empty | none'
    · rw [empty]
      exact List.flatMap_eq_nil_iff.mpr fun _ _ => rfl
    · rw [none']
      rfl
  refine ⟨out, [], ?_, (List.append_nil _).symm, ?_, fun _ => List.nodup_nil, fun i => (Bool.or_false _).symm⟩
  · rw [PRLHashTable.probe, if_pos]
    rw [Bool.or_eq_true, List.isEmpty_iff, List.isEmpty_iff]
    exact idle.symm
  · rw [nothing]

theorem keyAt_mem {pool : List InputRow} {row : Nat} (inside : row < keys.length) : keyAt keys row ∈ pool ++ keys := by
  apply List.mem_append_right
  rw [keyAt, List.getD_eq_getElem?_getD, List.getElem?_eq_getElem inside]
  exact List.getElem_mem inside

/-- Every table filled by clean steps stores what was put into it, and a probe of it returns exactly the
pairs of equal non-NULL keys unless it asks for `BuildDirectory` first. No clean step runs forever. -/
theorem filled_tables_probe_exactly {capacity : Nat → Nat} {w : Tables} {contents : Nat → List InputRow}
    (filled : Filled ⟨keyCount, false⟩ capacity w contents) (i : Nat) :
    (w i).rows.map HTEntry.input = contents i ∧
      (∀ keys sel out, Consistent ⟨keyCount, false⟩ (contents i ++ keys) → (∀ row ∈ sel, row < keys.length) →
        ProbesExactly keyCount (w i) keys sel out ∨
          ((w i).directoryStale = true ∧ contents i ≠ [] ∧ (w i).probe keys sel out = .error .assertion)) ∧
      ∀ step : FillStep, step.Clean w → step.run w ≠ .error .endless := by
  have kept := filled.kept
  refine ⟨kept.stores i, ?_, ?_⟩
  · intro keys sel out consistent inside
    by_cases idle : (w i).rows = [] ∨ sel = []
    · exact .inl (probesExactly_idle idle)
    · have busy := idle
      rw [not_or] at busy
      cases stale : (w i).directoryStale with
      | true =>
        refine .inr ⟨rfl, ?_, ?_⟩
        · rw [← kept.stores i]
          exact fun nothing => busy.1 (List.map_eq_nil_iff.mp nothing)
        · rw [PRLHashTable.probe, if_neg, if_pos stale]
          rw [Bool.or_eq_true, List.isEmpty_iff, List.isEmpty_iff]
          exact fun done => idle done.symm
      | false =>
        have indexed := ((kept.sound i).ready stale).resolve_right busy.1
        have drawn : ∀ entry ∈ (w i).rows, entry.input ∈ contents i ++ keys := by
          intro entry member
          rw [← kept.stores i]
          exact List.mem_append_left _ (List.mem_map_of_mem member)
        obtain ⟨result, new, called, output, pairs, flags⟩ := indexed.probe stale
          ((kept.keys i).symm ▸ consistent) drawn sel (fun row member => keyAt_mem (inside row member)) out
        rw [kept.keys i, joinPairs_nonNull] at pairs
        refine .inl ⟨result, new, called, output, pairs, ?_, flags⟩
        intro once
        exact (pairs.map _).nodup_iff.mpr (matchingPairs_distinct (kept.distinct i) once)
  · intro step clean endless
    rcases kept.step step clean with refused | ⟨next, result, -⟩
    · rw [refused] at endless
      cases endless
    · rw [result] at endless
      cases endless

end Result

section Concrete

/-- A row with one integer key, which is also its hash. -/
def integerRow (key : Nat) : InputRow := ⟨key, [some (.integral key)]⟩

def emptyTables : Tables := fun i => .make i ⟨1, false⟩ PRLHashTable.initialCapacity

/-- Two workers' tables are merged and the directory is built. -/
def mergedTables : Tables :=
  let first := update emptyTables 0 ((emptyTables 0).appendUnbuilt [integerRow 5])
  let second := update first 1 ((first 1).appendUnbuilt [integerRow 5, integerRow 6])
  let merged := update (update second 0 ((second 0).merge (second 1)).1) 1
    ((second 0).merge (second 1)).2
  update merged 0 (merged 0).buildDirectory

theorem mergedTables_filled : ∃ contents, Filled ⟨1, false⟩ (fun _ => PRLHashTable.initialCapacity) mergedTables contents ∧
    contents 0 = [integerRow 5, integerRow 5, integerRow 6] :=
  ⟨_, .step (.buildDirectory 0) (.step (.merge 0 1 (by decide)) (.step (.appendUnbuilt 1 [integerRow 5, integerRow 6])
    (.step (.appendUnbuilt 0 [integerRow 5]) .start trivial rfl) trivial rfl) trivial rfl) trivial rfl, rfl⟩

def noOutput : ProbeOutput := ⟨[], fun _ => false⟩

theorem filled_tables_probe_exactly_merged :
    ∃ contents, Filled ⟨1, false⟩ (fun _ => PRLHashTable.initialCapacity) mergedTables contents ∧
      ProbesExactly 1 (mergedTables 0) [integerRow 5] [0] noOutput := by
  obtain ⟨contents, filled, stored⟩ := mergedTables_filled
  refine ⟨contents, filled, ?_⟩
  have consistent : Consistent ⟨1, false⟩ (contents 0 ++ [integerRow 5]) := by
    rw [stored, Consistent]
    decide
  have probed := (filled_tables_probe_exactly filled 0).2.1 [integerRow 5] [0] noOutput consistent (by decide)
  exact probed.resolve_right fun refused => Bool.false_ne_true refused.1

def fillAll (steps : List FillStep) (w : Tables) : Except CallError Tables :=
  steps.foldlM (fun w step => step.run w) w

/-- Row 5 goes to table 1 and moves to table 0; row 6 then goes to table 1. -/
def refill : List FillStep := [.append 1 [integerRow 5], .merge 0 1 (by decide), .append 1 [integerRow 6]]

/-- Table 1 has row 6 only, and a probe for key 5 returns the row that moved away. -/
theorem merged_row_still_found :
    (fillAll refill emptyTables).toOption.map (fun w => ((w 1).rows.map HTEntry.input,
        ((w 1).probe [integerRow 5] [0] noOutput).toOption.map ProbeOutput.pairs)) =
      some ([integerRow 6], some [(⟨⟨1, 0⟩, (integerRow 5).cells⟩, 0)]) ∧
    ∀ w, fillAll refill emptyTables = .ok w → ¬ ProbesExactly 1 (w 1) [integerRow 5] [0] noOutput := by
  have ran : (fillAll refill emptyTables).toOption.map (fun w => ((w 1).rows.map HTEntry.input,
        ((w 1).probe [integerRow 5] [0] noOutput).toOption.map ProbeOutput.pairs)) =
      some ([integerRow 6], some [(⟨⟨1, 0⟩, (integerRow 5).cells⟩, 0)]) := by
    decide +kernel
  refine ⟨ran, ?_⟩
  rintro w result ⟨output, new, called, appended, pairs, -⟩
  rw [result] at ran
  obtain ⟨rows, found⟩ := Prod.mk.inj (Option.some.inj ran)
  rw [called] at found
  have nothing : matchingPairs 1 (w 1).rows [integerRow 5] [0] = [] := by
    apply List.flatMap_eq_nil_iff.mpr
    intro row member
    rw [List.mem_singleton.mp member, List.map_eq_nil_iff, List.filter_eq_nil_iff]
    intro entry stored equal
    have listed := List.mem_map_of_mem (f := HTEntry.input) stored
    rw [rows, List.mem_singleton] at listed
    have cells : entry.row.cells = (integerRow 6).cells := congrArg InputRow.cells listed
    rw [cells] at equal
    revert equal
    decide
  rw [nothing, List.perm_nil] at pairs
  rw [pairs, List.append_nil] at appended
  have output' : output.pairs = [(⟨⟨1, 0⟩, (integerRow 5).cells⟩, 0)] := Option.some.inj found
  rw [appended] at output'
  cases output'

end Concrete

end BumbleBee.HashTable
