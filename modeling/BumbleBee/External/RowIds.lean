import BumbleBee.External.Rewrite

/-!
Which rows a scan for DELETE or UPDATE numbers, and with what. As long as no file has
more than `2 ^ 32` rows and no manifest more files, a rid names one position, and the
matched rows are those that satisfy the predicate, provided that no row group with
such a row was pruned.
-/

namespace BumbleBee.External

variable {R : Type} {fileIdx : Nat}

theorem ridAt_eq {base i : Nat} (file : fileIdx < 2 ^ 32) (row : base + i < 2 ^ 32) :
    ridAt fileIdx base i = fileIdx * 2 ^ 32 + (base + i) := by
  have shifted : fileIdx <<< 32 = fileIdx * 2 ^ 32 := Nat.shiftLeft_eq ..
  have joined : fileIdx <<< 32 ||| base = fileIdx <<< 32 + base :=
    (Nat.shiftLeft_add_eq_or_of_lt (by omega) fileIdx).symm
  have small : fileIdx <<< 32 < 2 ^ 64 := by omega
  rw [ridAt, Nat.mod_eq_of_lt small, joined, shifted, Nat.mod_eq_of_lt (by omega), Nat.add_assoc]

theorem ridFileIdx_eq (fileIdx : Nat) {row : Nat} (small : row < 2 ^ 32) :
    ridFileIdx (fileIdx * 2 ^ 32 + row) = fileIdx := by
  rw [ridFileIdx]
  omega

theorem ridRowIdx_eq (fileIdx : Nat) {row : Nat} (small : row < 2 ^ 32) :
    ridRowIdx (fileIdx * 2 ^ 32 + row) = row := by
  have mask : (0xFFFFFFFF : Nat) = 2 ^ 32 - 1 := by decide
  rw [ridRowIdx, mask, Nat.and_two_pow_sub_one_eq_mod]
  omega

theorem chunkRids_eq {base : Nat} (file : fileIdx < 2 ^ 32) (chunk : List R)
    (small : base + chunk.length ≤ 2 ^ 32) :
    chunkRids fileIdx base chunk = (chunk.zipIdx base).map fun p => (fileIdx * 2 ^ 32 + p.2, p.1) := by
  apply List.ext_getElem
  · simp [chunkRids]
  · intro i low high
    have inside : i < chunk.length := by simpa [chunkRids] using low
    simp only [chunkRids, List.getElem_map, List.getElem_zipIdx, Nat.zero_add]
    rw [ridAt_eq file (by omega)]

/-- However a row group is cut into chunks, each row gets the rid of its position. -/
theorem emitRids_eq (file : fileIdx < 2 ^ 32) (base : Nat) (chunks : List (List R))
    (small : base + chunks.flatten.length ≤ 2 ^ 32) :
    emitRids fileIdx base chunks = (chunks.flatten.zipIdx base).map fun p => (fileIdx * 2 ^ 32 + p.2, p.1) := by
  induction chunks generalizing base with
  | nil => rfl
  | cons chunk chunks ih =>
    rw [List.flatten_cons, List.length_append] at small
    rw [emitRids, chunkRids_eq file chunk (by omega), ih (base + chunk.length) (by omega), List.flatten_cons,
      List.zipIdx_append, List.map_append]

theorem PartFile.length_group_le (reader : PartFile R) {g : Nat} {group : List R}
    (present : reader.rowGroups[g]? = some group) :
    (reader.rowGroups.take g).flatten.length + group.length ≤ reader.rows.length := by
  obtain ⟨bound, same⟩ := List.getElem?_eq_some_iff.mp present
  have split : reader.rowGroups = reader.rowGroups.take g ++ group :: reader.rowGroups.drop (g + 1) := by
    rw [← same, ← List.drop_eq_getElem_cons bound, List.take_append_drop]
  have total : reader.rows.length =
      (reader.rowGroups.take g).flatten.length + (group.length + (reader.rowGroups.drop (g + 1)).flatten.length) := by
    rw [PartFile.rows]
    conv_lhs => rw [split]
    rw [List.flatten_append, List.flatten_cons, List.length_append, List.length_append]
  omega

theorem PartFile.chunksOf_flatten (reader : PartFile R) {g : Nat} {group : List R}
    (present : reader.rowGroups[g]? = some group) : (reader.chunksOf [g]).flatten = group := by
  have rest : (reader.initializeScan [g]).rest = group := by
    simp [PartFile.initializeScan, ScanState.rest, present]
  have bound := reader.length_group_le present
  rw [PartFile.chunksOf, PartFile.readLoop_flatten _ _ (by rw [rest]; omega), rest]

variable {canMatch : List R → Bool} {groups : List (List R)}

theorem mem_fileMorsels {g rowStart : Nat} {m : ParquetMorsel} :
    m ∈ fileMorsels canMatch fileIdx g rowStart groups ↔
      ∃ j group, groups[j]? = some group ∧ canMatch group = true ∧
        m = ⟨fileIdx, g + j, rowStart + (groups.take j).flatten.length⟩ := by
  induction groups generalizing g rowStart with
  | nil => simp [fileMorsels]
  | cons head groups ih =>
    have later : (∃ j group, groups[j]? = some group ∧ canMatch group = true ∧
        m = ⟨fileIdx, g + 1 + j, rowStart + head.length + (groups.take j).flatten.length⟩) ↔
        ∃ j group, (head :: groups)[j + 1]? = some group ∧ canMatch group = true ∧
          m = ⟨fileIdx, g + (j + 1), rowStart + ((head :: groups).take (j + 1)).flatten.length⟩ := by
      simp [Nat.add_assoc, Nat.add_comm 1]
    have cases' : (∃ j group, (head :: groups)[j]? = some group ∧ canMatch group = true ∧
        m = ⟨fileIdx, g + j, rowStart + ((head :: groups).take j).flatten.length⟩) ↔
        (canMatch head = true ∧ m = ⟨fileIdx, g, rowStart⟩) ∨
          ∃ j group, (head :: groups)[j + 1]? = some group ∧ canMatch group = true ∧
            m = ⟨fileIdx, g + (j + 1), rowStart + ((head :: groups).take (j + 1)).flatten.length⟩ := by
      constructor
      · rintro ⟨j, group, present, possible, same⟩
        cases j with
        | zero =>
          cases present
          exact .inl ⟨possible, same⟩
        | succ j => exact .inr ⟨j, group, present, possible, same⟩
      · rintro (⟨possible, same⟩ | ⟨j, group, found⟩)
        · exact ⟨0, head, rfl, possible, same⟩
        · exact ⟨j + 1, group, found⟩
    rw [cases', ← later, ← ih, fileMorsels]
    by_cases possible : canMatch head = true
    · rw [if_pos possible, List.mem_cons]
      exact or_congr_left ⟨fun same => ⟨possible, same⟩, fun both => both.2⟩
    · rw [if_neg possible]
      exact ⟨.inr, fun either => either.resolve_left fun both => possible both.1⟩

variable {readers : List (PartFile R)}

theorem mem_morsels {m : ParquetMorsel} :
    m ∈ morsels canMatch fileIdx readers ↔
      ∃ d reader, readers[d]? = some reader ∧ m ∈ fileMorsels canMatch (fileIdx + d) 0 0 reader.rowGroups := by
  induction readers generalizing fileIdx with
  | nil => simp [morsels]
  | cons head readers ih =>
    rw [morsels, List.mem_append, ih]
    constructor
    · rintro (here | ⟨d, reader, present, inside⟩)
      · exact ⟨0, head, rfl, here⟩
      · exact ⟨d + 1, reader, present, by rwa [Nat.add_assoc, Nat.add_comm 1] at inside⟩
    · rintro ⟨d, reader, present, inside⟩
      cases d with
      | zero =>
        cases present
        exact .inl inside
      | succ d => exact .inr ⟨d, reader, present, by rwa [Nat.add_assoc, Nat.add_comm 1]⟩

theorem getElem?_flatten_iff {i : Nat} {row : R} :
    groups.flatten[i]? = some row ↔
      ∃ j group k, groups[j]? = some group ∧ group[k]? = some row ∧ i = (groups.take j).flatten.length + k := by
  induction groups generalizing i with
  | nil => simp
  | cons head groups ih =>
    rw [List.flatten_cons, List.getElem?_append]
    constructor
    · intro found
      split at found
      · exact ⟨0, head, i, rfl, found, (Nat.zero_add i).symm⟩
      · obtain ⟨j, group, k, present, inside, place⟩ := ih.mp found
        refine ⟨j + 1, group, k, present, inside, ?_⟩
        rw [List.take_succ_cons, List.flatten_cons, List.length_append]
        omega
    · rintro ⟨j, group, k, present, inside, place⟩
      cases j with
      | zero =>
        cases present
        have bound := (List.getElem?_eq_some_iff.mp inside).1
        rw [List.take_zero, List.flatten_nil, List.length_nil, Nat.zero_add] at place
        rw [place, if_pos bound]
        exact inside
      | succ j =>
        rw [List.take_succ_cons, List.flatten_cons, List.length_append] at place
        rw [if_neg (by omega)]
        exact ih.mpr ⟨j, group, k, present, inside, by omega⟩

/-- The files a scan for DELETE or UPDATE can number, and a pruning that loses no matching row. -/
structure Numbered (predicate : R → Bool) (canMatch : List R → Bool) (readers : List (PartFile R)) : Prop where
  files : readers.length ≤ 2 ^ 32
  rows : ∀ reader ∈ readers, reader.rows.length ≤ 2 ^ 32
  pruned : ∀ reader ∈ readers, ∀ group ∈ reader.rowGroups, ∀ row ∈ group, predicate row = true → canMatch group = true

/-- The matched rows are the rows that satisfy the predicate, each under its position. -/
theorem mem_matched {predicate : R → Bool} (numbered : Numbered predicate canMatch readers) {p : Nat × R} :
    p ∈ matched predicate canMatch readers ↔
      ∃ k reader i, readers[k]? = some reader ∧ reader.rows[i]? = some p.2 ∧ predicate p.2 = true ∧
        p.1 = k * 2 ^ 32 + i := by
  have emitted : ∀ k reader g group, readers[k]? = some reader → reader.rowGroups[g]? = some group →
      emitRids k (reader.rowGroups.take g).flatten.length (reader.chunksOf [g]) =
        (group.zipIdx (reader.rowGroups.take g).flatten.length).map fun p => (k * 2 ^ 32 + p.2, p.1) := by
    intro k reader g group opened present
    have bound := (List.getElem?_eq_some_iff.mp opened).1
    have few := numbered.files
    have size := numbered.rows reader (List.mem_of_getElem? opened)
    have part := reader.length_group_le present
    rw [emitRids_eq (by omega) _ _ (by rw [reader.chunksOf_flatten present]; omega),
      reader.chunksOf_flatten present]
  constructor
  · intro member
    obtain ⟨m, morsel, inside⟩ := List.mem_flatMap.mp member
    obtain ⟨k, reader, opened, cut⟩ := mem_morsels.mp morsel
    obtain ⟨g, group, present, -, rfl⟩ := mem_fileMorsels.mp cut
    simp only [Nat.zero_add, opened] at inside
    rw [emitted k reader g group opened present, List.mem_filter] at inside
    obtain ⟨numbered', satisfied⟩ := inside
    obtain ⟨⟨row, place⟩, here, rfl⟩ := List.mem_map.mp numbered'
    obtain ⟨low, found⟩ := List.mk_mem_zipIdx_iff_le_and_getElem?_sub.mp here
    refine ⟨k, reader, place, opened, ?_, satisfied, rfl⟩
    exact getElem?_flatten_iff.mpr ⟨g, group, _, present, found, by omega⟩
  · rintro ⟨k, reader, i, opened, found, satisfied, rid⟩
    obtain ⟨g, group, j, present, inside, place⟩ := getElem?_flatten_iff.mp found
    have possible := numbered.pruned reader (List.mem_of_getElem? opened) group (List.mem_of_getElem? present)
      p.2 (List.mem_of_getElem? inside) satisfied
    refine List.mem_flatMap.mpr ⟨⟨k, g, (reader.rowGroups.take g).flatten.length⟩, ?_, ?_⟩
    · refine mem_morsels.mpr ⟨k, reader, opened, mem_fileMorsels.mpr ⟨g, group, present, possible, ?_⟩⟩
      rw [Nat.zero_add, Nat.zero_add, Nat.zero_add]
    · simp only [opened]
      rw [emitted k reader g group opened present, List.mem_filter]
      refine ⟨List.mem_map.mpr ⟨(p.2, i), ?_, ?_⟩, satisfied⟩
      · refine List.mk_mem_zipIdx_iff_le_and_getElem?_sub.mpr ⟨by omega, ?_⟩
        rw [place, Nat.add_sub_cancel_left]
        exact inside
      · rw [← rid]

end BumbleBee.External
