import BumbleBee.External.RowIds

/-!
What `Finalize` of INSERT, DELETE and UPDATE does to the rows of a table. Over the files
that were scanned, the rids a statement has collected edit the rows that match its
WHERE, and no other row.
-/

namespace BumbleBee.External
open Function

variable {R : Type}

section Editing

variable {predicate : R → Bool} {canMatch : List R → Bool} {readers : List (PartFile R)} {k i : Nat}
  {reader : PartFile R} {row : R}

section
variable (numbered : Numbered predicate canMatch readers)
include numbered

section
variable (opened : readers[k]? = some reader)
include opened

section
variable (found : reader.rows[i]? = some row)
include found

/-- A rid of a matched row that names a position is the rid of the row there. -/
theorem row_of_ridNames {p : Nat × R} (member : p ∈ matched predicate canMatch readers)
    (named : ridNames p.1 k i = true) : p.2 = row ∧ predicate row = true := by
  obtain ⟨k', reader', i', opened', found', satisfied, rid⟩ := (mem_matched numbered).mp member
  have size := numbered.rows reader (List.mem_of_getElem? opened)
  have size' := numbered.rows reader' (List.mem_of_getElem? opened')
  have bound := (List.getElem?_eq_some_iff.mp found).1
  have bound' := (List.getElem?_eq_some_iff.mp found').1
  rw [ridNames, rid, ridFileIdx_eq k' (by omega), ridRowIdx_eq k' (by omega), Bool.and_eq_true, beq_iff_eq,
    beq_iff_eq, Nat.mod_eq_of_lt (by omega)] at named
  rw [named.1, opened] at opened'
  cases opened'
  rw [named.2, found] at found'
  have same := Option.some.inj found'
  exact ⟨same.symm, same ▸ satisfied⟩

theorem matched_of_predicate (satisfied : predicate row = true) :
    (k * 2 ^ 32 + i, row) ∈ matched predicate canMatch readers ∧ ridNames (k * 2 ^ 32 + i) k i = true := by
  have size := numbered.rows reader (List.mem_of_getElem? opened)
  have bound := (List.getElem?_eq_some_iff.mp found).1
  have small : i < 2 ^ 32 := by omega
  refine ⟨(mem_matched numbered).mpr ⟨k, reader, i, opened, found, satisfied, rfl⟩, ?_⟩
  rw [ridNames, ridFileIdx_eq k small, ridRowIdx_eq k small, Nat.mod_eq_of_lt small, Bool.and_eq_true, beq_iff_eq,
    beq_iff_eq]
  exact ⟨rfl, rfl⟩

theorem deleteEdit_eq :
    deleteEdit ((matched predicate canMatch readers).map Prod.fst) k i row =
      if predicate row then none else some row := by
  rw [deleteEdit]
  by_cases satisfied : predicate row = true
  · obtain ⟨member, named⟩ := matched_of_predicate numbered opened found satisfied
    rw [if_pos satisfied, if_pos]
    exact List.any_eq_true.mpr ⟨_, List.mem_map_of_mem member, named⟩
  · rw [if_neg satisfied, if_neg]
    intro doomed
    obtain ⟨rid, listed, named⟩ := List.any_eq_true.mp doomed
    obtain ⟨p, member, same⟩ := List.mem_map.mp listed
    subst same
    exact satisfied (row_of_ridNames numbered opened found member named).2

end

end

theorem updateEdit_eq (assign : R → R) (opened : readers[k]? = some reader) (found : reader.rows[i]? = some row) :
    updateEdit ((matched predicate canMatch readers).map fun p => (p.1, assign p.2)) k i row =
      some (if predicate row then assign row else row) := by
  rw [updateEdit]
  split
  · next absent =>
    rw [if_neg]
    intro satisfied
    obtain ⟨member, named⟩ := matched_of_predicate numbered opened found satisfied
    have missed := List.find?_eq_none.mp absent (k * 2 ^ 32 + i, assign row)
      (List.mem_reverse.mpr (List.mem_map.mpr ⟨_, member, rfl⟩))
    exact missed named
  · next p chosen =>
    have named := List.find?_some chosen
    obtain ⟨q, member, same⟩ := List.mem_map.mp (List.mem_reverse.mp (List.mem_of_find?_eq_some chosen))
    subst same
    obtain ⟨here, satisfied⟩ := row_of_ridNames numbered opened found member named
    rw [if_pos satisfied, here]

end

variable {edit : Edit R} {keep : R → Option R}

theorem transform_eq (rows : List R) (same : ∀ i row, rows[i]? = some row → edit k i row = keep row) :
    transform edit k 0 rows = rows.filterMap keep := by
  have rowwise : rows.filterMap keep = rows.zipIdx.filterMap fun p => keep p.1 := by
    conv_lhs => rw [← List.zipIdx_map_fst 0 rows]
    rw [List.filterMap_map]
    rfl
  rw [rowwise]
  apply List.filterMap_congr
  intro p member
  obtain ⟨-, found⟩ := List.mk_mem_zipIdx_iff_le_and_getElem?_sub.mp member
  exact same p.2 p.1 found

theorem editedRows_eq (first : Nat)
    (same : ∀ d reader, readers[d]? = some reader → ∀ i row, reader.rows[i]? = some row →
      edit (first + d) i row = keep row) :
    editedRows edit (fun _ => true) first readers = (readers.flatMap PartFile.rows).filterMap keep := by
  induction readers generalizing first with
  | nil => rfl
  | cons head readers ih =>
    have later := ih (first + 1) (by
      intro d reader opened
      have here := same (d + 1) reader opened
      rwa [Nat.add_comm d 1, ← Nat.add_assoc] at here)
    rw [editedRows, if_pos rfl, List.flatMap_cons, List.filterMap_append, later]
    congr 1
    exact transform_eq head.rows (same 0 head rfl)

end Editing

section Untouched

variable {touched : Nat → Bool} {edit : Edit R}

/-- An edit that leaves untouched files as they are may be run over all of them. -/
theorem editedRows_all
    (same : ∀ k, touched k = false → ∀ i row, edit k i row = some row) (first : Nat) (files : List (PartFile R)) :
    editedRows edit touched first files = editedRows edit (fun _ => true) first files := by
  induction files generalizing first with
  | nil => rfl
  | cons file files ih =>
    rw [editedRows, editedRows, ih, if_pos rfl]
    by_cases touches : touched first = true
    · rw [if_pos touches]
    · rw [if_neg touches, transform_eq file.rows fun i row _ => same first (Bool.not_eq_true _ ▸ touches) i row,
        List.filterMap_some]

theorem editedRows_id (same : ∀ k i row, edit k i row = some row) (files : List (PartFile R)) :
    editedRows edit (fun _ => true) 0 files = files.flatMap PartFile.rows := by
  rw [editedRows_eq 0 fun d _ _ i row _ => same (0 + d) i row, List.filterMap_some]

theorem ridNames_false {rid k : Nat} (other : ¬(ridFileIdx rid == k) = true) (i : Nat) : ridNames rid k i = false := by
  rw [ridNames, Bool.eq_false_iff.mpr other, Bool.false_and]

theorem deleteEdit_untouched {rids : List Nat} {k : Nat} (untouched : (rids.any (ridFileIdx · == k)) = false) (i : Nat)
    (row : R) : deleteEdit rids k i row = some row := by
  apply if_neg
  intro doomed
  obtain ⟨rid, member, named⟩ := List.any_eq_true.mp doomed
  rw [ridNames_false (List.any_eq_false.mp untouched rid member)] at named
  cases named

theorem updateEdit_untouched {batch : List (Nat × R)} {k : Nat}
    (untouched : (batch.any (ridFileIdx ·.1 == k)) = false) (i : Nat) (row : R) :
    updateEdit batch k i row = some row := by
  have absent : batch.reverse.find? (fun p => ridNames p.1 k i) = none := by
    apply List.find?_eq_none.mpr
    intro p member named
    rw [ridNames_false (List.any_eq_false.mp untouched p (List.mem_reverse.mp member))] at named
    cases named
  rw [updateEdit, absent]

end Untouched

section Finalizing

variable {t : ExternalTable R} {readers : List (PartFile R)} {entries : List (ManifestEntry Nat)}
  {files : Nat → Option (PartFile R)}

theorem openReaders_eq (opened : openReaders files entries = some readers) :
    entries.map (fun entry => files entry.fileName) = readers.map some := by
  induction entries generalizing readers with
  | nil =>
    cases opened
    rfl
  | cons entry entries ih =>
    rw [openReaders] at opened
    split at opened
    · next reader others found rest =>
      cases opened
      rw [List.map_cons, List.map_cons, found, ih rest]
    · cases opened

theorem openReaders_isSome
    (listed : ∀ entry ∈ entries, files entry.fileName ≠ none) : ∃ readers, openReaders files entries = some readers := by
  induction entries with
  | nil => exact ⟨[], rfl⟩
  | cons entry entries ih =>
    obtain ⟨others, rest⟩ := ih fun other member => listed other (List.mem_cons_of_mem _ member)
    obtain ⟨reader, found⟩ := Option.ne_none_iff_exists'.mp (listed entry List.mem_cons_self)
    exact ⟨reader :: others, by rw [openReaders, found, rest]⟩

theorem contents_eq_of_opened (opened : entries.map (fun entry => files entry.fileName) = readers.map some) :
    contents files entries = readers.flatMap PartFile.rows := by
  induction entries generalizing readers with
  | nil =>
    cases readers with
    | nil => rfl
    | cons reader readers => cases opened
  | cons entry entries ih =>
    cases readers with
    | nil => cases opened
    | cons reader readers =>
      rw [List.map_cons, List.map_cons, List.cons.injEq] at opened
      rw [List.flatMap_cons, ← ih opened.2, ← contents_single opened.1]
      exact contents_append files [entry] entries

theorem ExternalTable.rows_of_opened (opened : openReaders t.files t.manifest.entries = some readers) :
    t.rows = readers.flatMap PartFile.rows := contents_eq_of_opened (openReaders_eq opened)

/-- A statement that edits rows finds nothing to do, or rewrites the files it touches. -/
theorem finalize_edits (sound : t.Sound) (opened : openReaders t.files t.manifest.entries = some readers)
    {collected : Collected R} {edit : Edit R} (edits : (∃ rids, collected = .rids rids ∧ edit = deleteEdit rids) ∨
      ∃ batch, collected = .replacements batch ∧ edit = updateEdit batch) :
    (finalize t collected = .nothing ∧ editedRows edit (fun _ => true) 0 readers = t.rows) ∨
    ∃ touched next, finalize t collected = .committed next ∧ rewriteTouchedFiles t edit touched = some next ∧
      next.Sound ∧ next.rows = editedRows edit (fun _ => true) 0 readers ∧
      next.manifest.version = t.manifest.version + 1 := by
  obtain ⟨touched, n, same, idle, finalized⟩ : ∃ (touched : Nat → Bool) (n : Nat),
      (∀ k, touched k = false → ∀ i row, edit k i row = some row) ∧ (n = 0 → ∀ k, touched k = false) ∧
      finalize t collected = if n = 0 then .nothing else .ofRewrite (rewriteTouchedFiles t edit touched) := by
    rcases edits with ⟨rids, rfl, rfl⟩ | ⟨batch, rfl, rfl⟩
    · refine ⟨_, rids.length, fun k => deleteEdit_untouched, ?_, rfl⟩
      intro empty k
      rw [List.length_eq_zero_iff.mp empty, List.any_nil]
    · refine ⟨_, batch.length, fun k => updateEdit_untouched, ?_, rfl⟩
      intro empty k
      rw [List.length_eq_zero_iff.mp empty, List.any_nil]
  split at finalized
  · next empty =>
    rw [ExternalTable.rows_of_opened opened]
    exact .inl ⟨finalized, editedRows_id (fun k => same k (idle empty k)) readers⟩
  · obtain ⟨next, ran, keeps, rows, version⟩ := rewriteTouchedFiles_spec sound edit touched (openReaders_eq opened)
    rw [ran] at finalized
    exact .inr ⟨touched, next, finalized, ran, keeps, rows.trans (editedRows_all same 0 readers), version⟩

theorem appendRows_spec (sound : t.Sound) (chunks : List (List R)) :
    (appendRows t chunks).Sound ∧ (appendRows t chunks).rows = t.rows ++ chunks.flatten := by
  have other : ∀ entry ∈ t.manifest.entries, entry.fileName ≠ t.nextFile := by
    intro entry member same
    exact sound.listed entry member (sound.fresh _ (Nat.le_of_eq same.symm))
  refine ⟨⟨?_, ?_, ?_⟩, ?_⟩
  · intro entry member
    simp only [appendRows] at member ⊢
    rcases List.mem_append.mp member with before | here
    · rw [update_of_ne (other entry before)]
      exact sound.listed entry before
    · rw [List.mem_singleton.mp here, update_self]
      exact Option.some_ne_none _
  · intro name above
    simp only [appendRows] at above ⊢
    rw [update_of_ne (Nat.ne_of_gt above)]
    exact sound.fresh name (Nat.le_of_succ_le above)
  · simp only [appendRows, List.map_append]
    refine List.nodup_append.mpr ⟨sound.apart, List.nodup_singleton _, ?_⟩
    intro name before again here same
    obtain ⟨entry, member, rfl⟩ := List.mem_map.mp before
    exact other entry member (same.trans (List.mem_singleton.mp here))
  · have here : contents (appendRows t chunks).files
        [⟨t.nextFile, (chunks.foldl PartFileWriter.append .new).finish.2⟩] = chunks.flatten := by
      refine (contents_single (update_self ..)).trans ?_
      rw [PartFileWriter.rows_finish, foldl_append_spec]
      rfl
    have before : contents (appendRows t chunks).files t.manifest.entries = contents t.files t.manifest.entries := by
      apply contents_congr
      intro entry member
      exact update_of_ne (other entry member) ..
    show contents (appendRows t chunks).files (t.manifest.entries ++ [_]) = _
    rw [contents_append, before, here]
    rfl

end Finalizing

end BumbleBee.External
