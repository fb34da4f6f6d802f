import BumbleBee.Types.Vectors

/-!
A materialized relation as a list of data chunks. As long as all chunks have the same
column types and a chunk is taken over as it is only behind full ones, every chunk but
the last is full, so a row is found by dividing its index.
-/

namespace BumbleBee.Types

structure ChunkCollection (τ α : Type) where
  chunks : List (DataChunk τ α) := []
  count : Nat := 0
  types : List τ := []

variable {τ α : Type}

namespace ChunkCollection

def rows (c : ChunkCollection τ α) : List (List (Option α)) := c.chunks.flatMap DataChunk.rows

/-- `Append` of a chunk the collection takes over. -/
def appendOwned (c : ChunkCollection τ α) (chunk : DataChunk τ α) : ChunkCollection τ α where
  chunks := c.chunks ++ [chunk]
  count := c.count + chunk.size
  types := if c.chunks.isEmpty then chunk.getTypes else c.types

def getValue (c : ChunkCollection τ α) (column index : Nat) : Option (Option α) :=
  (c.chunks[index / standardVectorSize]?).map fun chunk =>
    (chunk.data column).getValue (index % standardVectorSize)

variable [DecidableEq τ] [Inhabited α]

/-- `Append` of a chunk that is copied. The flag is set if it throws; `none` is a write that an assertion
excludes. -/
def append (c : ChunkCollection τ α) (chunk : DataChunk τ α) : Option (ChunkCollection τ α × Bool) :=
  if chunk.size = 0 then some (c, false)
  else
    let c := { c with count := c.count + chunk.size }
    match c.chunks.getLast? with
    | none => some ({ c with types := chunk.getTypes, chunks := [chunk.copy 0] }, false)
    | some last =>
      if chunk.getTypes = c.types then
        let available := min chunk.size (standardVectorSize - last.size)
        if available = 0 then some ({ c with chunks := c.chunks ++ [chunk.copy 0] }, false)
        else
          (last.append { chunk.normalify with size := available }).map fun filled =>
            ({ c with chunks := c.chunks.dropLast ++ [filled] ++
                if chunk.size = available then [] else [chunk.normalify.copy available] }, false)
      else some (c, true)

def appendChunks (c : ChunkCollection τ α) : List (DataChunk τ α) → Option (ChunkCollection τ α × Bool)
  | [] => some (c, false)
  | chunk :: rest =>
    match c.append chunk with
    | some (c, false) => c.appendChunks rest
    | stopped => stopped

def merge (c other : ChunkCollection τ α) : Option (ChunkCollection τ α × Bool) :=
  if other.count = 0 then some (c, false)
  else if c.count = 0 then some (other, false)
  else
    match c.chunks.getLast? with
    | none => none
    | some last =>
      if last.size = standardVectorSize then some (other.chunks.foldl appendOwned c, false)
      else
        (other.chunks.foldl appendOwned
          { c with chunks := c.chunks.dropLast, count := c.count - last.size }).append last

end ChunkCollection

/-- How a collection is built. -/
inductive Build (τ α : Type) where
  | new
  | append (b : Build τ α) (chunk : DataChunk τ α)
  | appendOwned (b : Build τ α) (chunk : DataChunk τ α)
  | appendAll (b other : Build τ α)
  | merge (b other : Build τ α)

/-- At most a vector of rows, of the given types. -/
structure DataChunk.Fits (types : List τ) (chunk : DataChunk τ α) : Prop where
  types : chunk.getTypes = types
  size : chunk.size ≤ standardVectorSize

/-- Rows may be written behind those of a chunk that has room. -/
def DataChunk.Extensible (chunk : DataChunk τ α) : Prop := chunk.size < standardVectorSize → chunk.Flat

namespace Build

/-- The rows added, in order. -/
def added : Build τ α → List (List (Option α))
  | .new => []
  | .append b chunk | .appendOwned b chunk => b.added ++ chunk.rows
  | .appendAll b other | .merge b other => b.added ++ other.added

def Merges : Build τ α → Prop
  | .new => False
  | .append b _ | .appendOwned b _ => b.Merges
  | .appendAll b other => b.Merges ∨ other.Merges
  | .merge _ _ => True

variable [DecidableEq τ] [Inhabited α]

/-- The collection built, if no call throws. -/
def eval : Build τ α → Option (ChunkCollection τ α)
  | .new => some {}
  | .append b chunk => b.eval.bind fun c => completed (c.append chunk)
  | .appendOwned b chunk => b.eval.map fun c => c.appendOwned chunk
  | .appendAll b other => b.eval.bind fun c => other.eval.bind fun o => completed (c.appendChunks o.chunks)
  | .merge b other => b.eval.bind fun c => other.eval.bind fun o => completed (c.merge o)
where
  completed : Option (ChunkCollection τ α × Bool) → Option (ChunkCollection τ α)
    | some (c, false) => some c
    | _ => none

/-- All chunks have the types, and one is taken over only if it is flat or full, and all before it are full. -/
def Admitted (types : List τ) : Build τ α → Prop
  | .new => True
  | .append b chunk => b.Admitted types ∧ chunk.Fits types
  | .appendOwned b chunk => b.Admitted types ∧ chunk.Fits types ∧ chunk.Extensible ∧
    ∀ c, b.eval = some c → ∀ before ∈ c.chunks, before.size = standardVectorSize
  | .appendAll b other | .merge b other => b.Admitted types ∧ other.Admitted types

end Build

/-- Chunks of which all but the last are full. -/
structure Shape (types : List τ) (chunks : List (DataChunk τ α)) : Prop where
  full : ∀ chunk ∈ chunks.dropLast, chunk.size = standardVectorSize
  fits : ∀ chunk ∈ chunks, chunk.Fits types ∧ chunk.Extensible

variable {types : List τ} {chunk : DataChunk τ α} {chunks front : List (DataChunk τ α)}

theorem shape_singleton (fits : chunk.Fits types) (flat : chunk.Extensible) : Shape types [chunk] := by
  refine ⟨by simp, ?_⟩
  simpa using ⟨fits, flat⟩

theorem Shape.behind (shape : Shape types chunks) (fits : ∀ chunk ∈ front, chunk.Fits types ∧ chunk.Extensible)
    (full : ∀ chunk ∈ front, chunk.size = standardVectorSize) : Shape types (front ++ chunks) := by
  refine ⟨?_, List.forall_mem_append.mpr ⟨fits, shape.fits⟩⟩
  intro chunk member
  by_cases empty : chunks = []
  · rw [empty, List.append_nil] at member
    exact full chunk (List.dropLast_subset _ member)
  · rw [List.dropLast_append_of_ne_nil empty] at member
    exact (List.mem_append.mp member).elim (full chunk) (shape.full chunk)

/-- The chunk and the index in it by which a row is found. -/
theorem Shape.found_by_division (shape : Shape types chunks) {i : Nat} {row : List (Option α)}
    (found : (chunks.flatMap DataChunk.rows)[i]? = some row) :
    ∃ chunk, chunks[i / standardVectorSize]? = some chunk ∧ row = chunk.row (i % standardVectorSize) := by
  obtain ⟨full, fits⟩ := shape
  induction chunks generalizing i with
  | nil => simp at found
  | cons chunk rest ih =>
    have size := (fits chunk List.mem_cons_self).1.size
    rw [List.flatMap_cons, List.getElem?_append, chunk.length_rows] at found
    split at found
    · next here =>
      rw [Nat.div_eq_of_lt (by omega), Nat.mod_eq_of_lt (by omega)]
      exact ⟨chunk, rfl, by simpa [DataChunk.rows, here, eq_comm] using found⟩
    · cases rest with
      | nil => simp at found
      | cons second rest =>
        rw [List.dropLast_cons_cons] at full
        obtain ⟨whole, full⟩ := List.forall_mem_cons.mp full
        obtain ⟨other, inside, same⟩ := ih found full (List.forall_mem_cons.mp fits).2
        obtain ⟨j, rfl⟩ : ∃ j, i = j + standardVectorSize := ⟨i - standardVectorSize, by omega⟩
        rw [whole, Nat.add_sub_cancel] at inside same
        rw [Nat.add_div_right j (by decide), Nat.add_mod_right]
        exact ⟨other, inside, same⟩

namespace ChunkCollection

structure Sound (types : List τ) (c : ChunkCollection τ α) : Prop where
  shape : Shape types c.chunks
  types : c.chunks ≠ [] → c.types = types
  count : c.count = c.rows.length

variable {c other : ChunkCollection τ α}

theorem Sound.getValue_eq (sound : c.Sound types) {i : Nat} {row : List (Option α)} (found : c.rows[i]? = some row)
    {column : Nat} (inside : column < row.length) : c.getValue column i = row[column]? := by
  obtain ⟨chunk, here, rfl⟩ := sound.shape.found_by_division found
  have width : column < chunk.columnCount := by simpa [DataChunk.row] using inside
  simp [getValue, here, DataChunk.row, width]

theorem rows_appendOwned : (c.appendOwned chunk).rows = c.rows ++ chunk.rows := by
  simp [rows, appendOwned]

theorem Sound.appendOwned (sound : c.Sound types) (fits : chunk.Fits types) (flat : chunk.Extensible)
    (before : ∀ full ∈ c.chunks, full.size = standardVectorSize) : (c.appendOwned chunk).Sound types := by
  refine ⟨(shape_singleton fits flat).behind sound.shape.fits before, ?_, ?_⟩
  · intro _
    by_cases empty : c.chunks = []
    · simp [ChunkCollection.appendOwned, empty, fits.types]
    · simp [ChunkCollection.appendOwned, empty, sound.types empty]
  · rw [rows_appendOwned, List.length_append, chunk.length_rows, ← sound.count]
    rfl

/-- The chunks of a collection, taken over behind full ones. -/
theorem Sound.takeOver (sound : c.Sound types) (before : ∀ chunk ∈ c.chunks, chunk.size = standardVectorSize)
    (shape : Shape types chunks) : (chunks.foldl ChunkCollection.appendOwned c).Sound types ∧
      (chunks.foldl ChunkCollection.appendOwned c).rows = c.rows ++ chunks.flatMap DataChunk.rows := by
  induction chunks generalizing c with
  | nil => exact ⟨sound, by simp⟩
  | cons chunk rest ih =>
    obtain ⟨⟨here, flat⟩, fits⟩ := List.forall_mem_cons.mp shape.fits
    have taken := sound.appendOwned here flat before
    cases rest with
    | nil => exact ⟨taken, by simp [rows_appendOwned]⟩
    | cons second rest =>
      have full := shape.full
      rw [List.dropLast_cons_cons] at full
      obtain ⟨whole, full⟩ := List.forall_mem_cons.mp full
      have later := ih taken (List.forall_mem_append.mpr ⟨before, by simpa using whole⟩) ⟨full, fits⟩
      rwa [rows_appendOwned, List.append_assoc] at later

variable [Inhabited α] [DecidableEq τ]

theorem Sound.append (sound : c.Sound types) (fits : chunk.Fits types) :
    ∃ after, c.append chunk = some (after, false) ∧ after.Sound types ∧ after.rows = c.rows ++ chunk.rows := by
  by_cases empty : chunk.size = 0
  · exact ⟨c, by simp [ChunkCollection.append, empty], sound, by simp [DataChunk.rows, empty]⟩
  suffices appended : ∃ chunks, c.append chunk = some (⟨chunks, c.count + chunk.size, types⟩, false) ∧
      Shape types chunks ∧ chunks.flatMap DataChunk.rows = c.rows ++ chunk.rows by
    obtain ⟨chunks, appended, shape, rows⟩ := appended
    refine ⟨_, appended, ⟨shape, fun _ => rfl, ?_⟩, rows⟩
    show c.count + chunk.size = (chunks.flatMap DataChunk.rows).length
    rw [rows, List.length_append, chunk.length_rows, sound.count]
  obtain ⟨same, first, rest⟩ := chunk.normalify_spec
  have shape : ∀ {offset : Nat}, Shape types [chunk.copy offset] ∧ Shape types [chunk.normalify.copy offset] := by
    intro offset
    have bound : chunk.size - offset ≤ standardVectorSize := Nat.le_trans (Nat.sub_le _ _) fits.size
    exact ⟨shape_singleton ⟨fits.types, bound⟩ fun _ _ _ => rfl,
      shape_singleton ⟨same.trans fits.types, bound⟩ fun _ _ _ => rfl⟩
  have whole : (chunk.copy 0).rows = chunk.rows := by
    rw [chunk.rows_copy]
    simp [DataChunk.rows]
  rcases List.eq_nil_or_concat c.chunks with none | ⟨init, last, split⟩
  · exact ⟨[chunk.copy 0], by simp [ChunkCollection.append, empty, none, fits.types], shape.1,
      by simp [ChunkCollection.rows, none, whole]⟩
  rw [List.concat_eq_append] at split
  have typed := sound.types (by simp [split])
  obtain ⟨full, inside⟩ := sound.shape
  rw [split, List.dropLast_concat] at full
  rw [split] at inside
  obtain ⟨fitsInit, fitsLast⟩ := List.forall_mem_append.mp inside
  obtain ⟨bounded, flat⟩ := fitsLast last List.mem_cons_self
  have limit := bounded.size
  obtain ⟨k, fill⟩ : ∃ k, min chunk.size (standardVectorSize - last.size) = k := ⟨_, rfl⟩
  by_cases closed : k = 0
  · refine ⟨c.chunks ++ [chunk.copy 0], ?_, shape.1.behind sound.shape.fits ?_, by
      simp [ChunkCollection.rows, whole]⟩
    · simp [ChunkCollection.append, empty, split, fits.types, typed, fill, closed]
    · rw [split]
      exact List.forall_mem_append.mpr ⟨full, by simp; omega⟩
  have alike : DataChunk.getTypes { chunk.normalify with size := k } = last.getTypes := by
    rw [bounded.types, ← fits.types]
    exact same
  obtain ⟨filled, appended, flat', types', size, joined⟩ := DataChunk.append_spec (flat (by omega)) alike
  rw [first k (by omega)] at joined
  have size : filled.size = last.size + k := size
  have filledFits : filled.Fits types := ⟨types'.trans bounded.types, by omega⟩
  have front : c.rows ++ (List.range k).map chunk.row = (init ++ [filled]).flatMap DataChunk.rows := by
    simp [ChunkCollection.rows, split, joined]
  refine ⟨init ++ [filled] ++ if chunk.size = k then [] else [chunk.normalify.copy k], ?_, ?_, ?_⟩
  · simp [ChunkCollection.append, empty, split, fits.types, typed, fill, closed, appended]
  · split
    · rw [List.append_nil]
      exact (shape_singleton filledFits fun _ => flat').behind fitsInit full
    · exact shape.2.behind (List.forall_mem_append.mpr ⟨fitsInit, by simpa using ⟨filledFits, fun _ => flat'⟩⟩)
        (List.forall_mem_append.mpr ⟨full, by simp; omega⟩)
  · rw [List.flatMap_append, ← front, chunk.rows_split (k := k) (by omega), ← List.append_assoc]
    split
    · next whole => simp [whole]
    · simp [rest k]

theorem Sound.appendChunks (sound : c.Sound types) (fits : ∀ chunk ∈ chunks, chunk.Fits types) :
    ∃ after, c.appendChunks chunks = some (after, false) ∧
      after.Sound types ∧ after.rows = c.rows ++ chunks.flatMap DataChunk.rows := by
  induction chunks generalizing c with
  | nil => exact ⟨c, rfl, sound, by simp⟩
  | cons chunk rest ih =>
    obtain ⟨here, fits⟩ := List.forall_mem_cons.mp fits
    obtain ⟨after, appended, kept, rows⟩ := sound.append here
    obtain ⟨last, more, still, all⟩ := ih kept fits
    exact ⟨last, by simp [ChunkCollection.appendChunks, appended, more], still, by simp [all, rows]⟩

theorem Sound.merge (sound : c.Sound types) (others : other.Sound types) :
    ∃ after, c.merge other = some (after, false) ∧ after.Sound types ∧ after.rows.Perm (c.rows ++ other.rows) := by
  have counted := sound.count
  have counted' := others.count
  by_cases nothing : other.count = 0
  · have empty : other.rows = [] := List.length_eq_zero_iff.mp (by omega)
    exact ⟨c, by rw [ChunkCollection.merge, if_pos nothing], sound, by simp [empty]⟩
  by_cases first : c.count = 0
  · have empty : c.rows = [] := List.length_eq_zero_iff.mp (by omega)
    exact ⟨other, by rw [ChunkCollection.merge, if_neg nothing, if_pos first], others, by simp [empty]⟩
  rcases List.eq_nil_or_concat c.chunks with none | ⟨init, last, split⟩
  · simp [rows, none] at counted
    omega
  rw [List.concat_eq_append] at split
  obtain ⟨full, inside⟩ := sound.shape
  rw [split, List.dropLast_concat] at full
  by_cases whole : last.size = standardVectorSize
  · obtain ⟨kept, all⟩ := sound.takeOver (by rw [split]; exact List.forall_mem_append.mpr ⟨full, by simpa⟩) others.shape
    exact ⟨_, by simp [ChunkCollection.merge, nothing, first, split, whole], kept, all ▸ List.Perm.refl _⟩
  have before : c.rows = init.flatMap DataChunk.rows ++ last.rows := by simp [rows, split]
  have popped : ({ c with chunks := init, count := c.count - last.size } : ChunkCollection τ α).Sound types := by
    refine ⟨⟨fun chunk member => full chunk (List.dropLast_subset _ member),
      fun chunk member => inside chunk (by simp [split, member])⟩, fun _ => sound.types (by simp [split]), ?_⟩
    rw [counted, before, List.length_append, last.length_rows, Nat.add_sub_cancel]
    rfl
  obtain ⟨kept, all⟩ := popped.takeOver full others.shape
  obtain ⟨after, appended, still, rows⟩ := kept.append (inside last (by simp [split])).1
  refine ⟨after, by simpa [ChunkCollection.merge, nothing, first, split, whole] using appended, still, ?_⟩
  rw [rows, all, before, List.append_assoc, List.append_assoc]
  exact List.Perm.append_left _ List.perm_append_comm

end ChunkCollection

/-- A one-column chunk of equal rows. -/
def equalRows (size type value : Nat) : DataChunk Nat Nat := ⟨1, fun _ => ⟨type, .flat, fun _ => value, ⟨none⟩⟩, size⟩

/-- The second chunk fills the first one and goes on in another. -/
def overflowing : Build Nat Nat := (Build.new.append (equalRows 1000 0 5)).append (equalRows 100 0 6)

/-- A chunk is taken over behind a full one. -/
def takenOver : Build Nat Nat := (Build.new.append (equalRows 1024 0 7)).appendOwned (equalRows 3 0 8)

end BumbleBee.Types
