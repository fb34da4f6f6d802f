import Mathlib.Data.List.Basic

/-!
The manifest protocol of an external table folder: the newest `_bbdb_manifest.N`
lists the live part files, and a writer commits by renaming version `N + 1` into
place. `F` is the type of file names.
-/

namespace BumbleBee.External

variable {F : Type}

structure ManifestEntry (F : Type) where
  fileName : F
  rowCount : Nat
  deriving DecidableEq

structure ParquetManifest (F : Type) where
  version : Nat
  entries : List (ManifestEntry F)
  deriving DecidableEq

namespace ParquetManifest

/-- One round of the directory loop: `version > best_version`, from `best_version = -1`. -/
def newer (best : Option (ParquetManifest F)) (m : ParquetManifest F) : Option (ParquetManifest F) :=
  match best with
  | none => some m
  | some b => if b.version < m.version then some m else some b

def readLatest (manifests : List (ParquetManifest F)) : Option (ParquetManifest F) :=
  manifests.foldl newer none

/-- The rename replaces a manifest of the same version. -/
def write (manifests : List (ParquetManifest F)) (m : ParquetManifest F) : List (ParquetManifest F) :=
  m :: manifests.filter (·.version ≠ m.version)

theorem foldl_newer (manifests : List (ParquetManifest F)) (best : ParquetManifest F) :
    ∃ m, manifests.foldl newer (some best) = some m ∧ (m = best ∨ m ∈ manifests) ∧
      best.version ≤ m.version ∧ ∀ other ∈ manifests, other.version ≤ m.version := by
  induction manifests generalizing best with
  | nil =>
    refine ⟨best, rfl, .inl rfl, Nat.le_refl _, ?_⟩
    intro other member
    cases member
  | cons head rest ih =>
    by_cases later : best.version < head.version
    · obtain ⟨m, found, origin, above, top⟩ := ih head
      refine ⟨m, ?_, .inr ?_, by omega, ?_⟩
      · simp only [List.foldl_cons, newer, if_pos later, found]
      · rcases origin with same | member
        · exact same ▸ List.mem_cons_self
        · exact List.mem_cons_of_mem _ member
      · intro other member
        rcases List.mem_cons.mp member with same | inside
        · exact same ▸ above
        · exact top other inside
    · obtain ⟨m, found, origin, above, top⟩ := ih best
      refine ⟨m, ?_, ?_, above, ?_⟩
      · simp only [List.foldl_cons, newer, if_neg later, found]
      · exact origin.imp_right (List.mem_cons_of_mem _)
      · intro other member
        rcases List.mem_cons.mp member with same | inside
        · rw [same]
          omega
        · exact top other inside

variable {manifests : List (ParquetManifest F)} {m : ParquetManifest F}

theorem readLatest_spec (found : readLatest manifests = some m) :
    m ∈ manifests ∧ ∀ other ∈ manifests, other.version ≤ m.version := by
  cases manifests with
  | nil => cases found
  | cons head rest =>
    obtain ⟨last, folded, origin, above, top⟩ := foldl_newer rest head
    have same : last = m := by
      rw [readLatest, List.foldl_cons, newer, folded] at found
      exact Option.some.inj found
    subst same
    constructor
    · rcases origin with same | member
      · exact same ▸ List.mem_cons_self
      · exact List.mem_cons_of_mem _ member
    · intro other member
      rcases List.mem_cons.mp member with same | inside
      · exact same ▸ above
      · exact top other inside

theorem readLatest_isSome (member : m ∈ manifests) : ∃ latest, readLatest manifests = some latest := by
  cases manifests with
  | nil => cases member
  | cons head rest =>
    obtain ⟨last, folded, -⟩ := foldl_newer rest head
    exact ⟨last, by rw [readLatest, List.foldl_cons, newer, folded]⟩

theorem readLatest_eq (member : m ∈ manifests) (top : ∀ other ∈ manifests, other ≠ m → other.version < m.version) :
    readLatest manifests = some m := by
  obtain ⟨latest, found⟩ := readLatest_isSome member
  obtain ⟨inside, above⟩ := readLatest_spec found
  by_cases same : latest = m
  · rw [found, same]
  · have below := top latest inside same
    have reached := above m member
    omega

/-- One file per version, as the name `_bbdb_manifest.N` says. -/
def Distinct (manifests : List (ParquetManifest F)) : Prop :=
  ∀ one ∈ manifests, ∀ other ∈ manifests, one.version = other.version → one = other

theorem Distinct.write (distinct : Distinct manifests) (m : ParquetManifest F) : Distinct (write manifests m) := by
  intro one first other second same
  simp only [ParquetManifest.write, List.mem_cons, List.mem_filter, decide_eq_true_eq] at first second
  rcases first with first | ⟨first, apart⟩
  · rcases second with second | ⟨second, apart⟩
    · rw [first, second]
    · rw [first] at same
      exact absurd same.symm apart
  · rcases second with second | ⟨second, -⟩
    · rw [second] at same
      exact absurd same apart
    · exact distinct one first other second same

theorem Distinct.filter (distinct : Distinct manifests)
    (keep : ParquetManifest F → Bool) : Distinct (manifests.filter keep) := by
  intro one first other second same
  exact distinct one (List.mem_of_mem_filter first) other (List.mem_of_mem_filter second) same

/-- A version above every version present becomes the one read. -/
theorem readLatest_write
    (above : ∀ other ∈ manifests, other.version < m.version) : readLatest (write manifests m) = some m := by
  apply readLatest_eq List.mem_cons_self
  intro other member different
  rcases List.mem_cons.mp member with same | inside
  · exact absurd same different
  · exact above other (List.mem_of_mem_filter inside)

theorem readLatest_filter (distinct : Distinct manifests) (found : readLatest manifests = some m)
    {keep : ParquetManifest F → Bool} (kept : keep m = true) : readLatest (manifests.filter keep) = some m := by
  obtain ⟨member, top⟩ := readLatest_spec found
  apply readLatest_eq (List.mem_filter.mpr ⟨member, kept⟩)
  intro other inside different
  have present := List.mem_of_mem_filter inside
  rcases Nat.lt_or_eq_of_le (top other present) with below | same
  · exact below
  · exact absurd (distinct other present m member same) different

end ParquetManifest

end BumbleBee.External
