import BumbleBee.External.WriteRead

/-!
External writes one file-system step at a time. A statement works through the steps
its `Finalize` or the vacuum sweep performs; an exception or a crash drops the rest.
The newest manifest keeps naming complete files with the rows from before, until the
rename puts in place one that names complete files with the rows after.
-/

namespace BumbleBee.External
open Library.Transition Function BumbleBee.Types

variable {R : Type}

/-- A part file on disk; it has its rows once the footer is written and synced. -/
inductive StoredPart (R : Type) where
  | unfinished
  | complete (file : PartFile R)
  deriving DecidableEq

def StoredPart.content : StoredPart R → Option (PartFile R)
  | .unfinished => none
  | .complete file => some file

/-- A temporary manifest is `none` until its text is written and synced. -/
structure TableFolder (R : Type) where
  files : Nat → Option (StoredPart R)
  nextFile : Nat
  temps : Nat → Option (Option (ParquetManifest Nat))
  manifests : List (ParquetManifest Nat)

inductive FileStep (R : Type) where
  | createPart (name : Nat)
  | finishPart (name : Nat) (file : PartFile R)
  | removePart (name : Nat)
  | createTemp (version : Nat)
  | finishTemp (manifest : ParquetManifest Nat)
  | rename (version : Nat)
  | unlink (name : Nat)
  | unlinkTemp (version : Nat)
  | unlinkManifest (version : Nat)
  deriving DecidableEq

namespace TableFolder

/-- The part files a reader can open. -/
def readable (d : TableFolder R) (name : Nat) : Option (PartFile R) := (d.files name).bind StoredPart.content

def table (d : TableFolder R) (m : ParquetManifest Nat) : ExternalTable R := ⟨d.readable, d.nextFile, m⟩

/-- Renaming an unfinished text into place would leave a folder that no later read gets through. -/
def apply (d : TableFolder R) : FileStep R → TableFolder R
  | .createPart name =>
    { d with files := update d.files name (some .unfinished), nextFile := max d.nextFile (name + 1) }
  | .finishPart name file =>
    { d with files := update d.files name ((d.files name).map fun _ => .complete file) }
  | .removePart name => { d with files := update d.files name none }
  | .createTemp version => { d with temps := update d.temps version (some none) }
  | .finishTemp m =>
    { d with temps := update d.temps m.version ((d.temps m.version).map fun _ => some m) }
  | .rename version =>
    match d.temps version with
    | none => d
    | some none => { d with manifests := [] }
    | some (some m) =>
      { d with temps := update d.temps version none, manifests := ParquetManifest.write d.manifests m }
  | .unlink name => { d with files := update d.files name none }
  | .unlinkTemp version => { d with temps := update d.temps version none }
  | .unlinkManifest version => { d with manifests := d.manifests.filter (·.version ≠ version) }

def applyAll (d : TableFolder R) (steps : List (FileStep R)) : TableFolder R := steps.foldl apply d

end TableFolder

/-- `ParquetManifestIO::Write`. -/
def commitSteps (next : ParquetManifest Nat) : List (FileStep R) :=
  [.createTemp next.version, .finishTemp next, .rename next.version]

def insertSteps (t : ExternalTable R) (chunks : List (List R)) : List (FileStep R) :=
  let written := (chunks.foldl PartFileWriter.append .new).finish
  [.createPart t.nextFile, .finishPart t.nextFile written.1] ++
    commitSteps ⟨t.manifest.version + 1, t.manifest.entries ++ [⟨t.nextFile, written.2⟩]⟩

/-- The steps of the loop over the manifest's files, with the part file each touched one is streamed into. -/
def rewriteSteps (edit : Edit R) (touched : Nat → Bool) :
    Nat → List (ManifestEntry Nat) → Rewriting R → List (FileStep R)
  | _, [], _ => []
  | fileIdx, entry :: rest, r =>
    if touched fileIdx then
      match r.files entry.fileName with
      | none => []
      | some file =>
        let written := (streamFile edit fileIdx 0 .new file.chunks).finish
        .createPart r.nextFile :: .finishPart r.nextFile written.1 ::
          if 0 < written.2 then
            rewriteSteps edit touched (fileIdx + 1) rest
              ⟨update r.files r.nextFile (some written.1), r.nextFile + 1,
                r.entries ++ [⟨r.nextFile, written.2⟩], r.replaced ++ [entry.fileName]⟩
          else
            .removePart r.nextFile :: rewriteSteps edit touched (fileIdx + 1) rest
              ⟨r.files, r.nextFile + 1, r.entries, r.replaced ++ [entry.fileName]⟩
    else rewriteSteps edit touched (fileIdx + 1) rest { r with entries := r.entries ++ [entry] }

/-- `RewriteTouchedFiles`: the fresh part files, the commit, then the files it replaced. -/
def rewriteTouchedSteps (t : ExternalTable R) (edit : Edit R) (touched : Nat → Bool) : List (FileStep R) :=
  rewriteSteps edit touched 0 t.manifest.entries ⟨t.files, t.nextFile, [], []⟩ ++
    match rewriteFiles edit touched 0 t.manifest.entries ⟨t.files, t.nextFile, [], []⟩ with
    | none => []
    | some r => commitSteps ⟨t.manifest.version + 1, r.entries⟩ ++ r.replaced.map .unlink

def finalizeSteps (t : ExternalTable R) : Collected R → List (FileStep R)
  | .rows chunks => if chunks.flatten.length = 0 then [] else insertSteps t chunks
  | .rids rids =>
    if rids.length = 0 then []
    else rewriteTouchedSteps t (deleteEdit rids) fun fileIdx => rids.any (ridFileIdx · == fileIdx)
  | .replacements batch =>
    if batch.length = 0 then []
    else rewriteTouchedSteps t (updateEdit batch) fun fileIdx => batch.any (ridFileIdx ·.1 == fileIdx)

inductive FolderEntry where
  | part (name : Nat)
  | temp (version : Nat)
  | manifest (version : Nat)

/-- What the vacuum sweep does at one entry of its directory listing. -/
def sweepEntry (m : ParquetManifest Nat) : FolderEntry → Option (FileStep R)
  | .part name => if name ∈ m.entries.map ManifestEntry.fileName then none else some (.unlink name)
  | .temp version => some (.unlinkTemp version)
  | .manifest version => if version = m.version then none else some (.unlinkManifest version)

/-- A write with what it has buffered, or a vacuum with the listing of the folder. -/
inductive FolderStatement (R : Type) where
  | write (collected : Collected R)
  | vacuum (listing : List FolderEntry)

namespace FolderStatement

def steps (t : ExternalTable R) : FolderStatement R → List (FileStep R)
  | .write collected => finalizeSteps t collected
  | .vacuum listing => listing.filterMap (sweepEntry t.manifest)

def readers (t : ExternalTable R) : List (PartFile R) := (openReaders t.files t.manifest.entries).getD []

/-- The rows the statement is to leave: every row of the table edited under its own position. -/
def effect (t : ExternalTable R) : FolderStatement R → List R
  | .write (.rows chunks) => t.rows ++ chunks.flatten
  | .write (.rids rids) => editedRows (deleteEdit rids) (fun _ => true) 0 (readers t)
  | .write (.replacements batch) => editedRows (updateEdit batch) (fun _ => true) 0 (readers t)
  | .vacuum _ => t.rows

end FolderStatement

/-- `before` and `after` are the rows around the last statement started; `interrupted` says it was cut short. -/
structure FolderRun (R : Type) where
  folder : TableFolder R
  todo : List (FileStep R)
  before : List R
  after : List R
  interrupted : Bool

/-- `ignoreError` is a removal that fails into an `error_code`, `interrupt` an exception or a crash. -/
inductive FolderAction (R : Type) where
  | start (statement : FolderStatement R)
  | fileStep
  | ignoreError
  | interrupt

def FileStep.errorIgnored : FileStep R → Bool
  | .unlink _ | .unlinkTemp _ | .unlinkManifest _ => true
  | _ => false

namespace FolderRun

def start (s : FolderRun R) (statement : FolderStatement R) : Option (FolderRun R) :=
  match s.todo, ParquetManifest.readLatest s.folder.manifests with
  | [], some m =>
    let t := s.folder.table m
    some { s with todo := statement.steps t, before := t.rows, after := statement.effect t, interrupted := false }
  | _, _ => none

def step (s : FolderRun R) : FolderAction R → Option (FolderRun R)
  | .start statement => s.start statement
  | .fileStep =>
    match s.todo with
    | [] => none
    | next :: rest => some { s with folder := s.folder.apply next, todo := rest }
  | .ignoreError =>
    match s.todo with
    | [] => none
    | next :: rest => if next.errorIgnored then some { s with todo := rest } else none
  | .interrupt =>
    match s.todo with
    | [] => none
    | _ :: _ => some { s with todo := [], interrupted := true }

end FolderRun

/-- The newest manifest names complete files, each once, and they hold the rows. -/
structure TableFolder.Intact (d : TableFolder R) (rows : List R) (m : ParquetManifest Nat) : Prop where
  newest : ParquetManifest.readLatest d.manifests = some m
  distinct : ParquetManifest.Distinct d.manifests
  listed : ∀ entry ∈ m.entries, ∃ file, d.files entry.fileName = some (.complete file)
  apart : (m.entries.map ManifestEntry.fileName).Nodup
  fresh : ∀ name, d.nextFile ≤ name → d.files name = none
  rows : contents d.readable m.entries = rows

/-- A table at rest; the folder may hold anything else that earlier crashes have left. -/
structure FolderRun.Initial (s : FolderRun R) : Prop where
  idle : s.todo = []
  before : s.before = s.after
  intact : ∃ m, s.folder.Intact s.after m

def folderRuns (R : Type) : System (FolderRun R) (FolderAction R) Empty where
  init := FolderRun.Initial
  step s a := (s.step a).map fun next => (next, [])

section Sparing

variable {d : TableFolder R} {rows : List R} {m : ParquetManifest Nat} {step : FileStep R}

/-- A step that neither writes nor removes what the manifest stands for. -/
def FileStep.Spares (m : ParquetManifest Nat) : FileStep R → Prop
  | .createPart name | .finishPart name _ | .removePart name | .unlink name =>
    ∀ entry ∈ m.entries, entry.fileName ≠ name
  | .createTemp _ | .finishTemp _ | .unlinkTemp _ => True
  | .rename _ => False
  | .unlinkManifest version => version ≠ m.version

variable {entry : ManifestEntry Nat}

theorem TableFolder.files_spared (spares : step.Spares m) (member : entry ∈ m.entries) :
    (d.apply step).files entry.fileName = d.files entry.fileName := by
  cases step with
  | createPart name | finishPart name file | removePart name | unlink name =>
    exact update_of_ne (spares entry member) _ _
  | rename version => exact False.elim spares
  | _ => rfl

theorem update_fresh {files : Nat → Option (StoredPart R)} {name low : Nat} {part : Option (StoredPart R)}
    (fresh : ∀ other, low ≤ other → files other = none) (kept : low ≤ name → part = none) (other : Nat)
    (above : low ≤ other) : update files name part other = none := by
  by_cases same : other = name
  · rw [same, update_self]
    exact kept (same ▸ above)
  · rw [update_of_ne same]
    exact fresh other above

theorem TableFolder.fresh_apply (fresh : ∀ name, d.nextFile ≤ name → d.files name = none) (step : FileStep R) :
    ∀ name, (d.apply step).nextFile ≤ name → (d.apply step).files name = none := by
  cases step with
  | createPart name =>
    apply update_fresh
    · intro other above
      exact fresh other (le_trans (le_max_left _ _) above)
    · intro above
      have drawn := le_trans (le_max_right d.nextFile (name + 1)) above
      omega
  | finishPart name file =>
    apply update_fresh fresh
    intro above
    rw [fresh name above, Option.map_none]
  | removePart name | unlink name => exact update_fresh fresh fun _ => rfl
  | rename version =>
    unfold apply
    dsimp only
    split <;> exact fresh
  | _ => exact fresh

theorem TableFolder.manifests_spared (distinct : ParquetManifest.Distinct d.manifests)
    (newest : ParquetManifest.readLatest d.manifests = some m) (spares : step.Spares m) :
    ParquetManifest.readLatest (d.apply step).manifests = some m ∧
      ParquetManifest.Distinct (d.apply step).manifests := by
  cases step with
  | unlinkManifest version =>
    exact ⟨ParquetManifest.readLatest_filter distinct newest (decide_eq_true (Ne.symm spares)), distinct.filter _⟩
  | rename version => exact False.elim spares
  | _ => exact ⟨newest, distinct⟩

theorem TableFolder.Intact.spared (intact : d.Intact rows m) (spares : step.Spares m) :
    (d.apply step).Intact rows m := by
  obtain ⟨newest, distinct⟩ := TableFolder.manifests_spared intact.distinct intact.newest spares
  refine ⟨newest, distinct, ?_, intact.apart, TableFolder.fresh_apply intact.fresh step, ?_⟩
  · intro entry member
    rw [TableFolder.files_spared spares member]
    exact intact.listed entry member
  · rw [← intact.rows]
    apply contents_congr
    intro entry member
    rw [TableFolder.readable, TableFolder.readable, TableFolder.files_spared spares member]

end Sparing

/-- What the folder has when only the rename into `next` is missing. -/
structure TableFolder.Ready (d : TableFolder R) (rows : List R) (next : ParquetManifest Nat) : Prop where
  text : d.temps next.version = some (some next)
  above : ∀ other ∈ d.manifests, other.version < next.version
  distinct : ParquetManifest.Distinct d.manifests
  listed : ∀ entry ∈ next.entries, ∃ file, d.files entry.fileName = some (.complete file)
  apart : (next.entries.map ManifestEntry.fileName).Nodup
  fresh : ∀ name, d.nextFile ≤ name → d.files name = none
  rows : contents d.readable next.entries = rows

variable {next : ParquetManifest Nat}

theorem TableFolder.Ready.rename {d : TableFolder R} {rows : List R}
    (ready : d.Ready rows next) : (d.apply (.rename next.version)).Intact rows next := by
  have renamed : d.apply (.rename next.version) =
      { d with temps := update d.temps next.version none,
               manifests := ParquetManifest.write d.manifests next } := by
    rw [apply, ready.text]
  rw [renamed]
  exact ⟨ParquetManifest.readLatest_write ready.above, ready.distinct.write next, ready.listed, ready.apart,
    ready.fresh, ready.rows⟩

/-- Where a statement stands: past its commit, on the way to it, or cut short before it. -/
inductive Secured (before after : List R) : Bool → TableFolder R → List (FileStep R) → Prop
  | settled {interrupted : Bool} {d : TableFolder R} {todo : List (FileStep R)} {m : ParquetManifest Nat}
      (intact : d.Intact after m) (spares : ∀ step ∈ todo, step.Spares m) : Secured before after interrupted d todo
  | preparing {interrupted : Bool} {d : TableFolder R} {todo rest : List (FileStep R)} {m next : ParquetManifest Nat}
      (intact : d.Intact before m) (spares : ∀ step ∈ todo, step.Spares m ∧ step.errorIgnored = false)
      (ready : (d.applyAll todo).Ready after next) (later : ∀ step ∈ rest, step.Spares next) :
      Secured before after interrupted d (todo ++ .rename next.version :: rest)
  | abandoned {d : TableFolder R} {m : ParquetManifest Nat} (intact : d.Intact before m) :
      Secured before after true d []

section Steps

variable {before after : List R} {interrupted : Bool} {d : TableFolder R} {next : FileStep R}
  {rest : List (FileStep R)}

theorem Secured.goesOn (secured : Secured before after interrupted d (next :: rest)) :
    Secured before after interrupted (d.apply next) rest ∧
      (next.errorIgnored = true → Secured before after interrupted d rest) := by
  generalize program : next :: rest = steps at secured
  cases secured with
  | @settled _ _ _ m intact spares =>
    subst program
    have later := fun step member => spares step (List.mem_cons_of_mem next member)
    exact ⟨.settled (intact.spared (spares next List.mem_cons_self)) later, fun _ => .settled intact later⟩
  | @preparing _ _ todo later m target intact spares ready remaining =>
    cases todo with
    | nil =>
      obtain ⟨rfl, rfl⟩ := List.cons.inj program
      exact ⟨.settled ready.rename remaining, fun ignored => by cases ignored⟩
    | cons first todo =>
      obtain ⟨rfl, rfl⟩ := List.cons.inj program
      obtain ⟨spared, reported⟩ := spares next List.mem_cons_self
      refine ⟨.preparing (intact.spared spared) ?_ ready remaining, fun ignored => by simp [reported] at ignored⟩
      exact fun step member => spares step (List.mem_cons_of_mem _ member)
  | abandoned intact => cases program

variable {todo : List (FileStep R)}

theorem Secured.interrupt (secured : Secured before after interrupted d todo) :
    Secured before after true d [] := by
  cases secured with
  | settled intact spares => exact .settled intact (fun _ member => absurd member List.not_mem_nil)
  | preparing intact spares ready remaining => exact .abandoned intact
  | abandoned intact => exact .abandoned intact

end Steps

section Programs

variable {before after : List R} {d : TableFolder R} {m : ParquetManifest Nat}

theorem TableFolder.readable_eq_some {name : Nat} {file : PartFile R} :
    d.readable name = some file ↔ d.files name = some (.complete file) := by
  rw [readable, Option.bind_eq_some_iff]
  constructor
  · rintro ⟨part, found, content⟩
    cases part with
    | unfinished => cases content
    | complete other =>
      rw [found, Option.some.inj content]
  · intro found
    exact ⟨_, found, rfl⟩

theorem TableFolder.fresh_applyAll (fresh : ∀ name, d.nextFile ≤ name → d.files name = none)
    (steps : List (FileStep R)) :
    ∀ name, (d.applyAll steps).nextFile ≤ name → (d.applyAll steps).files name = none := by
  induction steps generalizing d with
  | nil => exact fresh
  | cons step steps ih => exact ih (fresh_apply fresh step)

theorem TableFolder.Intact.sound (intact : d.Intact before m) : (d.table m).Sound where
  listed entry member := by
    obtain ⟨file, found⟩ := intact.listed entry member
    show d.readable entry.fileName ≠ none
    rw [readable_eq_some.mpr found]
    exact Option.some_ne_none file
  fresh name above := by
    show d.readable name = none
    rw [readable, intact.fresh name above, Option.bind_none]
  apart := intact.apart

/-- Fresh part files, then the commit of a manifest that lists them, then removals it does not list. -/
theorem Secured.commit (intact : d.Intact before m) {parts rest : List (FileStep R)}
    (version : next.version = m.version + 1) (spares : ∀ step ∈ parts, step.Spares m ∧ step.errorIgnored = false)
    (quiet : (d.applyAll parts).manifests = d.manifests)
    (listed : ∀ entry ∈ next.entries, (d.applyAll parts).readable entry.fileName ≠ none)
    (apart : (next.entries.map ManifestEntry.fileName).Nodup)
    (rows : contents (d.applyAll parts).readable next.entries = after) (later : ∀ step ∈ rest, step.Spares next)
    (interrupted : Bool) : Secured before after interrupted d (parts ++ (commitSteps next ++ rest)) := by
  have program : parts ++ (commitSteps next ++ rest) =
      (parts ++ [.createTemp next.version, .finishTemp next]) ++ .rename next.version :: rest := by
    rw [List.append_assoc]
    rfl
  have ran : d.applyAll (parts ++ [.createTemp next.version, .finishTemp next]) =
      ((d.applyAll parts).apply (.createTemp next.version)).apply (.finishTemp next) := by
    rw [TableFolder.applyAll, List.foldl_append]
    rfl
  rw [program]
  refine .preparing intact ?_ ?_ later
  · intro step member
    rcases List.mem_append.mp member with part | text
    · exact spares step part
    · rcases List.mem_cons.mp text with rfl | last
      · exact ⟨trivial, rfl⟩
      · rw [List.mem_singleton.mp last]
        exact ⟨trivial, rfl⟩
  · rw [ran]
    obtain ⟨-, top⟩ := ParquetManifest.readLatest_spec intact.newest
    refine ⟨?_, ?_, ?_, ?_, apart, TableFolder.fresh_applyAll intact.fresh parts, rows⟩
    · simp [TableFolder.apply]
    · intro other member
      have bound := top other (quiet ▸ member)
      omega
    · show ParquetManifest.Distinct (d.applyAll parts).manifests
      rw [quiet]
      exact intact.distinct
    · intro entry member
      obtain ⟨file, found⟩ := Option.ne_none_iff_exists'.mp (listed entry member)
      exact ⟨file, TableFolder.readable_eq_some.mp found⟩

/-- A file created and finished under a fresh name. -/
theorem TableFolder.readable_written (d : TableFolder R) (name : Nat) (file : PartFile R) :
    ((d.apply (.createPart name)).apply (.finishPart name file)).readable =
      update d.readable name (some file) := by
  funext other
  by_cases same : other = name
  · subst same
    simp only [readable, apply, update_self, Option.map_some, Option.bind_some, StoredPart.content]
  · rw [update_of_ne same]
    simp only [readable, apply, update_of_ne same]

theorem TableFolder.readable_removed (d : TableFolder R) (name : Nat) :
    (d.apply (.removePart name)).readable = update d.readable name none := by
  funext other
  by_cases same : other = name
  · subst same
    simp [readable, apply]
  · simp only [readable, apply, update_of_ne same]

/-- A folder with the files of a rewrite underway. -/
structure TableFolder.Holds (d : TableFolder R) (r : Rewriting R) : Prop where
  files : d.readable = r.files
  nextFile : d.nextFile = r.nextFile

theorem TableFolder.Holds.rewrite {r done : Rewriting R} (edit : Edit R) (touched : Nat → Bool) (fileIdx : Nat)
    (entries : List (ManifestEntry Nat)) (holds : d.Holds r)
    (fresh : ∀ name, d.nextFile ≤ name → d.files name = none)
    (older : ∀ entry ∈ m.entries, entry.fileName < r.nextFile)
    (ran : rewriteFiles edit touched fileIdx entries r = some done) :
    (d.applyAll (rewriteSteps edit touched fileIdx entries r)).Holds done ∧
      (d.applyAll (rewriteSteps edit touched fileIdx entries r)).manifests = d.manifests ∧
      ∀ step ∈ rewriteSteps edit touched fileIdx entries r, step.Spares m ∧ step.errorIgnored = false := by
  induction entries generalizing fileIdx d r with
  | nil =>
    cases ran
    exact ⟨holds, rfl, fun _ member => absurd member List.not_mem_nil⟩
  | cons entry entries ih =>
    rw [rewriteFiles] at ran
    rw [rewriteSteps]
    by_cases touches : touched fileIdx = true
    · rw [if_pos touches] at ran ⊢
      cases found : r.files entry.fileName with
      | none =>
        rw [found] at ran
        cases ran
      | some file =>
        simp only [found] at ran ⊢
        generalize (streamFile edit fileIdx 0 .new file.chunks).finish = written at ran ⊢
        have apart : ∀ entry ∈ m.entries, entry.fileName ≠ r.nextFile := by
          intro entry member
          exact Nat.ne_of_lt (older entry member)
        have below : ∀ entry ∈ m.entries, entry.fileName < r.nextFile + 1 := by
          intro entry member
          exact Nat.lt_succ_of_lt (older entry member)
        have names : max d.nextFile (r.nextFile + 1) = r.nextFile + 1 := by
          rw [holds.nextFile]
          exact max_eq_right (Nat.le_succ _)
        have finished := d.readable_written r.nextFile written.1
        have refreshed := fresh_apply (fresh_apply fresh (.createPart r.nextFile)) (.finishPart r.nextFile written.1)
        by_cases some' : 0 < written.2
        · rw [if_pos some'] at ran ⊢
          have files : ((d.apply (.createPart r.nextFile)).apply (.finishPart r.nextFile written.1)).readable =
              update r.files r.nextFile (some written.1) := by rw [finished, holds.files]
          obtain ⟨holds', quiet, spares⟩ := ih (fileIdx + 1) ⟨files, names⟩ refreshed below ran
          exact ⟨holds', quiet, List.forall_mem_cons.mpr ⟨⟨apart, rfl⟩,
            List.forall_mem_cons.mpr ⟨⟨apart, rfl⟩, spares⟩⟩⟩
        · rw [if_neg some'] at ran ⊢
          have absent : d.readable r.nextFile = none := by
            rw [readable, fresh _ (Nat.le_of_eq holds.nextFile), Option.bind_none]
          have files : (((d.apply (.createPart r.nextFile)).apply (.finishPart r.nextFile written.1)).apply
              (.removePart r.nextFile)).readable = r.files := by
            rw [readable_removed, finished, update_idem, update_eq_self_iff.mpr absent.symm, holds.files]
          obtain ⟨holds', quiet, spares⟩ :=
            ih (r := ⟨r.files, r.nextFile + 1, r.entries, r.replaced ++ [entry.fileName]⟩) (fileIdx + 1)
              ⟨files, names⟩ (fresh_apply refreshed (.removePart r.nextFile)) below ran
          exact ⟨holds', quiet, List.forall_mem_cons.mpr ⟨⟨apart, rfl⟩, List.forall_mem_cons.mpr ⟨⟨apart, rfl⟩,
            List.forall_mem_cons.mpr ⟨⟨apart, rfl⟩, spares⟩⟩⟩⟩
    · rw [if_neg touches] at ran ⊢
      exact ih (fileIdx + 1) ⟨holds.files, holds.nextFile⟩ fresh older ran

section
variable (intact : d.Intact before m)
include intact

theorem TableFolder.Intact.older {entry : ManifestEntry Nat} (member : entry ∈ m.entries) :
    entry.fileName < d.nextFile := by
  obtain ⟨file, found⟩ := intact.listed entry member
  apply Nat.lt_of_not_le
  intro above
  rw [intact.fresh _ above] at found
  cases found

theorem TableFolder.Intact.opened :
    m.entries.map (fun entry => d.readable entry.fileName) = (FolderStatement.readers (d.table m)).map some := by
  obtain ⟨readers, opened⟩ := openReaders_isSome intact.sound.listed
  have same : FolderStatement.readers (d.table m) = readers := by
    rw [FolderStatement.readers, opened, Option.getD_some]
  rw [same]
  exact openReaders_eq opened

theorem secured_rewrite {edit : Edit R} {touched : Nat → Bool}
    (effect : editedRows edit touched 0 (FolderStatement.readers (d.table m)) = after) :
    Secured before after false d (rewriteTouchedSteps (d.table m) edit touched) := by
  obtain ⟨done, ran, along, rows⟩ := rewriteFiles_spec edit touched 0 m.entries
    (FolderStatement.readers (d.table m)) ⟨d.readable, d.nextFile, [], []⟩ intact.sound.along intact.opened
  obtain ⟨holds, quiet, spares⟩ := TableFolder.Holds.rewrite edit touched 0 m.entries ⟨rfl, rfl⟩ intact.fresh
    (fun entry member => intact.older member) ran
  have program : rewriteTouchedSteps (d.table m) edit touched =
      rewriteSteps edit touched 0 m.entries ⟨d.readable, d.nextFile, [], []⟩ ++
        (commitSteps ⟨m.version + 1, done.entries⟩ ++ done.replaced.map .unlink) := by
    simp only [rewriteTouchedSteps, TableFolder.table, ran]
  rw [program]
  refine Secured.commit intact rfl spares quiet ?_ ?_ ?_ ?_ false
  · intro entry member
    rw [holds.files]
    exact along.listed entry member
  · have apart := along.apart
    rw [List.append_nil] at apart
    exact apart
  · rw [holds.files, rows, effect]
    rfl
  · intro step member
    obtain ⟨name, gone, rfl⟩ := List.mem_map.mp member
    intro entry listed same
    exact (along.replaced name gone).2.1 (same ▸ List.mem_map_of_mem listed)

theorem secured_insert (chunks : List (List R)) :
    Secured before (before ++ chunks.flatten) false d (insertSteps (d.table m) chunks) := by
  obtain ⟨sound, rows⟩ := appendRows_spec intact.sound chunks
  have program : insertSteps (d.table m) chunks =
      [.createPart d.nextFile, .finishPart d.nextFile (chunks.foldl PartFileWriter.append .new).finish.1] ++
        (commitSteps (appendRows (d.table m) chunks).manifest ++ []) := by
    rw [List.append_nil]
    rfl
  have apart : ∀ entry ∈ m.entries, entry.fileName ≠ d.nextFile := by
    intro entry member
    exact Nat.ne_of_lt (intact.older member)
  have files : (d.applyAll [.createPart d.nextFile, .finishPart d.nextFile
      (chunks.foldl PartFileWriter.append .new).finish.1]).readable = (appendRows (d.table m) chunks).files :=
    d.readable_written d.nextFile _
  rw [program]
  refine Secured.commit intact rfl ?_ rfl ?_ sound.apart ?_ (fun _ member => absurd member List.not_mem_nil) false
  · exact List.forall_mem_cons.mpr ⟨⟨apart, rfl⟩, List.forall_mem_singleton.mpr ⟨apart, rfl⟩⟩
  · rw [files]
    exact sound.listed
  · rw [files, ← intact.rows]
    exact rows

theorem secured_vacuum (listing : List FolderEntry) :
    Secured before before false d (listing.filterMap (sweepEntry m)) := by
  apply Secured.settled intact
  intro step member
  obtain ⟨entry, -, swept⟩ := List.mem_filterMap.mp member
  cases entry with
  | part name =>
    rw [sweepEntry] at swept
    split at swept
    · cases swept
    · next unlisted =>
      cases swept
      intro entry listed same
      exact unlisted (same ▸ List.mem_map_of_mem listed)
  | temp version =>
    cases swept
    trivial
  | manifest version =>
    rw [sweepEntry] at swept
    split at swept
    · cases swept
    · next other =>
      cases swept
      exact other

theorem Secured.rest (same : before = after) : Secured before after false d [] :=
  .settled (same ▸ intact) fun _ member => absurd member List.not_mem_nil

theorem secured_edit {edit : Edit R} {touched : Nat → Bool} {count : Nat}
    (untouched : ∀ k, touched k = false → ∀ i row, edit k i row = some row)
    (nothing : count = 0 → ∀ k, touched k = false) :
    Secured before (editedRows edit (fun _ => true) 0 (FolderStatement.readers (d.table m))) false d
      (if count = 0 then [] else rewriteTouchedSteps (d.table m) edit touched) := by
  split
  · next empty =>
    apply Secured.rest intact
    rw [editedRows_id fun k i row => untouched k (nothing empty k) i row, ← contents_eq_of_opened intact.opened,
      intact.rows]
  · exact secured_rewrite intact (editedRows_all untouched 0 _)

theorem secured_start (statement : FolderStatement R) :
    Secured (d.table m).rows (statement.effect (d.table m)) false d (statement.steps (d.table m)) := by
  have rows : (d.table m).rows = before := intact.rows
  rw [rows]
  cases statement with
  | vacuum listing =>
    rw [FolderStatement.effect, rows]
    exact secured_vacuum intact listing
  | write collected =>
    cases collected with
    | rows chunks =>
      rw [FolderStatement.effect, rows]
      show Secured _ _ _ _ (if chunks.flatten.length = 0 then [] else insertSteps (d.table m) chunks)
      split
      · next empty =>
        apply Secured.rest intact
        rw [List.length_eq_zero_iff.mp empty, List.append_nil]
      · exact secured_insert intact chunks
    | rids rids =>
      refine secured_edit intact (fun _ => deleteEdit_untouched) fun empty k => ?_
      rw [List.length_eq_zero_iff.mp empty]
      rfl
    | replacements batch =>
      refine secured_edit intact (fun _ => updateEdit_untouched) fun empty k => ?_
      rw [List.length_eq_zero_iff.mp empty]
      rfl

end

end Programs

section Runs

variable {s : FolderRun R} {todo : List (FileStep R)}

def FolderRun.Secured (s : FolderRun R) : Prop := External.Secured s.before s.after s.interrupted s.folder s.todo

/-- Whatever a statement stands at, the newest manifest is intact. -/
theorem Secured.intact {before after : List R} {interrupted : Bool} {d : TableFolder R}
    (secured : Secured before after interrupted d todo) :
    ∃ m rows, d.Intact rows m ∧ (rows = before ∨ rows = after) ∧
      (todo = [] → interrupted = false → rows = after) ∧
      ∀ step, todo.head? = some step → step.Spares m ∨ ∃ version, step = .rename version := by
  cases secured with
  | @settled _ _ _ m intact spares =>
    refine ⟨m, after, intact, .inr rfl, fun _ _ => rfl, ?_⟩
    intro step first
    exact .inl (spares step (List.mem_of_head? first))
  | @preparing _ _ todo rest m next intact spares ready later =>
    refine ⟨m, before, intact, .inl rfl, ?_, ?_⟩
    · intro empty
      exact absurd empty (List.append_ne_nil_of_right_ne_nil _ (List.cons_ne_nil _ _))
    · intro step first
      cases todo with
      | nil => exact .inr ⟨next.version, (Option.some.inj first).symm⟩
      | cons head todo =>
        cases first
        exact .inl (spares _ List.mem_cons_self).1
  | @abandoned _ m intact =>
    refine ⟨m, before, intact, .inl rfl, fun _ done => absurd done Bool.noConfusion, ?_⟩
    intro step first
    cases first

theorem FolderRun.Secured.step {next : FolderRun R} {a : FolderAction R} (secured : s.Secured)
    (taken : s.step a = some next) : next.Secured := by
  unfold FolderRun.Secured at secured
  revert taken
  fun_cases FolderRun.step s a
  · next statement =>
    fun_cases FolderRun.start s statement <;> rintro ⟨⟩
    next m newest idle t =>
    obtain ⟨other, rows, intact, -⟩ := Secured.intact secured
    cases intact.newest.symm.trans newest
    exact secured_start intact statement
  · rintro ⟨⟩
  · next first rest todo =>
    rintro ⟨⟩
    rw [todo] at secured
    exact (Secured.goesOn secured).1
  · rintro ⟨⟩
  · next first rest todo ignored =>
    rintro ⟨⟩
    rw [todo] at secured
    exact (Secured.goesOn secured).2 ignored
  · rintro ⟨⟩
  · rintro ⟨⟩
  · rintro ⟨⟩
    exact Secured.interrupt secured

theorem secured_run {log : List Empty} (run : Run (folderRuns R) always log s) : s.Secured := by
  refine Run.invariant (I := fun _ s => s.Secured) ?_ ?_ run
  · intro s initial
    obtain ⟨m, intact⟩ := initial.intact
    unfold FolderRun.Secured
    rw [initial.idle, initial.before]
    exact .settled intact fun _ member => absurd member List.not_mem_nil
  · intro log s next a events _ secured _ taken
    obtain ⟨after, moved, same⟩ := Option.map_eq_some_iff.mp taken
    cases same
    exact secured.step moved

end Runs

/-- At every point of every sequence of statements and interruptions the newest manifest lists complete files
only; they hold the rows from before or from after the last statement, those from after if it ran to its end;
and the next step removes neither a file that manifest lists nor the manifest itself. -/
theorem external_writes_all_or_nothing {log : List Empty} {s : FolderRun R}
    (run : Run (folderRuns R) always log s) :
    ∃ m, ParquetManifest.readLatest s.folder.manifests = some m ∧
      (∀ entry ∈ m.entries, ∃ file, s.folder.files entry.fileName = some (.complete file)) ∧
      ((s.folder.table m).rows = s.before ∨ (s.folder.table m).rows = s.after) ∧
      (s.todo = [] → s.interrupted = false → (s.folder.table m).rows = s.after) ∧
      (∀ name, s.todo.head? = some (.unlink name) ∨ s.todo.head? = some (.removePart name) →
        ∀ entry ∈ m.entries, entry.fileName ≠ name) ∧
      ∀ version, s.todo.head? = some (.unlinkManifest version) → version ≠ m.version := by
  obtain ⟨m, rows, intact, around, ended, first⟩ := Secured.intact (secured_run run)
  have spared {step : FileStep R} (next : s.todo.head? = some step) (other : ∀ version, step ≠ .rename version) :
      step.Spares m := (first step next).resolve_right fun ⟨version, renames⟩ => other version renames
  refine ⟨m, intact.newest, intact.listed, ?_, ?_, ?_, ?_⟩
  · rw [← intact.rows] at around
    exact around
  · rw [← intact.rows] at ended
    exact ended
  · rintro name (removes | removes)
    · exact spared removes nofun
    · exact spared removes nofun
  · exact fun version removes => spared removes nofun

/-- What the complete part files are on disk. -/
def TableFolder.stored (ctx : ParquetContext) (schema : TableSchema) (d : TableFolder (Row Datum))
    (m : ParquetManifest Nat) : FolderTable :=
  ⟨fun name => (d.readable name).map (writeFile ctx schema), d.nextFile, m⟩

/-- If the format keeps what the part files hold, a scan of their bytes after any interruption finds the rows
from before or from after the last statement. -/
theorem interrupted_scans {ctx : ParquetContext} {schema : TableSchema} {log : List Empty}
    {s : FolderRun (Row Datum)} (run : Run (folderRuns (Row Datum)) always log s)
    (kept : ∀ name file, s.folder.readable name = some file → file.Small ∧ FileKept ctx schema file) :
    ∃ m, ParquetManifest.readLatest s.folder.manifests = some m ∧
      ((s.folder.stored ctx schema m).scan ctx schema = some s.before ∨
        (s.folder.stored ctx schema m).scan ctx schema = some s.after) := by
  obtain ⟨m, rows, intact, around, -⟩ := Secured.intact (secured_run run)
  have read : ∀ entry ∈ m.entries, ((s.folder.stored ctx schema m).view ctx schema).files entry.fileName =
      some ((s.folder.readable entry.fileName).getD ⟨[]⟩) := by
    intro entry member
    obtain ⟨file, complete⟩ := intact.listed entry member
    have holds : s.folder.readable entry.fileName = some file := TableFolder.readable_eq_some.mpr complete
    obtain ⟨small, whole⟩ := kept entry.fileName file holds
    simp only [FolderTable.view_files, TableFolder.stored, holds]
    exact (readFile_spec small).1.mpr whole
  have scanned : (s.folder.stored ctx schema m).scan ctx schema = some rows := by
    rw [FolderTable.scan_eq, openReaders_eq_mapAll, ← intact.rows]
    refine ((mapAll_rows_iff ?_).mpr read).trans (congrArg some (ExternalTable.rows_eq (s.folder.table m)).symm)
    intro entry member file same
    rw [read entry member] at same
    cases same
    rfl
  refine ⟨m, intact.newest, ?_⟩
  rw [scanned]
  exact around.imp (congrArg some) (congrArg some)

/-- A table with the rows 1 and 2 in one file, and an unfinished part file from an earlier crash. -/
def crashedFolder : FolderRun Nat where
  folder :=
    { files := fun name => if name = 0 then some (.complete ⟨[[1, 2]]⟩) else if name = 1 then some .unfinished else none
      nextFile := 2
      temps := fun _ => none
      manifests := [⟨0, [⟨0, 2⟩]⟩] }
  todo := []
  before := [1, 2]
  after := [1, 2]
  interrupted := true

theorem crashedFolder_initial : crashedFolder.Initial where
  idle := rfl
  before := rfl
  intact := by
    refine ⟨⟨0, [⟨0, 2⟩]⟩, rfl, ?_, ?_, List.nodup_singleton _, ?_, rfl⟩
    · intro one first other second _
      rw [List.mem_singleton.mp first, List.mem_singleton.mp second]
    · intro entry member
      rw [List.mem_singleton.mp member]
      exact ⟨_, rfl⟩
    · intro name above
      have later : 2 ≤ name := above
      show (if name = 0 then _ else if name = 1 then _ else none) = none
      rw [if_neg (by omega), if_neg (by omega)]

/-- A DELETE crashes before its commit, runs again, and is about to unlink the file it replaced. -/
theorem external_writes_all_or_nothing_delete :
    ∃ log s, Run (folderRuns Nat) always log s ∧ s.todo = [.unlink 0] ∧ s.after = [2] ∧
      ∃ m, ParquetManifest.readLatest s.folder.manifests = some m ∧ ∀ entry ∈ m.entries, entry.fileName ≠ 0 := by
  obtain ⟨s, log, run, shown⟩ := exec_shows (M := folderRuns Nat)
    [.start (.write (.rids [0])), .fileStep, .fileStep, .fileStep, .interrupt, .start (.write (.rids [0])), .fileStep,
      .fileStep, .fileStep, .fileStep, .fileStep]
    crashedFolder_initial (fun _ _ _ => trivial) (fun r => (r.1.todo, r.1.after)) ([.unlink 0], [2]) rfl
  simp only [Prod.mk.injEq] at shown
  obtain ⟨m, newest, -, -, -, spared, -⟩ := external_writes_all_or_nothing run
  exact ⟨log, s, run, shown.1, shown.2, m, newest, spared 0 (.inl (by rw [shown.1]; rfl))⟩

end BumbleBee.External
