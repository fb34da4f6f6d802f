import BumbleBee.External.Manifest
import BumbleBee.Library.Transition
import Mathlib.Logic.Function.Basic

/-!
`ExternalWriteGuard`: the writer lock of an external table. A guard takes the
table's mutex in its process, then the lock file of the folder with `O_EXCL`; a lock
file older than `STALE_LOCK_SECONDS` is unlinked and created again. Each file-system
call is one step, and a process may crash between any two. `inode` is the identity
of a lock file: no code looks at it, so an unlink takes whatever file has the name.
-/

namespace BumbleBee.External
open Library.Transition Function

def staleLockSeconds : Nat := 600

structure LockFile where
  inode : Nat
  mtime : Nat
  deriving DecidableEq

/-- How far the holder of a guard has come with its rewrite. -/
inductive Work (F : Type) where
  | locked
  | based (manifest : ParquetManifest F)
  | committed

inductive GuardPhase (F : Type) where
  | absent
  | opening
  | found
  | breaking (inode : Nat)
  | reopening
  | throwing
  | holding (file : LockFile) (work : Work F)
  | unlocking
  | crashed

/-- A table folder, the guards on it and the mutex each process has for the table. -/
structure Folder (G P F : Type) where
  lockFile : Option LockFile
  nextInode : Nat
  now : Nat
  manifests : List (ParquetManifest F)
  phase : G → GuardPhase F
  writeLock : P → Bool

/-- `refused` stands for an `open` that fails for another reason than `EEXIST`. -/
inductive GuardAction (G P F : Type) where
  | tryLockForWrite (g : G)
  | openLock (g : G) (refused : Bool)
  | stat (g : G)
  | unlinkStale (g : G)
  | reopenLock (g : G) (refused : Bool)
  | throwConcurrent (g : G)
  | readLatest (g : G)
  | removeManifest (g : G) (version : Nat)
  | write (g : G) (entries : List (ManifestEntry F))
  | unlinkOwn (g : G)
  | unlockWrite (g : G)
  | tick
  | crash (p : P)

inductive GuardEvent (G : Type) where
  | committed (g : G) (version : Nat)
  deriving DecidableEq

def GuardEvent.version {G : Type} : GuardEvent G → Nat
  | .committed _ version => version

namespace Folder

variable {G P F : Type} [DecidableEq G] [DecidableEq P] (process : G → P) (s : Folder G P F) (g : G)

def setPhase (phase : GuardPhase F) : Folder G P F :=
  { s with phase := update s.phase g phase }

/-- `open(O_CREAT | O_EXCL)` on a free name. -/
def createLock : Folder G P F :=
  { s.setPhase g (.holding ⟨s.nextInode, s.now⟩ .locked) with
    lockFile := some ⟨s.nextInode, s.now⟩
    nextInode := s.nextInode + 1 }

def setWriteLock (p : P) (locked : Bool) : Folder G P F :=
  { s with writeLock := update s.writeLock p locked }

def tryLockForWrite : Option (Folder G P F) :=
  match s.phase g with
  | .absent =>
    if s.writeLock (process g) then some s
    else some ((s.setPhase g .opening).setWriteLock (process g) true)
  | _ => none

def openLock (refused : Bool) : Option (Folder G P F) :=
  match s.phase g with
  | .opening =>
    if refused then some (s.setPhase g .throwing)
    else match s.lockFile with
      | some _ => some (s.setPhase g .found)
      | none => some (s.createLock g)
  | _ => none

def stat : Option (Folder G P F) :=
  match s.phase g with
  | .found =>
    match s.lockFile with
    | none => some (s.setPhase g .throwing)
    | some file =>
      if file.mtime + staleLockSeconds < s.now then some (s.setPhase g (.breaking file.inode))
      else some (s.setPhase g .throwing)
  | _ => none

def unlinkStale : Option (Folder G P F) :=
  match s.phase g with
  | .breaking _ => some { s.setPhase g .reopening with lockFile := none }
  | _ => none

def reopenLock (refused : Bool) : Option (Folder G P F) :=
  match s.phase g with
  | .reopening =>
    if refused then some (s.setPhase g .throwing)
    else match s.lockFile with
      | some _ => some (s.setPhase g .throwing)
      | none => some (s.createLock g)
  | _ => none

def throwConcurrent : Option (Folder G P F) :=
  match s.phase g with
  | .throwing => some ((s.setPhase g .absent).setWriteLock (process g) false)
  | _ => none

def readLatest : Option (Folder G P F) :=
  match s.phase g with
  | .holding file .locked =>
    match ParquetManifest.readLatest s.manifests with
    | none => none
    | some manifest => some (s.setPhase g (.holding file (.based manifest)))
  | _ => none

/-- VACUUM removes the manifests of other versions than the one it read, one at a time. -/
def removeManifest (version : Nat) : Option (Folder G P F) :=
  match s.phase g with
  | .holding _ (.based manifest) =>
    if version = manifest.version then none
    else some { s with manifests := s.manifests.filter (·.version ≠ version) }
  | _ => none

/-- INSERT, DELETE and UPDATE commit the version after the one they read. -/
def write (entries : List (ManifestEntry F)) : Option (Folder G P F × List (GuardEvent G)) :=
  match s.phase g with
  | .holding file (.based manifest) =>
    some ({ s.setPhase g (.holding file .committed) with
      manifests := ParquetManifest.write s.manifests ⟨manifest.version + 1, entries⟩ },
      [.committed g (manifest.version + 1)])
  | _ => none

def unlinkOwn : Option (Folder G P F) :=
  match s.phase g with
  | .holding _ _ => some { s.setPhase g .unlocking with lockFile := none }
  | _ => none

def unlockWrite : Option (Folder G P F) :=
  match s.phase g with
  | .unlocking => some ((s.setPhase g .absent).setWriteLock (process g) false)
  | _ => none

def crash (p : P) : Folder G P F :=
  { s with phase := fun g => if process g = p then .crashed else s.phase g }

/-- A folder before any of the guards: its lock file, if any, was left by an earlier process. -/
structure Initial (s : Folder G P F) : Prop where
  absent : ∀ g, s.phase g = .absent
  free : ∀ p, s.writeLock p = false
  lockFile : ∀ file, s.lockFile = some file → file.inode < s.nextInode
  manifests : ParquetManifest.Distinct s.manifests

def step (s : Folder G P F) : GuardAction G P F → Option (Folder G P F × List (GuardEvent G))
  | .tryLockForWrite g => (tryLockForWrite process s g).map (·, [])
  | .openLock g refused => (openLock s g refused).map (·, [])
  | .stat g => (stat s g).map (·, [])
  | .unlinkStale g => (unlinkStale s g).map (·, [])
  | .reopenLock g refused => (reopenLock s g refused).map (·, [])
  | .throwConcurrent g => (throwConcurrent process s g).map (·, [])
  | .readLatest g => (readLatest s g).map (·, [])
  | .removeManifest g version => (removeManifest s g version).map (·, [])
  | .write g entries => write s g entries
  | .unlinkOwn g => (unlinkOwn s g).map (·, [])
  | .unlockWrite g => (unlockWrite process s g).map (·, [])
  | .tick => some ({ s with now := s.now + 1 }, [])
  | .crash p => some (crash process s p, [])

/-- The guard's constructor has returned and its destructor has not unlinked the lock. -/
def Live (s : Folder G P F) (g : G) : Prop := ∃ file work, s.phase g = .holding file work

/-- Every live holder releases within `STALE_LOCK_SECONDS` of creating its lock file. -/
def Prompt (s : Folder G P F) : GuardAction G P F → Prop
  | .tick => ∀ g file work, s.phase g = .holding file work → s.now + 1 ≤ file.mtime + staleLockSeconds
  | _ => True

/-- A lock judged stale is still the same file when it is unlinked. -/
def Unreplaced (s : Folder G P F) : GuardAction G P F → Prop
  | .unlinkStale g => ∀ inode, s.phase g = .breaking inode → ∀ file, s.lockFile = some file → file.inode = inode
  | _ => True

end Folder

def externalFolder {G P : Type} (F : Type) [DecidableEq G] [DecidableEq P] (process : G → P) :
    System (Folder G P F) (GuardAction G P F) (GuardEvent G) where
  init := Folder.Initial
  step := Folder.step process

section Exclusion

variable {G P F : Type} [DecidableEq G] {process : G → P} {log : List (GuardEvent G)}
  {s next : Folder G P F} {events : List (GuardEvent G)}

/-- One live guard, whose lock file is in place; no lock being broken is the one it holds. -/
structure Excluded (log : List (GuardEvent G)) (s : Folder G P F) : Prop where
  fresh : ∀ file, s.lockFile = some file → file.inode < s.nextInode
  held : ∀ g file work, s.phase g = .holding file work → s.lockFile = some file
  prompt : ∀ g file work, s.phase g = .holding file work → s.now ≤ file.mtime + staleLockSeconds
  alone : ∀ g h, s.Live g → s.Live h → g = h
  seen : ∀ g inode, s.phase g = .breaking inode → inode < s.nextInode
  stale : ∀ g inode h file work, s.phase g = .breaking inode → s.phase h = .holding file work →
    file.inode ≠ inode
  based : ∀ g file manifest, s.phase g = .holding file (.based manifest) →
    ParquetManifest.readLatest s.manifests = some manifest
  distinct : ParquetManifest.Distinct s.manifests
  below : ∀ e ∈ log, ∃ manifest ∈ s.manifests, e.version ≤ manifest.version
  versions : (log.map GuardEvent.version).Nodup

omit [DecidableEq G] in
theorem Excluded.initially (initial : s.Initial) : Excluded [] s where
  fresh := initial.lockFile
  held g file work holding := by rw [initial.absent g] at holding; cases holding
  prompt g file work holding := by rw [initial.absent g] at holding; cases holding
  alone g h live := by
    obtain ⟨file, work, holding⟩ := live
    rw [initial.absent g] at holding
    cases holding
  seen g inode breaking := by rw [initial.absent g] at breaking; cases breaking
  stale g inode h file work breaking := by rw [initial.absent g] at breaking; cases breaking
  based g file manifest holding := by rw [initial.absent g] at holding; cases holding
  distinct := initial.manifests
  below e member := by cases member
  versions := List.nodup_nil

omit [DecidableEq G] in
theorem Excluded.quiet (excluded : Excluded log s)
    (holding : ∀ g file work, next.phase g = .holding file work → s.phase g = .holding file work)
    (breaking : ∀ g inode, next.phase g = .breaking inode → s.phase g = .breaking inode)
    (lockFile : next.lockFile = s.lockFile) (nextInode : next.nextInode = s.nextInode) (now : next.now = s.now)
    (manifests : next.manifests = s.manifests) : Excluded log next where
  fresh := by
    rw [lockFile, nextInode]
    exact excluded.fresh
  held g file work holds := by
    rw [lockFile]
    exact excluded.held g file work (holding g file work holds)
  prompt g file work holds := by
    rw [now]
    exact excluded.prompt g file work (holding g file work holds)
  alone g h := by
    intro ⟨file, work, one⟩ ⟨other, more, two⟩
    exact excluded.alone g h ⟨file, work, holding g file work one⟩ ⟨other, more, holding h other more two⟩
  seen g inode breaks := by
    rw [nextInode]
    exact excluded.seen g inode (breaking g inode breaks)
  stale g inode h file work breaks holds :=
    excluded.stale g inode h file work (breaking g inode breaks) (holding h file work holds)
  based g file manifest holds := by
    rw [manifests]
    exact excluded.based g file manifest (holding g file _ holds)
  distinct := by
    rw [manifests]
    exact excluded.distinct
  below := by
    rw [manifests]
    exact excluded.below
  versions := excluded.versions

variable {g : G}

theorem Folder.phase_cases {h : G} {phase reached : GuardPhase F} (place : (s.setPhase g phase).phase h = reached) :
    (h = g ∧ phase = reached) ∨ (h ≠ g ∧ s.phase h = reached) := by
  rw [Folder.setPhase] at place
  by_cases same : h = g
  · subst same
    exact .inl ⟨rfl, by simpa using place⟩
  · exact .inr ⟨same, by simpa only [update_of_ne same] using place⟩

/-- The guard neither holds nor breaks a lock. -/
def GuardPhase.passive : GuardPhase F → Bool
  | .holding _ _ | .breaking _ => false
  | _ => true

section
variable (excluded : Excluded log s)
include excluded

theorem Excluded.setPhase (g : G) {phase : GuardPhase F}
    (passive : phase.passive = true) : Excluded log (s.setPhase g phase) := by
  refine excluded.quiet ?_ ?_ rfl rfl rfl rfl
  · intro h file work holds
    rcases Folder.phase_cases holds with ⟨-, same⟩ | ⟨-, before⟩
    · rw [same] at passive
      cases passive
    · exact before
  · intro h inode breaks
    rcases Folder.phase_cases breaks with ⟨-, same⟩ | ⟨-, before⟩
    · rw [same] at passive
      cases passive
    · exact before

omit [DecidableEq G] in
theorem Excluded.setWriteLock [DecidableEq P] (p : P) (locked : Bool) : Excluded log (s.setWriteLock p locked) :=
  excluded.quiet (fun _ _ _ holds => holds) (fun _ _ breaks => breaks) rfl rfl rfl rfl

omit [DecidableEq G] in
theorem Excluded.crash [DecidableEq P] (p : P) : Excluded log (s.crash process p) := by
  refine excluded.quiet ?_ ?_ rfl rfl rfl rfl
  · intro g file work holds
    simp only [Folder.crash] at holds
    split at holds
    · cases holds
    · exact holds
  · intro g inode breaks
    simp only [Folder.crash] at breaks
    split at breaks
    · cases breaks
    · exact breaks

/-- With the name free nobody is live, so the guard that creates the file is the only one. -/
theorem Excluded.createLock (g : G) (free : s.lockFile = none) : Excluded log (s.createLock g) := by
  have only : ∀ h file work, (s.createLock g).phase h = .holding file work →
      h = g ∧ file = ⟨s.nextInode, s.now⟩ ∧ work = .locked := by
    intro h file work holds
    rcases Folder.phase_cases holds with ⟨same, created⟩ | ⟨-, before⟩
    · cases created
      exact ⟨same, rfl, rfl⟩
    · rw [excluded.held h file work before] at free
      cases free
  have breaks : ∀ h inode, (s.createLock g).phase h = .breaking inode → s.phase h = .breaking inode := by
    intro h inode breaking
    rcases Folder.phase_cases breaking with ⟨-, created⟩ | ⟨-, before⟩
    · cases created
    · exact before
  exact {
    fresh := by
      intro file present
      cases present
      exact Nat.lt_succ_self _
    held := by
      intro h file work holds
      rw [(only h file work holds).2.1]
      rfl
    prompt := by
      intro h file work holds
      rw [(only h file work holds).2.1]
      exact Nat.le_add_right _ _
    alone := by
      intro h i ⟨file, work, one⟩ ⟨other, more, two⟩
      rw [(only h file work one).1, (only i other more two).1]
    seen := by
      intro h inode breaking
      exact Nat.lt_succ_of_lt (excluded.seen h inode (breaks h inode breaking))
    stale := by
      intro h inode i file work breaking holds
      rw [(only i file work holds).2.1]
      exact Nat.ne_of_gt (excluded.seen h inode (breaks h inode breaking))
    based := by
      intro h file manifest holds
      cases (only h file _ holds).2.2
    distinct := excluded.distinct
    below := excluded.below
    versions := excluded.versions }

/-- A lock found stale is nobody's: its live holder would have released it by now. -/
theorem Excluded.breakLock (g : G) {file : LockFile} (present : s.lockFile = some file)
    (old : file.mtime + staleLockSeconds < s.now) : Excluded log (s.setPhase g (.breaking file.inode)) := by
  have nobody : ∀ h other work, (s.setPhase g (.breaking file.inode)).phase h ≠ .holding other work := by
    intro h other work holds
    rcases Folder.phase_cases holds with ⟨-, breaks⟩ | ⟨-, before⟩
    · cases breaks
    · have same : other = file := Option.some.inj ((excluded.held h other work before).symm.trans present)
      have young := excluded.prompt h other work before
      rw [same] at young
      omega
  exact {
    fresh := excluded.fresh
    held := fun h other work holds => absurd holds (nobody h other work)
    prompt := fun h other work holds => absurd holds (nobody h other work)
    alone := by
      intro h i ⟨other, work, holds⟩
      exact absurd holds (nobody h other work)
    seen := by
      intro h inode breaks
      rcases Folder.phase_cases breaks with ⟨-, same⟩ | ⟨-, before⟩
      · cases same
        exact excluded.fresh file present
      · exact excluded.seen h inode before
    stale := fun h inode i other work _ holds => absurd holds (nobody i other work)
    based := fun h other manifest holds => absurd holds (nobody h other _)
    distinct := excluded.distinct
    below := excluded.below
    versions := excluded.versions }

omit [DecidableEq G] in
theorem Excluded.clearName (nobody : ∀ g, ¬s.Live g) :
    Excluded log { s with lockFile := none } where
  fresh file present := by cases present
  held g file work holds := absurd ⟨file, work, holds⟩ (nobody g)
  prompt := excluded.prompt
  alone := excluded.alone
  seen := excluded.seen
  stale := excluded.stale
  based := excluded.based
  distinct := excluded.distinct
  below := excluded.below
  versions := excluded.versions

theorem Excluded.unlinkStale {inode : Nat} (breaking : s.phase g = .breaking inode)
    (unreplaced : ∀ file, s.lockFile = some file → file.inode = inode) :
    Excluded log { s.setPhase g .reopening with lockFile := none } := by
  have moved : Excluded log (s.setPhase g .reopening) := excluded.setPhase g rfl
  refine moved.clearName ?_
  intro h ⟨file, work, holds⟩
  rcases Folder.phase_cases holds with ⟨-, same⟩ | ⟨-, before⟩
  · cases same
  · exact excluded.stale g inode h file work breaking before (unreplaced file (excluded.held h file work before))

theorem Excluded.unlinkOwn (live : s.Live g) :
    Excluded log { s.setPhase g .unlocking with lockFile := none } := by
  have moved : Excluded log (s.setPhase g .unlocking) := excluded.setPhase g rfl
  refine moved.clearName ?_
  intro h ⟨file, work, holds⟩
  rcases Folder.phase_cases holds with ⟨-, same⟩ | ⟨apart, before⟩
  · cases same
  · exact apart (excluded.alone h g ⟨file, work, before⟩ live)

theorem Excluded.rework {more : List (GuardEvent G)} {file : LockFile} {before after : Work F}
    {manifests : List (ParquetManifest F)} (holds : s.phase g = .holding file before)
    (based : ∀ manifest, after = .based manifest → ParquetManifest.readLatest manifests = some manifest)
    (distinct : ParquetManifest.Distinct manifests)
    (below : ∀ e ∈ more, ∃ manifest ∈ manifests, e.version ≤ manifest.version)
    (versions : (more.map GuardEvent.version).Nodup) :
    Excluded more { s.setPhase g (.holding file after) with manifests := manifests } := by
  have held : ∀ h other work, (s.setPhase g (.holding file after)).phase h = .holding other work →
      h = g ∧ other = file ∧ work = after := by
    intro h other work holding
    rcases Folder.phase_cases holding with ⟨same, reached⟩ | ⟨apart, earlier⟩
    · cases reached
      exact ⟨same, rfl, rfl⟩
    · exact absurd (excluded.alone h g ⟨other, work, earlier⟩ ⟨file, before, holds⟩) apart
  have breaks : ∀ h inode, (s.setPhase g (.holding file after)).phase h = .breaking inode →
      s.phase h = .breaking inode := by
    intro h inode breaking
    rcases Folder.phase_cases breaking with ⟨-, reached⟩ | ⟨-, earlier⟩
    · cases reached
    · exact earlier
  exact {
    fresh := excluded.fresh
    held := by
      intro h other work holding
      rw [(held h other work holding).2.1]
      exact excluded.held g file before holds
    prompt := by
      intro h other work holding
      rw [(held h other work holding).2.1]
      exact excluded.prompt g file before holds
    alone := by
      intro h i ⟨one, work, first⟩ ⟨two, other, second⟩
      rw [(held h one work first).1, (held i two other second).1]
    seen := fun h inode breaking => excluded.seen h inode (breaks h inode breaking)
    stale := by
      intro h inode i other work breaking holding
      rw [(held i other work holding).2.1]
      exact excluded.stale h inode g file before (breaks h inode breaking) holds
    based := by
      intro h other manifest holding
      exact based manifest (held h other _ holding).2.2.symm
    distinct := distinct
    below := below
    versions := versions }

theorem Excluded.readLatest (taken : s.readLatest g = some next) : Excluded log next := by
  simp only [Folder.readLatest] at taken
  split at taken
  · next file holds =>
    split at taken
    · cases taken
    · next manifest found =>
      cases taken
      refine excluded.rework holds ?_ excluded.distinct excluded.below excluded.versions
      intro other same
      cases same
      exact found
  · cases taken

theorem Excluded.removeManifest {version : Nat}
    (taken : s.removeManifest g version = some next) : Excluded log next := by
  simp only [Folder.removeManifest] at taken
  split at taken
  · next file manifest holds =>
    split at taken
    · cases taken
    · next other =>
      cases taken
      have latest := excluded.based g file manifest holds
      obtain ⟨member, top⟩ := ParquetManifest.readLatest_spec latest
      have kept : decide (manifest.version ≠ version) = true := decide_eq_true (Ne.symm other)
      have reworked : Excluded log { s.setPhase g (.holding file (.based manifest)) with
          manifests := s.manifests.filter (·.version ≠ version) } := by
        refine excluded.rework holds ?_ (excluded.distinct.filter _) ?_ excluded.versions
        · intro same again
          cases again
          exact ParquetManifest.readLatest_filter excluded.distinct latest kept
        · intro e logged
          obtain ⟨above, inside, order⟩ := excluded.below e logged
          exact ⟨manifest, List.mem_filter.mpr ⟨member, kept⟩, Nat.le_trans order (top above inside)⟩
      rw [Folder.setPhase, ← holds, update_eq_self] at reworked
      exact reworked
  · cases taken

theorem Excluded.write {entries : List (ManifestEntry F)}
    (taken : s.write g entries = some (next, events)) : Excluded (events ++ log) next := by
  simp only [Folder.write] at taken
  split at taken
  · next file manifest holds =>
    cases taken
    have latest := excluded.based g file manifest holds
    obtain ⟨member, top⟩ := ParquetManifest.readLatest_spec latest
    have bounded : ∀ e ∈ log, e.version ≤ manifest.version := by
      intro e logged
      obtain ⟨above, inside, order⟩ := excluded.below e logged
      exact Nat.le_trans order (top above inside)
    refine excluded.rework holds (fun _ same => by cases same) (excluded.distinct.write _) ?_ ?_
    · intro e logged
      refine ⟨⟨manifest.version + 1, entries⟩, List.mem_cons_self, ?_⟩
      rcases List.mem_cons.mp logged with same | earlier
      · rw [same]
        exact Nat.le_refl _
      · exact Nat.le_succ_of_le (bounded e earlier)
    · refine List.nodup_cons.mpr ⟨?_, excluded.versions⟩
      intro repeated
      obtain ⟨e, logged, same⟩ := List.mem_map.mp repeated
      have order := bounded e logged
      have repeats : e.version = manifest.version + 1 := same
      omega
  · cases taken

end

omit [DecidableEq G] in
theorem Excluded.silent {moves : Option (Folder G P F)} (kept : ∀ after, moves = some after → Excluded log after)
    (taken : moves.map (·, []) = some (next, events)) : Excluded (events ++ log) next := by
  obtain ⟨after, moved, same⟩ := Option.map_eq_some_iff.mp taken
  cases same
  exact kept _ moved

variable [DecidableEq P]

/-- Every step of the protocol but the one that unlinks a lock judged stale keeps the exclusion; that one
keeps it when the file is still the one that was judged. -/
theorem Excluded.step {a : GuardAction G P F} (excluded : Excluded log s) (prompt : s.Prompt a)
    (unreplaced : s.Unreplaced a) (taken : s.step process a = some (next, events)) :
    Excluded (events ++ log) next := by
  cases a with
  | tryLockForWrite g =>
    refine .silent ?_ taken
    fun_cases Folder.tryLockForWrite process s g <;> rintro _ ⟨⟩
    · exact excluded
    · exact (excluded.setPhase g rfl).setWriteLock _ _
  | openLock g refused =>
    refine .silent ?_ taken
    fun_cases Folder.openLock s g refused <;> rintro _ ⟨⟩
    · exact excluded.setPhase g rfl
    · exact excluded.setPhase g rfl
    · next free => exact excluded.createLock g free
  | stat g =>
    refine .silent ?_ taken
    fun_cases Folder.stat s g <;> rintro _ ⟨⟩
    · exact excluded.setPhase g rfl
    · next file present old => exact excluded.breakLock g present old
    · exact excluded.setPhase g rfl
  | unlinkStale g =>
    refine .silent ?_ taken
    fun_cases Folder.unlinkStale s g <;> rintro _ ⟨⟩
    next inode breaking => exact excluded.unlinkStale breaking (unreplaced inode breaking)
  | reopenLock g refused =>
    refine .silent ?_ taken
    fun_cases Folder.reopenLock s g refused <;> rintro _ ⟨⟩
    · exact excluded.setPhase g rfl
    · exact excluded.setPhase g rfl
    · next free => exact excluded.createLock g free
  | throwConcurrent g =>
    refine .silent ?_ taken
    fun_cases Folder.throwConcurrent process s g <;> rintro _ ⟨⟩
    exact (excluded.setPhase g rfl).setWriteLock _ _
  | readLatest g => exact .silent (fun _ => excluded.readLatest) taken
  | removeManifest g version => exact .silent (fun _ => excluded.removeManifest) taken
  | write g entries => exact excluded.write taken
  | unlinkOwn g =>
    refine .silent ?_ taken
    fun_cases Folder.unlinkOwn s g <;> rintro _ ⟨⟩
    next file work holds => exact excluded.unlinkOwn ⟨file, work, holds⟩
  | unlockWrite g =>
    refine .silent ?_ taken
    fun_cases Folder.unlockWrite process s g <;> rintro _ ⟨⟩
    exact (excluded.setPhase g rfl).setWriteLock _ _
  | tick =>
    cases taken
    exact { excluded with prompt := prompt }
  | crash p =>
    cases taken
    exact excluded.crash p

end Exclusion

/-- In a run whose live holders release in time, and in which a lock judged stale is still the same file when
it is unlinked, at most one guard is live and no version is committed twice. -/
theorem one_external_writer {G P F : Type} [DecidableEq G] [DecidableEq P] {process : G → P}
    {log : List (GuardEvent G)} {s : Folder G P F}
    (run : Run (externalFolder F process) (fun s a => s.Prompt a ∧ s.Unreplaced a) log s) :
    (∀ g h, s.Live g → s.Live h → g = h) ∧ (log.map GuardEvent.version).Nodup := by
  have excluded : Excluded log s := by
    refine Run.invariant (I := Excluded) ?_ ?_ run
    · intro s initial
      exact Excluded.initially initial
    · intro log s next a events _ excluded meets taken
      exact excluded.step meets.1 meets.2 taken
  exact ⟨excluded.alone, excluded.versions⟩

/-- A folder with version 0 and a lock file ten minutes old, whose process is gone. -/
def leftBehind : Folder Bool Bool Nat where
  lockFile := some ⟨0, 0⟩
  nextInode := 1
  now := 601
  manifests := [⟨0, []⟩]
  phase _ := .absent
  writeLock _ := false

theorem leftBehind_initial : leftBehind.Initial where
  absent _ := rfl
  free _ := rfl
  lockFile file present := by
    cases present
    exact Nat.one_pos
  manifests := by
    intro one first other second _
    rw [List.mem_singleton.mp first, List.mem_singleton.mp second]

def judgeStale (g : Bool) : List (GuardAction Bool Bool Nat) := [.tryLockForWrite g, .openLock g false, .stat g]

def breakAndLock (g : Bool) : List (GuardAction Bool Bool Nat) := [.unlinkStale g, .reopenLock g false]

def commitNext (g : Bool) : List (GuardAction Bool Bool Nat) := [.readLatest g, .write g []]

def unreplacedTest (s : Folder Bool Bool Nat) : GuardAction Bool Bool Nat → Bool
  | .unlinkStale g =>
    match s.phase g, s.lockFile with
    | .breaking inode, some file => decide (file.inode = inode)
    | _, _ => true
  | .tick => false
  | _ => true

theorem unreplaced_of_test (s : Folder Bool Bool Nat) (a : GuardAction Bool Bool Nat)
    (passed : unreplacedTest s a = true) : s.Prompt a ∧ s.Unreplaced a := by
  cases a with
  | unlinkStale g =>
    refine ⟨trivial, ?_⟩
    intro inode breaking file present
    simp only [unreplacedTest, breaking, present, decide_eq_true_eq] at passed
    exact passed
  | tick => cases passed
  | _ => exact ⟨trivial, trivial⟩

def GuardPhase.hasCommitted : GuardPhase Nat → Bool
  | .holding _ .committed => true
  | _ => false

theorem Folder.live_of_hasCommitted {s : Folder Bool Bool Nat} {g : Bool}
    (shown : (s.phase g).hasCommitted = true) : s.Live g := by
  cases place : s.phase g with
  | holding file work => exact ⟨file, work, place⟩
  | _ =>
    rw [place] at shown
    cases shown

/-- One process replaces the lock left behind and commits while the other fails on the fresh lock. -/
theorem one_external_writer_replacing :
    ∃ log s, Run (externalFolder Nat id) (fun s a => s.Prompt a ∧ s.Unreplaced a) log s ∧
      log = [.committed true 1] ∧ s.Live true ∧
      (∀ g h, s.Live g → s.Live h → g = h) ∧ (log.map GuardEvent.version).Nodup := by
  obtain ⟨s, log, run, shown⟩ := execChecked_shows (M := externalFolder Nat id) unreplaced_of_test
    (judgeStale true ++ breakAndLock true ++ judgeStale false ++ commitNext true) leftBehind_initial
    (fun r => (r.2, (r.1.phase true).hasCommitted)) ([.committed true 1], true) rfl
  simp only [Prod.mk.injEq] at shown
  exact ⟨log, s, run, shown.1, Folder.live_of_hasCommitted shown.2, one_external_writer run⟩

def bothBreak : List (GuardAction Bool Bool Nat) :=
  judgeStale true ++ judgeStale false ++ breakAndLock true ++ breakAndLock false ++
    [.readLatest true, .readLatest false, .write true [], .write false []]

/-- Both processes judge the old lock stale; the second unlinks the lock the first has just created, and both
commit version 1. -/
theorem two_live_writers :
    ∃ log s, Run (externalFolder Nat id) Folder.Prompt log s ∧ s.Live true ∧ s.Live false ∧
      log = [.committed false 1, .committed true 1] := by
  have prompt : ∀ a ∈ bothBreak, ∀ s : Folder Bool Bool Nat, s.Prompt a := by
    intro a member s
    cases a with
    | tick => simp [bothBreak, judgeStale, breakAndLock] at member
    | _ => trivial
  obtain ⟨s, log, run, shown⟩ := exec_shows (M := externalFolder Nat id) bothBreak leftBehind_initial prompt
    (fun r => (r.2, (r.1.phase true).hasCommitted, (r.1.phase false).hasCommitted))
    ([.committed false 1, .committed true 1], true, true) rfl
  simp only [Prod.mk.injEq] at shown
  obtain ⟨logged, first, second⟩ := shown
  exact ⟨log, s, run, Folder.live_of_hasCommitted first, Folder.live_of_hasCommitted second, logged⟩

end BumbleBee.External
