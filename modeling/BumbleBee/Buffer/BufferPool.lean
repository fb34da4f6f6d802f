import BumbleBee.Buffer.ArcReplacer
import BumbleBee.Library.Transition
import Mathlib.Algebra.Order.Ring.Int

/-!
`BufferPoolManager` with its page guards. A step is one section of the pool latch or
of the allocation latch, one disk request together with the frame latch taken for
it, or one atomic access outside the latches. An actor is a guard or a call in
progress; a thread that holds several guards is several actors. A disk request may
fail or throw and then leave anything in its target.
-/

namespace BumbleBee.Buffer
open Library.Transition Function

/-- `rwlatch_`; `shared k` has `k + 1` readers. -/
inductive RwLatch where
  | unlocked
  | shared (others : Nat)
  | exclusive
  deriving DecidableEq

structure Frame (D : Type) where
  pinCount : Nat
  isDirty : Bool
  data : D
  pageId : Option Int
  rwlatch : RwLatch

/-- `Reset`; the bytes stay. -/
def Frame.reset {D : Type} (frame : Frame D) : Frame D := ⟨0, false, frame.data, none, .unlocked⟩

inductive GuardMode where
  | read
  | write
  | tryWrite
  deriving DecidableEq

/-- How a disk request ends; `left` is what an unsuccessful one leaves in its target, if it changes it. -/
inductive DiskOutcome (D : Type) where
  | ok
  | failed (left : Option D)
  | threw (left : Option D)

inductive PoolPoint (n : Nat) where
  | idle
  | allocating
  | fetching (page : Int) (mode : GuardMode)
  | evicting (page : Int) (mode : GuardMode) (victim : Fin n) (old : Int)
  | evicted (page : Int) (mode : GuardMode) (victim : Fin n) (old : Int) (ok : Bool)
  | loading (page : Int) (mode : GuardMode) (frame : Fin n)
  | loaded (page : Int) (mode : GuardMode) (frame : Fin n)
  | latching (page : Int) (mode : GuardMode) (frame : Fin n)
  | reading (page : Int) (frame : Fin n)
  | writing (page : Int) (frame : Fin n)
  | dropping (frame : Fin n)
  | flushing (pages : List Int)
  | flushLatching (frame : Fin n) (rest : List Int)
  | flushed (frame : Fin n) (rest : List Int)
  | unpinned (frame : Fin n) (rest : List Int)
  | leaked (frame : Fin n)
  | deleting (page : Int)
  | deallocating (page : Int) (changed : Bool)
  | reclaiming (page : Int)
  deriving DecidableEq

/-- Lists that grow and shrink at the back are kept with their back first. `live` is the specification's
view: the pages handed out and not deleted. -/
structure BufferPool (n : Nat) (T D : Type) where
  frames : Fin n → Frame D
  pageTable : Int → Option (Fin n)
  freeFrames : List (Fin n)
  replacer : ArcReplacer (Fin n)
  loading : Int → Bool
  flushing : Int → Bool
  nextPageId : Int
  freePages : List Int
  disk : Int → D
  point : T → PoolPoint n
  live : Int → Bool

/-- `threw` says whether the operation had changed the page table or the free list. -/
inductive PoolEvent (D : Type) where
  | allocated (page : Int)
  | wrote (page : Int) (bytes : D)
  | exposed (page : Int) (bytes : D)
  | outOfFrames
  | threw (changed : Bool)
  deriving DecidableEq

inductive PoolCall where
  | newPage
  | allocateRawPageId
  | checkedPage (page : Int) (mode : GuardMode)
  | flushPage (page : Int)
  | flushAllPages
  | deletePage (page : Int)
  deriving DecidableEq

inductive PoolAction (T D : Type) where
  | call (t : T) (request : PoolCall)
  | getData (t : T)
  | getDataMut (t : T) (bytes : D)
  | flush (t : T) (outcome : DiskOutcome D)
  | drop (t : T)
  | advance (t : T) (outcome : DiskOutcome D)

namespace BufferPool
variable {n : Nat} {T D : Type} [DecidableEq T] (s : BufferPool n T D) (t : T)

def setPoint (point : PoolPoint n) : BufferPool n T D :=
  { s with point := update s.point t point }

def setFrame (f : Fin n) (frame : Frame D) : BufferPool n T D :=
  { s with frames := update s.frames f frame }

/-- The counter is an `int32_t`. -/
def allocate : BufferPool n T D × List (PoolEvent D) :=
  ({ s with
      nextPageId := (s.nextPageId + 1).bmod (2 ^ 32)
      live := update s.live s.nextPageId true }.setPoint t .idle, [.allocated s.nextPageId])

def newPage : BufferPool n T D × List (PoolEvent D) :=
  match s.freePages with
  | page :: rest =>
    ({ s with freePages := rest, live := update s.live page true }.setPoint t .idle, [.allocated page])
  | [] => (s.setPoint t .allocating, [])

def getAllPages : List Int :=
  (List.finRange n).filterMap fun f => (s.frames f).pageId.filter fun page => s.pageTable page == some f

def startCall : PoolCall → BufferPool n T D × List (PoolEvent D)
  | .newPage => s.newPage t
  | .allocateRawPageId => s.allocate t
  | .checkedPage page mode => (s.setPoint t (.fetching page mode), [])
  | .flushPage page => (s.setPoint t (.flushing [page]), [])
  | .flushAllPages => (s.setPoint t (.flushing s.getAllPages), [])
  | .deletePage page => (s.setPoint t (.deleting page), [])

/-- `EvictOneLocked` up to the point where the pool latch is released. -/
def evictOneLocked (page : Int) (mode : GuardMode) : BufferPool n T D × List (PoolEvent D) :=
  match s.replacer.evict with
  | none => (s.setPoint t .idle, [.outOfFrames])
  | some (victim, replacer) =>
    match (s.frames victim).pageId with
    | none => ({ s with replacer := replacer }.setPoint t .idle, [.threw false])
    | some old =>
      let detached := { s with replacer := replacer, pageTable := update s.pageTable old none }
      if (s.frames victim).isDirty then
        (({ detached with flushing := update s.flushing old true }.setFrame victim
          { s.frames victim with rwlatch := .unlocked }).setPoint t (.evicting page mode victim old), [])
      else
        ({ detached with freeFrames := victim :: s.freeFrames }.setFrame victim (s.frames victim).reset, [])

/-- The last latched section of `EvictOneLocked`. -/
def finishEviction (page : Int) (mode : GuardMode) (victim : Fin n) (old : Int) (ok : Bool) :
    BufferPool n T D × List (PoolEvent D) :=
  let landed := { s with flushing := update s.flushing old false }
  if ok then
    (({ landed with freeFrames := victim :: s.freeFrames }.setFrame victim (s.frames victim).reset).setPoint t
      (.fetching page mode), [])
  else
    ({ landed with
        pageTable := update s.pageTable old (some victim)
        replacer := s.replacer.access victim old true }.setPoint t .idle, [.outOfFrames])

/-- The latched section of `CheckedPage`. -/
def fetch (page : Int) (mode : GuardMode) : Option (BufferPool n T D × List (PoolEvent D)) :=
  if s.loading page ∨ s.flushing page then none
  else
    match s.pageTable page with
    | some f =>
      some (({ s with replacer := s.replacer.access f page false }.setFrame f
        { s.frames f with pinCount := (s.frames f).pinCount + 1 }).setPoint t (.latching page mode f), [])
    | none =>
      match s.freeFrames with
      | [] => some (s.evictOneLocked t page mode)
      | f :: rest =>
        some (({ s with
            freeFrames := rest
            pageTable := update s.pageTable page (some f)
            loading := update s.loading page true
            replacer := s.replacer.access f page false }.setFrame f
          { s.frames f with pageId := some page, pinCount := (s.frames f).pinCount + 1 }).setPoint t
          (.loading page mode f), [])

/-- The read of a fetched page; its result is not looked at. -/
def load (page : Int) (mode : GuardMode) (f : Fin n) : DiskOutcome D → BufferPool n T D × List (PoolEvent D)
  | .ok => ((s.setFrame f { s.frames f with data := s.disk page }).setPoint t (.loaded page mode f), [])
  | .failed left =>
    ((s.setFrame f { s.frames f with data := left.getD (s.frames f).data }).setPoint t (.loaded page mode f), [])
  | .threw left =>
    ((s.setFrame f { s.frames f with data := left.getD (s.frames f).data, rwlatch := .exclusive }).setPoint t
      (.leaked f), [.threw true])

/-- The write request of an eviction. -/
def writeBack (page : Int) (mode : GuardMode) (victim : Fin n) (old : Int) :
    DiskOutcome D → BufferPool n T D × List (PoolEvent D)
  | .ok =>
    ({ s with disk := update s.disk old (s.frames victim).data }.setPoint t
      (.evicted page mode victim old true), [])
  | .failed left =>
    ({ s with disk := update s.disk old (left.getD (s.disk old)) }.setPoint t
      (.evicted page mode victim old false), [])
  | .threw left =>
    (({ s with disk := update s.disk old (left.getD (s.disk old)) }.setFrame victim
      { s.frames victim with rwlatch := .exclusive }).setPoint t .idle, [.threw true])

/-- The guard's constructor takes the frame latch; `TryWritePage` gives up when it is taken. -/
def latch (page : Int) (mode : GuardMode) (f : Fin n) : Option (BufferPool n T D × List (PoolEvent D)) :=
  match mode, (s.frames f).rwlatch with
  | .read, .unlocked =>
    some ((s.setFrame f { s.frames f with rwlatch := .shared 0 }).setPoint t (.reading page f), [])
  | .read, .shared others =>
    some ((s.setFrame f { s.frames f with rwlatch := .shared (others + 1) }).setPoint t (.reading page f), [])
  | .write, .unlocked | .tryWrite, .unlocked =>
    some ((s.setFrame f { s.frames f with rwlatch := .exclusive }).setPoint t (.writing page f), [])
  | .tryWrite, _ => some (s.setPoint t (.dropping f), [])
  | _, _ => none

/-- The latched section of `Drop`, and of a `TryWritePage` that has given up. -/
def unpin (f : Fin n) : BufferPool n T D × List (PoolEvent D) :=
  let dropped := (s.setFrame f { s.frames f with pinCount := (s.frames f).pinCount - 1 }).setPoint t .idle
  if (s.frames f).pinCount = 1 then
    match s.replacer.setEvictable f true with
    | some replacer => ({ dropped with replacer := replacer }, [])
    | none => (dropped, [.threw false])
  else (dropped, [])

/-- The first latched section of `FlushPage`. -/
def flushPage (page : Int) (rest : List Int) : Option (BufferPool n T D × List (PoolEvent D)) :=
  if s.loading page then none
  else
    match s.pageTable page with
    | none => some (s.setPoint t (.flushing rest), [])
    | some f =>
      let held := s.setFrame f { s.frames f with pinCount := (s.frames f).pinCount + 1 }
      match s.replacer.setEvictable f false with
      | some replacer => some ({ held with replacer := replacer }.setPoint t (.flushLatching f rest), [])
      | none => some (held.setPoint t (.leaked f), [.threw false])

/-- `FlushPage` under the frame latch; the result of the write is not looked at. -/
def flushFrame (f : Fin n) (rest : List Int) (outcome : DiskOutcome D) :
    Option (BufferPool n T D × List (PoolEvent D)) :=
  if (s.frames f).rwlatch ≠ .unlocked then none
  else if (s.frames f).isDirty = false then some (s.setPoint t (.flushed f rest), [])
  else
    match (s.frames f).pageId, outcome with
    | some page, .ok =>
      some (({ s with disk := update s.disk page (s.frames f).data }.setFrame f
        { s.frames f with isDirty := false }).setPoint t (.flushed f rest), [])
    | some page, .failed left =>
      some (({ s with disk := update s.disk page (left.getD (s.disk page)) }.setFrame f
        { s.frames f with isDirty := false }).setPoint t (.flushed f rest), [])
    | some page, .threw left =>
      some (({ s with disk := update s.disk page (left.getD (s.disk page)) }.setFrame f
        { s.frames f with rwlatch := .exclusive }).setPoint t (.leaked f), [.threw false])
    | none, _ =>
      some ((s.setFrame f { s.frames f with rwlatch := .exclusive }).setPoint t (.leaked f), [.threw false])

/-- `FlushPage` gives its pin back without the pool latch. -/
def flushUnpin (f : Fin n) (rest : List Int) : BufferPool n T D :=
  (s.setFrame f { s.frames f with pinCount := (s.frames f).pinCount - 1 }).setPoint t
    (if (s.frames f).pinCount = 1 then .unpinned f rest else .flushing rest)

/-- The last latched section of `FlushPage`. -/
def flushRelease (f : Fin n) (rest : List Int) : BufferPool n T D × List (PoolEvent D) :=
  if (s.frames f).pinCount = 0 then
    match s.replacer.setEvictable f true with
    | some replacer => ({ s with replacer := replacer }.setPoint t (.flushing rest), [])
    | none => (s.setPoint t .idle, [.threw false])
  else (s.setPoint t (.flushing rest), [])

/-- The latched section of `DeletePage`. -/
def deletePage (page : Int) : BufferPool n T D × List (PoolEvent D) :=
  let dead := { s with live := update s.live page false }
  match s.pageTable page with
  | none => (dead.setPoint t (.deallocating page false), [])
  | some f =>
    if 0 < (s.frames f).pinCount then (s.setPoint t .idle, [])
    else
      let freed := { dead with
        pageTable := update s.pageTable page none
        freeFrames := f :: s.freeFrames }.setFrame f (s.frames f).reset
      match s.replacer.remove f with
      | some replacer => ({ freed with replacer := replacer }.setPoint t (.deallocating page true), [])
      | none => (freed.setPoint t .idle, [.threw true])

/-- The backend's `DeletePage`; one that does not zero the page counts as failed. -/
def deallocatePage [Zero D] (page : Int) (changed : Bool) :
    DiskOutcome D → BufferPool n T D × List (PoolEvent D)
  | .ok => ({ s with disk := update s.disk page 0 }.setPoint t (.reclaiming page), [])
  | .failed left =>
    ({ s with disk := update s.disk page (left.getD (s.disk page)) }.setPoint t (.reclaiming page), [])
  | .threw left =>
    ({ s with disk := update s.disk page (left.getD (s.disk page)) }.setPoint t .idle, [.threw changed])

/-- `WritePageGuard::Flush`; the result of the write is not looked at. -/
def guardFlush (f : Fin n) (outcome : DiskOutcome D) : Option (BufferPool n T D × List (PoolEvent D)) :=
  if (s.frames f).isDirty = false then some (s, [])
  else
    match (s.frames f).pageId, outcome with
    | some page, .ok =>
      some ({ s with disk := update s.disk page (s.frames f).data }.setFrame f
        { s.frames f with isDirty := false }, [])
    | some page, .failed left =>
      some ({ s with disk := update s.disk page (left.getD (s.disk page)) }.setFrame f
        { s.frames f with isDirty := false }, [])
    | some page, .threw left =>
      some ({ s with disk := update s.disk page (left.getD (s.disk page)) }, [.threw false])
    | none, _ => some (s, [.threw false])

/-- The first half of a guard's `Drop`: the frame latch is released. -/
def unlatch (f : Fin n) : BufferPool n T D :=
  (s.setFrame f { s.frames f with
    rwlatch := match (s.frames f).rwlatch with
      | .shared (others + 1) => .shared others
      | _ => .unlocked }).setPoint t (.dropping f)

def advance [Zero D] (outcome : DiskOutcome D) : Option (BufferPool n T D × List (PoolEvent D)) :=
  match s.point t with
  | .idle | .reading _ _ | .writing _ _ | .leaked _ => none
  | .allocating => some (s.allocate t)
  | .fetching page mode => s.fetch t page mode
  | .evicting page mode victim old => some (s.writeBack t page mode victim old outcome)
  | .evicted page mode victim old ok => some (s.finishEviction t page mode victim old ok)
  | .loading page mode f => some (s.load t page mode f outcome)
  | .loaded page mode f =>
    some ({ s with loading := update s.loading page false }.setPoint t (.latching page mode f), [])
  | .latching page mode f => s.latch t page mode f
  | .dropping f => some (s.unpin t f)
  | .flushing [] => some (s.setPoint t .idle, [])
  | .flushing (page :: rest) => s.flushPage t page rest
  | .flushLatching f rest => s.flushFrame t f rest outcome
  | .flushed f rest => some (s.flushUnpin t f rest, [])
  | .unpinned f rest => some (s.flushRelease t f rest)
  | .deleting page => some (s.deletePage t page)
  | .deallocating page changed => some (s.deallocatePage t page changed outcome)
  | .reclaiming page => some ({ s with freePages := page :: s.freePages }.setPoint t .idle, [])

def step [Zero D] : PoolAction T D → Option (BufferPool n T D × List (PoolEvent D))
  | .call t request => if s.point t = .idle then some (s.startCall t request) else none
  | .getData t =>
    match s.point t with
    | .reading page f | .writing page f => some (s, [.exposed page (s.frames f).data])
    | _ => none
  | .getDataMut t bytes =>
    match s.point t with
    | .writing page f =>
      some (s.setFrame f { s.frames f with data := bytes, isDirty := true }, [.wrote page bytes])
    | _ => none
  | .flush t outcome =>
    match s.point t with
    | .writing _ f => s.guardFlush f outcome
    | _ => none
  | .drop t =>
    match s.point t with
    | .reading _ f | .writing _ f => some (s.unlatch t f, [])
    | _ => none
  | .advance t outcome => s.advance t outcome

/-- A pool just constructed over a disk whose unused pages are zero. -/
structure Initial [Zero D] (base : Int → D) (s : BufferPool n T D) : Prop where
  frames : ∀ f, s.frames f = ⟨0, false, 0, none, .unlocked⟩
  pageTable : ∀ page, s.pageTable page = none
  freeFrames : s.freeFrames = (List.finRange n).reverse
  replacer : s.replacer = .init n
  loading : ∀ page, s.loading page = false
  flushing : ∀ page, s.flushing page = false
  nextPageId : 0 ≤ s.nextPageId ∧ s.nextPageId < 2 ^ 31
  freePages : s.freePages.Nodup ∧ ∀ page ∈ s.freePages, 0 ≤ page ∧ page < s.nextPageId
  live : ∀ page, s.live page = true ↔ 0 ≤ page ∧ page < s.nextPageId ∧ page ∉ s.freePages
  disk : s.disk = base
  unused : ∀ page, s.live page = false → base page = 0
  point : ∀ t, s.point t = .idle

end BufferPool

def bufferPool (n : Nat) (T D : Type) [DecidableEq T] [Zero D] (base : Int → D) :
    System (BufferPool n T D) (PoolAction T D) (PoolEvent D) where
  init := BufferPool.Initial base
  step s a := s.step a

end BumbleBee.Buffer
