import BumbleBee.Buffer.Loading
import BumbleBee.Buffer.PageOwnership

/-!
What a guard shows. Every live page has one current copy: the bytes of its frame, of
the frame whose write-back is in flight, or of the disk while the pool does not hold
the page or is still reading it. Only a write through a guard changes that copy, as
long as no read and no explicit flush reports a failure, since their results are
not looked at. A write-back that fails is noticed, and its page is mapped again.
-/

namespace BumbleBee.Buffer
open Library.Transition Function

set_option linter.unusedSectionVars false

/-- The actor has not just been told that a page was read or written back. -/
def PoolPoint.calm {n : Nat} : PoolPoint n → Bool
  | .loaded _ _ _ => false
  | .evicted _ _ _ _ ok => !ok
  | .idle | .allocating | .fetching _ _ | .evicting _ _ _ _ | .loading _ _ _ | .latching _ _ _ | .reading _ _
  | .writing _ _ | .dropping _ | .flushing _ | .flushLatching _ _ | .flushed _ _ | .unpinned _ _ | .leaked _
  | .deleting _ | .deallocating _ _ | .reclaiming _ => true

theorem PoolPoint.calm_of_detached {n : Nat} {x : PoolPoint n} (rests : x.detached = true) : x.calm = true := by
  cases x <;> first | rfl | cases rests

theorem PoolPoint.calm_of_pins {n : Nat} {f : Fin n} {x : PoolPoint n} (holds : x.pins = some f)
    (read : x.loader = none) : x.calm = true := by
  cases x <;> first | rfl | (cases holds; done) | cases read

theorem PoolPoint.calm_apart {n : Nat} {x : PoolPoint n} (calm : x.calm = true) :
    (∀ page mode f, x ≠ .loaded page mode f) ∧ ∀ page mode f old, x ≠ .evicted page mode f old true := by
  constructor
  · rintro page mode f rfl
    cases calm
  · rintro page mode f old rfl
    cases calm

namespace BufferPool
variable {n : Nat} {T D : Type} [DecidableEq T]

/-- Where the current bytes of the live pages are. -/
structure Coherent (content : Int → D) (s : BufferPool n T D) : Prop where
  resident : ∀ page f, s.live page = true → s.pageTable page = some f → s.loading page = false →
    (s.frames f).data = content page ∧ ((s.frames f).isDirty = false → s.disk page = content page)
  loading : ∀ page f, s.live page = true → s.pageTable page = some f → s.loading page = true →
    s.disk page = content page ∧ (s.frames f).isDirty = false
  inFlight : ∀ page f, s.live page = true → (s.frames f).pageId = some page → s.flushing page = true →
    (s.frames f).data = content page ∧ (s.frames f).isDirty = true
  away : ∀ page, s.live page = true → s.pageTable page = none → s.flushing page = false →
    s.disk page = content page
  loaded : ∀ t page mode f, s.point t = .loaded page mode f → (s.frames f).data = content page
  landed : ∀ t page mode f old, s.point t = .evicted page mode f old true → s.disk old = content old
  clean : ∀ f ∈ s.freeFrames, (s.frames f).isDirty = false

section
variable {s next : BufferPool n T D} {t : T} {events : List (PoolEvent D)} {content : Int → D}

theorem Coherent.keep (coherent : s.Coherent content) {q : BufferPool n T D} {after : PoolPoint n}
    (points : q.point = s.point) (table : q.pageTable = s.pageTable) (loading : q.loading = s.loading)
    (flushing : q.flushing = s.flushing) (disk : q.disk = s.disk) (live : q.live = s.live)
    (free : q.freeFrames = s.freeFrames)
    (frames : ∀ f, (q.frames f).data = (s.frames f).data ∧ (q.frames f).isDirty = (s.frames f).isDirty ∧
      (q.frames f).pageId = (s.frames f).pageId)
    (calm : after.calm = true) : (q.setPoint t after).Coherent content := by
  obtain ⟨unloaded, flying⟩ := PoolPoint.calm_apart calm
  obtain ⟨resident, loads, inFlight, away, loaded, landed, clean⟩ := coherent
  constructor <;> simp only [setPoint, points, table, flushing, disk, live]
  · grind
  · grind
  · grind
  · exact away
  · grind
  · grind
  · grind

variable [Fintype T] {page : Int} {f : Fin n}

section
variable {replacer : ArcReplacer (Fin n)} {victim : Fin n} {old : Int}

theorem Coherent.detach (coherent : s.Coherent content) (placed : s.book.Placed) (page : Int) (mode : GuardMode)
    (mapped : s.pageTable old = some victim) (holds : (s.frames victim).pageId = some old)
    (dirty : (s.frames victim).isDirty = true) :
    (({ s with
        replacer := replacer
        pageTable := update s.pageTable old none
        flushing := update s.flushing old true }.setFrame victim
      { s.frames victim with rwlatch := .unlocked }).setPoint t (.evicting page mode victim old)).Coherent content := by
  have distinct (f g : Fin n) (p : Int) : (s.frames f).pageId = some p → (s.frames g).pageId = some p → f = g :=
    placed.distinct f g p
  obtain ⟨resident, loads, inFlight, away, loaded, landed, clean⟩ := coherent
  constructor <;> simp only [setPoint, setFrame] <;> grind

theorem Coherent.recycle (coherent : s.Coherent content) (mapped : s.pageTable old = some victim)
    (dirty : (s.frames victim).isDirty = false) :
    ({ s with
        replacer := replacer
        pageTable := update s.pageTable old none
        freeFrames := victim :: s.freeFrames }.setFrame victim (s.frames victim).reset).Coherent content := by
  obtain ⟨resident, loads, inFlight, away, loaded, landed, clean⟩ := coherent
  constructor <;> simp only [setFrame, Frame.reset] <;> grind

end

variable {mode : GuardMode}

theorem victim_page (placed : s.book.Placed) {old : Int} (victim : (s.point t).victim = some (f, old)) :
    (s.frames f).pageId = some old ∧ s.flushing old = true ∧ s.pageTable old = none :=
  ⟨(placed.victims t f old victim).1, (placed.victims t f old victim).2, placed.victim_absent victim⟩

section
variable (coherent : s.Coherent content)
include coherent

theorem Coherent.mapping {rest : List (Fin n)} (landed : s.flushing page = false)
    (absent : s.pageTable page = none) (first : s.freeFrames = f :: rest) : (({ s with
        freeFrames := rest
        pageTable := update s.pageTable page (some f)
        loading := update s.loading page true
        replacer := s.replacer.access f page false }.setFrame f
      { s.frames f with pageId := some page, pinCount := (s.frames f).pinCount + 1 }).setPoint t
      (.loading page mode f)).Coherent content := by
  obtain ⟨resident, loads, inFlight, away, loaded, landed, clean⟩ := coherent
  constructor <;> simp only [setPoint, setFrame] <;> grind

theorem Coherent.writeBack (placed : s.book.Placed) (tied : ∀ page, s.Tied page → s.live page = true)
    {old : Int} (here : s.point t = .evicting page mode f old) (outcome : DiskOutcome D) :
    (s.writeBack t page mode f old outcome).1.Coherent content := by
  have victim : (s.point t).victim = some (f, old) := congrArg PoolPoint.victim here
  obtain ⟨holds, flushing, absent⟩ := victim_page placed victim
  have alive : s.live old = true := tied old (.inr flushing)
  have alone (u : T) (p : Int) (m : GuardMode) (g : Fin n) (other : s.point u = .evicted p m g old true) : False := by
    have also : s.book.victim u = some (g, old) := congrArg PoolPoint.victim other
    have same := placed.distinct f g old holds (placed.victims u g old also).1
    rw [← same] at also
    have equal := placed.evictors t u f old old victim also
    rw [← equal, here] at other
    cases other
  obtain ⟨resident, loads, inFlight, away, loaded, landed, clean⟩ := coherent
  cases outcome with
  | ok | failed left | threw left =>
    constructor <;> simp only [BufferPool.writeBack, setPoint, setFrame] <;> grind

theorem Coherent.finishEviction (placed : s.book.Placed) (busy : s.Busy) {old : Int} {ok : Bool}
    (here : s.point t = .evicted page mode f old ok) :
    (s.finishEviction t page mode f old ok).1.Coherent content := by
  obtain ⟨holds, flushing, absent⟩ := victim_page placed (t := t) (congrArg PoolPoint.victim here)
  have read : s.loading old = false := by
    by_contra busyPage
    obtain ⟨u, g, mapped, _⟩ := busy.pinned old (Bool.not_eq_false _ ▸ busyPage)
    rw [absent] at mapped
    cases mapped
  have pages := page_of_mapped placed
  obtain ⟨resident, loads, inFlight, away, loaded, landed, clean⟩ := coherent
  unfold BufferPool.finishEviction
  split
  · rename_i success
    constructor <;> simp only [setPoint, setFrame, Frame.reset] <;> grind
  · constructor <;> simp only [setPoint] <;> grind

end

variable {outcome : DiskOutcome D}

theorem Coherent.load (coherent : s.Coherent content) (placed : s.book.Placed) (busy : s.Busy)
    (tied : ∀ page, s.Tied page → s.live page = true) (here : s.point t = .loading page mode f)
    (reads : outcome.fails = false) : (s.load t page mode f outcome).1.Coherent content := by
  obtain ⟨mapped, busyPage⟩ := busy.loader t page f (by rw [here]; rfl)
  have alive : s.live page = true := by
    apply tied
    left
    rw [mapped]
    exact Option.some_ne_none f
  have pages := page_of_mapped placed
  have alone (u : T) (m : GuardMode) (p : Int) (other : s.point u = .loaded p m f) : False := by
    have loads : (s.point u).loader = some (p, f) := congrArg PoolPoint.loader other
    obtain rfl := one_page placed p page f (busy.loader u p f loads).1 mapped
    have equal := busy.alone t u p f f (by rw [here]; rfl) loads
    rw [← equal, here] at other
    cases other
  obtain ⟨resident, loads, inFlight, away, loaded, landed, clean⟩ := coherent
  cases outcome with
  | failed left => cases reads
  | ok | threw left =>
    constructor <;> simp only [BufferPool.load, setPoint, setFrame] <;> grind

theorem Coherent.ready (coherent : s.Coherent content) (busy : s.Busy) (here : s.point t = .loaded page mode f) :
    ({ s with loading := update s.loading page false }.setPoint t (.latching page mode f)).Coherent
      content := by
  obtain ⟨mapped, busyPage⟩ := busy.loader t page f (by rw [here]; rfl)
  obtain ⟨resident, loads, inFlight, away, loaded, landed, clean⟩ := coherent
  constructor <;> simp only [setPoint]
  · grind
  · grind
  · exact inFlight
  · exact away
  · grind
  · grind
  · exact clean

theorem settled_page (placed : s.book.Placed) (busy : s.Busy) (settled : (s.point t).settled = some f) :
    ∃ page, s.pageTable page = some f ∧ (s.frames f).pageId = some page ∧ s.loading page = false ∧
      s.flushing page = false := by
  obtain ⟨page, mapped⟩ := placed.pinned t f (PoolPoint.pins_of_settled settled)
  have holds : (s.frames f).pageId = some page := placed.mapped page f mapped
  exact ⟨page, mapped, holds, busy.settled t f settled page mapped, grounded_of_mapped placed mapped⟩

/-- A page whose write-back has ended is still in the in-flight set. -/
theorem landing_page (placed : s.book.Placed) (grounded : s.flushing page = false) (u : T) (p : Int)
    (mode : GuardMode) (g : Fin n) (old : Int) (flies : s.point u = .evicted p mode g old true) : old ≠ page := by
  rintro rfl
  have flushes := (victim_page placed (t := u) (congrArg PoolPoint.victim flies)).2.1
  rw [grounded] at flushes
  cases flushes

section
variable (coherent : s.Coherent content)
include coherent

section
variable (placed : s.book.Placed)
include placed

/-- The bytes of a read page go to disk: the frame is clean if they arrive, and stays dirty otherwise. -/
theorem Coherent.save (busy : s.Busy) {frame : Frame D} {bytes : D} (settled : (s.point t).settled = some f)
    (holds : (s.frames f).pageId = some page) (data : frame.data = (s.frames f).data)
    (same : frame.pageId = some page) (saved : bytes = (s.frames f).data ∨ frame.isDirty = true) :
    ({ s with disk := update s.disk page bytes }.setFrame f frame).Coherent content := by
  obtain ⟨other, mapped, held, read, grounded⟩ := settled_page placed busy settled
  have pages := page_of_mapped placed
  have used := not_free_of_page placed holds
  have grounds := landing_page placed grounded
  obtain ⟨resident, loads, inFlight, away, loaded, landed, clean⟩ := coherent
  constructor <;> simp only [setFrame] <;> grind

theorem Coherent.write (busy : s.Busy) (here : s.point t = .writing page f) (bytes : D) :
    (s.setFrame f { s.frames f with data := bytes, isDirty := true }).Coherent
      (update content page bytes) := by
  have mapped := busy.guard t page f (by rw [here]; rfl)
  have read := busy.settled t f (by rw [here]; rfl) page mapped
  have holds : (s.frames f).pageId = some page := placed.mapped page f mapped
  have grounded := grounded_of_mapped placed mapped
  have pages := page_of_mapped placed
  have loaders (u : T) (p : Int) (m : GuardMode) (g : Fin n) (reads : s.point u = .loaded p m g) :
      s.pageTable p = some g := (busy.loader u p g (by rw [reads]; rfl)).1
  have used := not_free_of_page placed holds
  have grounds := landing_page placed grounded
  obtain ⟨resident, loads, inFlight, away, loaded, landed, clean⟩ := coherent
  constructor <;> simp only [setFrame] <;> grind

theorem Coherent.delete : (s.deletePage t page).1.Coherent content := by
  have pages := page_of_mapped placed
  obtain ⟨resident, loads, inFlight, away, loaded, landed, clean⟩ := id coherent
  unfold BufferPool.deletePage
  split
  · constructor <;> simp only [setPoint] <;> grind
  split
  · exact coherent.keep rfl rfl rfl rfl rfl rfl rfl (fun _ => .intro rfl (.intro rfl rfl)) rfl
  split
  · constructor <;> simp only [setPoint, setFrame, Frame.reset] <;> grind
  · constructor <;> simp only [setPoint, setFrame, Frame.reset] <;> grind

theorem Coherent.dead (tied : ∀ page, s.Tied page → s.live page = true) {bytes : D} {after : PoolPoint n}
    (gone : s.live page = false) (calm : after.calm = true) :
    ({ s with disk := update s.disk page bytes }.setPoint t after).Coherent content := by
  obtain ⟨unloaded, flying⟩ := PoolPoint.calm_apart calm
  have grounded : s.flushing page = false := by
    by_contra flies
    rw [tied page (.inr (Bool.not_eq_false _ ▸ flies))] at gone
    cases gone
  have grounds := landing_page placed grounded
  obtain ⟨resident, loads, inFlight, away, loaded, landed, clean⟩ := coherent
  constructor <;> simp only [setPoint]
  · grind
  · grind
  · exact inFlight
  · grind
  · grind
  · grind
  · exact clean

end

/-- A page that is not live and zero on disk is handed out. -/
theorem Coherent.handOut [Zero D] (busy : s.Busy) (tied : ∀ page, s.Tied page → s.live page = true)
    {q : BufferPool n T D} (gone : s.live page = false) (zero : s.disk page = 0) (points : q.point = s.point)
    (frames : q.frames = s.frames) (table : q.pageTable = s.pageTable) (loading : q.loading = s.loading)
    (flushing : q.flushing = s.flushing) (disk : q.disk = s.disk) (free : q.freeFrames = s.freeFrames)
    (live : q.live = update s.live page true) : (q.setPoint t .idle).Coherent (update content page 0) := by
  have untied : ¬ s.Tied page := by
    intro now
    rw [tied page now] at gone
    cases gone
  have absent : s.pageTable page = none := by
    by_contra mapped
    exact untied (.inl mapped)
  have grounded : s.flushing page = false := by
    by_contra flies
    exact untied (.inr (Bool.not_eq_false _ ▸ flies))
  have loaders (u : T) (p : Int) (m : GuardMode) (g : Fin n) (reads : s.point u = .loaded p m g) : p ≠ page := by
    rintro rfl
    have mapped := (busy.loader u p g (by rw [reads]; rfl)).1
    rw [absent] at mapped
    cases mapped
  obtain ⟨resident, loads, inFlight, away, loaded, landed, clean⟩ := coherent
  constructor <;>
    simp only [setPoint, points, frames, free, live]
  · grind
  · grind
  · grind
  · grind
  · grind
  · grind
  · exact clean

end

end

/-- The last bytes written to each page through a write guard: zeros for a page not written since it was handed
out, and the disk's bytes for a page in use from the start. -/
def contentOf [Zero D] (base : Int → D) : List (PoolEvent D) → Int → D
  | [] => base
  | .wrote page bytes :: earlier => update (contentOf base earlier) page bytes
  | .allocated page :: earlier => update (contentOf base earlier) page 0
  | .exposed _ _ :: earlier | .outOfFrames :: earlier | .threw _ :: earlier => contentOf base earlier

/-- Callers are disciplined, deallocated pages are zeroed, the read of a fetch and the write of a `FlushPage`
succeed, the write of a guard's `Flush` reports no failure, and no write-back throws. -/
def Reliable (s : BufferPool n T D) (a : PoolAction T D) : Prop :=
  s.Disciplined a ∧ s.Zeroing a ∧
    match a with
    | .advance t outcome =>
      match s.point t with
      | .loading _ _ _ | .flushLatching _ _ => outcome.fails = false ∧ outcome.throws = false
      | .evicting _ _ _ _ => outcome.throws = false
      | _ => True
    | .flush _ outcome => outcome.fails = false
    | .call _ _ | .getData _ | .getDataMut _ _ | .drop _ => True

section
variable {s next : BufferPool n T D} {t : T} {events log : List (PoolEvent D)} [Fintype T] [Zero D] {base : Int → D}

omit [Fintype T] in
theorem Change.made {a : PoolAction T D} (change : Change s a next events) :
    (events = [] ∨ events = [.outOfFrames] ∨ ∃ changed, events = [.threw changed]) ∨
    (∃ page, events = [.allocated page] ∧ (page = s.nextPageId ∨ page ∈ s.freePages)) ∨
    (∃ t page f, (s.point t).guard = some (page, f) ∧ events = [.exposed page (s.frames f).data]) ∨
    ∃ page bytes, events = [.wrote page bytes] := by
  cases change with
  | quiet _ _ silent => rcases silent with rfl | rfl | rfl <;> simp
  | keep _ silent | save _ _ _ silent => rcases silent with rfl | rfl <;> simp
  | allocated => simp
  | reused before pages => simp [pages]
  | @writeBack _ _ _ _ _ outcome | @load _ _ _ _ outcome | @deallocate _ _ _ outcome =>
    cases outcome <;> simp [BufferPool.writeBack, BufferPool.load, deallocatePage]
  | @finish _ t page mode f old ok => fun_cases finishEviction s t page mode f old ok <;> simp
  | @unpin _ t f => fun_cases BufferPool.unpin s t f <;> simp
  | @delete t page => fun_cases deletePage s t page <;> simp
  | exposed guards => exact .inr (.inr (.inl ⟨_, _, _, guards, rfl⟩))
  | _ => simp

theorem Coherent.step (coherent : s.Coherent (contentOf base log)) (placed : s.book.Placed)
    (owned : s.Owned (· = 0)) (busy : s.Busy) {a : PoolAction T D} (reliable : s.Reliable a)
    (taken : s.step a = some (next, events)) :
    next.Coherent (contentOf base (events ++ log)) := by
  have tied := owned.tied
  have calm := reliable.2.2
  have framed {q : BufferPool n T D} {t : T} {after : PoolPoint n} (kept : q.Coherent (contentOf base log))
      (calm : after.calm = true) : (q.setPoint t after).Coherent (contentOf base log) :=
    kept.keep rfl rfl rfl rfl rfl rfl rfl (fun _ => .intro rfl (.intro rfl rfl)) calm
  have repinned (f : Fin n) (frame : Frame D) (data : frame.data = (s.frames f).data)
      (dirty : frame.isDirty = (s.frames f).isDirty) (page : frame.pageId = (s.frames f).pageId) (g : Fin n) :
      ((s.setFrame f frame).frames g).data = (s.frames g).data ∧
        ((s.setFrame f frame).frames g).isDirty = (s.frames g).isDirty ∧
        ((s.setFrame f frame).frames g).pageId = (s.frames g).pageId := by
    by_cases same : g = f
    · subst same
      simp only [setFrame, update_self]
      exact ⟨data, dirty, page⟩
    · simp only [setFrame, update_of_ne same]
      exact ⟨trivial, trivial, trivial⟩
  cases change_of_step taken with
  | quiet _ rests silent =>
    rcases silent with rfl | rfl | rfl <;> exact framed coherent (PoolPoint.calm_of_detached rests)
  | lost full chosen absent => exact (not_lost placed full chosen absent).elim
  | told => exact coherent.keep rfl rfl rfl rfl rfl rfl rfl (fun _ => .intro rfl (.intro rfl rfl)) rfl
  | allocated =>
    obtain ⟨gone, zero⟩ := (owned.standing s.nextPageId).fresh le_rfl
    exact coherent.handOut busy tied gone zero rfl rfl rfl rfl rfl rfl rfl rfl
  | reused _ pages =>
    obtain ⟨gone, _, zero⟩ := (owned.standing _).free (by rw [pages]; exact List.mem_cons_self)
    exact coherent.handOut busy tied gone zero rfl rfl rfl rfl rfl rfl rfl rfl
  | pinned _ _ _ _ holds =>
    exact coherent.keep rfl rfl rfl rfl rfl rfl rfl (repinned _ _ rfl rfl rfl)
      (PoolPoint.calm_of_pins (PoolPoint.pins_of_settled holds) (PoolPoint.loader_of_settled holds))
  | refused => exact coherent.keep rfl rfl rfl rfl rfl rfl rfl (repinned _ _ rfl rfl rfl) rfl
  | mapping _ landed absent first => exact coherent.mapping landed absent first
  | detach _ full chosen holds dirty =>
    exact coherent.detach placed _ _ (victim_mapped placed full chosen holds).1 holds dirty
  | recycle before full chosen holds clean =>
    exact framed (coherent.recycle (victim_mapped placed full chosen holds).1 clean)
      (PoolPoint.calm_of_detached before)
  | @writeBack _ _ _ _ _ outcome here => cases outcome <;> exact coherent.writeBack placed tied here _
  | @finish _ _ _ _ _ _ ok here => cases ok <;> exact coherent.finishEviction placed busy here
  | @load _ _ _ _ outcome here =>
    simp only [here] at calm
    have loads := coherent.load placed busy tied here calm.1
    cases outcome <;> exact loads
  | ready here => exact coherent.ready busy here
  | keep keeps silent =>
    rcases silent with rfl | rfl <;> exact coherent.keep rfl rfl rfl rfl rfl rfl rfl (repinned _ _ rfl rfl rfl)
      (PoolPoint.calm_of_pins keeps.pins keeps.loader)
  | save keeps holds saved silent =>
    have arrives : _ ∨ _ = true := saved.imp_right fun dirty => dirty.elim id fun failed => by
      obtain ⟨left, rfl | ⟨rfl, rest, here⟩⟩ := failed
      · cases calm
      · simp only [here] at calm
        cases calm.1
    rcases silent with rfl | rfl <;> exact framed (coherent.save placed busy keeps.held holds rfl holds arrives)
      (PoolPoint.calm_of_pins keeps.pins keeps.loader)
  | @unpin _ t f here =>
    have dropped : ((s.setFrame f { s.frames f with pinCount := (s.frames f).pinCount - 1 }).setPoint t .idle).Coherent
        (contentOf base log) :=
      coherent.keep rfl rfl rfl rfl rfl rfl rfl (repinned f _ rfl rfl rfl) rfl
    fun_cases unpin s t f with
    | case1 =>
      exact ⟨dropped.resident, dropped.loading, dropped.inFlight, dropped.away, dropped.loaded, dropped.landed,
        dropped.clean⟩
    | _ => exact dropped
  | flushUnpin here =>
    refine coherent.keep rfl rfl rfl rfl rfl rfl rfl (repinned _ _ rfl rfl rfl) ?_
    split <;> rfl
  | @delete t page _ here =>
    have same : contentOf base ((s.deletePage t page).2 ++ log) = contentOf base log := by
      fun_cases deletePage s t page <;> rfl
    rw [same]
    exact coherent.delete placed
  | @deallocate _ _ _ outcome here =>
    obtain ⟨gone, _⟩ := (owned.standing _).dying _ false (by rw [here]; rfl)
    cases outcome <;> exact coherent.dead placed tied gone rfl
  | reclaim => exact coherent.keep rfl rfl rfl rfl rfl rfl rfl (fun _ => .intro rfl (.intro rfl rfl)) rfl
  | exposed => exact coherent
  | wrote here => exact coherent.write placed busy here _

theorem Initial.coherent (initial : Initial base s) : s.Coherent (contentOf base []) := by
  constructor
  · intro page f _ mapped
    rw [initial.pageTable] at mapped
    cases mapped
  · intro page f _ mapped
    rw [initial.pageTable] at mapped
    cases mapped
  · intro page f _ holds
    rw [initial.frames] at holds
    cases holds
  · intro page _ _ _
    rw [initial.disk]
    rfl
  · intro t page mode f loaded
    rw [initial.point] at loaded
    cases loaded
  · intro t page mode f old landed
    rw [initial.point] at landed
    cases landed
  · intro f _
    rw [initial.frames]

/-- Every page in flight has an actor that is writing it back. -/
def Flying (s : BufferPool n T D) : Prop :=
  ∀ page, s.flushing page = true → ∃ t f, (s.point t).victim = some (f, page)

theorem Flying.keep (flying : s.Flying) {q : BufferPool n T D} {after : PoolPoint n} (points : q.point = s.point)
    (flushing : q.flushing = s.flushing) (kept : (s.point t).victim = none ∨ after.victim = (s.point t).victim) :
    (q.setPoint t after).Flying := by
  intro page flies
  simp only [setPoint, flushing] at flies
  obtain ⟨u, f, victim⟩ := flying page flies
  refine ⟨u, f, ?_⟩
  by_cases same : u = t
  · subst same
    simp only [setPoint, update_self]
    rcases kept with none | kept
    · rw [none] at victim
      cases victim
    · exact kept.trans victim
  · simp only [setPoint, update_of_ne same, points]
    exact victim

theorem Flying.finishEviction (flying : s.Flying) {page old : Int} {mode : GuardMode} {f : Fin n} {ok : Bool}
    (here : s.point t = .evicted page mode f old ok) : (s.finishEviction t page mode f old ok).1.Flying := by
  have landed {q : BufferPool n T D} {after : PoolPoint n} (points : q.point = s.point)
      (flushing : q.flushing = update s.flushing old false) : (q.setPoint t after).Flying := by
    intro other flies
    simp only [setPoint, flushing] at flies
    have apart : other ≠ old := by
      rintro rfl
      simp at flies
    rw [update_of_ne apart] at flies
    obtain ⟨u, g, victim⟩ := flying other flies
    have elsewhere : u ≠ t := by
      rintro rfl
      rw [here] at victim
      cases victim
      exact apart rfl
    refine ⟨u, g, ?_⟩
    simp only [setPoint, update_of_ne elsewhere, points]
    exact victim
  unfold BufferPool.finishEviction
  split
  · exact landed rfl rfl
  · exact landed rfl rfl

theorem Flying.step (flying : s.Flying) {a : PoolAction T D} (reliable : s.Reliable a)
    (change : Change s a next events) : next.Flying := by
  cases change with
  | quiet before | lost _ _ _ before | told before | allocated before | reused before | pinned before
  | refused before | recycle before =>
    exact flying.keep rfl rfl (.inl (PoolPoint.victim_of_detached before))
  | @detach _ t _ _ victim old _ before =>
    intro page flies
    by_cases same : page = old
    · subst same
      refine ⟨t, victim, ?_⟩
      simp [setPoint, PoolPoint.victim]
    · simp only [setPoint, setFrame, update_of_ne same] at flies
      obtain ⟨u, f, other⟩ := flying page flies
      refine ⟨u, f, ?_⟩
      have apart : u ≠ t := by
        rintro rfl
        rw [PoolPoint.victim_of_detached before] at other
        cases other
      simp only [setPoint, update_of_ne apart]
      exact other
  | @writeBack _ _ _ _ _ outcome here =>
    have quiet := reliable.2.2
    simp only [here] at quiet
    cases outcome with
    | ok | failed left => exact flying.keep rfl rfl (.inr (by rw [here]; rfl))
    | threw left => cases quiet
  | finish here => exact flying.finishEviction here
  | @load _ _ _ _ outcome here => cases outcome <;> exact flying.keep rfl rfl (.inl (by rw [here]; rfl))
  | keep keeps | save keeps =>
    exact flying.keep rfl rfl (.inl (PoolPoint.victim_of_pins (PoolPoint.pins_of_settled keeps.held)))
  | @unpin _ t f here =>
    have dropped : ((s.setFrame f { s.frames f with pinCount := (s.frames f).pinCount - 1 }).setPoint t .idle).Flying :=
      flying.keep rfl rfl (.inl (by rw [here]; rfl))
    fun_cases unpin s t f <;> exact dropped
  | @delete t page _ here =>
    have none : (s.point t).victim = none := by rw [here]; rfl
    fun_cases deletePage s t page <;> exact flying.keep rfl rfl (.inl none)
  | @deallocate _ _ _ outcome here => cases outcome <;> exact flying.keep rfl rfl (.inl (by rw [here]; rfl))
  | mapping here | ready here | flushUnpin here | reclaim here =>
    exact flying.keep rfl rfl (.inl (by rw [here]; rfl))
  | exposed | wrote => exact flying

/-- The current bytes of the page are in its frame, in the frame an actor is writing back, or on disk. -/
def HasCopy (s : BufferPool n T D) (page : Int) (bytes : D) : Prop :=
  (∃ f, s.pageTable page = some f ∧ s.loading page = false ∧ (s.frames f).data = bytes) ∨
    (∃ t f, (s.point t).victim = some (f, page) ∧ (s.frames f).data = bytes) ∨ s.disk page = bytes

theorem Coherent.hasCopy {content : Int → D} (coherent : s.Coherent content) (placed : s.book.Placed)
    (flying : s.Flying) (page : Int) (alive : s.live page = true) : s.HasCopy page (content page) := by
  cases mapped : s.pageTable page with
  | some f =>
    cases busy : s.loading page with
    | false => exact .inl ⟨f, mapped, busy, (coherent.resident page f alive mapped busy).1⟩
    | true => exact .inr (.inr (coherent.loading page f alive mapped busy).1)
  | none =>
    cases flushes : s.flushing page with
    | false => exact .inr (.inr (coherent.away page alive mapped flushes))
    | true =>
      obtain ⟨t, f, victim⟩ := flying page flushes
      have holds : (s.frames f).pageId = some page := (placed.victims t f page victim).1
      exact .inr (.inl ⟨t, f, victim, (coherent.inFlight page f alive holds flushes).1⟩)

end

end BufferPool

open BufferPool

/-- What a guard shows is what was written last. -/
def Shown {D : Type} [Zero D] (base : Int → D) : PoolEvent D → List (PoolEvent D) → Prop
  | .exposed page bytes, earlier => bytes = contentOf base earlier page
  | .allocated _, _ | .wrote _ _, _ | .outOfFrames, _ | .threw _, _ => True

namespace BufferPool
variable {n : Nat} {T D : Type} [DecidableEq T] [Fintype T] [Zero D] {base : Int → D} {s next : BufferPool n T D}
  {log events : List (PoolEvent D)}

theorem Coherent.shown {content : Int → D} (coherent : s.Coherent content) (owned : s.Owned (· = 0))
    (busy : s.Busy) {t : T} {page : Int} {f : Fin n} (guards : (s.point t).guard = some (page, f)) :
    (s.frames f).data = content page := by
  have mapped := busy.guard t page f guards
  have read := busy.settled t f (PoolPoint.settled_of_guard guards) page mapped
  have alive : s.live page = true := by
    apply owned.tied
    left
    rw [mapped]
    exact Option.some_ne_none f
  exact (coherent.resident page f alive mapped read).1

theorem step_shown (coherent : s.Coherent (contentOf base log)) (owned : s.Owned (· = 0)) (busy : s.Busy)
    (shown : Justified (Shown base) log) {a : PoolAction T D} (taken : s.step a = some (next, events)) :
    Justified (Shown base) (events ++ log) := by
  rcases (change_of_step taken).made with (rfl | rfl | ⟨_, rfl⟩) | ⟨_, rfl, _⟩ | ⟨t, page, f, guards, rfl⟩ | ⟨_, _, rfl⟩
  · exact shown
  · exact ⟨trivial, shown⟩
  · exact ⟨trivial, shown⟩
  · exact ⟨trivial, shown⟩
  · exact ⟨coherent.shown owned busy guards, shown⟩
  · exact ⟨trivial, shown⟩

end BufferPool

/-- In a run of reliable steps every guard shows the bytes written last through a write guard on its page, and the
bytes of every live page are kept somewhere. -/
theorem pool_coherent {n : Nat} {T D : Type} [DecidableEq T] [Fintype T] [Zero D] {base : Int → D}
    {log : List (PoolEvent D)} {s : BufferPool n T D} (run : Run (bufferPool n T D base) Reliable log s) :
    Justified (Shown base) log ∧ ∀ page, s.live page = true → s.HasCopy page (contentOf base log page) := by
  have invariant : s.book.Placed ∧ s.Flying ∧ s.Owned (· = 0) ∧ s.Busy ∧ s.Coherent (contentOf base log) ∧
      Justified (Shown base) log := by
    refine Run.invariant (I := fun log s => s.book.Placed ∧ s.Flying ∧ s.Owned (· = 0) ∧ s.Busy ∧
      s.Coherent (contentOf base log) ∧ Justified (Shown base) log) ?_ ?_ run
    · intro s initial
      refine ⟨initial.placed, ?_, initial.owned rfl, initial.busy, initial.coherent, trivial⟩
      intro page flies
      rw [initial.flushing page] at flies
      cases flies
    · intro log s next a events _ ⟨placed, flying, owned, busy, coherent, shown⟩ reliable taken
      exact ⟨(step_moves placed taken).placed placed, flying.step reliable (change_of_step taken),
        owned.step placed reliable.1 rfl (.inl reliable.2.1) taken, busy.step placed taken,
        coherent.step placed owned busy reliable taken, step_shown coherent owned busy shown taken⟩
  obtain ⟨placed, flying, owned, busy, coherent, shown⟩ := invariant
  exact ⟨shown, fun page alive => coherent.hasCopy placed flying page alive⟩

def reliableTest (s : BufferPool 1 (Fin 2) SampleBytes) : PoolAction (Fin 2) SampleBytes → Bool
  | .advance t outcome =>
    match s.point t with
    | .allocating => decide (s.nextPageId + 1 < 2 ^ 31)
    | .fetching page _ => s.live page
    | .deleting page => s.live page && !s.flushing page
    | .deallocating _ _ => !outcome.fails
    | .loading _ _ _ | .flushLatching _ _ => !outcome.fails && !outcome.throws
    | .evicting _ _ _ _ => !outcome.throws
    | _ => true
  | .flush _ outcome => !outcome.fails
  | .call _ .allocateRawPageId => false
  | .call _ _ | .getData _ | .getDataMut _ _ | .drop _ => true

theorem reliable_of_test (s : BufferPool 1 (Fin 2) SampleBytes) (a : PoolAction (Fin 2) SampleBytes)
    (passed : reliableTest s a = true) : s.Reliable a := by
  cases a with
  | advance t outcome =>
    simp only [reliableTest] at passed
    simp only [Reliable, Disciplined, Zeroing]
    cases place : s.point t <;> simp_all
  | flush t outcome =>
    simp only [reliableTest, Bool.not_eq_true'] at passed
    exact ⟨trivial, trivial, passed⟩
  | call t request =>
    cases request with
    | allocateRawPageId => cases passed
    | _ => exact ⟨trivial, trivial, trivial⟩
  | _ => exact ⟨trivial, trivial, trivial⟩

/-- Page 0 is created, written and released. -/
def writeFirst : List (PoolAction (Fin 2) SampleBytes) :=
  checkNewPage 0 0 ++ [.advance 0 .ok, .getDataMut 0 .written, .drop 0, .advance 0 .ok]

/-- A read guard on a page, from the call to the bytes it shows, in `steps` steps that all succeed. -/
def readPage (t : Fin 2) (page : Int) (steps : Nat) : List (PoolAction (Fin 2) SampleBytes) :=
  .call t (.checkedPage page .read) :: List.replicate steps (.advance t .ok) ++ [.getData t]

/-- The write-back of the only frame fails, and the page is still there. -/
theorem pool_coherent_failed :
    ∃ log s, Run (bufferPool 1 (Fin 2) SampleBytes fun _ => 0) Reliable log s ∧ log.head? = some (.exposed 0 .written) ∧
      (Justified (Shown fun _ => 0) log ∧
        ∀ page, s.live page = true → s.HasCopy page (contentOf (fun _ => 0) log page)) := by
  obtain ⟨s, log, run, shown⟩ := execChecked_shows (M := bufferPool 1 (Fin 2) SampleBytes fun _ => 0) reliable_of_test
    (writeFirst ++ [.call 1 .newPage, .advance 1 .ok, .call 1 (.checkedPage 1 .read), .advance 1 .ok,
      .advance 1 (.failed (some .torn)), .advance 1 .ok] ++ readPage 0 0 2) oneFrame_initial
    (fun r => r.2.head?) (some (.exposed 0 .written)) (by decide +kernel)
  exact ⟨log, s, run, shown, pool_coherent run⟩

/-- A flush that fails leaves the frame clean, and the write is lost with it. A read that fails shows the bytes of
the page that was in the frame before. A page that was not zeroed when it was deleted, or was deleted while its
write-back was in flight, shows its old bytes when its id is used again. -/
theorem stale_bytes :
    (∃ log s, Run (bufferPool 1 (Fin 2) SampleBytes fun _ => 0) always log s ∧ log.head? = some (.exposed 0 0) ∧
      contentOf (fun _ => 0) log.tail 0 = .written) ∧
    (∃ log s, Run (bufferPool 1 (Fin 2) SampleBytes fun _ => 0) always log s ∧ log.head? = some (.exposed 1 .written) ∧
      contentOf (fun _ => 0) log.tail 1 = 0) ∧
    (∃ log s, Run (bufferPool 1 (Fin 2) SampleBytes fun _ => 0) always log s ∧ log.head? = some (.exposed 0 .written) ∧
      contentOf (fun _ => 0) log.tail 0 = 0) ∧
    ∃ log s, Run (bufferPool 1 (Fin 2) SampleBytes fun _ => 0) always log s ∧ log.head? = some (.exposed 0 .written) ∧
      contentOf (fun _ => 0) log.tail 0 = 0 := by
  have shows (actions : List (PoolAction (Fin 2) SampleBytes)) (page : Int) (bytes expected : SampleBytes)
      (result : (exec (bufferPool 1 (Fin 2) SampleBytes fun _ => 0) oneFrame [] actions).map
        (fun r => (r.2.head?, contentOf (fun _ => 0) r.2.tail page)) = some (some (.exposed page bytes), expected)) :
      ∃ log s, Run (bufferPool 1 (Fin 2) SampleBytes fun _ => 0) always log s ∧ log.head? = some (.exposed page bytes) ∧
        contentOf (fun _ => 0) log.tail page = expected := by
    obtain ⟨s, log, run, shown⟩ := exec_shows actions oneFrame_initial (fun _ _ _ => trivial) _ _ result
    simp only [Prod.mk.injEq] at shown
    exact ⟨log, s, run, shown⟩
  refine ⟨shows (writeFirst ++ [.call 0 (.flushPage 0), .advance 0 .ok, .advance 0 (.failed none), .advance 0 .ok,
      .advance 0 .ok, .advance 0 .ok, .call 1 .newPage, .advance 1 .ok] ++ readPage 1 1 5 ++
      [.drop 1, .advance 1 .ok] ++ readPage 0 0 5) 0 0 .written (by decide +kernel),
    shows (writeFirst ++ [.call 1 .newPage, .advance 1 .ok, .call 1 (.checkedPage 1 .read), .advance 1 .ok,
      .advance 1 .ok, .advance 1 .ok, .advance 1 .ok, .advance 1 (.failed none), .advance 1 .ok, .advance 1 .ok,
      .getData 1]) 1 .written 0 (by decide +kernel),
    shows (writeFirst ++ [.call 0 (.flushPage 0), .advance 0 .ok, .advance 0 .ok, .advance 0 .ok, .advance 0 .ok,
      .advance 0 .ok, .call 0 (.deletePage 0), .advance 0 .ok, .advance 0 (.failed none), .advance 0 .ok,
      .call 0 .newPage] ++ readPage 0 0 4) 0 .written 0 (by decide +kernel),
    shows (writeFirst ++ [.call 1 .newPage, .advance 1 .ok, .call 1 (.checkedPage 1 .read), .advance 1 .ok,
      .call 0 (.deletePage 0), .advance 0 .ok, .advance 0 .ok, .advance 0 .ok, .advance 1 .ok, .advance 1 .ok,
      .call 0 .newPage] ++ readPage 0 0 4) 0 .written 0 (by decide +kernel)⟩

end BumbleBee.Buffer
