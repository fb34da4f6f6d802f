import BumbleBee.Buffer.BufferPool

/-!
What a step of the pool does. An actor that holds nothing goes on, takes a page id, pins a
mapped frame, maps a free one or makes a frame free; one that holds a frame keeps it, saves
its bytes or lets it go. Every invariant of the pool is shown change by change.
-/

namespace BumbleBee.Buffer
open Library.Transition Function

namespace PoolPoint
variable {n : Nat}

/-- The frame an actor pins. -/
def pins : PoolPoint n → Option (Fin n)
  | .loading _ _ f | .loaded _ _ f | .latching _ _ f | .reading _ f | .writing _ f | .dropping f
  | .flushLatching f _ | .flushed f _ | .leaked f => some f
  | .idle | .allocating | .fetching _ _ | .evicting _ _ _ _ | .evicted _ _ _ _ _ | .flushing _ | .unpinned _ _
  | .deleting _ | .deallocating _ _ | .reclaiming _ => none

/-- The page an actor is bringing into a frame. -/
def loader : PoolPoint n → Option (Int × Fin n)
  | .loading page _ f | .loaded page _ f => some (page, f)
  | .idle | .allocating | .fetching _ _ | .evicting _ _ _ _ | .evicted _ _ _ _ _ | .latching _ _ _ | .reading _ _
  | .writing _ _ | .dropping _ | .flushing _ | .flushLatching _ _ | .flushed _ _ | .unpinned _ _ | .leaked _
  | .deleting _ | .deallocating _ _ | .reclaiming _ => none

/-- The frame an actor pins whose page has been read. -/
def settled : PoolPoint n → Option (Fin n)
  | .latching _ _ f | .reading _ f | .writing _ f | .dropping f | .flushLatching f _ | .flushed f _ => some f
  | .idle | .allocating | .fetching _ _ | .evicting _ _ _ _ | .evicted _ _ _ _ _ | .loading _ _ _ | .loaded _ _ _
  | .flushing _ | .unpinned _ _ | .leaked _ | .deleting _ | .deallocating _ _ | .reclaiming _ => none

/-- The page and frame of a guard. -/
def guard : PoolPoint n → Option (Int × Fin n)
  | .latching page _ f | .reading page f | .writing page f => some (page, f)
  | .idle | .allocating | .fetching _ _ | .evicting _ _ _ _ | .evicted _ _ _ _ _ | .loading _ _ _ | .loaded _ _ _
  | .dropping _ | .flushing _ | .flushLatching _ _ | .flushed _ _ | .unpinned _ _ | .leaked _ | .deleting _
  | .deallocating _ _ | .reclaiming _ => none

/-- The actor holds no frame, waits for no write-back and takes no page away. -/
def detached : PoolPoint n → Bool
  | .idle | .allocating | .fetching _ _ | .flushing _ | .unpinned _ _ | .deleting _ => true
  | .evicting _ _ _ _ | .evicted _ _ _ _ _ | .loading _ _ _ | .loaded _ _ _ | .latching _ _ _ | .reading _ _
  | .writing _ _ | .dropping _ | .flushLatching _ _ | .flushed _ _ | .leaked _ | .deallocating _ _
  | .reclaiming _ => false

/-- The actor goes on with the frame it has pinned. -/
structure Keeps (f : Fin n) (before after : PoolPoint n) : Prop where
  held : before.settled = some f
  pins : after.pins = some f
  loader : after.loader = none
  settled : after.settled = some f ∨ after.settled = none
  guard : after.guard = before.guard ∨ after.guard = none

variable {f : Fin n} {page : Int} {x : PoolPoint n}

theorem pins_of_loader (loads : x.loader = some (page, f)) : x.pins = some f := by
  cases x <;> first | (cases loads; rfl) | cases loads

theorem pins_of_settled (holds : x.settled = some f) : x.pins = some f := by
  cases x <;> first | (cases holds; rfl) | cases holds

theorem settled_of_guard (guards : x.guard = some (page, f)) : x.settled = some f := by
  cases x <;> first | (cases guards; rfl) | cases guards

theorem quiet_of_unpinned (idle : x.pins = none) : x.loader = none ∧ x.settled = none ∧ x.guard = none := by
  cases x <;> first | exact ⟨rfl, rfl, rfl⟩ | cases idle

theorem loader_of_settled (holds : x.settled = some f) : x.loader = none := by
  cases x <;> first | rfl | cases holds

theorem pins_of_detached (rests : x.detached = true) : x.pins = none := by
  cases x <;> first | rfl | cases rests

end PoolPoint

namespace BufferPool
variable {n : Nat} {T D : Type} [DecidableEq T] [Zero D]

inductive Change (s : BufferPool n T D) : PoolAction T D → BufferPool n T D → List (PoolEvent D) → Prop
  | quiet {a t after events} (before : (s.point t).detached = true) (rests : after.detached = true)
      (silent : events = [] ∨ events = [.outOfFrames] ∨ events = [.threw false]) :
      Change s a (s.setPoint t after) events
  | lost {a t victim replacer} (full : s.freeFrames = []) (chosen : s.replacer.evict = some (victim, replacer))
      (absent : (s.frames victim).pageId = none) (before : (s.point t).detached = true) :
      Change s a ({ s with replacer := replacer }.setPoint t .idle) [.threw false]
  | told {a t f rest replacer} (before : (s.point t).detached = true) (unpinned : (s.frames f).pinCount = 0)
      (told : s.replacer.setEvictable f true = some replacer) :
      Change s a ({ s with replacer := replacer }.setPoint t (.flushing rest)) []
  | allocated {a t} (before : (s.point t).detached = true)
      (counts : a = .call t .allocateRawPageId ∨ s.point t = .allocating ∧ ∃ outcome, a = .advance t outcome) :
      Change s a (s.allocate t).1 [.allocated s.nextPageId]
  | reused {a t page rest} (before : (s.point t).detached = true) (pages : s.freePages = page :: rest) :
      Change s a ({ s with freePages := rest, live := update s.live page true }.setPoint t .idle)
        [.allocated page]
  | pinned {a t page f replacer after} (before : (s.point t).detached = true) (mapped : s.pageTable page = some f)
      (read : s.loading page = false) (status : replacer.status = update s.replacer.status f (some false))
      (holds : after.settled = some f) (guards : after.guard = some (page, f) ∨ after.guard = none) :
      Change s a (({ s with replacer := replacer }.setFrame f
        { s.frames f with pinCount := (s.frames f).pinCount + 1 }).setPoint t after) []
  | refused {a t page f} (before : (s.point t).detached = true) (mapped : s.pageTable page = some f)
      (untold : s.replacer.setEvictable f false = none) :
      Change s a ((s.setFrame f { s.frames f with pinCount := (s.frames f).pinCount + 1 }).setPoint t (.leaked f))
        [.threw false]
  | mapping {t page mode f rest outcome} (here : s.point t = .fetching page mode)
      (landed : s.flushing page = false) (absent : s.pageTable page = none) (first : s.freeFrames = f :: rest) :
      Change s (.advance t outcome) (({ s with
          freeFrames := rest
          pageTable := update s.pageTable page (some f)
          loading := update s.loading page true
          replacer := s.replacer.access f page false }.setFrame f
        { s.frames f with pageId := some page, pinCount := (s.frames f).pinCount + 1 }).setPoint t
        (.loading page mode f)) []
  | detach {a t page mode victim old replacer} (before : (s.point t).detached = true) (full : s.freeFrames = [])
      (chosen : s.replacer.evict = some (victim, replacer)) (holds : (s.frames victim).pageId = some old)
      (dirty : (s.frames victim).isDirty = true) :
      Change s a (({ s with
          replacer := replacer
          pageTable := update s.pageTable old none
          flushing := update s.flushing old true }.setFrame victim
        { s.frames victim with rwlatch := .unlocked }).setPoint t (.evicting page mode victim old)) []
  | recycle {a t victim old replacer} (before : (s.point t).detached = true) (full : s.freeFrames = [])
      (chosen : s.replacer.evict = some (victim, replacer)) (holds : (s.frames victim).pageId = some old)
      (clean : (s.frames victim).isDirty = false) :
      Change s a (({ s with
          replacer := replacer
          pageTable := update s.pageTable old none
          freeFrames := victim :: s.freeFrames }.setFrame victim (s.frames victim).reset).setPoint t (s.point t)) []
  | writeBack {t page mode f old outcome} (here : s.point t = .evicting page mode f old) :
      Change s (.advance t outcome) (s.writeBack t page mode f old outcome).1 (s.writeBack t page mode f old outcome).2
  | finish {a t page mode f old ok} (here : s.point t = .evicted page mode f old ok) :
      Change s a (s.finishEviction t page mode f old ok).1 (s.finishEviction t page mode f old ok).2
  | load {t page mode f outcome} (here : s.point t = .loading page mode f) :
      Change s (.advance t outcome) (s.load t page mode f outcome).1 (s.load t page mode f outcome).2
  | ready {a t page mode f} (here : s.point t = .loaded page mode f) :
      Change s a ({ s with loading := update s.loading page false }.setPoint t (.latching page mode f)) []
  | keep {a t f latch after events} (keeps : PoolPoint.Keeps f (s.point t) after)
      (silent : events = [] ∨ events = [.threw false]) :
      Change s a ((s.setFrame f { s.frames f with rwlatch := latch }).setPoint t after) events
  | save {a t f page bytes dirty latch after events} (keeps : PoolPoint.Keeps f (s.point t) after)
      (holds : (s.frames f).pageId = some page)
      (saved : bytes = (s.frames f).data ∨ dirty = true ∨ ∃ left, a = .flush t (.failed left) ∨
        a = .advance t (.failed left) ∧ ∃ rest, s.point t = .flushLatching f rest)
      (silent : events = [] ∨ events = [.threw false]) :
      Change s a (({ s with disk := update s.disk page bytes }.setFrame f
        { s.frames f with isDirty := dirty, rwlatch := latch }).setPoint t after) events
  | unpin {a t f} (here : s.point t = .dropping f) : Change s a (s.unpin t f).1 (s.unpin t f).2
  | flushUnpin {t f rest outcome} (here : s.point t = .flushed f rest) :
      Change s (.advance t outcome) (s.flushUnpin t f rest) []
  | delete {t page outcome} (here : s.point t = .deleting page) :
      Change s (.advance t outcome) (s.deletePage t page).1 (s.deletePage t page).2
  | deallocate {t page changed outcome} (here : s.point t = .deallocating page changed) :
      Change s (.advance t outcome) (s.deallocatePage t page changed outcome).1
        (s.deallocatePage t page changed outcome).2
  | reclaim {a t page} (here : s.point t = .reclaiming page) :
      Change s a ({ s with freePages := page :: s.freePages }.setPoint t .idle) []
  | exposed {a t page f} (guards : (s.point t).guard = some (page, f)) :
      Change s a s [.exposed page (s.frames f).data]
  | wrote {a t page f bytes} (here : s.point t = .writing page f) :
      Change s a (s.setFrame f { s.frames f with data := bytes, isDirty := true }) [.wrote page bytes]

variable {s next : BufferPool n T D} {t : T} {events : List (PoolEvent D)} {page : Int} {mode : GuardMode} {f : Fin n}
  {rest : List Int} {outcome : DiskOutcome D}

theorem change_of_pair {a : PoolAction T D} {result : BufferPool n T D × List (PoolEvent D)}
    (change : Change s a result.1 result.2) (done : some result = some (next, events)) : Change s a next events := by
  cases done
  exact change

theorem change_unmoved {a : PoolAction T D} {q : BufferPool n T D} (same : q.point = s.point)
    (change : Change s a (q.setPoint t (s.point t)) events) : Change s a q events := by
  rw [← same] at change
  simp only [setPoint, update_eq_self] at change
  exact change

theorem change_of_startCall (idle : s.point t = .idle) (request : PoolCall) :
    Change s (.call t request) (s.startCall t request).1 (s.startCall t request).2 := by
  have before : (s.point t).detached = true := congrArg PoolPoint.detached idle
  cases request with
  | newPage =>
    simp only [startCall]
    fun_cases newPage s t with
    | case1 page rest pages => exact .reused before pages
    | case2 => exact .quiet before rfl (.inl rfl)
  | allocateRawPageId => exact .allocated before (.inl rfl)
  | _ => exact .quiet before rfl (.inl rfl)

theorem change_of_evict (here : s.point t = .fetching page mode) (full : s.freeFrames = []) :
    Change s (.advance t outcome) (s.evictOneLocked t page mode).1 (s.evictOneLocked t page mode).2 := by
  have before : (s.point t).detached = true := congrArg PoolPoint.detached here
  fun_cases evictOneLocked s t page mode with
  | case1 => exact .quiet before rfl (.inr (.inl rfl))
  | case2 victim replacer chosen absent => exact .lost full chosen absent before
  | case3 victim replacer chosen old holds detached dirty => exact .detach before full chosen holds dirty
  | case4 victim replacer chosen old holds detached clean =>
    exact change_unmoved rfl (.recycle before full chosen holds (Bool.eq_false_of_not_eq_true clean))

theorem change_of_fetch (here : s.point t = .fetching page mode) (done : s.fetch t page mode = some (next, events)) :
    Change s (.advance t outcome) next events := by
  have before : (s.point t).detached = true := congrArg PoolPoint.detached here
  revert done
  fun_cases fetch s t page mode with
  | case1 waits => rintro ⟨⟩
  | case2 waits f mapped =>
    rintro ⟨⟩
    simp only [not_or, Bool.not_eq_true] at waits
    exact .pinned before mapped waits.1 (ArcReplacer.access_status ..) rfl (.inl rfl)
  | case3 waits absent full => exact change_of_pair (change_of_evict here full)
  | case4 waits absent f rest first =>
    rintro ⟨⟩
    simp only [not_or, Bool.not_eq_true] at waits
    exact .mapping here waits.2 absent first

section
variable {a : PoolAction T D} {after : PoolPoint n}

theorem Change.stay (keeps : PoolPoint.Keeps f (s.point t) after) (silent : events = [] ∨ events = [.threw false]) :
    Change s a (s.setPoint t after) events := by
  have change : Change s a ((s.setFrame f (s.frames f)).setPoint t after) events := .keep keeps silent
  simp only [setFrame, update_eq_self] at change
  exact change

end

theorem change_of_latch (here : s.point t = .latching page mode f)
    (done : s.latch t page mode f = some (next, events)) : Change s (.advance t outcome) next events := by
  have keeps (after : PoolPoint n) (pins : after.pins = some f) (loader : after.loader = none)
      (settled : after.settled = some f) (guard : after.guard = some (page, f) ∨ after.guard = none) :
      PoolPoint.Keeps f (s.point t) after := by
    rw [here]
    exact ⟨rfl, pins, loader, .inl settled, guard⟩
  revert done
  fun_cases latch s t page mode f <;> rintro ⟨⟩
  on_goal 5 => exact .stay (keeps (.dropping f) rfl rfl rfl (.inr rfl)) (.inl rfl)
  all_goals exact .keep (keeps _ rfl rfl rfl (.inl rfl)) (.inl rfl)

theorem change_of_flushPage (before : (s.point t).detached = true)
    (done : s.flushPage t page rest = some (next, events)) : Change s (.advance t outcome) next events := by
  revert done
  fun_cases flushPage s t page rest with
  | case1 waits => rintro ⟨⟩
  | case2 read absent => exact change_of_pair (.quiet before rfl (.inl rfl))
  | case3 read f mapped held replacer told =>
    rintro ⟨⟩
    exact .pinned before mapped (Bool.eq_false_of_not_eq_true read) (ArcReplacer.setEvictable_eq_some told).2 rfl
      (.inr rfl)
  | case4 read f mapped held untold => exact change_of_pair (.refused before mapped untold)

theorem change_of_flushFrame (here : s.point t = .flushLatching f rest)
    (done : s.flushFrame t f rest outcome = some (next, events)) : Change s (.advance t outcome) next events := by
  have keeps (after : PoolPoint n) (pins : after.pins = some f) (loader : after.loader = none)
      (settled : after.settled = some f ∨ after.settled = none) (guard : after.guard = none) :
      PoolPoint.Keeps f (s.point t) after := by
    rw [here]
    exact ⟨rfl, pins, loader, settled, .inr guard⟩
  revert done
  fun_cases flushFrame s t f rest outcome with
  | case1 latched => rintro ⟨⟩
  | case2 latched clean => exact change_of_pair (.stay (keeps (.flushed f rest) rfl rfl (.inl rfl) rfl) (.inl rfl))
  | case3 latched dirty page holds =>
    exact change_of_pair (.save (keeps _ rfl rfl (.inl rfl) rfl) holds (.inl rfl) (.inl rfl))
  | case4 latched dirty page left holds =>
    rintro ⟨⟩
    exact .save (keeps _ rfl rfl (.inl rfl) rfl) holds (.inr (.inr ⟨left, .inr ⟨rfl, rest, here⟩⟩)) (.inl rfl)
  | case5 latched dirty page left holds =>
    rintro ⟨⟩
    exact .save (keeps _ rfl rfl (.inr rfl) rfl) holds (.inr (.inl (Bool.not_eq_false _ ▸ dirty))) (.inr rfl)
  | case6 latched dirty absent => exact change_of_pair (.keep (keeps _ rfl rfl (.inr rfl) rfl) (.inr rfl))

theorem change_of_guardFlush (here : s.point t = .writing page f)
    (done : s.guardFlush f outcome = some (next, events)) : Change s (.flush t outcome) next events := by
  have keeps : PoolPoint.Keeps f (s.point t) (s.point t) := by
    rw [here]
    exact ⟨rfl, rfl, rfl, .inl rfl, .inl rfl⟩
  revert done
  fun_cases guardFlush s f outcome with
  | case1 clean => exact change_of_pair (change_unmoved rfl (.stay keeps (.inl rfl)))
  | case2 dirty page holds => exact change_of_pair (change_unmoved rfl (.save keeps holds (.inl rfl) (.inl rfl)))
  | case3 dirty page left holds =>
    exact change_of_pair (change_unmoved rfl (.save keeps holds (.inr (.inr ⟨left, .inl rfl⟩)) (.inl rfl)))
  | case4 dirty page left holds =>
    rintro ⟨⟩
    have saved : Change s (.flush t (.threw left))
      (({ s with disk := update s.disk page (left.getD (s.disk page)) }.setFrame
        f (s.frames f)).setPoint t (s.point t)) [.threw false] :=
      .save keeps holds (.inr (.inl (Bool.not_eq_false _ ▸ dirty))) (.inr rfl)
    simp only [setFrame, update_eq_self] at saved
    exact change_unmoved rfl saved
  | case5 dirty absent => exact change_of_pair (change_unmoved rfl (.stay keeps (.inr rfl)))

theorem change_of_advance (done : s.advance t outcome = some (next, events)) :
    Change s (.advance t outcome) next events := by
  revert done
  fun_cases advance s t outcome with
  | case1 | case2 | case3 | case4 => rintro ⟨⟩
  | case5 here => exact change_of_pair (.allocated (by rw [here]; rfl) (.inr ⟨here, outcome, rfl⟩))
  | case6 page mode here => exact change_of_fetch here
  | case7 page mode f old here => exact change_of_pair (.writeBack here)
  | case8 page mode f old ok here => exact change_of_pair (.finish here)
  | case9 page mode f here => exact change_of_pair (.load here)
  | case10 page mode f here => exact change_of_pair (.ready here)
  | case11 page mode f here => exact change_of_latch here
  | case12 f here => exact change_of_pair (.unpin here)
  | case13 here => exact change_of_pair (.quiet (by rw [here]; rfl) rfl (.inl rfl))
  | case14 page rest here => exact change_of_flushPage (by rw [here]; rfl)
  | case15 f rest here => exact change_of_flushFrame here
  | case16 f rest here => exact change_of_pair (.flushUnpin here)
  | case17 f rest here =>
    intro done
    obtain ⟨rfl, rfl⟩ := eq_of_some_pair done
    have before : (s.point t).detached = true := by
      rw [here]
      rfl
    fun_cases flushRelease s t f rest with
    | case1 unpinned replacer told => exact .told before unpinned told
    | case2 unpinned untold => exact .quiet before rfl (.inr (.inr rfl))
    | case3 pinned => exact .quiet before rfl (.inl rfl)
  | case18 page here => exact change_of_pair (.delete here)
  | case19 page changed here => exact change_of_pair (.deallocate here)
  | case20 page here => exact change_of_pair (.reclaim here)

theorem change_of_step {a : PoolAction T D} (taken : s.step a = some (next, events)) : Change s a next events := by
  revert taken
  fun_cases step s a with
  | case1 t request here => exact change_of_pair (change_of_startCall here request)
  | case3 t page f here | case4 t page f here => exact change_of_pair (.exposed (by rw [here]; rfl))
  | case6 t bytes page f here => exact change_of_pair (.wrote here)
  | case8 t outcome page f here => exact change_of_guardFlush here
  | case10 t page f here | case11 t page f here =>
    exact change_of_pair (.keep (by rw [here]; exact ⟨rfl, rfl, rfl, .inl rfl, .inr rfl⟩) (.inl rfl))
  | case13 t outcome => exact change_of_advance
  | _ => rintro ⟨⟩

end BufferPool

end BumbleBee.Buffer
