import BumbleBee.Buffer.Changes
import BumbleBee.Buffer.FrameBook

/-!
The buffer pool keeps the books of its frames. Every step of the pool is a move of
the books, so frames stay in one place and a pinned frame is never taken away,
whatever the interleaving and whatever the disk does. The replacer agrees with the
pin counts as long as no `FlushPage` gives back the last pin of a frame: it does so
before it takes the pool latch to tell the replacer.
-/

namespace BumbleBee.Buffer
open Library.Transition Function

set_option linter.unusedSectionVars false

namespace PoolPoint
variable {n : Nat}

/-- The frame whose write-back an actor waits for, with its page. -/
def victim : PoolPoint n → Option (Fin n × Int)
  | .evicting _ _ f page | .evicted _ _ f page _ => some (f, page)
  | .idle | .allocating | .fetching _ _ | .loading _ _ _ | .loaded _ _ _ | .latching _ _ _ | .reading _ _
  | .writing _ _ | .dropping _ | .flushing _ | .flushLatching _ _ | .flushed _ _ | .unpinned _ _ | .leaked _
  | .deleting _ | .deallocating _ _ | .reclaiming _ => none

variable {f : Fin n} {x : PoolPoint n}

theorem victim_of_pins (holds : x.pins = some f) : x.victim = none := by
  cases x <;> first | rfl | cases holds

theorem victim_of_detached (rests : x.detached = true) : x.victim = none := by
  cases x <;> first | rfl | cases rests

end PoolPoint

variable {page old : Int}

namespace BufferPool
open FrameBook
variable {n : Nat} {T D : Type} [DecidableEq T]

def book (s : BufferPool n T D) : FrameBook (Fin n) Int T where
  page f := (s.frames f).pageId
  pinCount f := (s.frames f).pinCount
  table := s.pageTable
  free := s.freeFrames
  status := s.replacer.status
  flushing := s.flushing
  pins t := (s.point t).pins
  victim t := (s.point t).victim

section
variable (s : BufferPool n T D)
include s

theorem book_setPoint (t : T) (point : PoolPoint n) :
    (s.setPoint t point).book = { s.book with
      pins := update s.book.pins t point.pins
      victim := update s.book.victim t point.victim } := by
  have pins : (fun u => (update s.point t point u).pins) = update s.book.pins t point.pins := by
    funext u
    by_cases same : u = t <;> simp [same, book]
  have victim : (fun u => (update s.point t point u).victim) =
      update s.book.victim t point.victim := by
    funext u
    by_cases same : u = t <;> simp [same, book]
  simp only [book, setPoint] at pins victim ⊢
  rw [pins, victim]

theorem book_setFrame (f : Fin n) (frame : Frame D) :
    (s.setFrame f frame).book = { s.book with
      page := update s.book.page f frame.pageId
      pinCount := update s.book.pinCount f frame.pinCount } := by
  have page : (fun g => (update s.frames f frame g).pageId) = update s.book.page f frame.pageId := by
    funext g
    by_cases same : g = f <;> simp [same, book]
  have pinCount : (fun g => (update s.frames f frame g).pinCount) =
      update s.book.pinCount f frame.pinCount := by
    funext g
    by_cases same : g = f <;> simp [same, book]
  simp only [book, setFrame] at page pinCount ⊢
  rw [page, pinCount]

theorem book_setFrame_same (f : Fin n) (frame : Frame D) (page : frame.pageId = (s.frames f).pageId)
    (pinCount : frame.pinCount = (s.frames f).pinCount) : (s.setFrame f frame).book = s.book := by
  rw [book_setFrame, page, pinCount]
  have first : update s.book.page f (s.frames f).pageId = s.book.page := update_eq_self f _
  have second : update s.book.pinCount f (s.frames f).pinCount = s.book.pinCount :=
    update_eq_self f _
  rw [first, second]

theorem book_setPoint_same (t : T) (point : PoolPoint n) (pins : point.pins = (s.point t).pins)
    (victim : point.victim = (s.point t).victim) : (s.setPoint t point).book = s.book := by
  rw [book_setPoint, pins, victim]
  have first : update s.book.pins t (s.point t).pins = s.book.pins := update_eq_self t _
  have second : update s.book.victim t (s.point t).victim = s.book.victim := update_eq_self t _
  rw [first, second]

theorem book_replacer (replacer : ArcReplacer (Fin n)) :
    { s with replacer := replacer }.book = { s.book with status := replacer.status } := rfl

end

variable {s next : BufferPool n T D} {t : T} {events : List (PoolEvent D)} {f : Fin n}

theorem book_held (q : BufferPool n T D) (frame : Frame D) (point : PoolPoint n)
    (here : (q.point t).pins = some f ∧ (q.point t).victim = none) (page : frame.pageId = (q.frames f).pageId)
    (count : frame.pinCount = (q.frames f).pinCount) (pins : point.pins = some f) (victim : point.victim = none) :
    ((q.setFrame f frame).setPoint t point).book = q.book := by
  rw [book_setPoint_same, book_setFrame_same _ _ _ page count]
  · rw [pins]
    exact here.1.symm
  · rw [victim]
    exact here.2.symm

theorem keeps_book (q : BufferPool n T D) {frame : Frame D} {after : PoolPoint n}
    (keeps : PoolPoint.Keeps f (s.point t) after) (points : q.point = s.point)
    (page : frame.pageId = (q.frames f).pageId) (count : frame.pinCount = (q.frames f).pinCount) :
    ((q.setFrame f frame).setPoint t after).book = q.book := by
  have pins := PoolPoint.pins_of_settled keeps.held
  rw [← points] at pins
  exact book_held q _ _ ⟨pins, PoolPoint.victim_of_pins pins⟩ page count keeps.pins
    (PoolPoint.victim_of_pins keeps.pins)

theorem stays {lax : Prop} (same : next.book = s.book) : Move lax s.book next.book := by
  rw [same]
  exact .stay

theorem moves {lax : Prop} {after : FrameBook (Fin n) Int T} (move : Move lax s.book after)
    (same : next.book = after) : Move lax s.book next.book := by
  rw [same]
  exact move

theorem update_pins {value : Option (Fin n)} (same : (s.point t).pins = value) :
    update s.book.pins t value = s.book.pins := by
  rw [← same]
  exact update_eq_self t s.book.pins

theorem update_victim {value : Option (Fin n × Int)} (same : (s.point t).victim = value) :
    update s.book.victim t value = s.book.victim := by
  rw [← same]
  exact update_eq_self t s.book.victim

theorem update_page (f : Fin n) : update s.book.page f (s.frames f).pageId = s.book.page :=
  update_eq_self f s.book.page

theorem update_pinCount (f : Fin n) : update s.book.pinCount f (s.frames f).pinCount = s.book.pinCount :=
  update_eq_self f s.book.pinCount

theorem book_rest {q : BufferPool n T D} {after : PoolPoint n} (points : q.point = s.point)
    (before : (s.point t).detached = true) (rests : after.detached = true) : (q.setPoint t after).book = q.book := by
  apply book_setPoint_same
  · rw [points, PoolPoint.pins_of_detached before, PoolPoint.pins_of_detached rests]
  · rw [points, PoolPoint.victim_of_detached before, PoolPoint.victim_of_detached rests]

section
variable [Fintype T] {lax : Prop} {mode : GuardMode}

section
variable (placed : s.book.Placed)
include placed

theorem page_of_mapped (p : Int) (g : Fin n) :
    s.pageTable p = some g → (s.frames g).pageId = some p := placed.mapped p g

theorem one_page (p q : Int) (g : Fin n) (first : s.pageTable p = some g)
    (second : s.pageTable q = some g) : p = q :=
  Option.some.inj ((page_of_mapped placed p g first).symm.trans (page_of_mapped placed q g second))

theorem grounded_of_mapped {f : Fin n} (mapped : s.pageTable page = some f) : s.flushing page = false := by
  rcases placed.bound f page (placed.mapped page f mapped) with ⟨_, grounded⟩ | ⟨absent, _⟩
  · exact grounded
  · change s.pageTable page = none at absent
    rw [mapped] at absent
    cases absent

theorem not_free_of_page {f : Fin n} (holds : (s.frames f).pageId = some page) : f ∉ s.freeFrames := by
  intro free
  have empty : (s.frames f).pageId = none := (placed.free f).mp free
  rw [holds] at empty
  cases empty

/-- While no frame is free, the frame the replacer gives up holds a mapped page. -/
theorem mapped_of_evictable (full : s.freeFrames = []) {victim : Fin n}
    (evictable : s.replacer.status victim = some true) : (s.frames victim).pinCount = 0 ∧
      ∃ old, s.pageTable old = some victim ∧ (s.frames victim).pageId = some old := by
  obtain ⟨unpinned, free | ⟨old, mapped⟩⟩ := placed.evictable victim evictable
  · change victim ∈ s.freeFrames at free
    rw [full] at free
    cases free
  · exact ⟨unpinned, old, mapped, placed.mapped old victim mapped⟩

theorem not_lost (full : s.freeFrames = []) {victim : Fin n} {replacer : ArcReplacer (Fin n)}
    (chosen : s.replacer.evict = some (victim, replacer)) (absent : (s.frames victim).pageId = none) : False := by
  obtain ⟨_, old, _, holds⟩ := mapped_of_evictable placed full (ArcReplacer.evict_eq_some chosen).1
  rw [holds] at absent
  cases absent

theorem victim_mapped (full : s.freeFrames = []) {victim : Fin n} {replacer : ArcReplacer (Fin n)}
    (chosen : s.replacer.evict = some (victim, replacer)) (holds : (s.frames victim).pageId = some old) :
    s.pageTable old = some victim ∧ (s.frames victim).pinCount = 0 := by
  obtain ⟨unpinned, other, mapped, same⟩ := mapped_of_evictable placed full (ArcReplacer.evict_eq_some chosen).1
  rw [holds] at same
  cases same
  exact ⟨mapped, unpinned⟩

end

theorem finishEviction_moves {ok : Bool} (here : s.point t = .evicted page mode f old ok) :
    Move lax s.book (s.finishEviction t page mode f old ok).1.book := by
  have victim : s.book.victim t = some (f, old) := congrArg PoolPoint.victim here
  have pins : update s.book.pins t none = s.book.pins := update_pins (by rw [here]; rfl)
  unfold finishEviction
  split
  · apply moves (.land t f old victim)
    rw [book_setPoint, book_setFrame]
    exact FrameBook.ext rfl rfl rfl rfl rfl rfl pins rfl
  · apply moves (.restore t f old victim)
    rw [book_setPoint]
    exact FrameBook.ext rfl rfl rfl rfl (ArcReplacer.access_status ..) rfl pins rfl

theorem load_book (here : s.point t = .loading page mode f) (outcome : DiskOutcome D) :
    (s.load t page mode f outcome).1.book = s.book := by
  have held : (s.point t).pins = some f ∧ (s.point t).victim = none := by
    rw [here]
    exact ⟨rfl, rfl⟩
  cases outcome with
  | _ => exact book_held s _ _ held rfl rfl rfl rfl

theorem writeBack_moves (here : s.point t = .evicting page mode f old) (outcome : DiskOutcome D) :
    Move lax s.book (s.writeBack t page mode f old outcome).1.book := by
  have pins : update s.book.pins t none = s.book.pins := update_pins (by rw [here]; rfl)
  cases outcome with
  | ok | failed left =>
    apply stays
    apply book_setPoint_same
    · rw [here]
      rfl
    · rw [here]
      rfl
  | threw left =>
    apply moves (.abandon t)
    simp only [writeBack]
    rw [book_setPoint, book_setFrame]
    exact FrameBook.ext (update_page f) (update_pinCount f) rfl rfl rfl rfl pins rfl

theorem unpin_moves (placed : s.book.Placed) (here : s.point t = .dropping f) :
    Move lax s.book (s.unpin t f).1.book := by
  have held : s.book.pins t = some f := congrArg PoolPoint.pins here
  have victim : update s.book.victim t none = s.book.victim := update_victim (by rw [here]; rfl)
  have move : Move lax s.book _ := .unpin t f held
  unfold unpin
  split
  · rename_i last
    have status : (if s.book.pinCount f = 1 then update s.book.status f (some true) else s.book.status) =
        update s.book.status f (some true) := if_pos last
    split
    · rename_i replacer told
      apply moves move
      rw [book_replacer, book_setPoint, book_setFrame]
      exact FrameBook.ext (update_page f) rfl rfl rfl
        ((ArcReplacer.setEvictable_eq_some told).2.trans status.symm) rfl rfl victim
    · rename_i untold
      obtain ⟨page, mapped⟩ := placed.pinned t f held
      exact absurd (ArcReplacer.setEvictable_eq_none.mp untold) (placed.alive page f mapped)
  · rename_i more
    have status : (if s.book.pinCount f = 1 then update s.book.status f (some true) else s.book.status) =
        s.book.status := if_neg more
    apply moves move
    rw [book_setPoint, book_setFrame]
    exact FrameBook.ext (update_page f) rfl rfl rfl status.symm rfl rfl victim

variable {rest : List Int}

theorem flushUnpin_moves (here : s.point t = .flushed f rest)
    (shared : (s.frames f).pinCount ≠ 1 ∨ lax) : Move lax s.book (s.flushUnpin t f rest).book := by
  have held : s.book.pins t = some f := congrArg PoolPoint.pins here
  have victim : update s.book.victim t none = s.book.victim := update_victim (by rw [here]; rfl)
  apply moves (.release t f held shared)
  unfold flushUnpin
  rw [book_setPoint, book_setFrame]
  split
  · exact FrameBook.ext (update_page f) rfl rfl rfl rfl rfl rfl victim
  · exact FrameBook.ext (update_page f) rfl rfl rfl rfl rfl rfl victim

theorem deletePage_moves (here : s.point t = .deleting page) : Move lax s.book (s.deletePage t page).1.book := by
  have pins : update s.book.pins t none = s.book.pins := update_pins (by rw [here]; rfl)
  have victim : update s.book.victim t none = s.book.victim := update_victim (by rw [here]; rfl)
  unfold deletePage
  split
  · apply stays
    rw [book_setPoint]
    exact FrameBook.ext rfl rfl rfl rfl rfl rfl pins victim
  rename_i f mapped
  split
  · apply stays
    apply book_setPoint_same <;> rw [here] <;> rfl
  rename_i unpinned
  have unpinned : (s.frames f).pinCount = 0 := Nat.eq_zero_of_not_pos unpinned
  split
  · rename_i replacer removed
    apply moves (.recycle f page none mapped unpinned (.inl rfl))
    rw [book_setPoint, book_replacer, book_setFrame]
    exact FrameBook.ext rfl rfl rfl rfl (ArcReplacer.remove_eq_some removed).2 rfl pins victim
  · rename_i refused
    have pinned : s.book.status f = some false := ArcReplacer.remove_eq_none.mp refused
    apply moves (.recycle f page (some false) mapped unpinned (.inr ⟨rfl, pinned⟩))
    rw [book_setPoint, book_setFrame]
    have status : update s.book.status f (some false) = s.book.status := by
      rw [← pinned, update_eq_self]
    exact FrameBook.ext rfl rfl rfl rfl status.symm rfl pins victim

/-- A `FlushPage` is about to give back the last pin of its frame. -/
def LastPin (s : BufferPool n T D) : PoolAction T D → Prop
  | .advance t _ =>
    match s.point t with
    | .flushed f _ => (s.frames f).pinCount = 1
    | _ => False
  | .call _ _ | .getData _ | .getDataMut _ _ | .flush _ _ | .drop _ => False

variable [Zero D]

theorem step_moves {a : PoolAction T D} (placed : s.book.Placed) (taken : s.step a = some (next, events)) :
    Move (s.LastPin a) s.book next.book := by
  cases change_of_step taken with
  | quiet before rests => exact stays (book_rest rfl before rests)
  | lost full chosen absent => exact (not_lost placed full chosen absent).elim
  | told before unpinned told =>
    obtain ⟨alive, status⟩ := ArcReplacer.setEvictable_eq_some told
    apply moves (.settle _ unpinned alive)
    rw [book_setPoint]
    exact FrameBook.ext rfl rfl rfl rfl status rfl (update_pins (PoolPoint.pins_of_detached before))
      (update_victim (PoolPoint.victim_of_detached before))
  | allocated before => exact stays (book_rest rfl before rfl)
  | reused before => exact stays (book_rest rfl before rfl)
  | @pinned _ t page f _ after before mapped _ status holds =>
    have pins : after.pins = some f := PoolPoint.pins_of_settled holds
    have victim : after.victim = none := PoolPoint.victim_of_pins pins
    apply moves (.pin t f page (PoolPoint.pins_of_detached before) mapped)
    rw [book_setPoint, book_setFrame, pins, victim]
    exact FrameBook.ext (update_page f) rfl rfl rfl status rfl rfl
      (update_victim (PoolPoint.victim_of_detached before))
  | refused _ mapped untold =>
    exact absurd (ArcReplacer.setEvictable_eq_none.mp untold) (placed.alive _ _ mapped)
  | @mapping t page _ f rest _ here landed absent first =>
    have victim : (s.point t).victim = none := congrArg PoolPoint.victim here
    apply moves (.map t f page rest (congrArg PoolPoint.pins here) first absent landed)
    rw [book_setPoint, book_setFrame]
    exact FrameBook.ext rfl rfl rfl rfl (ArcReplacer.access_status ..) rfl rfl (update_victim victim)
  | @detach _ t _ _ victim old _ before full chosen holds =>
    obtain ⟨mapped, unpinned⟩ := victim_mapped placed full chosen holds
    apply moves (.detach t victim old mapped unpinned)
    rw [book_setPoint, book_setFrame]
    exact FrameBook.ext (update_page victim) (update_pinCount victim) rfl rfl (ArcReplacer.evict_eq_some chosen).2 rfl
      (update_pins (PoolPoint.pins_of_detached before)) rfl
  | @recycle _ _ victim old _ _ full chosen holds =>
    obtain ⟨mapped, unpinned⟩ := victim_mapped placed full chosen holds
    apply moves (.recycle victim old none mapped unpinned (.inl rfl))
    refine (book_setPoint_same _ _ _ rfl rfl).trans ?_
    rw [book_setFrame]
    exact FrameBook.ext rfl rfl rfl rfl (ArcReplacer.evict_eq_some chosen).2 rfl rfl rfl
  | writeBack here => exact writeBack_moves here _
  | finish here => exact finishEviction_moves here
  | load here => exact stays (load_book here _)
  | ready here => exact stays (book_setPoint_same _ _ _ (by rw [here]; rfl) (by rw [here]; rfl))
  | keep keeps => exact stays (keeps_book s keeps rfl rfl rfl)
  | @save _ _ _ page bytes _ _ _ _ keeps =>
    exact stays (keeps_book { s with disk := update s.disk page bytes } keeps rfl rfl rfl)
  | unpin here => exact unpin_moves placed here
  | @flushUnpin t f _ _ here =>
    apply flushUnpin_moves here
    by_cases last : (s.frames f).pinCount = 1
    · right
      simp only [LastPin, here]
      exact last
    · exact .inl last
  | delete here => exact deletePage_moves here
  | @deallocate t page _ outcome here =>
    have quiet (q : BufferPool n T D) (unmoved : q.point = s.point) (point : PoolPoint n) (pins : point.pins = none)
        (victim : point.victim = none) : (q.setPoint t point).book = q.book := by
      apply book_setPoint_same
      · rw [unmoved, here, pins]
        rfl
      · rw [unmoved, here, victim]
        rfl
    cases outcome with
    | ok | failed left => exact stays (quiet _ rfl (.reclaiming page) rfl rfl)
    | threw left => exact stays (quiet _ rfl .idle rfl rfl)
  | reclaim here => exact stays (book_setPoint_same _ _ _ (by rw [here]; rfl) (by rw [here]; rfl))
  | exposed => exact .stay
  | wrote => exact stays (book_setFrame_same _ _ _ rfl rfl)

theorem Initial.placed {base : Int → D} (initial : Initial base s) : s.book.Placed := by
  have page (f : Fin n) : s.book.page f = none := by
    show (s.frames f).pageId = none
    rw [initial.frames]
  have status (f : Fin n) : s.book.status f = none := by
    show s.replacer.status f = none
    rw [initial.replacer]
    rfl
  have pins (t : T) : s.book.pins t = none := by
    show (s.point t).pins = none
    rw [initial.point]
    rfl
  have victim (t : T) : s.book.victim t = none := by
    show (s.point t).victim = none
    rw [initial.point]
    rfl
  have table (page : Int) : s.book.table page = none := initial.pageTable page
  have free : s.book.free = (List.finRange n).reverse := initial.freeFrames
  constructor
  · rw [free]
    exact List.nodup_reverse.mpr (List.nodup_finRange n)
  · simp [free, page]
  · simp [table]
  · simp [page]
  · simp [page]
  · simp [victim]
  · simp [victim]
  · intro f
    show (s.frames f).pinCount = _
    simp [initial.frames, pins]
  · simp [pins]
  · simp [table]
  · simp [status]
  · simp [status]

theorem Initial.tight {base : Int → D} (initial : Initial base s) : s.book.Tight := by
  constructor
  · intro page f mapped
    rw [show s.book.table page = none from initial.pageTable page] at mapped
    cases mapped
  · intro f _
    show s.replacer.status f = none
    rw [initial.replacer]
    rfl

end

end BufferPool

def DiskOutcome.throws {D : Type} : DiskOutcome D → Bool
  | .threw _ => true
  | .ok | .failed _ => false

namespace BufferPool
open FrameBook
variable {n : Nat} {T D : Type} [DecidableEq T] {s next : BufferPool n T D} {t : T} {events : List (PoolEvent D)}

/-- No `FlushPage` gives back the last pin of a frame, and the disk requests made after the page table or the
free list were changed do not throw. -/
def Steady (s : BufferPool n T D) (a : PoolAction T D) : Prop :=
  ¬ s.LastPin a ∧
    match a with
    | .advance t outcome =>
      match s.point t with
      | .evicting _ _ _ _ | .loading _ _ _ | .deallocating _ true => outcome.throws = false
      | _ => True
    | .call _ _ | .getData _ | .getDataMut _ _ | .flush _ _ | .drop _ => True

theorem step_quiet [Zero D] {a : PoolAction T D} (tight : s.book.Tight) (steady : s.Steady a)
    (taken : s.step a = some (next, events)) : .threw true ∉ events := by
  have calm := steady.2
  cases change_of_step taken with
  | quiet _ _ silent => rcases silent with rfl | rfl | rfl <;> simp
  | keep _ silent | save _ _ _ silent => rcases silent with rfl | rfl <;> simp
  | @writeBack _ _ _ _ _ outcome here | @load _ _ _ _ outcome here =>
    simp only [here] at calm
    cases outcome with
    | ok | failed left => simp [writeBack, load]
    | threw left => cases calm
  | @finish _ t page mode f old ok here =>
    fun_cases finishEviction s t page mode f old ok <;> simp
  | @unpin _ t f here =>
    fun_cases unpin s t f <;> simp
  | @delete t page _ here =>
    fun_cases deletePage s t page with
    | case4 dead f mapped unpinned freed refused =>
      have evictable : s.replacer.status f = some true :=
        (tight.evictable page f mapped).mpr (Nat.eq_zero_of_not_pos unpinned)
      rw [ArcReplacer.remove_eq_none.mp refused] at evictable
      cases evictable
    | _ => simp
  | @deallocate _ _ changed outcome here =>
    simp only [here] at calm
    cases outcome with
    | ok | failed left => simp [deallocatePage]
    | threw left =>
      cases changed with
      | false => simp [deallocatePage]
      | true => cases calm
  | _ => simp

end BufferPool

open BufferPool

/-- In a run of steady steps every frame is free, mapped or in flight and only one of these, a mapped frame is
evictable exactly when nobody pins it, no pinned frame is free or leaves the page table, and no operation throws
after it has changed the page table or the free list. -/
theorem frame_states {n : Nat} {T D : Type} [DecidableEq T] [Fintype T] [Zero D] {base : Int → D}
    {log : List (PoolEvent D)} {s : BufferPool n T D} (run : Run (bufferPool n T D base) Steady log s) :
    (∀ f, f ∈ s.freeFrames ∧ ¬ s.book.Mapped f ∧ ¬ s.book.InFlight f ∨
      f ∉ s.freeFrames ∧ s.book.Mapped f ∧ ¬ s.book.InFlight f ∨
      f ∉ s.freeFrames ∧ ¬ s.book.Mapped f ∧ s.book.InFlight f) ∧
    (∀ f, s.book.Mapped f → (s.replacer.status f = some true ↔ (s.frames f).pinCount = 0)) ∧
    (∀ f, 0 < (s.frames f).pinCount → s.book.Mapped f ∧
      ∀ a next events, s.step a = some (next, events) → next.book.Mapped f) ∧
    .threw true ∉ log := by
  have books : s.book.Placed ∧ s.book.Tight ∧ .threw true ∉ log := by
    refine Run.invariant (I := fun log s => s.book.Placed ∧ s.book.Tight ∧ .threw true ∉ log) ?_ ?_ run
    · intro s initial
      exact ⟨initial.placed, initial.tight, List.not_mem_nil⟩
    · intro log s next a events _ ⟨placed, tight, calm⟩ steady taken
      have move := step_moves placed taken
      refine ⟨move.placed placed, (move.mono steady.1).tight placed tight, ?_⟩
      intro member
      rcases List.mem_append.mp member with new | old
      · exact step_quiet tight steady taken new
      · exact calm old
  obtain ⟨placed, tight, calm⟩ := books
  refine ⟨placed.trichotomy, ?_, ?_, calm⟩
  · intro f ⟨page, mapped⟩
    exact tight.evictable page f mapped
  · intro f pinned
    have mapped : s.book.Mapped f := by
      by_contra unmapped
      have zero : (s.frames f).pinCount = 0 := placed.unpinned_of_not_mapped unmapped
      omega
    refine ⟨mapped, ?_⟩
    intro a next events taken
    by_contra gone
    have zero : (s.frames f).pinCount = 0 := (step_moves placed taken).unpinned_of_leaving placed mapped gone
    omega

/-- The bytes of a page, as far as the runs below tell them apart. -/
inductive SampleBytes where
  | zeros
  | written
  | torn
  deriving DecidableEq

instance : Zero SampleBytes := ⟨.zeros⟩

/-- One frame, two actors, an empty disk. -/
def oneFrame : BufferPool 1 (Fin 2) SampleBytes where
  frames _ := ⟨0, false, 0, none, .unlocked⟩
  pageTable _ := none
  freeFrames := [0]
  replacer := .init 1
  loading _ := false
  flushing _ := false
  nextPageId := 0
  freePages := []
  disk _ := 0
  point _ := .idle
  live _ := false

theorem oneFrame_initial : Initial (fun _ => 0) oneFrame where
  frames _ := rfl
  pageTable _ := rfl
  freeFrames := rfl
  replacer := rfl
  loading _ := rfl
  flushing _ := rfl
  nextPageId := by decide
  freePages := ⟨List.nodup_nil, fun _ member => absurd member List.not_mem_nil⟩
  live page := by
    simp only [oneFrame, Bool.false_eq_true, List.not_mem_nil, not_false_eq_true, and_true, false_iff]
    omega
  disk := rfl
  unused _ _ := rfl
  point _ := rfl

/-- Allocates a new page and brings it into a frame, pinned. -/
def checkNewPage (t : Fin 2) (page : Int) : List (PoolAction (Fin 2) SampleBytes) :=
  [.call t .newPage, .advance t .ok, .call t (.checkedPage page .write), .advance t .ok, .advance t .ok,
    .advance t .ok]

/-- `FlushPage` up to the point where it has given its pin back. -/
def flushAndUnpin (t : Fin 2) (page : Int) : List (PoolAction (Fin 2) SampleBytes) :=
  [.call t (.flushPage page), .advance t .ok, .advance t .ok, .advance t .ok]

def steadyTest (s : BufferPool 1 (Fin 2) SampleBytes) : PoolAction (Fin 2) SampleBytes → Bool
  | .advance t outcome =>
    !outcome.throws && match s.point t with
      | .flushed f _ => (s.frames f).pinCount != 1
      | _ => true
  | .call _ _ | .getData _ | .getDataMut _ _ | .flush _ _ | .drop _ => true

theorem steady_of_test (s : BufferPool 1 (Fin 2) SampleBytes) (a : PoolAction (Fin 2) SampleBytes)
    (passed : steadyTest s a = true) :
    s.Steady a := by
  cases a with
  | advance t outcome =>
    simp only [steadyTest, Bool.and_eq_true, Bool.not_eq_true'] at passed
    obtain ⟨returns, more⟩ := passed
    constructor
    · simp only [LastPin]
      split
      · rename_i f rest here
        simpa [here] using more
      · exact fun impossible => impossible
    · dsimp only
      split
      · exact returns
      · exact returns
      · exact returns
      · trivial
  | _ => exact ⟨fun last => last, trivial⟩

/-- A page is flushed while a guard on it is being acquired. -/
theorem frame_states_flushed :
    ∃ log s, Run (bufferPool 1 (Fin 2) SampleBytes fun _ => 0) Steady log s ∧ (s.frames 0).pinCount = 1 ∧
      s.point 1 = .idle ∧
      (∀ f, f ∈ s.freeFrames ∧ ¬ s.book.Mapped f ∧ ¬ s.book.InFlight f ∨
        f ∉ s.freeFrames ∧ s.book.Mapped f ∧ ¬ s.book.InFlight f ∨
        f ∉ s.freeFrames ∧ ¬ s.book.Mapped f ∧ s.book.InFlight f) ∧
      (∀ f, s.book.Mapped f → (s.replacer.status f = some true ↔ (s.frames f).pinCount = 0)) ∧
      (∀ f, 0 < (s.frames f).pinCount → s.book.Mapped f ∧
        ∀ a next events, s.step a = some (next, events) → next.book.Mapped f) ∧
      .threw true ∉ log := by
  obtain ⟨s, log, run, shown⟩ := execChecked_shows (M := bufferPool 1 (Fin 2) SampleBytes fun _ => 0) steady_of_test
    (checkNewPage 0 0 ++ flushAndUnpin 1 0 ++ [.advance 1 .ok]) oneFrame_initial
    (fun r => ((r.1.frames 0).pinCount, r.1.point 1)) (1, .idle) (by decide +kernel)
  simp only [Prod.mk.injEq] at shown
  exact ⟨log, s, run, shown.1, shown.2, frame_states run⟩

/-- After `FlushPage` has given back the last pin its frame is mapped and unpinned but not evictable. A
`DeletePage` at this moment throws with the frame on the free list. A write-back that throws does so after the
page table was changed. -/
theorem flush_window :
    (∃ log s, Run (bufferPool 1 (Fin 2) SampleBytes fun _ => 0) always log s ∧ s.pageTable 0 = some 0 ∧
      (s.frames 0).pinCount = 0 ∧ s.replacer.status 0 = some false) ∧
    (∃ log s, Run (bufferPool 1 (Fin 2) SampleBytes fun _ => 0) always log s ∧ .threw true ∈ log ∧ s.freeFrames = [0] ∧
      s.replacer.status 0 = some false) ∧
    ∃ log s, Run (bufferPool 1 (Fin 2) SampleBytes fun _ => 0) always log s ∧ .threw true ∈ log ∧ s.freeFrames = [] ∧
      s.pageTable 0 = none := by
  refine ⟨?_, ?_, ?_⟩
  · obtain ⟨s, log, run, shown⟩ := exec_shows (M := bufferPool 1 (Fin 2) SampleBytes fun _ => 0)
      (checkNewPage 0 0 ++ [.advance 0 .ok, .drop 0, .advance 0 .ok] ++ flushAndUnpin 1 0) oneFrame_initial
      (fun _ _ _ => trivial) (fun r => (r.1.pageTable 0, (r.1.frames 0).pinCount, r.1.replacer.status 0))
      (some 0, 0, some false) (by decide +kernel)
    simp only [Prod.mk.injEq] at shown
    exact ⟨log, s, run, shown⟩
  · obtain ⟨s, log, run, shown⟩ := exec_shows (M := bufferPool 1 (Fin 2) SampleBytes fun _ => 0)
      (checkNewPage 0 0 ++ [.advance 0 .ok, .drop 0, .advance 0 .ok] ++ flushAndUnpin 1 0 ++
        [.call 0 (.deletePage 0), .advance 0 .ok]) oneFrame_initial
      (fun _ _ _ => trivial) (fun r => (decide (.threw true ∈ r.2), r.1.freeFrames, r.1.replacer.status 0))
      (true, [0], some false) (by decide +kernel)
    simp only [Prod.mk.injEq, decide_eq_true_eq] at shown
    exact ⟨log, s, run, shown⟩
  · obtain ⟨s, log, run, shown⟩ := exec_shows (M := bufferPool 1 (Fin 2) SampleBytes fun _ => 0)
      (checkNewPage 0 0 ++ [.advance 0 .ok, .getDataMut 0 .written, .drop 0, .advance 0 .ok, .call 1 (.checkedPage 1 .read),
        .advance 1 .ok, .advance 1 (.threw none)]) oneFrame_initial
      (fun _ _ _ => trivial) (fun r => (decide (.threw true ∈ r.2), r.1.freeFrames, r.1.pageTable 0))
      (true, [], none) (by decide +kernel)
    simp only [Prod.mk.injEq, decide_eq_true_eq] at shown
    exact ⟨log, s, run, shown⟩

/-- Whatever fails, in every run a page is in one frame, a pin count is the number of pins, and a pinned frame is
mapped and not evictable. -/
theorem frames_placed {n : Nat} {T D : Type} [DecidableEq T] [Fintype T] [Zero D] {base : Int → D}
    {meets : BufferPool n T D → PoolAction T D → Prop} {log : List (PoolEvent D)} {s : BufferPool n T D}
    (run : Run (bufferPool n T D base) meets log s) : s.book.Placed := by
  refine Run.invariant (I := fun _ s => s.book.Placed) ?_ ?_ run
  · exact fun s initial => initial.placed
  · intro log s next a events _ placed _ taken
    exact (step_moves placed taken).placed placed

/-- The write-back of page 0 has failed; a writer and a `FlushPage` now pin its frame. -/
theorem frames_placed_restored :
    ∃ log s, Run (bufferPool 1 (Fin 2) SampleBytes fun _ => 0) always log s ∧ (s.frames 0).pinCount = 2 ∧
      s.point 0 = .writing 0 0 ∧ s.point 1 = .flushLatching 0 [] ∧ s.book.Placed := by
  obtain ⟨s, log, run, shown⟩ := exec_shows (M := bufferPool 1 (Fin 2) SampleBytes fun _ => 0)
    (checkNewPage 0 0 ++ [.advance 0 .ok, .getDataMut 0 .written, .drop 0, .advance 0 .ok,
      .call 1 (.checkedPage 1 .read), .advance 1 .ok, .advance 1 (.failed (some .torn)), .advance 1 .ok,
      .call 0 (.checkedPage 0 .write), .advance 0 .ok, .advance 0 .ok, .call 1 (.flushPage 0), .advance 1 .ok])
    oneFrame_initial (fun _ _ _ => trivial) (fun r => ((r.1.frames 0).pinCount, r.1.point 0, r.1.point 1))
    (2, .writing 0 0, .flushLatching 0 []) (by decide +kernel)
  simp only [Prod.mk.injEq] at shown
  exact ⟨log, s, run, shown.1, shown.2.1, shown.2.2, frames_placed run⟩

end BumbleBee.Buffer
