import BumbleBee.Buffer.FrameStates

/-!
Reading a page into its frame. While `loading_` has a page one actor reads it, and the
frame stays pinned, even if that actor's read throws; every other actor that pins a
frame, a guard above all, finds the page read.
-/

namespace BumbleBee.Buffer
open Function

namespace BufferPool
variable {n : Nat} {T D : Type} [DecidableEq T]

structure Busy (s : BufferPool n T D) : Prop where
  loader : ∀ t page f, (s.point t).loader = some (page, f) → s.pageTable page = some f ∧ s.loading page = true
  alone : ∀ t u page f g, (s.point t).loader = some (page, f) → (s.point u).loader = some (page, g) → t = u
  pinned : ∀ page, s.loading page = true →
    ∃ t f, s.pageTable page = some f ∧ (s.point t).pins = some f ∧ (s.point t).settled = none
  settled : ∀ t f, (s.point t).settled = some f → ∀ page, s.pageTable page = some f → s.loading page = false
  guard : ∀ t page f, (s.point t).guard = some (page, f) → s.pageTable page = some f

section
variable {s next : BufferPool n T D} {t : T} {events : List (PoolEvent D)} {q : BufferPool n T D}
  {after : PoolPoint n} {page : Int} {f : Fin n}

theorem Busy.keep (busy : s.Busy) (points : q.point = s.point)
    (table : q.pageTable = s.pageTable) (loading : q.loading = s.loading)
    (loader : ∀ page f, after.loader = some (page, f) → (s.point t).loader = some (page, f))
    (settled : ∀ f, after.settled = some f → ∀ page, s.pageTable page = some f → s.loading page = false)
    (guard : ∀ page f, after.guard = some (page, f) → s.pageTable page = some f)
    (pinned : ∀ f, (s.point t).pins = some f → (s.point t).settled = none →
      after.pins = some f ∧ after.settled = none) : (q.setPoint t after).Busy := by
  obtain ⟨loaders, alone, pins, settledPins, guards⟩ := busy
  constructor <;> simp only [setPoint, points, table, loading, update_apply]
  · grind
  · grind
  · intro page busyPage
    obtain ⟨u, f, mapped, held, unsettled⟩ := pins page busyPage
    refine ⟨u, f, mapped, ?_⟩
    split
    · rename_i same
      rw [same] at held unsettled
      exact pinned f held unsettled
    · exact ⟨held, unsettled⟩
  · grind
  · grind

/-- A frame that nobody pins leaves the page table. -/
theorem Busy.erase (busy : s.Busy) (points : q.point = s.point)
    (table : q.pageTable = update s.pageTable page none) (loading : q.loading = s.loading)
    (mapped : s.pageTable page = some f) (unpinned : ∀ u, (s.point u).pins ≠ some f)
    (before : (s.point t).pins = none) (idle : after.pins = none) : (q.setPoint t after).Busy := by
  have keeps (u : T) (other : Int) (g : Fin n) (guards : (s.point u).guard = some (other, g)) : g ≠ f := by
    rintro rfl
    exact unpinned u (PoolPoint.pins_of_settled (PoolPoint.settled_of_guard guards))
  have quiet := PoolPoint.quiet_of_unpinned idle
  obtain ⟨loaders, alone, pins, settledPins, guards⟩ := busy
  constructor <;> simp only [setPoint, points, table, loading, update_apply]
  · grind
  · grind
  · intro other busyPage
    obtain ⟨u, g, here, held, unsettled⟩ := pins other busyPage
    have apart : other ≠ page := by
      rintro rfl
      rw [mapped] at here
      cases here
      exact unpinned u held
    have elsewhere : u ≠ t := by
      rintro rfl
      rw [before] at held
      cases held
    refine ⟨u, g, ?_, ?_⟩
    · rw [if_neg apart]
      exact here
    · rw [if_neg elsewhere]
      exact ⟨held, unsettled⟩
  · grind
  · grind

theorem Busy.insert (busy : s.Busy)
    (points : q.point = s.point) (table : q.pageTable = update s.pageTable page (some f))
    (absent : s.pageTable page = none) (unpinned : ∀ u, (s.point u).pins ≠ some f)
    (before : (s.point t).pins = none)
    (reads : q.loading = s.loading ∧ after.pins = none ∨
      q.loading = update s.loading page true ∧ after.loader = some (page, f)) :
    (q.setPoint t after).Busy := by
  have still : s.loading page = false := by
    by_contra loads
    obtain ⟨u, g, here, _⟩ := busy.pinned page (Bool.not_eq_false _ ▸ loads)
    rw [absent] at here
    cases here
  have settles (u : T) (holds : (s.point u).settled = some f) : False :=
    unpinned u (PoolPoint.pins_of_settled holds)
  obtain ⟨loaders, alone, pins, settledPins, guards⟩ := busy
  have others (other : Int) (loads : s.loading other = true) : ∃ u g, u ≠ t ∧ s.pageTable other = some g ∧
      (s.point u).pins = some g ∧ (s.point u).settled = none := by
    obtain ⟨u, g, here, held, unsettled⟩ := pins other loads
    refine ⟨u, g, ?_, here, held, unsettled⟩
    rintro rfl
    rw [before] at held
    cases held
  rcases reads with ⟨loading, idle⟩ | ⟨loading, loads⟩
  · have quiet := PoolPoint.quiet_of_unpinned idle
    constructor <;> simp only [setPoint, points, table, loading, update_apply]
    · grind
    · grind
    · intro other busyPage
      obtain ⟨u, g, apart, here, held, unsettled⟩ := others other busyPage
      refine ⟨u, g, ?_, ?_⟩
      · rw [if_neg]
        · exact here
        · rintro rfl
          rw [still] at busyPage
          cases busyPage
      · rw [if_neg apart]
        exact ⟨held, unsettled⟩
    · grind
    · grind
  · have unsettled : after.settled = none ∧ after.guard = none := by
      cases after <;> first | exact ⟨rfl, rfl⟩ | cases loads
    constructor <;> simp only [setPoint, points, table, loading, update_apply]
    · grind
    · grind
    · intro other busyPage
      by_cases same : other = page
      · refine ⟨t, f, if_pos same, ?_⟩
        rw [if_pos rfl]
        exact ⟨PoolPoint.pins_of_loader loads, unsettled.1⟩
      · rw [if_neg same] at busyPage
        obtain ⟨u, g, apart, here, held, unsettled⟩ := others other busyPage
        refine ⟨u, g, ?_, ?_⟩
        · rw [if_neg same]
          exact here
        · rw [if_neg apart]
          exact ⟨held, unsettled⟩
    · grind
    · grind

variable {mode : GuardMode}

theorem Busy.ready (busy : s.Busy) (one : ∀ p p' g, s.pageTable p = some g → s.pageTable p' = some g → p = p')
    (here : s.point t = .loaded page mode f) :
    ({ s with loading := update s.loading page false }.setPoint t (.latching page mode f)).Busy := by
  have loads : (s.point t).loader = some (page, f) := congrArg PoolPoint.loader here
  have latched : (PoolPoint.latching page mode f).loader = none ∧
      (PoolPoint.latching page mode f).settled = some f ∧
      (PoolPoint.latching page mode f).guard = some (page, f) := ⟨rfl, rfl, rfl⟩
  obtain ⟨loaders, alone, pins, settledPins, guards⟩ := busy
  have mapped := (loaders t page f loads).1
  have mine : (s.point t).pins = some f := PoolPoint.pins_of_loader loads
  constructor <;> simp only [setPoint, update_apply]
  · grind
  · grind
  · intro other busyPage
    split at busyPage
    · cases busyPage
    rename_i apart
    obtain ⟨u, g, there, pinned, unsettled⟩ := pins other busyPage
    have elsewhere : u ≠ t := by
      rintro rfl
      rw [mine] at pinned
      cases pinned
      exact apart (one other page f there mapped)
    refine ⟨u, g, there, ?_⟩
    rw [if_neg elsewhere]
    exact ⟨pinned, unsettled⟩
  · grind
  · grind

/-- An actor that pins nothing, before and after. -/
theorem Busy.idle (busy : s.Busy) (points : q.point = s.point)
    (table : q.pageTable = s.pageTable) (loading : q.loading = s.loading) (before : (s.point t).pins = none)
    (idle : after.pins = none) : (q.setPoint t after).Busy := by
  have quiet := PoolPoint.quiet_of_unpinned idle
  apply busy.keep points table loading
  · intro page f loads
    rw [quiet.1] at loads
    cases loads
  · intro f holds
    rw [quiet.2.1] at holds
    cases holds
  · intro page f guards
    rw [quiet.2.2] at guards
    cases guards
  · intro f pins
    rw [before] at pins
    cases pins

theorem Busy.goOn (busy : s.Busy) (points : q.point = s.point) (table : q.pageTable = s.pageTable)
    (loading : q.loading = s.loading) (before : (s.point t).settled = some f) (loader : after.loader = none)
    (settled : after.settled = some f ∨ after.settled = none)
    (guard : after.guard = (s.point t).guard ∨ after.guard = none) : (q.setPoint t after).Busy := by
  apply busy.keep points table loading
  · intro page g loads
    rw [loader] at loads
    cases loads
  · intro g holds
    rcases settled with same | none
    · rw [same] at holds
      cases holds
      exact busy.settled t f before
    · rw [none] at holds
      cases holds
  · intro page g guards
    rcases guard with same | none
    · rw [same] at guards
      exact busy.guard t page g guards
    · rw [none] at guards
      cases guards
  · intro g _ unsettled
    rw [before] at unsettled
    cases unsettled

theorem Busy.hold (busy : s.Busy) (points : q.point = s.point) (table : q.pageTable = s.pageTable)
    (loading : q.loading = s.loading) (one : ∀ p p' g, s.pageTable p = some g → s.pageTable p' = some g → p = p')
    (mapped : s.pageTable page = some f) (read : s.loading page = false) (before : (s.point t).pins = none)
    (loader : after.loader = none) (settled : after.settled = some f)
    (guard : after.guard = some (page, f) ∨ after.guard = none) : (q.setPoint t after).Busy := by
  apply busy.keep points table loading
  · intro other g loads
    rw [loader] at loads
    cases loads
  · intro g holds other there
    rw [settled] at holds
    cases holds
    rw [one other page f there mapped]
    exact read
  · intro other g guards
    rcases guard with same | none
    · rw [same] at guards
      cases guards
      exact mapped
    · rw [none] at guards
      cases guards
  · intro g pins
    rw [before] at pins
    cases pins

variable [Fintype T]

theorem Busy.mapping (busy : s.Busy) (placed : s.book.Placed) {rest : List (Fin n)} {frame : Frame D}
    (here : s.point t = .fetching page mode) (absent : s.pageTable page = none) (first : s.freeFrames = f :: rest) :
    (({ s with
        freeFrames := rest
        pageTable := update s.pageTable page (some f)
        loading := update s.loading page true
        replacer := s.replacer.access f page false }.setFrame f frame).setPoint t (.loading page mode f)).Busy := by
  have free : f ∈ s.book.free := by
    show f ∈ s.freeFrames
    rw [first]
    exact List.mem_cons_self
  have unmapped : ¬ s.book.Mapped f := by
    rcases placed.trichotomy f with ⟨_, unmapped, _⟩ | ⟨taken, _⟩ | ⟨taken, _⟩
    · exact unmapped
    · exact absurd free taken
    · exact absurd free taken
  exact busy.insert rfl rfl absent (placed.no_pin (placed.unpinned_of_not_mapped unmapped))
    (congrArg PoolPoint.pins here) (.inr ⟨rfl, rfl⟩)

theorem Busy.finishEviction (busy : s.Busy) (placed : s.book.Placed) {old : Int} {ok : Bool}
    (here : s.point t = .evicted page mode f old ok) : (s.finishEviction t page mode f old ok).1.Busy := by
  have idle : (s.point t).pins = none := congrArg PoolPoint.pins here
  have victim : s.book.victim t = some (f, old) := congrArg PoolPoint.victim here
  unfold BufferPool.finishEviction
  split
  · exact busy.idle rfl rfl rfl idle rfl
  · exact busy.insert rfl rfl (placed.victim_absent victim)
      (placed.no_pin (placed.unpinned_of_not_mapped (placed.victim_not_mapped victim))) idle (.inl ⟨rfl, rfl⟩)

omit [Fintype T] in
theorem Busy.load (busy : s.Busy) (here : s.point t = .loading page mode f) (outcome : DiskOutcome D) :
    (s.load t page mode f outcome).1.Busy := by
  have loads {after : PoolPoint n} {frame : Frame D} (loader : after.loader = some (page, f) ∨ after.loader = none)
      (settled : after.settled = none) (guard : after.guard = none) (pins : after.pins = some f) :
      ((s.setFrame f frame).setPoint t after).Busy := by
    refine busy.keep rfl rfl rfl ?_ ?_ ?_ ?_
    · intro p g now
      rcases loader with same | none
      · rw [same] at now
        cases now
        rw [here]
        rfl
      · rw [none] at now
        cases now
    · intro g now
      rw [settled] at now
      cases now
    · intro p g now
      rw [guard] at now
      cases now
    · intro g held _
      rw [here] at held
      cases held
      exact ⟨pins, settled⟩
  cases outcome with
  | ok | failed left => exact loads (.inl rfl) rfl rfl rfl
  | threw left => exact loads (.inr rfl) rfl rfl rfl

theorem Busy.step [Zero D] (busy : s.Busy) (placed : s.book.Placed) {a : PoolAction T D}
    (taken : s.step a = some (next, events)) : next.Busy := by
  cases change_of_step taken with
  | quiet before rests =>
    exact busy.idle rfl rfl rfl (PoolPoint.pins_of_detached before) (PoolPoint.pins_of_detached rests)
  | lost full chosen absent => exact (not_lost placed full chosen absent).elim
  | told before | allocated before | reused before =>
    exact busy.idle rfl rfl rfl (PoolPoint.pins_of_detached before) rfl
  | pinned before mapped read _ holds guards =>
    exact busy.hold rfl rfl rfl (one_page placed) mapped read (PoolPoint.pins_of_detached before)
      (PoolPoint.loader_of_settled holds) holds guards
  | refused _ mapped untold =>
    exact absurd (ArcReplacer.setEvictable_eq_none.mp untold) (placed.alive _ _ mapped)
  | mapping here _ absent first => exact busy.mapping placed here absent first
  | detach before full chosen holds =>
    obtain ⟨mapped, unpinned⟩ := victim_mapped placed full chosen holds
    exact busy.erase rfl rfl rfl mapped (placed.no_pin unpinned) (PoolPoint.pins_of_detached before) rfl
  | recycle before full chosen holds =>
    obtain ⟨mapped, unpinned⟩ := victim_mapped placed full chosen holds
    have idle := PoolPoint.pins_of_detached before
    exact busy.erase rfl rfl rfl mapped (placed.no_pin unpinned) idle idle
  | @writeBack _ _ _ _ _ outcome here =>
    cases outcome <;> exact busy.idle rfl rfl rfl (by rw [here]; rfl) rfl
  | finish here => exact busy.finishEviction placed here
  | load here => exact busy.load here _
  | ready here => exact busy.ready (one_page placed) here
  | keep keeps | save keeps => exact busy.goOn rfl rfl rfl keeps.held keeps.loader keeps.settled keeps.guard
  | @unpin _ t f here =>
    have before : (s.point t).settled = some f := congrArg PoolPoint.settled here
    have dropped (frame : Frame D) : ((s.setFrame f frame).setPoint t .idle).Busy :=
      busy.goOn rfl rfl rfl before rfl (.inr rfl) (.inr rfl)
    fun_cases unpin s t f with
    | case1 =>
      obtain ⟨loader, alone, pinned, settled, guard⟩ := dropped { s.frames f with
        pinCount := (s.frames f).pinCount - 1 }
      exact ⟨loader, alone, pinned, settled, guard⟩
    | _ => exact dropped _
  | @flushUnpin t f _ _ here =>
    have before : (s.point t).settled = some f := congrArg PoolPoint.settled here
    unfold flushUnpin
    split
    · exact busy.goOn rfl rfl rfl before rfl (.inr rfl) (.inr rfl)
    · exact busy.goOn rfl rfl rfl before rfl (.inr rfl) (.inr rfl)
  | @delete t page _ here =>
    have idle : (s.point t).pins = none := congrArg PoolPoint.pins here
    fun_cases deletePage s t page with
    | case1 | case2 => exact busy.idle rfl rfl rfl idle rfl
    | case3 _ f mapped unpinned | case4 _ f mapped unpinned =>
      exact busy.erase rfl rfl rfl mapped (placed.no_pin (Nat.eq_zero_of_not_pos unpinned)) idle rfl
  | @deallocate _ _ _ outcome here =>
    cases outcome <;> exact busy.idle rfl rfl rfl (by rw [here]; rfl) rfl
  | reclaim here => exact busy.idle rfl rfl rfl (by rw [here]; rfl) rfl
  | exposed => exact busy
  | wrote => exact ⟨busy.loader, busy.alone, busy.pinned, busy.settled, busy.guard⟩

omit [DecidableEq T] [Fintype T] in
theorem Initial.busy [Zero D] {base : Int → D} (initial : Initial base s) : s.Busy := by
  constructor
  · intro t page f loads
    rw [initial.point] at loads
    cases loads
  · intro t u page f g loads
    rw [initial.point] at loads
    cases loads
  · intro page loads
    rw [initial.loading] at loads
    cases loads
  · intro t f settled
    rw [initial.point] at settled
    cases settled
  · intro t page f guards
    rw [initial.point] at guards
    cases guards

end

end BufferPool

end BumbleBee.Buffer
