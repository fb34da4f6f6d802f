import BumbleBee.Buffer.FrameStates

/-!
Which page ids are in use. An id is live, waits in the free list, has never been
handed out, or is on its way from a `DeletePage` to the free list; the pool holds or
writes back live pages only, and if the disk zeroes what it deallocates, an id that
can be handed out is zero on disk. This needs callers that fetch and delete live
pages, no deletion of a page while its write-back is in flight, and a counter that
does not wrap.
-/

namespace BumbleBee.Buffer
open Function

/-- The page a `DeletePage` is taking away, and whether its bytes on disk are gone. -/
def PoolPoint.dying {n : Nat} : PoolPoint n → Option (Int × Bool)
  | .deallocating page _ => some (page, false)
  | .reclaiming page => some (page, true)
  | .idle | .allocating | .fetching _ _ | .evicting _ _ _ _ | .evicted _ _ _ _ _ | .loading _ _ _ | .loaded _ _ _
  | .latching _ _ _ | .reading _ _ | .writing _ _ | .dropping _ | .flushing _ | .flushLatching _ _ | .flushed _ _
  | .unpinned _ _ | .leaked _ | .deleting _ => none

theorem PoolPoint.dying_of_pins {n : Nat} {f : Fin n} {x : PoolPoint n} (holds : x.pins = some f) : x.dying = none := by
  cases x <;> first | rfl | cases holds

theorem PoolPoint.dying_of_detached {n : Nat} {x : PoolPoint n} (rests : x.detached = true) : x.dying = none := by
  cases x <;> first | rfl | cases rests

theorem PoolPoint.dying_apart {n : Nat} {x : PoolPoint n} {page other : Int} {last : Bool}
    (leaves : x.dying = none ∨ x.dying = some (page, last)) (apart : other ≠ page) (zeroed : Bool) :
    x.dying ≠ some (other, zeroed) := by
  rcases leaves with none | going
  · rw [none]
    exact nofun
  · rw [going]
    rintro ⟨⟩
    exact apart rfl

def DiskOutcome.fails {D : Type} : DiskOutcome D → Bool
  | .failed _ => true
  | .ok | .threw _ => false

namespace BufferPool
variable {n : Nat} {T D : Type}

def Tied (s : BufferPool n T D) (page : Int) : Prop := s.pageTable page ≠ none ∨ s.flushing page = true

/-- How an id stands; `clean` says what the disk holds for the ids that can be handed out. -/
structure Standing (clean : D → Prop) (s : BufferPool n T D) (page : Int) : Prop where
  tied : s.Tied page → s.live page = true
  free : page ∈ s.freePages → s.live page = false ∧ page < s.nextPageId ∧ clean (s.disk page)
  fresh : s.nextPageId ≤ page → s.live page = false ∧ clean (s.disk page)
  dying : ∀ t zeroed, (s.point t).dying = some (page, zeroed) →
    s.live page = false ∧ page < s.nextPageId ∧ page ∉ s.freePages ∧ (zeroed = true → clean (s.disk page))
  alone : ∀ t u zeroed other, (s.point t).dying = some (page, zeroed) → (s.point u).dying = some (page, other) → t = u

structure Owned (clean : D → Prop) (s : BufferPool n T D) : Prop where
  counter : 0 ≤ s.nextPageId
  nodup : s.freePages.Nodup
  standing : ∀ page, s.Standing clean page

/-- Fetches and deletions are of live pages, a page is not deleted while its write-back is in flight, and the
counter of page ids does not wrap. -/
def Disciplined (s : BufferPool n T D) : PoolAction T D → Prop
  | .advance t _ =>
    match s.point t with
    | .allocating => s.nextPageId + 1 < 2 ^ 31
    | .fetching page _ => s.live page = true
    | .deleting page => s.live page = true ∧ s.flushing page = false
    | _ => True
  | .call _ .allocateRawPageId => s.nextPageId + 1 < 2 ^ 31
  | .call _ _ | .getData _ | .getDataMut _ _ | .flush _ _ | .drop _ => True

/-- A deallocated page is zeroed. -/
def Zeroing (s : BufferPool n T D) : PoolAction T D → Prop
  | .advance t outcome =>
    match s.point t with
    | .deallocating _ _ => outcome.fails = false
    | _ => True
  | .call _ _ | .getData _ | .getDataMut _ _ | .flush _ _ | .drop _ => True

section
variable [DecidableEq T] {s next : BufferPool n T D} {t : T} {events : List (PoolEvent D)} {clean : D → Prop}

/-- Who is taking a page away after a step of one actor. -/
theorem dying_of_setPoint {q : BufferPool n T D} {after : PoolPoint n} {u : T} {page : Int} {zeroed : Bool}
    (going : ((q.setPoint t after).point u).dying = some (page, zeroed)) :
    (u = t ∧ after.dying = some (page, zeroed)) ∨ u ≠ t ∧ (q.point u).dying = some (page, zeroed) := by
  by_cases same : u = t
  · simp only [same, setPoint, update_self] at going
    exact .inl ⟨same, going⟩
  · simp only [setPoint, update_of_ne same] at going
    exact .inr ⟨same, going⟩

theorem dying_elsewhere {q : BufferPool n T D} {after : PoolPoint n} {u : T} {other : Int} {zeroed : Bool}
    (leaves : ∀ zeroed, after.dying ≠ some (other, zeroed))
    (going : ((q.setPoint t after).point u).dying = some (other, zeroed)) : (q.point u).dying = some (other, zeroed) :=
  (dying_of_setPoint going).elim (fun here => absurd here.2 (leaves zeroed)) And.right

theorem dying_calm {q : BufferPool n T D} {after : PoolPoint n} (points : q.point = s.point)
    (calm : after.dying = none) (u : T) (page : Int) (zeroed : Bool)
    (going : ((q.setPoint t after).point u).dying = some (page, zeroed)) : (s.point u).dying = some (page, zeroed) := by
  rw [← points]
  refine dying_elsewhere ?_ going
  rw [calm]
  exact fun _ => nofun

variable {page : Int}

omit [DecidableEq T] in
theorem Standing.keep (standing : s.Standing clean page) (live : next.live page = s.live page)
    (counter : s.nextPageId ≤ next.nextPageId) (free : page ∈ next.freePages ↔ page ∈ s.freePages)
    (dying : ∀ u zeroed, (next.point u).dying = some (page, zeroed) → (s.point u).dying = some (page, zeroed))
    (tied : next.Tied page → s.Tied page ∨ s.live page = true)
    (disk : s.live page = false → next.disk page = s.disk page) : next.Standing clean page := by
  obtain ⟨owner, waits, fresh, leaves, alone⟩ := standing
  refine ⟨?_, ?_, ?_, ?_, ?_⟩
  · intro now
    rw [live]
    exact (tied now).elim owner id
  · intro member
    obtain ⟨dead, below, zero⟩ := waits (free.mp member)
    rw [live, disk dead]
    exact ⟨dead, by omega, zero⟩
  · intro above
    obtain ⟨dead, zero⟩ := fresh (by omega)
    rw [live, disk dead]
    exact ⟨dead, zero⟩
  · intro u zeroed going
    obtain ⟨dead, below, apart, zero⟩ := leaves u zeroed (dying u zeroed going)
    rw [live, free, disk dead]
    exact ⟨dead, by omega, apart, zero⟩
  · intro u v zeroed other first second
    exact alone u v zeroed other (dying u zeroed first) (dying v other second)

section
variable (owned : s.Owned clean)
include owned

omit [DecidableEq T] in
theorem Owned.tied (page : Int) : s.Tied page → s.live page = true := (owned.standing page).tied

omit [DecidableEq T] in
/-- A live id is none that can be handed out, and none that is taken away. -/
theorem Owned.live_apart (alive : s.live page = true) : page < s.nextPageId ∧ page ∉ s.freePages ∧
    ∀ u zeroed, (s.point u).dying ≠ some (page, zeroed) := by
  obtain ⟨-, waits, fresh, leaves, -⟩ := owned.standing page
  rw [alive] at waits fresh leaves
  refine ⟨not_le.mp fun above => ?_, fun member => ?_, fun u zeroed going => ?_⟩
  · cases (fresh above).1
  · cases (waits member).1
  · cases (leaves u zeroed going).1

omit [DecidableEq T] in
theorem Owned.keep (live : next.live = s.live) (free : next.freePages = s.freePages)
    (counter : next.nextPageId = s.nextPageId)
    (dying : ∀ u page zeroed, (next.point u).dying = some (page, zeroed) → (s.point u).dying = some (page, zeroed))
    (tied : ∀ page, next.Tied page → s.Tied page ∨ s.live page = true)
    (disk : ∀ page, s.live page = false → next.disk page = s.disk page) : next.Owned clean :=
  ⟨counter ▸ owned.counter, free ▸ owned.nodup, fun page => (owned.standing page).keep (congrFun live page) counter.ge
    (by rw [free]) (fun u => dying u page) (tied page) (disk page)⟩

/-- An id that nobody takes away is handed out. -/
theorem Owned.handOut {q : BufferPool n T D} (counter : 0 ≤ q.nextPageId) (grown : s.nextPageId ≤ q.nextPageId)
    (below : page < q.nextPageId) (nodup : q.freePages.Nodup) (taken : page ∉ q.freePages)
    (free : ∀ other, other ≠ page → (other ∈ q.freePages ↔ other ∈ s.freePages))
    (spared : ∀ u zeroed, (s.point u).dying ≠ some (page, zeroed)) (live : q.live = update s.live page true)
    (points : q.point = s.point) (tied : ∀ page, q.Tied page → s.Tied page) (disk : q.disk = s.disk) :
    (q.setPoint t .idle).Owned clean := by
  have dying := dying_calm (t := t) points (show PoolPoint.idle.dying = none from rfl)
  refine ⟨counter, nodup, fun other => ?_⟩
  by_cases same : other = page
  · subst same
    refine ⟨fun _ => ?_, fun member => absurd member taken, fun above => absurd below (not_lt.mpr above), ?_, ?_⟩
    · simp only [setPoint, live, update_self]
    · intro u zeroed going
      exact absurd (dying u _ zeroed going) (spared u zeroed)
    · intro u v zeroed last going
      exact absurd (dying u _ zeroed going) (spared u zeroed)
  · refine (owned.standing other).keep ?_ grown (free other same) (fun u => dying u other)
      (fun held => .inl (tied other held)) fun _ => congrFun disk other
    simp only [setPoint, live, update_of_ne same]

theorem Owned.allocate (room : s.nextPageId + 1 < 2 ^ 31) : (s.allocate t).1.Owned clean := by
  have counter := owned.counter
  have counted : (s.nextPageId + 1).bmod (2 ^ 32) = s.nextPageId + 1 := by
    apply Int.bmod_eq_of_le_mul_two <;> omega
  obtain ⟨-, waits, -, leaves, -⟩ := owned.standing s.nextPageId
  have live : (s.allocate t).1.live = update s.live s.nextPageId true := rfl
  refine owned.handOut ?_ ?_ ?_ owned.nodup ?_ (fun _ _ => Iff.rfl) ?_ live rfl (fun _ => id) rfl
  · show 0 ≤ (s.nextPageId + 1).bmod (2 ^ 32)
    omega
  · show s.nextPageId ≤ (s.nextPageId + 1).bmod (2 ^ 32)
    omega
  · show s.nextPageId < (s.nextPageId + 1).bmod (2 ^ 32)
    omega
  · exact fun member => lt_irrefl _ (waits member).2.1
  · exact fun u zeroed going => lt_irrefl _ (leaves u zeroed going).2.1

theorem Owned.reuse {rest : List Int} (pages : s.freePages = page :: rest) :
    ({ s with freePages := rest, live := update s.live page true }.setPoint t .idle).Owned clean := by
  obtain ⟨-, waits, -, leaves, -⟩ := owned.standing page
  have nodup := owned.nodup
  rw [pages] at waits leaves nodup
  have member : page ∈ page :: rest := List.mem_cons_self
  rw [List.nodup_cons] at nodup
  refine owned.handOut owned.counter le_rfl (waits member).2.1 nodup.2 nodup.1 ?_ ?_ rfl rfl (fun _ => id) rfl
  · intro other apart
    rw [pages]
    exact (List.mem_cons.trans (or_iff_right apart)).symm
  · exact fun u zeroed going => (leaves u zeroed going).2.2.1 member

/-- The latched section of `DeletePage` takes a live page that is not in flight out of the pool. -/
theorem Owned.delete {q : BufferPool n T D} {after : PoolPoint n} (alive : s.live page = true)
    (live : q.live = update s.live page false) (free : q.freePages = s.freePages)
    (counter : q.nextPageId = s.nextPageId) (point : q.point = s.point) (disk : q.disk = s.disk)
    (tied : ∀ other, q.Tied other → s.Tied other ∧ other ≠ page)
    (leaves : after.dying = none ∨ after.dying = some (page, false)) : (q.setPoint t after).Owned clean := by
  obtain ⟨below, outside, spared⟩ := owned.live_apart alive
  refine ⟨counter ▸ owned.counter, free ▸ owned.nodup, fun other => ?_⟩
  by_cases same : other = page
  · subst same
    have dead : q.live other = false := by rw [live, update_self]
    have now (u : T) (zeroed : Bool) (going : ((q.setPoint t after).point u).dying = some (other, zeroed)) :
        u = t ∧ zeroed = false := by
      rcases dying_of_setPoint going with ⟨same, here⟩ | ⟨-, before⟩
      · rcases leaves with none | dying
        · rw [none] at here
          cases here
        · rw [dying] at here
          cases here
          exact ⟨same, rfl⟩
      · rw [point] at before
        exact absurd before (spared u zeroed)
    refine ⟨fun held => absurd rfl (tied other held).2, fun member => absurd (free ▸ member) outside, ?_, ?_, ?_⟩
    · intro above
      exact absurd (counter ▸ below) (not_lt.mpr above)
    · intro u zeroed going
      obtain ⟨-, rfl⟩ := now u zeroed going
      exact ⟨dead, counter ▸ below, free ▸ outside, fun impossible => by cases impossible⟩
    · intro u v zeroed last first second
      rw [(now u zeroed first).1, (now v last second).1]
  · refine (owned.standing other).keep ?_ counter.ge (by rw [← free]; rfl) ?_ (fun held => .inl (tied other held).1)
      fun _ => congrFun disk other
    · show q.live other = s.live other
      rw [live, update_of_ne same]
    · rw [← point]
      exact fun u zeroed => dying_elsewhere (PoolPoint.dying_apart leaves same)

variable {outcome : DiskOutcome D}

/-- The disk has lost the bytes of a page that is taken away. -/
theorem Owned.cleared {zeroed : Bool} (going : (s.point t).dying = some (page, zeroed)) (bytes : D)
    {point : PoolPoint n} (after : point.dying = none ∨ point.dying = some (page, true) ∧ clean bytes) :
    ({ s with disk := update s.disk page bytes }.setPoint t point).Owned clean := by
  refine ⟨owned.counter, owned.nodup, fun other => ?_⟩
  by_cases same : other = page
  · subst same
    obtain ⟨holds, -, -, leaves, alone⟩ := owned.standing other
    obtain ⟨dead, below, outside, -⟩ := leaves t zeroed going
    have now (u : T) (last : Bool) (leaving : (({ s with disk := update s.disk other bytes }.setPoint t
        point).point u).dying = some (other, last)) : u = t ∧ clean bytes := by
      rcases dying_of_setPoint leaving with ⟨same, here⟩ | ⟨apart, before⟩
      · rcases after with none | ⟨-, zero⟩
        · rw [none] at here
          cases here
        · exact ⟨same, zero⟩
      · exact absurd (alone u t last zeroed before going) apart
    refine ⟨holds, fun member => absurd member outside, fun above => absurd below (not_lt.mpr above), ?_, ?_⟩
    · intro u last leaving
      refine ⟨dead, below, outside, fun _ => ?_⟩
      simp only [setPoint, update_self]
      exact (now u last leaving).2
    · intro u v _ last first second
      rw [(now u _ first).1, (now v last second).1]
  · refine (owned.standing other).keep rfl le_rfl Iff.rfl ?_ .inl fun _ => update_of_ne same ..
    exact fun u last => dying_elsewhere (PoolPoint.dying_apart (after.imp_right And.left) same)

theorem Owned.deallocate [Zero D] {changed : Bool} (zero : clean 0)
    (here : s.point t = .deallocating page changed) (zeroes : outcome.fails = false ∨ ∀ bytes, clean bytes) :
    (s.deallocatePage t page changed outcome).1.Owned clean := by
  have going : (s.point t).dying = some (page, false) := congrArg PoolPoint.dying here
  cases outcome with
  | ok => exact owned.cleared going 0 (.inr ⟨rfl, zero⟩)
  | failed left =>
    rcases zeroes with never | all
    · cases never
    · exact owned.cleared going _ (.inr ⟨rfl, all _⟩)
  | threw left => exact owned.cleared going _ (.inl rfl)

theorem Owned.reclaim (here : s.point t = .reclaiming page) :
    ({ s with freePages := page :: s.freePages }.setPoint t .idle).Owned clean := by
  have going : (s.point t).dying = some (page, true) := congrArg PoolPoint.dying here
  obtain ⟨holds, -, fresh, leaves, alone⟩ := owned.standing page
  obtain ⟨dead, below, outside, zero⟩ := leaves t true going
  refine ⟨owned.counter, List.nodup_cons.mpr ⟨outside, owned.nodup⟩, fun other => ?_⟩
  by_cases same : other = page
  · subst same
    have done (u : T) (zeroed : Bool) : (({ s with freePages := other :: s.freePages }.setPoint t .idle).point u).dying ≠
        some (other, zeroed) := by
      intro leaving
      rcases dying_of_setPoint leaving with ⟨-, idle⟩ | ⟨apart, before⟩
      · cases idle
      · exact apart (alone u t zeroed true before going)
    exact ⟨holds, fun _ => ⟨dead, below, zero rfl⟩, fresh, fun u zeroed leaving => absurd leaving (done u zeroed),
      fun u _ zeroed _ leaving => absurd leaving (done u zeroed)⟩
  · refine (owned.standing other).keep rfl le_rfl ?_ ?_ .inl fun _ => rfl
    · exact List.mem_cons.trans (or_iff_right same)
    · exact fun u => dying_calm rfl rfl u other

theorem Owned.moved {q : BufferPool n T D} {point : PoolPoint n} (points : q.point = s.point)
    (table : q.pageTable = s.pageTable) (flushing : q.flushing = s.flushing) (live : q.live = s.live)
    (free : q.freePages = s.freePages) (counter : q.nextPageId = s.nextPageId)
    (disk : ∀ page, s.live page = false → q.disk page = s.disk page) (after : point.dying = none) :
    (q.setPoint t point).Owned clean := by
  refine owned.keep live free counter (dying_calm points after) ?_ disk
  intro page tied
  left
  unfold Tied at tied ⊢
  rw [← table, ← flushing]
  exact tied

end

variable {mode : GuardMode}

omit [DecidableEq T] in
theorem tied_of_placed [Fintype T] (placed : s.book.Placed) {f : Fin n}
    (holds : (s.frames f).pageId = some page) : s.Tied page := by
  rcases placed.bound f page holds with ⟨mapped, _⟩ | ⟨_, flushing⟩
  · left
    show s.book.table page ≠ none
    rw [mapped]
    exact Option.some_ne_none f
  · exact .inr flushing

section
variable (owned : s.Owned clean)
include owned

omit [DecidableEq T] in
theorem Owned.written (tied : s.Tied page) (bytes : D) (other : Int) (dead : s.live other = false) :
    update s.disk page bytes other = s.disk other := by
  apply update_of_ne
  rintro rfl
  rw [owned.tied other tied] at dead
  cases dead

/-- Only the page that leaves the table may become untied, and only the page that enters it tied. -/
theorem Owned.remap {q : BufferPool n T D} {point : PoolPoint n} (points : q.point = s.point)
    (live : q.live = s.live) (free : q.freePages = s.freePages) (counter : q.nextPageId = s.nextPageId)
    (disk : q.disk = s.disk) (after : point.dying = none) (alive : s.live page = true)
    (table : q.pageTable = s.pageTable ∨ ∃ frame, q.pageTable = update s.pageTable page frame)
    (flushing : q.flushing = s.flushing ∨ ∃ flies, q.flushing = update s.flushing page flies) :
    (q.setPoint t point).Owned clean := by
  refine owned.keep live free counter (dying_calm points after) ?_ fun other _ => congrFun disk other
  intro other tied
  by_cases same : other = page
  · rw [same]
    exact .inr alive
  · refine .inl (tied.imp (fun mapped => ?_) fun flies => ?_)
    · rcases table with kept | ⟨frame, changed⟩
      · exact kept ▸ mapped
      · simpa only [setPoint, changed, update_of_ne same] using mapped
    · rcases flushing with kept | ⟨value, changed⟩
      · exact kept ▸ flies
      · simpa only [setPoint, changed, update_of_ne same] using flies

theorem Owned.deletePage (alive : s.live page = true) (landed : s.flushing page = false) :
    (s.deletePage t page).1.Owned clean := by
  have gone {table : Int → Option (Fin n)} (less : ∀ p, table p ≠ none → s.pageTable p ≠ none ∧ p ≠ page)
      (other : Int) (now : table other ≠ none ∨ s.flushing other = true) : s.Tied other ∧ other ≠ page := by
    rcases now with mapped | flushing
    · exact ⟨.inl (less other mapped).1, (less other mapped).2⟩
    · refine ⟨.inr flushing, ?_⟩
      rintro rfl
      rw [landed] at flushing
      cases flushing
  have less (p : Int) (still : update s.pageTable page none p ≠ none) : s.pageTable p ≠ none ∧ p ≠ page := by
    by_cases same : p = page
    · rw [same, update_self] at still
      exact absurd rfl still
    · rw [update_of_ne same] at still
      exact ⟨still, same⟩
  fun_cases BufferPool.deletePage s t page with
  | case1 dead absent =>
    refine owned.delete alive rfl rfl rfl rfl rfl (gone ?_) (.inr rfl)
    intro p mapped
    refine ⟨mapped, ?_⟩
    rintro rfl
    exact mapped absent
  | case2 => exact owned.moved rfl rfl rfl rfl rfl rfl (fun _ _ => rfl) rfl
  | case3 => exact owned.delete alive rfl rfl rfl rfl rfl (gone less) (.inr rfl)
  | case4 => exact owned.delete alive rfl rfl rfl rfl rfl (gone less) (.inl rfl)

theorem Owned.step [Fintype T] [Zero D] (placed : s.book.Placed) {a : PoolAction T D}
    (disciplined : s.Disciplined a) (zero : clean 0) (zeroing : s.Zeroing a ∨ ∀ bytes, clean bytes)
    (taken : s.step a = some (next, events)) : next.Owned clean := by
  have held {f : Fin n} {page : Int} (holds : (s.frames f).pageId = some page) : s.Tied page :=
    tied_of_placed placed holds
  have victim {t : T} {f : Fin n} {page : Int} (flies : (s.point t).victim = some (f, page)) : s.Tied page :=
    held (placed.victims t f page flies).1
  have plain {q : BufferPool n T D} {t : T} {point : PoolPoint n} (points : q.point = s.point)
      (table : q.pageTable = s.pageTable) (flushing : q.flushing = s.flushing) (live : q.live = s.live)
      (free : q.freePages = s.freePages) (counter : q.nextPageId = s.nextPageId) (disk : q.disk = s.disk)
      (after : point.dying = none) : (q.setPoint t point).Owned clean :=
    owned.moved points table flushing live free counter (fun page _ => congrFun disk page) after
  cases change_of_step taken with
  | quiet before rests => exact plain rfl rfl rfl rfl rfl rfl rfl (PoolPoint.dying_of_detached rests)
  | lost full chosen absent => exact (not_lost placed full chosen absent).elim
  | told | refused | ready => exact plain rfl rfl rfl rfl rfl rfl rfl rfl
  | allocated before counts =>
    refine owned.allocate ?_
    rcases counts with rfl | ⟨here, outcome, rfl⟩
    · exact disciplined
    · simpa only [Disciplined, here] using disciplined
  | reused before pages => exact owned.reuse pages
  | pinned before _ _ _ holds =>
    exact plain rfl rfl rfl rfl rfl rfl rfl (PoolPoint.dying_of_pins (PoolPoint.pins_of_settled holds))
  | mapping here =>
    simp only [Disciplined, here] at disciplined
    exact owned.remap rfl rfl rfl rfl rfl rfl disciplined (.inr ⟨_, rfl⟩) (.inl rfl)
  | detach before _ _ holds =>
    exact owned.remap rfl rfl rfl rfl rfl rfl (owned.tied _ (held holds)) (.inr ⟨_, rfl⟩) (.inr ⟨_, rfl⟩)
  | recycle before _ _ holds =>
    exact owned.remap rfl rfl rfl rfl rfl (PoolPoint.dying_of_detached before) (owned.tied _ (held holds))
      (.inr ⟨_, rfl⟩) (.inl rfl)
  | @writeBack _ _ _ _ _ outcome here =>
    have tied := victim (by rw [here]; rfl)
    cases outcome <;> exact owned.moved rfl rfl rfl rfl rfl rfl (owned.written tied _) rfl
  | @finish _ t page mode f old ok here =>
    have alive := owned.tied _ (victim (by rw [here]; rfl))
    fun_cases finishEviction s t page mode f old ok with
    | case1 => exact owned.remap rfl rfl rfl rfl rfl rfl alive (.inl rfl) (.inr ⟨_, rfl⟩)
    | case2 => exact owned.remap rfl rfl rfl rfl rfl rfl alive (.inr ⟨_, rfl⟩) (.inr ⟨_, rfl⟩)
  | @load _ _ _ _ outcome => cases outcome <;> exact plain rfl rfl rfl rfl rfl rfl rfl rfl
  | keep keeps => exact plain rfl rfl rfl rfl rfl rfl rfl (PoolPoint.dying_of_pins keeps.pins)
  | save keeps holds =>
    exact owned.moved rfl rfl rfl rfl rfl rfl (owned.written (held holds) _) (PoolPoint.dying_of_pins keeps.pins)
  | @unpin _ t f =>
    fun_cases unpin s t f with
    | case1 => exact owned.keep rfl rfl rfl (dying_calm rfl rfl) (fun _ => .inl) fun _ _ => rfl
    | _ => exact plain rfl rfl rfl rfl rfl rfl rfl rfl
  | flushUnpin =>
    refine plain rfl rfl rfl rfl rfl rfl rfl ?_
    split <;> rfl
  | delete here =>
    simp only [Disciplined, here] at disciplined
    exact owned.deletePage disciplined.1 disciplined.2
  | deallocate here =>
    simp only [Zeroing, here] at zeroing
    exact owned.deallocate zero here zeroing
  | reclaim here => exact owned.reclaim here
  | exposed => exact owned
  | wrote => exact owned.keep rfl rfl rfl (fun _ _ _ => id) (fun _ => .inl) fun _ _ => rfl

end

omit [DecidableEq T] in
theorem Initial.owned [Zero D] {base : Int → D} (zero : clean 0) (initial : Initial base s) : s.Owned clean := by
  have dead {page : Int} (unused : ¬ (page < s.nextPageId ∧ page ∉ s.freePages)) :
      s.live page = false ∧ clean (s.disk page) := by
    have gone : s.live page = false := by
      rw [← Bool.not_eq_true, initial.live]
      exact fun used => unused used.2
    refine ⟨gone, ?_⟩
    rw [initial.disk, initial.unused page gone]
    exact zero
  refine ⟨initial.nextPageId.1, initial.freePages.1, fun page => ⟨?_, ?_, ?_, ?_, ?_⟩⟩
  · rintro (mapped | flushing)
    · exact absurd (initial.pageTable page) mapped
    · rw [initial.flushing] at flushing
      cases flushing
  · intro member
    obtain ⟨gone, zero⟩ := dead fun both => both.2 member
    exact ⟨gone, (initial.freePages.2 page member).2, zero⟩
  · intro above
    exact dead fun both => absurd both.1 (not_lt.mpr above)
  · intro t zeroed going
    rw [initial.point] at going
    cases going
  · intro t u zeroed other going
    rw [initial.point] at going
    cases going

end

end BufferPool

end BumbleBee.Buffer
