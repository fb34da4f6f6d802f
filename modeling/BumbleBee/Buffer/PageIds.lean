import BumbleBee.Buffer.Coherence

/-!
Page ids. `NewPage` hands out an id of the free list or the next one of the counter, and `DeletePage` puts
its id on the free list whether or not the page was in use. With callers that delete each page once, and
not while its write-back is in flight, and a counter that has not wrapped, an id belongs to one page at a time.
-/

namespace BumbleBee.Buffer
open Library.Transition BufferPool

namespace BufferPool
variable {n : Nat} {T D : Type} [DecidableEq T] [Zero D] {s next : BufferPool n T D} {events : List (PoolEvent D)}
  {page : Int} {clean : D → Prop}

theorem Owned.not_live_of_allocated (owned : s.Owned clean) {a : PoolAction T D} (taken : s.step a = some (next, events))
    (given : .allocated page ∈ events) : s.live page = false := by
  rcases (change_of_step taken).made with (rfl | rfl | ⟨_, rfl⟩) | ⟨other, rfl, source⟩ | ⟨t, _, f, _, rfl⟩ | ⟨_, _, rfl⟩
  · cases given
  · simp at given
  · simp at given
  · rw [List.mem_singleton, PoolEvent.allocated.injEq] at given
    subst given
    rcases source with rfl | member
    · exact ((owned.standing _).fresh le_rfl).1
    · exact ((owned.standing _).free member).1
  · simp at given
  · simp at given

end BufferPool

/-- In a run of disciplined steps no live id is handed out, the free list has each id once and none that the page
table maps, and a page whose write-back is in flight stays live, in no other frame and outside the free list. -/
theorem page_ids_exclusive {n : Nat} {T D : Type} [DecidableEq T] [Fintype T] [Zero D] {base : Int → D}
    {log : List (PoolEvent D)} {s : BufferPool n T D} (run : Run (bufferPool n T D base) Disciplined log s) :
    (∀ a next events page, s.step a = some (next, events) → .allocated page ∈ events → s.live page = false) ∧
      s.freePages.Nodup ∧ (∀ page ∈ s.freePages, s.pageTable page = none) ∧
      ∀ t f page, (s.point t).victim = some (f, page) →
        s.live page = true ∧ page ∉ s.freePages ∧ s.pageTable page = none ∧
          ∀ g, (s.frames g).pageId = some page → g = f := by
  have invariant : s.book.Placed ∧ s.Owned fun _ => True := by
    refine Run.invariant (I := fun _ s => s.book.Placed ∧ s.Owned fun _ => True) ?_ ?_ run
    · exact fun s initial => ⟨initial.placed, initial.owned trivial⟩
    · intro log s next a events _ ⟨placed, owned⟩ disciplined taken
      exact ⟨(step_moves placed taken).placed placed, owned.step placed disciplined trivial (.inr fun _ => trivial) taken⟩
  obtain ⟨placed, owned⟩ := invariant
  refine ⟨fun a next events page => owned.not_live_of_allocated, owned.nodup, ?_, ?_⟩
  · intro page member
    by_contra mapped
    have alive := owned.tied page (.inl mapped)
    rw [((owned.standing page).free member).1] at alive
    cases alive
  · intro t f page victim
    obtain ⟨holds, flushing⟩ := placed.victims t f page victim
    have alive := owned.tied page (.inr flushing)
    refine ⟨alive, ?_, placed.victim_absent victim, fun g same => placed.distinct g f page same holds⟩
    intro member
    rw [((owned.standing page).free member).1] at alive
    cases alive

/-- The id of a deleted page is handed out again. -/
theorem page_ids_exclusive_reused :
    ∃ log s, Run (bufferPool 1 (Fin 2) SampleBytes fun _ => 0) Disciplined log s ∧ log.head? = some (.allocated 0) ∧
      (∀ a next events page, s.step a = some (next, events) → .allocated page ∈ events → s.live page = false) ∧
      s.freePages.Nodup ∧ (∀ page ∈ s.freePages, s.pageTable page = none) ∧
      ∀ t f page, (s.point t).victim = some (f, page) →
        s.live page = true ∧ page ∉ s.freePages ∧ s.pageTable page = none ∧
          ∀ g, (s.frames g).pageId = some page → g = f := by
  obtain ⟨s, log, run, shown⟩ := execChecked_shows (M := bufferPool 1 (Fin 2) SampleBytes fun _ => 0)
    (fun s a passed => (reliable_of_test s a passed).1)
    (writeFirst ++ [.call 0 (.deletePage 0), .advance 0 .ok, .advance 0 .ok, .advance 0 .ok, .call 0 .newPage])
    oneFrame_initial (fun r => r.2.head?) (some (.allocated 0)) (by decide +kernel)
  exact ⟨log, s, run, shown, page_ids_exclusive run⟩

/-- `DeletePage` of a page in no frame, from the call to the free list. -/
def deleteAway (t : Fin 2) (page : Int) : List (PoolAction (Fin 2) SampleBytes) :=
  [.call t (.deletePage page), .advance t .ok, .advance t .ok, .advance t .ok]

/-- Page 0 is deleted and its id handed out again while its write-back is in flight. -/
def reuseInFlight (t u : Fin 2) : List (PoolAction (Fin 2) SampleBytes) :=
  writeFirst ++ [.call u .newPage, .advance u .ok, .call u (.checkedPage 1 .read), .advance u .ok] ++
    deleteAway t 0 ++ [.call t .newPage]

/-- A page deleted twice is twice on the free list, and its id is handed out while it is live. The write-back of a
page deleted meanwhile writes the old bytes to the page that has its id now, or fails and maps the id to the old
frame. -/
theorem page_ids_clash :
    (∃ log s, Run (bufferPool 1 (Fin 2) SampleBytes fun _ => 0) always log s ∧ s.freePages = [0, 0]) ∧
    (∃ log s, Run (bufferPool 1 (Fin 2) SampleBytes fun _ => 0) always log s ∧ s.live 0 = true ∧
      ∃ next, s.step (.call 0 .newPage) = some (next, [.allocated 0])) ∧
    (∃ log s, Run (bufferPool 1 (Fin 2) SampleBytes fun _ => 0) always log s ∧ log.head? = some (.allocated 0) ∧
      s.disk 0 = .written) ∧
    ∃ log s, Run (bufferPool 1 (Fin 2) SampleBytes fun _ => 0) always log s ∧
      log.take 2 = [.outOfFrames, .allocated 0] ∧ s.pageTable 0 = some 0 ∧ (s.frames 0).data = .written := by
  have runs (actions : List (PoolAction (Fin 2) SampleBytes)) (P : BufferPool 1 (Fin 2) SampleBytes →
      List (PoolEvent SampleBytes) → Prop) [∀ s log, Decidable (P s log)]
      (result : (exec (bufferPool 1 (Fin 2) SampleBytes fun _ => 0) oneFrame [] actions).map
        (fun r => decide (P r.1 r.2)) = some true) :
      ∃ log s, Run (bufferPool 1 (Fin 2) SampleBytes fun _ => 0) always log s ∧ P s log := by
    obtain ⟨s, log, run, shown⟩ := exec_shows actions oneFrame_initial (fun _ _ _ => trivial) _ _ result
    exact ⟨log, s, run, of_decide_eq_true shown⟩
  refine ⟨runs ([.call 0 .newPage, .advance 0 .ok] ++ deleteAway 0 0 ++ deleteAway 0 0)
      (fun s _ => s.freePages = [0, 0]) (by decide +kernel), ?_,
    runs (reuseInFlight 0 1 ++ [.advance 1 .ok]) (fun s log => log.head? = some (.allocated 0) ∧ s.disk 0 = .written)
      (by decide +kernel),
    runs (reuseInFlight 0 1 ++ [.advance 1 (.failed none), .advance 1 .ok]) (fun s log =>
      log.take 2 = [.outOfFrames, .allocated 0] ∧ s.pageTable 0 = some 0 ∧ (s.frames 0).data = .written)
      (by decide +kernel)⟩
  obtain ⟨log, s, run, alive, given⟩ := runs ([.call 0 .newPage, .advance 0 .ok] ++ deleteAway 0 0 ++ deleteAway 0 0 ++
      [.call 0 .newPage])
    (fun s _ => s.live 0 = true ∧ (s.step (.call 0 .newPage)).map Prod.snd = some [.allocated 0]) (by decide +kernel)
  obtain ⟨⟨next, events⟩, taken, rfl⟩ := Option.map_eq_some_iff.mp given
  exact ⟨log, s, run, alive, next, taken⟩

end BumbleBee.Buffer
