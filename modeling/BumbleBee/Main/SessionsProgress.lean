import BumbleBee.Library.Ledger
import BumbleBee.Main.Sessions

/-!
When sessions can get stuck. The managers' counters are the sums of what the
sessions hold, the queue for worker slots holds exactly the tickets of the threads
waiting there, and a sleeping thread is never one that could go on. What is left
is the circle between the two managers: statements that hold every slot and wait
for a lease, behind an exclusive request that waits for a transaction whose next
statement waits for a slot.
-/

namespace BumbleBee.Main
open Library.Transition Library.Ledger Function

namespace Session

@[simp] def slots (x : Session) : Nat := x.workerSlot + x.queryWorkers

@[simp] def shares (x : Session) : Nat := (if x.lease = .shared then 1 else 0) + if x.explicitLease then 1 else 0

@[simp] def excludes (x : Session) : Nat := if x.lease = .exclusive then 1 else 0

@[simp] def awaits (x : Session) : Nat :=
  match x.place with
  | .excluding _ => 1
  | _ => 0

@[simp] def ticket (x : Session) : Option Nat :=
  match x.place with
  | .queued _ ticket => some ticket
  | _ => none

/-- What a session holds at each place. -/
def Shaped (x : Session) : Prop :=
  match x.place with
  | .idle => x.workerSlot = 0 ∧ x.queryWorkers = 0 ∧ x.lease = .none
  | .entering request | .queued request _ =>
    x.workerSlot = 0 ∧ x.queryWorkers = 0 ∧ x.lease = .none ∧ request ≠ .create
  | .leasing request =>
    x.workerSlot ≤ 1 ∧ x.queryWorkers = 0 ∧ x.lease = .none ∧ (request = .create → x.explicitLease = false)
  | .sharing _ => x.workerSlot ≤ 1 ∧ x.queryWorkers = 0 ∧ x.lease = .none ∧ x.explicitLease = false
  | .excluding request =>
    x.workerSlot ≤ 1 ∧ x.queryWorkers = 0 ∧ x.lease = .none ∧ x.explicitLease = false ∧ request ≠ .load
  | .running request =>
    x.workerSlot ≤ 1 ∧ (request = .load → x.lease = .shared ∧ x.explicitLease = false ∧ x.queryWorkers = 0)
  | .leaving => x.workerSlot ≤ 1 ∧ x.queryWorkers = 0
  | .freeing => x.workerSlot ≤ 1 ∧ x.queryWorkers = 0 ∧ x.lease = .none

end Session

namespace Sessions
variable {S : Type}

/-- Each counter is the sum of what the sessions hold. -/
structure Counted [Fintype S] (s : Sessions S) : Prop where
  used : s.slots.used = ∑ t, (s.session t).slots
  shared : s.leases.sharedLeases = ∑ t, (s.session t).shares
  exclusive : s.leases.exclusiveLease.toNat = ∑ t, (s.session t).excludes
  waiting : s.leases.waitingExclusive = ∑ t, (s.session t).awaits

/-- The queue holds the tickets of the threads that wait for a slot, once each. -/
structure InLine (s : Sessions S) : Prop where
  nodup : s.slots.waiters.Nodup
  issued : ∀ k ∈ s.slots.waiters, k < s.slots.nextTicket
  present : ∀ t k, (s.session t).ticket = some k → k ∈ s.slots.waiters
  owned : ∀ k ∈ s.slots.waiters, ∃ t, (s.session t).ticket = some k
  distinct : ∀ t u k, (s.session t).ticket = some k → (s.session u).ticket = some k → t = u

/-- No thread sleeps that could go on. -/
def Quiet (s : Sessions S) : Prop := ∀ t, s.asleep t = true → ¬ s.Ready t

structure Wf [Fintype S] (s : Sessions S) : Prop where
  capacity : 1 ≤ s.slots.capacity
  counted : s.Counted
  inLine : s.InLine
  shaped : ∀ t, (s.session t).Shaped
  quiet : s.Quiet

variable {s : Sessions S} {t : S} {x : Session}

theorem Initial.wf [Fintype S] (initial : s.Initial) : s.Wf := by
  obtain ⟨capacity, waiters, used, leases, idle⟩ := initial
  have held (u : S) : s.session u = ⟨.idle, 0, 0, .none, false⟩ := (idle u).1
  refine ⟨capacity, ⟨?_, ?_, ?_, ?_⟩, ⟨?_, ?_, ?_, ?_, ?_⟩, ?_, ?_⟩
  · simp [used, held]
  · simp [leases, held]
  · simp [leases, held]
  · simp [leases, held]
  · simp [waiters]
  · simp [waiters]
  · intro u k has
    simp [held] at has
  · simp [waiters]
  · intro u v k has
    simp [held] at has
  · simp [held, Session.Shaped]
  · intro u asleep
    rw [(idle u).2] at asleep
    cases asleep

@[simp] theorem releaseShared_session : s.releaseShared.session = s.session := by
  simp only [releaseShared]
  split <;> rfl

@[simp] theorem releaseShared_slots : s.releaseShared.slots = s.slots := by
  simp only [releaseShared]
  split <;> rfl

@[simp] theorem releaseShared_leases :
    s.releaseShared.leases = { s.leases with sharedLeases := s.leases.sharedLeases - 1 } := by
  simp only [releaseShared]
  split <;> rfl

/-- The next step of some session is to ask for the exclusive lease. -/
def AsksExclusive (s : Sessions S) (a : SessionAction S) : Prop :=
  ∃ t request, a = .advance t ∧ (s.session t).place = .leasing request ∧
    (request = .ddl ∨ request = .create) ∧ (s.session t).explicitLease = false

/-- An exclusive lease is held or asked for, so no shared lease is granted. -/
def Closed (s : Sessions S) : Prop := ¬ s.leases.SharedReady

/-- What a step does to the gate and to the transactions behind it. -/
structure Keeps (s : Sessions S) (a : SessionAction S) (next : Sessions S) : Prop where
  capacity : next.slots.capacity = s.slots.capacity
  gate : next.Closed → s.Closed ∨ s.AsksExclusive a
  transactions : ∀ u, (next.session u).explicitLease = true → (s.session u).explicitLease = true ∨ ¬ next.Closed

variable {a : SessionAction S} {next : Sessions S} {request : Request} {k : Nat}

section Posting
variable [DecidableEq S] {l : SchemaLeaseManager} {m : WorkerSlotManager} {asleep : S → Bool}

theorem Counted.posting [Fintype S] (counted : s.Counted)
    (used : m.used + (s.session t).slots = s.slots.used + x.slots)
    (shared : l.sharedLeases + (s.session t).shares = s.leases.sharedLeases + x.shares)
    (exclusive : l.exclusiveLease.toNat + (s.session t).excludes = s.leases.exclusiveLease.toNat + x.excludes)
    (waiting : l.waitingExclusive + (s.session t).awaits = s.leases.waitingExclusive + x.awaits) :
    Counted ⟨m, l, update s.session t x, asleep⟩ :=
  ⟨posted counted.used used, posted counted.shared shared, posted counted.exclusive exclusive,
    posted counted.waiting waiting⟩

theorem Shaped.update (shaped : ∀ u, (s.session u).Shaped) (new : x.Shaped) (u : S) :
    (update s.session t x u).Shaped := by
  by_cases same : u = t
  · subst same
    rw [update_self]
    exact new
  · rw [update_of_ne same]
    exact shaped u

theorem InLine.keep (inLine : s.InLine)
    (waiters : m.waiters = s.slots.waiters) (next : m.nextTicket = s.slots.nextTicket)
    (same : x.ticket = (s.session t).ticket) : InLine ⟨m, l, update s.session t x, asleep⟩ := by
  have tickets (u : S) : (update s.session t x u).ticket = (s.session u).ticket := by
    by_cases moved : u = t
    · subst moved
      rw [update_self, same]
    · rw [update_of_ne moved]
  constructor
  · rw [waiters]
    exact inLine.nodup
  · rw [waiters, next]
    exact inLine.issued
  · intro u k has
    rw [tickets] at has
    rw [waiters]
    exact inLine.present u k has
  · intro k member
    rw [waiters] at member
    obtain ⟨u, has⟩ := inLine.owned k member
    exact ⟨u, (tickets u).trans has⟩
  · intro u v k first second
    rw [tickets] at first second
    exact inLine.distinct u v k first second

theorem InLine.enqueued (inLine : s.InLine) (outside : (s.session t).ticket = none)
    (new : x.ticket = some s.slots.nextTicket) : InLine ⟨s.slots.enqueue, l, update s.session t x, asleep⟩ := by
  have fresh : s.slots.nextTicket ∉ s.slots.waiters := fun member => lt_irrefl _ (inLine.issued _ member)
  have other {u : S} (apart : u ≠ t) : (update s.session t x u).ticket = (s.session u).ticket := by
    rw [update_of_ne apart]
  have own : (update s.session t x t).ticket = some s.slots.nextTicket := by
    rw [update_self, new]
  have older {u : S} {k : Nat} (has : (update s.session t x u).ticket = some k) (apart : u ≠ t) :
      k ≠ s.slots.nextTicket := by
    rintro rfl
    rw [other apart] at has
    exact fresh (inLine.present u _ has)
  constructor
  · exact List.nodup_append.mpr ⟨inLine.nodup, List.nodup_singleton _, by
      rintro k member _ last rfl
      exact fresh ((List.mem_singleton.mp last) ▸ member)⟩
  · intro k member
    rcases List.mem_append.mp member with earlier | last
    · exact Nat.lt_succ_of_lt (inLine.issued k earlier)
    · rw [List.mem_singleton.mp last]
      exact Nat.lt_succ_self _
  · intro u k has
    by_cases moved : u = t
    · subst moved
      rw [own, Option.some.injEq] at has
      exact List.mem_append_right _ (List.mem_singleton.mpr has.symm)
    · rw [other moved] at has
      exact List.mem_append_left _ (inLine.present u k has)
  · intro k member
    rcases List.mem_append.mp member with earlier | last
    · obtain ⟨u, has⟩ := inLine.owned k earlier
      have apart : u ≠ t := by
        rintro rfl
        rw [outside] at has
        cases has
      exact ⟨u, (other apart).trans has⟩
    · exact ⟨t, own.trans (congrArg some (List.mem_singleton.mp last).symm)⟩
  · intro u v k first second
    by_cases left : u = t
    · by_cases right : v = t
      · rw [left, right]
      · subst left
        rw [own, Option.some.injEq] at first
        exact absurd first.symm (older second right)
    · by_cases right : v = t
      · subst right
        rw [own, Option.some.injEq] at second
        exact absurd second.symm (older first left)
      · rw [other left] at first
        rw [other right] at second
        exact inLine.distinct u v k first second

theorem InLine.taken (inLine : s.InLine)
    (front : s.slots.waiters.head? = some k) (own : (s.session t).ticket = some k) (gone : x.ticket = none) :
    InLine ⟨s.slots.take, l, update s.session t x, asleep⟩ := by
  obtain ⟨rest, waiters⟩ := List.head?_eq_some_iff.mp front
  have tail : s.slots.take.waiters = rest := by simp [WorkerSlotManager.take, waiters]
  have nodup := inLine.nodup
  rw [waiters, List.nodup_cons] at nodup
  have left {u : S} {j : Nat} (has : (update s.session t x u).ticket = some j) :
      u ≠ t ∧ (s.session u).ticket = some j := by
    by_cases moved : u = t
    · subst moved
      rw [update_self, gone] at has
      cases has
    · rw [update_of_ne moved] at has
      exact ⟨moved, has⟩
  constructor
  · rw [tail]
    exact nodup.2
  · intro j member
    rw [tail] at member
    exact inLine.issued j (waiters ▸ List.mem_cons_of_mem k member)
  · intro u j has
    obtain ⟨apart, before⟩ := left has
    have member := inLine.present u j before
    rw [waiters] at member
    rcases List.mem_cons.mp member with rfl | later
    · exact absurd (inLine.distinct u t j before own) apart
    · rw [tail]
      exact later
  · intro j member
    rw [tail] at member
    obtain ⟨u, has⟩ := inLine.owned j (waiters ▸ List.mem_cons_of_mem k member)
    have apart : u ≠ t := by
      rintro rfl
      rw [own, Option.some.injEq] at has
      exact nodup.1 (has ▸ member)
    exact ⟨u, (congrArg Session.ticket (update_of_ne apart _ _)).trans has⟩
  · intro u v j first second
    exact inLine.distinct u v j (left first).2 (left second).2

section
variable (quiet : s.Quiet)
include quiet

/-- A change of one session wakes every thread that it makes ready. -/
theorem Quiet.posting (woken : ∀ u, u ≠ t → asleep u = true → s.asleep u = true)
    (slots : ∀ u, u ≠ t → asleep u = true → ∀ k, (s.session u).ticket = some k → m.Admits k → s.slots.Admits k)
    (leases : ∀ u, u ≠ t → asleep u = true → (s.session u).place.atLeases = true →
      (l.SharedReady → s.leases.SharedReady) ∧ (l.ExclusiveReady → s.leases.ExclusiveReady))
    (own : asleep t = true → ¬ Ready ⟨m, l, update s.session t x, asleep⟩ t) :
    Quiet ⟨m, l, update s.session t x, asleep⟩ := by
  intro u sleeps
  by_cases moved : u = t
  · subst moved
    exact own sleeps
  · have before := quiet u (woken u moved sleeps)
    have queue := slots u moved sleeps
    have gate := leases u moved sleeps
    intro ready
    apply before
    simp only [Ready, update_of_ne moved] at ready ⊢
    cases place : (s.session u).place with
    | queued request k =>
      rw [place] at ready
      exact queue k (by simp [place]) ready
    | sharing request =>
      rw [place] at ready gate
      exact (gate rfl).1 ready
    | excluding request =>
      rw [place] at ready gate
      exact (gate rfl).2 ready
    | idle | entering request | leasing request | running request | leaving | freeing => trivial

theorem Quiet.notifiedSlots (awake : s.asleep t = false) : Quiet ⟨m, s.leases, update s.session t x,
      fun u => s.asleep u && !(update s.session t x u).place.atSlots⟩ := by
  apply quiet.posting
  · intro u apart sleeps
    exact (Bool.and_eq_true_iff.mp sleeps).1
  · intro u apart sleeps k waits
    have elsewhere := (Bool.and_eq_true_iff.mp sleeps).2
    rw [update_of_ne apart] at elsewhere
    cases place : (s.session u).place <;> simp [Place.atSlots, place] at waits elsewhere
  · exact fun _ _ _ _ => ⟨id, id⟩
  · simp [awake]

theorem Quiet.notifiedLeases (awake : s.asleep t = false) : Quiet ⟨s.slots, l, update s.session t x,
      fun u => s.asleep u && !(update s.session t x u).place.atLeases⟩ := by
  apply quiet.posting
  · intro u apart sleeps
    exact (Bool.and_eq_true_iff.mp sleeps).1
  · exact fun _ _ _ _ _ admits => admits
  · intro u apart sleeps waits
    have elsewhere := (Bool.and_eq_true_iff.mp sleeps).2
    rw [update_of_ne apart, waits] at elsewhere
    cases elsewhere
  · simp [awake]

/-- A change that notifies nobody: it may only take readiness away. -/
theorem Quiet.tightened (awake : s.asleep t = false)
    (slots : ∀ u k, (s.session u).ticket = some k → m.Admits k → s.slots.Admits k)
    (shared : l.SharedReady → s.leases.SharedReady) (exclusive : l.ExclusiveReady → s.leases.ExclusiveReady) :
    Quiet ⟨m, l, update s.session t x, s.asleep⟩ := by
  apply quiet.posting
  · exact fun _ _ sleeps => sleeps
  · exact fun u _ _ => slots u
  · exact fun _ _ _ _ => ⟨shared, exclusive⟩
  · simp [awake]

end

theorem keeps_of_update (capacity : next.slots.capacity = s.slots.capacity)
    (session : next.session = update s.session t x) (gate : next.Closed → s.Closed ∨ s.AsksExclusive a)
    (own : x.explicitLease = true → (s.session t).explicitLease = true ∨ ¬ next.Closed) : s.Keeps a next := by
  refine ⟨capacity, gate, ?_⟩
  intro u
  rw [session]
  by_cases same : u = t
  · subst same
    rw [update_self]
    exact own
  · rw [update_of_ne same]
    exact .inl

theorem keeps_of_aside (capacity : next.slots.capacity = s.slots.capacity)
    (session : next.session = update s.session t x)
    (exclusive : next.leases.exclusiveLease = s.leases.exclusiveLease)
    (waiting : next.leases.waitingExclusive = s.leases.waitingExclusive)
    (own : x.explicitLease = true → (s.session t).explicitLease = true) : s.Keeps a next := by
  apply keeps_of_update capacity session
  · intro closed
    left
    simpa only [Closed, SchemaLeaseManager.SharedReady, exclusive, waiting] using closed
  · exact fun opened => .inl (own opened)

theorem keeps_sleep : s.Keeps a (s.sleep t) := ⟨rfl, .inl, fun _ => .inl⟩

theorem keeps_move (own : x.explicitLease = true → (s.session t).explicitLease = true) : s.Keeps a (s.move t x) :=
  keeps_of_aside rfl rfl rfl rfl own

theorem keeps_testSlot : s.Keeps a (s.testSlot t request k) := by
  unfold testSlot
  split
  · exact keeps_of_aside rfl rfl rfl rfl id
  · exact keeps_sleep

theorem keeps_acquireSlot : s.Keeps a (s.acquireSlot t request) := by
  unfold acquireSlot testSlot
  split
  · apply keeps_of_aside (t := t) (x := { s.session t with place := .leasing request, workerSlot := 1 })
    · rfl
    · simp [move, notifySlots]
    · rfl
    · rfl
    · exact id
  · exact keeps_of_aside rfl rfl rfl rfl id

theorem keeps_acquireShared : s.Keeps a (s.acquireShared t request) := by
  unfold acquireShared
  split
  · next ready =>
    refine keeps_of_update rfl rfl ?_ ?_
    · exact fun closed => absurd ready closed
    · exact fun _ => .inr fun closed => closed ready
  · exact keeps_of_aside rfl rfl rfl rfl id

theorem keeps_testExclusive (closed : s.Closed) : s.Keeps a (s.testExclusive t request) := by
  unfold testExclusive
  split
  · exact keeps_of_update rfl rfl (fun _ => .inl closed) .inl
  · exact keeps_sleep

theorem keeps_acquireExclusive (asks : s.AsksExclusive a) : s.Keeps a (s.acquireExclusive t request) := by
  unfold acquireExclusive testExclusive
  split
  · apply keeps_of_update (t := t) (x := { s.session t with place := .running request, lease := .exclusive })
    · rfl
    · simp [move]
    · exact fun _ => .inr asks
    · exact .inl
  · exact keeps_of_update rfl rfl (fun _ => .inr asks) .inl

theorem keeps_releaseShared (own : x.explicitLease = true → (s.session t).explicitLease = true) :
    s.Keeps a (s.move t x).releaseShared := by
  apply keeps_of_aside (t := t) (x := x)
  · rw [releaseShared_slots]
    rfl
  · rw [releaseShared_session]
    rfl
  · rw [releaseShared_leases]
    rfl
  · rw [releaseShared_leases]
    rfl
  · exact own

end Posting

variable [Fintype S]

theorem Wf.awake (wf : s.Wf) (ready : s.Ready t) : s.asleep t = false := by
  cases sleeps : s.asleep t with
  | false => rfl
  | true => exact absurd ready (wf.quiet t sleeps)

/-- A step that keeps the books and minds the gate. -/
structure Fair (s : Sessions S) (a : SessionAction S) (next : Sessions S) : Prop where
  wf : next.Wf
  keeps : s.Keeps a next

theorem Wf.closed (wf : s.Wf) (place : (s.session t).place = .excluding request) : s.Closed := by
  have counted : (s.session t).awaits ≤ s.leases.waitingExclusive := entry_le wf.counted.waiting t
  rintro ⟨_, none⟩
  rw [none] at counted
  simp [place] at counted

/-- There is a worker slot for each session, or an exclusive lease is asked for only while no explicit
transaction is open. -/
def Spared (s : Sessions S) (a : SessionAction S) : Prop :=
  Fintype.card S ≤ s.slots.capacity ∨ (s.AsksExclusive a → ∀ u, (s.session u).explicitLease = false)

/-- No transaction is open behind a closed gate. -/
def Apart (s : Sessions S) : Prop :=
  Fintype.card S ≤ s.slots.capacity ∨ (s.Closed → ∀ u, (s.session u).explicitLease = false)

theorem Apart.kept (apart : s.Apart) (spared : s.Spared a) (keeps : s.Keeps a next) : next.Apart := by
  unfold Apart
  rw [keeps.capacity]
  rcases apart with enough | apart
  · exact .inl enough
  · rcases spared with enough | spared
    · exact .inl enough
    · right
      intro closed u
      rw [Bool.eq_false_iff]
      intro opened
      rcases keeps.transactions u opened with before | isOpen
      · have none : (s.session u).explicitLease = false := by
          rcases keeps.gate closed with earlier | asks
          · exact apart earlier u
          · exact spared asks u
        rw [none] at before
        cases before
      · exact isOpen closed

theorem Wf.not_ready (wf : s.Wf) (blocked : s.Blocked t) : ¬ s.Ready t := by
  rcases blocked with sleeps | waits
  · exact wf.quiet t sleeps
  · exact waits

/-- A full queue has a thread at its front. -/
theorem Wf.front (wf : s.Wf) (waits : (s.session t).ticket = some k) :
    ∃ u j, (s.session u).ticket = some j ∧ s.slots.waiters.head? = some j := by
  have member := wf.inLine.present t k waits
  cases waiters : s.slots.waiters with
  | nil =>
    rw [waiters] at member
    cases member
  | cons first rest =>
    have front : first ∈ s.slots.waiters := by simp [waiters]
    obtain ⟨u, has⟩ := wf.inLine.owned first front
    exact ⟨u, first, has, rfl⟩

theorem ticket_place (has : x.ticket = some k) : ∃ request, x.place = .queued request k := by
  unfold Session.ticket at has
  split at has
  · next request ticket place =>
    cases has
    exact ⟨request, place⟩
  · cases has

section
variable (wf : s.Wf)
include wf

section
variable (stuck : s.Stuck)
include stuck

theorem Wf.exhausted (waits : (s.session t).ticket = some k) : s.slots.capacity ≤ s.slots.used := by
  obtain ⟨u, j, has, front⟩ := wf.front waits
  obtain ⟨request, place⟩ := ticket_place has
  have blocked : ¬ s.Ready u := by
    apply wf.not_ready
    apply stuck.2.1
    rw [place]
    exact Place.noConfusion
  by_contra free
  apply blocked
  simp only [Ready, place]
  exact ⟨front, not_le.mp free⟩

theorem Wf.stuck_place (t : S) :
    (s.session t).place = .idle ∨ (∃ request k, (s.session t).place = .queued request k) ∨
      (∃ request, (s.session t).place = .sharing request) ∨ ∃ request, (s.session t).place = .excluding request := by
  have blocked := fun busy => wf.not_ready (stuck.2.1 t busy)
  cases place : (s.session t).place with
  | idle => exact .inl rfl
  | queued request k => exact .inr (.inl ⟨request, k, rfl⟩)
  | sharing request => exact .inr (.inr (.inl ⟨request, rfl⟩))
  | excluding request => exact .inr (.inr (.inr ⟨request, rfl⟩))
  | entering request | leasing request | running request | leaving | freeing =>
    simp [Ready, place] at blocked

/-- A stuck session has no lease of its own, and a worker slot only while it waits for a lease. -/
theorem Wf.stuck_holds (t : S) :
    (s.session t).lease = .none ∧ (s.session t).slots ≤ 1 ∧
      ((s.session t).place.atLeases = false → (s.session t).slots = 0) ∧
      ((s.session t).place.atLeases = true → (s.session t).explicitLease = false) := by
  have held := wf.shaped t
  rcases wf.stuck_place stuck t with place | ⟨request, k, place⟩ | ⟨request, place⟩ | ⟨request, place⟩
  all_goals
    simp only [Session.Shaped, place] at held
    simp [place, Place.atLeases, held]

theorem Wf.stuck_exclusive : s.leases.exclusiveLease = false := by
  have none : ∑ t, (s.session t).excludes = 0 := by
    apply Finset.sum_eq_zero
    intro t _
    simp [(wf.stuck_holds stuck t).1]
  have counted := wf.counted.exclusive
  rw [none] at counted
  cases flag : s.leases.exclusiveLease with
  | false => rfl
  | true => simp [flag] at counted

/-- The transaction an exclusive request waits for. -/
theorem Wf.stuck_transaction (place : (s.session t).place = .excluding request) :
    ∃ u, (s.session u).explicitLease = true ∧ ∃ k, (s.session u).ticket = some k := by
  have blocked : ¬ s.Ready t := wf.not_ready (stuck.2.1 t (by simp [place]))
  simp only [Ready, place] at blocked
  have held : s.leases.sharedLeases ≠ 0 := fun none => blocked ⟨wf.stuck_exclusive stuck, none⟩
  rw [wf.counted.shared] at held
  obtain ⟨u, _, shares⟩ := Finset.exists_ne_zero_of_sum_ne_zero held
  have keeps : (s.session u).explicitLease = true := by
    simpa [(wf.stuck_holds stuck u).1] using shares
  refine ⟨u, keeps, ?_⟩
  have elsewhere := (wf.stuck_holds stuck u).2.2.2
  rcases wf.stuck_place stuck u with idle | ⟨_, k, queued⟩ | ⟨_, waits⟩ | ⟨_, waits⟩
  · rw [stuck.2.2 u idle] at keeps
    cases keeps
  · exact ⟨k, by simp [queued]⟩
  · rw [elsewhere (by simp [waits, Place.atLeases])] at keeps
    cases keeps
  · rw [elsewhere (by simp [waits, Place.atLeases])] at keeps
    cases keeps

/-- While some session holds no slot, fewer slots than sessions are in use. -/
theorem Wf.stuck_used (without : (s.session t).slots = 0) : s.slots.used < Fintype.card S := by
  calc
    s.slots.used = ∑ u, (s.session u).slots := wf.counted.used
    _ < ∑ _u : S, 1 := by
      apply Finset.sum_lt_sum
      · exact fun u _ => (wf.stuck_holds stuck u).2.1
      · exact ⟨t, Finset.mem_univ t, by omega⟩
    _ = Fintype.card S := by simp

end

theorem Wf.not_stuck (apart : s.Apart) : ¬ s.Stuck := by
  intro stuck
  by_cases asked : ∃ t request, (s.session t).place = .excluding request
  · obtain ⟨t, request, place⟩ := asked
    obtain ⟨u, keeps, k, waits⟩ := wf.stuck_transaction stuck place
    rcases apart with enough | apart
    · obtain ⟨_, queued⟩ := ticket_place waits
      have without := (wf.stuck_holds stuck u).2.2.1 (by simp [queued, Place.atLeases])
      have few := wf.stuck_used stuck without
      have full := wf.exhausted stuck waits
      omega
    · rw [apart (wf.closed place) u] at keeps
      cases keeps
  · have none : s.leases.waitingExclusive = 0 := by
      rw [wf.counted.waiting]
      apply Finset.sum_eq_zero
      intro t _
      unfold Session.awaits
      split
      · next request place => exact absurd ⟨t, request, place⟩ asked
      · rfl
    have elsewhere (t : S) : (s.session t).place.atLeases = false := by
      rcases wf.stuck_place stuck t with idle | ⟨_, k, queued⟩ | ⟨_, waits⟩ | ⟨request, waits⟩
      · simp [idle, Place.atLeases]
      · simp [queued, Place.atLeases]
      · have blocked := wf.not_ready (stuck.2.1 t (by simp [waits]))
        simp only [Ready, waits] at blocked
        exact absurd ⟨wf.stuck_exclusive stuck, none⟩ blocked
      · exact absurd ⟨t, request, waits⟩ asked
    have idleSlots : s.slots.used = 0 := by
      rw [wf.counted.used]
      apply Finset.sum_eq_zero
      exact fun t _ => (wf.stuck_holds stuck t).2.2.1 (elsewhere t)
    obtain ⟨t, busy⟩ := stuck.1
    rcases wf.stuck_place stuck t with idle | ⟨_, k, queued⟩ | ⟨_, waits⟩ | ⟨_, waits⟩
    · exact busy idle
    · have full := wf.exhausted stuck (t := t) (k := k) (by simp [queued])
      have capacity := wf.capacity
      omega
    · simpa [waits, Place.atLeases] using elsewhere t
    · simpa [waits, Place.atLeases] using elsewhere t

end

variable [DecidableEq S]

section
variable (wf : s.Wf)
include wf

theorem Wf.moved (awake : s.asleep t = false) (same : x.slots = (s.session t).slots ∧
      x.shares = (s.session t).shares ∧ x.excludes = (s.session t).excludes ∧
      x.awaits = (s.session t).awaits ∧ x.ticket = (s.session t).ticket) (shaped : x.Shaped)
    (own : x.explicitLease = true → (s.session t).explicitLease = true) : s.Fair a (s.move t x) := by
  obtain ⟨slots, shares, excludes, awaits, ticket⟩ := same
  refine ⟨?_, keeps_move own⟩
  constructor
  · exact wf.capacity
  · exact wf.counted.posting (by rw [slots]) (by rw [shares]) (by rw [excludes]) (by rw [awaits])
  · exact wf.inLine.keep rfl rfl ticket
  · exact Shaped.update wf.shaped shaped
  · exact wf.quiet.tightened awake (fun _ _ _ admits => admits) id id

theorem Wf.slept (waits : ¬ s.Ready t) : (s.sleep t).Wf := by
  refine ⟨wf.capacity, ⟨wf.counted.used, wf.counted.shared, wf.counted.exclusive, wf.counted.waiting⟩,
    ⟨wf.inLine.nodup, wf.inLine.issued, wf.inLine.present, wf.inLine.owned, wf.inLine.distinct⟩,
    wf.shaped, ?_⟩
  intro u sleeps
  by_cases same : u = t
  · subst same
    exact waits
  · apply wf.quiet u
    simpa [sleep, update_of_ne same] using sleeps

theorem Wf.testSlot (place : (s.session t).place = .queued request k) : (s.testSlot t request k).Wf := by
  have held := wf.shaped t
  simp only [Session.Shaped, place] at held
  obtain ⟨noSlot, noWorkers, noLease, notCreate⟩ := held
  unfold Sessions.testSlot
  split
  · next admits =>
    have awake : s.asleep t = false := by
      apply wf.awake
      simpa [Ready, place] using admits
    change Wf ⟨s.slots.take, s.leases, update s.session t _, _⟩
    constructor
    · exact wf.capacity
    · apply wf.counted.posting
      · simp [noSlot, noWorkers, WorkerSlotManager.take]
      · rfl
      · rfl
      · simp [place]
    · exact wf.inLine.taken admits.1 (by simp [place]) (by simp)
    · apply Shaped.update wf.shaped
      exact ⟨le_refl 1, noWorkers, noLease, fun same => absurd same notCreate⟩
    · exact wf.quiet.notifiedSlots awake
  · next waits =>
    apply wf.slept
    simpa [Ready, place] using waits

theorem Wf.acquireSlot (place : (s.session t).place = .entering request) : (s.acquireSlot t request).Wf := by
  have held := wf.shaped t
  simp only [Session.Shaped, place] at held
  have awake : s.asleep t = false := wf.awake (by simp [Ready, place])
  apply Wf.testSlot
  · constructor
    · exact wf.capacity
    · apply wf.counted.posting
      · rfl
      · rfl
      · rfl
      · simp [place]
    · exact wf.inLine.enqueued (by simp [place]) (by simp)
    · apply Shaped.update wf.shaped
      exact held
    · apply wf.quiet.tightened awake _ id id
      intro u k waits admits
      refine ⟨?_, admits.2⟩
      have member := wf.inLine.present u k waits
      have front := admits.1
      cases waiters : s.slots.waiters with
      | nil =>
        rw [waiters] at member
        cases member
      | cons first rest => simpa [WorkerSlotManager.enqueue, waiters] using front
  · simp [move]

theorem Wf.freed (awake : s.asleep t = false) {n : Nat} (same : x.slots + n = (s.session t).slots ∧
      x.shares = (s.session t).shares ∧ x.excludes = (s.session t).excludes ∧
      x.awaits = (s.session t).awaits ∧ x.ticket = (s.session t).ticket) (shaped : x.Shaped)
    (own : x.explicitLease = true → (s.session t).explicitLease = true) :
    s.Fair a ((s.move t x).freeSlots n) := by
  obtain ⟨slots, shares, excludes, awaits, ticket⟩ := same
  have enough : (s.session t).slots ≤ s.slots.used := entry_le wf.counted.used t
  refine ⟨?_, keeps_of_aside rfl rfl rfl rfl own⟩
  change Wf ⟨s.slots.release n, s.leases, update s.session t x, _⟩
  constructor
  · exact wf.capacity
  · apply wf.counted.posting
    · simp only [WorkerSlotManager.release]
      omega
    · rw [shares]
    · rw [excludes]
    · rw [awaits]
  · exact wf.inLine.keep rfl rfl ticket
  · exact Shaped.update wf.shaped shaped
  · exact wf.quiet.notifiedSlots awake

theorem Wf.borrow {demand : Nat} (taken : s.borrow t demand = some next) : s.Fair a next := by
  unfold Sessions.borrow at taken
  split at taken
  · next running =>
    cases taken
    have held := wf.shaped t
    simp only [Session.Shaped, running.1] at held
    have awake : s.asleep t = false := wf.awake (by simp [Ready, running.1])
    refine ⟨?_, keeps_of_aside rfl rfl rfl rfl id⟩
    constructor
    · exact wf.capacity
    · apply wf.counted.posting
      · simp only [Session.slots]
        omega
      · rfl
      · rfl
      · rfl
    · exact wf.inLine.keep rfl rfl rfl
    · apply Shaped.update wf.shaped
      simp only [running.1]
      exact ⟨held.1, by simp⟩
    · apply wf.quiet.tightened awake _ id id
      intro u k _ admits
      exact ⟨admits.1, lt_of_le_of_lt (Nat.le_add_right _ _) admits.2⟩
  · cases taken

theorem Wf.acquireShared (noLease : (s.session t).lease = .none)
    (noTransaction : (s.session t).explicitLease = false) (noWorkers : (s.session t).queryWorkers = 0)
    (slots : (s.session t).workerSlot ≤ 1) (ticket : (s.session t).ticket = none)
    (awaits : (s.session t).awaits = 0) (awake : s.asleep t = false) : (s.acquireShared t request).Wf := by
  unfold Sessions.acquireShared
  split
  · next ready =>
    constructor
    · exact wf.capacity
    · apply wf.counted.posting
      · cases request <;> rfl
      · cases request <;> simp [Session.withShared, noLease, noTransaction]
      · cases request <;> simp [Session.withShared, noLease]
      · rw [awaits]
        cases request <;> rfl
    · apply wf.inLine.keep rfl rfl
      rw [ticket]
      cases request <;> rfl
    · apply Shaped.update wf.shaped
      cases request <;> simp [Session.Shaped, Session.withShared, slots, noTransaction, noWorkers]
    · apply wf.quiet.tightened awake
      · exact fun _ _ _ admits => admits
      · exact fun ready => ready
      · rintro ⟨_, none⟩
        cases none
  · next waits =>
    apply Wf.slept
    · exact (wf.moved (a := .advance t) (x := { s.session t with place := .sharing request }) awake
        ⟨rfl, rfl, rfl, awaits.symm, ticket.symm⟩ ⟨slots, noWorkers, noLease, noTransaction⟩ id).wf
    · simpa [Ready, move] using waits

theorem Wf.testExclusive (place : (s.session t).place = .excluding request)
    (awake : s.asleep t = false) : (s.testExclusive t request).Wf := by
  have held := wf.shaped t
  simp only [Session.Shaped, place] at held
  obtain ⟨slots, noWorkers, noLease, noTransaction, notLoad⟩ := held
  have awaits : (s.session t).awaits = 1 := by simp [place]
  have counted : (s.session t).awaits ≤ s.leases.waitingExclusive := entry_le wf.counted.waiting t
  unfold Sessions.testExclusive
  split
  · next ready =>
    constructor
    · exact wf.capacity
    · apply wf.counted.posting
      · rfl
      · simp [noLease]
      · simp [noLease, ready.1]
      · rw [awaits] at counted ⊢
        simp only [Session.awaits]
        omega
    · apply wf.inLine.keep rfl rfl
      simp [place]
    · apply Shaped.update wf.shaped
      exact ⟨slots, fun same => absurd same notLoad⟩
    · apply wf.quiet.tightened awake
      · exact fun _ _ _ admits => admits
      · rintro ⟨taken, _⟩
        cases taken
      · rintro ⟨taken, _⟩
        cases taken
  · next waits =>
    apply wf.slept
    simpa [Ready, place] using waits

theorem Wf.acquireExclusive (place : (s.session t).place = .leasing request)
    (noTransaction : (s.session t).explicitLease = false) (notLoad : request ≠ .load) :
    (s.acquireExclusive t request).Wf := by
  have held := wf.shaped t
  simp only [Session.Shaped, place] at held
  have awake : s.asleep t = false := wf.awake (by simp [Ready, place])
  apply Wf.testExclusive
  · constructor
    · exact wf.capacity
    · apply wf.counted.posting
      · rfl
      · rfl
      · rfl
      · simp [place]
    · apply wf.inLine.keep rfl rfl
      simp [place]
    · apply Shaped.update wf.shaped
      exact ⟨held.1, held.2.1, held.2.2.1, noTransaction, notLoad⟩
    · apply wf.quiet.tightened awake
      · exact fun _ _ _ admits => admits
      · rintro ⟨_, none⟩
        cases none
      · exact fun ready => ready
  · simp [move]
  · exact awake

theorem Wf.sharedReleased (awake : s.asleep t = false) (same : x.slots = (s.session t).slots ∧
      x.shares + 1 = (s.session t).shares ∧ x.excludes = (s.session t).excludes ∧
      x.awaits = (s.session t).awaits ∧ x.ticket = (s.session t).ticket) (shaped : x.Shaped)
    (own : x.explicitLease = true → (s.session t).explicitLease = true) :
    s.Fair a (s.move t x).releaseShared := by
  obtain ⟨slots, shares, excludes, awaits, ticket⟩ := same
  have enough : (s.session t).shares ≤ s.leases.sharedLeases := entry_le wf.counted.shared t
  have counted (asleep : S → Bool) : Counted ⟨s.slots, { s.leases with
      sharedLeases := s.leases.sharedLeases - 1 }, update s.session t x, asleep⟩ := by
    apply wf.counted.posting
    · rw [slots]
    · simp only
      omega
    · rw [excludes]
    · rw [awaits]
  refine ⟨?_, keeps_releaseShared own⟩
  simp only [Sessions.releaseShared]
  split
  · exact ⟨wf.capacity, counted _, wf.inLine.keep rfl rfl ticket, Shaped.update wf.shaped shaped,
      wf.quiet.notifiedLeases awake⟩
  · next remain =>
    refine ⟨wf.capacity, counted _, wf.inLine.keep rfl rfl ticket, Shaped.update wf.shaped shaped, ?_⟩
    apply wf.quiet.tightened awake
    · exact fun _ _ _ admits => admits
    · exact fun ready => ready
    · exact fun ready => absurd ready.2 remain

theorem Wf.exclusiveReleased (awake : s.asleep t = false) (held : (s.session t).excludes = 1)
    (same : x.slots = (s.session t).slots ∧ x.shares = (s.session t).shares ∧ x.excludes = 0 ∧
      x.awaits = (s.session t).awaits ∧ x.ticket = (s.session t).ticket) (shaped : x.Shaped)
    (own : x.explicitLease = true → (s.session t).explicitLease = true) :
    s.Fair a (s.move t x).releaseExclusive := by
  obtain ⟨slots, shares, excludes, awaits, ticket⟩ := same
  have taken : s.leases.exclusiveLease = true := by
    have enough : (s.session t).excludes ≤ s.leases.exclusiveLease.toNat := entry_le wf.counted.exclusive t
    rw [held] at enough
    cases flag : s.leases.exclusiveLease with
    | false => simp [flag] at enough
    | true => rfl
  refine ⟨?_, keeps_of_update rfl rfl (fun closed => .inl fun opened => closed ⟨rfl, opened.2⟩)
    fun opened => .inl (own opened)⟩
  change Wf ⟨s.slots, _, update s.session t x, _⟩
  constructor
  · exact wf.capacity
  · apply wf.counted.posting
    · rw [slots]
    · rw [shares]
      rfl
    · rw [held, excludes, taken]
      rfl
    · rw [awaits]
      rfl
  · exact wf.inLine.keep rfl rfl ticket
  · exact Shaped.update wf.shaped shaped
  · exact wf.quiet.notifiedLeases awake

theorem Wf.issue (taken : s.issue t request = some next) : s.Fair a next := by
  unfold Sessions.issue at taken
  split at taken
  · next idle =>
    cases taken
    obtain ⟨place, notCreate⟩ := idle
    have held := wf.shaped t
    simp only [Session.Shaped, place] at held
    refine wf.moved (wf.awake (by simp [Ready, place])) ?_ ?_ id
    · cases request <;> simp [place, Request.takesSlot]
    · cases request with
      | create => exact absurd rfl notCreate
      | statement | inspect | beginTransaction | endTransaction | ddl | load =>
        simp [Session.Shaped, Request.takesSlot, held]
  · cases taken

theorem Wf.chooseLease (place : (s.session t).place = .leasing request) :
    s.Fair (.advance t) (s.chooseLease t request) := by
  have held := wf.shaped t
  simp only [Session.Shaped, place] at held
  obtain ⟨slots, noWorkers, noLease, created⟩ := held
  have awake : s.asleep t = false := wf.awake (by simp [Ready, place])
  have ticket : (s.session t).ticket = none := by simp [place]
  have awaits : (s.session t).awaits = 0 := by simp [place]
  have goesOn {place : Place} (apart : (∃ r, r ≠ .load ∧ place = .running r) ∨ place = .leaving) :
      s.Fair (.advance t) (s.move t { s.session t with place := place }) := by
    refine wf.moved awake ?_ ?_ id
    · rw [awaits, ticket]
      rcases apart with ⟨r, _, rfl⟩ | rfl <;> simp
    · rcases apart with ⟨r, notLoad, rfl⟩ | rfl
      · exact ⟨slots, fun same => absurd same notLoad⟩
      · exact ⟨slots, noWorkers⟩
  have shares (free : ¬ (s.session t).explicitLease = true) : s.Fair (.advance t) (s.acquireShared t request) :=
    ⟨wf.acquireShared noLease (Bool.eq_false_iff.mpr free) noWorkers slots ticket awaits awake, keeps_acquireShared⟩
  have excludes (asks : request = .ddl ∨ request = .create) (free : (s.session t).explicitLease = false) :
      s.Fair (.advance t) (s.acquireExclusive t request) :=
    ⟨wf.acquireExclusive place free (by rcases asks with rfl | rfl <;> decide),
      keeps_acquireExclusive ⟨t, request, rfl, place, asks, free⟩⟩
  fun_cases Sessions.chooseLease s t request with
  | case1 x opened | case3 x opened | case9 x opened => exact goesOn (.inl ⟨_, by decide, rfl⟩)
  | case5 x opened | case7 x opened | case10 x free | case11 x opened => exact goesOn (.inr rfl)
  | case2 x free | case4 x free | case6 x free | case8 x free => exact shares free
  | case12 x free => exact excludes (.inl rfl) (Bool.eq_false_iff.mpr free)
  | case13 => exact excludes (.inr rfl) (created rfl)

theorem Wf.leave (place : (s.session t).place = .leaving) : s.Fair a (s.leave t) := by
  have held := wf.shaped t
  simp only [Session.Shaped, place] at held
  have awake : s.asleep t = false := wf.awake (by simp [Ready, place])
  unfold Sessions.leave
  cases lease : (s.session t).lease with
  | none =>
    exact wf.moved awake (by simp [lease, place]) ⟨held.1, held.2, rfl⟩ id
  | shared =>
    exact wf.sharedReleased awake (by simp [lease, place, Nat.add_comm]) ⟨held.1, held.2, rfl⟩ id
  | exclusive =>
    exact wf.exclusiveReleased awake (by simp [lease]) (by simp [lease, place]) ⟨held.1, held.2, rfl⟩ id

theorem Wf.free (place : (s.session t).place = .freeing) : s.Fair a (s.free t) := by
  have held := wf.shaped t
  simp only [Session.Shaped, place] at held
  obtain ⟨_, noWorkers, noLease⟩ := held
  have awake : s.asleep t = false := wf.awake (by simp [Ready, place])
  simp only [Sessions.free]
  split
  · next none =>
    exact wf.moved awake (by simp [none, place]) ⟨rfl, noWorkers, noLease⟩ id
  · exact wf.freed awake (by simp [noWorkers, place]) ⟨rfl, noWorkers, noLease⟩ id

theorem Wf.advance (taken : s.advance t = some next) : s.Fair (.advance t) next := by
  have held := wf.shaped t
  revert taken
  fun_cases Sessions.advance s t <;> rintro ⟨⟩
  · next request place => exact ⟨wf.acquireSlot place, keeps_acquireSlot⟩
  · next request k place awake => exact ⟨wf.testSlot place, keeps_testSlot⟩
  · next request place => exact wf.chooseLease place
  · next request place awake =>
    simp only [Session.Shaped, place] at held
    exact ⟨wf.acquireShared held.2.2.1 held.2.2.2 held.2.1 held.1 (by simp [place]) (by simp [place])
      (Bool.eq_false_iff.mpr awake), keeps_acquireShared⟩
  · next request place awake =>
    exact ⟨wf.testExclusive place (Bool.eq_false_iff.mpr awake), keeps_testExclusive (wf.closed place)⟩
  · next place => exact wf.leave place
  · next place => exact wf.free place

theorem Wf.giveBack (taken : s.giveBack t = some next) : s.Fair a next := by
  unfold Sessions.giveBack at taken
  split at taken
  · cases taken
  · cases taken
    have held := wf.shaped t
    have place : ∃ request, (s.session t).place = .running request := by
      cases place : (s.session t).place <;> simp_all [Session.Shaped]
    obtain ⟨request, place⟩ := place
    simp only [Session.Shaped, place] at held
    refine wf.freed (wf.awake (by simp [Ready, place])) (by simp) ?_ id
    simp only [Session.Shaped, place]
    exact ⟨held.1, fun same => ⟨(held.2 same).1, (held.2 same).2.1, trivial⟩⟩

theorem Wf.complete {aborted : Bool} (taken : s.complete t aborted = some next) : s.Fair a next := by
  revert taken
  fun_cases Sessions.complete s t aborted with
  | case1 request place noWorkers ends =>
    rintro ⟨⟩
    have held := wf.shaped t
    simp only [Session.Shaped, place] at held
    have opened := (Bool.and_eq_true_iff.mp ends).2
    exact wf.sharedReleased (wf.awake (by simp [Ready, place])) (by simp [opened, place]) ⟨held.1, noWorkers⟩
      fun kept => absurd kept Bool.false_ne_true
  | case2 request place noWorkers =>
    rintro ⟨⟩
    have held := wf.shaped t
    simp only [Session.Shaped, place] at held
    exact wf.moved (wf.awake (by simp [Ready, place])) (by simp [place]) ⟨held.1, noWorkers⟩ id
  | case3 | case4 => rintro ⟨⟩

theorem Wf.upgrade (taken : s.upgrade t = some next) : s.Fair a next := by
  unfold Sessions.upgrade at taken
  split at taken
  · next place =>
    cases taken
    have held := wf.shaped t
    simp only [Session.Shaped, place] at held
    obtain ⟨slots, loading⟩ := held
    obtain ⟨lease, noTransaction, noWorkers⟩ := loading trivial
    exact wf.sharedReleased (wf.awake (by simp [Ready, place])) (by simp [lease, noTransaction, place])
      ⟨slots, noWorkers, rfl, fun _ => noTransaction⟩ id
  · cases taken

theorem Wf.abandon (taken : s.abandon t = some next) : s.Fair a next := by
  unfold Sessions.abandon at taken
  split at taken
  · next idle =>
    cases taken
    obtain ⟨place, keeps⟩ := idle
    have held := wf.shaped t
    simp only [Session.Shaped, place] at held
    refine wf.sharedReleased (wf.awake (by simp [Ready, place])) (by simp [keeps]) ?_
      fun kept => absurd kept Bool.false_ne_true
    simp only [place]
    exact held
  · cases taken

theorem Wf.step (taken : s.step a = some next) : s.Fair a next := by
  cases a with
  | issue t request => exact wf.issue taken
  | advance t => exact wf.advance taken
  | borrow t demand => exact wf.borrow taken
  | giveBack t => exact wf.giveBack taken
  | complete t aborted => exact wf.complete taken
  | upgrade t => exact wf.upgrade taken
  | abandon t => exact wf.abandon taken

end

end Sessions

open Sessions

/-- No run whose exclusive requests find no explicit transaction open, or whose sessions have a worker
slot each, reaches a state in which every pending statement is blocked. -/
theorem sessions_never_stuck {S : Type} [DecidableEq S] [Fintype S] {log : List Empty} {s : Sessions S}
    (run : Run (sessions S) Spared log s) : ¬ s.Stuck := by
  have invariant : s.Wf ∧ s.Apart := by
    refine Run.invariant (I := fun _ s => s.Wf ∧ s.Apart) ?_ ?_ run
    · intro s initial
      refine ⟨Initial.wf initial, .inr ?_⟩
      intro _ u
      rw [(initial.2.2.2.2 u).1]
    · intro log s next a events _ ⟨wf, apart⟩ spared taken
      obtain ⟨reached, stepped, same⟩ := Option.map_eq_some_iff.mp taken
      cases same
      exact ⟨(wf.step stepped).wf, apart.kept spared (wf.step stepped).keeps⟩
  exact invariant.1.not_stuck invariant.2

/-- Three sessions and one worker slot. -/
def oneSlot : Sessions (Fin 3) :=
  ⟨⟨1, [], 0, 0⟩, ⟨0, 0, false⟩, fun _ => ⟨.idle, 0, 0, .none, false⟩, fun _ => false⟩

theorem oneSlot_initial : oneSlot.Initial :=
  ⟨le_refl 1, rfl, rfl, rfl, fun _ => ⟨rfl, rfl⟩⟩

def sparedTest (s : Sessions (Fin 3)) : SessionAction (Fin 3) → Bool
  | .advance t =>
    match (s.session t).place with
    | .leasing .ddl | .leasing .create => decide (∀ u, (s.session u).explicitLease = false)
    | _ => true
  | _ => true

theorem spared_of_test (s : Sessions (Fin 3)) (a : SessionAction (Fin 3)) (passed : sparedTest s a = true) :
    s.Spared a := by
  right
  rintro ⟨t, request, rfl, place, asks, _⟩
  rcases asks with rfl | rfl
  · simpa [sparedTest, place] using passed
  · simpa [sparedTest, place] using passed

/-- DDL waits for a running statement and a `BEGIN` waits for the DDL. -/
theorem sessions_never_stuck_waiting :
    ∃ log s, Run (sessions (Fin 3)) Spared log s ∧ (s.session 0).place = .sharing .beginTransaction ∧
      (s.session 1).place = .excluding .ddl ∧ ¬ s.Stuck := by
  obtain ⟨s, log, run, shown⟩ := execChecked_shows (M := sessions (Fin 3)) spared_of_test
    [.issue 2 .statement, .advance 2, .advance 2, .issue 1 .ddl, .advance 1, .issue 0 .beginTransaction, .advance 0]
    oneSlot_initial (fun r => ((r.1.session 0).place, (r.1.session 1).place))
    (.sharing .beginTransaction, .excluding .ddl) rfl
  simp only [Prod.mk.injEq] at shown
  exact ⟨log, s, run, shown.1, shown.2, sessions_never_stuck run⟩

/-- A transaction is open, DDL waits for its lease, an autocommit statement takes the only slot and waits
behind the DDL, and the transaction's next statement waits for the slot. -/
theorem sessions_stuck :
    ∃ log s, Run (sessions (Fin 3)) always log s ∧
      (∃ ticket, (s.session 0).place = .queued .statement ticket ∧ (s.session 0).explicitLease = true) ∧
      (s.session 1).place = .excluding .ddl ∧
      ((s.session 2).place = .sharing .statement ∧ (s.session 2).workerSlot = 1) ∧ s.Stuck := by
  obtain ⟨s, log, run, shown⟩ := exec_shows (M := sessions (Fin 3))
    [.issue 0 .beginTransaction, .advance 0, .complete 0 false, .advance 0, .advance 0, .issue 1 .ddl, .advance 1,
      .issue 2 .statement, .advance 2, .advance 2, .issue 0 .statement, .advance 0] oneSlot_initial
    (fun _ _ _ => trivial) (fun r => (r.1.session 0, r.1.session 1, r.1.session 2, decide (∀ t, r.1.asleep t = true)))
    (⟨.queued .statement 1, 0, 0, .none, true⟩, ⟨.excluding .ddl, 0, 0, .none, false⟩,
      ⟨.sharing .statement, 1, 0, .none, false⟩, true) rfl
  simp only [Prod.mk.injEq, decide_eq_true_eq] at shown
  obtain ⟨transaction, ddl, statement, sleeping⟩ := shown
  have busy (t : Fin 3) : (s.session t).place ≠ .idle := by
    match t with
    | 0 => simp [transaction]
    | 1 => simp [ddl]
    | 2 => simp [statement]
  refine ⟨log, s, run, ⟨1, ?_, ?_⟩, ?_, ⟨?_, ?_⟩, ⟨0, busy 0⟩, ?_, ?_⟩
  · rw [transaction]
  · rw [transaction]
  · rw [ddl]
  · rw [statement]
  · rw [statement]
  · exact fun t _ => .inl (sleeping t)
  · exact fun t idle => absurd idle (busy t)

/-- In every run the counters are what the sessions hold, the queue has each waiting thread once, and no wake-up
is lost: a thread that sleeps could not go on. -/
theorem sessions_wellFormed {S : Type} [DecidableEq S] [Fintype S] {meets : Sessions S → SessionAction S → Prop}
    {log : List Empty} {s : Sessions S} (run : Run (sessions S) meets log s) : s.Wf := by
  refine Run.invariant (I := fun _ s => s.Wf) (fun s initial => Initial.wf initial) ?_ run
  intro log s next a events _ wf _ taken
  obtain ⟨reached, stepped, same⟩ := Option.map_eq_some_iff.mp taken
  cases same
  exact (wf.step stepped).wf

theorem sessions_wellFormed_waiting :
    ∃ log s, Run (sessions (Fin 3)) always log s ∧ s.asleep 1 = true ∧ s.Wf := by
  obtain ⟨s, log, run, shown⟩ := exec_shows (M := sessions (Fin 3))
    [.issue 2 .statement, .advance 2, .advance 2, .issue 1 .ddl, .advance 1] oneSlot_initial (fun _ _ _ => trivial)
    (fun r => r.1.asleep 1) true rfl
  exact ⟨log, s, run, shown, sessions_wellFormed run⟩

end BumbleBee.Main
