import BumbleBee.Buffer.ArcReplacer
import BumbleBee.Library.Transition
import Mathlib.Data.Fintype.Card

/-!
What holds of an `ArcReplacer` after every sequence of calls by a client that binds
each live page to one frame. The two lists of alive frames split the alive map by the
status of its entries, the two ghost lists split the ghost map, and a page is live or
a ghost, never both. The bounds on the lists follow since there are no more alive
frames than frame ids.
-/

namespace BumbleBee.Buffer
open Library.Transition Function

section Lists

variable {A F : Type}

/-- Two lists of the keys of a map, each key once, by the status of its entry. -/
structure Split (left right : List A) (map : A → Option (FrameStatus F)) (l r : ArcStatus) : Prop where
  apart : l ≠ r
  leftOnce : left.Nodup
  rightOnce : right.Nodup
  mem_left : ∀ a, a ∈ left ↔ ∃ entry, map a = some entry ∧ entry.arcStatus = l
  mem_right : ∀ a, a ∈ right ↔ ∃ entry, map a = some entry ∧ entry.arcStatus = r
  kind : ∀ a entry, map a = some entry → entry.arcStatus = l ∨ entry.arcStatus = r

variable {left right : List A} {map : A → Option (FrameStatus F)} {l r : ArcStatus} {a : A} {entry : FrameStatus F}

theorem Split.nil (apart : l ≠ r) : Split ([] : List A) [] (fun _ => (none : Option (FrameStatus F))) l r := by
  have empty (s : ArcStatus) (a : A) :
      a ∈ ([] : List A) ↔ ∃ entry, (none : Option (FrameStatus F)) = some entry ∧ entry.arcStatus = s := by
    simp
  exact ⟨apart, List.nodup_nil, List.nodup_nil, empty l, empty r, fun _ _ found => by cases found⟩

section
variable (split : Split left right map l r)
include split

theorem Split.swap : Split right left map r l :=
  ⟨split.apart.symm, split.rightOnce, split.leftOnce, split.mem_right, split.mem_left,
    fun a entry found => (split.kind a entry found).symm⟩

theorem Split.not_mem (absent : map a = none) : a ∉ left := by
  intro member
  obtain ⟨entry, found, -⟩ := (split.mem_left a).mp member
  rw [absent] at found
  cases found

theorem Split.disjoint (member : a ∈ left) : a ∉ right := by
  intro again
  obtain ⟨entry, found, status⟩ := (split.mem_left a).mp member
  obtain ⟨other, found', status'⟩ := (split.mem_right a).mp again
  rw [found] at found'
  cases found'
  exact split.apart (status.symm.trans status')

theorem Split.perm {left' : List A} (same : left'.Perm left) : Split left' right map l r :=
  { split with
    leftOnce := same.nodup_iff.mpr split.leftOnce
    mem_left := fun a => same.mem_iff.trans (split.mem_left a) }

theorem Split.mem_iff (a : A) : (∃ entry, map a = some entry) ↔ a ∈ left ∨ a ∈ right := by
  rw [split.mem_left, split.mem_right, ← exists_or]
  constructor
  · rintro ⟨entry, found⟩
    exact ⟨entry, (split.kind a entry found).imp (And.intro found) (And.intro found)⟩
  · rintro ⟨entry, kept | kept⟩
    · exact ⟨entry, kept.1⟩
    · exact ⟨entry, kept.1⟩

end

variable [DecidableEq A]

theorem mem_update {s : ArcStatus} {keys : List A} {value : Option (FrameStatus F)}
    (mem : ∀ a, a ∈ keys ↔ ∃ entry, map a = some entry ∧ entry.arcStatus = s) (b : A) :
    (∃ entry, update map a value b = some entry ∧ entry.arcStatus = s) ↔
      (b = a ∧ ∃ entry, value = some entry ∧ entry.arcStatus = s) ∨ (b ≠ a ∧ b ∈ keys) := by
  by_cases same : b = a
  · rw [same]
    simp
  · rw [update_of_ne same, ← mem b]
    simp [same]

section
variable (split : Split left right map l r)
include split

theorem Split.set (a : A) (status : entry.arcStatus = l) :
    Split (a :: left.erase a) (right.erase a) (update map a (some entry)) l r where
  apart := split.apart
  leftOnce := List.nodup_cons.mpr ⟨split.leftOnce.not_mem_erase, split.leftOnce.erase a⟩
  rightOnce := split.rightOnce.erase a
  mem_left b := by
    rw [mem_update split.mem_left, List.mem_cons, split.leftOnce.mem_erase_iff]
    simp [status]
  mem_right b := by
    rw [mem_update split.mem_right, split.rightOnce.mem_erase_iff]
    simp [status, split.apart]
  kind b other found := by
    rcases of_update found with ⟨-, new⟩ | ⟨-, old⟩
    · cases new
      exact .inl status
    · exact split.kind b other old

theorem Split.drop (a : A) :
    Split (left.erase a) (right.erase a) (update map a none) l r where
  apart := split.apart
  leftOnce := split.leftOnce.erase a
  rightOnce := split.rightOnce.erase a
  mem_left b := by
    rw [mem_update split.mem_left, split.leftOnce.mem_erase_iff]
    simp
  mem_right b := by
    rw [mem_update split.mem_right, split.rightOnce.mem_erase_iff]
    simp
  kind b other found := by
    rcases of_update found with ⟨-, new⟩ | ⟨-, old⟩
    · cases new
    · exact split.kind b other old

theorem Split.push (absent : map a = none) (status : entry.arcStatus = l) :
    Split (a :: left) right (update map a (some entry)) l r := by
  have placed := split.set a status
  rwa [List.erase_of_not_mem (split.not_mem absent), List.erase_of_not_mem (split.swap.not_mem absent)] at placed

theorem Split.erase (member : a ∈ left) : Split (left.erase a) right (update map a none) l r := by
  have left := split.drop a
  rwa [List.erase_of_not_mem (split.disjoint member)] at left

theorem Split.promote (member : a ∈ left) (status : entry.arcStatus = r) :
    Split (left.erase a) (a :: right) (update map a (some entry)) l r := by
  have moved := (split.swap.set a status).swap
  rwa [List.erase_of_not_mem (split.disjoint member)] at moved

theorem Split.replace {entry' : FrameStatus F} (found : map a = some entry)
    (status : entry'.arcStatus = entry.arcStatus) : Split left right (update map a (some entry')) l r := by
  have kept (s : ArcStatus) (b : A) : (∃ e, update map a (some entry') b = some e ∧ e.arcStatus = s) ↔
      ∃ e, map b = some e ∧ e.arcStatus = s := by
    by_cases same : b = a
    · rw [same, found]
      simp [status]
    · rw [update_of_ne same]
  refine { split with mem_left := ?_, mem_right := ?_, kind := ?_ }
  · exact fun b => (split.mem_left b).trans (kept l b).symm
  · exact fun b => (split.mem_right b).trans (kept r b).symm
  · intro b other read
    obtain ⟨old, here, same⟩ := (kept other.arcStatus b).mp ⟨other, read, rfl⟩
    rw [← same]
    exact split.kind b old here

end

theorem erase_getLast (distinct : left.Nodup) (last : left.getLast? = some a) : left.erase a = left.dropLast := by
  obtain ⟨front, rfl⟩ := List.getLast?_eq_some_iff.mp last
  have apart := List.nodup_append.mp distinct
  have absent : a ∉ front := fun member => apart.2.2 a member a List.mem_cons_self rfl
  rw [List.dropLast_concat, List.erase_append_right _ absent, List.erase_cons_head, List.append_nil]

theorem reverse_erase_reverse (distinct : left.Nodup) (a : A) : (left.reverse.erase a).reverse = left.erase a := by
  rw [(List.nodup_reverse.mpr distinct).erase_eq_filter, distinct.erase_eq_filter, List.filter_reverse,
    List.reverse_reverse]

end Lists

namespace ArcReplacer

variable {c : Nat} {r next : ArcReplacer (Fin c)} {f : Fin c} {page : Int} {entry : FrameStatus (Fin c)}

/-- The frames that may be evicted. -/
def evictable (r : ArcReplacer (Fin c)) : Finset (Fin c) := Finset.univ.filter fun f => r.status f = some true

/-- The lists of a replacer for `c` frames agree with its maps. -/
structure Book (r : ArcReplacer (Fin c)) : Prop where
  capacity : r.replacerSize = c
  alive : Split r.mru r.mfu r.aliveMap .mru .mfu
  ghosts : Split r.mruGhost r.mfuGhost r.ghostMap .mruGhost .mfuGhost
  apart : ∀ f entry, r.aliveMap f = some entry → r.ghostMap entry.pageId = none
  bound : ∀ f g entry other, r.aliveMap f = some entry → r.aliveMap g = some other →
    entry.pageId = other.pageId → f = g
  target : r.mruTargetSize ≤ c

/-- What holds between the calls. -/
structure Invariant (r : ArcReplacer (Fin c)) : Prop extends Book r where
  size : r.currSize = r.evictable.card
  recent : r.mru.length + r.mruGhost.length ≤ c
  total : r.mru.length + r.mfu.length + r.mruGhost.length + r.mfuGhost.length ≤ 2 * c

section Sizes

theorem mem_evictable : f ∈ r.evictable ↔ r.status f = some true := by
  rw [evictable, Finset.mem_filter, and_iff_right (Finset.mem_univ f)]

theorem status_of_alive (found : r.aliveMap f = some entry) : r.status f = some entry.evictable := by
  rw [status, found, Option.map_some]

theorem evictable_added (updated : next.status = update r.status f (some true)) :
    next.evictable = insert f r.evictable := by
  ext g
  rw [mem_evictable, Finset.mem_insert, mem_evictable, updated]
  by_cases same : g = f
  · simp [same]
  · simp [same]

theorem evictable_taken {value : Option Bool} (updated : next.status = update r.status f value)
    (after : value ≠ some true) : next.evictable = r.evictable.erase f := by
  ext g
  rw [mem_evictable, Finset.mem_erase, mem_evictable, updated]
  by_cases same : g = f
  · simp [same, after]
  · simp [same]

theorem size_taken {value : Option Bool} (size : r.currSize = r.evictable.card) (free : r.status f = some true)
    (updated : next.status = update r.status f value) (after : value ≠ some true) :
    r.currSize - 1 = next.evictable.card := by
  rw [evictable_taken updated after, Finset.card_erase_of_mem (mem_evictable.mpr free), size]

theorem Book.frames (book : r.Book) : r.mru.length + r.mfu.length ≤ c := by
  have distinct : (r.mru ++ r.mfu).Nodup := by
    refine List.nodup_append.mpr ⟨book.alive.leftOnce, book.alive.rightOnce, ?_⟩
    intro f first g second same
    exact book.alive.disjoint first (same ▸ second)
  have count := distinct.length_le_card
  rwa [List.length_append, Fintype.card_fin] at count

end Sizes

section Trim

theorem update_none {other : Int} {map : Int → Option (FrameStatus (Fin c))} (absent : map other = none) :
    update map page none other = none := by
  by_cases same : other = page
  · rw [same, update_self]
  · rw [update_of_ne same, absent]

theorem Book.trim (book : r.Book) : r.trim.Book := by
  rw [ArcReplacer.trim]
  split_ifs with recent total
  · obtain ⟨page, last⟩ := Option.ne_none_iff_exists'.mp (mt List.getLast?_eq_none_iff.mp recent.2)
    have trimmed := book.ghosts.erase (List.mem_of_getLast? last)
    rw [erase_getLast book.ghosts.leftOnce last] at trimmed
    rw [last]
    exact { book with ghosts := trimmed, apart := fun f entry found => update_none (book.apart f entry found) }
  · obtain ⟨page, last⟩ := Option.ne_none_iff_exists'.mp (mt List.getLast?_eq_none_iff.mp total.2)
    have trimmed := book.ghosts.swap.erase (List.mem_of_getLast? last)
    rw [erase_getLast book.ghosts.rightOnce last] at trimmed
    rw [last]
    exact { book with ghosts := trimmed.swap, apart := fun f entry found => update_none (book.apart f entry found) }
  · exact book

theorem trim_alive (r : ArcReplacer (Fin c)) :
    r.trim.mru = r.mru ∧ r.trim.mfu = r.mfu ∧ r.trim.currSize = r.currSize := by
  rw [ArcReplacer.trim]
  split_ifs
  · exact ⟨rfl, rfl, rfl⟩
  · exact ⟨rfl, rfl, rfl⟩
  · exact ⟨rfl, rfl, rfl⟩

/-- One ghost goes where a bound is exceeded and there is one. -/
theorem trim_ghosts (r : ArcReplacer (Fin c)) :
    (r.trim.mruGhost.length + 1 = r.mruGhost.length ∧ r.trim.mfuGhost.length = r.mfuGhost.length) ∨
      ((r.mru.length + r.mruGhost.length ≤ r.replacerSize ∨ r.mruGhost.length = 0) ∧
        r.trim.mruGhost.length = r.mruGhost.length ∧
        (r.trim.mfuGhost.length + 1 = r.mfuGhost.length ∨
          r.trim.mfuGhost.length = r.mfuGhost.length ∧
            (r.mru.length + r.mruGhost.length + r.mfuGhost.length + r.mfu.length ≤ 2 * r.replacerSize ∨
              r.mfuGhost.length = 0))) := by
  rw [ArcReplacer.trim]
  split_ifs with recent total
  · have positive := List.length_pos_iff.mpr recent.2
    refine .inl ⟨?_, rfl⟩
    rw [List.length_dropLast, Nat.sub_add_cancel positive]
  · have positive := List.length_pos_iff.mpr total.2
    rw [not_and_or, Nat.not_lt, not_not] at recent
    refine .inr ⟨recent.imp_right List.length_eq_zero_iff.mpr, rfl, .inl ?_⟩
    rw [List.length_dropLast, Nat.sub_add_cancel positive]
  · rw [not_and_or, Nat.not_lt, not_not] at recent total
    exact .inr ⟨recent.imp_right List.length_eq_zero_iff.mpr, rfl,
      .inr ⟨rfl, total.imp_right List.length_eq_zero_iff.mpr⟩⟩

/-- What an access may add to the lists before they are trimmed. -/
structure Grows (r next : ArcReplacer (Fin c)) : Prop where
  recent : next.mru.length + next.mruGhost.length ≤ r.mru.length + r.mruGhost.length + 1
  total : next.mru.length + next.mfu.length + next.mruGhost.length + next.mfuGhost.length ≤
    r.mru.length + r.mfu.length + r.mruGhost.length + r.mfuGhost.length + 1

/-- An access adds one entry at most, and trimming takes one away where it is needed. -/
theorem Invariant.trimmed (invariant : r.Invariant) (book : next.Book) (grows : r.Grows next)
    (size : next.trim.currSize = next.trim.evictable.card) : next.trim.Invariant := by
  have frames := book.frames
  have capacity := book.capacity
  have recent := grows.recent.trans (Nat.add_le_add_right invariant.recent 1)
  have total := grows.total.trans (Nat.add_le_add_right invariant.total 1)
  obtain ⟨mru, mfu, -⟩ := trim_alive next
  have ghosts := trim_ghosts next
  refine ⟨book.trim, size, ?_, ?_⟩
  · rw [mru]
    omega
  · rw [mru, mfu]
    omega

end Trim

section Access

/-- A page that is live is live in the frame `f`. -/
def Binds (r : ArcReplacer (Fin c)) (f : Fin c) (page : Int) : Prop :=
  ∀ g entry, r.aliveMap g = some entry → entry.pageId = page → g = f

variable {value : Option (FrameStatus (Fin c))}

section
variable (book : r.Book)
include book

/-- The entry of one frame is written or taken away. -/
theorem Book.updated (maps : next.aliveMap = update r.aliveMap f value) (capacity : next.replacerSize = r.replacerSize)
    (target : next.mruTargetSize ≤ c) (alive : Split next.mru next.mfu next.aliveMap .mru .mfu)
    (ghosts : Split next.mruGhost next.mfuGhost next.ghostMap .mruGhost .mfuGhost)
    (new : ∀ entry, value = some entry → r.Binds f entry.pageId ∧ next.ghostMap entry.pageId = none)
    (old : ∀ g entry, g ≠ f → r.aliveMap g = some entry → next.ghostMap entry.pageId = none) : next.Book := by
  refine ⟨capacity.trans book.capacity, alive, ghosts, ?_, ?_, target⟩
  · intro g entry read
    rw [maps] at read
    rcases of_update read with ⟨-, here⟩ | ⟨apart, before⟩
    · exact (new entry here).2
    · exact old g entry apart before
  · intro g h one other left right pages
    rw [maps] at left right
    rcases of_update left with ⟨rfl, here⟩ | ⟨-, before⟩
    · rcases of_update right with ⟨rfl, -⟩ | ⟨-, before⟩
      · rfl
      · exact ((new one here).1 h other before pages.symm).symm
    · rcases of_update right with ⟨rfl, here⟩ | ⟨-, before'⟩
      · exact (new other here).1 g one before pages
      · exact book.bound g h one other before before' pages

section
variable (found : r.aliveMap f = some entry)
include found

theorem Book.binds : r.Binds f entry.pageId := by
  intro g other alive pages
  exact book.bound g f other entry alive found pages

theorem Book.rewrite {entry' : FrameStatus (Fin c)} {mru mfu : List (Fin c)} (currSize : Nat)
    (alive : Split mru mfu (update r.aliveMap f (some entry')) .mru .mfu) (same : entry'.pageId = entry.pageId) :
    Book { r with
      mru := mru
      mfu := mfu
      aliveMap := update r.aliveMap f (some entry')
      currSize := currSize } := by
  refine book.updated rfl rfl book.target alive book.ghosts ?_ fun g other _ => book.apart g other
  intro new here
  cases here
  rw [same]
  exact ⟨book.binds found, book.apart f entry found⟩

theorem Book.accessHits : (r.accessHits f entry).Book ∧ r.Grows (r.accessHits f entry) := by
  rw [ArcReplacer.accessHits]
  split_ifs with first
  · have inMru : f ∈ r.mru := (book.alive.mem_left f).mpr ⟨entry, found, first⟩
    have shorter := List.length_erase_add_one inMru
    have moved : Split (r.mru.erase f) (f :: r.mfu) (update r.aliveMap f (some { entry with arcStatus := .mfu }))
        .mru .mfu := book.alive.promote inMru rfl
    refine ⟨book.rewrite found _ moved rfl, ?_, ?_⟩
    · dsimp only
      omega
    · dsimp only
      rw [List.length_cons]
      omega
  · have second := (book.alive.kind f entry found).resolve_left first
    have inMfu : f ∈ r.mfu := (book.alive.mem_right f).mpr ⟨entry, found, second⟩
    have shorter := List.length_erase_add_one inMfu
    refine ⟨{ book with alive := ?_ }, ?_, ?_⟩
    · exact (book.alive.swap.perm (List.perm_cons_erase inMfu).symm).swap
    · dsimp only
      omega
    · dsimp only
      rw [List.length_cons]
      omega

end

theorem Book.accessNew (dead : r.aliveMap f = none) (unknown : r.ghostMap page = none)
    (binds : r.Binds f page) : (r.accessNew f page).Book ∧ r.Grows (r.accessNew f page) := by
  refine ⟨book.updated rfl rfl book.target (book.alive.push dead rfl) book.ghosts ?_
    fun g other _ => book.apart g other, ?_, ?_⟩
  · intro new here
    cases here
    exact ⟨binds, unknown⟩
  · dsimp only [ArcReplacer.accessNew]
    rw [List.length_cons]
    omega
  · dsimp only [ArcReplacer.accessNew]
    rw [List.length_cons]
    omega

theorem Book.accessGhostHits (dead : r.aliveMap f = none) (found : r.ghostMap page = some entry)
    (binds : r.Binds f page) :
    (r.accessGhostHits f page entry).Book ∧ r.Grows (r.accessGhostHits f page entry) := by
  have first := List.length_erase_le (a := page) (l := r.mruGhost)
  have second := List.length_erase_le (a := page) (l := r.mfuGhost)
  refine ⟨book.updated rfl rfl ((Nat.min_le_right _ _).trans (Nat.le_of_eq book.capacity))
    (book.alive.swap.push dead rfl).swap ?_ ?_ fun g other _ old => update_none (book.apart g other old), ?_, ?_⟩
  · rw [ArcReplacer.accessGhostHits]
    split_ifs with recent
    · exact book.ghosts.erase ((book.ghosts.mem_left page).mpr ⟨entry, found, recent⟩)
    · have other := (book.ghosts.kind page entry found).resolve_left recent
      exact (book.ghosts.swap.erase ((book.ghosts.mem_right page).mpr ⟨entry, found, other⟩)).swap
  · intro new here
    cases here
    exact ⟨binds, update_self _ _ _⟩
  · rw [ArcReplacer.accessGhostHits]
    dsimp only
    split_ifs <;> omega
  · rw [ArcReplacer.accessGhostHits]
    dsimp only
    rw [List.length_cons]
    split_ifs <;> omega

end

theorem recordAccess_currSize (r : ArcReplacer (Fin c)) (f : Fin c) (page : Int) :
    (r.recordAccess f page).currSize = r.currSize := by
  rw [recordAccess, (trim_alive _).2.2]
  cases r.aliveMap f with
  | some entry =>
    dsimp only
    rw [ArcReplacer.accessHits]
    split_ifs <;> rfl
  | none => cases r.ghostMap page <;> rfl

theorem recordAccess_evictable (r : ArcReplacer (Fin c)) (f : Fin c) (page : Int) :
    (r.recordAccess f page).evictable = r.evictable := by
  have updated := recordAccess_status r f page
  cases before : r.status f with
  | none =>
    rw [before] at updated
    rw [evictable_taken updated (by decide), Finset.erase_eq_of_notMem]
    rw [mem_evictable, before]
    decide
  | some flag =>
    rw [before, Option.getD_some, ← before, update_eq_self] at updated
    rw [evictable, evictable, updated]

theorem Invariant.recordAccess (invariant : r.Invariant) (binds : r.Binds f page) :
    (r.recordAccess f page).Invariant := by
  have size : (r.recordAccess f page).currSize = (r.recordAccess f page).evictable.card := by
    rw [recordAccess_currSize, recordAccess_evictable, invariant.size]
  have trimmed (next : ArcReplacer (Fin c)) (result : r.recordAccess f page = next.trim)
      (accessed : next.Book ∧ r.Grows next) : (r.recordAccess f page).Invariant := by
    rw [result] at size ⊢
    exact invariant.trimmed accessed.1 accessed.2 size
  cases alive : r.aliveMap f with
  | some entry =>
    refine trimmed _ ?_ (invariant.accessHits alive)
    rw [ArcReplacer.recordAccess, alive]
  | none =>
    cases known : r.ghostMap page with
    | some entry =>
      refine trimmed _ ?_ (invariant.accessGhostHits alive known binds)
      rw [ArcReplacer.recordAccess, alive, known]
    | none =>
      refine trimmed _ ?_ (invariant.accessNew alive known binds)
      rw [ArcReplacer.recordAccess, alive, known]

theorem Invariant.setEvictable (invariant : r.Invariant) {flag : Bool} (done : r.setEvictable f flag = some next) :
    next.Invariant := by
  have updated := (setEvictable_eq_some done).2
  rw [ArcReplacer.setEvictable] at done
  cases found : r.aliveMap f with
  | none =>
    rw [found] at done
    cases done
  | some entry =>
    rw [found] at done
    dsimp only at done
    have before := status_of_alive found
    have kept : Split r.mru r.mfu (update r.aliveMap f (some { entry with evictable := flag })) .mru .mfu :=
      invariant.alive.replace found rfl
    have book (currSize : Nat) := invariant.rewrite found currSize kept rfl
    split_ifs at done with same set
    · cases done
      exact invariant
    · cases done
      refine ⟨book _, ?_, invariant.recent, invariant.total⟩
      have absent : f ∉ r.evictable := by
        rw [mem_evictable, before]
        exact fun wrong => same (set.trans (Option.some.inj wrong).symm)
      subst set
      rw [evictable_added updated, Finset.card_insert_of_notMem absent, ← invariant.size]
    · cases done
      have unset : flag = false := Bool.eq_false_of_not_eq_true set
      rw [unset, eq_comm, Bool.not_eq_false] at same
      refine ⟨book _, size_taken invariant.size (same ▸ before) updated ?_, invariant.recent, invariant.total⟩
      rw [unset]
      decide

end Access

section Evict

theorem Book.retire (book : r.Book) (found : r.aliveMap f = some entry) {mru mfu : List (Fin c)}
    {mruGhost mfuGhost : List Int} (alive : Split mru mfu (r.retire f entry).aliveMap .mru .mfu)
    (ghosts : Split mruGhost mfuGhost (r.retire f entry).ghostMap .mruGhost .mfuGhost) :
    Book { r.retire f entry with mru := mru, mfu := mfu, mruGhost := mruGhost, mfuGhost := mfuGhost } := by
  refine book.updated rfl rfl book.target alive ghosts (fun new here => by cases here) ?_
  intro g other apart old
  have pages : other.pageId ≠ entry.pageId := fun same => apart (book.bound g f other entry old found same)
  exact (update_of_ne pages _ _).trans (book.apart g other old)

section
variable (invariant : r.Invariant)
include invariant

theorem Invariant.evictFromMru (size : r.currSize - 1 = next.evictable.card)
    (evicted : r.evictFromMru = some (f, next)) : next.Invariant := by
  obtain ⟨⟨g, rest, ghosts, left⟩, found, same⟩ := Option.map_eq_some_iff.mp evicted
  cases same
  obtain ⟨-, entry, alive, member, rfl, rfl, rfl⟩ := evictFromList_inv found
  obtain ⟨_, alive', kind⟩ := (invariant.alive.mem_left f).mp member
  cases alive.symm.trans alive'
  have shorter := List.length_erase_add_one member
  have recent := invariant.recent
  have total := invariant.total
  have first : entry.arcStatus ≠ .mfu := by
    rw [kind]
    decide
  rw [reverse_erase_reverse invariant.alive.leftOnce] at size ⊢
  refine ⟨invariant.retire alive (invariant.alive.erase member) ?_, size, ?_, ?_⟩
  · exact invariant.ghosts.push (invariant.apart f entry alive) (if_neg first)
  · dsimp only
    rw [List.length_cons]
    omega
  · dsimp only [ArcReplacer.retire]
    rw [List.length_cons]
    omega

theorem Invariant.evictFromMfu (size : r.currSize - 1 = next.evictable.card)
    (evicted : r.evictFromMfu = some (f, next)) : next.Invariant := by
  obtain ⟨⟨g, rest, ghosts, left⟩, found, same⟩ := Option.map_eq_some_iff.mp evicted
  cases same
  obtain ⟨-, entry, alive, member, rfl, rfl, rfl⟩ := evictFromList_inv found
  obtain ⟨_, alive', kind⟩ := (invariant.alive.mem_right f).mp member
  cases alive.symm.trans alive'
  have shorter := List.length_erase_add_one member
  have total := invariant.total
  rw [reverse_erase_reverse invariant.alive.rightOnce] at size ⊢
  refine ⟨invariant.retire alive (invariant.alive.swap.erase member).swap ?_, size, invariant.recent, ?_⟩
  · exact (invariant.ghosts.swap.push (invariant.apart f entry alive) (if_pos kind)).swap
  · dsimp only [ArcReplacer.retire]
    rw [List.length_cons]
    omega

theorem Invariant.evict (evicted : r.evict = some (f, next)) : next.Invariant := by
  obtain ⟨free, updated⟩ := evict_eq_some evicted
  have size := size_taken invariant.size free updated (by decide)
  rcases evict_inv evicted with first | second
  · exact invariant.evictFromMru size first
  · exact invariant.evictFromMfu size second

end

theorem evictFromList_ne_none {q : List (Fin c)} {ghost : List Int} (member : f ∈ q)
    (free : r.status f = some true) : r.evictFromList q ghost ≠ none := by
  rw [evictFromList]
  cases chosen : r.candidate q with
  | none =>
    have passed := List.find?_eq_none.mp chosen f (List.mem_reverse.mpr member)
    rw [free] at passed
    exact absurd rfl passed
  | some g =>
    intro nothing
    have dead : r.aliveMap g = none := Option.map_eq_none_iff.mp nothing
    have alive := candidate_evictable chosen
    rw [aliveMap_eq_none.mp dead] at alive
    cases alive

/-- `Evict` succeeds where some frame may be evicted. -/
theorem Invariant.evict_ne_none (invariant : r.Invariant) (free : r.status f = some true) : r.evict ≠ none := by
  have some_free : r.currSize ≠ 0 := by
    rw [invariant.size]
    exact Finset.card_ne_zero_of_mem (mem_evictable.mpr free)
  obtain ⟨entry, found, -⟩ := Option.map_eq_some_iff.mp free
  have either : r.evictFromMru ≠ none ∨ r.evictFromMfu ≠ none := by
    refine ((invariant.alive.mem_iff f).mp ⟨entry, found⟩).imp ?_ ?_ <;>
      exact fun member => mt Option.map_eq_none_iff.mp (evictFromList_ne_none member free)
  rw [ArcReplacer.evict, if_neg some_free]
  split_ifs
  · rw [Ne, Option.or_eq_none_iff]
    exact fun both => either.elim (absurd both.2) (absurd both.1)
  · rw [Ne, Option.or_eq_none_iff]
    exact fun both => either.elim (absurd both.1) (absurd both.2)

theorem Invariant.evict_isSome_iff (invariant : r.Invariant) : r.evict.isSome ↔ ∃ f, r.status f = some true := by
  rw [Option.isSome_iff_exists]
  constructor
  · rintro ⟨⟨f, next⟩, evicted⟩
    exact ⟨f, (evict_eq_some evicted).1⟩
  · rintro ⟨f, free⟩
    exact Option.ne_none_iff_exists'.mp (invariant.evict_ne_none free)

theorem Book.drop (book : r.Book) (f : Fin c) {mru mfu : List (Fin c)} (currSize : Nat)
    (alive : Split mru mfu (update r.aliveMap f none) .mru .mfu) :
    Book { r with mfu := mfu, mru := mru, aliveMap := update r.aliveMap f none, currSize := currSize } := by
  exact book.updated rfl rfl book.target alive book.ghosts (fun new here => by cases here)
    fun g entry _ => book.apart g entry

theorem Invariant.remove (invariant : r.Invariant) (done : r.remove f = some next) : next.Invariant := by
  have updated := (remove_eq_some done).2
  rw [ArcReplacer.remove] at done
  cases found : r.aliveMap f with
  | none =>
    rw [found] at done
    cases done
    exact invariant
  | some entry =>
    rw [found] at done
    dsimp only at done
    have recent := invariant.recent
    have total := invariant.total
    have free (pinned : ¬ entry.evictable = false) : r.status f = some true := by
      rw [status_of_alive found, Bool.eq_true_of_not_eq_false pinned]
    split_ifs at done with pinned kind
    · cases done
      have member : f ∈ r.mfu := (invariant.alive.mem_right f).mpr ⟨entry, found, kind⟩
      have shorter := List.length_erase_add_one member
      refine ⟨invariant.drop f _ (invariant.alive.swap.erase member).swap,
        size_taken invariant.size (free pinned) updated (by decide), recent, ?_⟩
      dsimp only
      omega
    · cases done
      have first := (invariant.alive.kind f entry found).resolve_right kind
      have member : f ∈ r.mru := (invariant.alive.mem_left f).mpr ⟨entry, found, first⟩
      have shorter := List.length_erase_add_one member
      refine ⟨invariant.drop f _ (invariant.alive.erase member),
        size_taken invariant.size (free pinned) updated (by decide), ?_, ?_⟩
      · dsimp only
        omega
      · dsimp only
        omega

end Evict

section Calls

/-- A call by the buffer pool, with a frame id below the capacity. -/
inductive Call (c : Nat) where
  | recordAccess (f : Fin c) (page : Int)
  | setEvictable (f : Fin c) (flag : Bool)
  | evict
  | remove (f : Fin c)

/-- The replacer after a call; one that throws changes nothing. -/
def call (r : ArcReplacer (Fin c)) : Call c → ArcReplacer (Fin c)
  | .recordAccess f page => r.recordAccess f page
  | .setEvictable f flag => (r.setEvictable f flag).getD r
  | .evict => (r.evict.map Prod.snd).getD r
  | .remove f => (r.remove f).getD r

/-- Each live page is bound to one frame: an access to it names that frame. -/
def Respects (r : ArcReplacer (Fin c)) : Call c → Prop
  | .recordAccess f page => r.Binds f page
  | _ => True

inductive Reached (c : Nat) : ArcReplacer (Fin c) → Prop
  | init : Reached c (init c)
  | call {r : ArcReplacer (Fin c)} {a : Call c} : Reached c r → r.Respects a → Reached c (r.call a)

theorem Invariant.init (c : Nat) : (init c : ArcReplacer (Fin c)).Invariant := by
  refine ⟨⟨rfl, Split.nil (by decide), Split.nil (by decide), ?_, ?_, Nat.zero_le c⟩, ?_, Nat.zero_le c,
    Nat.zero_le (2 * c)⟩
  · intro f entry found
    cases found
  · intro f g entry other found
    cases found
  · refine (Finset.card_eq_zero.mpr (Finset.filter_eq_empty_iff.mpr ?_)).symm
    intro f _ found
    cases found

theorem Invariant.call (invariant : r.Invariant) {a : Call c} (respects : r.Respects a) : (r.call a).Invariant := by
  cases a with
  | recordAccess f page => exact invariant.recordAccess respects
  | setEvictable f flag =>
    rw [ArcReplacer.call]
    cases done : r.setEvictable f flag with
    | none => exact invariant
    | some next => exact invariant.setEvictable done
  | evict =>
    rw [ArcReplacer.call]
    cases done : r.evict with
    | none => exact invariant
    | some taken => exact invariant.evict (f := taken.1) done
  | remove f =>
    rw [ArcReplacer.call]
    cases done : r.remove f with
    | none => exact invariant
    | some next => exact invariant.remove done

theorem Reached.invariant (reached : Reached c r) : r.Invariant := by
  induction reached with
  | init => exact Invariant.init c
  | call _ respects invariant => exact invariant.call respects

/-- No frame or page is in two of the lists. -/
structure Disjoint (r : ArcReplacer (Fin c)) : Prop where
  alive : ∀ f ∈ r.mru, f ∉ r.mfu
  ghosts : ∀ page ∈ r.mruGhost, page ∉ r.mfuGhost
  pages : ∀ f entry, r.aliveMap f = some entry → entry.pageId ∉ r.mruGhost ∧ entry.pageId ∉ r.mfuGhost

theorem Book.disjoint (book : r.Book) : r.Disjoint where
  alive _ member := book.alive.disjoint member
  ghosts _ member := book.ghosts.disjoint member
  pages f entry found := by
    have unknown := book.apart f entry found
    exact ⟨book.ghosts.not_mem unknown, book.ghosts.swap.not_mem unknown⟩

/-- After every sequence of calls the replacer keeps its books, and `Evict` finds an
evictable frame whenever there is one. -/
theorem reached_invariants (reached : Reached c r) :
    r.Disjoint ∧ Split r.mru r.mfu r.aliveMap .mru .mfu ∧
      Split r.mruGhost r.mfuGhost r.ghostMap .mruGhost .mfuGhost ∧
      r.mru.length + r.mruGhost.length ≤ c ∧
      r.mru.length + r.mfu.length + r.mruGhost.length + r.mfuGhost.length ≤ 2 * c ∧
      r.mruTargetSize ≤ c ∧ r.currSize = r.evictable.card ∧
      (r.evict.isSome ↔ ∃ f, r.status f = some true) ∧
      ∀ f next, r.evict = some (f, next) → r.status f = some true := by
  have invariant := reached.invariant
  refine ⟨invariant.disjoint, invariant.alive, invariant.ghosts, invariant.recent, invariant.total,
    invariant.target, invariant.size, invariant.evict_isSome_iff, ?_⟩
  intro f next evicted
  exact (evict_eq_some evicted).1

/-- One frame: a page is loaded, unpinned, evicted, and loaded again as a ghost hit. -/
theorem reached_invariants_ghost_hit :
    ∃ r : ArcReplacer (Fin 1), Reached 1 r ∧ r.mfu = [0] ∧ r.mruTargetSize = 1 ∧ r.Disjoint := by
  have loaded := Reached.init.call (c := 1) (a := .recordAccess 0 7) fun g entry found _ => by cases found
  have unpinned := loaded.call (a := .setEvictable 0 true) trivial
  have evicted := unpinned.call (a := .evict) trivial
  have again := evicted.call (a := .recordAccess 0 7) fun g _ _ _ => Subsingleton.elim g 0
  exact ⟨_, again, rfl, rfl, (reached_invariants again).1⟩

end Calls

end ArcReplacer

end BumbleBee.Buffer
