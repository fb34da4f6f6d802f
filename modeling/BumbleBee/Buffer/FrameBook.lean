import BumbleBee.Library.Ledger
import BumbleBee.Library.Transition

/-!
Who owns a frame. A frame is free, it holds a page the table maps to it, or its page
is being written back; actors pin frames, and a replacer knows which frames are
alive and which of those may be evicted. The moves are all a pool does to these
books. A pin is given back with or without the replacer being told, and a recycled
frame may stay alive.
-/

namespace BumbleBee.Buffer
open Library.Ledger Library.Transition Function

set_option linter.unusedSectionVars false

/-- `victim` is the frame whose write-back an actor waits for, with its page. -/
@[ext]
structure FrameBook (F P T : Type) where
  page : F → Option P
  pinCount : F → Nat
  table : P → Option F
  free : List F
  status : F → Option Bool
  flushing : P → Bool
  pins : T → Option F
  victim : T → Option (F × P)

namespace FrameBook
variable {F P T : Type} [DecidableEq F] [DecidableEq P] [DecidableEq T]

/-- `lax` allows the last pin of a frame to be given back without telling the replacer. -/
inductive Move (lax : Prop) (b : FrameBook F P T) : FrameBook F P T → Prop
  | stay : Move lax b b
  | pin (t : T) (f : F) (page : P) (unpinned : b.pins t = none) (mapped : b.table page = some f) :
      Move lax b { b with
        pinCount := update b.pinCount f (b.pinCount f + 1)
        status := update b.status f (some false)
        pins := update b.pins t (some f) }
  | unpin (t : T) (f : F) (held : b.pins t = some f) :
      Move lax b { b with
        pinCount := update b.pinCount f (b.pinCount f - 1)
        status := if b.pinCount f = 1 then update b.status f (some true) else b.status
        pins := update b.pins t none }
  | release (t : T) (f : F) (held : b.pins t = some f) (shared : b.pinCount f ≠ 1 ∨ lax) :
      Move lax b { b with
        pinCount := update b.pinCount f (b.pinCount f - 1)
        pins := update b.pins t none }
  | settle (f : F) (unpinned : b.pinCount f = 0) (alive : b.status f ≠ none) :
      Move lax b { b with status := update b.status f (some true) }
  | map (t : T) (f : F) (page : P) (rest : List F) (unpinned : b.pins t = none) (first : b.free = f :: rest)
      (unmapped : b.table page = none) (landed : b.flushing page = false) :
      Move lax b { b with
        page := update b.page f (some page)
        pinCount := update b.pinCount f (b.pinCount f + 1)
        table := update b.table page (some f)
        free := rest
        status := update b.status f (some false)
        pins := update b.pins t (some f) }
  | recycle (f : F) (page : P) (status : Option Bool) (mapped : b.table page = some f)
      (unpinned : b.pinCount f = 0) (left : status = none ∨ status = some false ∧ b.status f = some false) :
      Move lax b { b with
        page := update b.page f none
        pinCount := update b.pinCount f 0
        table := update b.table page none
        free := f :: b.free
        status := update b.status f status }
  | detach (t : T) (f : F) (page : P) (mapped : b.table page = some f) (unpinned : b.pinCount f = 0) :
      Move lax b { b with
        table := update b.table page none
        status := update b.status f none
        flushing := update b.flushing page true
        victim := update b.victim t (some (f, page)) }
  | land (t : T) (f : F) (page : P) (victim : b.victim t = some (f, page)) :
      Move lax b { b with
        page := update b.page f none
        pinCount := update b.pinCount f 0
        free := f :: b.free
        flushing := update b.flushing page false
        victim := update b.victim t none }
  | restore (t : T) (f : F) (page : P) (victim : b.victim t = some (f, page)) :
      Move lax b { b with
        table := update b.table page (some f)
        status := update b.status f (some true)
        flushing := update b.flushing page false
        victim := update b.victim t none }
  | abandon (t : T) : Move lax b { b with victim := update b.victim t none }

def Reached (table : P → Option F) (f : F) : Prop := ∃ page, table page = some f

def Mapped (b : FrameBook F P T) (f : F) : Prop := Reached b.table f

def InFlight (b : FrameBook F P T) (f : F) : Prop := ∃ page, b.page f = some page ∧ b.flushing page = true

structure Placed [Fintype T] (b : FrameBook F P T) : Prop where
  nodup : b.free.Nodup
  free : ∀ f, f ∈ b.free ↔ b.page f = none
  mapped : ∀ page f, b.table page = some f → b.page f = some page
  bound : ∀ f page, b.page f = some page →
    b.table page = some f ∧ b.flushing page = false ∨ b.table page = none ∧ b.flushing page = true
  distinct : ∀ f g page, b.page f = some page → b.page g = some page → f = g
  victims : ∀ t f page, b.victim t = some (f, page) → b.page f = some page ∧ b.flushing page = true
  evictors : ∀ t u f page other, b.victim t = some (f, page) → b.victim u = some (f, other) → t = u
  counted : ∀ f, b.pinCount f = ∑ t, if b.pins t = some f then 1 else 0
  pinned : ∀ t f, b.pins t = some f → b.Mapped f
  alive : ∀ page f, b.table page = some f → b.status f ≠ none
  evictable : ∀ f, b.status f = some true → b.pinCount f = 0 ∧ (f ∈ b.free ∨ b.Mapped f)
  gone : ∀ f, b.InFlight f → b.status f = none

theorem Move.mono {lax weaker : Prop} {b next : FrameBook F P T} (relax : lax → weaker) (move : Move lax b next) :
    Move weaker b next := by
  cases move with
  | release t f held shared => exact .release t f held (shared.imp_right relax)
  | settle f unpinned live => exact .settle f unpinned live
  | map t f page rest unpinned first unmapped landed => exact .map t f page rest unpinned first unmapped landed
  | recycle f page status here unpinned left => exact .recycle f page status here unpinned left
  | _ => constructor <;> assumption

section
variable [Fintype T] {lax : Prop} {b next : FrameBook F P T} {f : F}

theorem Placed.unpinned_of_not_mapped (placed : Placed b) (unmapped : ¬ b.Mapped f) : b.pinCount f = 0 := by
  rw [placed.counted]
  apply Finset.sum_eq_zero
  intro t _
  apply if_neg
  intro held
  exact unmapped (placed.pinned t f held)

theorem Placed.no_pin (placed : Placed b) (unpinned : b.pinCount f = 0) (t : T) : b.pins t ≠ some f := by
  intro held
  rw [placed.counted] at unpinned
  have zero := Finset.sum_eq_zero_iff.mp unpinned t (Finset.mem_univ t)
  rw [if_pos held] at zero
  cases zero

variable {t : T}

theorem Placed.pos_of_pin (placed : Placed b) (held : b.pins t = some f) : 0 < b.pinCount f :=
  Nat.pos_of_ne_zero fun zero => placed.no_pin zero t held

variable {page : P}

theorem Placed.victim_absent (placed : Placed b) (victim : b.victim t = some (f, page)) : b.table page = none := by
  obtain ⟨holds, flushing⟩ := placed.victims t f page victim
  rcases placed.bound f page holds with ⟨_, landed⟩ | ⟨absent, _⟩
  · rw [flushing] at landed
    cases landed
  · exact absent

theorem Placed.victim_not_mapped (placed : Placed b) (victim : b.victim t = some (f, page)) : ¬ b.Mapped f := by
  rintro ⟨other, mapped⟩
  have same := placed.mapped other f mapped
  rw [(placed.victims t f page victim).1] at same
  cases same
  rw [placed.victim_absent victim] at mapped
  cases mapped

/-- Every frame is free, mapped or in flight, and only one of these. -/
theorem Placed.trichotomy (placed : Placed b) (f : F) :
    f ∈ b.free ∧ ¬ b.Mapped f ∧ ¬ b.InFlight f ∨ f ∉ b.free ∧ b.Mapped f ∧ ¬ b.InFlight f ∨
      f ∉ b.free ∧ ¬ b.Mapped f ∧ b.InFlight f := by
  have table (other : P) (mapped : b.table other = some f) := placed.mapped other f mapped
  cases held : b.page f with
  | none =>
    left
    refine ⟨(placed.free f).mpr held, ?_, ?_⟩
    · rintro ⟨other, mapped⟩
      rw [table other mapped] at held
      cases held
    · rintro ⟨other, holds, _⟩
      rw [holds] at held
      cases held
  | some page =>
    have taken : f ∉ b.free := by
      rw [placed.free, held]
      exact Option.some_ne_none page
    right
    rcases placed.bound f page held with ⟨mapped, landed⟩ | ⟨unmapped, flushing⟩
    · left
      refine ⟨taken, ⟨page, mapped⟩, ?_⟩
      rintro ⟨other, holds, inFlight⟩
      rw [held] at holds
      cases holds
      rw [landed] at inFlight
      cases inFlight
    · right
      refine ⟨taken, ?_, ⟨page, held, flushing⟩⟩
      rintro ⟨other, mapped⟩
      have same := table other mapped
      rw [held] at same
      cases same
      rw [unmapped] at mapped
      cases mapped

theorem reached_insert {table : P → Option F} (unmapped : table page = none) (g : F) :
    Reached (update table page (some f)) g ↔ g = f ∨ Reached table g := by
  constructor
  · rintro ⟨p, holds⟩
    rcases of_update holds with ⟨-, new⟩ | ⟨-, old⟩
    · exact .inl (Option.some.inj new).symm
    · exact .inr ⟨p, old⟩
  · rintro (rfl | ⟨p, holds⟩)
    · exact ⟨page, update_self ..⟩
    · refine ⟨p, ?_⟩
      rw [update_of_ne]
      · exact holds
      · rintro rfl
        rw [unmapped] at holds
        cases holds

theorem reached_erase {table : P → Option F} {held : F → Option P}
    (mapped : ∀ p g, table p = some g → held g = some p) (here : table page = some f) (g : F) :
    Reached (update table page none) g ↔ g ≠ f ∧ Reached table g := by
  constructor
  · rintro ⟨p, holds⟩
    rcases of_update holds with ⟨-, new⟩ | ⟨apart, old⟩
    · cases new
    · refine ⟨?_, p, old⟩
      rintro rfl
      have first := mapped p g old
      rw [mapped page g here] at first
      exact apart (Option.some.inj first).symm
  · rintro ⟨other, p, holds⟩
    refine ⟨p, ?_⟩
    rw [update_of_ne]
    · exact holds
    · rintro rfl
      rw [here] at holds
      exact other (Option.some.inj holds).symm

section
variable (placed : Placed b)
include placed

theorem Placed.count_update {value : Option F} {count : F → Nat}
    (changed : ∀ f, count f + (if b.pins t = some f then 1 else 0) = b.pinCount f + if value = some f then 1 else 0)
    (f : F) : count f = ∑ u, if update b.pins t value u = some f then 1 else 0 := by
  exact posted (f := fun held => if held = some f then 1 else 0) (placed.counted f) (changed f)

theorem Placed.pin (unpinned : b.pins t = none) (here : b.table page = some f) :
    Placed { b with
      pinCount := update b.pinCount f (b.pinCount f + 1)
      status := update b.status f (some false)
      pins := update b.pins t (some f) } := by
  have is : Reached b.table f := ⟨page, here⟩
  obtain ⟨nodup, free, mapped, bound, distinct, victims, evictors, -, pinned, alive, evictable, gone⟩ := id placed
  refine ⟨nodup, free, mapped, bound, distinct, victims, evictors, ?_, ?_, ?_, ?_, ?_⟩
  · apply placed.count_update
    grind
  · grind [Mapped]
  · grind
  · grind [Mapped]
  · grind [InFlight]

theorem Placed.unpin (held : b.pins t = some f) :
    Placed { b with
      pinCount := update b.pinCount f (b.pinCount f - 1)
      status := if b.pinCount f = 1 then update b.status f (some true) else b.status
      pins := update b.pins t none } := by
  have positive := placed.pos_of_pin held
  have grounded : ¬ b.InFlight f := by
    rcases placed.trichotomy f with ⟨_, _, no⟩ | ⟨_, _, no⟩ | ⟨_, unmapped, _⟩
    · exact no
    · exact no
    · exact absurd (placed.pinned t f held) unmapped
  obtain ⟨nodup, free, mapped, bound, distinct, victims, evictors, -, pinned, alive, evictable, gone⟩ := id placed
  refine ⟨nodup, free, mapped, bound, distinct, victims, evictors, ?_, ?_, ?_, ?_, ?_⟩
  · apply placed.count_update
    grind
  · grind [Mapped]
  · grind
  · grind [Mapped]
  · intro g flying
    have dead := gone g flying
    have other : g ≠ f := by
      rintro rfl
      exact grounded flying
    split
    · simp only [update_of_ne other]
      exact dead
    · exact dead

theorem Placed.release (held : b.pins t = some f) :
    Placed { b with
      pinCount := update b.pinCount f (b.pinCount f - 1)
      pins := update b.pins t none } := by
  have positive := placed.pos_of_pin held
  obtain ⟨nodup, free, mapped, bound, distinct, victims, evictors, -, pinned, alive, evictable, gone⟩ := id placed
  refine ⟨nodup, free, mapped, bound, distinct, victims, evictors, ?_, ?_, alive, ?_, gone⟩
  · apply placed.count_update
    grind
  · grind [Mapped]
  · grind [Mapped]

theorem Placed.settle (unpinned : b.pinCount f = 0) (live : b.status f ≠ none) :
    Placed { b with status := update b.status f (some true) } := by
  have here := placed.trichotomy f
  obtain ⟨nodup, free, mapped, bound, distinct, victims, evictors, counted, pinned, alive, evictable, gone⟩ :=
    id placed
  refine ⟨nodup, free, mapped, bound, distinct, victims, evictors, counted, pinned, ?_, ?_, ?_⟩
  · grind
  · intro g now
    by_cases same : g = f
    · subst same
      refine ⟨unpinned, ?_⟩
      rcases here with ⟨is, _⟩ | ⟨_, is, _⟩ | ⟨_, _, flying⟩
      · exact .inl is
      · exact .inr is
      · exact absurd (gone g flying) live
    · simp only [update_of_ne same] at now
      exact evictable g now
  · intro g flying
    have dead := gone g flying
    have other : g ≠ f := by
      rintro rfl
      exact live dead
    simp only [update_of_ne other]
    exact dead

theorem Placed.map {rest : List F} (unpinned : b.pins t = none) (first : b.free = f :: rest)
    (unmapped : b.table page = none) (landed : b.flushing page = false) :
    Placed { b with
      page := update b.page f (some page)
      pinCount := update b.pinCount f (b.pinCount f + 1)
      table := update b.table page (some f)
      free := rest
      status := update b.status f (some false)
      pins := update b.pins t (some f) } := by
  have now := reached_insert (f := f) unmapped
  have count (g : F) : update b.pinCount f (b.pinCount f + 1) g =
      ∑ u, if update b.pins t (some f) u = some g then 1 else 0 := by
    apply placed.count_update
    grind
  obtain ⟨nodup, free, mapped, bound, distinct, victims, evictors, -, pinned, alive, evictable, gone⟩ := id placed
  refine ⟨?_, ?_, ?_, ?_, ?_, ?_, evictors, count, ?_, ?_, ?_, ?_⟩ <;>
    grind [InFlight, Mapped]

theorem Placed.recycle {status : Option Bool} (here : b.table page = some f)
    (unpinned : b.pinCount f = 0) :
    Placed { b with
      page := update b.page f none
      pinCount := update b.pinCount f 0
      table := update b.table page none
      free := f :: b.free
      status := update b.status f status } := by
  have now := reached_erase placed.mapped here
  have none_pins := placed.no_pin unpinned
  have same : update b.pinCount f 0 = b.pinCount := by
    rw [← unpinned, update_eq_self]
  obtain ⟨nodup, free, mapped, bound, distinct, victims, evictors, counted, pinned, alive, evictable, gone⟩ :=
    id placed
  refine ⟨?_, ?_, ?_, ?_, ?_, ?_, evictors, ?_, ?_, ?_, ?_, ?_⟩
  · grind
  · grind
  · grind
  · grind
  · grind
  · grind
  · rw [same]
    exact counted
  · grind [Mapped]
  · grind
  · grind [Mapped]
  · grind [InFlight]

theorem Placed.detach (here : b.table page = some f) (unpinned : b.pinCount f = 0) :
    Placed { b with
      table := update b.table page none
      status := update b.status f none
      flushing := update b.flushing page true
      victim := update b.victim t (some (f, page)) } := by
  have now := reached_erase placed.mapped here
  have none_pins := placed.no_pin unpinned
  obtain ⟨nodup, free, mapped, bound, distinct, victims, evictors, counted, pinned, alive, evictable, gone⟩ :=
    id placed
  refine ⟨nodup, free, ?_, ?_, distinct, ?_, ?_, counted, ?_, ?_, ?_, ?_⟩ <;>
    grind [InFlight, Mapped]

theorem Placed.land (victim : b.victim t = some (f, page)) :
    Placed { b with
      page := update b.page f none
      pinCount := update b.pinCount f 0
      free := f :: b.free
      flushing := update b.flushing page false
      victim := update b.victim t none } := by
  have unmapped : ¬ b.Mapped f := placed.victim_not_mapped victim
  have same : update b.pinCount f 0 = b.pinCount := by
    rw [← placed.unpinned_of_not_mapped unmapped, update_eq_self]
  obtain ⟨nodup, free, mapped, bound, distinct, victims, evictors, counted, pinned, alive, evictable, gone⟩ :=
    id placed
  refine ⟨?_, ?_, ?_, ?_, ?_, ?_, ?_, ?_, pinned, alive, ?_, ?_⟩
  · grind
  · grind
  · grind
  · grind
  · grind
  · grind
  · grind
  · rw [same]
    exact counted
  · grind [Mapped]
  · grind [InFlight]

theorem Placed.restore (victim : b.victim t = some (f, page)) :
    Placed { b with
      table := update b.table page (some f)
      status := update b.status f (some true)
      flushing := update b.flushing page false
      victim := update b.victim t none } := by
  have unmapped : ¬ b.Mapped f := placed.victim_not_mapped victim
  have unpinned := placed.unpinned_of_not_mapped unmapped
  have now := reached_insert (f := f) (placed.victim_absent victim)
  obtain ⟨nodup, free, mapped, bound, distinct, victims, evictors, counted, pinned, alive, evictable, gone⟩ :=
    id placed
  refine ⟨nodup, free, ?_, ?_, distinct, ?_, ?_, counted, ?_, ?_, ?_, ?_⟩ <;>
    grind [InFlight, Mapped]

theorem Placed.abandon (t : T) : Placed { b with victim := update b.victim t none } := by
  obtain ⟨nodup, free, mapped, bound, distinct, victims, evictors, counted, pinned, alive, evictable, gone⟩ :=
    id placed
  refine ⟨nodup, free, mapped, bound, distinct, ?_, ?_, counted, pinned, alive, evictable, gone⟩ <;>
    grind

end

theorem Move.placed (placed : Placed b) (move : Move lax b next) : Placed next := by
  cases move with
  | stay => exact placed
  | pin t f page unpinned here => exact placed.pin unpinned here
  | unpin t f held => exact placed.unpin held
  | release t f held shared => exact placed.release held
  | settle f unpinned live => exact placed.settle unpinned live
  | map t f page rest unpinned first unmapped landed => exact placed.map unpinned first unmapped landed
  | recycle f page status here unpinned left => exact placed.recycle here unpinned
  | detach t f page here unpinned => exact placed.detach here unpinned
  | land t f page victim => exact placed.land victim
  | restore t f page victim => exact placed.restore victim
  | abandon t => exact placed.abandon t

/-- A frame leaves the page table only while nobody pins it. -/
theorem Move.unpinned_of_leaving (placed : Placed b) (move : Move lax b next) (before : b.Mapped f)
    (after : ¬ next.Mapped f) : b.pinCount f = 0 := by
  have gone {page : P} {g : F} (here : b.table page = some g)
      (left : ¬ Reached (update b.table page none) f) : g = f := by
    obtain ⟨other, mapped⟩ := before
    by_contra apart
    apply left
    refine ⟨other, ?_⟩
    rw [update_of_ne]
    · exact mapped
    · rintro rfl
      rw [here] at mapped
      exact apart (Option.some.inj mapped)
  have grown {page : P} {g : F} (unmapped : b.table page = none)
      (left : ¬ Reached (update b.table page (some g)) f) : False :=
    left ((reached_insert unmapped f).mpr (.inr before))
  cases move with
  | map t g page rest unpinned first unmapped landed => exact (grown unmapped after).elim
  | recycle g page status here unpinned left | detach t g page here unpinned =>
    rw [← gone here after]
    exact unpinned
  | restore t g page victim => exact (grown (placed.victim_absent victim) after).elim
  | _ => exact absurd before after

/-- The replacer is told of every change: a mapped frame is evictable when nobody pins it, and a free frame is
not alive. -/
structure Tight (b : FrameBook F P T) : Prop where
  evictable : ∀ page f, b.table page = some f → (b.status f = some true ↔ b.pinCount f = 0)
  dead : ∀ f ∈ b.free, b.status f = none

theorem Move.tight (placed : Placed b) (tight : Tight b) (move : Move False b next) : Tight next := by
  obtain ⟨nodup, free, mapped, bound, distinct, victims, evictors, -, pinned, alive, -, gone⟩ := id placed
  obtain ⟨evictable, dead⟩ := tight
  cases move with
  | stay | abandon t => exact ⟨evictable, dead⟩
  | unpin t f held =>
    constructor <;> grind [Mapped, Reached]
  | release t f held shared =>
    constructor <;> grind
  | land t f page victim =>
    have flying : b.InFlight f := ⟨page, victims t f page victim⟩
    constructor <;> grind
  | restore t f page victim =>
    have unpinned := placed.unpinned_of_not_mapped (placed.victim_not_mapped victim)
    constructor <;> grind
  | _ => constructor <;> grind

end

end FrameBook

end BumbleBee.Buffer
