import Mathlib.Data.List.Basic

/-!
The arena of `string_heap.cpp`: strings are cut from chunks of a fixed size, each
with a trailing NUL. A short string keeps its bytes in the string object itself.
-/

namespace BumbleBee.Types

def minimumHeapSize : Nat := 8192

structure StringChunk where
  currentPosition : Nat
  maximumSize : Nat

/-- The chunk in use and those behind it. -/
structure StringHeap where
  chunk : Option StringChunk
  prev : List StringChunk

/-- A string cut from the chunk that has `chunk` others behind it. -/
structure BumbleString where
  chunk : Nat
  position : Nat
  length : Nat

/-- A byte of a string object's inline buffer, or of a chunk. -/
inductive Place where
  | inlined (offset : Nat)
  | heap (chunk offset : Nat)

structure Write where
  place : Place
  byte : UInt8

structure Outcome where
  heap : StringHeap
  string : BumbleString
  writes : List Write

inductive HeapCall where
  | addBlob (data : List UInt8)
  | addEmptyString (len : Nat)

def HeapCall.length : HeapCall → Nat
  | .addBlob data => data.length
  | .addEmptyString len => len

namespace BumbleString

def prefixLength : Nat := 11

/-- Where byte `i` of `GetDataWriteable` is. -/
def getDataWriteable (s : BumbleString) (i : Nat) : Place :=
  if s.length ≤ prefixLength then .inlined i else .heap s.chunk (s.position + i)

/-- No byte belongs to both, their trailing NULs included. -/
def Apart (s t : BumbleString) : Prop :=
  s.chunk ≠ t.chunk ∨ s.position + s.length < t.position ∨ t.position + t.length < s.position

end BumbleString

namespace StringHeap

/-- The chunk the next string is cut from, and those behind it. -/
def opened (h : StringHeap) (len : Nat) : StringChunk × List StringChunk :=
  match h.chunk with
  | none => (⟨0, minimumHeapSize⟩, h.prev)
  | some c =>
    if c.maximumSize ≤ c.currentPosition + len + 1 then (⟨0, minimumHeapSize⟩, c :: h.prev) else (c, h.prev)

def addEmptyString (h : StringHeap) (len : Nat) : Outcome :=
  let (c, prev) := h.opened len
  ⟨⟨some { c with currentPosition := c.currentPosition + (len + 1) }, prev⟩,
    ⟨prev.length, c.currentPosition, len⟩, [⟨.heap prev.length c.currentPosition, 0⟩]⟩

def addBlob (h : StringHeap) (data : List UInt8) : Outcome :=
  let o := h.addEmptyString data.length
  { o with writes := o.writes ++ (data ++ [0]).mapIdx fun i b => ⟨o.string.getDataWriteable i, b⟩ }

def call (h : StringHeap) : HeapCall → Outcome
  | .addBlob data => h.addBlob data
  | .addEmptyString len => h.addEmptyString len

def outcomes : StringHeap → List HeapCall → List Outcome
  | _, [] => []
  | h, c :: rest => h.call c :: outcomes (h.call c).heap rest

end StringHeap

/-- Inside the inline buffer with its NUL, or inside the chunk the string was cut from. -/
def Place.Inside (o : Outcome) : Place → Prop
  | .inlined offset => offset < BumbleString.prefixLength + 1
  | .heap chunk offset => chunk = o.string.chunk ∧ chunk = o.heap.prev.length ∧
      ∃ c, o.heap.chunk = some c ∧ offset < c.maximumSize

def Outcome.InBounds (o : Outcome) : Prop := ∀ w ∈ o.writes, w.place.Inside o

namespace StringHeap

/-- Every chunk has the one size chunks are made with. -/
def Sized (h : StringHeap) : Prop := ∀ c, h.chunk = some c → c.maximumSize = minimumHeapSize

/-- The string is cut from what the heap has not handed out yet. -/
def Beyond (h : StringHeap) (s : BumbleString) : Prop :=
  ∀ c, h.chunk = some c →
    h.prev.length < s.chunk ∨ (h.prev.length = s.chunk ∧ c.currentPosition ≤ s.position)

variable {h : StringHeap} {len : Nat}

section
variable (sized : h.Sized)
include sized

theorem opened_fits (len : Nat) : (h.opened len).1.maximumSize = minimumHeapSize ∧
      ((h.opened len).1.currentPosition = 0 ∨
        (h.opened len).1.currentPosition + len + 1 < minimumHeapSize) := by
  unfold opened
  split
  · exact ⟨rfl, .inl rfl⟩
  · next c here =>
    have size := sized c here
    split
    · exact ⟨rfl, .inl rfl⟩
    · next room =>
      rw [size, Nat.not_le] at room
      exact ⟨size, .inr room⟩

theorem inside_heap (i : Nat) :
    (Place.heap (h.opened len).2.length ((h.opened len).1.currentPosition + i)).Inside (h.addEmptyString len) ↔
      (h.opened len).1.currentPosition + i < minimumHeapSize := by
  rw [← (opened_fits sized len).1]
  simp [Place.Inside, addEmptyString]

theorem inside_getDataWriteable {i : Nat} (within : i ≤ len) :
    ((h.addEmptyString len).string.getDataWriteable i).Inside (h.addEmptyString len) ↔
      len < minimumHeapSize ∨ i < minimumHeapSize := by
  have fits := (opened_fits sized len).2
  unfold BumbleString.getDataWriteable
  split
  · next short =>
    have short : len ≤ 11 := short
    simp only [Place.Inside, BumbleString.prefixLength, minimumHeapSize]
    omega
  · refine (inside_heap sized i).trans ?_
    simp only [minimumHeapSize] at fits ⊢
    omega

theorem addEmptyString_inBounds : (h.addEmptyString len).InBounds := by
  have fits := (opened_fits sized len).2
  intro w member
  rw [List.mem_singleton.mp member]
  refine (inside_heap sized 0).mpr ?_
  simp only [minimumHeapSize] at fits ⊢
  omega

theorem addBlob_inBounds_iff {data : List UInt8} (admitted : data.length ≤ minimumHeapSize) :
    (h.addBlob data).InBounds ↔ data.length ≠ minimumHeapSize := by
  have bytes : (h.addBlob data).InBounds ↔ (h.addEmptyString data.length).InBounds ∧ ∀ i ≤ data.length,
      ((h.addEmptyString data.length).string.getDataWriteable i).Inside (h.addEmptyString data.length) := by
    simp only [Outcome.InBounds, addBlob, List.forall_mem_append, List.mem_mapIdx, List.length_append,
      List.length_singleton, Nat.lt_succ_iff]
    refine and_congr_right' ⟨fun inside i within => inside _ ⟨i, within, rfl⟩, ?_⟩
    rintro inside w ⟨i, within, rfl⟩
    exact inside i within
  rw [bytes]
  constructor
  · rintro ⟨-, inside⟩ full
    have last := (inside_getDataWriteable sized (Nat.le_refl _)).mp (inside _ (Nat.le_refl _))
    omega
  · intro short
    refine ⟨addEmptyString_inBounds sized, fun i within => ?_⟩
    exact (inside_getDataWriteable sized within).mpr (.inl (Nat.lt_of_le_of_ne admitted short))

theorem Sized.call (c : HeapCall) : (h.call c).heap.Sized := by
  cases c with
  | addBlob data | addEmptyString len =>
    rintro _ ⟨⟩
    exact (opened_fits sized _).1

end

/-- A call cuts its string from what was not handed out, and hands out nothing else. -/
theorem call_beyond (c : HeapCall) :
    h.Beyond (h.call c).string ∧ ∀ s, (h.call c).heap.Beyond s → h.Beyond s ∧ (h.call c).string.Apart s := by
  have cut : ∀ len, h.Beyond (h.addEmptyString len).string ∧ ∀ s, (h.addEmptyString len).heap.Beyond s →
      h.Beyond s ∧ (h.addEmptyString len).string.Apart s := by
    intro len
    unfold Beyond BumbleString.Apart addEmptyString opened
    cases here : h.chunk with
    | none => simp; omega
    | some c =>
      simp only [Option.some.injEq, forall_eq']
      split
      · simp; omega
      · simp; omega
  cases c with
  | addBlob data => exact cut data.length
  | addEmptyString len => exact cut len

theorem outcomes_beyond (calls : List HeapCall) : ∀ o ∈ h.outcomes calls, h.Beyond o.string := by
  induction calls generalizing h with
  | nil => simp [outcomes]
  | cons c rest ih =>
    intro o member
    rcases List.mem_cons.mp member with rfl | later
    · exact (call_beyond c).1
    · exact ((call_beyond c).2 _ (ih o later)).1

theorem outcomes_apart (calls : List HeapCall) :
    (h.outcomes calls).Pairwise fun o p => o.string.Apart p.string := by
  induction calls generalizing h with
  | nil => exact List.Pairwise.nil
  | cons c rest ih =>
    exact List.Pairwise.cons (fun o member => ((call_beyond c).2 _ (outcomes_beyond rest o member)).2) ih

theorem outcomes_inBounds_iff (calls : List HeapCall) (sized : h.Sized)
    (admitted : ∀ c ∈ calls, c.length ≤ minimumHeapSize) :
    (∀ o ∈ h.outcomes calls, o.InBounds) ↔ ∀ data, .addBlob data ∈ calls → data.length ≠ minimumHeapSize := by
  induction calls generalizing h with
  | nil => simp [outcomes]
  | cons c rest ih =>
    obtain ⟨here, later⟩ := List.forall_mem_cons.mp admitted
    simp only [outcomes, ih (sized.call c) later, List.mem_cons, or_imp, forall_and]
    refine and_congr_left' ?_
    cases c with
    | addBlob data => simp [call, addBlob_inBounds_iff sized here]
    | addEmptyString len => simp [call, addEmptyString_inBounds sized]

end StringHeap

/-- Whatever strings of at most a chunk's size are added, the returned strings never overlap, and every
byte is written inside its chunk unless a blob is exactly as long as a chunk. -/
theorem stringHeap_inBounds_iff (calls : List HeapCall) (admitted : ∀ c ∈ calls, c.length ≤ minimumHeapSize) :
    ((∀ o ∈ StringHeap.outcomes ⟨none, []⟩ calls, o.InBounds) ∧
      (StringHeap.outcomes ⟨none, []⟩ calls).Pairwise fun o p => o.string.Apart p.string) ↔
      ∀ data, .addBlob data ∈ calls → data.length ≠ minimumHeapSize := by
  rw [and_iff_left (StringHeap.outcomes_apart calls)]
  exact StringHeap.outcomes_inBounds_iff calls (by rintro c ⟨⟩) admitted

/-- The longest blob that fits, then an empty string of a chunk's size. -/
theorem stringHeap_inBounds_longest :
    ∃ data : List UInt8, data.length + 1 = minimumHeapSize ∧
      ∀ o ∈ StringHeap.outcomes ⟨none, []⟩ [.addBlob data, .addEmptyString minimumHeapSize], o.InBounds := by
  obtain ⟨data, length⟩ : ∃ data : List UInt8, data.length = minimumHeapSize - 1 :=
    ⟨List.replicate _ 0, List.length_replicate⟩
  refine ⟨data, by rw [length]; decide, ((stringHeap_inBounds_iff _ ?_).mpr ?_).1⟩
  · intro c member
    rcases List.mem_pair.mp member with rfl | rfl
    · exact le_of_eq_of_le length (Nat.sub_le _ _)
    · exact Nat.le_refl _
  · intro other member
    simp only [List.mem_cons, HeapCall.addBlob.injEq, reduceCtorEq, List.not_mem_nil, or_false] at member
    rw [member, length]
    decide

/-- The NUL of a blob of a chunk's size is written behind the chunk. -/
theorem stringHeap_out_of_bounds :
    ∃ data : List UInt8, data.length = minimumHeapSize ∧
      (StringHeap.addBlob ⟨none, []⟩ data).string.getDataWriteable data.length = .heap 0 minimumHeapSize ∧
      ¬ (StringHeap.addBlob ⟨none, []⟩ data).InBounds := by
  obtain ⟨data, length⟩ : ∃ data : List UInt8, data.length = minimumHeapSize :=
    ⟨List.replicate _ 0, List.length_replicate⟩
  refine ⟨data, length, ?_, ?_⟩
  · simp only [StringHeap.addBlob, length]
    rfl
  · rw [StringHeap.addBlob_inBounds_iff (by rintro c ⟨⟩) (Nat.le_of_eq length)]
    exact not_not_intro length

end BumbleBee.Types
