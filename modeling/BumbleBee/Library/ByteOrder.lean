import BumbleBee.Library.ByteCodec
import Mathlib.Order.Defs.LinearOrder

/-!
Byte strings in the order of `memcmp`, the shorter first when one begins the other.
Two strings that diverge compare the same whatever is appended to them; big-endian
words of one width diverge as their values do, and complementing every byte turns the
order around.
-/

namespace BumbleBee.Library.ByteOrder
open ByteCodec

/-- `memcmp` over the shorter length, then the lengths. -/
def before : Bytes → Bytes → Bool
  | [], [] => false
  | [], _ :: _ => true
  | _ :: _, [] => false
  | a :: as, b :: bs => if a < b then true else if b < a then false else before as bs

section Order

variable {a b c : Bytes} {x y : UInt8}

theorem before_of_lt (less : x < y) (a b : Bytes) : before (x :: a) (y :: b) = true := by
  rw [before, if_pos less]

theorem before_of_gt (greater : y < x) (a b : Bytes) : before (x :: a) (y :: b) = false := by
  rw [before, if_neg (UInt8.lt_asymm greater), if_pos greater]

theorem before_same (x : UInt8) (a b : Bytes) : before (x :: a) (x :: b) = before a b := by
  rw [before, if_neg (UInt8.lt_irrefl x), if_neg (UInt8.lt_irrefl x)]

theorem before_irrefl (a : Bytes) : before a a = false := by
  induction a with
  | nil => rfl
  | cons x a ih => rw [before_same, ih]

/-- How one string comes before another: at its end, at a smaller byte, or further on. -/
theorem before_cons_iff : before (x :: a) (y :: b) = true ↔ x < y ∨ x = y ∧ before a b = true := by
  by_cases same : x = y
  · subst same
    rw [before_same]
    exact ⟨fun less => .inr ⟨rfl, less⟩, fun less => less.resolve_left (UInt8.lt_irrefl x) |>.2⟩
  · rcases UInt8.lt_or_lt_of_ne same with less | greater
    · rw [before_of_lt less]
      exact ⟨fun _ => .inl less, fun _ => rfl⟩
    · rw [before_of_gt greater]
      constructor
      · intro impossible
        cases impossible
      · rintro (less | ⟨equal, -⟩)
        · exact absurd greater (UInt8.lt_asymm less)
        · exact absurd equal same

theorem before_trans (first : before a b = true) (second : before b c = true) : before a c = true := by
  induction a generalizing b c with
  | nil =>
    cases c with
    | nil =>
      cases b with
      | nil => cases first
      | cons y b => cases second
    | cons z c => rfl
  | cons x a ih =>
    cases b with
    | nil => cases first
    | cons y b =>
      cases c with
      | nil => cases second
      | cons z c =>
        rw [before_cons_iff] at first second ⊢
        rcases first with less | ⟨rfl, less⟩
        · rcases second with less' | ⟨rfl, -⟩
          · exact .inl (UInt8.lt_trans less less')
          · exact .inl less
        · rcases second with less' | ⟨rfl, less'⟩
          · exact .inl less'
          · exact .inr ⟨rfl, ih less less'⟩

theorem before_connected (notLess : before a b = false) (notGreater : before b a = false) : a = b := by
  induction a generalizing b with
  | nil =>
    cases b with
    | nil => rfl
    | cons y b => cases notLess
  | cons x a ih =>
    cases b with
    | nil => cases notGreater
    | cons y b =>
      by_cases same : x = y
      · subst same
        rw [before_same] at notLess notGreater
        rw [ih notLess notGreater]
      · rcases UInt8.lt_or_lt_of_ne same with less | greater
        · rw [before_of_lt less] at notLess
          cases notLess
        · rw [before_of_lt greater] at notGreater
          cases notGreater

theorem before_asymm (less : before a b = true) : before b a = false := by
  apply Bool.eq_false_iff.mpr
  intro greater
  have loop := before_trans less greater
  rw [before_irrefl] at loop
  cases loop

end Order

structure ByteString where
  bytes : Bytes
  deriving DecidableEq

instance : LinearOrder ByteString where
  le a b := before b.bytes a.bytes = false
  lt a b := before a.bytes b.bytes = true
  le_refl a := before_irrefl a.bytes
  le_trans a b c first second := by
    apply Bool.eq_false_iff.mpr
    intro greater
    cases step : before b.bytes c.bytes with
    | true =>
      rw [before_trans step greater] at first
      cases first
    | false =>
      rw [before_connected step second, greater] at first
      cases first
  le_antisymm a b first second := by
    cases a
    cases b
    rw [ByteString.mk.injEq]
    exact before_connected second first
  le_total a b := by
    cases order : before b.bytes a.bytes with
    | false => exact .inl rfl
    | true => exact .inr (before_asymm order)
  lt_iff_le_not_ge a b := by
    constructor
    · intro less
      refine ⟨before_asymm less, ?_⟩
      intro notLess
      rw [less] at notLess
      cases notLess
    · rintro ⟨-, less⟩
      exact Bool.not_eq_false _ ▸ less
  toDecidableLE a b := inferInstanceAs (Decidable (before b.bytes a.bytes = false))
  toDecidableLT a b := inferInstanceAs (Decidable (before a.bytes b.bytes = true))
  toDecidableEq := inferInstance

/-- The first byte in which two strings differ, inside both, is smaller in the first. -/
inductive Diverges : Bytes → Bytes → Prop
  | here {x y : UInt8} (less : x < y) (a b : Bytes) : Diverges (x :: a) (y :: b)
  | later (x : UInt8) {a b : Bytes} (further : Diverges a b) : Diverges (x :: a) (x :: b)

section Diverging

variable {a b : Bytes}

theorem Diverges.before (diverges : Diverges a b) : before a b = true := by
  induction diverges with
  | here less a b => exact before_of_lt less a b
  | later x _ ih => rw [before_same, ih]

theorem Diverges.append (diverges : Diverges a b) (s t : Bytes) : Diverges (a ++ s) (b ++ t) := by
  induction diverges with
  | here less a b => exact .here less (a ++ s) (b ++ t)
  | later x _ ih => exact .later x ih

theorem Diverges.behind (diverges : Diverges a b) (common : Bytes) : Diverges (common ++ a) (common ++ b) := by
  induction common with
  | nil => exact diverges
  | cons x common ih => exact .later x ih

def complement (bytes : Bytes) : Bytes := bytes.map fun b => ~~~b

theorem complement_lt {x y : UInt8} (less : x < y) : ~~~y < ~~~x := by
  rw [UInt8.lt_iff_toNat_lt] at less ⊢
  rw [UInt8.toNat_not, UInt8.toNat_not]
  have bound := y.toNat_lt
  have size : UInt8.size = 256 := rfl
  omega

theorem Diverges.complement (diverges : Diverges a b) : Diverges (complement b) (complement a) := by
  induction diverges with
  | here less a b => exact .here (complement_lt less) _ _
  | later x _ ih => exact .later (~~~x) ih

end Diverging

section BigEndian

/-- A byte-swapped word in little-endian memory. -/
def bigEndian (width n : Nat) : Bytes := (littleEndian width n).reverse

theorem bigEndian_succ (width n : Nat) :
    bigEndian (width + 1) n = bigEndian width (n / 256) ++ [UInt8.ofNat n] := by
  rw [bigEndian, littleEndian, List.reverse_cons]
  rfl

theorem length_bigEndian (width n : Nat) : (bigEndian width n).length = width := by
  rw [bigEndian, List.length_reverse, length_littleEndian]

theorem diverges_bigEndian {width m n : Nat} (less : m < n) (small : n < 256 ^ width) :
    Diverges (bigEndian width m) (bigEndian width n) := by
  induction width generalizing m n with
  | zero =>
    omega
  | succ width ih =>
    rw [bigEndian_succ, bigEndian_succ]
    by_cases high : m / 256 < n / 256
    · exact (ih high (by omega)).append _ _
    · have same : m / 256 = n / 256 := by omega
      have low : UInt8.ofNat m < UInt8.ofNat n := by
        show m % 256 < n % 256
        omega
      rw [same]
      exact (Diverges.here low [] []).behind _

end BigEndian

end BumbleBee.Library.ByteOrder
