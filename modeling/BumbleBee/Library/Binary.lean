import Mathlib.Algebra.Order.Round
import Mathlib.Data.Int.Log
import Mathlib.Data.Rat.Floor

/-!
Binary floating point on exact numbers. A format keeps `precision` significant bits
and no bit below `2 ^ least`; rounding is to the nearest such number, ties to even.
The upper end of the exponent range is not part of a format.
-/

namespace BumbleBee.Library.Binary

structure Format where
  precision : Nat
  least : Int
  positive : 0 < precision

/-- The integer nearest to `q`, the even one of two. -/
def roundEven (q : ℚ) : Int :=
  if 2 * Int.fract q < 1 then ⌊q⌋
  else if 1 < 2 * Int.fract q then ⌊q⌋ + 1
  else if ⌊q⌋ % 2 = 0 then ⌊q⌋ else ⌊q⌋ + 1

theorem roundEven_intCast (n : Int) : roundEven n = n := by
  unfold roundEven
  rw [Int.floor_intCast, if_pos (by norm_num)]

theorem floor_le_roundEven (q : ℚ) : ⌊q⌋ ≤ roundEven q := by
  unfold roundEven
  split_ifs <;> omega

theorem roundEven_le_floor_add_one (q : ℚ) : roundEven q ≤ ⌊q⌋ + 1 := by
  unfold roundEven
  split_ifs <;> omega

variable {q : ℚ}

theorem le_roundEven {n : Int} (below : n ≤ q) : n ≤ roundEven q :=
  le_trans (Int.le_floor.mpr below) (floor_le_roundEven q)

namespace Format

variable (f : Format)

/-- The exponent of the last bit kept of `q`. -/
def exponent (q : ℚ) : Int := max (Int.log 2 |q| + 1 - f.precision) f.least

def round (q : ℚ) : ℚ := roundEven (q / 2 ^ f.exponent q) * 2 ^ f.exponent q

/-- The numbers of the format. -/
def Representable (q : ℚ) : Prop := ∃ m k : Int, |m| < 2 ^ f.precision ∧ f.least ≤ k ∧ q = m * 2 ^ k

variable {f}

theorem two_zpow_pos (k : Int) : (0 : ℚ) < 2 ^ k := zpow_pos (by norm_num) k

theorem scaled_integer (held : f.Representable q) (nonzero : q ≠ 0) : ∃ n : Int, q / 2 ^ f.exponent q = n := by
  obtain ⟨m, k, small, low, value⟩ := held
  have size : |q| < 2 ^ ((f.precision : Int) + k) := by
    rw [value, abs_mul, abs_of_pos (two_zpow_pos k), zpow_add₀ (by norm_num)]
    apply mul_lt_mul_of_pos_right _ (two_zpow_pos k)
    exact_mod_cast small
  have log : Int.log 2 |q| < f.precision + k :=
    (Int.lt_zpow_iff_log_lt (by norm_num) (abs_pos.mpr nonzero)).mp (by exact_mod_cast size)
  have reached : f.exponent q ≤ k := max_le (by omega) low
  refine ⟨m * 2 ^ (k - f.exponent q).toNat, ?_⟩
  rw [div_eq_iff (two_zpow_pos _).ne', Int.cast_mul, Int.cast_pow, Int.cast_ofNat, mul_assoc, ← zpow_natCast,
    Int.toNat_of_nonneg (by omega), ← zpow_add₀ (by norm_num), Int.sub_add_cancel]
  exact value

theorem round_of_representable (held : f.Representable q) : f.round q = q := by
  by_cases zero : q = 0
  · rw [zero, round, zero_div, show (0 : ℚ) = ((0 : Int) : ℚ) from rfl, roundEven_intCast, Int.cast_zero, zero_mul]
  · obtain ⟨n, whole⟩ := scaled_integer held zero
    rw [round, whole, roundEven_intCast, ← whole, div_mul_cancel₀ q (two_zpow_pos _).ne']

theorem round_nonneg (nonneg : 0 ≤ q) : 0 ≤ f.round q := by
  have scaled : ((0 : Int) : ℚ) ≤ q / 2 ^ f.exponent q := by
    exact div_nonneg nonneg (two_zpow_pos _).le
  have whole : (0 : ℚ) ≤ roundEven (q / 2 ^ f.exponent q) := by exact_mod_cast le_roundEven scaled
  exact mul_nonneg whole (two_zpow_pos _).le

theorem round_le (nonneg : 0 ≤ q) : f.round q ≤ 2 * q + 2 ^ f.least := by
  rcases nonneg.eq_or_lt with zero | positive
  · have held : f.Representable q := ⟨0, f.least, by positivity, le_refl _, by rw [← zero]; simp⟩
    rw [round_of_representable held]
    linarith [two_zpow_pos f.least]
  · have unit : (2 : ℚ) ^ f.exponent q ≤ q + 2 ^ f.least := by
      rcases max_choice (Int.log 2 |q| + 1 - f.precision) f.least with large | small
      · have reached : (2 : ℚ) ^ Int.log 2 |q| ≤ |q| := by
          exact_mod_cast Int.zpow_log_le_self (b := 2) (by norm_num) (abs_pos.mpr positive.ne')
        have lower : f.exponent q ≤ Int.log 2 |q| := by
          have := f.positive
          rw [exponent]
          omega
        rw [abs_of_pos positive] at reached lower
        linarith [zpow_le_zpow_right₀ (by norm_num : (1 : ℚ) ≤ 2) lower, two_zpow_pos f.least]
      · rw [exponent, small]
        linarith
    have whole : (roundEven (q / 2 ^ f.exponent q) : ℚ) ≤ q / 2 ^ f.exponent q + 1 := by
      have floor : ((⌊q / 2 ^ f.exponent q⌋ : Int) : ℚ) ≤ q / 2 ^ f.exponent q := Int.floor_le _
      have next : (roundEven (q / 2 ^ f.exponent q) : ℚ) ≤ (⌊q / 2 ^ f.exponent q⌋ : ℚ) + 1 := by
        exact_mod_cast roundEven_le_floor_add_one (q / 2 ^ f.exponent q)
      linarith
    calc f.round q ≤ (q / 2 ^ f.exponent q + 1) * 2 ^ f.exponent q :=
          mul_le_mul_of_nonneg_right whole (two_zpow_pos _).le
      _ = q + 2 ^ f.exponent q := by rw [add_mul, div_mul_cancel₀ q (two_zpow_pos _).ne', one_mul]
      _ ≤ 2 * q + 2 ^ f.least := by linarith

end Format

end BumbleBee.Library.Binary
