import Mathlib.Data.Int.Log
import Mathlib.Data.Rat.Floor
import Mathlib.Algebra.Order.Floor.Ring
import Mathlib.Tactic.Linarith
import Mathlib.Tactic.Positivity
import Mathlib.Tactic.FieldSimp

/-!
# Double arithmetic on rationals

A finite double is the rational it stands for. `nearest` rounds a rational to the nearest value
with 53 significant bits, ties to even, and the operations round the exact result. Exponents are
not bounded, so this is IEEE arithmetic as long as no result overflows or is subnormal.

`toFixed` is the decimal rounding of a number format with a fixed number of digits, read back as a
double. On values that are not negative it is monotone (`toFixed_mono`), as is `nearest`.
-/

namespace Numeric

/-! ### Rounding to an integer -/

/-- The nearest integer, ties to even. -/
def roundEven (q : ℚ) : ℤ :=
  if q - ⌊q⌋ < 1 / 2 then ⌊q⌋
  else if 1 / 2 < q - ⌊q⌋ then ⌊q⌋ + 1
  else if ⌊q⌋ % 2 = 0 then ⌊q⌋
  else ⌊q⌋ + 1

theorem floor_le_roundEven (q : ℚ) : ⌊q⌋ ≤ roundEven q := by
  unfold roundEven
  split_ifs <;> omega

theorem roundEven_le (q : ℚ) : roundEven q ≤ ⌊q⌋ + 1 := by
  unfold roundEven
  split_ifs <;> omega

@[simp]
theorem roundEven_intCast (n : ℤ) : roundEven n = n := by
  simp [roundEven]

theorem roundEven_mono {p q : ℚ} (h : p ≤ q) : roundEven p ≤ roundEven q := by
  rcases (Int.floor_mono h).eq_or_lt with hfloor | hfloor
  · -- on one unit interval the fractions decide
    have hfract : p - ⌊p⌋ ≤ q - ⌊q⌋ := by
      rw [hfloor]
      linarith
    unfold roundEven
    rw [hfloor] at hfract ⊢
    split_ifs <;> first | omega | (exfalso; linarith)
  · have hp := roundEven_le p
    have hq := floor_le_roundEven q
    omega

/-! ### Rounding to 53 bits -/

/-- The spacing of the doubles around a value. -/
def ulp (x : ℚ) : ℚ :=
  2 ^ (Int.log 2 |x| - 52)

/-- The nearest double, ties to even. -/
def nearest (x : ℚ) : ℚ :=
  roundEven (x / ulp x) * ulp x

theorem ulp_pos (x : ℚ) : 0 < ulp x :=
  zpow_pos two_pos _

@[simp]
theorem nearest_zero : nearest 0 = 0 := by
  have h : roundEven 0 = 0 := by simpa using roundEven_intCast 0
  simp [nearest, h]

/-- The power of two at or below a positive value. -/
theorem pow_log_le {x : ℚ} (hx : 0 < x) : (2 : ℚ) ^ Int.log 2 |x| ≤ x := by
  rw [abs_of_pos hx]
  exact Int.zpow_log_le_self one_lt_two hx

theorem lt_pow_log {x : ℚ} (hx : 0 < x) : x < (2 : ℚ) ^ (Int.log 2 |x| + 1) := by
  rw [abs_of_pos hx]
  exact Int.lt_zpow_succ_log_self one_lt_two x

theorem pow_eq_mul_ulp (x : ℚ) : (2 : ℚ) ^ Int.log 2 |x| = 2 ^ (52 : ℕ) * ulp x := by
  rw [ulp, ← zpow_natCast, ← zpow_add₀ two_ne_zero]
  congr 1
  omega

/-- Rounding stays within the binade. -/
theorem pow_log_le_nearest {x : ℚ} (hx : 0 < x) : (2 : ℚ) ^ Int.log 2 |x| ≤ nearest x := by
  have hle : ((2 ^ 52 : ℤ) : ℚ) ≤ x / ulp x := by
    rw [le_div_iff₀ (ulp_pos x)]
    have h := pow_log_le hx
    rw [pow_eq_mul_ulp] at h
    exact_mod_cast h
  have hround := roundEven_mono hle
  rw [roundEven_intCast] at hround
  rw [pow_eq_mul_ulp, nearest]
  refine mul_le_mul_of_nonneg_right ?_ (ulp_pos x).le
  exact_mod_cast hround

theorem nearest_le_pow_log {x : ℚ} (hx : 0 < x) : nearest x ≤ (2 : ℚ) ^ (Int.log 2 |x| + 1) := by
  have hle : x / ulp x ≤ ((2 ^ 53 : ℤ) : ℚ) := by
    rw [div_le_iff₀ (ulp_pos x)]
    have h := lt_pow_log hx
    rw [zpow_add_one₀ two_ne_zero, pow_eq_mul_ulp] at h
    push_cast
    linarith
  have hround := roundEven_mono hle
  rw [roundEven_intCast] at hround
  have hpow : (2 : ℚ) ^ (Int.log 2 |x| + 1) = ((2 ^ 53 : ℤ) : ℚ) * ulp x := by
    rw [zpow_add_one₀ two_ne_zero, pow_eq_mul_ulp]
    push_cast
    ring
  rw [hpow, nearest]
  refine mul_le_mul_of_nonneg_right ?_ (ulp_pos x).le
  exact_mod_cast hround

theorem nearest_pos {x : ℚ} (hx : 0 < x) : 0 < nearest x :=
  (zpow_pos two_pos _).trans_le (pow_log_le_nearest hx)

/-- **Rounding is monotone.** -/
theorem nearest_mono {x y : ℚ} (hx : 0 ≤ x) (h : x ≤ y) : nearest x ≤ nearest y := by
  rcases hx.eq_or_lt with rfl | hx
  · rw [nearest_zero]
    rcases h.eq_or_lt with rfl | hy
    · rw [nearest_zero]
    · exact (nearest_pos hy).le
  · have hy : 0 < y := hx.trans_le h
    have hlog : Int.log 2 |x| ≤ Int.log 2 |y| := by
      rw [abs_of_pos hx, abs_of_pos hy]
      exact Int.log_mono_right hx h
    rcases hlog.eq_or_lt with heq | hlt
    · -- in one binade the spacing is the same
      have hulp : ulp x = ulp y := by rw [ulp, ulp, heq]
      rw [nearest, nearest, hulp]
      refine mul_le_mul_of_nonneg_right ?_ (ulp_pos y).le
      exact_mod_cast roundEven_mono (div_le_div_of_nonneg_right h (ulp_pos y).le)
    · calc nearest x ≤ 2 ^ (Int.log 2 |x| + 1) := nearest_le_pow_log hx
        _ ≤ 2 ^ Int.log 2 |y| := zpow_le_zpow_right₀ one_le_two (by omega)
        _ ≤ nearest y := pow_log_le_nearest hy

/-- A natural number of 53 bits is a double. -/
theorem nearest_natCast {n : ℕ} (h : n < 2 ^ 53) : nearest n = n := by
  rcases Nat.eq_zero_or_pos n with rfl | hn
  · rw [Nat.cast_zero, nearest_zero]
  · have hlog : Int.log 2 |(n : ℚ)| = Nat.log 2 n := by rw [Nat.abs_cast, Int.log_natCast]
    have hle : Nat.log 2 n ≤ 52 := Nat.le_of_lt_succ (Nat.log_lt_of_lt_pow hn.ne' h)
    have hulp : ulp (n : ℚ) = ((2 ^ (52 - Nat.log 2 n) : ℕ) : ℚ)⁻¹ := by
      rw [ulp, hlog, Nat.cast_pow, Nat.cast_ofNat, ← zpow_natCast, ← zpow_neg]
      congr 1
      omega
    have hpos : ((2 ^ (52 - Nat.log 2 n) : ℕ) : ℚ) ≠ 0 := by positivity
    have hround := roundEven_intCast ((n * 2 ^ (52 - Nat.log 2 n) : ℕ) : ℤ)
    rw [Int.cast_natCast] at hround
    rw [nearest, hulp, div_inv_eq_mul, ← Nat.cast_mul, hround, Int.cast_natCast, Nat.cast_mul,
      mul_assoc, mul_inv_cancel₀ hpos, mul_one]

/-- Rounding cannot bring a value below a natural number that it was not below. -/
theorem lt_of_nearest_lt {n : ℕ} (hn : n < 2 ^ 53) {x : ℚ} (h : nearest x < n) : x < n := by
  by_contra hle
  have hmono := nearest_mono (Nat.cast_nonneg n) (not_lt.1 hle)
  rw [nearest_natCast hn] at hmono
  exact absurd h (not_lt.2 hmono)

/-! ### The operations -/

def add (x y : ℚ) : ℚ :=
  nearest (x + y)

def sub (x y : ℚ) : ℚ :=
  nearest (x - y)

def mul (x y : ℚ) : ℚ :=
  nearest (x * y)

def div (x y : ℚ) : ℚ :=
  nearest (x / y)

@[simp]
theorem zero_div (y : ℚ) : div 0 y = 0 := by
  simp [div]

@[simp]
theorem add_zero_zero : add 0 0 = 0 := by
  simp [add]

/-- `Number(x.toFixed(digits))`: the nearest decimal with that many digits, ties upwards. -/
def toFixed (digits : ℕ) (x : ℚ) : ℚ :=
  if 0 ≤ x then nearest (⌊x * 10 ^ digits + 1 / 2⌋ / 10 ^ digits)
  else -nearest (⌊-x * 10 ^ digits + 1 / 2⌋ / 10 ^ digits)

/-- **Decimal rounding is monotone.** -/
theorem toFixed_mono (digits : ℕ) {x y : ℚ} (hx : 0 ≤ x) (h : x ≤ y) :
    toFixed digits x ≤ toFixed digits y := by
  rw [toFixed, if_pos hx, toFixed, if_pos (hx.trans h)]
  refine nearest_mono ?_ ?_
  · have hfloor : (0 : ℤ) ≤ ⌊x * 10 ^ digits + 1 / 2⌋ := Int.floor_nonneg.2 (by positivity)
    exact div_nonneg (by exact_mod_cast hfloor) (by positivity)
  · refine div_le_div_of_nonneg_right ?_ (by positivity)
    exact_mod_cast Int.floor_mono (by gcongr)

example : nearest (1 / 10) = 3602879701896397 / 36028797018963968 := by decide +kernel

end Numeric
