import Mathlib.Data.Int.Basic
import Mathlib.Data.BitVec

/-!
# Bitwise operators on 32-bit integers

The operators of a language whose numbers are not words: the operands are reduced to 32 bits, the
result is read as a signed integer. On operands below `2 ^ 31` they are the operators of the words;
a result with the top bit set is negative and differs from every mask of the same bits.
-/

namespace Numeric.Int32

def and (a b : ℤ) : ℤ :=
  (BitVec.ofInt 32 a &&& BitVec.ofInt 32 b).toInt

def or (a b : ℤ) : ℤ :=
  (BitVec.ofInt 32 a ||| BitVec.ofInt 32 b).toInt

def not (a : ℤ) : ℤ :=
  (~~~BitVec.ofInt 32 a).toInt

@[simp]
theorem ofInt_toNat (w : BitVec 32) : BitVec.ofInt 32 (w.toNat : ℤ) = w := by
  rw [BitVec.ofInt_natCast, BitVec.ofNat_toNat, BitVec.setWidth_eq]

@[simp]
theorem ofInt_not (a : ℤ) : BitVec.ofInt 32 (not a) = ~~~BitVec.ofInt 32 a := by
  rw [not, BitVec.ofInt_toInt]

/-- A test against zero is the test of the words. -/
theorem and_eq_zero_iff (a b : ℤ) :
    and a b = 0 ↔ BitVec.ofInt 32 a &&& BitVec.ofInt 32 b = 0 := by
  have hzero : (0 : BitVec 32).toInt = 0 := by decide
  rw [and, ← hzero, BitVec.toInt_inj]

@[simp]
theorem ofInt_or (a b : ℤ) : BitVec.ofInt 32 (or a b) = BitVec.ofInt 32 a ||| BitVec.ofInt 32 b := by
  rw [or, BitVec.ofInt_toInt]

theorem toNat_ofInt {v : ℤ} (h : 0 ≤ v) (hlt : v < 2 ^ 32) : (BitVec.ofInt 32 v).toNat = v.toNat := by
  rw [BitVec.toNat_ofInt, Int.emod_eq_of_lt h (by exact_mod_cast hlt)]

/-- The test for a single bit, on a number that is its own word. -/
theorem exists_two_pow {v : ℤ} (h : 1 ≤ v) (hlt : v < 2 ^ 32) (hand : and v (v - 1) = 0) :
    ∃ k < 32, v = 2 ^ k := by
  have hnat : v.toNat &&& (v.toNat - 1) = 0 := by
    have hwords := congrArg BitVec.toNat ((and_eq_zero_iff _ _).1 hand)
    rw [BitVec.toNat_and, toNat_ofInt (by omega) hlt, toNat_ofInt (by omega) (by omega)] at hwords
    rw [show v.toNat - 1 = (v - 1).toNat by omega]
    exact hwords
  obtain ⟨k, hk⟩ := (Nat.and_sub_one_eq_zero_iff_isPowerOfTwo (by omega)).1 hnat
  refine ⟨k, (Nat.pow_lt_pow_iff_right (a := 2) (by omega)).1 ?_, ?_⟩
  · omega
  · rw [← Int.toNat_of_nonneg (by omega : 0 ≤ v), hk]
    push_cast
    rfl

/-- The bits of a power of two. -/
theorem getLsbD_two_pow {k : ℕ} (hk : k < 32) (i : ℕ) :
    (BitVec.ofInt 32 ((2 : ℤ) ^ k)).getLsbD i = decide (i = k) := by
  have hpow : (2 : ℤ) ^ k = ((2 ^ k : ℕ) : ℤ) := by push_cast; rfl
  rw [hpow, BitVec.ofInt_natCast, BitVec.getLsbD_ofNat, Nat.testBit_two_pow]
  by_cases h : i = k
  · simp [h, hk]
  · simp [h, Ne.symm h]

end Numeric.Int32
