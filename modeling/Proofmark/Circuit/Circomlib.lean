import Mathlib.Algebra.BigOperators.Fin
import Mathlib.Algebra.Field.ZMod
import Mathlib.Tactic.Ring

/-!
# Templates of a constraint library

The range and comparison templates of circomlib over a prime field. A template is the record of its
signals, the ones of its components included, and its constraints are the equations of `<==` and
`===`; a hint (`<--`) constrains nothing, so the bits of a decomposition and the inverse of a zero
test are arbitrary.

Every template has one law that says when an assignment of its outside signals extends to the
inside ones. All of them rest on `Num2Bits.val_eq`: while the width stays below the modulus, a
decomposition is the one of the canonical integer. A comparator is no more than a decomposition of
a difference, shifted to stay positive; so it is right exactly for inputs already known to be in
range, which is the premise `LessEqThan.exists_iff` carries.
-/

namespace Circom

variable {p : ℕ}

/-- `b * (b - 1) === 0`. -/
def IsBit (b : ZMod p) : Prop :=
  b * (b - 1) = 0

/-! ### Num2Bits -/

/-- The signals of `Num2Bits(n)`. -/
structure Num2Bits (p n : ℕ) where
  input : ZMod p
  out : Fin n → ZMod p

namespace Num2Bits

variable {n : ℕ}

/-- The linear combination of the bits is the input. -/
structure Satisfied (c : Num2Bits p n) : Prop where
  isBit : ∀ i, IsBit (c.out i)
  sum : ∑ i, c.out i * 2 ^ (i : ℕ) = c.input

end Num2Bits

/-- The number a vector of bits spells, least significant bit first. -/
def bitsNat {n : ℕ} (bits : Fin n → ZMod p) : ℕ :=
  ∑ i, (bits i).val * 2 ^ (i : ℕ)

theorem bitsNat_succ {n : ℕ} (bits : Fin (n + 1) → ZMod p) :
    bitsNat bits = bitsNat (fun i ↦ bits i.castSucc) + (bits (Fin.last n)).val * 2 ^ n := by
  simp only [bitsNat, Fin.sum_univ_castSucc, Fin.val_castSucc, Fin.val_last]

/-- The bits of a number, as field elements. -/
def natBits (n m : ℕ) : Fin n → ZMod p :=
  fun i ↦ ((m / 2 ^ (i : ℕ) % 2 : ℕ) : ZMod p)

theorem sum_natBits (n m : ℕ) :
    ∑ i, (natBits n m i : ZMod p) * 2 ^ (i : ℕ) = ((m % 2 ^ n : ℕ) : ZMod p) := by
  induction n with
  | zero => simp [Nat.mod_one]
  | succ n ih =>
    rw [Fin.sum_univ_castSucc, Nat.mod_pow_succ]
    push_cast
    rw [← ih]
    simp only [natBits, Fin.val_castSucc, Fin.val_last]
    push_cast
    ring

variable [Fact p.Prime]

theorem isBit_iff {b : ZMod p} : IsBit b ↔ b = 0 ∨ b = 1 := by
  rw [IsBit, mul_eq_zero, sub_eq_zero]

theorem IsBit.val_le_one {b : ZMod p} (h : IsBit b) : b.val ≤ 1 := by
  rcases isBit_iff.1 h with rfl | rfl
  · simp
  · exact (ZMod.val_one p).le

theorem bitsNat_lt {n : ℕ} {bits : Fin n → ZMod p} (h : ∀ i, IsBit (bits i)) :
    bitsNat bits < 2 ^ n := by
  induction n with
  | zero => simp [bitsNat]
  | succ n ih =>
    have hlow := ih fun i ↦ h i.castSucc
    have htop : (bits (Fin.last n)).val * 2 ^ n ≤ 1 * 2 ^ n :=
      Nat.mul_le_mul_right _ (h (Fin.last n)).val_le_one
    rw [bitsNat_succ, pow_succ]
    omega

theorem cast_bitsNat {n : ℕ} (bits : Fin n → ZMod p) :
    (bitsNat bits : ZMod p) = ∑ i, bits i * 2 ^ (i : ℕ) := by
  simp only [bitsNat, Nat.cast_sum, Nat.cast_mul, ZMod.natCast_val, ZMod.cast_id', id_eq,
    Nat.cast_pow, Nat.cast_ofNat]

theorem isBit_natBits (n m : ℕ) (i : Fin n) : IsBit (natBits n m i : ZMod p) := by
  rw [isBit_iff, natBits]
  rcases Nat.mod_two_eq_zero_or_one (m / 2 ^ (i : ℕ)) with h | h <;> simp [h]

namespace Num2Bits

variable {n : ℕ} {c : Num2Bits p n}

/-- **A decomposition narrower than the modulus is the one of the canonical integer.** -/
theorem val_eq (hn : 2 ^ n ≤ p) (h : c.Satisfied) : c.input.val = bitsNat c.out := by
  have hlt : bitsNat c.out < p := (bitsNat_lt h.isBit).trans_le hn
  rw [← h.sum, ← cast_bitsNat, ZMod.val_natCast_of_lt hlt]

theorem val_lt (hn : 2 ^ n ≤ p) (h : c.Satisfied) : c.input.val < 2 ^ n := by
  rw [val_eq hn h]
  exact bitsNat_lt h.isBit

/-- The decomposition the prover computes. -/
def of (n : ℕ) (v : ZMod p) : Num2Bits p n :=
  ⟨v, natBits n v.val⟩

theorem satisfied_of {v : ZMod p} (h : v.val < 2 ^ n) : (of n v).Satisfied :=
  ⟨isBit_natBits n v.val, by
    show ∑ i, (natBits n v.val i : ZMod p) * 2 ^ (i : ℕ) = v
    rw [sum_natBits, Nat.mod_eq_of_lt h, ZMod.natCast_zmod_val]⟩

end Num2Bits

/-! ### IsZero and IsEqual -/

/-- The signals of `IsZero`. -/
structure IsZero (p : ℕ) where
  input : ZMod p
  inv : ZMod p
  out : ZMod p

namespace IsZero

structure Satisfied (c : IsZero p) : Prop where
  out : c.out = -c.input * c.inv + 1
  zero : c.input * c.out = 0

theorem out_eq {c : IsZero p} (h : c.Satisfied) : c.out = if c.input = 0 then 1 else 0 := by
  split
  · next hzero => rw [h.out, hzero, neg_zero, zero_mul, zero_add]
  · next hne => exact (mul_eq_zero.1 h.zero).resolve_left hne

/-- The hint is the inverse, or zero. -/
def of (v : ZMod p) : IsZero p :=
  ⟨v, v⁻¹, if v = 0 then 1 else 0⟩

theorem satisfied_of (v : ZMod p) : (of v).Satisfied := by
  by_cases hv : v = 0
  · exact ⟨by simp [of, hv], by simp [of, hv]⟩
  · exact ⟨by simp [of, hv], by simp [of, hv]⟩

end IsZero

/-- The signals of `IsEqual`. -/
structure IsEqual (p : ℕ) where
  in0 : ZMod p
  in1 : ZMod p
  isz : IsZero p
  out : ZMod p

namespace IsEqual

structure Satisfied (c : IsEqual p) : Prop where
  input : c.isz.input = c.in1 - c.in0
  isz : c.isz.Satisfied
  out : c.out = c.isz.out

theorem out_eq {c : IsEqual p} (h : c.Satisfied) : c.out = if c.in0 = c.in1 then 1 else 0 := by
  rw [h.out, IsZero.out_eq h.isz, h.input]
  simp only [sub_eq_zero, eq_comm]

def of (v w : ZMod p) : IsEqual p :=
  ⟨v, w, .of (w - v), (IsZero.of (w - v)).out⟩

theorem satisfied_of (v w : ZMod p) : (of v w).Satisfied :=
  ⟨rfl, IsZero.satisfied_of _, rfl⟩

end IsEqual

/-! ### Comparators -/

/-- The signals of `LessThan(n)`. -/
structure LessThan (p n : ℕ) where
  in0 : ZMod p
  in1 : ZMod p
  n2b : Num2Bits p (n + 1)
  out : ZMod p

namespace LessThan

variable {n : ℕ}

structure Satisfied (c : LessThan p n) : Prop where
  input : c.n2b.input = c.in0 + 2 ^ n - c.in1
  n2b : c.n2b.Satisfied
  out : c.out = 1 - c.n2b.out (Fin.last n)

/-- The shifted difference is a number below `2 ^ (n + 1)`, and its top bit says which of the two
is greater. The second input may be `2 ^ n` itself, as `LessEqThan` adds one to it. -/
theorem val_input {v w : ZMod p} (hn : 2 ^ (n + 1) ≤ p) (hv : v.val < 2 ^ n) (hw : w.val ≤ 2 ^ n) :
    (v + 2 ^ n - w).val = v.val + 2 ^ n - w.val := by
  have hcast : v + 2 ^ n - w = ((v.val + 2 ^ n - w.val : ℕ) : ZMod p) := by
    rw [Nat.cast_sub (by omega)]
    simp
  rw [hcast, ZMod.val_natCast_of_lt]
  rw [pow_succ] at hn
  omega

theorem out_eq {c : LessThan p n} (h : c.Satisfied) (hn : 2 ^ (n + 1) ≤ p)
    (hv : c.in0.val < 2 ^ n) (hw : c.in1.val ≤ 2 ^ n) :
    c.out = if c.in0.val < c.in1.val then 1 else 0 := by
  have hval := Num2Bits.val_eq hn h.n2b
  rw [h.input, val_input hn hv hw, bitsNat_succ] at hval
  have hlow : bitsNat (fun i ↦ c.n2b.out (Fin.castSucc i)) < 2 ^ n :=
    bitsNat_lt fun i ↦ h.n2b.isBit _
  rw [h.out]
  rcases isBit_iff.1 (h.n2b.isBit (Fin.last n)) with htop | htop
  · rw [htop, ZMod.val_zero, zero_mul, add_zero] at hval
    rw [htop, sub_zero, if_pos (by omega)]
  · rw [htop, ZMod.val_one, one_mul] at hval
    rw [htop, sub_self, if_neg (by omega)]

def of (n : ℕ) (v w : ZMod p) : LessThan p n :=
  ⟨v, w, .of (n + 1) (v + 2 ^ n - w), 1 - (Num2Bits.of (n + 1) (v + 2 ^ n - w)).out (Fin.last n)⟩

theorem satisfied_of {v w : ZMod p} (hn : 2 ^ (n + 1) ≤ p) (hv : v.val < 2 ^ n)
    (hw : w.val ≤ 2 ^ n) : (of n v w).Satisfied :=
  ⟨rfl, Num2Bits.satisfied_of (by
    rw [val_input hn hv hw, pow_succ]
    omega), rfl⟩

end LessThan

/-- The signals of `LessEqThan(n)`. -/
structure LessEqThan (p n : ℕ) where
  in0 : ZMod p
  in1 : ZMod p
  lt : LessThan p n
  out : ZMod p

namespace LessEqThan

variable {n : ℕ}

structure Satisfied (c : LessEqThan p n) : Prop where
  in0 : c.lt.in0 = c.in0
  in1 : c.lt.in1 = c.in1 + 1
  lt : c.lt.Satisfied
  out : c.out = c.lt.out

theorem val_add_one {w : ZMod p} (hn : 2 ^ (n + 1) ≤ p) (hw : w.val < 2 ^ n) :
    (w + 1).val = w.val + 1 := by
  rw [ZMod.val_add, ZMod.val_one, Nat.mod_eq_of_lt]
  rw [pow_succ] at hn
  omega

/-- **The comparator is right on inputs in range.** -/
theorem out_eq {c : LessEqThan p n} (h : c.Satisfied) (hn : 2 ^ (n + 1) ≤ p)
    (hv : c.in0.val < 2 ^ n) (hw : c.in1.val < 2 ^ n) :
    c.out = if c.in0.val ≤ c.in1.val then 1 else 0 := by
  have hw1 := val_add_one hn hw
  rw [h.out, LessThan.out_eq h.lt hn (by rwa [h.in0]) (by rw [h.in1, hw1]; omega), h.in0, h.in1,
    hw1]
  simp only [Nat.lt_add_one_iff]

def of (n : ℕ) (v w : ZMod p) : LessEqThan p n :=
  ⟨v, w, .of n v (w + 1), (LessThan.of n v (w + 1)).out⟩

theorem satisfied_of {v w : ZMod p} (hn : 2 ^ (n + 1) ≤ p) (hv : v.val < 2 ^ n)
    (hw : w.val < 2 ^ n) : (of n v w).Satisfied :=
  ⟨rfl, rfl, LessThan.satisfied_of hn hv (by rw [val_add_one hn hw]; omega), rfl⟩

end LessEqThan

end Circom
