import Mathlib.NumberTheory.LucasPrimality

/-!
# Primality by a certificate

Lucas' test with the arithmetic done by evaluation: `powMod` is square and multiply with every
product reduced, and `prime_of_certificate` takes the prime factors of `n - 1`, with repetitions,
and a base of full order. Trial division is out of reach from some ten digits on; a certificate of
a number of eighty digits is checked in a few thousand multiplications.
-/

namespace Numeric

/-- `a ^ e % m` in at most `fuel` squarings. -/
def powMod (m : ℕ) : ℕ → ℕ → ℕ → ℕ
  | 0, _, _ => 1 % m
  | fuel + 1, a, e =>
    let half := powMod m fuel (a * a % m) (e / 2)
    if e % 2 = 1 then a * half % m else half

theorem powMod_eq (m : ℕ) {fuel e : ℕ} (a : ℕ) (he : e < 2 ^ fuel) :
    powMod m fuel a e = a ^ e % m := by
  induction fuel generalizing a e with
  | zero =>
    obtain rfl : e = 0 := by omega
    rfl
  | succ fuel ih =>
    have hhalf : powMod m fuel (a * a % m) (e / 2) = (a * a) ^ (e / 2) % m := by
      rw [ih (a * a % m) (by omega), ← Nat.pow_mod]
    have hsquare : (a * a) ^ (e / 2) = a ^ (2 * (e / 2)) := by
      rw [pow_mul, pow_two]
    rw [powMod, hhalf, hsquare]
    split
    · next hodd =>
      have hexp : e = 2 * (e / 2) + 1 := by omega
      rw [Nat.mul_mod_mod, mul_comm, ← pow_succ, ← hexp]
    · next heven =>
      rw [show 2 * (e / 2) = e by omega]

/-- The conditions of the certificate that are settled by evaluation. -/
def certifies (fuel n a : ℕ) (factors : List ℕ) : Bool :=
  factors.prod == n - 1 && decide (n < 2 ^ fuel) && powMod n fuel a (n - 1) == 1 &&
    factors.all fun q ↦ powMod n fuel a ((n - 1) / q) != 1

/-- **Lucas' test, with a certificate.** -/
theorem prime_of_certificate {n : ℕ} (fuel a : ℕ) (factors : List ℕ)
    (hprime : ∀ q ∈ factors, q.Prime) (h : certifies fuel n a factors = true) (hn : 1 < n) :
    n.Prime := by
  simp only [certifies, Bool.and_eq_true, beq_iff_eq, decide_eq_true_eq, List.all_eq_true,
    bne_iff_ne] at h
  obtain ⟨⟨⟨hprod, hfuel⟩, hone⟩, hother⟩ := h
  have hcast : ∀ e ≤ n - 1, ((a : ZMod n) ^ e = 1 ↔ powMod n fuel a e = 1) := fun e he ↦ by
    rw [powMod_eq n a (by omega), ← Nat.cast_pow, ← Nat.cast_one, ZMod.natCast_eq_natCast_iff',
      Nat.mod_eq_of_lt hn]
  refine lucas_primality n a ((hcast _ le_rfl).2 hone) fun q hq hdvd ↦ ?_
  have hmem : q ∈ factors := by
    rw [← hprod] at hdvd
    obtain ⟨r, hr, hqr⟩ := (Prime.dvd_prod_iff hq.prime).1 hdvd
    rwa [(Nat.prime_dvd_prime_iff_eq hq (hprime r hr)).1 hqr]
  rw [ne_eq, hcast _ (Nat.div_le_self _ _)]
  exact hother q hmem

end Numeric
