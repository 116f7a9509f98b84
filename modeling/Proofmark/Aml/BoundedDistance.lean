import Proofmark.Aml.CharacterData
import Proofmark.Aml.EditDistance

/-!
# The bounded distance is the edit distance

`boundedEditDistance` with its two ways out before the table is full: words whose lengths differ by
more than the bound, and a row whose band holds nothing within it. The first is right because an
edit changes the length by one; the second is never taken once the first is not.

What is returned is the least cost of an alignment of the composed code points, cut off above the
bound, and it is zero for the strings that are canonically equivalent.
-/

namespace Proofmark.Aml

open Edit (osa Edits)

/-- `Number.MAX_SAFE_INTEGER` -/
def maxSafeInteger : ℕ := 2 ^ 53 - 1

/-- `Number.isSafeInteger` -/
def isSafeInteger (n : ℚ) : Bool :=
  n.den = 1 && |n| ≤ (maxSafeInteger : ℚ)

inductive DistanceError
  /-- "invalid edit-distance bound" -/
  | invalidBound
  deriving DecidableEq

/-- What the least value of row `i` within the band comes to, at most one above the bound. -/
def rowMin (a b : List Str) (maxDistance i : ℕ) : ℕ :=
  (List.range b.length).foldl
    (fun least j ↦
      if (i - (j + 1)) + ((j + 1) - i) ≤ maxDistance then min least (osa a b i (j + 1)) else least)
    (maxDistance + 1)

/-- The test at the end of row `i`. -/
def leavesAt (a b : List Str) (maxDistance i : ℕ) : Bool :=
  maxDistance < rowMin a b maxDistance i && b.length + maxDistance < i

namespace Unicode

variable (U : Unicode)

/-- `boundedEditDistance` with the test of its bound and both early returns. A bound is a finite
number. -/
def boundedEditDistanceFull (left right : Str) (maxDistance : ℚ) : Except DistanceError ℕ :=
  let a := U.codePoints left
  let b := U.codePoints right
  if !isSafeInteger maxDistance || maxDistance < 0 then .error .invalidBound
  else
    let bound := maxDistance.num.toNat
    if bound < (a.length - b.length) + (b.length - a.length) then .ok (bound + 1)
    else if (List.range a.length).any fun i ↦ leavesAt a b bound (i + 1) then .ok (bound + 1)
    else .ok (min (osa a b a.length b.length) (bound + 1))

/-- What the standard says of the two normal forms. -/
structure Forms : Prop where
  nfc_nfd : ∀ s, U.nfc (U.nfd s) = U.nfc s
  nfd_nfc : ∀ s, U.nfd (U.nfc s) = U.nfd s

/-- Strings with one full canonical decomposition. -/
def CanonicallyEquivalent (x y : Str) : Prop :=
  U.nfd x = U.nfd y

variable {U} {x y : Str}

theorem Forms.nfc_eq_iff (hU : U.Forms) : U.nfc x = U.nfc y ↔ U.CanonicallyEquivalent x y := by
  constructor
  · intro h
    rw [CanonicallyEquivalent, ← hU.nfd_nfc x, ← hU.nfd_nfc y, h]
  · intro h
    rw [← hU.nfc_nfd x, ← hU.nfc_nfd y, show U.nfd x = U.nfd y from h]

theorem codePoints_eq_iff : U.codePoints x = U.codePoints y ↔ U.nfc x = U.nfc y := by
  refine ⟨fun h ↦ ?_, fun h ↦ congrArg points h⟩
  rw [← flatten_points (U.nfc x), ← flatten_points (U.nfc y)]
  exact congrArg List.flatten h

theorem isSafeInteger_natCast {m : ℕ} (hm : m ≤ maxSafeInteger) : isSafeInteger (m : ℚ) = true := by
  rw [isSafeInteger, Bool.and_eq_true, decide_eq_true_eq, decide_eq_true_eq]
  exact ⟨Rat.den_natCast m, by rw [Nat.abs_cast]; exact_mod_cast hm⟩

/-- Past the first test, no row is far enough below the shorter word. -/
theorem leavesAt_eq_false {a b : List Str} {m i : ℕ} (hlength : a.length ≤ b.length + m)
    (hi : i < a.length) : leavesAt a b m (i + 1) = false := by
  rw [leavesAt, Bool.and_eq_false_iff, decide_eq_false_iff_not, decide_eq_false_iff_not]
  exact .inr (by omega)

/-- **The early returns change nothing.** -/
theorem boundedEditDistanceFull_eq {m : ℕ} (hm : m ≤ maxSafeInteger) :
    U.boundedEditDistanceFull x y m = .ok (U.boundedEditDistance x y m) := by
  have hbound : (!isSafeInteger (m : ℚ) || decide ((m : ℚ) < 0)) = false := by
    rw [isSafeInteger_natCast hm, Bool.not_true, Bool.false_or, decide_eq_false_iff_not, not_lt]
    exact Nat.cast_nonneg m
  have hnum : ((m : ℚ).num).toNat = m := by rw [Rat.num_natCast, Int.toNat_natCast]
  simp only [boundedEditDistanceFull, boundedEditDistance, hbound, hnum, Bool.false_eq_true,
    if_false]
  split
  case isTrue => rfl
  case isFalse hnear =>
    rw [if_neg]
    rw [List.any_eq_true]
    rintro ⟨i, hi, hleaves⟩
    rw [leavesAt_eq_false (by omega) (List.mem_range.1 hi)] at hleaves
    cases hleaves

/-- The distance, cut off above the bound. -/
theorem boundedEditDistance_eq_min (m : ℕ) :
    U.boundedEditDistance x y m =
      min (osa (U.codePoints x) (U.codePoints y) (U.codePoints x).length (U.codePoints y).length)
        (m + 1) := by
  have hedits : Edits (osa (U.codePoints x) (U.codePoints y) (U.codePoints x).length
    (U.codePoints y).length) (U.codePoints x) (U.codePoints y) := Edit.isLeast_osa.1
  have hlength := hedits.length_le
  simp only [boundedEditDistance]
  split <;> omega

theorem boundedEditDistance_eq_zero {m : ℕ} :
    U.boundedEditDistance x y m = 0 ↔ U.nfc x = U.nfc y := by
  rw [boundedEditDistance_eq_min, ← codePoints_eq_iff, ← Edit.osa_eq_zero]
  omega

theorem withinOneEdit_comm : U.withinOneEdit x y = U.withinOneEdit y x := by
  simp only [withinOneEdit, boundedEditDistance_comm (x := x), eq_comm (a := U.nfc x),
    Bool.and_comm (decide (1 ≤ U.supportedEditLimit x))]

theorem boundedEditDistanceFull_comm (n : ℚ) :
    U.boundedEditDistanceFull x y n = U.boundedEditDistanceFull y x n := by
  by_cases hn : (!isSafeInteger n || decide (n < 0)) = true
  · simp only [boundedEditDistanceFull, if_pos hn]
  · rw [Bool.not_eq_true, Bool.or_eq_false_iff, Bool.not_eq_false', isSafeInteger,
      Bool.and_eq_true, decide_eq_true_eq, decide_eq_true_eq, decide_eq_false_iff_not,
      not_lt] at hn
    obtain ⟨⟨hden, hsafe⟩, hpos⟩ := hn
    -- the bound is a natural number
    have hnum : (n.num.toNat : ℚ) = n := by
      have hint : ((n.num.toNat : ℤ) : ℚ) = (n.num : ℚ) := by
        rw [Int.toNat_of_nonneg (Rat.num_nonneg.2 hpos)]
      rw [← Int.cast_natCast, hint, Rat.coe_int_num_of_den_eq_one hden]
    have hm : n.num.toNat ≤ maxSafeInteger := by
      rw [abs_of_nonneg hpos, ← hnum] at hsafe
      exact_mod_cast hsafe
    rw [← hnum, boundedEditDistanceFull_eq hm, boundedEditDistanceFull_eq hm,
      boundedEditDistance_comm]

/-- **The bounded distance is the optimal-string-alignment distance** of the composed code points,
cut off above the bound. It is symmetric, and zero for canonically equivalent strings alone. -/
theorem boundedEditDistanceFull_laws (hU : U.Forms) (x y : Str) {m : ℕ}
    (hm : m ≤ maxSafeInteger) :
    (∃ d, IsLeast {d | Edits d (U.codePoints x) (U.codePoints y)} d ∧
        U.boundedEditDistanceFull x y m = .ok (min d (m + 1))) ∧
      U.boundedEditDistanceFull x y m = U.boundedEditDistanceFull y x m ∧
      (U.boundedEditDistanceFull x y m = .ok 0 ↔ U.CanonicallyEquivalent x y) ∧
      U.withinOneEdit x y = U.withinOneEdit y x ∧
      U.withinSupportedEdits x y = U.withinSupportedEdits y x := by
  refine ⟨⟨_, Edit.isLeast_osa, ?_⟩, boundedEditDistanceFull_comm m, ?_, withinOneEdit_comm,
    withinSupportedEdits_comm⟩
  · rw [boundedEditDistanceFull_eq hm, boundedEditDistance_eq_min]
  · rw [boundedEditDistanceFull_eq hm, Except.ok.injEq, boundedEditDistance_eq_zero, hU.nfc_eq_iff]

end Unicode

/-! ### Letters that have no other form -/

/-- The letters of these strings are their own normal forms. -/
def plainUnicode : Unicode where
  toLowerCase s := s
  toUpperCase s := s
  nfd s := s
  nfc s := s
  isLetterOrNumber _ := true

def kitten : Str :=
  ascii ['k', 'i', 't', 't', 'e', 'n']

def sitting : Str :=
  ascii ['s', 'i', 't', 't', 'i', 'n', 'g']

theorem boundedEditDistanceFull_laws_kitten :
    (∃ d, IsLeast {d | Edits d (plainUnicode.codePoints kitten) (plainUnicode.codePoints sitting)} d
        ∧ plainUnicode.boundedEditDistanceFull kitten sitting (2 : ℕ) = .ok (min d (2 + 1))) ∧
      plainUnicode.boundedEditDistanceFull kitten sitting (2 : ℕ) =
        plainUnicode.boundedEditDistanceFull sitting kitten (2 : ℕ) ∧
      (plainUnicode.boundedEditDistanceFull kitten sitting (2 : ℕ) = .ok 0 ↔
        plainUnicode.CanonicallyEquivalent kitten sitting) ∧
      plainUnicode.withinOneEdit kitten sitting = plainUnicode.withinOneEdit sitting kitten ∧
      plainUnicode.withinSupportedEdits kitten sitting =
        plainUnicode.withinSupportedEdits sitting kitten :=
  Unicode.boundedEditDistanceFull_laws ⟨fun _ ↦ rfl, fun _ ↦ rfl⟩ _ _ (by decide)

end Proofmark.Aml
