import Mathlib.Data.List.DropRight
import Mathlib.Tactic.Ring

/-!
# Decimal texts of natural numbers

Two renderings and two readings. `digits` is exact; `formatG p` is the format `%.pg` of C at a
natural number, which falls back to the scientific notation once the number has more than `p`
digits and rounds it to `p` of them. `ofDigits?` reads digits only, as an integer literal is read;
`numberOf` reads the scientific notation as well.

The readings differ on the renderings in one way each: `ofDigits?` fails on a number that `formatG`
writes in scientific notation (`ofDigits?_formatG`), and `numberOf` reads the rounded number
(`numberOf_formatG`).
-/

namespace Numeric.Decimal

def digits (n : ℕ) : List Char :=
  Nat.toDigits 10 n

/-- The number a text of digits spells. -/
def ofDigits? (t : List Char) : Option ℕ :=
  if t ≠ [] ∧ t.all Char.isDigit then some (Nat.ofDigitChars 10 t 0) else none

theorem isDigit_of_mem_digits {n : ℕ} {c : Char} (h : c ∈ digits n) : c.isDigit = true :=
  Nat.isDigit_of_mem_toDigits (by norm_num) (by norm_num) h

@[simp]
theorem ofDigits?_digits (n : ℕ) : ofDigits? (digits n) = some n := by
  have hall : (digits n).all Char.isDigit = true :=
    List.all_eq_true.2 fun _ h ↦ isDigit_of_mem_digits h
  rw [ofDigits?, if_pos ⟨Nat.toDigits_ne_nil, hall⟩, digits, Nat.ofDigitChars_ten_toDigits]

/-- The digits of a positive number do not start with a zero. -/
theorem exists_digits_eq_cons {n : ℕ} (h : 0 < n) : ∃ c rest, digits n = c :: rest ∧ c ≠ '0' := by
  induction n using Nat.strong_induction_on with
  | _ n ih =>
    rw [digits, Nat.toDigits_eq_if (by norm_num)]
    by_cases hlt : n < 10
    · rw [if_pos hlt]
      refine ⟨_, [], rfl, ?_⟩
      have hall : ∀ k < 10, 0 < k → Nat.digitChar k ≠ '0' := by decide
      exact hall n hlt h
    · rw [if_neg hlt]
      obtain ⟨c, rest, hdigits, hc⟩ := ih (n / 10) (by omega) (by omega)
      rw [digits] at hdigits
      exact ⟨c, rest ++ [(n % 10).digitChar], by rw [hdigits, List.cons_append], hc⟩

theorem ofDigits?_eq_none {t : List Char} {c : Char} (hc : c ∈ t) (h : c.isDigit = false) :
    ofDigits? t = none := by
  refine if_neg fun hall ↦ ?_
  rw [List.all_eq_true.1 hall.2 c hc] at h
  exact absurd h (by simp)

/-! ### Rendering -/

/-- Division rounded to the nearest, ties to even. -/
def roundDiv (n d : ℕ) : ℕ :=
  if d < 2 * (n % d) ∨ d = 2 * (n % d) ∧ n / d % 2 = 1 then n / d + 1 else n / d

/-- A number in scientific notation: its first digit, its others without the trailing zeros, and
the exponent, which has two digits or more. -/
def scientific (m k : ℕ) : List Char :=
  match digits m with
  | [] => []
  | d :: rest =>
    let fraction := rest.rdropWhile (· == '0')
    d :: ((if fraction = [] then [] else '.' :: fraction) ++
      'e' :: '+' :: digits (k + rest.length))

/-- `%.pg`, for `p` of ten and more: exact up to `p` digits, else rounded to `p` digits and in
scientific notation. A carry into one more digit shows in the exponent only. -/
def formatG (p n : ℕ) : List Char :=
  if (digits n).length ≤ p then digits n
  else
    let k := (digits n).length - p
    scientific (roundDiv n (10 ^ k)) k

/-- The number `formatG` renders. -/
def rounded (p n : ℕ) : ℕ :=
  if (digits n).length ≤ p then n
  else
    let k := (digits n).length - p
    roundDiv n (10 ^ k) * 10 ^ k

theorem length_digits_le_iff {n p : ℕ} (hp : 0 < p) : (digits n).length ≤ p ↔ n < 10 ^ p :=
  Nat.length_toDigits_le_iff (by norm_num) hp

/-! ### Reading -/

/-- The text before the first `c` and, if there is one, the text after it. -/
def cut (c : Char) : List Char → List Char × Option (List Char)
  | [] => ([], none)
  | x :: t => if x = c then ([], some t) else (x :: (cut c t).1, (cut c t).2)

theorem cut_append {c : Char} {a : List Char} (ha : c ∉ a) (b : List Char) :
    cut c (a ++ c :: b) = (a, some b) := by
  induction a with
  | nil => simp [cut]
  | cons x a ih =>
    have hx := List.ne_of_not_mem_cons ha
    replace ha := List.not_mem_of_not_mem_cons ha
    rw [List.cons_append, cut, if_neg (Ne.symm hx), ih ha]

theorem cut_of_not_mem {c : Char} {a : List Char} (ha : c ∉ a) : cut c a = (a, none) := by
  induction a with
  | nil => rfl
  | cons x a ih =>
    have hx := List.ne_of_not_mem_cons ha
    replace ha := List.not_mem_of_not_mem_cons ha
    rw [cut, if_neg (Ne.symm hx), ih ha]

/-- The number of a mantissa shifted by an exponent, when it is a natural number. -/
def shifted (mantissa : List Char) (e : ℕ) : Option ℕ :=
  match cut '.' mantissa with
  | (integer, none) => (ofDigits? integer).map (· * 10 ^ e)
  | (integer, some fraction) =>
    if fraction.length ≤ e then
      (ofDigits? (integer ++ fraction)).map (· * 10 ^ (e - fraction.length))
    else none

/-- The natural number a text spells, in digits or in scientific notation. -/
def numberOf (t : List Char) : Option ℕ :=
  match cut 'e' t with
  | (mantissa, none) => ofDigits? mantissa
  | (mantissa, some ('+' :: exponent)) => (ofDigits? exponent).bind (shifted mantissa)
  | _ => none

theorem not_mem_digits {c : Char} (hc : c.isDigit = false) (n : ℕ) : c ∉ digits n := by
  intro h
  rw [isDigit_of_mem_digits h] at hc
  exact absurd hc (by simp)

@[simp]
theorem numberOf_digits (n : ℕ) : numberOf (digits n) = some n := by
  rw [numberOf, cut_of_not_mem (not_mem_digits (by decide) n)]
  exact ofDigits?_digits n

/-! ### Reading what was rendered -/

/-- Dropping trailing zeros leaves the text without them. -/
theorem exists_eq_append_zeros (t : List Char) :
    ∃ j, t = t.rdropWhile (· == '0') ++ List.replicate j '0' := by
  induction t using List.reverseRecOn with
  | nil => exact ⟨0, rfl⟩
  | append_singleton t c ih =>
    by_cases hc : c = '0'
    · obtain ⟨j, hj⟩ := ih
      refine ⟨j + 1, ?_⟩
      rw [List.rdropWhile_concat_pos _ _ _ (by simp [hc]), List.replicate_succ', ← List.append_assoc,
        ← hj, hc]
    · exact ⟨0, by rw [List.rdropWhile_concat_neg _ _ _ (by simp [hc]), List.replicate_zero,
        List.append_nil]⟩

theorem ofDigits?_of_subset {t u : List Char} {n : ℕ} (h : ofDigits? t = some n) (hu : u ≠ [])
    (hsub : u ⊆ t) : ofDigits? u = some (Nat.ofDigitChars 10 u 0) := by
  rw [ofDigits?] at h
  split at h
  · next hall =>
    exact if_pos ⟨hu, List.all_eq_true.2 fun c hc ↦ List.all_eq_true.1 hall.2 c (hsub hc)⟩
  · exact absurd h (by simp)

/-- **The scientific notation is read back exactly.** -/
theorem numberOf_scientific (m k : ℕ) : numberOf (scientific m k) = some (m * 10 ^ k) := by
  rcases hdigits : digits m with - | ⟨d, rest⟩
  · exact absurd hdigits Nat.toDigits_ne_nil
  obtain ⟨j, hrest⟩ := exists_eq_append_zeros rest
  rw [scientific, hdigits]
  dsimp only
  set fraction := rest.rdropWhile (· == '0') with hfraction
  have hsub : d :: fraction ⊆ digits m := by
    rw [hdigits, hrest]
    exact List.cons_subset_cons _ (List.subset_append_left _ _)
  have hfree : ∀ c : Char, c.isDigit = false → c ∉ d :: fraction := fun c hc hmem ↦
    not_mem_digits hc m (hsub hmem)
  have hvalue : Nat.ofDigitChars 10 (d :: fraction) 0 * 10 ^ j = m := by
    have hm : Nat.ofDigitChars 10 (digits m) 0 = m := Nat.ofDigitChars_ten_toDigits
    rw [hdigits, hrest, ← List.cons_append, Nat.ofDigitChars_append,
      Nat.ofDigitChars_replicate_zero] at hm
    rw [mul_comm]
    exact hm
  have hread : ofDigits? (d :: fraction) = some (Nat.ofDigitChars 10 (d :: fraction) 0) :=
    ofDigits?_of_subset (ofDigits?_digits m) (by simp) hsub
  have hlength : rest.length = fraction.length + j := by
    conv_lhs => rw [hrest]
    simp
  have hpow : Nat.ofDigitChars 10 (d :: fraction) 0 * 10 ^ (k + j) = m * 10 ^ k := by
    rw [← hvalue, pow_add]
    ring
  -- the mantissa, with and without a point
  by_cases hempty : fraction = []
  · have hcut := cut_append (hfree 'e' (by decide)) ('+' :: digits (k + rest.length))
    rw [hempty] at hcut hread hpow hlength hfree
    rw [hempty, if_pos rfl, List.nil_append]
    rw [List.singleton_append] at hcut
    rw [numberOf, hcut]
    show (ofDigits? (digits (k + rest.length))).bind (shifted [d]) = _
    rw [ofDigits?_digits, Option.bind_some, shifted, cut_of_not_mem (hfree '.' (by decide))]
    dsimp only
    rw [hread, Option.map_some, hlength, List.length_nil, Nat.zero_add, hpow]
  · have hmantissa : 'e' ∉ d :: '.' :: fraction := by
      have hnot := hfree 'e' (by decide)
      simp only [List.mem_cons, not_or] at hnot ⊢
      exact ⟨hnot.1, by decide, hnot.2⟩
    have hcut := cut_append hmantissa ('+' :: digits (k + rest.length))
    have hpoint : cut '.' (d :: '.' :: fraction) = ([d], some fraction) :=
      cut_append (a := [d]) (fun h ↦ hfree '.' (by decide)
        (List.mem_cons.2 (.inl (List.mem_singleton.1 h)))) fraction
    rw [if_neg hempty, numberOf]
    rw [List.cons_append, List.cons_append] at hcut
    rw [List.cons_append, hcut]
    show (ofDigits? (digits (k + rest.length))).bind (shifted (d :: '.' :: fraction)) = _
    rw [ofDigits?_digits, Option.bind_some, shifted, hpoint]
    dsimp only
    rw [if_pos (by omega), List.singleton_append, hread, Option.map_some, hlength,
      show k + (fraction.length + j) - fraction.length = k + j by omega, hpow]

/-- Reading as a number gives the rounded number. -/
theorem numberOf_formatG (p n : ℕ) : numberOf (formatG p n) = some (rounded p n) := by
  rw [formatG, rounded]
  split
  · exact numberOf_digits n
  · exact numberOf_scientific _ _

/-- Reading as digits gives the number, if it has few enough of them. -/
theorem ofDigits?_formatG (p n : ℕ) :
    ofDigits? (formatG p n) = if (digits n).length ≤ p then some n else none := by
  rw [formatG]
  split
  · exact ofDigits?_digits n
  · rw [scientific]
    rcases hdigits : digits (roundDiv n (10 ^ ((digits n).length - p))) with - | ⟨d, rest⟩
    · exact absurd hdigits Nat.toDigits_ne_nil
    · exact ofDigits?_eq_none (c := 'e') (by simp) (by decide)

end Numeric.Decimal
