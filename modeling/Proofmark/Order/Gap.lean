import Mathlib.Data.List.Basic
import Mathlib.Data.List.GetD
import Mathlib.Data.List.Pairwise
import Mathlib.Order.Basic
import Mathlib.Order.Lattice

/-!
# Gaps in a strictly sorted list

In a strictly sorted list a value between two neighbours is no element, and two ways to find the
neighbours agree on what they find: the first element above the value, and a bisection.

`lowerBound` is a bisection for a test on indices. Its result is where the test turns from true to
false, and for that nothing need be known of the test between the two ends it starts from.
-/

namespace SortedGap

variable {α : Type*}

/-! ### Gaps -/

/-- `k` lies between the elements at an index and the next. -/
def Gap [LT α] (l : List α) (k : α) (i : ℕ) : Prop :=
  ∃ a b, l[i]? = some a ∧ l[i + 1]? = some b ∧ a < k ∧ k < b

variable [LinearOrder α] {l : List α} {k : α} {i : ℕ}

/-- **What lies in a gap is no element.** -/
theorem Gap.not_mem (h : Gap l k i) (hl : l.Pairwise (· < ·)) : k ∉ l := by
  obtain ⟨a, b, ha, hb, hak, hkb⟩ := h
  obtain ⟨hi, rfl⟩ := List.getElem?_eq_some_iff.1 ha
  obtain ⟨hi', rfl⟩ := List.getElem?_eq_some_iff.1 hb
  intro hk
  obtain ⟨j, hj, rfl⟩ := List.mem_iff_getElem.1 hk
  rw [List.pairwise_iff_getElem] at hl
  -- the element sits before, at or after the lower neighbour
  rcases Nat.lt_trichotomy j i with hlt | rfl | hgt
  · exact lt_asymm hak (hl j i hj hi hlt)
  · exact lt_irrefl _ hak
  · rcases Nat.lt_or_eq_of_le (Nat.succ_le_of_lt hgt) with hlt | rfl
    · exact lt_asymm hkb (hl (i + 1) j hi' hj hlt)
    · exact lt_irrefl _ hkb

/-- A value lies in one gap only. -/
theorem Gap.unique {j : ℕ} (hl : l.Pairwise (· < ·)) (h : Gap l k i) (h' : Gap l k j) : i = j := by
  suffices hle : ∀ m n, Gap l k m → Gap l k n → m ≤ n from
    Nat.le_antisymm (hle i j h h') (hle j i h' h)
  clear h h'
  intro i j h h'
  obtain ⟨a, -, ha, -, hak, -⟩ := h
  obtain ⟨-, b, -, hb, -, hkb⟩ := h'
  obtain ⟨hi, rfl⟩ := List.getElem?_eq_some_iff.1 ha
  obtain ⟨hj, rfl⟩ := List.getElem?_eq_some_iff.1 hb
  -- otherwise the upper neighbour of the one gap is at or below the lower neighbour of the other
  by_contra hgt
  have hlt := hak.trans hkb
  rcases Nat.lt_or_eq_of_le (Nat.succ_le_of_lt (Nat.not_le.1 hgt)) with hji | rfl
  · exact lt_asymm hlt (List.pairwise_iff_getElem.1 hl (j + 1) i hj hi hji)
  · exact lt_irrefl _ hlt

/-- The first element above a value, if it is not the first of all, ends a gap. -/
theorem gap_of_findIdx? {hi : ℕ} (hfirst : l.findIdx? (fun a ↦ decide (k < a)) = some (hi + 1))
    (hk : k ∉ l) : Gap l k hi := by
  obtain ⟨hlt, habove, hbelow⟩ := List.findIdx?_eq_some_iff_getElem.1 hfirst
  have hprev : ¬k < l[hi] := by simpa using hbelow hi (Nat.lt_succ_self hi)
  refine ⟨l[hi], l[hi + 1], List.getElem?_eq_getElem _, List.getElem?_eq_getElem _, ?_,
    of_decide_eq_true habove⟩
  exact lt_of_le_of_ne (not_lt.1 hprev) fun heq ↦ hk (heq ▸ List.getElem_mem _)

/-! ### Bisection -/

/-- `while (lo < hi) { const mid = (lo + hi) / 2; if (test(mid)) lo = mid + 1; else hi = mid; }` -/
def lowerBound (test : ℕ → Bool) (lo hi : ℕ) : ℕ :=
  if lo < hi then
    if test ((lo + hi) / 2) then lowerBound test ((lo + hi) / 2 + 1) hi
    else lowerBound test lo ((lo + hi) / 2)
  else lo
termination_by hi - lo

/-- **The bisection ends where the test turns**, if the test holds before its start and fails at its
end. -/
theorem lowerBound_spec {test : ℕ → Bool} {lo hi : ℕ} (hpos : 0 < lo) (hle : lo ≤ hi)
    (hlo : test (lo - 1) = true) (hhi : test hi = false) :
    ∃ i, lowerBound test lo hi = i + 1 ∧ i < hi ∧ test i = true ∧ test (i + 1) = false := by
  fun_induction lowerBound test lo hi with
  | case1 lo hi hlt htest ih =>
    exact ih (Nat.succ_pos _) (by omega) htest hhi
  | case2 lo hi hlt htest ih =>
    obtain ⟨i, hi', hlt', hspec⟩ := ih hpos (by omega) hlo (Bool.eq_false_iff.2 htest)
    exact ⟨i, hi', by omega, hspec⟩
  | case3 lo hi hge =>
    obtain rfl : lo = hi := by omega
    refine ⟨lo - 1, by omega, by omega, hlo, ?_⟩
    rwa [Nat.sub_add_cancel hpos]

/-- A bisection over a list for the first element that is not below a value, where the value is none
of the elements, ends a gap. -/
theorem gap_of_lowerBound {d : α} {hi : ℕ} (hk : k ∉ l) (hpos : 0 < hi) (hlt : hi < l.length)
    (hlo : l.getD 0 d < k) (hhi : k < l.getD hi d) :
    ∃ i, lowerBound (fun mid ↦ decide (l.getD mid d < k)) 1 hi = i + 1 ∧ Gap l k i := by
  obtain ⟨i, hfound, hi', hbelow, habove⟩ :
      ∃ i, lowerBound (fun mid ↦ decide (l.getD mid d < k)) 1 hi = i + 1 ∧ i < hi ∧
        decide (l.getD i d < k) = true ∧ decide (l.getD (i + 1) d < k) = false :=
    lowerBound_spec Nat.one_pos hpos (decide_eq_true hlo) (decide_eq_false (lt_asymm hhi))
  have hget : ∀ j, j < l.length → l[j]? = some (l.getD j d) := fun j hj ↦ by
    rw [List.getD_eq_getElem _ _ hj, List.getElem?_eq_getElem hj]
  refine ⟨i, hfound, _, _, hget i (by omega), hget (i + 1) (by omega), of_decide_eq_true hbelow, ?_⟩
  refine lt_of_le_of_ne (not_lt.1 (of_decide_eq_false habove)) fun heq ↦ hk ?_
  rw [heq]
  exact List.mem_of_getElem? (hget (i + 1) (by omega))

end SortedGap
