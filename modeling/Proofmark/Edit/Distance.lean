import Mathlib.Data.List.GetD
import Mathlib.Data.List.Induction
import Mathlib.Data.List.TakeDrop
import Mathlib.Order.Interval.Basic
import Mathlib.Algebra.Order.Group.Nat

/-!
# Optimal string alignment

`osa a b i j` is the table entry of the restricted Damerau–Levenshtein distance: the cost of turning
the first `i` letters of `a` into the first `j` of `b` by insertions, deletions, substitutions and
swaps of neighbours. The table is filled by rows, each from the two before it.

Every entry is the cost of an alignment (`edits_osa`), and the table of the reversed problem is its
transpose (`osa_comm`). An alignment of cost at most one leaves two words a common word that each of
them contains but for one letter at most (`Edits.exists_shared_deletion`). One of cost `d` destroys
at most `3 * d` pairs of neighbours, so longer words keep one in common
(`Edits.exists_shared_pair`).
-/

namespace Edit

variable {α : Type}

/-! ### The table -/

section Table

variable [DecidableEq α]

/-- Fill a row from left to right, each value from its column and the value to its left. -/
def fillRow (value : ℕ → ℕ → ℕ) (first : ℕ) : ℕ → List ℕ
  | 0 => [first]
  | j + 1 =>
    let row := fillRow value first j
    row ++ [value j (row.getD j 0)]

/-- The entry at `(i + 1, j + 1)`, from the two rows above and the value to its left. -/
def entry (a b : List α) (i : ℕ) (above above2 : List ℕ) (j left : ℕ) : ℕ :=
  let substitution := above.getD j 0 + if a[i]? = b[j]? then 0 else 1
  let value := min (min (above.getD (j + 1) 0 + 1) (left + 1)) substitution
  if 1 ≤ i ∧ 1 ≤ j ∧ a[i]? = b[j - 1]? ∧ a[i - 1]? = b[j]? then
    min value (above2.getD (j - 1) 0 + 1)
  else value

/-- Row `i`, and the row above it. -/
def rows (a b : List α) : ℕ → List ℕ × List ℕ
  | 0 => (fillRow (fun j _ ↦ j + 1) 0 b.length, [])
  | i + 1 =>
    let (above, above2) := rows a b i
    (fillRow (entry a b i above above2) (i + 1) b.length, above)

/-- The entry in row `i` and column `j`. -/
def osa (a b : List α) (i j : ℕ) : ℕ :=
  (rows a b i).1.getD j 0

attribute [local grind =] fillRow rows osa

section FillRow

variable {value : ℕ → ℕ → ℕ} {first : ℕ}

theorem length_fillRow (n : ℕ) : (fillRow value first n).length = n + 1 := by
  induction n with
  | zero => rfl
  | succ n ih => simp [fillRow, ih]

theorem getD_fillRow_zero (n : ℕ) : (fillRow value first n).getD 0 0 = first := by
  induction n with
  | zero => rfl
  | succ n ih => rw [fillRow, List.getD_append _ _ _ _ (by simp [length_fillRow]), ih]

/-- Later columns leave a value alone. -/
theorem getD_fillRow_of_le {j n m : ℕ} (hj : j ≤ n) (hn : n ≤ m) :
    (fillRow value first m).getD j 0 = (fillRow value first n).getD j 0 := by
  induction m, hn using Nat.le_induction with
  | base => rfl
  | succ m hm ih => rw [fillRow, List.getD_append _ _ _ _ (by simp [length_fillRow]; omega), ih]

theorem getD_fillRow_succ {j n : ℕ} (hj : j < n) :
    (fillRow value first n).getD (j + 1) 0 = value j ((fillRow value first n).getD j 0) := by
  rw [getD_fillRow_of_le le_rfl (show j + 1 ≤ n from hj), getD_fillRow_of_le le_rfl hj.le, fillRow,
    List.getD_append_right _ _ _ _ (by simp [length_fillRow])]
  simp [length_fillRow]

end FillRow

variable {a b : List α} {i j : ℕ}

theorem osa_zero (hj : j ≤ b.length) : osa a b 0 j = j := by
  induction j with
  | zero => exact getD_fillRow_zero _
  | succ j ih => exact getD_fillRow_succ hj

theorem osa_succ_zero : osa a b (i + 1) 0 = i + 1 :=
  getD_fillRow_zero _

/-- The entry at the two rows above one. -/
theorem rows_snd (hi : 1 ≤ i) : (rows a b i).2.getD j 0 = osa a b (i - 1) j := by
  obtain ⟨i, rfl⟩ := Nat.exists_eq_add_of_le' hi
  rfl

/-- The recurrence of the table. -/
theorem osa_succ_succ (hj : j < b.length) :
    osa a b (i + 1) (j + 1) =
      if 1 ≤ i ∧ 1 ≤ j ∧ a[i]? = b[j - 1]? ∧ a[i - 1]? = b[j]? then
        min (min (min (osa a b i (j + 1) + 1) (osa a b (i + 1) j + 1))
          (osa a b i j + if a[i]? = b[j]? then 0 else 1)) (osa a b (i - 1) (j - 1) + 1)
      else
        min (min (osa a b i (j + 1) + 1) (osa a b (i + 1) j + 1))
          (osa a b i j + if a[i]? = b[j]? then 0 else 1) := by
  have hentry : osa a b (i + 1) (j + 1) =
      entry a b i (rows a b i).1 (rows a b i).2 j (osa a b (i + 1) j) := getD_fillRow_succ hj
  rw [hentry, entry]
  split
  case isTrue h =>
    rw [rows_snd h.1]
    rfl
  case isFalse => rfl

/-! ### The table of the reversed problem -/

/-- **The table is symmetric.** -/
theorem osa_comm (hi : i ≤ a.length) (hj : j ≤ b.length) : osa a b i j = osa b a j i := by
  induction hn : i + j using Nat.strong_induction_on generalizing i j with
  | _ n ih =>
    subst hn
    match i, j with
    | 0, 0 => rw [osa_zero hj, osa_zero hi]
    | 0, j + 1 => rw [osa_zero hj, osa_succ_zero]
    | i + 1, 0 => rw [osa_zero hi, osa_succ_zero]
    | i + 1, j + 1 =>
      have habove : osa a b i (j + 1) = osa b a (j + 1) i := ih _ (by omega) (by omega) hj rfl
      have hleft : osa a b (i + 1) j = osa b a j (i + 1) := ih _ (by omega) hi (by omega) rfl
      have hdiagonal : osa a b i j = osa b a j i := ih _ (by omega) (by omega) (by omega) rfl
      have hswap : osa a b (i - 1) (j - 1) = osa b a (j - 1) (i - 1) :=
        ih _ (by omega) (by omega) (by omega) rfl
      have hguard : (1 ≤ i ∧ 1 ≤ j ∧ a[i]? = b[j - 1]? ∧ a[i - 1]? = b[j]?) ↔
          1 ≤ j ∧ 1 ≤ i ∧ b[j]? = a[i - 1]? ∧ b[j - 1]? = a[i]? := by
        constructor <;> exact fun ⟨h₁, h₂, h₃, h₄⟩ ↦ ⟨h₂, h₁, h₄.symm, h₃.symm⟩
      rw [osa_succ_succ hj, osa_succ_succ hi, habove, hleft, hdiagonal, hswap]
      simp only [hguard, eq_comm (a := a[i]?) (b := b[j]?),
        min_comm (osa b a (j + 1) i + 1) (osa b a j (i + 1) + 1)]

end Table

/-! ### Alignments -/

/-- One word is turned into another at a cost, from left to right. -/
inductive Edits : ℕ → List α → List α → Prop
  | nil : Edits 0 [] []
  | keep {d : ℕ} {x y : List α} (c : α) (h : Edits d x y) : Edits d (x ++ [c]) (y ++ [c])
  | substitute {d : ℕ} {x y : List α} (c c' : α) (h : Edits d x y) :
      Edits (d + 1) (x ++ [c]) (y ++ [c'])
  | delete {d : ℕ} {x y : List α} (c : α) (h : Edits d x y) : Edits (d + 1) (x ++ [c]) y
  | insert {d : ℕ} {x y : List α} (c : α) (h : Edits d x y) : Edits (d + 1) x (y ++ [c])
  | swap {d : ℕ} {x y : List α} (c c' : α) (h : Edits d x y) :
      Edits (d + 1) (x ++ [c, c']) (y ++ [c', c])

theorem edits_delete_all (x : List α) : Edits x.length x [] := by
  induction x using List.reverseRecOn with
  | nil => exact .nil
  | append_singleton x c ih => simpa using ih.delete c

theorem edits_insert_all (y : List α) : Edits y.length [] y := by
  induction y using List.reverseRecOn with
  | nil => exact .nil
  | append_singleton y c ih => simpa using ih.insert c

theorem take_succ_eq (x : List α) {n : ℕ} (h : n < x.length) :
    x.take (n + 1) = x.take n ++ [x[n]] := by
  simp

/-- **Every entry of the table is the cost of an alignment.** -/
theorem edits_osa [DecidableEq α] {a b : List α} {i j : ℕ} (hi : i ≤ a.length)
    (hj : j ≤ b.length) :
    Edits (osa a b i j) (a.take i) (b.take j) := by
  induction hn : i + j using Nat.strong_induction_on generalizing i j with
  | _ n ih =>
    subst hn
    match i, j with
    | 0, j =>
      rw [osa_zero hj]
      simpa [List.length_take_of_le hj] using edits_insert_all (b.take j)
    | i + 1, 0 =>
      rw [osa_succ_zero]
      simpa only [List.take_zero, List.length_take_of_le hi] using
        edits_delete_all (a.take (i + 1))
    | i + 1, j + 1 =>
      have habove := ih (i + (j + 1)) (by omega) (by omega) hj rfl
      have hleft := ih (i + 1 + j) (by omega) hi (by omega) rfl
      have hdiagonal := ih (i + j) (by omega) (by omega) (by omega) rfl
      rw [take_succ_eq b hj] at habove
      rw [take_succ_eq a hi] at hleft
      -- the last letters are deleted, inserted, or matched with each other
      have hmatch : Edits (osa a b i j + if a[i]? = b[j]? then 0 else 1) (a.take i ++ [a[i]])
          (b.take j ++ [b[j]]) := by
        split
        case isTrue heq =>
          have hsame : a[i] = b[j] := by
            rw [List.getElem?_eq_getElem hi, List.getElem?_eq_getElem hj] at heq
            exact Option.some.inj heq
          exact hsame ▸ hdiagonal.keep a[i]
        case isFalse => exact hdiagonal.substitute _ _
      have hvalue : Edits (min (min (osa a b i (j + 1) + 1) (osa a b (i + 1) j + 1))
          (osa a b i j + if a[i]? = b[j]? then 0 else 1)) (a.take i ++ [a[i]])
          (b.take j ++ [b[j]]) :=
        min_rec' (p := fun d ↦ Edits d _ _)
          (min_rec' (p := fun d ↦ Edits d _ _) (habove.delete _) (hleft.insert _)) hmatch
      rw [osa_succ_succ hj, take_succ_eq a hi, take_succ_eq b hj]
      split
      case isFalse => exact hvalue
      case isTrue hswap =>
        obtain ⟨i, rfl⟩ := Nat.exists_eq_add_of_le' hswap.1
        obtain ⟨j, rfl⟩ := Nat.exists_eq_add_of_le' hswap.2.1
        simp only [Nat.add_sub_cancel] at hswap ⊢
        have hcross := ih (i + j) (by omega) (by omega) (by omega) rfl
        have hnew : a[i + 1] = b[j] := by
          have h := hswap.2.2.1
          rw [List.getElem?_eq_getElem hi, List.getElem?_eq_getElem (by omega)] at h
          exact Option.some.inj h
        have hold : a[i] = b[j + 1] := by
          have h := hswap.2.2.2
          rw [List.getElem?_eq_getElem (by omega), List.getElem?_eq_getElem hj] at h
          exact Option.some.inj h
        refine min_rec' (p := fun d ↦ Edits d _ _) hvalue ?_
        rw [take_succ_eq a (show i < a.length by omega), take_succ_eq b (show j < b.length by omega),
          List.append_assoc, List.append_assoc, hnew, hold]
        exact hcross.swap _ _

/-- An edit changes the length by one at most. -/
theorem Edits.length_le {d : ℕ} {x y : List α} (h : Edits d x y) :
    x.length ≤ y.length + d ∧ y.length ≤ x.length + d := by
  induction h with
  | nil => exact ⟨le_rfl, le_rfl⟩
  | _ =>
    simp only [List.length_append, List.length_cons, List.length_nil]
    omega

/-! ### One edit -/

/-- A word, or the word without one of its letters. -/
def deletions (x : List α) : List (List α) :=
  x :: (List.range x.length).map x.eraseIdx

theorem mem_deletions {k x : List α} :
    k ∈ deletions x ↔ k = x ∨ ∃ i < x.length, x.eraseIdx i = k := by
  simp [deletions]

theorem mem_deletions_self (x : List α) : x ∈ deletions x :=
  mem_deletions.2 (.inl rfl)

theorem mem_deletions_append {k x : List α} (h : k ∈ deletions x) (y : List α) :
    k ++ y ∈ deletions (x ++ y) := by
  rcases mem_deletions.1 h with rfl | ⟨i, hi, rfl⟩
  · exact mem_deletions_self _
  · refine mem_deletions.2 (.inr ⟨i, by simp; omega, ?_⟩)
    rw [List.eraseIdx_append_of_lt_length hi]

theorem mem_deletions_middle (x y : List α) (c : α) : x ++ y ∈ deletions (x ++ c :: y) :=
  mem_deletions.2 (.inr ⟨x.length, by simp, by simp [List.eraseIdx_append_of_length_le]⟩)

theorem mem_deletions_concat (x : List α) (c : α) : x ∈ deletions (x ++ [c]) := by
  simpa using mem_deletions_middle x [] c

/-- At cost zero nothing changes. -/
theorem Edits.eq_of_zero {x y : List α} (h : Edits 0 x y) : x = y := by
  generalize hd : 0 = d at h
  induction h with
  | nil => rfl
  | keep c _ ih => rw [ih hd]
  | _ => exact nomatch hd

theorem edits_self (x : List α) : Edits 0 x x := by
  induction x using List.reverseRecOn with
  | nil => exact .nil
  | append_singleton x c ih => exact ih.keep c

/-- **Words at cost at most one share a word** that each contains but for one letter at most. -/
theorem Edits.exists_shared_deletion {d : ℕ} {x y : List α} (h : Edits d x y) (hd : d ≤ 1) :
    ∃ k, k ∈ deletions x ∧ k ∈ deletions y := by
  induction h with
  | nil => exact ⟨[], mem_deletions_self _, mem_deletions_self _⟩
  | keep c _ ih =>
    obtain ⟨k, hx, hy⟩ := ih hd
    exact ⟨k ++ [c], mem_deletions_append hx _, mem_deletions_append hy _⟩
  | @substitute d x y c c' h ih =>
    obtain rfl : d = 0 := by omega
    obtain rfl := h.eq_of_zero
    exact ⟨x, mem_deletions_concat _ _, mem_deletions_concat _ _⟩
  | @delete d x y c h ih =>
    obtain rfl : d = 0 := by omega
    obtain rfl := h.eq_of_zero
    exact ⟨x, mem_deletions_concat _ _, mem_deletions_self _⟩
  | @insert d x y c h ih =>
    obtain rfl : d = 0 := by omega
    obtain rfl := h.eq_of_zero
    exact ⟨x, mem_deletions_self _, mem_deletions_concat _ _⟩
  | @swap d x y c c' h ih =>
    obtain rfl : d = 0 := by omega
    obtain rfl := h.eq_of_zero
    -- without the first of the two letters here, and without the second there
    refine ⟨x ++ [c'], mem_deletions_middle x [c'] c, ?_⟩
    simpa using mem_deletions_concat (x ++ [c']) c

/-! ### The least cost -/

theorem getElem?_of_prefix {a x : List α} {c : α} (h : x ++ [c] <+: a) :
    a[x.length]? = some c := by
  obtain ⟨s, rfl⟩ := h
  simp

theorem lt_length_of_prefix {a x : List α} {c : α} (h : x ++ [c] <+: a) : x.length < a.length := by
  obtain ⟨s, rfl⟩ := h
  simp

section Least

variable [DecidableEq α] {a b : List α} {i j : ℕ}

theorem osa_succ_le (hj : j ≤ b.length) : osa a b (i + 1) j ≤ osa a b i j + 1 := by
  match i, j with
  | 0, 0 => rw [osa_succ_zero, osa_zero hj]
  | i + 1, 0 => rw [osa_succ_zero, osa_succ_zero]
  | i, j + 1 =>
    rw [osa_succ_succ hj]
    split <;> omega

theorem osa_le_succ (hj : j < b.length) : osa a b i (j + 1) ≤ osa a b i j + 1 := by
  match i with
  | 0 => rw [osa_zero hj, osa_zero hj.le]
  | i + 1 =>
    rw [osa_succ_succ hj]
    split <;> omega

/-- **No alignment is cheaper than its entry of the table.** -/
theorem Edits.osa_le {d : ℕ} {x y : List α} (h : Edits d x y) (hx : x <+: a) (hy : y <+: b) :
    osa a b x.length y.length ≤ d := by
  induction h with
  | nil => exact (osa_zero (Nat.zero_le _)).le
  | @keep d x y c h ih =>
    have hstarts := ih ((List.prefix_append x [c]).trans hx) ((List.prefix_append y [c]).trans hy)
    have hlength := lt_length_of_prefix hy
    rw [List.length_append, List.length_append, List.length_singleton, osa_succ_succ hlength,
      getElem?_of_prefix hx, getElem?_of_prefix hy, if_pos (rfl : some c = some c)]
    split <;> omega
  | @substitute d x y c c' h ih =>
    have hstarts := ih ((List.prefix_append x [c]).trans hx) ((List.prefix_append y [c']).trans hy)
    have hlength := lt_length_of_prefix hy
    have hmatch : (if a[x.length]? = b[y.length]? then 0 else 1) ≤ 1 := by split <;> omega
    rw [List.length_append, List.length_append, List.length_singleton, List.length_singleton,
      osa_succ_succ hlength]
    split <;> omega
  | @delete d x y c h ih =>
    have hstarts := ih ((List.prefix_append x [c]).trans hx) hy
    rw [List.length_append, List.length_singleton]
    exact (osa_succ_le hy.length_le).trans (by omega)
  | @insert d x y c h ih =>
    have hstarts := ih hx ((List.prefix_append y [c]).trans hy)
    have hlength := lt_length_of_prefix hy
    rw [List.length_append, List.length_singleton]
    exact (osa_le_succ hlength).trans (by omega)
  | @swap d x y c c' h ih =>
    have hstarts := ih ((List.prefix_append x _).trans hx) ((List.prefix_append y _).trans hy)
    have hlength : y.length + 1 < b.length := by
      simpa [Nat.succ_le_iff] using lt_length_of_prefix (x := y ++ [c']) (c := c) (by simpa using hy)
    -- the first of the two letters of each word, and the second
    have hx₁ : a[x.length]? = some c :=
      getElem?_of_prefix (List.IsPrefix.trans ⟨[c'], by simp⟩ hx)
    have hx₂ : a[x.length + 1]? = some c' := by
      have := getElem?_of_prefix (x := x ++ [c]) (c := c') (by simpa using hx)
      simpa using this
    have hy₁ : b[y.length]? = some c' :=
      getElem?_of_prefix (List.IsPrefix.trans ⟨[c], by simp⟩ hy)
    have hy₂ : b[y.length + 1]? = some c := by
      have := getElem?_of_prefix (x := y ++ [c']) (c := c) (by simpa using hy)
      simpa using this
    rw [List.length_append, List.length_append, show [c, c'].length = 2 from rfl,
      show [c', c].length = 2 from rfl, osa_succ_succ hlength, if_pos]
    · simp only [Nat.add_sub_cancel]
      omega
    · exact ⟨by omega, by omega, by rw [hx₂, Nat.add_sub_cancel, hy₁],
        by rw [Nat.add_sub_cancel, hx₁, hy₂]⟩

/-- **The table's last entry is the distance**: the least cost of an alignment of the words. -/
theorem isLeast_osa : IsLeast {d | Edits d a b} (osa a b a.length b.length) := by
  refine ⟨?_, fun d h ↦ h.osa_le List.prefix_rfl List.prefix_rfl⟩
  have h := edits_osa (a := a) (b := b) le_rfl le_rfl
  rwa [List.take_length, List.take_length] at h

theorem osa_eq_zero : osa a b a.length b.length = 0 ↔ a = b := by
  constructor
  · intro h
    have hedits : Edits (osa a b a.length b.length) a b := isLeast_osa.1
    rw [h] at hedits
    exact hedits.eq_of_zero
  · rintro rfl
    exact Nat.le_zero.1 (isLeast_osa.2 (edits_self a))

end Least

/-! ### More edits -/

/-- The pairs of neighbours in a word that follows a letter. -/
def neighbours (s : α) (x : List α) : List (α × α) :=
  (s :: x).zip x

theorem neighbours_concat (s : α) (x : List α) (c : α) :
    neighbours s (x ++ [c]) = neighbours s x ++ [(x.getLastD s, c)] := by
  induction x generalizing s with
  | nil => rfl
  | cons e x ih =>
    have h := ih e
    simp only [neighbours] at h ⊢
    simp [h, List.getLast?_cons]

theorem length_neighbours (s : α) (x : List α) : (neighbours s x).length = x.length := by
  simp [neighbours]

section Lost

variable [DecidableEq α] (s : α)

/-- The pairs of one word that another does not have. -/
def lost (x y : List α) : ℕ :=
  (neighbours s x).countP fun p ↦ p ∉ neighbours s y

variable {s} {x y : List α} {c c' : α}

theorem lost_concat_right : lost s x (y ++ [c']) ≤ lost s x y := by
  refine List.countP_mono_left fun p _ hp ↦ ?_
  rw [neighbours_concat] at hp
  simp only [List.mem_append, not_or, decide_eq_true_eq] at hp ⊢
  exact hp.1

theorem lost_concat_left : lost s (x ++ [c]) y ≤ lost s x y + 1 := by
  rw [lost, neighbours_concat, List.countP_append]
  exact Nat.add_le_add_left (List.countP_le_length.trans (by simp)) _

/-- Between words with one last letter, a common letter loses nothing. -/
theorem lost_concat_of_eq (h : x.getLastD s = y.getLastD s) :
    lost s (x ++ [c]) (y ++ [c]) ≤ lost s x y := by
  have hmem : (x.getLastD s, c) ∈ neighbours s (y ++ [c]) := by
    rw [neighbours_concat, h]
    simp
  rw [lost, neighbours_concat s x, List.countP_append]
  have hnone : [(x.getLastD s, c)].countP (fun p ↦ p ∉ neighbours s (y ++ [c])) = 0 := by
    simpa using hmem
  rw [hnone]
  exact lost_concat_right

/-- An edit loses at most three pairs, and one less where the last letters differ: that one is lost
by the next letter. -/
theorem Edits.lost_le {d : ℕ} (h : Edits d x y) :
    lost s x y ≤ 3 * d ∧ (x.getLastD s ≠ y.getLastD s → lost s x y + 1 ≤ 3 * d) := by
  induction h with
  | nil => exact ⟨le_rfl, fun hne ↦ absurd rfl hne⟩
  | @keep d x y c _ ih =>
    refine ⟨?_, fun hne ↦ absurd (by simp) hne⟩
    rcases eq_or_ne (x.getLastD s) (y.getLastD s) with heq | hne
    · exact (lost_concat_of_eq heq).trans ih.1
    · exact (lost_concat_left.trans (Nat.succ_le_succ lost_concat_right)).trans (ih.2 hne)
  | @substitute d x y c c' _ ih =>
    have h : lost s (x ++ [c]) (y ++ [c']) ≤ lost s x y + 1 :=
      lost_concat_left.trans (Nat.succ_le_succ lost_concat_right)
    exact ⟨by omega, fun _ ↦ by omega⟩
  | @delete d x y c _ ih =>
    have h : lost s (x ++ [c]) y ≤ lost s x y + 1 := lost_concat_left
    exact ⟨by omega, fun _ ↦ by omega⟩
  | @insert d x y c _ ih =>
    have h : lost s x (y ++ [c]) ≤ lost s x y := lost_concat_right
    exact ⟨by omega, fun _ ↦ by omega⟩
  | @swap d x y c c' _ ih =>
    have hx : lost s (x ++ [c, c']) y ≤ lost s x y + 2 := by
      have h := (lost_concat_left (s := s) (x := x ++ [c]) (y := y) (c := c')).trans
        (Nat.succ_le_succ lost_concat_left)
      simpa using h
    have hy : lost s (x ++ [c, c']) (y ++ [c', c]) ≤ lost s (x ++ [c, c']) y := by
      have hlast : lost s (x ++ [c, c']) ((y ++ [c']) ++ [c]) ≤ lost s (x ++ [c, c']) (y ++ [c']) :=
        lost_concat_right
      have h := hlast.trans lost_concat_right
      simpa using h
    exact ⟨by omega, fun _ ↦ by omega⟩

/-- **Words at a cost of a third of their length at most share a pair of neighbours**, between a
letter before and a letter after them. -/
theorem Edits.exists_shared_pair {d : ℕ} (h : Edits d x y) (hd : 3 * d ≤ x.length) (e : α) :
    ∃ p, p ∈ neighbours s (x ++ [e]) ∧ p ∈ neighbours s (y ++ [e]) := by
  by_contra hnone
  have hall : lost s (x ++ [e]) (y ++ [e]) = (neighbours s (x ++ [e])).length := by
    refine List.countP_eq_length.2 fun p hp ↦ ?_
    simpa using fun hp' ↦ hnone ⟨p, hp, hp'⟩
  have hle := (h.keep e).lost_le (s := s)
  rw [hall, length_neighbours, List.length_append] at hle
  have := hle.1
  simp only [List.length_singleton] at this
  omega

end Lost

end Edit
