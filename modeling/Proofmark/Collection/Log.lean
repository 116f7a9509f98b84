import Mathlib.Data.List.Basic

/-!
# Logs

A log is a list that grows at its end. Where a longer log is split at an entry, the entry is the
new one, or the shorter log was split there already.
-/

namespace Log

variable {α : Type} {log before since later : List α} {new x y : α}

/-- A log split at an entry, after it grew. -/
theorem split_concat (h : log ++ [new] = before ++ x :: later) :
    (later = [] ∧ log = before ∧ new = x) ∨
      ∃ later', later = later' ++ [new] ∧ log = before ++ x :: later' := by
  rcases List.eq_nil_or_concat later with rfl | ⟨later', last, rfl⟩
  · obtain ⟨hlog, hlast⟩ := List.append_inj' h rfl
    exact .inl ⟨rfl, hlog, List.singleton_inj.1 hlast⟩
  · rw [List.concat_eq_append, ← List.cons_append, ← List.append_assoc] at h
    obtain ⟨hlog, hlast⟩ := List.append_inj' h rfl
    exact .inr ⟨later', by rw [List.concat_eq_append, List.singleton_inj.1 hlast], hlog⟩

/-- A log split at two entries, after it grew. -/
theorem split_concat_two (h : log ++ [new] = before ++ x :: (since ++ y :: later)) :
    (later = [] ∧ log = before ++ x :: since ∧ new = y) ∨
      ∃ later', later = later' ++ [new] ∧ log = before ++ x :: (since ++ y :: later') := by
  rw [← List.cons_append, ← List.append_assoc] at h
  rcases split_concat h with ⟨hlater, hlog, hnew⟩ | ⟨later', hlater, hlog⟩
  · exact .inl ⟨hlater, hlog, hnew⟩
  · rw [List.append_assoc, List.cons_append] at hlog
    exact .inr ⟨later', hlater, hlog⟩

end Log
