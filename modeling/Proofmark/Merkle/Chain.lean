import Mathlib.Data.List.Induction

/-!
# Running digests

A digest over a list, one item after another. `links` are the digests and items that are put
together on the way. Where these are told apart by what they give, and none of them gives the start
again, the last digest is known of one list only (`eq_of_foldl_eq`): length, items and order.
-/

namespace Chain

variable {δ β : Type*} (next : δ → β → δ)

/-- What is put together on the way. -/
def links (start : δ) : List β → List (δ × β)
  | [] => []
  | x :: l => (start, x) :: links (next start x) l

variable {next}

theorem links_concat (start : δ) (l : List β) (x : β) :
    links next start (l ++ [x]) = links next start l ++ [(l.foldl next start, x)] := by
  induction l generalizing start with
  | nil => rfl
  | cons y l ih => rw [List.cons_append, links, ih, links, List.foldl_cons, List.cons_append]

/-- **A running digest is known of one list.** -/
theorem eq_of_foldl_eq {start : δ} {a b : List β}
    (hinj : ∀ p ∈ links next start a, ∀ q ∈ links next start b,
      next p.1 p.2 = next q.1 q.2 → p = q)
    (ha : ∀ p ∈ links next start a, next p.1 p.2 ≠ start)
    (hb : ∀ q ∈ links next start b, next q.1 q.2 ≠ start)
    (h : a.foldl next start = b.foldl next start) : a = b := by
  induction a using List.reverseRecOn generalizing b with
  | nil =>
    rcases b.eq_nil_or_concat with rfl | ⟨b, y, rfl⟩
    · rfl
    · rw [List.concat_eq_append, links_concat] at hb
      rw [List.concat_eq_append, List.foldl_append] at h
      exact absurd h.symm (hb _ (List.mem_append_right _ List.mem_cons_self))
  | append_singleton a x ih =>
    rw [links_concat] at hinj ha
    rcases b.eq_nil_or_concat with rfl | ⟨b, y, rfl⟩
    · rw [List.foldl_append] at h
      exact absurd h (ha _ (List.mem_append_right _ List.mem_cons_self))
    · rw [List.concat_eq_append, links_concat] at hinj hb
      rw [List.concat_eq_append, List.foldl_append, List.foldl_append] at h
      have hlast : (a.foldl next start, x) = (b.foldl next start, y) :=
        hinj _ (List.mem_append_right _ List.mem_cons_self) _
          (List.mem_append_right _ List.mem_cons_self) h
      obtain ⟨hfold, rfl⟩ := Prod.mk.inj hlast
      have hab : a = b := ih
        (fun p hp q hq ↦ hinj p (List.mem_append_left _ hp) q (List.mem_append_left _ hq))
        (fun p hp ↦ ha p (List.mem_append_left _ hp))
        (fun q hq ↦ hb q (List.mem_append_left _ hq)) hfold
      rw [hab, List.concat_eq_append]

end Chain
