import Proofmark.Aml.NameLaws

/-!
# Disguised names

A letter of the homoglyph table stands for its image, and an invisible character for nothing. Names
that differ in this only are normalised alike (`fold_of_disguised`), but for five Greek capitals:
their lower-case letters have another image, or none, and the table is read after the case is gone.
-/

namespace Proofmark.Aml

open CharacterData

/-- `t` is `s` with some letters of the table replaced by their images, and with invisible
characters. -/
inductive Disguised : Str → Str → Prop
  | nil : Disguised [] []
  | same (u : ℕ) {s t : Str} : Disguised s t → Disguised (u :: s) (u :: t)
  | image {u : ℕ} {c : Char} {s t : Str} : homoglyphTable.lookup u = some c → Disguised s t →
      Disguised (u :: s) (c.toNat :: t)
  | invisible {u : ℕ} {s t : Str} : isInvisible u = true → Disguised s t → Disguised s (u :: t)

/-- Capitals whose lower-case letter has not their image: `Ζ`, `Η`, `Μ`, `Ν` and `Υ`. -/
def lateCapitals : List ℕ :=
  [0x396, 0x397, 0x39C, 0x39D, 0x3A5]

/-! ### The table -/

/-- What the rest relies on of a letter of the table and its image. -/
theorem table_spec {k : ℕ} {c : Char} (h : homoglyphTable.lookup k = some c) :
    (isInvisible k = false ∧ halfWidth k = k ∧ k ≠ 0x3A3) ∧
      (isInvisible c.toNat = false ∧ halfWidth c.toNat = c.toNat ∧ c.toNat ≠ 0x3A3 ∧
        homoglyph c.toNat = c.toNat) ∧
      (homoglyph (lowerKey k) = c.toNat ↔ k ∉ lateCapitals) :=
  table_forall (P := fun k c ↦ (isInvisible k = false ∧ halfWidth k = k ∧ k ≠ 0x3A3) ∧
    (isInvisible c.toNat = false ∧ halfWidth c.toNat = c.toNat ∧ c.toNat ≠ 0x3A3 ∧
      homoglyph c.toNat = c.toNat) ∧
    (homoglyph (lowerKey k) = c.toNat ↔ k ∉ lateCapitals)) (by decide) h

/-- An image is a letter that only itself comes to. -/
theorem image_spec {k : ℕ} {c : Char} (h : homoglyphTable.lookup k = some c) :
    isDiacritic c.toNat = false ∧ isSpace c.toNat = false ∧ c.toNat ≠ 0x20 ∧ c.toNat ≠ 0x27 ∧
      apostrophe c.toNat = c.toNat :=
  table_forall (P := fun _ c ↦ isDiacritic c.toNat = false ∧ isSpace c.toNat = false ∧
    c.toNat ≠ 0x20 ∧ c.toNat ≠ 0x27 ∧ apostrophe c.toNat = c.toNat) (by decide) h

/-- A unit that is no surrogate is a code point of its own. -/
theorem eq_singleton_of_mem {p : Str} (hp : Whole p ∨ ∃ u, isSurrogate u = true ∧ p = [u]) {u : ℕ}
    (hlt : u < 0xD800) (hu : u ∈ p) : p = [u] := by
  rcases hp with (⟨v, -, rfl⟩ | ⟨hi, lo, hhi, hlo, rfl⟩) | ⟨v, -, rfl⟩
  · rw [List.mem_singleton.1 hu]
  · simp only [isHighSurrogate, isLowSurrogate, Bool.and_eq_true, decide_eq_true_eq] at hhi hlo
    rcases List.mem_pair.1 hu with h | h <;> omega
  · rw [List.mem_singleton.1 hu]

/-! ### Code points that stand for each other -/

/-- The same code point, or a letter of the table and its image. -/
def StandsFor (p q : Str) : Prop :=
  p = q ∨ ∃ k c, homoglyphTable.lookup k = some c ∧ p = [k] ∧ q = [c.toNat]

variable {U : Unicode} {D : CharacterData}

/-- The units of one code point. -/
theorem standsFor_of_forall₂ {r : ℕ → Prop} {p q : Str}
    (hp : Whole p ∨ ∃ u, isSurrogate u = true ∧ p = [u])
    (h : List.Forall₂ (fun u v ↦ u = v ∨ r u ∧ ∃ c : Char, homoglyphTable.lookup u = some c ∧
      v = c.toNat) p q) :
    p = q ∨ ∃ k c, r k ∧ homoglyphTable.lookup k = some c ∧ p = [k] ∧ q = [c.toNat] := by
  have hone : ∀ u, p = [u] → p = q ∨
      ∃ k c, r k ∧ homoglyphTable.lookup k = some c ∧ p = [k] ∧ q = [c.toNat] := by
    rintro u rfl
    obtain _ | ⟨hu, hrest⟩ := h
    cases hrest
    rcases hu with rfl | ⟨hr, c, hc, rfl⟩
    · exact .inl rfl
    · exact .inr ⟨u, c, hr, hc, rfl, rfl⟩
  rcases hp with (⟨u, -, hp⟩ | ⟨hi, lo, hhi, hlo, rfl⟩) | ⟨u, -, hp⟩
  · exact hone u hp
  · have hfixed : ∀ u v, isSurrogate u = true → (u = v ∨ r u ∧ ∃ c : Char,
        homoglyphTable.lookup u = some c ∧ v = c.toNat) → u = v := by
      rintro u v hu (rfl | ⟨-, c, hc, rfl⟩)
      · rfl
      · rw [isSurrogate_eq_false_iff.2 (.inl (table_lt hc).1)] at hu
        cases hu
    obtain _ | ⟨hh, hrest⟩ := h
    obtain _ | ⟨hl, hnil⟩ := hrest
    cases hnil
    refine .inl ?_
    rw [hfixed hi _ (by rw [isSurrogate, hhi]; rfl) hh,
      hfixed lo _ (by rw [isSurrogate, hlo, Bool.or_true]) hl]
  · exact hone u hp

theorem casedNext_congr (hD : D.Lawful) {ps qs : List Str} (h : List.Forall₂ StandsFor ps qs) :
    D.casedNext ps = D.casedNext qs := by
  induction h with
  | nil => rfl
  | @cons p q ps qs hpq _ ih =>
    rw [CharacterData.casedNext, CharacterData.casedNext, ih]
    rcases hpq with rfl | ⟨k, c, hc, rfl, rfl⟩
    · rfl
    · rw [(hD.key k c hc).1, (hD.key k c hc).2.1]

/-- A code point and one that stands for it in lower case. -/
theorem lowerPoint_congr (hD : D.Lawful) {p : Str} {before before' after after' : List Str}
    (hbefore : List.Forall₂ StandsFor before before')
    (hafter : List.Forall₂ StandsFor after after') :
    D.lowerPoint before after p = D.lowerPoint before' after' p := by
  rw [CharacterData.lowerPoint, CharacterData.lowerPoint, casedNext_congr hD hbefore,
    casedNext_congr hD hafter]

theorem lowerPoint_key (hD : D.Lawful) {k : ℕ} {c : Char} (hc : homoglyphTable.lookup k = some c)
    (before after : List Str) : D.lowerPoint before after [k] = [[lowerKey k]] := by
  rw [CharacterData.lowerPoint, if_neg, (hD.key k c hc).2.2.1]
  rintro ⟨h, -⟩
  exact (table_spec hc).1.2.2 (List.cons.inj h).1

theorem lowerPoint_image (hD : D.Lawful) {k : ℕ} {c : Char}
    (hc : homoglyphTable.lookup k = some c) (before after : List Str) :
    D.lowerPoint before after [c.toNat] = [[c.toNat]] := by
  rw [CharacterData.lowerPoint, if_neg, (hD.image k c hc).1]
  rintro ⟨h, -⟩
  exact (table_spec hc).2.1.2.2.1 (List.cons.inj h).1

/-! ### No difference -/

/-- Letters that are no late capitals come to their images. -/
theorem lowerPoints_congr (hD : D.Lawful) {ps qs : List Str}
    (h : List.Forall₂ (fun p q ↦ p = q ∨ ∃ k c, k ∉ lateCapitals ∧
      homoglyphTable.lookup k = some c ∧ p = [k] ∧ q = [c.toNat]) ps qs)
    {before before' : List Str} (hbefore : List.Forall₂ StandsFor before before') :
    (D.lowerPoints before ps).flatten.map (List.map homoglyph) =
      (D.lowerPoints before' qs).flatten.map (List.map homoglyph) := by
  have hstands : ∀ {p q : Str}, (p = q ∨ ∃ k c, k ∉ lateCapitals ∧
      homoglyphTable.lookup k = some c ∧ p = [k] ∧ q = [c.toNat]) → StandsFor p q :=
    fun h ↦ h.imp_right fun ⟨k, c, _, hc, hp, hq⟩ ↦ ⟨k, c, hc, hp, hq⟩
  induction h generalizing before before' with
  | nil => rfl
  | @cons p q ps qs hpq hrest ih =>
    rw [CharacterData.lowerPoints, CharacterData.lowerPoints, List.flatten_cons, List.flatten_cons,
      List.map_append, List.map_append, ih (.cons (hstands hpq) hbefore)]
    congr 1
    rcases hpq with rfl | ⟨k, c, hk, hc, rfl, rfl⟩
    · rw [lowerPoint_congr hD hbefore (hrest.imp fun _ _ ↦ hstands)]
    · rw [lowerPoint_key hD hc, lowerPoint_image hD hc, List.map_singleton, List.map_singleton,
        List.map_singleton, List.map_singleton, (table_spec hc).2.2.2 hk,
        (table_spec hc).2.1.2.2.2]

/-- The visible units of a disguised name, in half width. -/
theorem Disguised.forall₂ {s t : Str} (h : Disguised s t) (hs : ∀ u ∈ s, u ∉ lateCapitals) :
    List.Forall₂ (fun u v ↦ u = v ∨ u ∉ lateCapitals ∧ ∃ c : Char,
      homoglyphTable.lookup u = some c ∧ v = c.toNat)
      (toHalfWidth (s.filter fun u ↦ !isInvisible u))
      (toHalfWidth (t.filter fun u ↦ !isInvisible u)) := by
  induction h with
  | nil => exact .nil
  | same u _ ih =>
    obtain ⟨-, hs⟩ := List.forall_mem_cons.1 hs
    rw [List.filter_cons, List.filter_cons]
    split
    · exact .cons (.inl rfl) (ih hs)
    · exact ih hs
  | @image u c s t hc _ ih =>
    obtain ⟨hu, hs⟩ := List.forall_mem_cons.1 hs
    obtain ⟨⟨hvisible, hhalf, -⟩, ⟨hvisible', hhalf', -⟩, -⟩ := table_spec hc
    rw [List.filter_cons, List.filter_cons, hvisible, hvisible']
    refine .cons (.inr ?_) (ih hs)
    rw [hhalf, hhalf']
    exact ⟨hu, c, hc, rfl⟩
  | invisible hu _ ih =>
    rw [List.filter_cons, hu]
    exact ih hs

/-- **Disguises are seen through**, unless a late capital is among the letters. -/
theorem fold_of_disguised (hU : U.Follows D) (hD : D.Lawful) {s t : Str} (h : Disguised s t)
    (hs : ∀ u ∈ s, u ∉ lateCapitals) : U.fold t = U.fold s := by
  have hkeeps : ∀ u v, (u = v ∨ u ∉ lateCapitals ∧ ∃ c : Char,
      homoglyphTable.lookup u = some c ∧ v = c.toNat) → isHighSurrogate u = isHighSurrogate v ∧
        isLowSurrogate u = isLowSurrogate v := by
    rintro u v (rfl | ⟨-, c, hc, rfl⟩)
    · exact ⟨rfl, rfl⟩
    · obtain ⟨hu, hv⟩ := table_lt hc
      have hu' := isSurrogate_eq_false_iff.2 (.inl hu)
      have hv' := isSurrogate_eq_false_iff.2 (.inl hv)
      rw [isSurrogate, Bool.or_eq_false_iff] at hu' hv'
      rw [hu'.1, hu'.2, hv'.1, hv'.2]
      exact ⟨rfl, rfl⟩
  have hunits := points_forall₂ hkeeps (h.forall₂ hs)
  have hpoints := ((List.forall₂_and_left _ _).2 ⟨fun p hp ↦ whole_of_mem_points hp, hunits⟩).imp
    fun p q hpq ↦ standsFor_of_forall₂ hpq.1 hpq.2
  have hsame := lowerPoints_congr hD hpoints .nil
  rw [← points_fold hU hD, ← points_fold hU hD] at hsame
  rw [← flatten_points (U.fold t), ← hsame, flatten_points]

/-! ### A difference -/

theorem count_map_apostrophe {x : ℕ} (hx : x ≠ 0x27) (happ : apostrophe x = x) (s : Str) :
    (s.map apostrophe).count x = s.count x := by
  induction s with
  | nil => rfl
  | cons u s ih =>
    have hiff : apostrophe u = x ↔ u = x := by
      constructor
      · intro h
        rw [apostrophe] at h
        split at h
        · exact absurd h.symm hx
        · exact h
      · rintro rfl
        exact happ
    rw [List.map_cons, List.count_cons, List.count_cons, ih]
    simp only [beq_iff_eq, hiff]

theorem count_collapse {x : ℕ} (hx : isSpace x = false) (hne : x ≠ 0x20) (b : Bool) (s : Str) :
    (collapseSpaces b s).count x = s.count x := by
  induction s generalizing b with
  | nil => rfl
  | cons u s ih =>
    rw [collapseSpaces, List.count_cons]
    split
    next hu =>
      have hux : u ≠ x := by
        rintro rfl
        rw [hx] at hu
        cases hu
      have hnone : (if b then [] else [0x20] : Str).count x = 0 := by
        cases b
        · exact List.count_eq_zero.2 fun h ↦ hne (List.mem_singleton.1 h)
        · rfl
      rw [List.count_append, ih, hnone]
      simp [hux]
    next => rw [List.count_cons, ih]

theorem count_trim {x : ℕ} (hx : isSpace x = false) (s : Str) : (trim s).count x = s.count x := by
  have hdrop : ∀ t : Str, (t.dropWhile isSpace).count x = t.count x := by
    intro t
    induction t with
    | nil => rfl
    | cons u t ih =>
      rw [List.dropWhile_cons]
      split
      next hu =>
        have hux : u ≠ x := by
          rintro rfl
          rw [hx] at hu
          cases hu
        rw [ih, List.count_cons_of_ne hux]
      next => rfl
  rw [trim, List.rdropWhile, List.count_reverse, hdrop, List.count_reverse, hdrop]

/-- A letter is counted through the last steps. -/
theorem count_finish (hU : U.Follows D) {k : ℕ} {c : Char}
    (hc : homoglyphTable.lookup k = some c) (hD : D.Lawful) (s : Str) :
    (U.finish s).count c.toNat = s.count c.toNat := by
  obtain ⟨hdiacritic, hspace, hblank, hquote, happ⟩ := image_spec hc
  have hpunctuation : ∀ t, (U.punctuationToSpace t).count c.toNat = t.count c.toNat := by
    intro t
    conv_rhs => rw [← flatten_points t]
    rw [Unicode.punctuationToSpace, List.count_flatMap, List.count_flatten]
    congr 1
    refine List.map_congr_left fun p hp ↦ ?_
    rw [Function.comp_apply]
    by_cases hk : U.keep p = true
    · rw [if_pos hk]
    · have hnot : c.toNat ∉ p := by
        intro hmem
        have hpc := eq_singleton_of_mem (whole_of_mem_points hp) (table_lt hc).2 hmem
        rw [Unicode.keep, hU.isLetterOrNumber, hpc, (hD.image k c hc).2.2, Bool.true_or] at hk
        exact hk rfl
      rw [if_neg hk, List.count_eq_zero.2 hnot, List.count_eq_zero]
      exact fun h ↦ hblank (List.mem_singleton.1 h)
  show (trim (collapseSpaces false (U.punctuationToSpace
    ((s.filter fun u ↦ !isDiacritic u).map apostrophe)))).count c.toNat = _
  rw [count_trim hspace, count_collapse hspace hblank, hpunctuation,
    count_map_apostrophe hquote happ, List.count_filter]
  rw [hdiacritic]
  rfl

theorem reorder_perm (ps : List Str) : (D.reorder ps).Perm ps := by
  have hinsert : ∀ (p : Str) (l : List Str), (D.insertMark p l).Perm (p :: l) := by
    intro p l
    induction l with
    | nil => exact List.Perm.refl _
    | cons q l ih =>
      rw [CharacterData.insertMark]
      split
      · exact (ih.cons q).trans (List.Perm.swap p q l)
      · exact List.Perm.refl _
  induction ps with
  | nil => exact List.Perm.refl _
  | cons p ps ih => exact (hinsert p _).trans (ih.cons p)

/-- How often a letter occurs in a normalised name. -/
theorem count_normalizeName (hU : U.Follows D) (hD : D.Lawful) {k : ℕ} {c : Char}
    (hc : homoglyphTable.lookup k = some c) (s : Str) :
    (U.normalizeName s).count c.toNat =
      (D.steps (D.lowerPoints [] (points (toHalfWidth
        (s.filter fun u ↦ !isInvisible u)))).flatten).flatten.count c.toNat := by
  have hnfd : U.nfd (U.fold s) = (D.reorder (D.steps (D.lowerPoints [] (points (toHalfWidth
      (s.filter fun u ↦ !isInvisible u)))).flatten)).flatten := by
    rw [hU.nfd, CharacterData.nfd, points_fold hU hD]
    rfl
  rw [Unicode.normalizeName, count_finish hU hc hD, hnfd]
  exact (reorder_perm _).flatten.count_eq _

/-- Every occurrence of a letter of the table replaced by its image. -/
def replaceKey (k : ℕ) (c : Char) (u : ℕ) : ℕ :=
  if u = k then c.toNat else u

theorem disguised_replaceKey {k : ℕ} {c : Char} (hc : homoglyphTable.lookup k = some c) (s : Str) :
    Disguised s (s.map (replaceKey k c)) := by
  induction s with
  | nil => exact .nil
  | cons u s ih =>
    rw [List.map_cons, replaceKey]
    split
    next h =>
      subst h
      exact .image hc ih
    next => exact .same u ih

theorem steps_append (l m : List Str) : D.steps (l ++ m) = D.steps l ++ D.steps m := by
  rw [CharacterData.steps, List.map_append, List.flatMap_append]
  rfl

/-- A late capital comes to another letter than its image. -/
theorem count_late (hD : D.Lawful) {k : ℕ} {c : Char} (hc : homoglyphTable.lookup k = some c)
    (hk : k ∈ lateCapitals) : (D.steps [[lowerKey k]]).flatten.count c.toNat = 0 ∧
      (D.steps [[c.toNat]]).flatten.count c.toNat = 1 := by
  constructor
  · have hdecompose : D.decompose [homoglyph (lowerKey k)] = [[homoglyph (lowerKey k)]] := by
      rcases homoglyph_cases (lowerKey k) with h | ⟨c', hc', h⟩
      · rw [h, (hD.key k c hc).2.2.2]
      · rw [h, (hD.image _ _ hc').2.1]
    have hsteps : D.steps [[lowerKey k]] = [[homoglyph (lowerKey k)]] := by
      rw [CharacterData.steps, List.map_singleton, List.map_singleton, List.flatMap_singleton,
        hdecompose]
    rw [hsteps, List.flatten_singleton, List.count_eq_zero]
    intro h
    exact (not_congr (table_spec hc).2.2).2 (not_not.2 hk) (List.mem_singleton.1 h).symm
  · have hsteps : D.steps [[c.toNat]] = [[c.toNat]] := by
      rw [CharacterData.steps, List.map_singleton, List.map_singleton, List.flatMap_singleton,
        (table_spec hc).2.1.2.2.2, (hD.image k c hc).2.1]
    rw [hsteps, List.flatten_singleton, List.count_singleton_self]

/-- Each late capital that is replaced makes one image more. -/
theorem count_lowerPoints (hD : D.Lawful) {k : ℕ} {c : Char}
    (hc : homoglyphTable.lookup k = some c) (hk : k ∈ lateCapitals) {ps : List Str}
    (hps : ∀ p ∈ ps, Whole p ∨ ∃ u, isSurrogate u = true ∧ p = [u]) {before before' : List Str}
    (hbefore : List.Forall₂ StandsFor before before') :
    (D.steps (D.lowerPoints before' (ps.map (List.map (replaceKey k c)))).flatten).flatten.count
        c.toNat =
      (D.steps (D.lowerPoints before ps).flatten).flatten.count c.toNat + ps.count [k] := by
  have hpoint : ∀ p : Str, (Whole p ∨ ∃ u, isSurrogate u = true ∧ p = [u]) → p ≠ [k] →
      p.map (replaceKey k c) = p := by
    intro p hp hne
    have hfixed : ∀ u ∈ p, u ≠ k := by
      rintro u hu rfl
      exact hne (eq_singleton_of_mem hp (table_lt hc).1 hu)
    refine (List.map_congr_left fun u hu ↦ ?_).trans (List.map_id _)
    exact if_neg (hfixed u hu)
  have hstands : ∀ p : Str, (Whole p ∨ ∃ u, isSurrogate u = true ∧ p = [u]) →
      StandsFor p (p.map (replaceKey k c)) := by
    intro p hp
    by_cases hpk : p = [k]
    · refine .inr ⟨k, c, hc, hpk, ?_⟩
      rw [hpk, List.map_singleton, replaceKey, if_pos rfl]
    · exact .inl (hpoint p hp hpk).symm
  induction ps generalizing before before' with
  | nil => rfl
  | cons p ps ih =>
    obtain ⟨hp, hps⟩ := List.forall_mem_cons.1 hps
    have hafter : List.Forall₂ StandsFor ps (ps.map (List.map (replaceKey k c))) := by
      rw [List.forall₂_map_right_iff, List.forall₂_same]
      exact fun q hq ↦ hstands q (hps q hq)
    rw [List.map_cons, CharacterData.lowerPoints, CharacterData.lowerPoints, List.flatten_cons,
      List.flatten_cons, steps_append, steps_append, List.flatten_append, List.flatten_append,
      List.count_append, List.count_append, ih hps (.cons (hstands p hp) hbefore), List.count_cons]
    by_cases hpk : p = [k]
    · have hmap : p.map (replaceKey k c) = [c.toNat] := by
        rw [hpk, List.map_singleton, replaceKey, if_pos rfl]
      obtain ⟨hzero, hone⟩ := count_late hD hc hk
      rw [hmap, lowerPoint_image hD hc, hone, hpk, lowerPoint_key hD hc, hzero, if_pos (by simp)]
      omega
    · rw [hpoint p hp hpk, lowerPoint_congr hD hbefore hafter, if_neg (by simpa using hpk)]
      omega

/-- The image of a late capital is normalised to another name. -/
theorem normalizeName_ne_of_late (hU : U.Follows D) (hD : D.Lawful) {k : ℕ} {c : Char}
    (hc : homoglyphTable.lookup k = some c) (hk : k ∈ lateCapitals) {s : Str} (hs : k ∈ s) :
    U.normalizeName (s.map (replaceKey k c)) ≠ U.normalizeName s := by
  intro heq
  obtain ⟨⟨hvisible, hhalf, -⟩, ⟨hvisible', hhalf', -⟩, -⟩ := table_spec hc
  have hkeeps : KeepsSurrogates (replaceKey k c) := by
    intro u
    rw [replaceKey]
    split
    next h =>
      rw [h]
      exact .inr ⟨isSurrogate_eq_false_iff.2 (.inl (table_lt hc).1),
        isSurrogate_eq_false_iff.2 (.inl (table_lt hc).2)⟩
    next => exact .inl rfl
  have hlarge : ∀ k ∈ lateCapitals, 0x396 ≤ k := by decide
  have hunits : toHalfWidth ((s.map (replaceKey k c)).filter fun u ↦ !isInvisible u) =
      (toHalfWidth (s.filter fun u ↦ !isInvisible u)).map (replaceKey k c) := by
    have hfilter : ((fun u ↦ !isInvisible u) ∘ replaceKey k c) = fun u ↦ !isInvisible u := by
      funext u
      rw [Function.comp_apply, replaceKey]
      split
      next h => rw [h, hvisible, hvisible']
      next => rfl
    rw [List.filter_map, hfilter, toHalfWidth, toHalfWidth, List.map_map, List.map_map]
    refine List.map_congr_left fun u _ ↦ ?_
    rw [Function.comp_apply, Function.comp_apply, replaceKey]
    split
    next h => rw [h, hhalf, hhalf', replaceKey, if_pos rfl]
    next h =>
      have hle := hlarge k hk
      rw [replaceKey, if_neg]
      rw [halfWidth]
      split_ifs <;> omega
  have hmem : [k] ∈ points (toHalfWidth (s.filter fun u ↦ !isInvisible u)) := by
    have hunit : k ∈ toHalfWidth (s.filter fun u ↦ !isInvisible u) := by
      have hk' := List.mem_map_of_mem (f := halfWidth)
        (List.mem_filter.2 ⟨hs, by rw [hvisible]; rfl⟩ : k ∈ s.filter fun u ↦ !isInvisible u)
      rwa [hhalf] at hk'
    rw [← flatten_points (toHalfWidth _)] at hunit
    obtain ⟨p, hp, hkp⟩ := List.mem_flatten.1 hunit
    rwa [eq_singleton_of_mem (whole_of_mem_points hp) (table_lt hc).1 hkp] at hp
  have hcount := congrArg (List.count c.toNat) heq
  rw [count_normalizeName hU hD hc, count_normalizeName hU hD hc, hunits, hkeeps.points_map,
    count_lowerPoints hD hc hk (fun p hp ↦ whole_of_mem_points hp) .nil] at hcount
  have hpos := List.count_pos_iff.2 hmem
  omega

/-! ### The laws -/

/-- **The laws of normalisation, exactly.** A name comes back from its normalisation and no
disguise of it makes a difference, if and only if no step changes a letter that it comes to and
there is no late capital in it. -/
theorem normalizeName_laws_iff (hU : U.Follows D) (hD : D.Lawful) (s : Str) :
    (U.normalizeName (U.normalizeName s) = U.normalizeName s ∧
      ∀ t, Disguised s t → U.normalizeName t = U.normalizeName s) ↔
      (∀ p ∈ D.letters (U.base s), D.Settled p) ∧ ∀ u ∈ s, u ∉ lateCapitals := by
  rw [normalizeName_idempotent_iff hU hD]
  refine and_congr_right fun _ ↦ ⟨fun h u hu hlate ↦ ?_, fun hs t ht ↦ ?_⟩
  · have hkey : ∀ k ∈ lateCapitals, (homoglyphTable.lookup k).isSome = true := by decide
    obtain ⟨c, hc⟩ := Option.isSome_iff_exists.1 (hkey u hlate)
    exact normalizeName_ne_of_late hU hD hc hlate hu (h _ (disguised_replaceKey hc s))
  · rw [Unicode.normalizeName, fold_of_disguised hU hD ht hs, Unicode.normalizeName]

/-! ### Names to try it on -/

namespace SampleData

def isLatin (u : ℕ) : Bool :=
  (0x41 ≤ u && u ≤ 0x5A) || (0x61 ≤ u && u ≤ 0x7A)

def isGreek (u : ℕ) : Bool :=
  0x391 ≤ u && u ≤ 0x3CE && u ≠ 0x3A2

def isCyrillic (u : ℕ) : Bool :=
  0x400 ≤ u && u ≤ 0x45F

def lower (u : ℕ) : ℕ :=
  if 0x41 ≤ u ∧ u ≤ 0x5A then u + 0x20 else if u = 0x3A2 then u else lowerKey u

def isLetter (u : ℕ) : Bool :=
  isLatin u || isGreek u || isCyrillic u

/-- The composites among the Cyrillic letters, only `ё` and its capital. -/
def decompose (u : ℕ) : List Str :=
  if u = 0x451 then [[0x435], [0x308]] else if u = 0x401 then [[0x415], [0x308]] else [[u]]

end SampleData

/-- Latin, Greek and Cyrillic letters, and the common marks. -/
def sampleData : CharacterData where
  lower
    | [u] => [[SampleData.lower u]]
    | p => [p]
  cased
    | [u] => SampleData.isLetter u
    | _ => false
  caseIgnorable
    | [u] => isDiacritic u || u == 0x27
    | _ => false
  decompose
    | [u] => SampleData.decompose u
    | p => [p]
  combiningClass
    | [u] => if isDiacritic u then 230 else 0
    | _ => 0
  isLetterOrNumber
    | [u] => SampleData.isLetter u
    | _ => false

def greekUnicode : Unicode where
  toLowerCase := sampleData.toLowerCase
  toUpperCase s := s
  nfd := sampleData.nfd
  nfc s := s
  isLetterOrNumber := sampleData.isLetterOrNumber

theorem greekUnicode_follows : greekUnicode.Follows sampleData :=
  ⟨fun _ ↦ rfl, fun _ ↦ rfl, fun _ ↦ rfl⟩

instance (p : Str) : Decidable (D.Settled p) :=
  decidable_of_iff (p.map halfWidth = p ∧ D.lower p = [p] ∧ p.map homoglyph = p ∧
    D.decompose p = [p])
    ⟨fun ⟨h, l, g, d⟩ ↦ ⟨h, l, g, d⟩, fun ⟨h, l, g, d⟩ ↦ ⟨h, l, g, d⟩⟩

/-- A letter of the sample is one unit below `U+0460`. -/
theorem sampleLetter_spec {p : Str} (h : sampleData.isLetterOrNumber p = true) :
    ∃ u < 0x460, p = [u] ∧ SampleData.isLetter u = true := by
  rcases p with - | ⟨u, - | ⟨v, p⟩⟩
  · cases h
  · refine ⟨u, ?_, rfl, h⟩
    have hletter : SampleData.isLetter u = true := h
    simp only [SampleData.isLetter, SampleData.isLatin, SampleData.isGreek, SampleData.isCyrillic,
      Bool.or_eq_true, Bool.and_eq_true, decide_eq_true_eq] at hletter
    omega
  · cases h

theorem sampleLetter_of_isLetter {p : Str} (h : sampleData.isLetter p = true) :
    ∃ u < 0x460, p = [u] ∧ SampleData.isLetter u = true := by
  obtain ⟨u, hu, hmap, hletter⟩ := sampleLetter_spec (p := p.map apostrophe) h
  obtain ⟨v, rfl, rfl⟩ := List.map_eq_singleton_iff.1 hmap
  rw [apostrophe] at hu hletter
  split at hletter
  next => exact absurd hletter (by decide)
  next hv =>
    rw [if_neg hv] at hu
    exact ⟨v, hu, rfl, hletter⟩

theorem sampleData_lawful : sampleData.Lawful where
  lower_whole := by
    rintro p (⟨u, hu, rfl⟩ | ⟨hi, lo, hhi, hlo, rfl⟩)
    · refine ⟨List.cons_ne_nil _ _, fun x hx ↦ ?_⟩
      rw [List.mem_singleton.1 hx]
      refine .inl ⟨_, ?_, rfl⟩
      rw [isSurrogate_eq_false_iff] at hu ⊢
      simp only [SampleData.lower, lowerKey]
      split_ifs <;> omega
    · refine ⟨List.cons_ne_nil _ _, fun x hx ↦ ?_⟩
      rw [List.mem_singleton.1 hx]
      exact .inr ⟨hi, lo, hhi, hlo, rfl⟩
  decompose_whole := by
    rintro p (⟨u, hu, rfl⟩ | ⟨hi, lo, hhi, hlo, rfl⟩)
    · show SampleData.decompose u ≠ [] ∧ ∀ x ∈ SampleData.decompose u, Whole x
      rw [SampleData.decompose]
      split_ifs
      · refine ⟨List.cons_ne_nil _ _, fun x hx ↦ ?_⟩
        rcases List.mem_pair.1 hx with rfl | rfl <;> exact whole_of_lt (by decide)
      · refine ⟨List.cons_ne_nil _ _, fun x hx ↦ ?_⟩
        rcases List.mem_pair.1 hx with rfl | rfl <;> exact whole_of_lt (by decide)
      · refine ⟨List.cons_ne_nil _ _, fun x hx ↦ ?_⟩
        rw [List.mem_singleton.1 hx]
        exact .inl ⟨u, hu, rfl⟩
    · refine ⟨List.cons_ne_nil _ _, fun x hx ↦ ?_⟩
      rw [List.mem_singleton.1 hx]
      exact .inr ⟨hi, lo, hhi, hlo, rfl⟩
  surrogate := by
    intro u hu
    have hlarge : 0xD800 ≤ u := by
      by_contra h
      rw [isSurrogate_eq_false_iff.2 (.inl (not_le.1 h))] at hu
      cases hu
    refine ⟨?_, ?_, ?_⟩
    · show [[SampleData.lower u]] = _
      rw [SampleData.lower, lowerKey, if_neg (by omega), if_neg (by omega), if_neg (by omega),
        if_neg (by omega)]
    · show SampleData.decompose u = _
      rw [SampleData.decompose, if_neg (by omega), if_neg (by omega)]
    · rw [Bool.eq_false_iff]
      intro h
      obtain ⟨v, hv, heq, -⟩ := sampleLetter_spec h
      rw [(List.cons.inj heq).1] at hlarge
      omega
  mark := by decide
  letter_units := by
    intro p _ h
    obtain ⟨u, hu, rfl, hletter⟩ := sampleLetter_spec h
    have hall : ∀ u < 0x460, SampleData.isLetter u = true →
        isInvisible u = false ∧ isDiacritic u = false ∧ isSpace u = false := by decide +kernel
    intro v hv
    rw [List.mem_singleton.1 hv]
    exact hall u hu hletter
  letter_class := by
    intro p _ h
    obtain ⟨u, hu, rfl, hletter⟩ := sampleLetter_spec h
    have hall : ∀ u < 0x460, SampleData.isLetter u = true →
        sampleData.combiningClass [u] = 0 := by decide +kernel
    exact hall u hu hletter
  sigma := by decide
  finalSigma := by decide
  letter_kept := by
    intro p _ h
    obtain ⟨u, hu, rfl, hletter⟩ := sampleLetter_of_isLetter h
    have hall : ∀ u < 0x460, SampleData.isLetter u = true →
        ∃ x ∈ sampleData.steps (sampleData.lower (([u] : Str).map halfWidth)),
          sampleData.isLetter x = true := by decide +kernel
    exact hall u hu hletter
  self_kept := by
    intro p _ h
    obtain ⟨u, hu, rfl, hletter⟩ := sampleLetter_of_isLetter h
    have hall : ∀ u < 0x460, SampleData.isLetter u = true →
        [u] ∈ sampleData.steps (sampleData.lower (([u] : Str).map halfWidth)) →
          sampleData.Settled [u] := by decide +kernel
    exact hall u hu hletter
  key k c := table_forall (P := fun k c ↦ sampleData.cased [k] = sampleData.cased [c.toNat] ∧
    sampleData.caseIgnorable [k] = sampleData.caseIgnorable [c.toNat] ∧
    sampleData.lower [k] = [[lowerKey k]] ∧ sampleData.decompose [lowerKey k] = [[lowerKey k]])
    (by decide)
  image k c := table_forall (P := fun _ c ↦ sampleData.lower [c.toNat] = [[c.toNat]] ∧
    sampleData.decompose [c.toNat] = [[c.toNat]] ∧ sampleData.isLetterOrNumber [c.toNat] = true)
    (by decide)

/-- `Реtrov`, with three letters of the table. -/
def sampleName : Str :=
  [0x420, 0x435, 0x74, 0x72, 0x43E, 0x76]

theorem normalizeName_laws_sampleName :
    greekUnicode.normalizeName (greekUnicode.normalizeName sampleName) =
        greekUnicode.normalizeName sampleName ∧
      ∀ t, Disguised sampleName t →
        greekUnicode.normalizeName t = greekUnicode.normalizeName sampleName :=
  (normalizeName_laws_iff greekUnicode_follows sampleData_lawful sampleName).2
    (by decide +kernel)

/-- `ё` comes to a Cyrillic letter that the table has, and `Μ` to one that it has not. -/
theorem normalizeName_laws_fail :
    greekUnicode.Follows sampleData ∧ sampleData.Lawful ∧
      greekUnicode.normalizeName (greekUnicode.normalizeName [0x451]) ≠
        greekUnicode.normalizeName [0x451] ∧
      Disguised [0x39C] [0x6D] ∧
      greekUnicode.normalizeName [0x6D] ≠ greekUnicode.normalizeName [0x39C] :=
  ⟨greekUnicode_follows, sampleData_lawful, by decide +kernel,
    .image (c := 'm') (by decide) .nil, by decide +kernel⟩

end Proofmark.Aml
