import Mathlib.Data.List.Chain
import Proofmark.Aml.CharacterData

/-!
# The laws of name normalisation

A name that is normalised comes back unchanged, and neither a letter of the homoglyph table in
place of its image nor an invisible character makes a difference: that is what `normalizeName` is
for. `normalizeName_laws_iff` says for which names it holds.

The letters of a name are what both laws turn on. `finish_spec` says that the last steps change
nothing but spaces, so a name is as good as the letters its characters come to.
-/

namespace Proofmark.Aml

open CharacterData

/-! ### Spaces -/

/-- A code point is one space or has none. -/
def Spaced (p : Str) : Prop :=
  (∃ u, isSpace u = true ∧ p = [u]) ∨ p ≠ [] ∧ ∀ u ∈ p, isSpace u = false

theorem collapse_append {p : Str} (hp : p ≠ []) (hspace : ∀ u ∈ p, isSpace u = false) (b : Bool)
    (s : Str) : collapseSpaces b (p ++ s) = p ++ collapseSpaces false s := by
  induction p generalizing b with
  | nil => exact absurd rfl hp
  | cons u p ih =>
    obtain ⟨hu, hrest⟩ := List.forall_mem_cons.1 hspace
    rw [List.cons_append, collapseSpaces, hu, if_neg Bool.false_ne_true]
    rcases p with - | ⟨v, p⟩
    · rfl
    · rw [ih (List.cons_ne_nil _ _) hrest]
      rfl

/-- Spaces are collapsed, and nothing else happens. -/
theorem collapse_flatten {g : Str → Bool} (hg : ∀ u, isSpace u = true → g [u] = false)
    {Q : List Str} (hQ : ∀ p ∈ Q, Spaced p) (b : Bool) :
    ∃ R : List Str, collapseSpaces b Q.flatten = R.flatten ∧ R.filter g = Q.filter g ∧
      ∀ p ∈ R, p = [0x20] ∨ p ∈ Q ∧ ∀ u ∈ p, isSpace u = false := by
  induction Q generalizing b with
  | nil => exact ⟨[], rfl, rfl, nofun⟩
  | cons p Q ih =>
    obtain ⟨hp, hrest⟩ := List.forall_mem_cons.1 hQ
    rcases hp with ⟨u, hu, rfl⟩ | ⟨hne, hspace⟩
    · obtain ⟨R, hR, hfilter, hmem⟩ := ih hrest true
      refine ⟨(if b then [] else [[0x20]]) ++ R, ?_, ?_, ?_⟩
      · rw [List.flatten_cons, List.singleton_append, collapseSpaces, if_pos hu, hR]
        cases b <;> rfl
      · rw [List.filter_append, hfilter, List.filter_cons, hg u hu]
        cases b
        · show ([[0x20]] : List Str).filter g ++ _ = _
          rw [List.filter_cons, hg 0x20 (by decide)]
          rfl
        · rfl
      · intro p hp
        rcases List.mem_append.1 hp with hp | hp
        · refine .inl ?_
          cases b
          · exact List.mem_singleton.1 hp
          · cases hp
        · exact (hmem p hp).imp_right fun h ↦ ⟨List.mem_cons_of_mem _ h.1, h.2⟩
    · obtain ⟨R, hR, hfilter, hmem⟩ := ih hrest false
      refine ⟨p :: R, ?_, ?_, ?_⟩
      · rw [List.flatten_cons, collapse_append hne hspace, hR, List.flatten_cons]
      · rw [List.filter_cons, List.filter_cons, hfilter]
      · rintro q hq
        rcases List.mem_cons.1 hq with rfl | hq
        · exact .inr ⟨List.mem_cons_self, hspace⟩
        · exact (hmem q hq).imp_right fun h ↦ ⟨List.mem_cons_of_mem _ h.1, h.2⟩

theorem dropWhile_flatten {g : Str → Bool} (hg : ∀ u, isSpace u = true → g [u] = false)
    {Q : List Str} (hQ : ∀ p ∈ Q, Spaced p) :
    ∃ R : List Str, Q.flatten.dropWhile isSpace = R.flatten ∧ R.filter g = Q.filter g ∧ R ⊆ Q := by
  induction Q with
  | nil => exact ⟨[], rfl, rfl, nofun⟩
  | cons p Q ih =>
    obtain ⟨hp, hrest⟩ := List.forall_mem_cons.1 hQ
    rcases hp with ⟨u, hu, rfl⟩ | ⟨hne, hspace⟩
    · obtain ⟨R, hR, hfilter, hsub⟩ := ih hrest
      refine ⟨R, ?_, ?_, List.Subset.trans hsub (List.subset_cons_self _ _)⟩
      · rw [List.flatten_cons, List.singleton_append, List.dropWhile_cons, if_pos hu, hR]
      · rw [hfilter, List.filter_cons, hg u hu, if_neg Bool.false_ne_true]
    · obtain ⟨u, p, rfl⟩ := List.exists_cons_of_ne_nil hne
      refine ⟨(u :: p) :: Q, ?_, rfl, List.Subset.refl _⟩
      rw [List.flatten_cons, List.cons_append, List.dropWhile_cons,
        hspace u List.mem_cons_self, if_neg Bool.false_ne_true]

theorem rdropWhile_flatten {g : Str → Bool} (hg : ∀ u, isSpace u = true → g [u] = false)
    {Q : List Str} (hQ : ∀ p ∈ Q, Spaced p) :
    ∃ R : List Str, Q.flatten.rdropWhile isSpace = R.flatten ∧ R.filter g = Q.filter g ∧ R ⊆ Q := by
  induction Q using List.reverseRecOn with
  | nil => exact ⟨[], rfl, rfl, nofun⟩
  | append_singleton Q p ih =>
    obtain ⟨hrest, hp⟩ := List.forall_mem_append.1 hQ
    rcases hp p (List.mem_singleton.2 rfl) with ⟨u, hu, rfl⟩ | ⟨hne, hspace⟩
    · obtain ⟨R, hR, hfilter, hsub⟩ := ih hrest
      refine ⟨R, ?_, ?_, List.Subset.trans hsub (List.subset_append_left _ _)⟩
      · rw [List.flatten_append, List.flatten_singleton, List.rdropWhile_concat_pos _ _ _ hu, hR]
      · rw [hfilter, List.filter_append, List.filter_cons, hg u hu, if_neg Bool.false_ne_true,
          List.filter_nil, List.append_nil]
    · obtain ⟨q, u, rfl⟩ := (List.eq_nil_or_concat' p).resolve_left hne
      refine ⟨Q ++ [q ++ [u]], ?_, rfl, List.Subset.refl _⟩
      have hu : ¬isSpace u = true := by
        rw [hspace u (List.mem_append_right _ (List.mem_singleton.2 rfl))]
        exact Bool.false_ne_true
      rw [List.flatten_append, List.flatten_singleton, ← List.append_assoc,
        List.rdropWhile_concat_neg _ _ _ hu]

/-! ### Normal spacing -/

/-- Every space is an ordinary one, and no two are next to each other. -/
structure SingleSpaced (s : Str) : Prop where
  ordinary : ∀ u ∈ s, isSpace u = true → u = 0x20
  apart : s.IsChain fun u v ↦ ¬(isSpace u = true ∧ isSpace v = true)

theorem singleSpaced_collapse (b : Bool) (s : Str) : SingleSpaced (collapseSpaces b s) ∧
    (b = true → ∀ u ∈ (collapseSpaces b s).head?, isSpace u = false) := by
  induction s generalizing b with
  | nil => exact ⟨⟨nofun, .nil⟩, fun _ ↦ nofun⟩
  | cons u s ih =>
    rw [collapseSpaces]
    by_cases hu : isSpace u = true
    · obtain ⟨hsingle, hhead⟩ := ih true
      rw [if_pos hu]
      cases b
      · refine ⟨⟨?_, ?_⟩, nofun⟩
        · intro v hv hspace
          rcases List.mem_cons.1 hv with rfl | hv
          · rfl
          · exact hsingle.ordinary v hv hspace
        · refine List.isChain_cons.2 ⟨fun v hv h ↦ ?_, hsingle.apart⟩
          rw [hhead rfl v hv] at h
          exact Bool.false_ne_true h.2
      · exact ⟨hsingle, hhead⟩
    · obtain ⟨hsingle, -⟩ := ih false
      rw [if_neg hu]
      refine ⟨⟨?_, ?_⟩, fun _ v hv ↦ ?_⟩
      · intro v hv hspace
        rcases List.mem_cons.1 hv with rfl | hv
        · exact absurd hspace hu
        · exact hsingle.ordinary v hv hspace
      · exact List.isChain_cons.2 ⟨fun v _ h ↦ hu h.1, hsingle.apart⟩
      · obtain rfl := Option.some.inj hv
        exact Bool.eq_false_iff.2 hu

theorem collapse_eq_self {s : Str} (hs : SingleSpaced s) {b : Bool}
    (hb : b = true → ∀ u ∈ s.head?, isSpace u = false) : collapseSpaces b s = s := by
  induction s generalizing b with
  | nil => rfl
  | cons u s ih =>
    obtain ⟨hnext, hchain⟩ := List.isChain_cons.1 hs.apart
    have hrest : SingleSpaced s := ⟨fun v hv ↦ hs.ordinary v (List.mem_cons_of_mem _ hv), hchain⟩
    rw [collapseSpaces]
    by_cases hu : isSpace u = true
    · have hfalse : b = false := by
        cases b
        · rfl
        · rw [hb rfl u rfl] at hu
          cases hu
      have hordinary := hs.ordinary u List.mem_cons_self hu
      rw [if_pos hu, hfalse, ih hrest fun _ v hv ↦ ?_, hordinary]
      · rfl
      · exact Bool.eq_false_iff.2 fun hv' ↦ hnext v hv ⟨hu, hv'⟩
    · rw [if_neg hu, ih hrest fun h ↦ absurd h Bool.false_ne_true]

theorem SingleSpaced.within {s t : Str} (hs : SingleSpaced s) (h : t <:+: s) : SingleSpaced t := by
  obtain ⟨a, b, rfl⟩ := h
  refine ⟨fun u hu ↦ hs.ordinary u ?_, hs.apart.left_of_append.right_of_append⟩
  exact List.mem_append_left _ (List.mem_append_right _ hu)

theorem dropWhile_eq_self_of_prefix {s t : Str} (h : t <+: s)
    (hs : s.dropWhile isSpace = s) : t.dropWhile isSpace = t := by
  cases t with
  | nil => rfl
  | cons u t =>
    obtain ⟨r, rfl⟩ := h
    rw [List.cons_append, List.dropWhile_cons] at hs
    split at hs
    · have hle := List.length_dropWhile_le isSpace (t ++ r)
      rw [hs, List.length_cons] at hle
      omega
    · rwa [List.dropWhile_cons, if_neg]

theorem trim_trim (s : Str) : trim (trim s) = trim s := by
  have hdrop : (trim s).dropWhile isSpace = trim s :=
    dropWhile_eq_self_of_prefix (List.rdropWhile_prefix _ _) (List.dropWhile_idempotent _ _)
  rw [trim, hdrop]
  exact List.rdropWhile_idempotent _ _

theorem trim_within (s : Str) : trim s <:+: s :=
  (List.rdropWhile_prefix _ _).isInfix.trans (List.dropWhile_suffix _).isInfix

/-! ### Units -/

theorem isSurrogate_eq_false_iff {u : ℕ} : isSurrogate u = false ↔ u < 0xD800 ∨ 0xDFFF < u := by
  rw [isSurrogate, isHighSurrogate, isLowSurrogate]
  simp only [Bool.or_eq_false_iff, Bool.and_eq_false_iff, decide_eq_false_iff_not]
  omega

theorem whole_of_lt {u : ℕ} (h : u < 0xD800) : Whole [u] :=
  .inl ⟨u, isSurrogate_eq_false_iff.2 (.inl h), rfl⟩

/-- A change of units that are no surrogates into such units. -/
def KeepsSurrogates (f : ℕ → ℕ) : Prop :=
  ∀ u, f u = u ∨ isSurrogate u = false ∧ isSurrogate (f u) = false

theorem KeepsSurrogates.points_map {f : ℕ → ℕ} (hf : KeepsSurrogates f) (s : Str) :
    points (s.map f) = (points s).map (List.map f) := by
  have hboth : ∀ u, isHighSurrogate (f u) = isHighSurrogate u ∧
      isLowSurrogate (f u) = isLowSurrogate u := by
    intro u
    rcases hf u with h | ⟨hu, hfu⟩
    · rw [h]
      exact ⟨rfl, rfl⟩
    · rw [isSurrogate, Bool.or_eq_false_iff] at hu hfu
      rw [hu.1, hu.2, hfu.1, hfu.2]
      exact ⟨rfl, rfl⟩
  exact Aml.points_map (fun u ↦ (hboth u).1) (fun u ↦ (hboth u).2) s

theorem KeepsSurrogates.whole {f : ℕ → ℕ} (hf : KeepsSurrogates f) {p : Str} (hp : Whole p) :
    Whole (p.map f) := by
  rcases hp with ⟨u, hu, rfl⟩ | ⟨h', l, hh, hl, rfl⟩
  · refine .inl ⟨f u, ?_, rfl⟩
    rcases hf u with heq | ⟨-, hfu⟩
    · rwa [heq]
    · exact hfu
  · have hfixed : ∀ u, isSurrogate u = true → f u = u := fun u hu ↦
      (hf u).resolve_right fun h ↦ by rw [hu] at h; exact Bool.noConfusion h.1
    rw [List.map_cons, List.map_cons, List.map_nil, hfixed h' (by rw [isSurrogate, hh]; rfl),
      hfixed l (by rw [isSurrogate, hl, Bool.or_true])]
    exact .inr ⟨h', l, hh, hl, rfl⟩

theorem homoglyph_cases (u : ℕ) : homoglyph u = u ∨
    ∃ c, homoglyphTable.lookup u = some c ∧ homoglyph u = c.toNat := by
  rcases h : homoglyphTable.lookup u with - | c
  · exact .inl (by rw [homoglyph, h]; rfl)
  · exact .inr ⟨c, rfl, by rw [homoglyph, h]; rfl⟩

/-- What holds of all rows of the table. -/
theorem table_forall {P : ℕ → Char → Prop} (h : ∀ x ∈ homoglyphTable, P x.1 x.2) {k : ℕ} {c : Char}
    (hk : homoglyphTable.lookup k = some c) : P k c := by
  obtain ⟨l, r, htable, -⟩ := List.lookup_eq_some_iff.1 hk
  exact h (k, c) (by rw [htable]; exact List.mem_append_right _ List.mem_cons_self)

/-- The letters of the table and their images are no surrogates. -/
theorem table_lt {k : ℕ} {c : Char} (h : homoglyphTable.lookup k = some c) :
    k < 0xD800 ∧ c.toNat < 0xD800 :=
  table_forall (P := fun k c ↦ k < 0xD800 ∧ c.toNat < 0xD800) (by decide) h

theorem homoglyph_keeps : KeepsSurrogates homoglyph := fun u ↦ by
  rcases homoglyph_cases u with h | ⟨c, hc, h⟩
  · exact .inl h
  · rw [h, isSurrogate_eq_false_iff, isSurrogate_eq_false_iff]
    exact .inr ⟨.inl (table_lt hc).1, .inl (table_lt hc).2⟩

theorem apostrophe_keeps : KeepsSurrogates apostrophe := fun u ↦ by
  rw [isSurrogate_eq_false_iff, isSurrogate_eq_false_iff, apostrophe]
  split
  · omega
  · exact .inl rfl

theorem halfWidth_keeps : KeepsSurrogates halfWidth := fun u ↦ by
  rw [isSurrogate_eq_false_iff, isSurrogate_eq_false_iff, halfWidth]
  split
  · omega
  · split
    · omega
    · exact .inl rfl

/-! ### The last steps -/

section Laws

variable {U : Unicode} {D : CharacterData}

/-- The letters and numbers of a string. -/
def CharacterData.letters (D : CharacterData) (s : Str) : List Str :=
  (points s).filter D.isLetterOrNumber

/-- A letter, a number, a space, an apostrophe or a hyphen. -/
def CharacterData.Plain (D : CharacterData) (p : Str) : Prop :=
  D.isLetterOrNumber p = true ∨ p = [0x20] ∨ p = [0x27] ∨ p = [0x2D]

/-- A kept code point is a letter, or a unit that separates words. -/
theorem keep_spec (hU : U.Follows D) (hD : D.Lawful) {s p : Str} (hp : p ∈ points s)
    (h : U.keep p = true) : Whole p ∧ (D.isLetterOrNumber p = true ∨
      ∃ u, (isSpace u = true ∨ u = 0x27 ∨ u = 0x2D) ∧ p = [u]) := by
  have hmarks : ∀ u, isSpace u = true ∨ u = 0x27 ∨ u = 0x2D → isSurrogate u = false := by
    intro u hu
    rw [isSurrogate_eq_false_iff]
    simp only [isSpace, Bool.or_eq_true, Bool.and_eq_true, decide_eq_true_eq] at hu
    omega
  rw [Unicode.keep, hU.isLetterOrNumber, Bool.or_eq_true, List.any_eq_true] at h
  simp only [Bool.or_eq_true, decide_eq_true_eq, or_assoc] at h
  rcases whole_of_mem_points hp with hwhole | ⟨u, hu, rfl⟩
  · refine ⟨hwhole, h.imp_right ?_⟩
    rintro ⟨u, hmem, hmark⟩
    rcases hwhole with ⟨v, -, rfl⟩ | ⟨hi, lo, hhi, hlo, rfl⟩
    · exact ⟨u, hmark, by rw [List.mem_singleton.1 hmem]⟩
    · have hnot := hmarks u hmark
      rw [isSurrogate, Bool.or_eq_false_iff] at hnot
      rcases List.mem_pair.1 hmem with rfl | rfl
      · rw [hhi] at hnot
        exact absurd hnot.1 Bool.noConfusion
      · rw [hlo] at hnot
        exact absurd hnot.2 Bool.noConfusion
  · exfalso
    rcases h with h | ⟨v, hv, hmark⟩
    · rw [(hD.surrogate u hu).2.2] at h
      cases h
    · rw [List.mem_singleton.1 hv] at hmark
      rw [hmarks u hmark] at hu
      cases hu

/-- Every code point that is no letter becomes a space, an apostrophe or a hyphen. -/
theorem punctuation_spec (hU : U.Follows D) (hD : D.Lawful) (s : Str) :
    ∃ Q : List Str, U.punctuationToSpace s = Q.flatten ∧
      Q.filter D.isLetterOrNumber = D.letters s ∧
      ∀ q ∈ Q, Whole q ∧ Spaced q ∧ (D.isLetterOrNumber q = true ∨
        ∃ u, (isSpace u = true ∨ u = 0x27 ∨ u = 0x2D) ∧ q = [u]) := by
  refine ⟨(points s).map fun p ↦ if U.keep p then p else [0x20], ?_, ?_, ?_⟩
  · rw [Unicode.punctuationToSpace, List.flatMap_def]
  · rw [CharacterData.letters, List.filter_map]
    have hspace : D.isLetterOrNumber [0x20] = false :=
      (hD.mark 0x20 (by decide)).2.2.2
    have hkeep : ∀ p, D.isLetterOrNumber p = true → U.keep p = true := fun p hp ↦ by
      rw [Unicode.keep, hU.isLetterOrNumber, hp, Bool.true_or]
    have hsame : (points s).filter (D.isLetterOrNumber ∘ fun p ↦ if U.keep p then p else [0x20]) =
        (points s).filter D.isLetterOrNumber := by
      refine List.filter_congr fun p _ ↦ ?_
      by_cases hp : U.keep p = true
      · rw [Function.comp_apply, if_pos hp]
      · rw [Function.comp_apply, if_neg hp, hspace]
        exact (Bool.eq_false_iff.2 fun h ↦ hp (hkeep p h)).symm
    rw [hsame]
    refine (List.map_congr_left fun p hp ↦ ?_).trans (List.map_id _)
    rw [if_pos (hkeep p (List.mem_filter.1 hp).2)]
    rfl
  · rintro q hq
    obtain ⟨p, hp, rfl⟩ := List.mem_map.1 hq
    by_cases hk : U.keep p = true
    · rw [if_pos hk]
      obtain ⟨hwhole, hcase⟩ := keep_spec hU hD hp hk
      refine ⟨hwhole, ?_, hcase⟩
      rcases hcase with hletter | ⟨u, hu, rfl⟩
      · refine .inr ⟨?_, fun u hu ↦ (hD.letter_units p hwhole hletter u hu).2.2⟩
        rintro rfl
        rcases hwhole with ⟨u, -, h⟩ | ⟨_, _, -, -, h⟩ <;> cases h
      · rcases hs : isSpace u
        · exact .inr ⟨List.cons_ne_nil _ _, fun v hv ↦ by rwa [List.mem_singleton.1 hv]⟩
        · exact .inl ⟨u, hs, rfl⟩
    · rw [if_neg hk]
      exact ⟨whole_of_lt (by decide), .inl ⟨0x20, by decide, rfl⟩,
        .inr ⟨0x20, .inl (by decide), rfl⟩⟩

/-- **What the last steps leave**: the letters, in their order, with single spaces, apostrophes and
hyphens between them. -/
theorem finish_spec (hU : U.Follows D) (hD : D.Lawful) (s : Str) :
    ∃ R : List Str, U.finish s = R.flatten ∧ (∀ p ∈ R, D.Plain p ∧ Whole p) ∧
      R.filter D.isLetterOrNumber =
        D.letters ((s.filter fun u ↦ !isDiacritic u).map apostrophe) ∧
      SingleSpaced (U.finish s) ∧ trim (U.finish s) = U.finish s := by
  have hspace : ∀ u, isSpace u = true → D.isLetterOrNumber [u] = false := by
    intro u hu
    have hwhole : Whole [u] := by
      refine .inl ⟨u, isSurrogate_eq_false_iff.2 ?_, rfl⟩
      simp only [isSpace, Bool.or_eq_true, Bool.and_eq_true, decide_eq_true_eq] at hu
      omega
    by_contra h
    rw [Bool.not_eq_false] at h
    rw [(hD.letter_units [u] hwhole h u (List.mem_singleton.2 rfl)).2.2] at hu
    cases hu
  set y := (s.filter fun u ↦ !isDiacritic u).map apostrophe
  obtain ⟨Q, hQ, hletters, hspec⟩ := punctuation_spec hU hD y
  obtain ⟨C, hC, hCletters, hCmem⟩ :=
    collapse_flatten hspace (fun q hq ↦ (hspec q hq).2.1) false
  have hCspaced : ∀ p ∈ C, Spaced p := fun p hp ↦ by
    rcases hCmem p hp with rfl | ⟨hq, -⟩
    · exact .inl ⟨0x20, by decide, rfl⟩
    · exact (hspec p hq).2.1
  obtain ⟨B, hB, hBletters, hBC⟩ := dropWhile_flatten hspace hCspaced
  obtain ⟨R, hR, hRletters, hRB⟩ := rdropWhile_flatten hspace fun p hp ↦ hCspaced p (hBC hp)
  have hfinish : U.finish s = trim (collapseSpaces false (U.punctuationToSpace y)) := rfl
  refine ⟨R, ?_, fun p hp ↦ ?_, ?_, ?_, ?_⟩
  · rw [hfinish, hQ, hC, trim, hB, hR]
  · rcases hCmem p (hBC (hRB hp)) with rfl | ⟨hq, hnospace⟩
    · exact ⟨.inr (.inl rfl), whole_of_lt (by decide)⟩
    · obtain ⟨hwhole, -, hletter | ⟨u, hu | rfl | rfl, rfl⟩⟩ := hspec p hq
      · exact ⟨.inl hletter, hwhole⟩
      · rw [hnospace u (List.mem_singleton.2 rfl)] at hu
        cases hu
      · exact ⟨.inr (.inr (.inl rfl)), hwhole⟩
      · exact ⟨.inr (.inr (.inr rfl)), hwhole⟩
  · rw [hRletters, hBletters, hCletters, hletters]
  · rw [hfinish]
    exact (singleSpaced_collapse _ _).1.within (trim_within _)
  · rw [hfinish, trim_trim]

/-! ### The first steps -/

/-- A name after the steps that change its letters: folded, taken apart, without diacritics, and
with one apostrophe. -/
def Unicode.base (U : Unicode) (raw : Str) : Str :=
  ((U.nfd (U.fold raw)).filter fun u ↦ !isDiacritic u).map apostrophe

theorem turnsInto_lower (hD : D.Lawful) {p : Str}
    (hp : Whole p ∨ ∃ u, isSurrogate u = true ∧ p = [u]) (before after : List Str) :
    TurnsInto p (D.lowerPoint before after p) := by
  rw [CharacterData.lowerPoint]
  split
  next =>
    refine .inl ⟨List.cons_ne_nil _ _, fun x hx ↦ ?_⟩
    rw [List.mem_singleton.1 hx]
    exact whole_of_lt (by decide)
  next =>
    rcases hp with hp | ⟨u, hu, rfl⟩
    · exact .inl (hD.lower_whole p hp)
    · exact .inr ⟨u, hu, rfl, (hD.surrogate u hu).1⟩

theorem turnsInto_lowerPoints (hD : D.Lawful) {ps : List Str}
    (hps : ∀ p ∈ ps, Whole p ∨ ∃ u, isSurrogate u = true ∧ p = [u]) (before : List Str) :
    List.Forall₂ TurnsInto ps (D.lowerPoints before ps) := by
  induction ps generalizing before with
  | nil => exact .nil
  | cons p ps ih =>
    obtain ⟨hp, hps⟩ := List.forall_mem_cons.1 hps
    exact .cons (turnsInto_lower hD hp before ps) (ih hps _)

/-- The code points of a folded name. -/
theorem points_fold (hU : U.Follows D) (hD : D.Lawful) (raw : Str) :
    points (U.fold raw) = (D.lowerPoints []
      (points (toHalfWidth (raw.filter fun u ↦ !isInvisible u)))).flatten.map
        (List.map homoglyph) := by
  have hpoints : ∀ p ∈ points (toHalfWidth (raw.filter fun u ↦ !isInvisible u)),
      Whole p ∨ ∃ u, isSurrogate u = true ∧ p = [u] := fun p hp ↦ whole_of_mem_points hp
  have hturns := turnsInto_lowerPoints hD hpoints []
  rw [Unicode.fold, mapHomoglyphs, homoglyph_keeps.points_map, hU.toLowerCase,
    CharacterData.toLowerCase, points_turned hturns]

/-- What is not a mark is not moved. -/
theorem filter_reorder {g : Str → Bool} {ps : List Str}
    (hg : ∀ p ∈ ps, g p = true → D.combiningClass p = 0) :
    (D.reorder ps).filter g = ps.filter g := by
  have hinsert : ∀ (p : Str) (l : List Str), (g p = true → D.combiningClass p = 0) →
      (D.insertMark p l).filter g = (p :: l).filter g := by
    intro p l hp
    induction l with
    | nil => rfl
    | cons q l ih =>
      rw [CharacterData.insertMark]
      split
      next hlt =>
        have hnot : ¬g p = true := fun h ↦ by
          rw [hp h] at hlt
          omega
        simp only [List.filter_cons, ih, if_neg hnot]
      next => rfl
  induction ps with
  | nil => rfl
  | cons p ps ih =>
    obtain ⟨hp, hps⟩ := List.forall_mem_cons.1 hg
    show (D.insertMark p (D.reorder ps)).filter g = _
    rw [hinsert p _ hp, List.filter_cons, ih hps, List.filter_cons]

theorem mem_reorder {p : Str} {ps : List Str} : p ∈ D.reorder ps ↔ p ∈ ps := by
  have hinsert : ∀ (q : Str) (l : List Str), p ∈ D.insertMark q l ↔ p = q ∨ p ∈ l := by
    intro q l
    induction l with
    | nil => simp [CharacterData.insertMark]
    | cons r l ih =>
      rw [CharacterData.insertMark]
      split
      · rw [List.mem_cons, ih, List.mem_cons]
        tauto
      · rw [List.mem_cons]
  induction ps with
  | nil => exact Iff.rfl
  | cons q ps ih =>
    rw [List.mem_cons]
    exact (hinsert q _).trans (or_congr_right ih)

/-- A letter is no apostrophe and has no diacritic. -/
theorem isLetter_spec (hD : D.Lawful) {p : Str} (hp : Whole p) (h : D.isLetter p = true) :
    p.map apostrophe = p ∧ D.isLetterOrNumber p = true ∧
      (p.all fun u ↦ !isDiacritic u) = true := by
  have hmap : p.map apostrophe = p := by
    rcases hp with ⟨u, -, rfl⟩ | ⟨hi, lo, hhi, hlo, rfl⟩
    · by_cases hu : u = 0x60 ∨ u = 0xB4 ∨ u = 0x2BB ∨ u = 0x2BC
      · have heq : ([u] : Str).map apostrophe = [0x27] := by
          rw [List.map_singleton, apostrophe, if_pos hu]
        rw [CharacterData.isLetter, heq, (hD.mark 0x27 (by decide)).2.2.2] at h
        cases h
      · rw [List.map_singleton, apostrophe, if_neg hu]
    · simp only [isHighSurrogate, isLowSurrogate, Bool.and_eq_true, decide_eq_true_eq] at hhi hlo
      rw [List.map_cons, List.map_singleton, apostrophe, apostrophe, if_neg (by omega),
        if_neg (by omega)]
  rw [CharacterData.isLetter, hmap] at h
  refine ⟨hmap, h, List.all_eq_true.2 fun u hu ↦ ?_⟩
  rw [(hD.letter_units p hp h u hu).2.1]
  rfl

/-- The diacritics of a string are code points of their own. -/
theorem filter_flatten_of_whole {ps : List Str} (hps : ∀ p ∈ ps, Whole p) :
    (ps.flatten.filter fun u ↦ !isDiacritic u) =
      (ps.filter fun p ↦ p.all fun u ↦ !isDiacritic u).flatten := by
  induction ps with
  | nil => rfl
  | cons p ps ih =>
    obtain ⟨hp, hps⟩ := List.forall_mem_cons.1 hps
    rw [List.flatten_cons, List.filter_append, ih hps, List.filter_cons]
    rcases hp with ⟨u, -, rfl⟩ | ⟨hi, lo, hhi, hlo, rfl⟩
    · rcases hu : isDiacritic u <;> simp [hu]
    · have hkept : isDiacritic hi = false ∧ isDiacritic lo = false := by
        simp only [isHighSurrogate, isLowSurrogate, Bool.and_eq_true, decide_eq_true_eq] at hhi hlo
        simp only [isDiacritic, Bool.and_eq_false_iff, decide_eq_false_iff_not]
        omega
      simp [hkept.1, hkept.2]

/-- The letters that whole code points leave. -/
theorem letters_of_whole (hD : D.Lawful) {ps : List Str} (hps : ∀ p ∈ ps, Whole p) :
    D.letters (((D.reorder ps).flatten.filter fun u ↦ !isDiacritic u).map apostrophe) =
      ps.filter D.isLetter := by
  have hmem : ∀ p ∈ D.reorder ps, Whole p := fun p hp ↦ hps p (mem_reorder.1 hp)
  have hkept : ∀ p ∈ (D.reorder ps).filter fun p ↦ p.all fun u ↦ !isDiacritic u, Whole p :=
    fun p hp ↦ hmem p (List.mem_of_mem_filter hp)
  rw [filter_flatten_of_whole hmem, List.map_flatten, CharacterData.letters, points_flatten,
    List.filter_map]
  · have hisLetter : D.isLetterOrNumber ∘ List.map apostrophe = D.isLetter := rfl
    rw [hisLetter, List.filter_filter]
    have hfilter : ((D.reorder ps).filter fun p ↦ D.isLetter p && p.all fun u ↦ !isDiacritic u) =
        (D.reorder ps).filter D.isLetter := by
      refine List.filter_congr fun p hp ↦ ?_
      by_cases h : D.isLetter p = true
      · rw [h, (isLetter_spec hD (hmem p hp) h).2.2]
        rfl
      · rw [Bool.eq_false_iff.2 h, Bool.false_and]
    rw [hfilter]
    refine Eq.trans ?_ (filter_reorder (D := D) fun p hp h ↦ ?_)
    · refine (List.map_congr_left fun p hp ↦ ?_).trans (List.map_id _)
      obtain ⟨hp, hletter⟩ := List.mem_filter.1 hp
      exact (isLetter_spec hD (hmem p hp) hletter).1
    · exact hD.letter_class p (hps p hp) (isLetter_spec hD (hps p hp) h).2.1
  · intro p hp
    obtain ⟨q, hq, rfl⟩ := List.mem_map.1 hp
    exact apostrophe_keeps.whole (hkept q hq)

theorem whole_lowerPoints (hD : D.Lawful) {ps : List Str} (hps : ∀ p ∈ ps, Whole p)
    (before : List Str) : ∀ l ∈ D.lowerPoints before ps, ∀ x ∈ l, Whole x := by
  induction ps generalizing before with
  | nil => nofun
  | cons p ps ih =>
    obtain ⟨hp, hps⟩ := List.forall_mem_cons.1 hps
    rw [CharacterData.lowerPoints, List.forall_mem_cons]
    refine ⟨fun x hx ↦ ?_, ih hps _⟩
    rw [CharacterData.lowerPoint] at hx
    split at hx
    · rw [List.mem_singleton.1 hx]
      exact whole_of_lt (by decide)
    · exact (hD.lower_whole p hp).2 x hx

theorem filter_steps_flatten (g : Str → Bool) (ls : List (List Str)) :
    (D.steps ls.flatten).filter g = (ls.map fun l ↦ (D.steps l).filter g).flatten := by
  induction ls with
  | nil => rfl
  | cons l ls ih =>
    have happend : D.steps (l ++ ls.flatten) = D.steps l ++ D.steps ls.flatten := by
      rw [CharacterData.steps, List.map_append, List.flatMap_append]
      rfl
    rw [List.flatten_cons, happend, List.filter_append, ih, List.map_cons, List.flatten_cons]

/-- **The letters of a name** without lone surrogates are those its code points are taken apart
into, one after the other. -/
theorem letters_base_of_whole (hU : U.Follows D) (hD : D.Lawful) {raw : Str}
    (hraw : ∀ p ∈ points (toHalfWidth (raw.filter fun u ↦ !isInvisible u)), Whole p) :
    D.letters (U.base raw) =
      ((D.lowerPoints [] (points (toHalfWidth (raw.filter fun u ↦ !isInvisible u)))).map fun l ↦
        (D.steps l).filter D.isLetter).flatten := by
  have hfold := points_fold hU hD raw
  have hlower := whole_lowerPoints hD hraw []
  have hwhole : ∀ x ∈ (points (U.fold raw)).flatMap D.decompose, Whole x := by
    rw [hfold]
    intro x hx
    obtain ⟨y, hy, hxy⟩ := List.mem_flatMap.1 hx
    obtain ⟨z, hz, rfl⟩ := List.mem_map.1 hy
    obtain ⟨l, hl, hzl⟩ := List.mem_flatten.1 hz
    exact (hD.decompose_whole _ (homoglyph_keeps.whole (hlower l hl z hzl))).2 x hxy
  rw [Unicode.base, hU.nfd, CharacterData.nfd, letters_of_whole hD hwhole, hfold]
  exact filter_steps_flatten _ _

/-- Without lone surrogates it is enough to look at each character on its own. -/
theorem settled_iff_of_whole (hU : U.Follows D) (hD : D.Lawful) {raw : Str}
    (hraw : ∀ p ∈ points (toHalfWidth (raw.filter fun u ↦ !isInvisible u)), Whole p) :
    (∀ p ∈ D.letters (U.base raw), D.Settled p) ↔
      ∀ l ∈ D.lowerPoints [] (points (toHalfWidth (raw.filter fun u ↦ !isInvisible u))),
        ∀ x ∈ D.steps l, D.isLetter x = true → D.Settled x := by
  rw [letters_base_of_whole hU hD hraw, List.forall_mem_flatten, List.forall_mem_map]
  refine forall₂_congr fun l _ ↦ ?_
  exact ⟨fun h x hx hletter ↦ h x (List.mem_filter.2 ⟨hx, hletter⟩),
    fun h x hx ↦ h x (List.mem_of_mem_filter hx) (List.mem_filter.1 hx).2⟩

/-! ### Names that come back -/

/-- What the second normalisation begins with. -/
structure Tidy (D : CharacterData) (R : List Str) : Prop where
  plain : ∀ p ∈ R, D.Plain p
  whole : ∀ p ∈ R, Whole p
  /-- there is one kind of apostrophe -/
  apostrophe : ∀ p ∈ R, p.map apostrophe = p

theorem normalizeName_spec (hU : U.Follows D) (hD : D.Lawful) (raw : Str) :
    ∃ R : List Str, U.normalizeName raw = R.flatten ∧ Tidy D R ∧
      R.filter D.isLetterOrNumber = D.letters (U.base raw) ∧
      SingleSpaced R.flatten ∧ trim R.flatten = R.flatten := by
  obtain ⟨R, hR, hplain, hletters, hsingle, htrim⟩ := finish_spec hU hD (U.nfd (U.fold raw))
  have hname : U.normalizeName raw = R.flatten := hR
  rw [hR] at hsingle htrim
  refine ⟨R, hname, ⟨fun p hp ↦ (hplain p hp).1, fun p hp ↦ (hplain p hp).2, fun p hp ↦ ?_⟩,
    hletters, hsingle, htrim⟩
  rcases (hplain p hp).1 with hletter | rfl | rfl | rfl
  · have hmem : p ∈ R.filter D.isLetterOrNumber := List.mem_filter.2 ⟨hp, hletter⟩
    rw [hletters, CharacterData.letters] at hmem
    have hpoint := List.mem_of_mem_filter hmem
    rw [apostrophe_keeps.points_map] at hpoint
    obtain ⟨q, -, rfl⟩ := List.mem_map.1 hpoint
    rw [List.map_map]
    refine List.map_congr_left fun u _ ↦ ?_
    rw [Function.comp_apply]
    have hcases : Aml.apostrophe u = 0x27 ∨ Aml.apostrophe u = u := by
      rw [Aml.apostrophe]
      split <;> simp
    rcases hcases with h | h
    · rw [h]
      rfl
    · rw [h, h]
  all_goals decide

namespace Tidy

variable {R : List Str}

theorem units (hR : Tidy D R) (hD : D.Lawful) : ∀ u ∈ R.flatten,
    isInvisible u = false ∧ isDiacritic u = false ∧ Aml.apostrophe u = u := by
  intro u hu
  obtain ⟨p, hp, hup⟩ := List.mem_flatten.1 hu
  have happ : Aml.apostrophe u = u := by
    have hmap : p.map Aml.apostrophe = p.map id := by rw [hR.apostrophe p hp, List.map_id]
    exact List.map_inj_left.1 hmap u hup
  rcases hR.plain p hp with hletter | rfl | rfl | rfl
  · obtain ⟨hvisible, hplain, -⟩ := hD.letter_units p (hR.whole p hp) hletter u hup
    exact ⟨hvisible, hplain, happ⟩
  all_goals
    rw [List.mem_singleton.1 hup]
    decide

theorem visible (hR : Tidy D R) (hD : D.Lawful) :
    (R.flatten.filter fun u ↦ !isInvisible u) = R.flatten :=
  List.filter_eq_self.2 fun u hu ↦ by rw [(hR.units hD u hu).1]; rfl

/-- The letters of the second normalisation. -/
theorem letters_base (hR : Tidy D R) (hU : U.Follows D) (hD : D.Lawful) :
    D.letters (U.base R.flatten) =
      ((D.lowerPoints [] (R.map (List.map halfWidth))).map fun l ↦
        (D.steps l).filter D.isLetter).flatten := by
  have hhalf : ∀ p ∈ R.map (List.map halfWidth), Whole p := fun p hp ↦ by
    obtain ⟨q, hq, rfl⟩ := List.mem_map.1 hp
    exact halfWidth_keeps.whole (hR.whole q hq)
  have hpoints : points (toHalfWidth (R.flatten.filter fun u ↦ !isInvisible u)) =
      R.map (List.map halfWidth) := by
    rw [hR.visible hD, toHalfWidth, List.map_flatten, points_flatten hhalf]
  rw [letters_base_of_whole hU hD (by rwa [hpoints]), hpoints]

/-- No step changes a name of settled letters. -/
theorem normalizeName_eq_self (hR : Tidy D R) (hU : U.Follows D) (hD : D.Lawful)
    (hsettled : ∀ p ∈ R, D.isLetterOrNumber p = true → D.Settled p)
    (hsingle : SingleSpaced R.flatten) (htrim : trim R.flatten = R.flatten) :
    U.normalizeName R.flatten = R.flatten := by
  have hall : ∀ p ∈ R, D.Settled p ∧ D.combiningClass p = 0 ∧ U.keep p = true := by
    intro p hp
    rcases hR.plain p hp with hletter | hmark
    · refine ⟨hsettled p hp hletter, hD.letter_class p (hR.whole p hp) hletter, ?_⟩
      rw [Unicode.keep, hU.isLetterOrNumber, hletter, Bool.true_or]
    · have hunit : ∃ u ∈ [0x20, 0x27, 0x2D], p = [u] := by
        rcases hmark with rfl | rfl | rfl <;> simp
      obtain ⟨u, hu, rfl⟩ := hunit
      obtain ⟨hlower, hdecompose, hclass, -⟩ := hD.mark u hu
      have hfixed : ∀ v ∈ [0x20, 0x27, 0x2D], [halfWidth v] = [v] ∧ [homoglyph v] = [v] ∧
          (isSpace v || v = 0x27 || v = 0x2D) = true := by decide
      obtain ⟨hhalf, hglyph, hkeep⟩ := hfixed u hu
      refine ⟨⟨hhalf, hlower, hglyph, hdecompose⟩, hclass, ?_⟩
      rw [Unicode.keep, List.any_cons, hkeep, Bool.true_or, Bool.or_true]
  have hpoints : points R.flatten = R := points_flatten hR.whole
  have hmapped : ∀ f : ℕ → ℕ, (∀ p ∈ R, p.map f = p) → R.flatten.map f = R.flatten := by
    intro f hf
    rw [List.map_flatten, (List.map_congr_left hf).trans (List.map_id' R)]
  have hlower : ∀ (ps before : List Str), (∀ p ∈ ps, D.Settled p) →
      (D.lowerPoints before ps).flatten = ps := by
    intro ps
    induction ps with
    | nil => exact fun _ _ ↦ rfl
    | cons p ps ih =>
      intro before hps
      obtain ⟨hp, hps⟩ := List.forall_mem_cons.1 hps
      have hsigma : p ≠ capitalSigma := by
        rintro rfl
        have hlower := hp.lower
        rw [hD.sigma] at hlower
        exact absurd hlower (by decide)
      rw [CharacterData.lowerPoints, CharacterData.lowerPoint, if_neg fun h ↦ hsigma h.1, hp.lower,
        List.flatten_cons, ih _ hps]
      rfl
  have hfold : U.fold R.flatten = R.flatten := by
    rw [Unicode.fold, hR.visible hD, toHalfWidth, hmapped _ fun p hp ↦ (hall p hp).1.halfWidth,
      hU.toLowerCase, CharacterData.toLowerCase, hpoints, hlower R [] fun p hp ↦ (hall p hp).1,
      mapHomoglyphs, hmapped _ fun p hp ↦ (hall p hp).1.homoglyph]
  have hreorder : ∀ ps : List Str, (∀ p ∈ ps, D.combiningClass p = 0) → D.reorder ps = ps := by
    intro ps
    induction ps with
    | nil => exact fun _ ↦ rfl
    | cons p ps ih =>
      intro hps
      obtain ⟨hp, hps⟩ := List.forall_mem_cons.1 hps
      show D.insertMark p (D.reorder ps) = _
      rw [ih hps]
      cases ps with
      | nil => rfl
      | cons q ps =>
        rw [CharacterData.insertMark, if_neg]
        rw [hp]
        omega
  have hnfd : U.nfd R.flatten = R.flatten := by
    have hdecompose : R.flatMap D.decompose = R := by
      rw [List.flatMap_def, List.map_congr_left fun p hp ↦ (hall p hp).1.decompose,
        ← List.flatMap_def, List.flatMap_singleton']
    rw [hU.nfd, CharacterData.nfd, hpoints, hdecompose, hreorder R fun p hp ↦ (hall p hp).2.1]
  have hplain : (R.flatten.filter fun u ↦ !isDiacritic u) = R.flatten :=
    List.filter_eq_self.2 fun u hu ↦ by rw [(hR.units hD u hu).2.1]; rfl
  have hpunctuation : U.punctuationToSpace R.flatten = R.flatten := by
    rw [Unicode.punctuationToSpace, hpoints, List.flatMap_def,
      List.map_congr_left fun p hp ↦ if_pos (hall p hp).2.2, List.map_id']
  rw [Unicode.normalizeName, hfold, hnfd, Unicode.finish, hplain, hmapped _ hR.apostrophe]
  show trim (collapseSpaces false (U.punctuationToSpace R.flatten)) = _
  rw [hpunctuation, collapse_eq_self hsingle fun h ↦ absurd h Bool.false_ne_true, htrim]

end Tidy

/-- Lists that come to as many letters as they come from have one letter each. -/
theorem eq_singleton_of_flatten {g : Str → Bool} {R : List Str} {hs : List (List Str)}
    (h : List.Forall₂ (fun p l ↦ (g p = true → l ≠ []) ∧ (g p = false → l = [])) R hs)
    (hflatten : hs.flatten = R.filter g) :
    List.Forall₂ (fun p l ↦ g p = true → l = [p]) R hs := by
  have hlength : ∀ {R : List Str} {hs : List (List Str)},
      List.Forall₂ (fun p l ↦ (g p = true → l ≠ []) ∧ (g p = false → l = [])) R hs →
      (R.filter g).length ≤ hs.flatten.length := by
    intro R hs h
    induction h with
    | nil => exact le_rfl
    | @cons p l R hs hp _ ih =>
      rw [List.flatten_cons, List.length_append, List.filter_cons]
      split
      next hg =>
        have hpos := List.length_pos_iff.2 (hp.1 hg)
        rw [List.length_cons]
        omega
      next => omega
  induction h with
  | nil => exact .nil
  | @cons p l R hs hp hrest ih =>
    rw [List.flatten_cons, List.filter_cons] at hflatten
    by_cases hg : g p = true
    · rw [if_pos hg] at hflatten
      obtain ⟨x, l', rfl⟩ := List.exists_cons_of_ne_nil (hp.1 hg)
      rw [List.cons_append] at hflatten
      obtain ⟨rfl, htail⟩ := List.cons.inj hflatten
      have hle := hlength hrest
      rw [← htail, List.length_append] at hle
      have hnil : l' = [] := List.eq_nil_of_length_eq_zero (by omega)
      rw [hnil, List.nil_append] at htail
      exact .cons (fun _ ↦ by rw [hnil]) (ih htail)
    · rw [if_neg hg, hp.2 (Bool.eq_false_iff.2 hg), List.nil_append] at hflatten
      exact .cons (fun h ↦ absurd h hg) (ih hflatten)

theorem steps_finalSigma (hD : D.Lawful) : D.steps [finalSigma] = [finalSigma] := by
  have hglyph : finalSigma.map homoglyph = finalSigma := by decide
  rw [CharacterData.steps, List.map_singleton, hglyph, List.flatMap_singleton, hD.finalSigma.1]

theorem isLetter_finalSigma (hD : D.Lawful) : D.isLetter finalSigma = true := by
  have hmap : finalSigma.map apostrophe = finalSigma := by decide
  rw [CharacterData.isLetter, hmap, hD.finalSigma.2]

/-- The letters that a code point of a tidy name comes to. -/
theorem letters_of_lowerPoint (hD : D.Lawful) {p : Str} (hplain : D.Plain p) (hwhole : Whole p)
    (happ : p.map apostrophe = p) (before after : List Str) :
    let l := (D.steps (D.lowerPoint before after (p.map halfWidth))).filter D.isLetter
    ((D.isLetterOrNumber p = true → l ≠ []) ∧ (D.isLetterOrNumber p = false → l = [])) ∧
      (D.isLetterOrNumber p = true → l = [p] → D.Settled p) := by
  intro l
  by_cases hletter : D.isLetterOrNumber p = true
  · have hp : D.isLetter p = true := by rw [CharacterData.isLetter, happ, hletter]
    by_cases hsigma : p.map halfWidth = capitalSigma ∧ D.casedNext before = true ∧
        (!D.casedNext after) = true
    · have hl : l = [finalSigma] := by
        show (D.steps (D.lowerPoint before after (p.map halfWidth))).filter D.isLetter = _
        rw [CharacterData.lowerPoint, if_pos hsigma, steps_finalSigma hD, List.filter_cons,
          if_pos (isLetter_finalSigma hD), List.filter_nil]
      refine ⟨⟨fun _ ↦ hl ▸ List.cons_ne_nil _ _, fun h ↦ ?_⟩, fun _ hself ↦ ?_⟩
      · rw [hletter] at h
        cases h
      · -- the final sigma is not the capital it comes from
        obtain rfl : finalSigma = p := (List.cons.inj (hl.symm.trans hself)).1
        exact absurd hsigma.1 (by decide)
    · have hlower : D.lowerPoint before after (p.map halfWidth) = D.lower (p.map halfWidth) :=
        if_neg hsigma
      refine ⟨⟨fun _ ↦ ?_, fun h ↦ ?_⟩, fun _ hself ↦ ?_⟩
      · obtain ⟨x, hx, hxletter⟩ := hD.letter_kept p hwhole hp
        rw [← hlower] at hx
        exact List.ne_nil_of_mem (List.mem_filter.2 ⟨hx, hxletter⟩)
      · rw [hletter] at h
        cases h
      · have hmem : p ∈ l := by
          rw [hself]
          exact List.mem_singleton.2 rfl
        have hsteps := List.mem_of_mem_filter hmem
        rw [hlower] at hsteps
        exact hD.self_kept p hwhole hp hsteps
  · have hunit : ∃ u ∈ [0x20, 0x27, 0x2D], p = [u] := by
      rcases hplain with h | rfl | rfl | rfl
      · exact absurd h hletter
      all_goals simp
    obtain ⟨u, hu, rfl⟩ := hunit
    obtain ⟨hlower, hdecompose, -, hnot⟩ := hD.mark u hu
    have hfixed : ∀ v ∈ [0x20, 0x27, 0x2D], ([v] : Str).map halfWidth = [v] ∧
        ([v] : Str).map homoglyph = [v] ∧ ([v] : Str) ≠ capitalSigma := by decide
    obtain ⟨hhalf, hglyph, hsigma⟩ := hfixed u hu
    have hl : l = [] := by
      show (D.steps (D.lowerPoint before after (([u] : Str).map halfWidth))).filter D.isLetter = _
      have hskip : ¬D.isLetter [u] = true := by
        rw [CharacterData.isLetter, happ, hnot]
        exact Bool.false_ne_true
      rw [hhalf, CharacterData.lowerPoint, if_neg fun h ↦ hsigma h.1, hlower, CharacterData.steps,
        List.map_singleton, hglyph, List.flatMap_singleton, hdecompose, List.filter_cons,
        if_neg hskip, List.filter_nil]
    exact ⟨⟨fun h ↦ absurd h hletter, fun _ ↦ hl⟩, fun h ↦ absurd h hletter⟩

/-- **When a normalised name comes back**: when no step changes a letter it came to. -/
theorem normalizeName_idempotent_iff (hU : U.Follows D) (hD : D.Lawful) (raw : Str) :
    U.normalizeName (U.normalizeName raw) = U.normalizeName raw ↔
      ∀ p ∈ D.letters (U.base raw), D.Settled p := by
  obtain ⟨R, hname, hR, hletters, hsingle, htrim⟩ := normalizeName_spec hU hD raw
  rw [hname, ← hletters]
  constructor
  · intro hagain
    obtain ⟨R', hname', hR', hletters', -⟩ := normalizeName_spec hU hD R.flatten
    have heq : R' = R := by
      rw [← points_flatten hR'.whole, ← hname', hagain, points_flatten hR.whole]
    rw [heq, hR.letters_base hU hD] at hletters'
    have hrel : ∀ (ps before : List Str), (∀ p ∈ ps, D.Plain p ∧ Whole p ∧ p.map apostrophe = p) →
        List.Forall₂ (fun p l ↦
          ((D.isLetterOrNumber p = true → l ≠ []) ∧ (D.isLetterOrNumber p = false → l = [])) ∧
            (D.isLetterOrNumber p = true → l = [p] → D.Settled p)) ps
          ((D.lowerPoints before (ps.map (List.map halfWidth))).map fun l ↦
            (D.steps l).filter D.isLetter) := by
      intro ps
      induction ps with
      | nil => exact fun _ _ ↦ .nil
      | cons p ps ih =>
        intro before hps
        obtain ⟨⟨hplain, hwhole, happ⟩, hps⟩ := List.forall_mem_cons.1 hps
        exact .cons (letters_of_lowerPoint hD hplain hwhole happ _ _) (ih _ hps)
    have hR' := hrel R [] fun p hp ↦ ⟨hR.plain p hp, hR.whole p hp, hR.apostrophe p hp⟩
    have hsingle' := eq_singleton_of_flatten (hR'.imp fun _ _ h ↦ h.1) hletters'.symm
    have hboth := List.Forall₂.mp (S := fun p l ↦ (D.isLetterOrNumber p = true → D.Settled p) ∧ True)
      (fun p l hl h ↦ ⟨fun hletter ↦ h.2 hletter (hl hletter), trivial⟩) hsingle' hR'
    have hsettled := ((List.forall₂_and_left (R := fun _ _ ↦ True) R _).1 hboth).1
    exact fun p hp ↦ hsettled p (List.mem_of_mem_filter hp) (List.mem_filter.1 hp).2
  · intro hsettled
    exact hR.normalizeName_eq_self hU hD
      (fun p hp hletter ↦ hsettled p (List.mem_filter.2 ⟨hp, hletter⟩)) hsingle htrim

end Laws

end Proofmark.Aml
