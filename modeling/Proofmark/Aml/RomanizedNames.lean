import Mathlib.Data.List.Forall2
import Mathlib.Data.List.GetD
import Proofmark.Aml.Romanize

/-!
# Romanised names are whole

A romanised form should spell every syllable of the name once, the given name's in order, with the
surname first or last. The cap on combinations cuts the list of syllables and not the list of
results: from a given name of five syllables on, forms of a shorter name are among the variants.

The shortest of these forms is shorter than any form of the whole name, so the variants are whole
exactly for names of at most five syllables (`romanizeVariants_whole_iff`). Up to there every
combination of spellings is among them.
-/

namespace Proofmark.Aml

/-! ### Spellings -/

/-- The Hangul syllables of a name, in order. -/
def syllables (name : Str) : List ℕ :=
  (name.filter fun u ↦ !isSpace u).filter isHangulSyllable

/-- How a syllable of a given name may be spelled. -/
def givenSpellings (g : ℕ) : List Str :=
  syllableRR g :: (dprkVariants.lookup g).getD []

/-- One spelling for each syllable of a given name. -/
abbrev Spelled (forms : List Str) (given : List ℕ) : Prop :=
  List.Forall₂ (fun form g ↦ form ∈ givenSpellings g) forms given

def isNameSeparator (u : ℕ) : Bool :=
  u = 0x20 || u = 0x2D

/-- A form without its separators. -/
def withoutSeparators (form : Str) : Str :=
  form.filter fun u ↦ !isNameSeparator u

/-- A form spells each syllable once, the surname first or last. -/
def SpellsWhole (chars : List ℕ) (form : Str) : Prop :=
  ∃ surname given, chars = surname :: given ∧
    ∃ s ∈ surnameForms surname, ∃ forms, Spelled forms given ∧
      (withoutSeparators form = s ++ forms.flatten ∨ withoutSeparators form = forms.flatten ++ s)

/-- Every choice of spellings is among the variants, in both orders and however it is joined. -/
def EveryChoice (chars : List ℕ) (variants : List Str) : Prop :=
  ∀ surname given, chars = surname :: given → ∀ s ∈ surnameForms surname,
    (given = [] → s ∈ variants) ∧
      (given ≠ [] → ∀ forms, Spelled forms given → ∀ g ∈ joined forms,
        s ++ [0x20] ++ g ∈ variants ∧ g ++ [0x20] ++ s ∈ variants)

/-- A spelling is a word of at least one letter. -/
def IsWord (s : Str) : Prop :=
  s ≠ [] ∧ ∀ u ∈ s, isNameSeparator u = false

instance (s : Str) : Decidable (IsWord s) :=
  inferInstanceAs (Decidable (_ ∧ _))

theorem table_separators : (∀ s ∈ cho, ∀ u ∈ s, isNameSeparator u = false) ∧
    (∀ s ∈ jung, ∀ u ∈ s, isNameSeparator u = false) ∧
      ∀ s ∈ jong, ∀ u ∈ s, isNameSeparator u = false := by decide

theorem variants_words : (∀ p ∈ surnameVariants, ∀ s ∈ p.2, IsWord s) ∧
    ∀ p ∈ dprkVariants, ∀ s ∈ p.2, IsWord s := by decide

theorem getD_separators {table : List Str}
    (h : ∀ s ∈ table, ∀ u ∈ s, isNameSeparator u = false) (n : ℕ) :
    ∀ u ∈ table.getD n [], isNameSeparator u = false := by
  rcases lt_or_ge n table.length with hn | hn
  · rw [List.getD_eq_getElem _ _ hn]
    exact h _ (List.getElem_mem hn)
  · rw [List.getD_eq_default _ _ hn]
    nofun

theorem isWord_syllableRR (g : ℕ) : IsWord (syllableRR g) := by
  have hmedial : ∀ n < 21, jung.getD n [] ≠ [] := by decide
  refine ⟨?_, fun u hu ↦ ?_⟩
  · have hne := hmedial ((g - 0xAC00) % (21 * 28) / 28) (by omega)
    simp only [syllableRR, ne_eq, List.append_eq_nil_iff, not_and]
    exact fun ⟨_, h⟩ _ ↦ hne h
  · simp only [syllableRR, List.mem_append] at hu
    rcases hu with (hu | hu) | hu
    · exact getD_separators table_separators.1 _ u hu
    · exact getD_separators table_separators.2.1 _ u hu
    · exact getD_separators table_separators.2.2 _ u hu

theorem isWord_lookup {table : List (ℕ × List Str)} (h : ∀ p ∈ table, ∀ s ∈ p.2, IsWord s) {g : ℕ}
    {s : Str} (hs : s ∈ (table.lookup g).getD []) : IsWord s := by
  rcases hlookup : table.lookup g with - | forms
  · rw [hlookup] at hs
    cases hs
  · rw [hlookup] at hs
    obtain ⟨l₁, l₂, heq, -⟩ := List.lookup_eq_some_iff.1 hlookup
    exact h (g, forms) (heq ▸ by simp) s hs

theorem isWord_of_mem_givenSpellings {g : ℕ} {s : Str} (h : s ∈ givenSpellings g) : IsWord s := by
  rcases List.mem_cons.1 h with rfl | h
  · exact isWord_syllableRR g
  · exact isWord_lookup variants_words.2 h

theorem mem_surnameForms {surname : ℕ} {s : Str} :
    s ∈ surnameForms surname ↔ s = syllableRR surname ∨
      s ∈ (surnameVariants.lookup surname).getD [] ∨
        s ∈ (dprkVariants.lookup surname).getD [] := by
  rw [surnameForms, List.mem_eraseDups, List.cons_append, List.mem_cons, List.mem_append]

theorem isWord_of_mem_surnameForms {surname : ℕ} {s : Str} (h : s ∈ surnameForms surname) :
    IsWord s := by
  rcases mem_surnameForms.1 h with rfl | h | h
  · exact isWord_syllableRR surname
  · exact isWord_lookup variants_words.1 h
  · exact isWord_lookup variants_words.2 h

theorem Spelled.isWord {forms : List Str} {given : List ℕ} (h : Spelled forms given) :
    ∀ form ∈ forms, IsWord form := by
  induction h with
  | nil => nofun
  | cons hform _ ih => exact List.forall_mem_cons.2 ⟨isWord_of_mem_givenSpellings hform, ih⟩

theorem spelled_syllableRR (given : List ℕ) : Spelled (given.map syllableRR) given := by
  rw [Spelled, List.forall₂_map_left_iff, List.forall₂_same]
  exact fun g _ ↦ List.mem_cons_self

/-! ### Separators -/

theorem withoutSeparators_append (s t : Str) :
    withoutSeparators (s ++ t) = withoutSeparators s ++ withoutSeparators t :=
  List.filter_append _ _

theorem IsWord.withoutSeparators_eq {s : Str} (h : IsWord s) : withoutSeparators s = s :=
  List.filter_eq_self.2 fun u hu ↦ by rw [h.2 u hu]; rfl

theorem withoutSeparators_flatten {forms : List Str} (h : ∀ form ∈ forms, IsWord form) :
    withoutSeparators forms.flatten = forms.flatten := by
  induction forms with
  | nil => rfl
  | cons form forms ih =>
    obtain ⟨hform, hforms⟩ := List.forall_mem_cons.1 h
    rw [List.flatten_cons, withoutSeparators_append, hform.withoutSeparators_eq, ih hforms]

theorem withoutSeparators_intercalate {sep : ℕ} (hsep : isNameSeparator sep = true)
    {forms : List Str} (h : ∀ form ∈ forms, IsWord form) :
    withoutSeparators ([sep].intercalate forms) = forms.flatten := by
  have hdrop : withoutSeparators [sep] = [] := by
    rw [withoutSeparators, List.filter_singleton, hsep]
    rfl
  induction forms with
  | nil => rfl
  | cons form forms ih =>
    obtain ⟨hform, hforms⟩ := List.forall_mem_cons.1 h
    cases forms with
    | nil => simp [List.intercalate, hform.withoutSeparators_eq]
    | cons next forms =>
      rw [List.intercalate, List.intersperse_cons_cons, List.flatten_cons, List.flatten_cons,
        withoutSeparators_append, withoutSeparators_append, hform.withoutSeparators_eq, hdrop,
        List.flatten_cons, ← ih hforms]
      rfl

/-- However a form is joined, its separators come out again. -/
theorem withoutSeparators_of_mem_joined {forms : List Str} (h : ∀ form ∈ forms, IsWord form)
    {g : Str} (hg : g ∈ joined forms) : withoutSeparators g = forms.flatten := by
  simp only [joined, List.mem_cons, List.not_mem_nil, or_false] at hg
  rcases hg with rfl | rfl | rfl
  · exact withoutSeparators_flatten h
  · exact withoutSeparators_intercalate rfl h
  · exact withoutSeparators_intercalate rfl h

/-! ### Combinations -/

theorem mem_foldl_choices {arrs : List (List Str)} (acc : List (List Str)) {combo : List Str} :
    combo ∈ arrs.foldl (fun acc cur ↦ acc.flatMap fun a ↦ cur.map fun c ↦ a ++ [c]) acc ↔
      ∃ a ∈ acc, ∃ rest, List.Forall₂ (· ∈ ·) rest arrs ∧ combo = a ++ rest := by
  induction arrs generalizing acc with
  | nil =>
    rw [List.foldl_nil]
    constructor
    · exact fun h ↦ ⟨combo, h, [], .nil, (List.append_nil _).symm⟩
    · rintro ⟨a, ha, rest, hrest, rfl⟩
      cases hrest
      rwa [List.append_nil]
  | cons cur arrs ih =>
    rw [List.foldl_cons, ih]
    constructor
    · rintro ⟨a', ha', rest, hrest, rfl⟩
      obtain ⟨a, ha, hmem⟩ := List.mem_flatMap.1 ha'
      obtain ⟨c, hc, rfl⟩ := List.mem_map.1 hmem
      exact ⟨a, ha, c :: rest, .cons hc hrest, by rw [List.append_assoc]; rfl⟩
    · rintro ⟨a, ha, rest, hrest, rfl⟩
      obtain _ | ⟨hc, hrest⟩ := hrest
      rename_i c rest
      exact ⟨a ++ [c], List.mem_flatMap.2 ⟨a, ha, List.mem_map.2 ⟨c, hc, rfl⟩⟩, rest, hrest,
        by rw [List.append_assoc]; rfl⟩

theorem mem_cartesian {arrs : List (List Str)} {combo : List Str} :
    combo ∈ cartesian arrs ↔ List.Forall₂ (· ∈ ·) combo (arrs.take 4) := by
  rw [cartesian, mem_foldl_choices]
  constructor
  · rintro ⟨a, ha, rest, hrest, rfl⟩
    rw [List.mem_singleton] at ha
    rwa [ha, List.nil_append]
  · exact fun h ↦ ⟨[], List.mem_singleton.2 rfl, combo, h, rfl⟩

/-- The forms of a given name: its first four syllables as they may be spelled, or all of them by
the rules. -/
theorem mem_givenForms {given : List ℕ} (hgiven : given ≠ []) {g : Str} :
    g ∈ givenForms given ↔
      g ∈ joined (given.map syllableRR) ∨
        ∃ forms, Spelled forms (given.take 4) ∧ g ∈ joined forms := by
  rw [givenForms, if_neg hgiven, List.mem_eraseDups, List.mem_append, List.mem_flatMap]
  refine or_congr_right (exists_congr fun forms ↦ and_congr_left fun _ ↦ ?_)
  rw [mem_cartesian, ← List.map_take, List.forall₂_map_right_iff]
  rfl

theorem givenForms_eq_nil {given : List ℕ} : givenForms given = [] ↔ given = [] := by
  constructor
  · intro h
    by_contra hgiven
    have hmem := (mem_givenForms hgiven).2 (.inl List.mem_cons_self)
    rw [h] at hmem
    cases hmem
  · intro h
    rw [givenForms, if_pos h]

theorem mem_romanizeVariants {name : Str} {surname : ℕ} {given : List ℕ}
    (h : syllables name = surname :: given) {v : Str} :
    v ∈ romanizeVariants name ↔
      (∃ s ∈ surnameForms surname, (given = [] ∧ v = s) ∨
          ∃ g ∈ givenForms given, v = s ++ [0x20] ++ g ∨ v = g ++ [0x20] ++ s) ∨
        v = ((surname :: given).map syllableRR).flatten := by
  have hchars : (name.filter fun u ↦ !isSpace u).filter isHangulSyllable = surname :: given := h
  rw [romanizeVariants, hchars]
  simp only
  rw [List.mem_eraseDups, List.mem_append, List.mem_singleton, List.mem_flatMap]
  refine or_congr_left (exists_congr fun s ↦ and_congr_right fun _ ↦ ?_)
  rcases eq_or_ne given [] with hgiven | hgiven
  · rw [if_pos (givenForms_eq_nil.2 hgiven), givenForms_eq_nil.2 hgiven]
    simp [hgiven]
  · rw [if_neg fun hnil ↦ hgiven (givenForms_eq_nil.1 hnil), List.mem_flatMap]
    simp [hgiven]

/-! ### Short names -/

section Short

variable {name : Str} {surname : ℕ} {given : List ℕ} (h : syllables name = surname :: given)
  (hlength : given.length ≤ 4)

include h hlength

/-- **The variants of a short name are whole.** -/
theorem spellsWhole_of_short {v : Str} (hv : v ∈ romanizeVariants name) :
    SpellsWhole (surname :: given) v := by
  rcases (mem_romanizeVariants h).1 hv with ⟨s, hs, hv⟩ | rfl
  · refine ⟨surname, given, rfl, s, hs, ?_⟩
    have hword := isWord_of_mem_surnameForms hs
    rcases hv with ⟨rfl, rfl⟩ | ⟨g, hg, hv⟩
    · exact ⟨[], .nil, .inl (by rw [hword.withoutSeparators_eq]; simp)⟩
    · have hgiven : given ≠ [] := by
        rintro rfl
        rw [givenForms_eq_nil.2 rfl] at hg
        cases hg
      -- the forms that were joined
      have hforms : ∃ forms, Spelled forms given ∧ g ∈ joined forms := by
        rcases (mem_givenForms hgiven).1 hg with hg | hg
        · exact ⟨_, spelled_syllableRR given, hg⟩
        · rwa [List.take_of_length_le hlength] at hg
      obtain ⟨forms, hspelled, hjoined⟩ := hforms
      have hg' := withoutSeparators_of_mem_joined hspelled.isWord hjoined
      have hspace : withoutSeparators [0x20] = [] := rfl
      refine ⟨forms, hspelled, ?_⟩
      rcases hv with rfl | rfl
      · exact .inl (by rw [withoutSeparators_append, withoutSeparators_append, hg', hspace,
          hword.withoutSeparators_eq, List.append_nil])
      · exact .inr (by rw [withoutSeparators_append, withoutSeparators_append, hg', hspace,
          hword.withoutSeparators_eq, List.append_nil])
  · refine ⟨surname, given, rfl, syllableRR surname, mem_surnameForms.2 (.inl rfl), _,
      spelled_syllableRR given, .inl ?_⟩
    rw [List.map_cons, List.flatten_cons, withoutSeparators_append,
      (isWord_syllableRR surname).withoutSeparators_eq,
      withoutSeparators_flatten (spelled_syllableRR given).isWord]

/-- **Every choice of spellings of a short name is among its variants.** -/
theorem everyChoice_of_short : EveryChoice (surname :: given) (romanizeVariants name) := by
  intro surname' given' heq s hs
  obtain ⟨rfl, rfl⟩ := List.cons.inj heq
  refine ⟨fun hnil ↦ (mem_romanizeVariants h).2 (.inl ⟨s, hs, .inl ⟨hnil, rfl⟩⟩),
    fun hgiven forms hforms g hg ↦ ?_⟩
  have hmem : g ∈ givenForms given :=
    (mem_givenForms hgiven).2 (.inr ⟨forms, by rwa [List.take_of_length_le hlength], hg⟩)
  exact ⟨(mem_romanizeVariants h).2 (.inl ⟨s, hs, .inr ⟨g, hmem, .inl rfl⟩⟩),
    (mem_romanizeVariants h).2 (.inl ⟨s, hs, .inr ⟨g, hmem, .inr rfl⟩⟩)⟩

end Short

/-! ### Long names -/

theorem exists_shortest {l : List Str} (hl : l ≠ []) :
    ∃ s ∈ l, ∀ t ∈ l, s.length ≤ t.length := by
  induction l with
  | nil => exact absurd rfl hl
  | cons x l ih =>
    rcases eq_or_ne l [] with rfl | hl
    · exact ⟨x, List.mem_cons_self, fun t ht ↦ by rw [List.mem_singleton.1 ht]⟩
    · obtain ⟨s, hs, hleast⟩ := ih hl
      rcases le_total x.length s.length with hle | hle
      · exact ⟨x, List.mem_cons_self,
          List.forall_mem_cons.2 ⟨le_rfl, fun t ht ↦ hle.trans (hleast t ht)⟩⟩
      · exact ⟨s, List.mem_cons_of_mem _ hs, List.forall_mem_cons.2 ⟨hle, hleast⟩⟩

/-- The shortest spellings of a list of syllables. -/
theorem exists_spelled_shortest (given : List ℕ) :
    ∃ forms, Spelled forms given ∧
      ∀ forms', Spelled forms' given → forms.flatten.length ≤ forms'.flatten.length := by
  induction given with
  | nil => exact ⟨[], .nil, fun forms' _ ↦ Nat.zero_le _⟩
  | cons g given ih =>
    obtain ⟨forms, hforms, hleast⟩ := ih
    obtain ⟨form, hform, hshort⟩ := exists_shortest (l := givenSpellings g) (by simp [givenSpellings])
    refine ⟨form :: forms, .cons hform hforms, fun forms' hforms' ↦ ?_⟩
    obtain _ | ⟨hform', hrest⟩ := hforms'
    rw [List.flatten_cons, List.flatten_cons, List.length_append, List.length_append]
    exact Nat.add_le_add (hshort _ hform') (hleast _ hrest)

/-- A form of more syllables has more letters than the shortest of its beginning. -/
theorem Spelled.length_lt {forms forms' : List Str} {given : List ℕ} {n : ℕ}
    (hleast : ∀ forms', Spelled forms' (given.take n) →
      forms.flatten.length ≤ forms'.flatten.length) (h : Spelled forms' given)
    (hn : n < given.length) : forms.flatten.length < forms'.flatten.length := by
  have hbegin : forms.flatten.length ≤ (forms'.take n).flatten.length :=
    hleast _ (List.forall₂_take n h)
  have hmore : 0 < (forms'.drop n).flatten.length := by
    have hlength : n < forms'.length := by rw [h.length_eq]; exact hn
    have hword := h.isWord _ (List.getElem_mem hlength)
    rw [List.drop_eq_getElem_cons hlength, List.flatten_cons, List.length_append]
    have := List.length_pos_of_ne_nil hword.1
    omega
  have hsum : (forms'.take n).flatten.length + (forms'.drop n).flatten.length =
      forms'.flatten.length := by
    rw [← List.length_append, ← List.flatten_append, List.take_append_drop]
  omega

/-- **A long name has a variant that spells less than the name.** -/
theorem exists_not_spellsWhole {name : Str} {surname : ℕ} {given : List ℕ}
    (h : syllables name = surname :: given) (hlength : 4 < given.length) :
    ∃ v ∈ romanizeVariants name, ¬SpellsWhole (surname :: given) v := by
  have hgiven : given ≠ [] := by rintro rfl; cases hlength
  obtain ⟨s, hs, hshort⟩ := exists_shortest (l := surnameForms surname)
    (List.ne_nil_of_mem (mem_surnameForms.2 (.inl rfl)))
  obtain ⟨forms, hforms, hleast⟩ := exists_spelled_shortest (given.take 4)
  refine ⟨s ++ [0x20] ++ forms.flatten, (mem_romanizeVariants h).2 (.inl ⟨s, hs, .inr
    ⟨_, (mem_givenForms hgiven).2 (.inr ⟨forms, hforms, List.mem_cons_self⟩), .inl rfl⟩⟩), ?_⟩
  rintro ⟨surname', given', heq, s', hs', forms', hforms', hspell⟩
  obtain ⟨rfl, rfl⟩ := List.cons.inj heq
  have hform : withoutSeparators (s ++ [0x20] ++ forms.flatten) = s ++ forms.flatten := by
    rw [withoutSeparators_append, withoutSeparators_append,
      (isWord_of_mem_surnameForms hs).withoutSeparators_eq, withoutSeparators_flatten hforms.isWord]
    simp [withoutSeparators, isNameSeparator]
  have hless := Spelled.length_lt hleast hforms' hlength
  have hsurname := hshort s' hs'
  rcases hspell with hspell | hspell
  · have := congrArg List.length (hform.symm.trans hspell)
    rw [List.length_append, List.length_append] at this
    omega
  · have := congrArg List.length (hform.symm.trans hspell)
    rw [List.length_append, List.length_append] at this
    omega

/-- **Romanisation covers the whole name exactly when it has at most five syllables**: every variant
spells each syllable once, and up to four given syllables every choice of spellings is a variant. -/
theorem romanizeVariants_whole_iff (name : Str) :
    ((∀ v ∈ romanizeVariants name, SpellsWhole (syllables name) v) ∧
        ((syllables name).length ≤ 5 → EveryChoice (syllables name) (romanizeVariants name))) ↔
      (syllables name).length ≤ 5 := by
  rcases hchars : syllables name with - | ⟨surname, given⟩
  · have hnone : romanizeVariants name = [] := by
      have : (name.filter fun u ↦ !isSpace u).filter isHangulSyllable = [] := hchars
      rw [romanizeVariants, this]
    rw [hnone]
    exact ⟨fun _ ↦ by simp, fun _ ↦ ⟨nofun, fun _ surname given heq ↦ nomatch heq⟩⟩
  · constructor
    · rintro ⟨hwhole, -⟩
      by_contra hlong
      rw [List.length_cons] at hlong
      obtain ⟨v, hv, hless⟩ := exists_not_spellsWhole hchars (by omega)
      exact hless (hwhole v hv)
    · intro hlength
      have hgiven : given.length ≤ 4 := by
        rw [List.length_cons] at hlength
        omega
      exact ⟨fun v hv ↦ spellsWhole_of_short hchars hgiven hv,
        fun _ ↦ everyChoice_of_short hchars hgiven⟩

/-- A given name of five syllables: a variant has lost the last. -/
theorem romanizeVariants_not_whole :
    ascii ['k', 'i', 'm', ' ', 'n', 'a', 'n', 'a', 'n', 'a', 'n', 'a'] ∈
        romanizeVariants [0xAE40, 0xB098, 0xB098, 0xB098, 0xB098, 0xB098] ∧
      ¬∀ v ∈ romanizeVariants [0xAE40, 0xB098, 0xB098, 0xB098, 0xB098, 0xB098],
        SpellsWhole (syllables [0xAE40, 0xB098, 0xB098, 0xB098, 0xB098, 0xB098]) v := by
  refine ⟨by decide +kernel, fun hwhole ↦ ?_⟩
  have hchars : syllables [0xAE40, 0xB098, 0xB098, 0xB098, 0xB098, 0xB098] =
      [0xAE40, 0xB098, 0xB098, 0xB098, 0xB098, 0xB098] := by decide
  obtain ⟨v, hv, hless⟩ := exists_not_spellsWhole hchars (by decide)
  exact hless (hwhole v hv)

end Proofmark.Aml
