import Mathlib.Data.List.Forall2
import Proofmark.Aml.Normalize

/-!
# Case and decomposition by the character database

`toLowerCase` and `normalize('NFD')` as the language defines them, over the data that the character
database holds of single code points. The only rule of case that looks around is the final sigma's;
decomposition is by code point, with the marks put in canonical order.

What is relied on of the data is in `Lawful`. Nothing in it is about strings, so each law can be
read off the database one code point after the other.
-/

namespace Proofmark.Aml

/-! ### Code points -/

def isSurrogate (u : ℕ) : Bool :=
  isHighSurrogate u || isLowSurrogate u

/-- A code point that is no lone surrogate. -/
def Whole (p : Str) : Prop :=
  (∃ u, isSurrogate u = false ∧ p = [u]) ∨
    ∃ h l, isHighSurrogate h = true ∧ isLowSurrogate l = true ∧ p = [h, l]

@[simp]
theorem points_pair {h l : ℕ} (hh : isHighSurrogate h = true) (hl : isLowSurrogate l = true)
    (s : Str) : points (h :: l :: s) = [h, l] :: points s := by
  rw [points, hh, hl]
  rfl

/-- A code unit that does not begin a pair is a code point. -/
theorem points_cons {u : ℕ} {s : Str}
    (h : isHighSurrogate u = true → ∀ v ∈ s.head?, isLowSurrogate v = false) :
    points (u :: s) = [u] :: points s := by
  cases s with
  | nil => rfl
  | cons v s =>
    rw [points, if_neg]
    rw [Bool.and_eq_true]
    rintro ⟨hu, hv⟩
    rw [h hu v rfl] at hv
    cases hv

theorem points_whole_append {p : Str} (hp : Whole p) (s : Str) :
    points (p ++ s) = p :: points s := by
  rcases hp with ⟨u, hu, rfl⟩ | ⟨h, l, hh, hl, rfl⟩
  · refine points_cons fun hhigh ↦ ?_
    rw [isSurrogate, hhigh] at hu
    cases hu
  · exact points_pair hh hl s

theorem points_flatten_append {l : List Str} (hl : ∀ p ∈ l, Whole p) (s : Str) :
    points (l.flatten ++ s) = l ++ points s := by
  induction l with
  | nil => rfl
  | cons p l ih =>
    obtain ⟨hp, hl⟩ := List.forall_mem_cons.1 hl
    rw [List.flatten_cons, List.append_assoc, points_whole_append hp, ih hl, List.cons_append]

/-- Whole code points are found again. -/
theorem points_flatten {l : List Str} (hl : ∀ p ∈ l, Whole p) : points l.flatten = l := by
  have h := points_flatten_append hl []
  rwa [List.append_nil, points, List.append_nil] at h

/-- A code point is whole or a lone surrogate. -/
theorem whole_of_mem_points {s p : Str} (h : p ∈ points s) :
    Whole p ∨ ∃ u, isSurrogate u = true ∧ p = [u] := by
  have hone : ∀ u, Whole [u] ∨ ∃ v, isSurrogate v = true ∧ ([u] : Str) = [v] := fun u ↦ by
    rcases hu : isSurrogate u
    · exact .inl (.inl ⟨u, hu, rfl⟩)
    · exact .inr ⟨u, hu, rfl⟩
  induction s using points.induct with
  | case1 => cases h
  | case2 u =>
    rw [points, List.mem_singleton] at h
    rw [h]
    exact hone u
  | case3 u v s hpair ih =>
    rw [Bool.and_eq_true] at hpair
    rw [points_pair hpair.1 hpair.2] at h
    rcases List.mem_cons.1 h with rfl | h
    · exact .inl (.inr ⟨u, v, hpair.1, hpair.2, rfl⟩)
    · exact ih h
  | case4 u v s hpair ih =>
    rw [points, if_neg hpair] at h
    rcases List.mem_cons.1 h with rfl | h
    · exact hone u
    · exact ih h

/-- Units related one by one make code points related one by one, if surrogates stay what they
are. -/
theorem points_forall₂ {r : ℕ → ℕ → Prop}
    (hr : ∀ u v, r u v → isHighSurrogate u = isHighSurrogate v ∧
      isLowSurrogate u = isLowSurrogate v) {s t : Str} (h : List.Forall₂ r s t) :
    List.Forall₂ (List.Forall₂ r) (points s) (points t) := by
  induction s using points.induct generalizing t with
  | case1 =>
    cases h
    exact .nil
  | case2 u =>
    obtain _ | ⟨hu, hrest⟩ := h
    cases hrest
    exact .cons (.cons hu .nil) .nil
  | case3 u v s hpair ih =>
    obtain _ | ⟨hu, h⟩ := h
    obtain _ | ⟨hv, h⟩ := h
    rw [Bool.and_eq_true] at hpair
    rw [points_pair hpair.1 hpair.2,
      points_pair ((hr _ _ hu).1 ▸ hpair.1) ((hr _ _ hv).2 ▸ hpair.2)]
    exact .cons (.cons hu (.cons hv .nil)) (ih h)
  | case4 u v s hpair ih =>
    obtain _ | ⟨hu, h⟩ := h
    obtain _ | ⟨hv, h⟩ := h
    rw [points, if_neg hpair, points, if_neg]
    · exact .cons (.cons hu .nil) (ih (.cons hv h))
    · rwa [← (hr _ _ hu).1, ← (hr _ _ hv).2]

/-- Changing the units changes the code points, if surrogates stay what they are. -/
theorem points_map {f : ℕ → ℕ} (hhigh : ∀ u, isHighSurrogate (f u) = isHighSurrogate u)
    (hlow : ∀ u, isLowSurrogate (f u) = isLowSurrogate u) (s : Str) :
    points (s.map f) = (points s).map (List.map f) := by
  have hunits : List.Forall₂ (fun u v ↦ f u = v) s (s.map f) := by
    rw [List.forall₂_map_right_iff, List.forall₂_same]
    exact fun _ _ ↦ rfl
  have h := points_forall₂ (fun u v huv ↦ by rw [← huv, hhigh, hlow]; exact ⟨rfl, rfl⟩) hunits
  have hmap : ∀ p q : Str, List.Forall₂ (fun u v ↦ f u = v) p q → p.map f = q := by
    intro p q hpq
    rw [← List.forall₂_eq_eq_eq, List.forall₂_map_left_iff]
    exact hpq
  have h' := h.imp hmap
  rw [← List.forall₂_map_left_iff (f := List.map f), List.forall₂_eq_eq_eq] at h'
  exact h'.symm

/-- What a code point may turn into: whole code points, or itself if it is a lone surrogate. -/
def TurnsInto (p : Str) (l : List Str) : Prop :=
  l ≠ [] ∧ (∀ x ∈ l, Whole x) ∨ ∃ u, isSurrogate u = true ∧ p = [u] ∧ l = [[u]]

theorem Whole.head_not_low {p : Str} (hp : Whole p) :
    ∃ u rest, p = u :: rest ∧ isLowSurrogate u = false := by
  rcases hp with ⟨u, hu, rfl⟩ | ⟨h, l, hh, hl, rfl⟩
  · rw [isSurrogate, Bool.or_eq_false_iff] at hu
    exact ⟨u, [], rfl, hu.2⟩
  · refine ⟨h, [l], rfl, ?_⟩
    simp only [isHighSurrogate, isLowSurrogate, Bool.and_eq_true, decide_eq_true_eq,
      Bool.and_eq_false_iff, decide_eq_false_iff_not] at hh ⊢
    omega

/-- The first code point begins with the first unit. -/
theorem exists_points_eq_cons (u : ℕ) (s : Str) : ∃ p ps rest, points (u :: s) = p :: ps ∧
    p = u :: rest := by
  cases s with
  | nil => exact ⟨[u], [], [], rfl, rfl⟩
  | cons v s =>
    rw [points]
    split
    · exact ⟨_, _, [v], rfl, rfl⟩
    · exact ⟨_, _, [], rfl, rfl⟩

theorem head_not_low_of_turned {s : Str} {ls : List (List Str)}
    (h : List.Forall₂ TurnsInto (points s) ls)
    (hs : ∀ v ∈ s.head?, isLowSurrogate v = false) :
    ∀ w ∈ ls.flatten.flatten.head?, isLowSurrogate w = false := by
  cases s with
  | nil =>
    cases h
    nofun
  | cons v s =>
    obtain ⟨p, ps, rest, hpoints, rfl⟩ := exists_points_eq_cons v s
    rw [hpoints] at h
    obtain _ | ⟨hturn, -⟩ := h
    rcases hturn with ⟨hne, hwhole⟩ | ⟨u, -, hp, rfl⟩
    · obtain ⟨x, l, rfl⟩ := List.exists_cons_of_ne_nil hne
      obtain ⟨w, wrest, rfl, hw⟩ := (hwhole x List.mem_cons_self).head_not_low
      rintro w' hw'
      obtain rfl := Option.some.inj hw'
      exact hw
    · rintro w hw
      obtain rfl := Option.some.inj hw
      obtain ⟨rfl, -⟩ := List.cons.inj hp
      exact hs v rfl

/-- Nothing is joined when each code point turns into others. -/
theorem points_turned {s : Str} {ls : List (List Str)}
    (h : List.Forall₂ TurnsInto (points s) ls) : points ls.flatten.flatten = ls.flatten := by
  -- one code point, when what comes after it does not begin in the middle of a pair
  have hstep : ∀ {p : Str} {l : List Str} {X : Str}, TurnsInto p l →
      (∀ u, p = [u] → isHighSurrogate u = true → ∀ w ∈ X.head?, isLowSurrogate w = false) →
      points (l.flatten ++ X) = l ++ points X := by
    intro p l X hturn hnext
    rcases hturn with ⟨-, hwhole⟩ | ⟨u, -, hp, rfl⟩
    · exact points_flatten_append hwhole X
    · exact points_cons (hnext u hp)
  induction s using points.induct generalizing ls with
  | case1 =>
    cases h
    rfl
  | case2 u =>
    obtain _ | ⟨hturn, hrest⟩ := h
    cases hrest
    rw [List.flatten_cons, List.flatten_append, hstep hturn fun _ _ _ w hw ↦ by simp at hw]
    rfl
  | case3 u v s hpair ih =>
    rw [points, if_pos hpair] at h
    obtain _ | ⟨hturn, hrest⟩ := h
    rw [List.flatten_cons, List.flatten_append, hstep hturn, ih hrest]
    exact fun w hw ↦ by cases hw
  | case4 u v s hpair ih =>
    rw [points, if_neg hpair] at h
    obtain _ | ⟨hturn, hrest⟩ := h
    rw [List.flatten_cons, List.flatten_append, hstep hturn, ih hrest]
    rintro w hw hhigh
    obtain ⟨rfl, -⟩ := List.cons.inj hw
    refine head_not_low_of_turned hrest fun v' hv' ↦ ?_
    obtain rfl := Option.some.inj hv'
    by_contra hlow
    exact hpair (Bool.and_eq_true_iff.2 ⟨hhigh, by simpa using hlow⟩)

/-! ### The data of a code point -/

/-- What the character database says of code points. -/
structure CharacterData where
  lower : Str → List Str
  cased : Str → Bool
  caseIgnorable : Str → Bool
  /-- the full canonical decomposition -/
  decompose : Str → List Str
  combiningClass : Str → ℕ
  /-- `\p{L}` or `\p{N}` -/
  isLetterOrNumber : Str → Bool

/-- `U+03A3` -/
def capitalSigma : Str :=
  [0x3A3]

/-- `U+03C2` -/
def finalSigma : Str :=
  [0x3C2]

namespace CharacterData

variable (D : CharacterData)

/-! ### Lower case -/

/-- A cased letter comes next, but for characters that case ignores. -/
def casedNext : List Str → Bool
  | [] => false
  | p :: rest => D.cased p || (D.caseIgnorable p && casedNext rest)

/-- A code point in lower case, with the code points before it, the nearest first, and after it. -/
def lowerPoint (before after : List Str) (p : Str) : List Str :=
  if p = capitalSigma ∧ D.casedNext before ∧ !D.casedNext after then [finalSigma] else D.lower p

/-- Each code point of a string in lower case. -/
def lowerPoints : List Str → List Str → List (List Str)
  | _, [] => []
  | before, p :: rest => D.lowerPoint before rest p :: lowerPoints (p :: before) rest

def toLowerCase (s : Str) : Str :=
  (D.lowerPoints [] (points s)).flatten.flatten

/-! ### Decomposition -/

/-- A code point goes before a string whose marks are in order. -/
def insertMark (p : Str) : List Str → List Str
  | [] => [p]
  | q :: rest =>
    if 0 < D.combiningClass q ∧ D.combiningClass q < D.combiningClass p then
      q :: insertMark p rest
    else p :: q :: rest

/-- Marks in canonical order. -/
def reorder (ps : List Str) : List Str :=
  ps.foldr D.insertMark []

def nfd (s : Str) : Str :=
  (D.reorder ((points s).flatMap D.decompose)).flatten

/-! ### What is relied on -/

/-- The steps of normalisation after the lower case. -/
def steps (ps : List Str) : List Str :=
  (ps.map (List.map homoglyph)).flatMap D.decompose

/-- Each step leaves a code point as it is. -/
structure Settled (p : Str) : Prop where
  halfWidth : p.map halfWidth = p
  lower : D.lower p = [p]
  homoglyph : p.map homoglyph = p
  decompose : D.decompose p = [p]

/-- The lower-case letter of a letter of the table. -/
def lowerKey (k : ℕ) : ℕ :=
  if (0x391 ≤ k ∧ k ≤ 0x3A9) ∨ (0x410 ≤ k ∧ k ≤ 0x42F) then k + 0x20
  else if 0x400 ≤ k ∧ k ≤ 0x40F then k + 0x50
  else k

/-- The letters and numbers that `apostrophe` does not take. -/
def isLetter (p : Str) : Bool :=
  D.isLetterOrNumber (p.map apostrophe)

/-- What the character database holds. -/
structure Lawful : Prop where
  lower_whole : ∀ p, Whole p → D.lower p ≠ [] ∧ ∀ x ∈ D.lower p, Whole x
  decompose_whole : ∀ p, Whole p → D.decompose p ≠ [] ∧ ∀ x ∈ D.decompose p, Whole x
  /-- a lone surrogate has no mapping, and is no letter -/
  surrogate : ∀ u, isSurrogate u = true → D.lower [u] = [[u]] ∧ D.decompose [u] = [[u]] ∧
    D.isLetterOrNumber [u] = false
  /-- the space, the apostrophe and the hyphen -/
  mark : ∀ u ∈ [0x20, 0x27, 0x2D], D.lower [u] = [[u]] ∧ D.decompose [u] = [[u]] ∧
    D.combiningClass [u] = 0 ∧ D.isLetterOrNumber [u] = false
  letter_units : ∀ p, Whole p → D.isLetterOrNumber p = true → ∀ u ∈ p,
    isInvisible u = false ∧ isDiacritic u = false ∧ isSpace u = false
  letter_class : ∀ p, Whole p → D.isLetterOrNumber p = true → D.combiningClass p = 0
  sigma : D.lower capitalSigma = [[0x3C3]]
  finalSigma : D.decompose finalSigma = [finalSigma] ∧ D.isLetterOrNumber finalSigma = true
  /-- a letter comes to letters -/
  letter_kept : ∀ p, Whole p → D.isLetter p = true →
    ∃ x ∈ D.steps (D.lower (p.map Aml.halfWidth)), D.isLetter x = true
  /-- a letter comes to itself only when no step changes it -/
  self_kept : ∀ p, Whole p → D.isLetter p = true →
    p ∈ D.steps (D.lower (p.map Aml.halfWidth)) → D.Settled p
  key : ∀ k c, homoglyphTable.lookup k = some c → D.cased [k] = D.cased [c.toNat] ∧
    D.caseIgnorable [k] = D.caseIgnorable [c.toNat] ∧ D.lower [k] = [[lowerKey k]] ∧
    D.decompose [lowerKey k] = [[lowerKey k]]
  image : ∀ k c, homoglyphTable.lookup k = some c → D.lower [c.toNat] = [[c.toNat]] ∧
    D.decompose [c.toNat] = [[c.toNat]] ∧ D.isLetterOrNumber [c.toNat] = true

end CharacterData

/-- The language's functions follow the character database. -/
structure Unicode.Follows (U : Unicode) (D : CharacterData) : Prop where
  toLowerCase : ∀ s, U.toLowerCase s = D.toLowerCase s
  nfd : ∀ s, U.nfd s = D.nfd s
  isLetterOrNumber : ∀ p, U.isLetterOrNumber p = D.isLetterOrNumber p

end Proofmark.Aml
