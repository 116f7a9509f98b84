import Proofmark.Aml.Normalize

/-!
# Hangul names in Latin letters

`romanize.ts`. A name that has Hangul syllables is expanded to the forms in which it may be listed:
the first syllable is the surname, with its usual and its DPRK spellings, and the rest is the given
name, by syllable. The expansion is an inference of the program, no list asserts it.
-/

namespace Proofmark.Aml

/-- `CHO` -/
def cho : List Str :=
  [['g'], ['k', 'k'], ['n'], ['d'], ['t', 't'], ['r'], ['m'], ['b'], ['p', 'p'], ['s'],
    ['s', 's'], [], ['j'], ['j', 'j'], ['c', 'h'], ['k'], ['t'], ['p'], ['h']].map ascii

/-- `JUNG` -/
def jung : List Str :=
  [['a'], ['a', 'e'], ['y', 'a'], ['y', 'a', 'e'], ['e', 'o'], ['e'], ['y', 'e', 'o'],
    ['y', 'e'], ['o'], ['w', 'a'], ['w', 'a', 'e'], ['o', 'e'], ['y', 'o'], ['u'], ['w', 'o'],
    ['w', 'e'], ['w', 'i'], ['y', 'u'], ['e', 'u'], ['u', 'i'], ['i']].map ascii

/-- `JONG` -/
def jong : List Str :=
  [[], ['k'], ['k'], ['k'], ['n'], ['n'], ['n'], ['t'], ['l'], ['l'], ['l'], ['l'], ['l'], ['l'],
    ['l'], ['l'], ['m'], ['p'], ['p'], ['t'], ['t'], ['n', 'g'], ['t'], ['t'], ['k'], ['t'],
    ['p'], ['t']].map ascii

/-- `SURNAME_VARIANTS`: surnames as people spell them. -/
def surnameVariants : List (ℕ × List Str) :=
  [(0xAE40, [['k', 'i', 'm'], ['g', 'i', 'm']].map ascii),
    (0xC774, [['l', 'e', 'e'], ['y', 'i'], ['r', 'h', 'e', 'e'], ['r', 'i'], ['i']].map ascii),
    (0xBC15, [['p', 'a', 'r', 'k'], ['p', 'a', 'k'], ['b', 'a', 'k']].map ascii),
    (0xCD5C, [['c', 'h', 'o', 'i'], ['c', 'h', 'o', 'e'], ['c', 'h', 'w', 'e']].map ascii),
    (0xC815, [['j', 'u', 'n', 'g'], ['j', 'e', 'o', 'n', 'g'], ['c', 'h', 'u', 'n', 'g'],
      ['j', 'o', 'n', 'g']].map ascii),
    (0xAC15, [['k', 'a', 'n', 'g'], ['g', 'a', 'n', 'g']].map ascii),
    (0xC870, [['c', 'h', 'o'], ['j', 'o']].map ascii),
    (0xC724, [['y', 'o', 'o', 'n'], ['y', 'u', 'n']].map ascii),
    (0xC7A5, [['j', 'a', 'n', 'g'], ['c', 'h', 'a', 'n', 'g']].map ascii),
    (0xC784, [['l', 'i', 'm'], ['i', 'm'], ['r', 'i', 'm']].map ascii),
    (0xD55C, [['h', 'a', 'n']].map ascii), (0xC624, [['o', 'h'], ['o']].map ascii),
    (0xC11C, [['s', 'e', 'o'], ['s', 'u', 'h'], ['s', 'o']].map ascii),
    (0xC2E0, [['s', 'h', 'i', 'n'], ['s', 'i', 'n']].map ascii),
    (0xAD8C, [['k', 'w', 'o', 'n'], ['g', 'w', 'o', 'n']].map ascii),
    (0xD669, [['h', 'w', 'a', 'n', 'g']].map ascii),
    (0xC548, [['a', 'h', 'n'], ['a', 'n']].map ascii), (0xC1A1, [['s', 'o', 'n', 'g']].map ascii),
    (0xC804, [['j', 'e', 'o', 'n'], ['j', 'u', 'n'], ['c', 'h', 'u', 'n']].map ascii),
    (0xD64D, [['h', 'o', 'n', 'g']].map ascii),
    (0xC720, [['y', 'o', 'o'], ['y', 'u'], ['r', 'y', 'u']].map ascii),
    (0xACE0, [['k', 'o'], ['g', 'o']].map ascii),
    (0xBB38, [['m', 'o', 'o', 'n'], ['m', 'u', 'n']].map ascii),
    (0xC591, [['y', 'a', 'n', 'g']].map ascii),
    (0xC190, [['s', 'o', 'n'], ['s', 'o', 'h', 'n']].map ascii),
    (0xBC30, [['b', 'a', 'e'], ['p', 'a', 'e']].map ascii),
    (0xBC31, [['b', 'a', 'e', 'k'], ['p', 'a', 'e', 'k'], ['b', 'a', 'c', 'k']].map ascii),
    (0xB178, [['n', 'o', 'h'], ['n', 'o'], ['r', 'o', 'h']].map ascii),
    (0xD5C8, [['h', 'e', 'o'], ['h', 'u', 'r'], ['h', 'u', 'h']].map ascii),
    (0xC2EC, [['s', 'h', 'i', 'm'], ['s', 'i', 'm']].map ascii)]

/-- `DPRK_VARIANTS`: official spellings, which the lists carry. -/
def dprkVariants : List (ℕ × List Str) :=
  [(0xAE40, [['k', 'i', 'm']].map ascii),
    (0xB9AC, [['r', 'i'], ['l', 'i'], ['l', 'e', 'e']].map ascii),
    (0xBC15, [['p', 'a', 'k']].map ascii), (0xCD5C, [['c', 'h', 'o', 'e']].map ascii),
    (0xC815, [['j', 'o', 'n', 'g'], ['j', 'u', 'n', 'g']].map ascii),
    (0xC8FC, [['j', 'u'], ['c', 'h', 'u']].map ascii),
    (0xC740, [['u', 'n'], ['e', 'u', 'n']].map ascii), (0xC77C, [['i', 'l']].map ascii),
    (0xC131, [['s', 'o', 'n', 'g'], ['s', 'u', 'n', 'g']].map ascii),
    (0xCCA0, [['c', 'h', 'o', 'l'], ['c', 'h', 'e', 'o', 'l']].map ascii),
    (0xC601, [['y', 'o', 'n', 'g'], ['y', 'o', 'u', 'n', 'g']].map ascii),
    (0xB0A8, [['n', 'a', 'm']].map ascii)]

def isHangulSyllable (u : ℕ) : Bool :=
  0xAC00 ≤ u && u ≤ 0xD7A3

/-- One syllable by its initial, medial and final. -/
def syllableRR (syllable : ℕ) : Str :=
  let c := syllable - 0xAC00
  cho.getD (c / (21 * 28)) [] ++ jung.getD (c % (21 * 28) / 28) [] ++ jong.getD (c % 28) []

/-- No surrogate is a syllable, so the code units are tested. -/
def hasHangul (s : Str) : Bool :=
  s.any isHangulSyllable

/-- Every choice of one form for each of the first four syllables. -/
def cartesian (arrs : List (List Str)) : List (List Str) :=
  (arrs.take 4).foldl (fun acc cur ↦ acc.flatMap fun a ↦ cur.map fun c ↦ a ++ [c]) [[]]

/-- The forms joined without a separator, by a space and by a hyphen. -/
def joined (forms : List Str) : List Str :=
  [forms.flatten, [0x20].intercalate forms, [0x2D].intercalate forms]

def surnameForms (surname : ℕ) : List Str :=
  (syllableRR surname :: (surnameVariants.lookup surname).getD [] ++
    (dprkVariants.lookup surname).getD []).eraseDups

def givenForms (given : List ℕ) : List Str :=
  if given = [] then []
  else
    let alts := given.map fun g ↦ syllableRR g :: (dprkVariants.lookup g).getD []
    (joined (given.map syllableRR) ++ (cartesian alts).flatMap joined).eraseDups

def romanizeVariants (name : Str) : List Str :=
  let chars := (name.filter fun u ↦ !isSpace u).filter isHangulSyllable
  match chars with
  | [] => []
  | surname :: given =>
    let givenForms := givenForms given
    let whole := (surnameForms surname).flatMap fun s ↦
      if givenForms = [] then [s]
      else givenForms.flatMap fun g ↦ [s ++ [0x20] ++ g, g ++ [0x20] ++ s]
    (whole ++ [(chars.map syllableRR).flatten]).eraseDups

example : ascii ['k', 'i', 'm', ' ', 'j', 'o', 'n', 'g', '-', 'u', 'n'] ∈
    romanizeVariants [0xAE40, 0xC815, 0xC740] := by decide +kernel

end Proofmark.Aml
