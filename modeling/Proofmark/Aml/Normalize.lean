import Mathlib.Data.List.DropRight

/-!
# Names and their tokens

`normalize.ts`. A string is the list of its UTF-16 code units, so unpaired surrogates are among
them. What the language knows of Unicode (lower case, the normal forms, the letters and numbers) is
a parameter; everything else is as the source has it.
-/

namespace Proofmark.Aml

/-- A string: its UTF-16 code units. -/
abbrev Str := List ℕ

instance : LawfulBEq Str :=
  inferInstance

/-- A string of ASCII letters. -/
def ascii (letters : List Char) : Str :=
  letters.map Char.toNat

def isHighSurrogate (u : ℕ) : Bool :=
  0xD800 ≤ u && u ≤ 0xDBFF

def isLowSurrogate (u : ℕ) : Bool :=
  0xDC00 ≤ u && u ≤ 0xDFFF

/-- The code points of a string, each as a string: a high and a low surrogate are one. -/
def points : Str → List Str
  | [] => []
  | [u] => [[u]]
  | u :: v :: rest =>
    if isHighSurrogate u && isLowSurrogate v then [u, v] :: points rest
    else [u] :: points (v :: rest)

theorem flatten_points (s : Str) : (points s).flatten = s := by
  induction s using points.induct with
  | case1 => rfl
  | case2 u => rfl
  | case3 u v s hpair ih => rw [points, if_pos hpair, List.flatten_cons, ih]; rfl
  | case4 u v s hpair ih => rw [points, if_neg hpair, List.flatten_cons, ih]; rfl

/-- What the language knows of Unicode. -/
structure Unicode where
  toLowerCase : Str → Str
  toUpperCase : Str → Str
  nfd : Str → Str
  nfc : Str → Str
  /-- `\p{L}` or `\p{N}`, of a code point -/
  isLetterOrNumber : Str → Bool

/-- `\s` -/
def isSpace (u : ℕ) : Bool :=
  (0x09 ≤ u && u ≤ 0x0D) || u = 0x20 || u = 0xA0 || u = 0x1680 || (0x2000 ≤ u && u ≤ 0x200A) ||
    u = 0x2028 || u = 0x2029 || u = 0x202F || u = 0x205F || u = 0x3000 || u = 0xFEFF

/-- `INVISIBLE` -/
def isInvisible (u : ℕ) : Bool :=
  (0x200B ≤ u && u ≤ 0x200F) || (0x202A ≤ u && u ≤ 0x202E) || (0x2060 ≤ u && u ≤ 0x2064) ||
    u = 0xFEFF || u = 0xAD || u = 0x34F

/-- `HOMOGLYPH`: Cyrillic and Greek letters that look Latin. -/
def homoglyphTable : List (ℕ × Char) :=
  [ -- Cyrillic to Latin
    (0x430, 'a'), (0x432, 'b'), (0x441, 'c'), (0x435, 'e'), (0x43D, 'h'), (0x43A, 'k'),
    (0x43C, 'm'), (0x43E, 'o'), (0x440, 'p'), (0x442, 't'), (0x445, 'x'), (0x443, 'y'),
    (0x456, 'i'), (0x458, 'j'), (0x455, 's'),
    (0x410, 'a'), (0x412, 'b'), (0x421, 'c'), (0x415, 'e'), (0x41D, 'h'), (0x41A, 'k'),
    (0x41C, 'm'), (0x41E, 'o'), (0x420, 'p'), (0x422, 't'), (0x425, 'x'), (0x423, 'y'),
    (0x406, 'i'), (0x408, 'j'), (0x405, 's'),
    -- Greek to Latin
    (0x3B1, 'a'), (0x3B2, 'b'), (0x3B5, 'e'), (0x3B9, 'i'), (0x3BA, 'k'), (0x3BD, 'v'),
    (0x3BF, 'o'), (0x3C1, 'p'), (0x3C4, 't'), (0x3C5, 'u'), (0x3C7, 'x'), (0x391, 'a'),
    (0x392, 'b'), (0x395, 'e'), (0x399, 'i'),
    (0x39A, 'k'), (0x39C, 'm'), (0x39D, 'n'), (0x39F, 'o'), (0x3A1, 'p'), (0x3A4, 't'),
    (0x3A5, 'y'), (0x3A7, 'x'), (0x396, 'z'), (0x397, 'h')]

def homoglyph (u : ℕ) : ℕ :=
  ((homoglyphTable.lookup u).map Char.toNat).getD u

/-- Full width to half width, of a code unit. -/
def halfWidth (u : ℕ) : ℕ :=
  if 0xFF01 ≤ u ∧ u ≤ 0xFF5E then u - 0xFEE0 else if u = 0x3000 then 0x20 else u

def toHalfWidth (s : Str) : Str :=
  s.map halfWidth

def mapHomoglyphs (s : Str) : Str :=
  s.map homoglyph

/-- The marks of the block `U+0300` to `U+036F`. -/
def isDiacritic (u : ℕ) : Bool :=
  0x300 ≤ u && u ≤ 0x36F

def apostrophe (u : ℕ) : ℕ :=
  if u = 0x60 ∨ u = 0xB4 ∨ u = 0x2BB ∨ u = 0x2BC then 0x27 else u

/-- `/\s+/g` to one space; `after` says that a space was just written. -/
def collapseSpaces : Bool → Str → Str
  | _, [] => []
  | after, u :: rest =>
    if isSpace u then (if after then [] else [0x20]) ++ collapseSpaces true rest
    else u :: collapseSpaces false rest

def trim (s : Str) : Str :=
  (s.dropWhile isSpace).rdropWhile isSpace

namespace Unicode

variable (U : Unicode)

/-- What is kept of a code point: letters, numbers, spaces, the apostrophe and the hyphen. -/
def keep (point : Str) : Bool :=
  U.isLetterOrNumber point || point.any fun u ↦ isSpace u || u = 0x27 || u = 0x2D

def punctuationToSpace (s : Str) : Str :=
  (points s).flatMap fun point ↦ if U.keep point then point else [0x20]

/-- The letters of a name: no invisible characters, half width, lower case, Latin homoglyphs. -/
def fold (raw : Str) : Str :=
  mapHomoglyphs (U.toLowerCase (toHalfWidth (raw.filter fun u ↦ !isInvisible u)))

/-- What follows the decomposition. -/
def finish (s : Str) : Str :=
  let s := s.filter fun u ↦ !isDiacritic u
  let s := s.map apostrophe
  let s := U.punctuationToSpace s
  trim (collapseSpaces false s)

def normalizeName (raw : Str) : Str :=
  U.finish (U.nfd (U.fold raw))

end Unicode

/-! ### Tokens -/

def isSeparator (u : ℕ) : Bool :=
  isSpace u || u = 0x27 || u = 0x2D

def tokenize (normalized : Str) : List Str :=
  (normalized.splitOnP isSeparator).filter fun token ↦ token ≠ []

/-- `TITLES` -/
def titles : List Str :=
  [['m', 'r'], ['m', 'r', 's'], ['m', 's'], ['d', 'r'], ['p', 'r', 'o', 'f'],
    ['s', 'h', 'e', 'i', 'k', 'h'], ['h', 'a', 'j', 'i'], ['a', 'l'], ['e', 'l'], ['b', 'i', 'n'],
    ['i', 'b', 'n'], ['a', 'b', 'u'], ['v', 'o', 'n'], ['v', 'a', 'n'], ['d', 'e'], ['d', 'e', 'l'],
    ['d', 'e', 'l', 'l', 'a'], ['d', 'i'], ['d', 'a'], ['d', 'o', 's'], ['d', 'a', 's'], ['l', 'a'],
    ['l', 'e']].map ascii

/-- The tokens that are not titles, or all of them when they all are. -/
def contentTokens (tokens : List Str) : List Str :=
  let kept := tokens.filter fun token ↦ token ∉ titles
  if kept = [] then tokens else kept

/-- `contentTokens(tokenize(normalizeName(s)))` -/
def Unicode.nameTokens (U : Unicode) (s : Str) : List Str :=
  contentTokens (tokenize (U.normalizeName s))

end Proofmark.Aml
