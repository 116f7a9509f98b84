import Proofmark.Aml.Normalize

/-!
# Dates of birth, countries and jurisdictions

`identity.ts`, the descriptors of `normalize.ts` and the lists of `jurisdiction.ts`. Identity
descriptors are compared apart from the name: a comparison supports a hit, conflicts with it, or
says nothing.
-/

namespace Proofmark.Aml

def isDigit (u : ℕ) : Bool :=
  0x30 ≤ u && u ≤ 0x39

def isLetter (u : ℕ) : Bool :=
  (0x41 ≤ u && u ≤ 0x5A) || (0x61 ≤ u && u ≤ 0x7A)

def isUpper (u : ℕ) : Bool :=
  0x41 ≤ u && u ≤ 0x5A

def lowerLetter (u : ℕ) : ℕ :=
  if isUpper u then u + 0x20 else u

/-- The number that digits write. -/
def digits (s : Str) : ℕ :=
  s.foldl (fun n u ↦ n * 10 + (u - 0x30)) 0

/-- `/^\d{4}$/` -/
def isYear (s : Str) : Bool :=
  s.length = 4 && s.all isDigit

/-- `/^\d{4}-\d{2}-\d{2}$/` -/
def isDate (s : Str) : Bool :=
  s.length = 10 && (s.take 4).all isDigit && s[4]? = some 0x2D && ((s.drop 5).take 2).all isDigit &&
    s[7]? = some 0x2D && (s.drop 8).all isDigit

/-! ### Normal forms -/

/-- The months as the lists write them. -/
def months : List Str :=
  [['j', 'a', 'n'], ['f', 'e', 'b'], ['m', 'a', 'r'], ['a', 'p', 'r'], ['m', 'a', 'y'],
    ['j', 'u', 'n'], ['j', 'u', 'l'], ['a', 'u', 'g'], ['s', 'e', 'p'], ['o', 'c', 't'],
    ['n', 'o', 'v'], ['d', 'e', 'c']].map ascii

/-- Two digits of a number below a hundred. -/
def twoDigits (n : ℕ) : Str :=
  [0x30 + n / 10, 0x30 + n % 10]

/-- `/^(\d{1,2})\s+([A-Za-z]{3})\s+(\d{4})$/`, as day, month and year. -/
def writtenDate (s : Str) : Option (Str × Str × Str) :=
  let day := s.takeWhile isDigit
  let afterDay := s.dropWhile isDigit
  let month := (afterDay.dropWhile isSpace).take 3
  let afterMonth := (afterDay.dropWhile isSpace).drop 3
  let year := afterMonth.dropWhile isSpace
  if (day.length = 1 ∨ day.length = 2) ∧ (afterDay.head?.any isSpace) ∧
      month.length = 3 ∧ month.all isLetter ∧ (afterMonth.head?.any isSpace) ∧ isYear year then
    some (day, month, year)
  else none

/-- The first four digits in a row. -/
def firstYear : Str → Option Str
  | [] => none
  | u :: rest => if isYear ((u :: rest).take 4) then some ((u :: rest).take 4) else firstYear rest

/-- `YYYY-MM-DD`, or `YYYY` when only a year is known. -/
def normalizeDob (raw : Str) : Option Str :=
  if raw = [] then none
  else
    let s := trim raw
    if isDate s then some s
    else
      match writtenDate s with
      | some (day, month, year) =>
        let month := month.map lowerLetter
        if month ∈ months then
          some (year ++ [0x2D] ++ twoDigits (months.idxOf month + 1) ++ [0x2D] ++
            (if day.length = 1 then 0x30 :: day else day))
        else firstYear s
      | none => firstYear s

/-- Two capital letters. -/
def isCountry (s : Str) : Bool :=
  s.length = 2 && s.all isUpper

def Unicode.normalizeCountry (U : Unicode) (v : Str) : Str :=
  (U.toUpperCase (trim v)).take 2

/-! ### Comparisons -/

inductive DobComparison
  | match_ | yearMatch | conflict | missing | invalid
  deriving DecidableEq

inductive CountryComparison
  | match_ | conflict | missing | invalid
  deriving DecidableEq

structure IdentityComparison where
  dob : DobComparison
  nationality : CountryComparison
  deriving DecidableEq

inductive Precision
  | day | year
  deriving DecidableEq

def isLeap (year : ℕ) : Bool :=
  year % 4 = 0 && (year % 100 ≠ 0 || year % 400 = 0)

def daysIn (year month : ℕ) : ℕ :=
  if month = 2 then (if isLeap year then 29 else 28)
  else if month = 4 ∨ month = 6 ∨ month = 9 ∨ month = 11 then 30
  else 31

/-- A year, or a day that the calendar has; years have no leading zero. -/
def precision (value : Str) : Option Precision :=
  if value.head? = some 0x30 then none
  else if isYear value then some .year
  else if isDate value then
    let year := digits (value.take 4)
    let month := digits ((value.drop 5).take 2)
    let day := digits (value.drop 8)
    if 1 ≤ month ∧ month ≤ 12 ∧ 1 ≤ day ∧ day ≤ daysIn year month then some .day else none
  else none

/-- Listed dates are alternatives. A year counts only where one side has no more. -/
def compareDob (subject : Option Str) (listed : List Str) : DobComparison :=
  match subject with
  | none => .missing
  | some subject =>
    if subject = [] then .missing
    else
      match precision subject with
      | none => .invalid
      | some p =>
        let valid := listed.filter fun value ↦ (precision value).isSome
        if listed = [] then .missing
        else if valid = [] then .invalid
        else if p = .day && valid.any fun value ↦
            precision value = some .day && value = subject then
          .match_
        else if valid.any fun value ↦ value.take 4 = subject.take 4 &&
            (p = .year || precision value = some .year) then
          .yearMatch
        else .conflict

def compareCountry (nationality : Str) (listedCountries : List Str) : CountryComparison :=
  if nationality = [] ∨ listedCountries = [] then .missing
  else if !isCountry nationality || !listedCountries.any isCountry then .invalid
  else if nationality ∈ listedCountries then .match_
  else .conflict

def compareIdentity (dob : Option Str) (nationality : Str) (listedDobs listedCountries : List Str) :
    IdentityComparison :=
  ⟨compareDob dob listedDobs, compareCountry nationality listedCountries⟩

def identityConflicts (c : IdentityComparison) : Bool :=
  c.dob = .conflict || c.nationality = .conflict

def identityUnusable (c : IdentityComparison) : Bool :=
  c.dob = .invalid || c.nationality = .invalid

example : compareDob (some (ascii ['1', '9', '8', '0', '-', '0', '2', '-', '2', '9']))
    [ascii ['1', '9', '8', '0']] = .yearMatch := by decide +kernel

/-! ### Jurisdictions -/

/-- FATF's call for action. -/
def callForAction : List Str :=
  [['K', 'P'], ['I', 'R'], ['M', 'M']].map ascii

/-- FATF's increased monitoring. -/
def increasedMonitoring : List Str :=
  [['A', 'O'], ['B', 'O'], ['B', 'A'], ['B', 'G'], ['C', 'M'], ['C', 'I'], ['C', 'D'], ['H', 'T'],
    ['I', 'Q'], ['K', 'E'], ['K', 'W'], ['L', 'A'], ['L', 'B'], ['M', 'C'], ['N', 'P'], ['P', 'G'],
    ['S', 'S'], ['S', 'Y'], ['V', 'E'], ['V', 'N'], ['V', 'G'], ['Y', 'E']].map ascii

/-- The level of a jurisdiction. -/
def Unicode.jurisdictionRisk (U : Unicode) (iso2 : Str) : ℕ :=
  let c := U.toUpperCase iso2
  if c ∈ callForAction then 2 else if c ∈ increasedMonitoring then 1 else 0

end Proofmark.Aml
