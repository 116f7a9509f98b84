import Mathlib.Data.List.TakeWhile
import Mathlib.Data.List.Nodup
import Proofmark.Numeric.Decimal

/-!
# JSON texts

JSON values over any type of numbers, `print` without whitespace, as `JSON.stringify` writes, and
`parse` of any JSON text, as `JSON.parse` reads. A text is a list of characters, so a lone surrogate
is not one, neither in a string nor as an escape.

`read` recognises the grammar and keeps the fields of an object as they stand in the text;
`normalize` makes of them the properties of an object: a repeated key keeps its place and takes the
last value, and the keys that are array indices come first, in their order.

**A printed value reads as itself** (`read_print`), so printing is injective (`print_injective`),
and a value whose objects list their properties in order survives a round trip (`parse_print`).
-/

namespace JsonText

open Numeric

/-! ### Values -/

/-- A character that a number is written with. -/
def isNumeralChar (c : Char) : Bool :=
  c.isDigit || c = '-' || c = '+' || c = '.' || c = 'e' || c = 'E'

/-- How the numbers of a language are written and read. -/
structure Numerals (N : Type) where
  print : N → List Char
  read : List Char → Option N
  read_print : ∀ n, read (print n) = some n
  isNumeralChar_of_mem : ∀ n, ∀ c ∈ print n, isNumeralChar c = true
  print_ne_nil : ∀ n, print n ≠ []

/-- JSON values. -/
inductive Value (N : Type)
  | null
  | bool (b : Bool)
  | number (n : N)
  | string (t : List Char)
  | array (items : List (Value N))
  | object (fields : List (List Char × Value N))

variable {N : Type}

/-- The whole numbers. -/
def integers : Numerals ℤ where
  print
    | .ofNat n => Decimal.digits n
    | .negSucc n => '-' :: Decimal.digits (n + 1)
  read
    | '-' :: t => (Decimal.ofDigits? t).map fun n ↦ -(n : ℤ)
    | t => (Decimal.ofDigits? t).map fun n ↦ (n : ℤ)
  read_print n := by
    cases n with
    | ofNat n =>
      have hsign : ∀ t, Decimal.digits n ≠ '-' :: t := fun t h ↦
        absurd (Decimal.isDigit_of_mem_digits (h ▸ List.mem_cons_self)) (by decide)
      show (match Decimal.digits n with
        | '-' :: t => (Decimal.ofDigits? t).map fun n ↦ -(n : ℤ)
        | t => (Decimal.ofDigits? t).map fun n ↦ (n : ℤ)) = _
      split
      case h_1 t h => exact absurd h (hsign t)
      case h_2 => simp
    | negSucc n =>
      show (Decimal.ofDigits? (Decimal.digits (n + 1))).map (fun n ↦ -(n : ℤ)) = _
      rw [Decimal.ofDigits?_digits]
      rfl
  isNumeralChar_of_mem n c h := by
    have hdigit : ∀ m, c ∈ Decimal.digits m → isNumeralChar c = true := fun m hc ↦ by
      simp [isNumeralChar, Decimal.isDigit_of_mem_digits hc]
    cases n with
    | ofNat n => exact hdigit n h
    | negSucc n =>
      rcases List.mem_cons.1 h with rfl | h
      · rfl
      · exact hdigit _ h
  print_ne_nil n := by
    cases n with
    | ofNat n => exact Nat.toDigits_ne_nil
    | negSucc n => exact List.cons_ne_nil _ _

/-! ### Printing -/

def hexDigit (n : ℕ) : Char :=
  if n < 10 then Char.ofNat (48 + n) else Char.ofNat (87 + n)

/-- A character of a string literal. -/
def escape (c : Char) : List Char :=
  if c = '"' then ['\\', '"']
  else if c = '\\' then ['\\', '\\']
  else if c.toNat = 8 then ['\\', 'b']
  else if c.toNat = 9 then ['\\', 't']
  else if c.toNat = 10 then ['\\', 'n']
  else if c.toNat = 12 then ['\\', 'f']
  else if c.toNat = 13 then ['\\', 'r']
  else if c.toNat < 32 then
    ['\\', 'u', '0', '0', hexDigit (c.toNat / 16), hexDigit (c.toNat % 16)]
  else [c]

/-- A string literal after its opening quote. -/
def printBody (t : List Char) : List Char :=
  t.flatMap escape ++ ['"']

section Printing

variable (S : Numerals N)

mutual

/-- `JSON.stringify` -/
def print : Value N → List Char
  | .null => ['n', 'u', 'l', 'l']
  | .bool true => ['t', 'r', 'u', 'e']
  | .bool false => ['f', 'a', 'l', 's', 'e']
  | .number n => S.print n
  | .string t => '"' :: printBody t
  | .array [] => ['[', ']']
  | .array (v :: items) => '[' :: (print v ++ printItems items)
  | .object [] => ['{', '}']
  | .object ((k, v) :: fields) =>
    '{' :: '"' :: (printBody k ++ ':' :: (print v ++ printFields fields))

/-- The rest of an array. -/
def printItems : List (Value N) → List Char
  | [] => [']']
  | v :: items => ',' :: (print v ++ printItems items)

/-- The rest of an object. -/
def printFields : List (List Char × Value N) → List Char
  | [] => ['}']
  | (k, v) :: fields =>
    ',' :: '"' :: (printBody k ++ ':' :: (print v ++ printFields fields))

end

end Printing

/-! ### Reading -/

def isSpace (c : Char) : Bool :=
  c = ' ' || c.toNat = 9 || c.toNat = 10 || c.toNat = 13

def skip (t : List Char) : List Char :=
  t.dropWhile isSpace

def hexValue (c : Char) : Option ℕ :=
  if '0' ≤ c ∧ c ≤ '9' then some (c.toNat - 48)
  else if 'a' ≤ c ∧ c ≤ 'f' then some (c.toNat - 87)
  else if 'A' ≤ c ∧ c ≤ 'F' then some (c.toNat - 55)
  else none

/-- The code unit of four hex digits. -/
def codeUnit (a b c d : Char) : Option ℕ := do
  let a ← hexValue a
  let b ← hexValue b
  let c ← hexValue c
  let d ← hexValue d
  return 4096 * a + 256 * b + 16 * c + d

/-- An escape of one character. -/
def unescape (c : Char) : Option Char :=
  if c = '"' ∨ c = '\\' ∨ c = '/' then some c
  else if c = 'b' then some (Char.ofNat 8)
  else if c = 't' then some (Char.ofNat 9)
  else if c = 'n' then some (Char.ofNat 10)
  else if c = 'f' then some (Char.ofNat 12)
  else if c = 'r' then some (Char.ofNat 13)
  else none

/-- A string literal after its opening quote: the string, and the text after its closing quote. -/
def readBody : List Char → Option (List Char × List Char)
  | [] => none
  | c :: t =>
    if c = '"' then some ([], t)
    else if c = '\\' then
      match t with
      | 'u' :: a :: b :: c :: d :: t =>
        match codeUnit a b c d with
        | none => none
        | some high =>
          if high < 55296 ∨ 57344 ≤ high then
            (readBody t).map fun r ↦ (Char.ofNat high :: r.1, r.2)
          else
            -- a surrogate pair
            match t with
            | '\\' :: 'u' :: a :: b :: c :: d :: t =>
              match codeUnit a b c d with
              | none => none
              | some low =>
                if high < 56320 ∧ 56320 ≤ low ∧ low < 57344 then
                  (readBody t).map fun r ↦
                    (Char.ofNat (65536 + 1024 * (high - 55296) + (low - 56320)) :: r.1, r.2)
                else none
            | _ => none
      | e :: t =>
        match unescape e with
        | none => none
        | some c => (readBody t).map fun r ↦ (c :: r.1, r.2)
      | [] => none
    else if c.toNat < 32 then none
    else (readBody t).map fun r ↦ (c :: r.1, r.2)

/-- The text after a word. -/
def after (word t : List Char) : Option (List Char) :=
  if t.take word.length = word then some (t.drop word.length) else none

section Reading

variable (S : Numerals N)

/-- A number, as long as it goes. -/
def readNumeral (t : List Char) : Option (Value N × List Char) :=
  (S.read (t.takeWhile isNumeralChar)).map fun n ↦ (.number n, t.dropWhile isNumeralChar)

mutual

/-- A value and the text after it. -/
def readValue : ℕ → List Char → Option (Value N × List Char)
  | 0, _ => none
  | fuel + 1, t =>
    match skip t with
    | [] => none
    | c :: t =>
      if c = '"' then (readBody t).map fun r ↦ (.string r.1, r.2)
      else if c = '[' then
        match skip t with
        | ']' :: t => some (.array [], t)
        | _ => do
          let (v, t) ← readValue fuel t
          let (items, t) ← readItems fuel t
          return (.array (v :: items), t)
      else if c = '{' then
        match skip t with
        | '}' :: t => some (.object [], t)
        | _ => do
          let (field, t) ← readField fuel t
          let (fields, t) ← readFields fuel t
          return (.object (field :: fields), t)
      else if c = 'n' then (after ['u', 'l', 'l'] t).map fun t ↦ (.null, t)
      else if c = 't' then (after ['r', 'u', 'e'] t).map fun t ↦ (.bool true, t)
      else if c = 'f' then (after ['a', 'l', 's', 'e'] t).map fun t ↦ (.bool false, t)
      else readNumeral S (c :: t)

/-- The rest of an array. -/
def readItems : ℕ → List Char → Option (List (Value N) × List Char)
  | 0, _ => none
  | fuel + 1, t =>
    match skip t with
    | ']' :: t => some ([], t)
    | ',' :: t => do
      let (v, t) ← readValue fuel t
      let (items, t) ← readItems fuel t
      return (v :: items, t)
    | _ => none

/-- A key and its value. -/
def readField : ℕ → List Char → Option ((List Char × Value N) × List Char)
  | 0, _ => none
  | fuel + 1, t =>
    match skip t with
    | '"' :: t => do
      let (k, t) ← readBody t
      match skip t with
      | ':' :: t => do
        let (v, t) ← readValue fuel t
        return ((k, v), t)
      | _ => none
    | _ => none

/-- The rest of an object. -/
def readFields : ℕ → List Char → Option (List (List Char × Value N) × List Char)
  | 0, _ => none
  | fuel + 1, t =>
    match skip t with
    | '}' :: t => some ([], t)
    | ',' :: t => do
      let (field, t) ← readField fuel t
      let (fields, t) ← readFields fuel t
      return (field :: fields, t)
    | _ => none

end

/-- The value of a text, with the fields of its objects as they stand in the text. -/
def read (t : List Char) : Option (Value N) :=
  match readValue S (t.length + 1) t with
  | some (v, rest) => if skip rest = [] then some v else none
  | none => none

end Reading

attribute [local grind =] readBody readValue

/-! ### A printed value reads as itself -/

theorem hexValue_hexDigit {n : ℕ} (h : n < 16) : hexValue (hexDigit n) = some n := by
  have hall : ∀ n : Fin 16, hexValue (hexDigit n) = some (n : ℕ) := by decide
  exact hall ⟨n, h⟩

theorem readBody_cons {c : Char} (t : List Char) (hquote : c ≠ '"') (hslash : c ≠ '\\')
    (hcontrol : ¬c.toNat < 32) :
    readBody (c :: t) = (readBody t).map fun r ↦ (c :: r.1, r.2) := by
  rw [readBody.eq_def]
  simp only [if_neg hquote, if_neg hslash, if_neg hcontrol]

theorem readBody_unescape {e c : Char} (t : List Char) (he : e ≠ 'u')
    (h : unescape e = some c) :
    readBody ('\\' :: e :: t) = (readBody t).map fun r ↦ (c :: r.1, r.2) := by
  have hfour : ∀ (a b c d : Char) (t' : List Char), e = 'u' → t = a :: b :: c :: d :: t' → False :=
    fun _ _ _ _ _ h _ ↦ he h
  rw [readBody.eq_3 _ _ _ hfour, if_neg (by decide), if_pos rfl]
  simp only [h]

theorem readBody_codeUnit {a b c d : Char} {n : ℕ} (t : List Char)
    (h : codeUnit a b c d = some n) (hn : n < 55296) :
    readBody ('\\' :: 'u' :: a :: b :: c :: d :: t) =
      (readBody t).map fun r ↦ (Char.ofNat n :: r.1, r.2) := by
  rw [readBody.eq_2, if_neg (by decide), if_pos rfl]
  simp only [h, if_pos (show n < 55296 ∨ 57344 ≤ n from .inl hn)]

/-- A character, as it is escaped, reads as itself. -/
theorem readBody_escape (c : Char) (t : List Char) :
    readBody (escape c ++ t) = (readBody t).map fun r ↦ (c :: r.1, r.2) := by
  have hchar : ∀ n, c.toNat = n → Char.ofNat n = c := fun n h ↦ h ▸ Char.ofNat_toNat c
  unfold escape
  split
  case isTrue h => exact readBody_unescape t (by decide) (by rw [h]; rfl)
  case isFalse hquote =>
  split
  case isTrue h => exact readBody_unescape t (by decide) (by rw [h]; rfl)
  case isFalse hslash =>
  split
  case isTrue h => exact readBody_unescape t (by decide) (by rw [← hchar _ h]; rfl)
  case isFalse =>
  split
  case isTrue h => exact readBody_unescape t (by decide) (by rw [← hchar _ h]; rfl)
  case isFalse =>
  split
  case isTrue h => exact readBody_unescape t (by decide) (by rw [← hchar _ h]; rfl)
  case isFalse =>
  split
  case isTrue h => exact readBody_unescape t (by decide) (by rw [← hchar _ h]; rfl)
  case isFalse =>
  split
  case isTrue h => exact readBody_unescape t (by decide) (by rw [← hchar _ h]; rfl)
  case isFalse =>
  split
  case isTrue hcontrol =>
    have hunit : codeUnit '0' '0' (hexDigit (c.toNat / 16)) (hexDigit (c.toNat % 16)) =
        some c.toNat := by
      simp only [codeUnit, hexValue_hexDigit (show c.toNat / 16 < 16 by omega),
        hexValue_hexDigit (show c.toNat % 16 < 16 by omega)]
      show some (4096 * 0 + 256 * 0 + 16 * (c.toNat / 16) + c.toNat % 16) = some c.toNat
      congr 1
      omega
    refine (readBody_codeUnit t hunit (by omega)).trans ?_
    rw [hchar _ rfl]
  case isFalse hcontrol => exact readBody_cons t hquote hslash hcontrol

@[simp]
theorem readBody_printBody (t rest : List Char) :
    readBody (printBody t ++ rest) = some (t, rest) := by
  induction t with
  | nil =>
    show readBody ('"' :: rest) = _
    rw [readBody.eq_def]
    rfl
  | cons c t ih =>
    have hsplit : printBody (c :: t) ++ rest = escape c ++ (printBody t ++ rest) := by
      simp [printBody]
    rw [hsplit, readBody_escape, ih]
    rfl

theorem skip_cons {c : Char} (t : List Char) (h : isSpace c = false) : skip (c :: t) = c :: t := by
  simp [skip, h]

theorem not_isSpace_of_isNumeralChar {c : Char} (h : isNumeralChar c = true) :
    isSpace c = false := by
  simp only [isNumeralChar, Bool.or_eq_true, decide_eq_true_eq] at h
  rcases h with ((((h | rfl) | rfl) | rfl) | rfl) | rfl
  · have hdigit : 48 ≤ c.toNat := (Char.isDigit_iff_toNat.1 h).1
    have hspace : c ≠ ' ' := by
      rintro rfl
      cases h
    simp only [isSpace, Bool.or_eq_false_iff, decide_eq_false_iff_not]
    exact ⟨⟨⟨hspace, by omega⟩, by omega⟩, by omega⟩
  all_goals rfl

/-- The text does not go on with a character of a number. -/
def Ends (t : List Char) : Prop :=
  ∀ c ∈ t.head?, isNumeralChar c = false

theorem ends_cons {c : Char} (t : List Char) (h : isNumeralChar c = false) : Ends (c :: t) := by
  intro c' hc
  obtain rfl := Option.some.inj hc
  exact h

theorem ends_printItems (S : Numerals N) (items : List (Value N)) (rest : List Char) :
    Ends (printItems S items ++ rest) := by
  cases items with
  | nil => exact ends_cons _ rfl
  | cons => exact ends_cons _ rfl

theorem ends_printFields (S : Numerals N) (fields : List (List Char × Value N))
    (rest : List Char) : Ends (printFields S fields ++ rest) := by
  cases fields with
  | nil => exact ends_cons _ rfl
  | cons => exact ends_cons _ rfl

theorem readNumeral_print (S : Numerals N) (n : N) {rest : List Char} (h : Ends rest) :
    readNumeral S (S.print n ++ rest) = some (.number n, rest) := by
  have hall := S.isNumeralChar_of_mem n
  have htake : (S.print n ++ rest).takeWhile isNumeralChar = S.print n := by
    rw [List.takeWhile_append_of_pos hall]
    cases rest with
    | nil => simp
    | cons c rest => simp [h c rfl]
  have hdrop : (S.print n ++ rest).dropWhile isNumeralChar = rest := by
    rw [List.dropWhile_append_of_pos hall]
    cases rest with
    | nil => simp
    | cons c rest => simp [h c rfl]
  rw [readNumeral, htake, hdrop, S.read_print]
  rfl

/-- A character of a number begins a number. -/
theorem readValue_numeral (S : Numerals N) (fuel : ℕ) {c : Char} (t : List Char)
    (h : isNumeralChar c = true) :
    readValue S (fuel + 1) (c :: t) = readNumeral S (c :: t) := by
  have hne : ∀ d, isNumeralChar d = false → c ≠ d := fun d hd hcd ↦ by
    rw [hcd, hd] at h
    cases h
  rw [readValue, skip_cons t (not_isSpace_of_isNumeralChar h)]
  simp only [if_neg (hne '"' rfl), if_neg (hne '[' rfl), if_neg (hne '{' rfl),
    if_neg (hne 'n' rfl), if_neg (hne 't' rfl), if_neg (hne 'f' rfl)]

theorem length_printBody (t : List Char) : 0 < (printBody t).length := by
  simp [printBody]

/-- What is printed begins neither with whitespace nor with the end of an array. -/
theorem head_print (S : Numerals N) (v : Value N) :
    ∃ c t, print S v = c :: t ∧ isSpace c = false ∧ c ≠ ']' := by
  cases v with
  | null => exact ⟨_, _, rfl, rfl, by decide⟩
  | bool b => cases b <;> exact ⟨_, _, rfl, rfl, by decide⟩
  | number n =>
    obtain ⟨c, t, hprint⟩ := List.exists_cons_of_ne_nil (S.print_ne_nil n)
    have hc := S.isNumeralChar_of_mem n c (hprint ▸ List.mem_cons_self)
    refine ⟨c, t, hprint, not_isSpace_of_isNumeralChar hc, ?_⟩
    rintro rfl
    cases hc
  | string t => exact ⟨_, _, rfl, rfl, by decide⟩
  | array items => cases items <;> exact ⟨_, _, rfl, rfl, by decide⟩
  | object fields => cases fields <;> exact ⟨_, _, rfl, rfl, by decide⟩

section RoundTrip

variable (S : Numerals N)

theorem readValue_array_cons (fuel : ℕ) {t : List Char} {c : Char} {t' : List Char}
    (ht : t = c :: t') (hspace : isSpace c = false) (hclose : c ≠ ']') :
    readValue S (fuel + 1) ('[' :: t) = (do
      let (v, t) ← readValue S fuel t
      let (items, t) ← readItems S fuel t
      return (.array (v :: items), t)) := by
  subst ht
  rw [readValue, skip_cons _ rfl]
  simp only [if_neg (show ¬ '[' = '"' by decide), if_true, skip_cons t' hspace]
  split
  case h_1 heq => exact absurd (List.cons.inj heq).1 hclose
  case h_2 => rfl

theorem readValue_object_cons (fuel : ℕ) (t : List Char) :
    readValue S (fuel + 1) ('{' :: '"' :: t) = (do
      let (field, t) ← readField S fuel ('"' :: t)
      let (fields, t) ← readFields S fuel t
      return (.object (field :: fields), t)) := by
  rw [readValue, skip_cons _ rfl]
  simp only [if_neg (show ¬ '{' = '"' by decide), if_neg (show ¬ '{' = '[' by decide), if_true,
    skip_cons t (show isSpace '"' = false from rfl)]
  rfl

theorem readField_printBody (fuel : ℕ) (k t : List Char) :
    readField S (fuel + 1) ('"' :: (printBody k ++ ':' :: t)) =
      (readValue S fuel t).map fun r ↦ ((k, r.1), r.2) := by
  rw [readField, skip_cons _ rfl]
  simp only [readBody_printBody, Option.bind_eq_bind, Option.bind_some,
    skip_cons t (show isSpace ':' = false from rfl)]
  cases readValue S fuel t <;> rfl

mutual

/-- **A printed value reads as itself**, whatever comes after it. The fuel is the length. -/
theorem readValue_print (v : Value N) (fuel : ℕ) (rest : List Char)
    (hfuel : (print S v).length < fuel) (hrest : Ends rest) :
    readValue S fuel (print S v ++ rest) = some (v, rest) := by
  obtain ⟨fuel, rfl⟩ := Nat.exists_eq_succ_of_ne_zero (Nat.ne_of_gt (Nat.zero_lt_of_lt hfuel))
  match v with
  | .null => simp [print, readValue, skip_cons, isSpace, after]
  | .bool true => simp [print, readValue, skip_cons, isSpace, after]
  | .bool false => simp [print, readValue, skip_cons, isSpace, after]
  | .number n =>
    obtain ⟨c, t, hprint⟩ := List.exists_cons_of_ne_nil (S.print_ne_nil n)
    have hc := S.isNumeralChar_of_mem n c (hprint ▸ List.mem_cons_self)
    have hread := readNumeral_print S n hrest
    rw [hprint] at hread
    show readValue S (fuel + 1) (S.print n ++ rest) = _
    rw [hprint]
    exact (readValue_numeral S fuel _ hc).trans hread
  | .string t =>
    show readValue S (fuel + 1) ('"' :: (printBody t ++ rest)) = _
    rw [readValue, skip_cons _ rfl]
    simp only [if_true, readBody_printBody, Option.map_some]
  | .array [] => rfl
  | .array (v :: items) =>
    have hlength : (print S v).length + (printItems S items).length < fuel := by
      simp only [print, List.length_cons, List.length_append] at hfuel
      omega
    have hprint : print S (.array (v :: items)) ++ rest =
        '[' :: (print S v ++ (printItems S items ++ rest)) := by
      simp [print]
    obtain ⟨c, t, hhead, hspace, hclose⟩ := head_print S v
    rw [hprint, readValue_array_cons S fuel (by rw [hhead]; rfl) hspace hclose,
      readValue_print v fuel _ (by omega) (ends_printItems S items rest)]
    simp only [Option.bind_eq_bind, Option.bind_some,
      readItems_printItems items fuel rest (by omega)]
    rfl
  | .object [] => rfl
  | .object ((k, v) :: fields) =>
    have hlength : (printBody k).length + (print S v).length + (printFields S fields).length + 1 <
        fuel := by
      simp only [print, List.length_cons, List.length_append] at hfuel
      omega
    obtain ⟨fuel, rfl⟩ := Nat.exists_eq_succ_of_ne_zero (Nat.ne_of_gt (Nat.zero_lt_of_lt hlength))
    have hprint : print S (.object ((k, v) :: fields)) ++ rest =
        '{' :: '"' :: (printBody k ++ ':' :: (print S v ++ (printFields S fields ++ rest))) := by
      simp [print]
    have hbody := length_printBody k
    rw [hprint, readValue_object_cons, readField_printBody,
      readValue_print v fuel _ (by omega) (ends_printFields S fields rest)]
    simp only [Option.map_some, Option.bind_eq_bind, Option.bind_some,
      readFields_printFields fields (fuel + 1) rest (by omega)]
    rfl

theorem readItems_printItems (items : List (Value N)) (fuel : ℕ) (rest : List Char)
    (hfuel : (printItems S items).length < fuel) :
    readItems S fuel (printItems S items ++ rest) = some (items, rest) := by
  obtain ⟨fuel, rfl⟩ := Nat.exists_eq_succ_of_ne_zero (Nat.ne_of_gt (Nat.zero_lt_of_lt hfuel))
  match items with
  | [] => rfl
  | v :: items =>
    have hlength : (print S v).length + (printItems S items).length < fuel := by
      simp only [printItems, List.length_cons, List.length_append] at hfuel
      omega
    have hprint : printItems S (v :: items) ++ rest =
        ',' :: (print S v ++ (printItems S items ++ rest)) := by
      simp [printItems]
    rw [hprint, readItems, skip_cons _ rfl]
    simp only [Option.bind_eq_bind,
      readValue_print v fuel _ (by omega) (ends_printItems S items rest), Option.bind_some,
      readItems_printItems items fuel rest (by omega)]
    rfl

theorem readFields_printFields (fields : List (List Char × Value N)) (fuel : ℕ)
    (rest : List Char) (hfuel : (printFields S fields).length < fuel) :
    readFields S fuel (printFields S fields ++ rest) = some (fields, rest) := by
  obtain ⟨fuel, rfl⟩ := Nat.exists_eq_succ_of_ne_zero (Nat.ne_of_gt (Nat.zero_lt_of_lt hfuel))
  match fields with
  | [] => rfl
  | (k, v) :: fields =>
    have hlength : (printBody k).length + (print S v).length + (printFields S fields).length + 1 <
        fuel := by
      simp only [printFields, List.length_cons, List.length_append] at hfuel
      omega
    obtain ⟨fuel, rfl⟩ := Nat.exists_eq_succ_of_ne_zero (Nat.ne_of_gt (Nat.zero_lt_of_lt hlength))
    have hprint : printFields S ((k, v) :: fields) ++ rest =
        ',' :: '"' :: (printBody k ++ ':' :: (print S v ++ (printFields S fields ++ rest))) := by
      simp [printFields]
    have hbody := length_printBody k
    rw [hprint, readFields, skip_cons _ rfl]
    simp only [readField_printBody, Option.bind_eq_bind,
      readValue_print v fuel _ (by omega) (ends_printFields S fields rest), Option.map_some,
      Option.bind_some, readFields_printFields fields (fuel + 1) rest (by omega)]
    rfl

end

/-- **A printed value reads as itself.** -/
@[simp]
theorem read_print (v : Value N) : read S (print S v) = some v := by
  have h := readValue_print S v ((print S v).length + 1) [] (by omega) nofun
  rw [List.append_nil] at h
  rw [read, h]
  rfl

theorem readValue_congr_skip (fuel : ℕ) {t t' : List Char} (h : skip t = skip t') :
    readValue S fuel t = readValue S fuel t' := by
  cases fuel with
  | zero => rfl
  | succ fuel => simp only [readValue, h]

/-- Whitespace in front of a text is not read. -/
theorem read_space_print {c : Char} (h : isSpace c = true) (v : Value N) :
    read S (c :: print S v) = some v := by
  have hskip : skip (c :: print S v) = skip (print S v) := by simp [skip, h]
  have hvalue := readValue_print S v ((c :: print S v).length + 1) []
    (by rw [List.length_cons]; omega) nofun
  rw [List.append_nil] at hvalue
  rw [read, readValue_congr_skip S _ hskip, hvalue]
  rfl

theorem print_injective : Function.Injective (print S) := by
  intro v w h
  have hread := congrArg (read S) h
  rw [read_print, read_print] at hread
  exact Option.some.inj hread

end RoundTrip

/-! ### The properties of an object -/

/-- The number of an array index. -/
def index (k : List Char) : Option ℕ :=
  match Decimal.ofDigits? k with
  | some n => if Decimal.digits n = k ∧ n < 4294967295 then some n else none
  | none => none

/-- The property `k` is listed before `j`, which was there first. -/
def precedes (k j : List Char) : Bool :=
  match index k, index j with
  | none, _ => false
  | some _, none => true
  | some m, some n => m < n

/-- A new property, at its place. -/
def insertProperty (k : List Char) (v : Value N) :
    List (List Char × Value N) → List (List Char × Value N)
  | [] => [(k, v)]
  | (j, w) :: fields =>
    if precedes k j then (k, v) :: (j, w) :: fields else (j, w) :: insertProperty k v fields

/-- Define a property of an object. -/
def define (fields : List (List Char × Value N)) (k : List Char) (v : Value N) :
    List (List Char × Value N) :=
  if k ∈ fields.map Prod.fst then fields.map fun p ↦ if p.1 = k then (k, v) else p
  else insertProperty k v fields

/-- The properties that some fields, one after another, define. -/
def properties (fields : List (List Char × Value N)) : List (List Char × Value N) :=
  fields.foldl (fun properties p ↦ define properties p.1 p.2) []

mutual

/-- Every object lists its properties. -/
def normalize : Value N → Value N
  | .array items => .array (normalizeItems items)
  | .object fields => .object (properties (normalizeFields fields))
  | .null => .null
  | .bool b => .bool b
  | .number n => .number n
  | .string t => .string t

def normalizeItems : List (Value N) → List (Value N)
  | [] => []
  | v :: items => normalize v :: normalizeItems items

def normalizeFields : List (List Char × Value N) → List (List Char × Value N)
  | [] => []
  | (k, v) :: fields => (k, normalize v) :: normalizeFields fields

end

/-- `JSON.parse` -/
def parse (S : Numerals N) (t : List Char) : Option (Value N) :=
  (read S t).map normalize

/-- **A value survives a round trip**, where its objects list their properties. -/
theorem parse_print (S : Numerals N) {v : Value N} (h : normalize v = v) :
    parse S (print S v) = some v := by
  rw [parse, read_print, Option.map_some, h]

theorem parse_space_print (S : Numerals N) {c : Char} (hc : isSpace c = true) {v : Value N}
    (h : normalize v = v) : parse S (c :: print S v) = some v := by
  rw [parse, read_space_print S hc, Option.map_some, h]

/-- A property that precedes none is the last. -/
theorem insertProperty_eq_concat {k : List Char} (v : Value N)
    {fields : List (List Char × Value N)} (h : ∀ p ∈ fields, precedes k p.1 = false) :
    insertProperty k v fields = fields ++ [(k, v)] := by
  induction fields with
  | nil => rfl
  | cons p fields ih =>
    rw [insertProperty, if_neg (by simp [h p List.mem_cons_self]),
      ih fun q hq ↦ h q (List.mem_cons_of_mem _ hq)]
    rfl

/-- No property precedes one before it. -/
def Listed (fields : List (List Char × Value N)) : Prop :=
  (fields.map Prod.fst).Nodup ∧ fields.Pairwise fun p q ↦ precedes q.1 p.1 = false

/-- Properties in their order are listed as they are. -/
theorem properties_of_listed {fields : List (List Char × Value N)} (h : Listed fields) :
    properties fields = fields := by
  have hgo : ∀ (rest front : List (List Char × Value N)), Listed (front ++ rest) →
      rest.foldl (fun properties p ↦ define properties p.1 p.2) front = front ++ rest := by
    intro rest
    induction rest with
    | nil => exact fun front _ ↦ (List.append_nil front).symm
    | cons p rest ih =>
      intro front h
      have hnew : p.1 ∉ front.map Prod.fst := fun hmem ↦ by
        have hnodup := h.1
        rw [List.map_append] at hnodup
        exact List.disjoint_of_nodup_append hnodup hmem List.mem_cons_self
      have hlast : ∀ q ∈ front, precedes p.1 q.1 = false := fun q hq ↦
        (List.pairwise_append.1 h.2).2.2 q hq p List.mem_cons_self
      have hdefine : define front p.1 p.2 = front ++ [p] := by
        rw [define, if_neg hnew, insertProperty_eq_concat p.2 hlast]
      rw [List.foldl_cons, hdefine, ih (front ++ [p]) (by simpa using h), List.append_assoc]
      rfl
  exact hgo fields [] h

/-- Distinct keys that are no array indices are listed in the order of the text. -/
theorem properties_eq_self {fields : List (List Char × Value N)}
    (hnodup : (fields.map Prod.fst).Nodup) (hindex : ∀ p ∈ fields, index p.1 = none) :
    properties fields = fields :=
  properties_of_listed ⟨hnodup, List.pairwise_of_forall_mem_list fun p _ q hq ↦ by
    rw [precedes, hindex q hq]⟩

theorem precedes_asymm {k j : List Char} (h : precedes k j = true) : precedes j k = false := by
  unfold precedes at *
  cases hk : index k with
  | none => simp [hk] at h
  | some m =>
    cases hj : index j with
    | none => simp
    | some n =>
      simp only [hk, hj, decide_eq_true_eq] at h
      exact decide_eq_false (by omega)

theorem precedes_trans {i j k : List Char} (h : precedes i j = true) (h' : precedes j k = true) :
    precedes i k = true := by
  unfold precedes at *
  cases hi : index i with
  | none => simp [hi] at h
  | some l =>
    cases hj : index j with
    | none => simp [hj] at h'
    | some m =>
      cases hk : index k with
      | none => simp
      | some n =>
        simp only [hi, hj, hk, decide_eq_true_eq] at *
        omega

theorem perm_insertProperty (k : List Char) (v : Value N) (fields : List (List Char × Value N)) :
    (insertProperty k v fields).Perm ((k, v) :: fields) := by
  induction fields with
  | nil => exact .refl _
  | cons p fields ih =>
    rw [insertProperty]
    split
    · exact .refl _
    · exact (ih.cons p).trans (.swap _ _ _)

theorem pairwise_insertProperty {k : List Char} {v : Value N} {fields : List (List Char × Value N)}
    (h : fields.Pairwise fun p q ↦ precedes q.1 p.1 = false) :
    (insertProperty k v fields).Pairwise fun p q ↦ precedes q.1 p.1 = false := by
  induction fields with
  | nil => exact List.pairwise_singleton _ _
  | cons p fields ih =>
    obtain ⟨hp, hfields⟩ := List.pairwise_cons.1 h
    rw [insertProperty]
    split
    case isTrue hbefore =>
      refine List.pairwise_cons.2 ⟨fun q hq ↦ ?_, h⟩
      rcases List.mem_cons.1 hq with rfl | hq
      · exact precedes_asymm hbefore
      · by_contra hafter
        have htrans := precedes_trans (Bool.of_not_eq_false hafter) hbefore
        exact Bool.false_ne_true ((hp q hq).symm.trans htrans)
    case isFalse hbefore =>
      refine List.pairwise_cons.2 ⟨fun q hq ↦ ?_, ih hfields⟩
      rcases List.mem_cons.1 ((perm_insertProperty k v fields).mem_iff.1 hq) with rfl | hq
      · exact Bool.of_not_eq_true hbefore
      · exact hp q hq

theorem map_fst_replace (fields : List (List Char × Value N)) (k : List Char) (v : Value N) :
    (fields.map fun p ↦ if p.1 = k then (k, v) else p).map Prod.fst = fields.map Prod.fst := by
  rw [List.map_map]
  refine List.map_congr_left fun p _ ↦ ?_
  by_cases hp : p.1 = k <;> simp [hp]

theorem Listed.define {fields : List (List Char × Value N)} (h : Listed fields) (k : List Char)
    (v : Value N) : Listed (JsonText.define fields k v) := by
  unfold JsonText.define
  split
  case isTrue =>
    have hkeys : (fields.map Prod.fst).Pairwise fun j i ↦ precedes i j = false :=
      List.pairwise_map.2 h.2
    rw [← map_fst_replace fields k v] at hkeys
    exact ⟨by rw [map_fst_replace]; exact h.1, List.pairwise_map.1 hkeys⟩
  case isFalse hnew =>
    refine ⟨?_, pairwise_insertProperty h.2⟩
    rw [((perm_insertProperty k v fields).map Prod.fst).nodup_iff]
    exact List.nodup_cons.2 ⟨hnew, h.1⟩

/-- The properties of an object are in their order. -/
theorem listed_properties (fields : List (List Char × Value N)) : Listed (properties fields) := by
  have hgo : ∀ (rest front : List (List Char × Value N)), Listed front →
      Listed (rest.foldl (fun properties p ↦ JsonText.define properties p.1 p.2) front) := by
    intro rest
    induction rest with
    | nil => exact fun _ h ↦ h
    | cons p rest ih => exact fun front h ↦ ih _ (h.define p.1 p.2)
  exact hgo fields [] ⟨List.nodup_nil, .nil⟩

/-- Distinct keys are all listed. -/
theorem perm_properties {fields : List (List Char × Value N)} (h : (fields.map Prod.fst).Nodup) :
    (properties fields).Perm fields := by
  induction fields using List.reverseRecOn with
  | nil => exact .refl _
  | append_singleton fields p ih =>
    rw [List.map_append] at h
    have hperm := ih (List.Nodup.of_append_left h)
    have hnew : p.1 ∉ (properties fields).map Prod.fst := fun hmem ↦
      List.disjoint_of_nodup_append h ((hperm.map _).mem_iff.1 hmem) (List.mem_singleton.2 rfl)
    have hdefine : properties (fields ++ [p]) = insertProperty p.1 p.2 (properties fields) := by
      rw [properties, List.foldl_append, List.foldl_cons, List.foldl_nil, ← properties,
        JsonText.define, if_neg hnew]
    rw [hdefine]
    exact (perm_insertProperty _ _ _).trans ((hperm.cons p).trans
      (List.perm_append_singleton p fields).symm)

/-- A function of the values alone is applied before or after. -/
theorem properties_map (g : Value N → Value N) (fields : List (List Char × Value N)) :
    properties (fields.map fun p ↦ (p.1, g p.2)) =
      (properties fields).map fun p ↦ (p.1, g p.2) := by
  have hinsert : ∀ (k : List Char) (v : Value N) (l : List (List Char × Value N)),
      insertProperty k (g v) (l.map fun p ↦ (p.1, g p.2)) =
        (insertProperty k v l).map fun p ↦ (p.1, g p.2) := by
    intro k v l
    induction l with
    | nil => rfl
    | cons p l ih =>
      rw [List.map_cons, insertProperty, insertProperty]
      split <;> simp [ih]
  have hdefine : ∀ (l : List (List Char × Value N)) (k : List Char) (v : Value N),
      JsonText.define (l.map fun p ↦ (p.1, g p.2)) k (g v) =
        (JsonText.define l k v).map fun p ↦ (p.1, g p.2) := by
    intro l k v
    have hkeys : (l.map fun p ↦ (p.1, g p.2)).map Prod.fst = l.map Prod.fst := by
      rw [List.map_map]
      rfl
    rw [JsonText.define, JsonText.define, hkeys]
    split
    · rw [List.map_map, List.map_map]
      refine List.map_congr_left fun p _ ↦ ?_
      by_cases hp : p.1 = k <;> simp [hp]
    · exact hinsert k v l
  induction fields using List.reverseRecOn with
  | nil => rfl
  | append_singleton fields p ih =>
    rw [List.map_append, properties, properties, List.foldl_append, List.foldl_append,
      ← properties, ← properties, ih]
    exact hdefine _ _ _

theorem normalizeFields_eq (fields : List (List Char × Value N)) :
    normalizeFields fields = fields.map fun p ↦ (p.1, normalize p.2) := by
  induction fields with
  | nil => rfl
  | cons p fields ih => rw [normalizeFields, ih]; rfl

mutual

/-- What lists its properties is left alone. -/
theorem normalize_normalize : ∀ v : Value N, normalize (normalize v) = normalize v
  | .array items => by
    rw [normalize, normalize, normalizeItems_normalizeItems items]
  | .object fields => by
    rw [normalize, normalize, normalizeFields_eq (properties _), ← properties_map,
      ← normalizeFields_eq, normalizeFields_normalizeFields fields,
      properties_of_listed (listed_properties _)]
  | .null => rfl
  | .bool _ => rfl
  | .number _ => rfl
  | .string _ => rfl

theorem normalizeItems_normalizeItems : ∀ items : List (Value N),
    normalizeItems (normalizeItems items) = normalizeItems items
  | [] => rfl
  | v :: items => by
    rw [normalizeItems, normalizeItems, normalize_normalize v, normalizeItems_normalizeItems items]

theorem normalizeFields_normalizeFields : ∀ fields : List (List Char × Value N),
    normalizeFields (normalizeFields fields) = normalizeFields fields
  | [] => rfl
  | (k, v) :: fields => by
    rw [normalizeFields, normalizeFields, normalize_normalize v,
      normalizeFields_normalizeFields fields]

end

/-- What was parsed lists its properties. -/
theorem normalize_of_parse {S : Numerals N} {t : List Char} {v : Value N}
    (h : parse S t = some v) : normalize v = v := by
  obtain ⟨w, -, rfl⟩ := Option.map_eq_some_iff.1 h
  exact normalize_normalize w

theorem normalize_items {items : List (Value N)}
    (h : normalize (.array items) = .array items) : ∀ v ∈ items, normalize v = v := by
  have hitems : normalizeItems items = items := Value.array.inj h
  clear h
  induction items with
  | nil => exact fun v hv ↦ absurd hv List.not_mem_nil
  | cons v items ih =>
    obtain ⟨hv, hrest⟩ := List.cons.inj hitems
    exact List.forall_mem_cons.2 ⟨hv, ih hrest⟩

/-- The fields of a value that lists its properties. -/
theorem normalize_fields {fields : List (List Char × Value N)}
    (h : normalize (.object fields) = .object fields) :
    (fields.map Prod.fst).Nodup ∧ ∀ p ∈ fields, normalize p.2 = p.2 := by
  have hfields : properties (normalizeFields fields) = fields := Value.object.inj h
  refine ⟨hfields ▸ (listed_properties _).1, fun p hp ↦ ?_⟩
  rw [← hfields, normalizeFields_eq, properties_map] at hp
  obtain ⟨q, -, rfl⟩ := List.mem_map.1 hp
  exact normalize_normalize q.2

/-- An object lists its properties, where its keys are distinct and no array indices. -/
theorem normalize_object {fields : List (List Char × Value N)}
    (hnodup : (fields.map Prod.fst).Nodup) (hindex : ∀ p ∈ fields, index p.1 = none)
    (hvalues : ∀ p ∈ fields, normalize p.2 = p.2) :
    normalize (.object fields) = .object fields := by
  have hfields : normalizeFields fields = fields := by
    rw [normalizeFields_eq]
    exact (List.map_congr_left fun p hp ↦ by rw [hvalues p hp]; rfl).trans (List.map_id _)
  rw [normalize, hfields, properties_eq_self hnodup hindex]

theorem normalize_array {items : List (Value N)} (h : ∀ v ∈ items, normalize v = v) :
    normalize (.array items) = .array items := by
  have hitems : normalizeItems items = items := by
    induction items with
    | nil => rfl
    | cons v items ih =>
      rw [normalizeItems, h v List.mem_cons_self, ih fun w hw ↦ h w (List.mem_cons_of_mem _ hw)]
  rw [normalize, hitems]

/-! ### How long a printed value may get -/

section Length

variable (S : Numerals N)

mutual

/-- A bound by the lengths of the texts alone: a character takes at most six. -/
def printBound : Value N → ℕ
  | .null => 4
  | .bool _ => 5
  | .number n => (S.print n).length
  | .string t => 6 * t.length + 2
  | .array items => itemsBound items + 2
  | .object fields => fieldsBound fields + 2

def itemsBound : List (Value N) → ℕ
  | [] => 0
  | v :: items => printBound v + itemsBound items + 1

def fieldsBound : List (List Char × Value N) → ℕ
  | [] => 0
  | (k, v) :: fields => 6 * k.length + printBound v + fieldsBound fields + 4

end

theorem length_escape_le (c : Char) : (escape c).length ≤ 6 := by
  unfold escape
  split_ifs <;> simp

theorem length_printBody_le (t : List Char) : (printBody t).length ≤ 6 * t.length + 1 := by
  induction t with
  | nil => exact le_refl 1
  | cons c t ih =>
    have hc := length_escape_le c
    simp only [printBody, List.flatMap_cons, List.length_append, List.length_cons] at ih ⊢
    omega

mutual

theorem length_print_le : ∀ v : Value N, (print S v).length ≤ printBound S v
  | .null => le_refl 4
  | .bool true => Nat.le_succ 4
  | .bool false => le_refl 5
  | .number n => le_refl _
  | .string t => by
    have ht := length_printBody_le t
    rw [print, printBound, List.length_cons]
    omega
  | .array [] => le_refl 2
  | .array (v :: items) => by
    have hv := length_print_le v
    have hitems := length_printItems_le items
    rw [print, printBound, itemsBound, List.length_cons, List.length_append]
    omega
  | .object [] => le_refl 2
  | .object ((k, v) :: fields) => by
    have hk := length_printBody_le k
    have hv := length_print_le v
    have hfields := length_printFields_le fields
    rw [print, printBound, fieldsBound]
    simp only [List.length_cons, List.length_append]
    omega

theorem length_printItems_le : ∀ items : List (Value N),
    (printItems S items).length ≤ itemsBound S items + 1
  | [] => le_refl 1
  | v :: items => by
    have hv := length_print_le v
    have hitems := length_printItems_le items
    rw [printItems, itemsBound, List.length_cons, List.length_append]
    omega

theorem length_printFields_le : ∀ fields : List (List Char × Value N),
    (printFields S fields).length ≤ fieldsBound S fields + 1
  | [] => le_refl 1
  | (k, v) :: fields => by
    have hk := length_printBody_le k
    have hv := length_print_le v
    have hfields := length_printFields_le fields
    rw [printFields, fieldsBound]
    simp only [List.length_cons, List.length_append]
    omega

end

end Length

/-- The property of an object. -/
def Value.get (v : Value N) (k : List Char) : Option (Value N) :=
  match v with
  | .object fields => (fields.find? fun p ↦ p.1 = k).map Prod.snd
  | _ => none

/-- A field is the property of its key, where no other field has that key. -/
theorem Value.get_object_of_mem {fields : List (List Char × Value N)} {k : List Char} {v : Value N}
    (hnodup : (fields.map Prod.fst).Nodup) (hmem : (k, v) ∈ fields) :
    (Value.object fields).get k = some v := by
  show (fields.find? fun p ↦ p.1 = k).map Prod.snd = some v
  cases hfind : fields.find? fun p ↦ p.1 = k with
  | none => exact absurd (List.find?_eq_none.1 hfind (k, v) hmem) (by simp)
  | some p =>
    have hk : p.1 = k := by simpa using List.find?_some hfind
    have hp : p = (k, v) :=
      List.inj_on_of_nodup_map hnodup (List.mem_of_find?_eq_some hfind) hmem hk
    rw [hp]
    rfl

example :
    (parse integers
        "\x7b \"b\": [1, -20 ] ,\"10\":null,\"b\":\"\\u0041\\n\",\"9\":\x7b\x7d\x7d".toList).map
      (print integers) = some "\x7b\"9\":\x7b\x7d,\"10\":null,\"b\":\"A\\n\"\x7d".toList := by
  decide +kernel

end JsonText
