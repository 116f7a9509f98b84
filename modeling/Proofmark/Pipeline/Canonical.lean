import Mathlib.Data.List.Sort
import Proofmark.Format.JsonText
import Proofmark.Pipeline.Attrs

/-!
# JavaScript values and their canonical JSON

Values that came out of `JSON.parse`, how the code looks into them, and `canonical.ts`. Their
numbers are finite, with one zero; how the language writes and reads them is a parameter
(`JsNumbers`), since fractions occur in evidence and their digits are the language's own.

An object has no field whose value is `undefined`: such a field is written nowhere and reads as one
that is missing.
-/

open Evm JsonText

namespace Proofmark.Pipeline

/-- The numbers of the language. -/
structure JsNumbers (N : Type) where
  numerals : Numerals N
  ofInt : ℤ → N
  /-- The value of a number for which `Number.isSafeInteger` holds. -/
  safe : N → Option ℤ
  safe_ofInt : ∀ z, isSafeInteger z = true → safe (ofInt z) = some z
  isSafe_of_safe : ∀ n z, safe n = some z → isSafeInteger z = true

/-- The whole numbers alone. -/
def wholeNumbers : JsNumbers ℤ where
  numerals := integers
  ofInt z := z
  safe z := if isSafeInteger z then some z else none
  safe_ofInt _ hz := if_pos hz
  isSafe_of_safe n z h := by
    split at h
    case isTrue hsafe => exact Option.some.inj h ▸ hsafe
    case isFalse => cases h

variable {N : Type}

/-! ### Looking into a value -/

/-- `typeof v === 'string'` -/
def asText : Option (Value N) → Option Text
  | some (.string t) => some t
  | _ => none

/-- A field that is a string. -/
def fieldText (v : Value N) (name : String) : Option Text :=
  asText (v.get name.toList)

/-- The fields of an object that is one. -/
def asObject : Option (Value N) → Option (List (Text × Value N))
  | some (.object fields) => some fields
  | _ => none

/-- `v === b` -/
def isBool (b : Bool) : Option (Value N) → Bool
  | some (.bool b') => b' = b
  | _ => false

/-- A property of an object is set, in its place or a new one. -/
def setField (v : Value N) (name : String) (x : Value N) : Value N :=
  match v with
  | .object fields => .object (define fields name.toList x)
  | v => v

/-- `const { [name]: _, ...rest } = v` -/
def dropField (v : Value N) (name : String) : Value N :=
  match v with
  | .object fields => .object (fields.filter fun p ↦ p.1 ≠ name.toList)
  | v => v

theorem get_of_fieldText {v : Value N} {name : String} {t : Text}
    (h : fieldText v name = some t) : v.get name.toList = some (.string t) := by
  unfold fieldText asText at h
  split at h
  case h_1 heq =>
    rw [heq, Option.some.inj h]
  case h_2 => cases h

/-- A field after all others, under a name of its own, is dropped. -/
theorem dropField_concat {fields : List (Text × Value N)} {name : String}
    (h : name.toList ∉ fields.map Prod.fst) (v : Value N) :
    dropField (.object (fields ++ [(name.toList, v)])) name = .object fields := by
  have hkept : fields.filter (fun p ↦ p.1 ≠ name.toList) = fields :=
    List.filter_eq_self.2 fun p hp ↦ decide_eq_true fun heq ↦ h (heq ▸ List.mem_map_of_mem hp)
  rw [dropField, List.filter_append, hkept]
  simp

namespace JsNumbers

variable (J : JsNumbers N)

/-- `Number.isSafeInteger(v)`, with its value. -/
def asInt : Option (Value N) → Option ℤ
  | some (.number n) => J.safe n
  | _ => none

/-- A field that is a safe integer. -/
def fieldInt (v : Value N) (name : String) : Option ℤ :=
  J.asInt (v.get name.toList)

def truthy : Option (Value N) → Bool
  | none | some .null => false
  | some (.bool b) => b
  | some (.number n) => J.safe n ≠ some 0
  | some (.string t) => t ≠ []
  | some (.array _) | some (.object _) => true

theorem ofInt_inj {x y : ℤ} (hx : isSafeInteger x = true) (hy : isSafeInteger y = true)
    (h : J.ofInt x = J.ofInt y) : x = y := by
  have hsafe := J.safe_ofInt x hx
  rw [h, J.safe_ofInt y hy] at hsafe
  exact (Option.some.inj hsafe).symm

/-! ### `String(v)` -/

mutual

def toText : Value N → Text
  | .null => "null".toList
  | .bool true => "true".toList
  | .bool false => "false".toList
  | .number n => J.numerals.print n
  | .string t => t
  | .array items => joined items
  | .object _ => "[object Object]".toList

/-- `items.join(',')` -/
def joined : List (Value N) → Text
  | [] => []
  | [v] => itemText v
  | v :: items => itemText v ++ ',' :: joined items

/-- An item of an array that is joined. -/
def itemText : Value N → Text
  | .null => []
  | .bool true => "true".toList
  | .bool false => "false".toList
  | .number n => J.numerals.print n
  | .string t => t
  | .array items => joined items
  | .object _ => "[object Object]".toList

end

/-- `String(v)` -/
def stringOf : Option (Value N) → Text
  | none => "undefined".toList
  | some v => J.toText v

end JsNumbers

/-! ### `canonicalJson` -/

/-- The UTF-16 code units of a character. -/
def codeUnits (c : Char) : List ℕ :=
  if c.toNat < 65536 then [c.toNat]
  else [55296 + (c.toNat - 65536) / 1024, 56320 + (c.toNat - 65536) % 1024]

/-- Dictionary order. -/
def lexLe : List ℕ → List ℕ → Bool
  | [], _ => true
  | _ :: _, [] => false
  | a :: as, b :: bs => a < b || (a = b && lexLe as bs)

/-- The order of `sort` on strings. -/
def textLe (a b : Text) : Bool :=
  lexLe (a.flatMap codeUnits) (b.flatMap codeUnits)

theorem lexLe_total : ∀ as bs : List ℕ, lexLe as bs = true ∨ lexLe bs as = true
  | [], _ => .inl rfl
  | _ :: _, [] => .inr rfl
  | a :: as, b :: bs => by
    have ih := lexLe_total as bs
    simp only [lexLe, Bool.or_eq_true, Bool.and_eq_true, decide_eq_true_eq]
    rcases lt_trichotomy a b with h | rfl | h
    · exact .inl (.inl h)
    · exact ih.imp (fun h ↦ .inr ⟨rfl, h⟩) fun h ↦ .inr ⟨rfl, h⟩
    · exact .inr (.inl h)

theorem lexLe_trans : ∀ {as bs cs : List ℕ}, lexLe as bs = true → lexLe bs cs = true →
    lexLe as cs = true
  | [], _, _, _, _ => rfl
  | a :: as, b :: bs, [], _, h => by cases h
  | a :: as, b :: bs, c :: cs, h, h' => by
    simp only [lexLe, Bool.or_eq_true, Bool.and_eq_true, decide_eq_true_eq] at *
    rcases h with h | ⟨rfl, h⟩ <;> rcases h' with h' | ⟨rfl, h'⟩
    · exact .inl (h.trans h')
    · exact .inl h
    · exact .inl h'
    · exact .inr ⟨rfl, lexLe_trans h h'⟩

theorem lexLe_antisymm : ∀ {as bs : List ℕ}, lexLe as bs = true → lexLe bs as = true → as = bs
  | [], [], _, _ => rfl
  | [], _ :: _, _, h => by cases h
  | _ :: _, [], h, _ => by cases h
  | a :: as, b :: bs, h, h' => by
    simp only [lexLe, Bool.or_eq_true, Bool.and_eq_true, decide_eq_true_eq] at *
    rcases h with h | ⟨rfl, h⟩
    · rcases h' with h' | ⟨rfl, -⟩
      · exact absurd h' h.asymm
      · exact absurd h (lt_irrefl _)
    · rcases h' with h' | ⟨-, h'⟩
      · exact absurd h' (lt_irrefl _)
      · rw [lexLe_antisymm h h']

/-- A text is known from its code units: no character is a surrogate. -/
theorem codeUnits_injective :
    Function.Injective fun t : Text ↦ t.flatMap codeUnits := by
  intro s t h
  induction s generalizing t with
  | nil =>
    cases t with
    | nil => rfl
    | cons d t =>
      have hnil : ([] : List ℕ) = codeUnits d ++ t.flatMap codeUnits := h
      unfold codeUnits at hnil
      split at hnil <;> cases hnil
  | cons c s ih =>
    cases t with
    | nil =>
      have hnil : codeUnits c ++ s.flatMap codeUnits = [] := h
      unfold codeUnits at hnil
      split at hnil <;> cases hnil
    | cons d t =>
      have hunits : codeUnits c ++ s.flatMap codeUnits = codeUnits d ++ t.flatMap codeUnits := h
      have hc : c.toNat < 0xd800 ∨ 0xdfff < c.toNat ∧ c.toNat < 0x110000 := c.valid
      have hd : d.toNat < 0xd800 ∨ 0xdfff < d.toNat ∧ d.toNat < 0x110000 := d.valid
      have hchar : c.toNat = d.toNat ∧ s.flatMap codeUnits = t.flatMap codeUnits := by
        unfold codeUnits at hunits
        split at hunits <;> split at hunits <;>
          simp only [List.cons_append, List.nil_append, List.cons.injEq] at hunits
        · exact hunits
        · omega
        · omega
        · exact ⟨by omega, hunits.2.2⟩
      rw [Char.toNat_inj.1 hchar.1, ih hchar.2]

/-- `sort` puts distinct keys in one order. -/
theorem textLe_antisymm {a b : Text} (h : textLe a b = true) (h' : textLe b a = true) : a = b :=
  codeUnits_injective (lexLe_antisymm h h')

/-- `__proto__` is not a property one can assign. -/
def isProto (k : Text) : Bool :=
  k = "__proto__".toList

/-- The properties of `{}` after `out[k] = v` for some fields, one after another. Assigning to
`__proto__` sets the prototype, or nothing, and no property. -/
def assigned (fields : List (Text × Value N)) : List (Text × Value N) :=
  properties (fields.filter fun p ↦ !isProto p.1)

/-- `Object.keys(v).sort()`, with the values. -/
def sortedFields (fields : List (Text × Value N)) : List (Text × Value N) :=
  fields.insertionSort fun p q ↦ textLe p.1 q.1 = true

mutual

/-- `sortDeep` -/
def sortDeep : Value N → Value N
  | .array items => .array (sortDeepItems items)
  | .object fields => .object (assigned (sortedFields (sortDeepFields fields)))
  | .null => .null
  | .bool b => .bool b
  | .number n => .number n
  | .string t => .string t

def sortDeepItems : List (Value N) → List (Value N)
  | [] => []
  | v :: items => sortDeep v :: sortDeepItems items

def sortDeepFields : List (Text × Value N) → List (Text × Value N)
  | [] => []
  | (k, v) :: fields => (k, sortDeep v) :: sortDeepFields fields

end

def canonicalJson (J : JsNumbers N) (v : Value N) : Text :=
  print J.numerals (sortDeep v)

/-- **Canonical JSON tells canonical values apart.** -/
theorem sortDeep_of_canonicalJson (J : JsNumbers N) {v w : Value N}
    (h : canonicalJson J v = canonicalJson J w) : sortDeep v = sortDeep w :=
  print_injective J.numerals h

example : canonicalJson wholeNumbers (.object [(['b'], .number 1), (['a'], .array [.null]),
    (['7'], .object [(['d'], .bool true), (['c'], .string ['x'])])]) =
    "\x7b\"7\":\x7b\"c\":\"x\",\"d\":true\x7d,\"a\":[null],\"b\":1\x7d".toList := by
  decide +kernel

end Proofmark.Pipeline
