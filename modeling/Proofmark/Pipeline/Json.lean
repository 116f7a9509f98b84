import Proofmark.Evm.Keccak
import Proofmark.Format.Utf8

/-!
# Texts and JSON

JavaScript strings as lists of characters, the hex strings among them, and JSON values with
`JSON.stringify`. An object lists its own enumerable fields in order; a field whose value is
`undefined` is not among them. The numbers are the integers, the only ones serialised here.
-/

open Evm

namespace Proofmark

namespace Pipeline

abbrev Text := List Char

instance : LawfulBEq Text :=
  inferInstance

namespace Text

/-- `toLowerCase`, on ASCII. -/
def lower (t : Text) : Text :=
  t.map Char.toLower

def isHexDigit (c : Char) : Bool :=
  c.isDigit || ('a' ≤ c && c ≤ 'f') || ('A' ≤ c && c ≤ 'F')

/-- `ethers.isHexString(t, width)`. -/
def isHexString (t : Text) (width : ℕ) : Bool :=
  t.length == 2 + 2 * width && t.take 2 == ['0', 'x'] && (t.drop 2).all isHexDigit

/-- One lower-case hex digit. -/
def hexDigit (n : ℕ) : Char :=
  if n < 10 then Char.ofNat (48 + n) else Char.ofNat (87 + n)

/-- Bytes as a lower-case hex string. -/
def ofBytes (bs : Bytes) : Text :=
  '0' :: 'x' :: bs.flatMap fun b ↦ [hexDigit (b.toNat / 16), hexDigit (b.toNat % 16)]

/-- A word as a lower-case hex string. -/
def ofWord (w : Bytes32) : Text :=
  ofBytes (wordBytes w)

/-- An address as a lower-case hex string. -/
def ofAddress (a : Address) : Text :=
  ofBytes (toBytes 20 a.toNat)

/-- A number in decimal. -/
def ofNat (n : ℕ) : Text :=
  Nat.toDigits 10 n

/-- `ethers.toUtf8Bytes`. -/
def utf8 (t : Text) : Bytes :=
  t.flatMap fun c ↦ (String.utf8EncodeChar c).map UInt8.toBitVec

/-- `new TextDecoder('utf-8', { fatal: true }).decode(bs)`. A byte order mark is skipped. -/
def decoded (bs : Bytes) : Option Text :=
  Utf8.decode (if bs.take 3 = [0xef, 0xbb, 0xbf] then bs.drop 3 else bs)

theorem utf8_injective : Function.Injective utf8 :=
  Utf8.encode_injective

end Text

inductive Json
  | null
  | bool (b : Bool)
  | number (z : ℤ)
  | string (t : Text)
  | array (items : List Json)
  | object (fields : List (Text × Json))

namespace Json

/-- A 32-byte hex string. -/
def word (w : Bytes32) : Json :=
  string (Text.ofWord w)

/-- A character of a string literal. -/
def escape (c : Char) : Text :=
  if c = '"' then ['\\', '"']
  else if c = '\\' then ['\\', '\\']
  else if c.toNat = 8 then ['\\', 'b']
  else if c.toNat = 9 then ['\\', 't']
  else if c.toNat = 10 then ['\\', 'n']
  else if c.toNat = 12 then ['\\', 'f']
  else if c.toNat = 13 then ['\\', 'r']
  else if c.toNat < 32 then
    ['\\', 'u', '0', '0', Text.hexDigit (c.toNat / 16), Text.hexDigit (c.toNat % 16)]
  else [c]

def quote (t : Text) : Text :=
  '"' :: t.flatMap escape ++ ['"']

mutual

/-- `JSON.stringify`. -/
def stringify : Json → Text
  | null => ['n', 'u', 'l', 'l']
  | bool b => if b then ['t', 'r', 'u', 'e'] else ['f', 'a', 'l', 's', 'e']
  | number (.ofNat n) => Text.ofNat n
  | number (.negSucc n) => '-' :: Text.ofNat (n + 1)
  | string t => quote t
  | array items => '[' :: stringifyItems items ++ [']']
  | object fields => '{' :: stringifyFields fields ++ ['}']

/-- The items of an array, with commas between. -/
def stringifyItems : List Json → Text
  | [] => []
  | [v] => stringify v
  | v :: items => stringify v ++ ',' :: stringifyItems items

/-- The fields of an object, with commas between. -/
def stringifyFields : List (Text × Json) → Text
  | [] => []
  | [(k, v)] => quote k ++ ':' :: stringify v
  | (k, v) :: fields => quote k ++ ':' :: stringify v ++ ',' :: stringifyFields fields

end

/-- `keccak256(toUtf8Bytes(JSON.stringify(value)))`. -/
def hash (v : Json) : Bytes32 :=
  keccak256 (Text.utf8 (stringify v))

example : stringify (object [(['a'], array [number 7, string ['x', '"']]), (['b'], null)]) =
    "\x7b\"a\":[7,\"x\\\"\"],\"b\":null\x7d".toList := by
  decide +kernel

end Json

end Pipeline

end Proofmark
