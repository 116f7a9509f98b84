import Proofmark.Aml.Provenance
import Proofmark.Pipeline.BundleRoundTrip

/-!
# The compiled index

`index-format.ts`: the entries of the lists in a slim form, bound by their hash and by the lists'
provenance, and the reader that takes nothing of a file for granted. What `buildIndex` writes it
reads again before it returns.
-/

open Evm JsonText Proofmark.Pipeline
open Proofmark.Pipeline.Bundle (fieldArray)

namespace Proofmark.Aml

variable {N : Type}

def INDEX_VERSION : ℤ :=
  3

/-- The most bytes of a file. -/
def maxCompressed : ℕ :=
  32 * 1024 * 1024

/-- The most bytes that it may inflate to. -/
def maxInflated : ℕ :=
  128 * 1024 * 1024

/-- What a reader gets. `meta` is the record without its entries. -/
structure Index (N : Type) where
  entries : List ListedEntry
  «meta» : Value N

/-- A value in memory: its objects list their properties in the language's order. -/
structure Plain (N : Type) where
  value : Value N
  normalize_value : JsonText.normalize value = value

/-! ### `buildIndex` -/

/-- `/^0x[0-9a-f]{40}$/` -/
def isWallet (t : Text) : Bool :=
  isLowerAddress (units t)

/-- `t` of a slim entry. -/
def EntryType.number : EntryType → ℕ
  | individual => 0
  | entity => 1
  | vessel | unknown => 2

/-- The type that a slim entry's `t` stands for. -/
def EntryType.ofNumber (t : ℤ) : Option EntryType :=
  if t = 0 then some .individual else if t = 1 then some .entity
  else if t = 2 then some .unknown else none

/-- `LIST_IDS[l]` -/
def listOf (l : ℤ) : Option ListId :=
  if l < 0 then none else LIST_IDS[l.toNat]?

def texts (l : List Text) : Value N :=
  .array (l.map .string)

/-- A record of the lists, in the order of `LIST_IDS`. -/
def byList (f : ListId → Value N) : Value N :=
  .object (LIST_IDS.map fun id ↦ (id.text.toList, f id))

namespace Runtime

variable (R : Runtime N)

/-- `SlimEntry` -/
def slim (e : ListedEntry) : Value N :=
  .object [("l".toList, .number (R.numbers.ofInt (LIST_IDS.idxOf e.listId))),
    ("i".toList, .string e.entryId), ("p".toList, .string e.primaryName),
    ("n".toList, texts e.names), ("d".toList, texts e.dobs), ("c".toList, texts e.countries),
    ("w".toList, texts (e.cryptoAddresses.filter isWallet)),
    ("t".toList, .number (R.numbers.ofInt e.type.number))]

def slimEntries (entries : List ListedEntry) : Value N :=
  .array (entries.map R.slim)

/-- A field of a source that passed the checks. -/
def sourceField (provenance : Value N) (name : String) (list : ListId) : Value N :=
  ((source provenance list).bind fun s ↦ s.get name.toList).getD .null

/-- `listVersionsOf` -/
def listVersionsOf (provenance : Value N) (list : ListId) : N :=
  R.listVersionOf ((source provenance list).getD .null)

/-- The record that is written. -/
def document (entries : List ListedEntry) (provenance : Value N) (builtAt : Text) : Value N :=
  .object [("v".toList, .number (R.numbers.ofInt INDEX_VERSION)),
    ("builtAt".toList, .string builtAt), ("provenance".toList, provenance),
    ("entriesSha256".toList, .string (R.sha256Text (R.stringify (R.slimEntries entries)))),
    ("listVersions".toList, byList fun id ↦ .number (R.listVersionsOf provenance id)),
    ("counts".toList, byList (sourceField provenance "entryCount")),
    ("sourceUpdatedAt".toList, byList (sourceField provenance "checkedAt")),
    ("entries".toList, R.slimEntries entries)]

/-! ### `readIndex` -/

/-- `strings(v)`, with the strings. -/
def stringsOf (v : Value N) (name : String) : Option (List Text) :=
  (fieldArray v name).bind fun items ↦ items.mapM fun item ↦ asText (some item)

/-- The entry that a slim one stands for, where it is well formed. -/
def readSlim (v : Value N) : Option ListedEntry := do
  let listId ← (R.numbers.fieldInt v "l").bind listOf
  let type ← (R.numbers.fieldInt v "t").bind EntryType.ofNumber
  let entryId ← (fieldText v "i").filter fun text ↦ text ≠ []
  let primaryName ← (fieldText v "p").filter fun text ↦ text ≠ []
  let names ← (stringsOf v "n").filter fun names ↦ names ≠ [] && names.all fun name ↦ name ≠ []
  let dobs ← stringsOf v "d"
  let countries ← stringsOf v "c"
  let cryptoAddresses ← (stringsOf v "w").filter fun addresses ↦ addresses.all isWallet
  return { listId, entryId, primaryName, names, dobs, countries, programs := [], cryptoAddresses,
           type }

end Runtime

/-- `listId:entryId` -/
def ListedEntry.key (e : ListedEntry) : Text :=
  e.listId.text.toList ++ ':' :: e.entryId

/-- The loop over the entries: their keys, how many each list has, and the entries. -/
structure Reading where
  seen : List Text
  counts : ListId → Option ℤ
  entries : List ListedEntry

def Reading.start : Reading :=
  ⟨[], fun _ ↦ none, []⟩

namespace Runtime

variable [DecidableEq N] (R : Runtime N)

def readEntry (s : Reading) (v : Value N) : Except IndexError Reading := do
  let e ← getOrRevert (R.readSlim v) .invalidEntry
  revertIf (s.seen.contains e.key) .duplicateEntry
  return {
    seen := s.seen ++ [e.key]
    counts := Function.update s.counts e.listId (some ((s.counts e.listId).getD 0 + 1))
    entries := s.entries ++ [e] }

/-- `counts`, `listVersions` and `sourceUpdatedAt` have the lists' keys. -/
def assertKeyed (value : Value N) (name : String) : Except IndexError Unit := do
  let field ← getOrRevert (value.get name.toList) (.invalidField name)
  revertIf (!R.numbers.truthy (some field) || !keyedByLists field) (.invalidField name)

/-- A property of a field of the record. -/
def entryOf (value : Value N) (name : String) (list : ListId) : Option (Value N) :=
  (value.get name.toList).bind fun field ↦ field.get list.text.toList

/-- `v === n` -/
def isNumber (n : N) : Option (Value N) → Bool
  | some (.number m) => m = n
  | _ => false

/-- What the record says of a list is what its provenance and its entries say. -/
def assertConsistent (provenance value : Value N) (counts : ListId → Option ℤ) (list : ListId) :
    Except IndexError Unit :=
  let s := (source provenance list).getD .null
  revertIf (counts list ≠ R.numbers.fieldInt s "entryCount" ||
    counts list ≠ R.numbers.asInt (entryOf value "counts" list) ||
    !isNumber (R.listVersionOf s) (entryOf value "listVersions" list) ||
    asText (entryOf value "sourceUpdatedAt" list) ≠ fieldText s "checkedAt") (.inconsistent list)

def readValue (value : Value N) (now : ℚ) (configured : Option ℚ) :
    Except IndexError (Index N) := do
  revertIf (value matches .null) .notAnObject
  revertIf (R.numbers.fieldInt value "v" ≠ some INDEX_VERSION) .unsupportedIndex
  let maxAgeHours ← freshnessHours configured
  R.assertProvenance (value.get "provenance".toList) now maxAgeHours
  let provenance := (value.get "provenance".toList).getD .null
  let builtAt ← getOrRevert (fieldText value "builtAt") .invalidBuildTime
  let built ← getOrRevert (R.parseDate builtAt) .invalidBuildTime
  let created := (fieldText provenance "createdAt").bind R.parseDate
  revertIf (R.toISOString built ≠ some builtAt || now < built || created.any fun ms ↦ built < ms)
    .invalidBuildTime
  let items ← getOrRevert (fieldArray value "entries") .entryHashMismatch
  revertIf (fieldText value "entriesSha256" ≠ some (R.sha256Text (R.stringify (.array items))))
    .entryHashMismatch
  let s ← items.foldlM R.readEntry Reading.start
  ["counts", "listVersions", "sourceUpdatedAt"].forM (R.assertKeyed value)
  LIST_IDS.forM (R.assertConsistent provenance value s.counts)
  return ⟨s.entries, dropField value "entries"⟩

def readIndex (compressed : Bytes) (now : ℚ) (configured : Option ℚ) :
    Except IndexError (Index N) := do
  revertIf (maxCompressed < compressed.length) .compressedTooLarge
  let inflated ← getOrRevert (R.gunzip maxInflated compressed) .notInflated
  let value ← getOrRevert (parse R.numbers.numerals (R.decodeUtf8 inflated)) .notJson
  R.readValue value now configured

/-- Build cannot publish an artifact its reader rejects. -/
def buildIndex (entries : List ListedEntry) (provenance : Plain N) (now : ℚ)
    (configured : Option ℚ) : Except IndexError Bytes := do
  let maxAgeHours ← freshnessHours configured
  R.assertProvenance (some provenance.value) now maxAgeHours
  let builtAt ← getOrRevert (R.toISOString now) .invalidDate
  let compressed := R.gzip (Text.utf8 (R.stringify (R.document entries provenance.value builtAt)))
  let _ ← R.readIndex compressed now configured
  return compressed

end Runtime

end Proofmark.Aml
