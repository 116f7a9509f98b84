import Proofmark.Aml.ListParsers
import Proofmark.Numeric.Double
import Proofmark.Pipeline.BundleText

/-!
# The provenance of the lists

`provenance.ts`: where and when each list was fetched, bound by the snapshot's id. A provenance is a
JSON value, so it is checked as one: the types of its fields are no more than what is tested here.
The runtime's dates, URLs, hash and compression are a parameter (`Runtime`).

The configured age is read from the environment as a number, `none` where it is blank or no finite
number.
-/

open Evm JsonText Proofmark.Pipeline

namespace Proofmark.Aml

variable {N : Type}

/-- `new URL(value)` -/
structure Url where
  protocol : Text
  hostname : Text
  origin : Text
  pathname : Text

/-- What the code asks of its runtime. -/
structure Runtime (N : Type) where
  numbers : JsNumbers N
  sha256 : Bytes → Bytes32
  /-- `Date.parse`, where it is finite -/
  parseDate : Text → Option ℤ
  /-- `new Date(ms).toISOString()`, which throws far from now -/
  toISOString : ℚ → Option Text
  parseUrl : Text → Option Url
  gzip : Bytes → Bytes
  /-- `gunzipSync` with a `maxOutputLength` -/
  gunzip : ℕ → Bytes → Option Bytes
  gunzip_gzip : ∀ max bytes, gunzip max (gzip bytes) =
    if bytes.length ≤ max then some bytes else none
  /-- `toString('utf8')`, which replaces what is no UTF-8 -/
  decodeUtf8 : Bytes → Text
  decodeUtf8_utf8 : ∀ t, decodeUtf8 (Text.utf8 t) = t

inductive IndexError
  | invalidMaxAge
  | invalidFreshnessPolicy
  | unsupportedProvenance
  | manifestHashMismatch
  | timestampMissing
  | timestampNotCanonical
  | snapshotFromFuture
  | invalidTransportUrl
  | invalidSource (listId : ListId)
  | invalidChronology (listId : ListId)
  | staleSource (listId : ListId)
  | invalidDate
  | compressedTooLarge
  | notInflated
  | notJson
  | notAnObject
  | unsupportedIndex
  | invalidBuildTime
  | entryHashMismatch
  | invalidEntry
  | duplicateEntry
  | invalidField (name : String)
  | inconsistent (listId : ListId)
  deriving DecidableEq

/-- `LIST_IDS` -/
def LIST_IDS : List ListId :=
  [.ofacSdn, .unConsolidated, .euFsf]

/-- The text of a list's id. -/
def ListId.text : ListId → String
  | ofacSdn => "OFAC_SDN"
  | unConsolidated => "UN_CONSOLIDATED"
  | euFsf => "EU_FSF"

def PARSER_VERSION : Text :=
  "proofmark-lists-2".toList

def MAX_AGE_HOURS : ℚ :=
  168

/-- `SOURCES[listId].url` -/
def ListId.url : ListId → String
  | ofacSdn => "https://www.treasury.gov/ofac/downloads/sdn.xml"
  | unConsolidated => "https://scsanctions.un.org/resources/xml/en/consolidated.xml"
  | euFsf => "https://webgate.ec.europa.eu/fsd/fsf/public/files/xmlFullSanctionsList_1_1/content" ++
      "?token=dG9rZW4tMjAxNw"

/-- A digest in lower-case hex. -/
def hex (digest : Bytes32) : Text :=
  (Text.ofWord digest).drop 2

/-- `Object.keys(v)` -/
def objectKeys : Value N → List Text
  | .object fields => fields.map Prod.fst
  | .array items => (List.range items.length).map Text.ofNat
  | .string t => (List.range (units t).length).map Text.ofNat
  | _ => []

/-- `keys.sort().join()` -/
def sortedKeys (keys : List Text) : Text :=
  [','].intercalate (keys.insertionSort fun a b ↦ textLe a b = true)

/-- The keys of an object are those of the lists. -/
def keyedByLists (v : Value N) : Bool :=
  sortedKeys (objectKeys v) = sortedKeys (LIST_IDS.map fun id ↦ id.text.toList)

mutual

/-- `canonical`: every object lists its fields in the order of their keys. -/
def canonical : Value N → Value N
  | .array items => .array (canonicalItems items)
  | .object fields => .object (properties (sortedFields (canonicalFields fields)))
  | .null => .null
  | .bool b => .bool b
  | .number n => .number n
  | .string t => .string t

def canonicalItems : List (Value N) → List (Value N)
  | [] => []
  | v :: items => canonical v :: canonicalItems items

def canonicalFields : List (Text × Value N) → List (Text × Value N)
  | [] => []
  | (k, v) :: fields => (k, canonical v) :: canonicalFields fields

end

/-- A finite number that is positive and no more than the ceiling. -/
def freshnessHours (configured : Option ℚ) : Except IndexError ℚ := do
  let hours ← getOrRevert configured .invalidMaxAge
  revertIf (hours ≤ 0 || MAX_AGE_HOURS < hours) .invalidMaxAge
  return hours

/-- `/^[0-9a-f]{64}$/` -/
def isDigest (t : Text) : Bool :=
  t.length = 64 && t.all fun c ↦ isLowerHexDigit c.toNat

/-- `parseInt(t, 16)`, of hex digits. -/
def hexNumber (t : Text) : ℤ :=
  t.foldl (fun n c ↦ n * 16 + ((JsonText.hexValue c).getD 0 : ℤ)) 0

namespace Runtime

variable (R : Runtime N)

/-- The digest of a text, in hex. -/
def sha256Text (t : Text) : Text :=
  hex (R.sha256 (Text.utf8 t))

def stringify (v : Value N) : Text :=
  print R.numbers.numerals v

def publicEffectiveUrl (value : Text) : Except IndexError Text := do
  revertIf (16384 < (units value).length || value.any fun c ↦ c.toNat ≤ 0x20 || c.toNat = 0x7f)
    .invalidTransportUrl
  let url ← getOrRevert (R.parseUrl value) .invalidTransportUrl
  revertIf (url.protocol ≠ "https:".toList || url.hostname = []) .invalidTransportUrl
  return url.origin ++ url.pathname

def snapshotId (body : Value N) : Text :=
  R.sha256Text (R.stringify (canonical body))

/-- A canonical UTC instant, in milliseconds. -/
def timestamp (value : Option (Value N)) : Except IndexError ℤ := do
  let text ← getOrRevert (asText value) .timestampMissing
  let ms ← getOrRevert (R.parseDate text) .timestampNotCanonical
  revertIf (R.toISOString ms ≠ some text) .timestampNotCanonical
  return ms

/-- `value.sources[list]` -/
def source (provenance : Value N) (list : ListId) : Option (Value N) :=
  (provenance.get "sources".toList).bind fun sources ↦ sources.get list.text.toList

/-- `!(s.httpLastModified === null || typeof s.httpLastModified === 'string')`, negated. -/
def isTextOrNull : Option (Value N) → Bool
  | some .null | some (.string _) => true
  | _ => false

/-- `v === null` -/
def isNull : Option (Value N) → Bool
  | some .null => true
  | _ => false

/-- A safe integer above zero. -/
def isPositive (v : Option (Value N)) : Bool :=
  (R.numbers.asInt v).any fun z ↦ 0 < z

/-- The checks of one source. -/
def assertSource (provenance : Value N) (created : ℤ) (now maxAgeHours : ℚ) (list : ListId) :
    Except IndexError Unit := do
  let s ← getOrRevert (source provenance list) (.invalidSource list)
  revertIf (fieldText s "sourceUrl" ≠ some list.url.toList) (.invalidSource list)
  let effective ← getOrRevert (fieldText s "effectiveUrl") (.invalidSource list)
  let published ← R.publicEffectiveUrl effective
  revertIf (published ≠ effective || !(fieldText s "effectiveUrlSha256").any isDigest ||
    !isDigest (R.numbers.stringOf (s.get "sha256".toList)) ||
    !R.isPositive (s.get "bytes".toList) || !R.isPositive (s.get "entryCount".toList) ||
    !isNull (s.get "publishedAt".toList) || !isTextOrNull (s.get "httpLastModified".toList))
    (.invalidSource list)
  let fetched ← R.timestamp (s.get "fetchedAt".toList)
  let checked ← R.timestamp (s.get "checkedAt".toList)
  revertIf (fetched ≠ checked || created < checked || now < checked) (.invalidChronology list)
  revertIf (Numeric.mul maxAgeHours 3600000 < Numeric.sub now checked) (.staleSource list)

/-- One fail-closed rule for raw CLI, baked web index and every screen on a held engine. -/
def assertProvenance (provenance : Option (Value N)) (now maxAgeHours : ℚ) :
    Except IndexError Unit := do
  revertIf (maxAgeHours ≤ 0 || MAX_AGE_HOURS < maxAgeHours) .invalidFreshnessPolicy
  let value ← getOrRevert provenance .unsupportedProvenance
  revertIf (R.numbers.fieldInt value "v" ≠ some 2 ||
    fieldText value "parserVersion" ≠ some PARSER_VERSION ||
    !R.numbers.truthy (value.get "sources".toList) ||
    !(value.get "sources".toList).any keyedByLists) .unsupportedProvenance
  revertIf (fieldText value "snapshotId" ≠ some (R.snapshotId (dropField value "snapshotId")))
    .manifestHashMismatch
  let created ← R.timestamp (value.get "createdAt".toList)
  revertIf (now < created) .snapshotFromFuture
  LIST_IDS.forM (R.assertSource value created now maxAgeHours)

/-- `parseInt(sha256.slice(0, 8), 16)`. A digest that is no text is an array of one, and its slice
the whole of it. -/
def listVersionOf (s : Value N) : N :=
  match s.get "sha256".toList with
  | some (.string t) => R.numbers.ofInt (hexNumber (t.take 8))
  | v => R.numbers.ofInt (hexNumber (R.numbers.stringOf v))

end Runtime

end Proofmark.Aml
