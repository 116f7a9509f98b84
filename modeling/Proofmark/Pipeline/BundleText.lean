import Proofmark.Pipeline.Addresses
import Proofmark.Pipeline.Canonical
import Proofmark.Pipeline.RosterBundle

/-!
# Roster bundles as bytes

`roster-bundle.ts` and the seeds of `roster-bundle-availability.ts`: a record is brought into one
spelling and one order, checked, written as JSON and pinned by its hash; a loaded bundle is checked
again and answers for its subjects.

A number is one of the language (`JsNumbers`); addresses and the hash are the libraries'. The
metadata of a loaded bundle and the transaction it prepares are left out, and so are the files the
seeds are kept in.
-/

open Evm JsonText

namespace Proofmark.Pipeline.Bundle

variable {N : Type}

def MAX_BUNDLE_BYTES : ℕ :=
  64 * 1024 * 1024

def MAX_BUNDLE_ENTRIES : ℕ :=
  100000

structure RosterScope (N : Type) where
  sourceChainId : N
  sourceChainKey : N
  hubChainId : N
  source : Text
  asc : Text
  registry : Text

/-- `RosterEntry`, in texts. -/
structure Entry where
  subject : Text
  attrs : Text
  claimsRoot : Text
  evidenceHash : Text
  issuer : Text
  deriving DecidableEq

/-- `Omit<RosterBundle, 'bundleVersion' | 'scope'>` -/
structure RosterRecord (N : Type) where
  rosterFormatVersion : N
  epochSchemaVersion : N
  rosterAuthVersion : N
  epoch : N
  root : Text
  listVersion : N
  sourceCutoff : N
  publishedAt : N
  validUntil : N
  snapshotId : Text
  approvedIssuers : List Text
  entries : List Entry

structure RosterBundle (N : Type) extends RosterRecord N where
  bundleVersion : N
  scope : RosterScope N

inductive BundleError
  | invalidBundle
  | legacyRecord
  | unexpectedField
  | invalidVersionScope
  | invalidLimits
  | duplicateIssuer
  | invalidEntry
  | unapprovedEntry
  /-- `ethers` refuses an address -/
  | invalidAddress
  | roster (e : RosterError)
  | rootNotReproduced
  | tooLarge
  | pinMismatch
  | invalidText
  | rootMismatch
  | invalidProofSubject
  | invalidSeed
  | noncanonicalSeed
  deriving DecidableEq

open BundleError

/-! ### JSON -/

def Entry.toValue (e : Entry) : Value N :=
  .object [("subject".toList, .string e.subject), ("attrs".toList, .string e.attrs),
    ("claimsRoot".toList, .string e.claimsRoot), ("evidenceHash".toList, .string e.evidenceHash),
    ("issuer".toList, .string e.issuer)]

def RosterScope.toValue (s : RosterScope N) : Value N :=
  .object [("sourceChainId".toList, .number s.sourceChainId),
    ("sourceChainKey".toList, .number s.sourceChainKey),
    ("hubChainId".toList, .number s.hubChainId), ("source".toList, .string s.source),
    ("asc".toList, .string s.asc), ("registry".toList, .string s.registry)]

def RosterBundle.toValue (b : RosterBundle N) : Value N :=
  .object [("bundleVersion".toList, .number b.bundleVersion),
    ("rosterFormatVersion".toList, .number b.rosterFormatVersion),
    ("epochSchemaVersion".toList, .number b.epochSchemaVersion),
    ("rosterAuthVersion".toList, .number b.rosterAuthVersion), ("scope".toList, b.scope.toValue),
    ("epoch".toList, .number b.epoch), ("root".toList, .string b.root),
    ("listVersion".toList, .number b.listVersion), ("sourceCutoff".toList, .number b.sourceCutoff),
    ("publishedAt".toList, .number b.publishedAt), ("validUntil".toList, .number b.validUntil),
    ("snapshotId".toList, .string b.snapshotId),
    ("approvedIssuers".toList, .array (b.approvedIssuers.map .string)),
    ("entries".toList, .array (b.entries.map Entry.toValue))]

/-- A field that is an array. -/
def fieldArray (v : Value N) (name : String) : Option (List (Value N)) :=
  match v.get name.toList with
  | some (.array items) => some items
  | _ => none

/-- `Object.keys(v)`, where `typeof v` is `'object'`. -/
def keysOf : Value N → Option (List Text)
  | .object fields => some (fields.map Prod.fst)
  | .array items => some ((List.range items.length).map Text.ofNat)
  | _ => none

def readEntry (v : Value N) : Option Entry := do
  return {
    subject := ← fieldText v "subject"
    attrs := ← fieldText v "attrs"
    claimsRoot := ← fieldText v "claimsRoot"
    evidenceHash := ← fieldText v "evidenceHash"
    issuer := ← fieldText v "issuer" }

section Checks

variable (J : JsNumbers N) (E : Addresses)

/-- `uint` -/
def uint (n : N) (max min : ℤ) : Bool :=
  (J.safe n).any fun z ↦ decide (min ≤ z) && decide (z ≤ max)

def MAX_SAFE_INTEGER : ℤ :=
  2 ^ 53 - 1

def digest (t : Text) : Bool :=
  Text.isHexString t 32 && t != Text.ofWord 0

def address (t : Text) : Bool :=
  E.isAddress t && t != Text.ofAddress 0

def exactKeys (v : Value N) (keys : List String) : Except BundleError Unit :=
  revertIf (((keysOf v).getD []).any fun key ↦ !(keys.map String.toList).contains key)
    unexpectedField

/-- The scope, epoch, provenance and limits. -/
def withinLimits (b : RosterBundle N) (entryCount : ℕ) : Bool :=
  uint J b.scope.sourceChainId MAX_SAFE_INTEGER 1 && uint J b.scope.hubChainId MAX_SAFE_INTEGER 1
    && uint J b.scope.sourceChainKey MAX_SAFE_INTEGER 1
    && [b.scope.source, b.scope.asc, b.scope.registry].all (address E)
    && uint J b.epoch 0xffffffff 1 && uint J b.listVersion 0xffffffff 0
    && digest b.root && digest b.snapshotId
    && [b.sourceCutoff, b.publishedAt, b.validUntil].all (uint J · 0xffffffffff 1)
    && (match J.safe b.sourceCutoff, J.safe b.publishedAt, J.safe b.validUntil with
      | some sourceCutoff, some publishedAt, some validUntil =>
        decide (sourceCutoff ≤ publishedAt) && decide (publishedAt ≤ sourceCutoff + 3600)
          && decide (publishedAt < validUntil) && decide (validUntil ≤ sourceCutoff + 86400)
      | _, _, _ => false)
    && decide (entryCount ≤ MAX_BUNDLE_ENTRIES)
    && decide (1 ≤ b.approvedIssuers.length) && decide (b.approvedIssuers.length ≤ 16)
    && b.approvedIssuers.all (address E)

/-- What is checked of an entry. -/
def validEntry (approvedIssuers : List Text) (sourceCutoff : Option ℤ) (e : Entry) : Bool :=
  address E e.subject && address E e.issuer && validCredentialAttrs e.attrs sourceCutoff
    && Text.isHexString e.claimsRoot 32 && Text.isHexString e.evidenceHash 32
    && (approvedIssuers.map Text.lower).contains e.issuer.lower

end Checks

/-! ### `exportRosterBundle` -/

section Export

variable (J : JsNumbers N) (E : Addresses) (sha256 : Bytes → Bytes32)

/-- The address a text stands for. -/
def addressOf (t : Text) : Address :=
  BitVec.ofNat 160 (Text.hexNat (((E.getAddress t).getD []).drop 2))

/-- What an entry says. -/
def Entry.words (e : Entry) : RosterEntry where
  subject := addressOf E e.subject
  attrs := Text.toWord e.attrs
  claimsRoot := Text.toWord e.claimsRoot
  evidenceHash := Text.toWord e.evidenceHash
  issuer := addressOf E e.issuer

/-- The entries of the tree, in their texts. -/
def sortEntries (entries : List Entry) : List Entry :=
  entries.insertionSort fun a b ↦
    subjectKey (addressOf E a.subject) EVM_NAMESPACE ≤
      subjectKey (addressOf E b.subject) EVM_NAMESPACE

/-- `BigInt(a)` of an address. -/
def issuerNumber (t : Text) : ℕ :=
  Text.hexNat (t.drop 2)

def sortIssuers (issuers : List Text) : List Text :=
  issuers.insertionSort fun a b ↦ issuerNumber a ≤ issuerNumber b

def Entry.canonical (e : Entry) : Option Entry := do
  return ⟨← E.getAddress e.subject, e.attrs.lower, e.claimsRoot.lower, e.evidenceHash.lower,
    ← E.getAddress e.issuer⟩

/-- The public fields of a record, in one spelling. -/
def canonical (record : RosterRecord N) (scope : RosterScope N) : Option (RosterBundle N) := do
  return {
    record with
    bundleVersion := J.ofInt 1
    scope := { scope with
      source := ← E.getAddress scope.source
      asc := ← E.getAddress scope.asc
      registry := ← E.getAddress scope.registry }
    root := record.root.lower
    snapshotId := record.snapshotId.lower
    approvedIssuers := sortIssuers (← record.approvedIssuers.mapM E.getAddress)
    entries := ← record.entries.mapM (Entry.canonical E) }

/-- `hash` -/
def contentHash (bytes : Bytes) : Text :=
  (Text.ofWord (sha256 bytes)).drop 2

/-- `Buffer.from(JSON.stringify(v) + '\n')` -/
def jsonLine (v : Value N) : Bytes :=
  Text.utf8 (print J.numerals v ++ ['\n'])

def buildEntries (entries : List Entry) : Except BundleError RosterTree :=
  (buildRoster (entries.map (Entry.words E)) EVM_NAMESPACE).mapError BundleError.roster

/-- A loaded bundle and its tree. -/
structure Loaded (N : Type) where
  bundle : RosterBundle N
  tree : RosterTree

/-- `/^[0-9a-f]{64}$/` -/
def isContentHash (t : Text) : Bool :=
  t.length == 64 && t.all fun c ↦ c.isDigit || (decide ('a' ≤ c) && decide (c ≤ 'f'))

/-- Bytes that are pinned. -/
def pinned (bytes : Bytes) (expected : Text) : Bool :=
  isContentHash expected && bytes.length != 0 && decide (bytes.length ≤ MAX_BUNDLE_BYTES)
    && contentHash sha256 bytes == expected

/-- `proof` of a loaded bundle. -/
def Loaded.proof (l : Loaded N) (subject : Text) : Except BundleError BundleProof := do
  revertIf (!address E subject) invalidProofSubject
  (bundleProof l.tree (addressOf E subject)).mapError BundleError.roster

/-! ### Seeds -/

end Export

end Proofmark.Pipeline.Bundle
