import Proofmark.Vault.Data

/-!
# Observations of a revocation

`revocation-observation.ts`: the schema boundary that an observation passes before it is recorded
with a job. It checks every field, recomputes the state from the hub's cursor and the revocation's
position on the source, and writes hashes and addresses in lower case.
-/

open Evm

namespace Proofmark.Vault

open Pipeline (Text)

def requireThat (ok : Bool) : Except String Unit :=
  revertIf (!ok) "INVALID_REVOCATION_OBSERVATION"

def isInteger (value : ℤ) : Bool :=
  0 ≤ value && value ≤ 9007199254740991

/-- `hash(value)` -/
def normalizeHash (value : Text) : Except String Text := do
  requireThat (Text.isHexString value 32)
  return Text.lower value

def zeroAddress : Text :=
  '0' :: 'x' :: List.replicate 40 '0'

/-- `address(value)` -/
def normalizeAddress (P : Platform) (value : Text) : Except String Text := do
  requireThat (P.isAddress value && Text.lower value ≠ zeroAddress)
  return Text.lower value

/-- A numeral in decimal. -/
def decimalValue (value : Text) : ℕ :=
  value.foldl (fun n c ↦ 10 * n + (c.toNat - 48)) 0

/-- `/^(0|[1-9]\d{0,77})$/` -/
def isDecimal (value : Text) : Bool :=
  value == ['0'] ||
    (value.length ≤ 78 && value.all Char.isDigit && value.head?.any fun c ↦ c ≠ '0')

/-- `coordinate(value, bits)` -/
def coordinate (value : Text) (bits : ℕ) : Except String Text := do
  requireThat (isDecimal value && decimalValue value < 2 ^ bits)
  return value

/-- The first pair of coordinates that differs decides: the hub's cursor is past the revocation, or
before it. -/
def cursorOrder : List (ℤ × ℤ) → Ordering
  | [] => .eq
  | (a, b) :: rest => if a = b then cursorOrder rest else if b < a then .gt else .lt

/-- The state that the hub's cursor, tombstone and policies show. -/
def observedState (s : SourceObservation) (h : HubObservation) : ObservationState :=
  match cursorOrder [(decimalValue h.cursor.height, s.blockNumber),
      (decimalValue h.cursor.transactionIndex, s.transactionIndex),
      (decimalValue h.cursor.receiptLogIndex, s.receiptLogIndex)] with
  | .eq => if h.tombstone && h.policies.all fun p ↦ !p.verified then .enforced else .inconsistent
  | .gt => .superseded
  | .lt => .awaitingHub

/-- A timestamp in seconds that is fresh for the observation. -/
def isFresh (observedAt timestamp : ℤ) : Bool :=
  0 < timestamp && timestamp ≤ observedAt + 30 && observedAt - timestamp ≤ 300

/-- `normalizeRevocationObservation` -/
def normalizeRevocationObservation (P : Platform) (value : RevocationObservation) :
    Except String RevocationObservation := do
  let c := value.config
  let s := value.source
  let h := value.hub
  requireThat (value.version = 1 && isReference value.operator)
  requireThat (isInteger value.observedAt && 0 < value.observedAt &&
    value.observedAt ≤ 9007199254740991 / 1000 && isInteger c.confirmations &&
    0 < c.confirmations)
  requireThat (!c.policyIds.isEmpty && c.policyIds.length ≤ 16 &&
    (c.policyIds.all fun id ↦ isInteger id && 0 < id) && decide c.policyIds.Nodup)
  requireThat ([s.blockNumber, s.transactionIndex, s.receiptLogIndex, s.confirmations,
    s.head.blockNumber, s.head.timestamp, h.block.blockNumber, h.block.timestamp].all isInteger &&
    c.confirmations ≤ s.confirmations && isFresh value.observedAt h.block.timestamp)
  requireThat (s.blockNumber ≤ s.head.blockNumber &&
    s.head.blockNumber - s.blockNumber + 1 = s.confirmations &&
    isFresh value.observedAt s.head.timestamp)
  requireThat (h.policies.map ObservedPolicy.id = c.policyIds)
  let height ← coordinate h.cursor.height 64
  let transactionIndex ← coordinate h.cursor.transactionIndex 64
  let receiptLogIndex ← coordinate h.cursor.receiptLogIndex 256
  requireThat (value.state = observedState s h)
  let source ← normalizeAddress P c.source
  let asc ← normalizeAddress P c.asc
  let registry ← normalizeAddress P c.registry
  let expectedRevoker ← normalizeAddress P c.expectedRevoker
  let sourceCodeHash ← normalizeHash c.sourceCodeHash
  let ascCodeHash ← normalizeHash c.ascCodeHash
  let registryCodeHash ← normalizeHash c.registryCodeHash
  let transactionHash ← normalizeHash s.transactionHash
  let blockHash ← normalizeHash s.blockHash
  let sourceHead ← normalizeHash s.head.blockHash
  let hubHead ← normalizeHash h.block.blockHash
  return { value with
    config := { c with source, asc, registry, expectedRevoker, sourceCodeHash, ascCodeHash,
                       registryCodeHash }
    source := { s with transactionHash, blockHash, head := { s.head with blockHash := sourceHead } }
    hub := { h with block := { h.block with blockHash := hubHead },
                    cursor := ⟨height, transactionIndex, receiptLogIndex⟩ } }

end Proofmark.Vault
