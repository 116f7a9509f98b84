import Proofmark.Evm.Bytes

/-!
# Types and pure libraries shared by the contracts

`ProofmarkTypes.sol`, `MarkAttrs.sol` and `EpochBounds.sol`. A status or an origin is stored as a
`uint8` cast of an enumeration and only ever written from that enumeration, so the fields hold the
enumeration itself; an action code comes from the caller of `execute` and stays a number.

The one fact the contracts rely on across their boundary is proved here: a word that satisfies the
schema survives being unpacked into a `Mark` and packed again (`pack_unpack`).
-/

open Evm

namespace Proofmark

/-- ASC action codes. First argument to `execute(action, ...)`. -/
inductive Action
  | MarkIssued
  | MarkRevoked
  | SanctionDenied
  | RosterEpoch
  | IssuerKeyCompromise
  | SanctionDenialCorrection
  deriving DecidableEq, Repr

/-- `uint8(Action.X)`. -/
def Action.code : Action → Uint 8
  | .MarkIssued => 0
  | .MarkRevoked => 1
  | .SanctionDenied => 2
  | .RosterEpoch => 3
  | .IssuerKeyCompromise => 4
  | .SanctionDenialCorrection => 5

/-- Mark status. `None` is never issued, `Denied` is sanctioned. -/
inductive MarkStatus
  | None
  | Active
  | Revoked
  | Denied
  | Suspended
  deriving DecidableEq, Repr, Inhabited

/-- How the mark reached this chain. -/
inductive MarkOrigin
  | None
  | Direct
  | Roster
  deriving DecidableEq, Repr, Inhabited

/-- The on-chain mark. -/
structure Mark where
  status : MarkStatus
  origin : MarkOrigin
  kind : Uint 8
  assurance : Uint 8
  regime : Uint 16
  jurisdiction : Uint 16
  methods : Uint 32
  issuedAt : Uint 40
  expiry : Uint 40
  epoch : Uint 32
  claimsRoot : Bytes32
  evidenceHash : Bytes32
  issuer : Address
  deriving DecidableEq, Repr

/-- The value of a mapping slot never written. -/
def Mark.zero : Mark :=
  ⟨.None, .None, 0, 0, 0, 0, 0, 0, 0, 0, 0, 0, 0⟩

/-- Pass conditions a consumer dApp registers. -/
structure Policy where
  requireAll : Uint 32
  minAssurance : Uint 8
  maxAge : Uint 40
  requiredRegime : Uint 16
  requiredJurisdiction : Uint 16
  trustedIssuer : Address
  requireRoster : Bool
  exists_ : Bool
  deriving DecidableEq, Repr

/-- The value of a mapping slot never written. -/
def Policy.zero : Policy :=
  ⟨0, 0, 0, 0, 0, 0, false, false⟩

/-! ### MarkAttrs -/

namespace MarkAttrs

def SUPPORTED_METHODS : Uint 32 := 0x001f07ff

def kind (a : Bytes32) : Uint 8 := (a >>> 248).setWidth 8
def assurance (a : Bytes32) : Uint 8 := (a >>> 240).setWidth 8
def regime (a : Bytes32) : Uint 16 := (a >>> 224).setWidth 16
def jurisdiction (a : Bytes32) : Uint 16 := (a >>> 208).setWidth 16
def methods (a : Bytes32) : Uint 32 := (a >>> 176).setWidth 32
def issuedAt (a : Bytes32) : Uint 40 := (a >>> 136).setWidth 40
def expiry (a : Bytes32) : Uint 40 := (a >>> 96).setWidth 40
def epoch (a : Bytes32) : Uint 32 := (a >>> 64).setWidth 32

/-- Schema 0: the reserved low 64 bits are zero and every field is in its range. -/
def validSchema (a : Bytes32) : Bool :=
  a.setWidth 64 == (0 : Uint 64) && (kind a == 1 || kind a == 2)
    && decide (1 ≤ assurance a) && decide (assurance a ≤ 5)
    && (regime a == 1 || regime a == 2)
    && decide (1 ≤ jurisdiction a) && decide (jurisdiction a ≤ 999)
    && (methods a &&& ~~~SUPPORTED_METHODS) == 0
    && issuedAt a != 0 && decide (issuedAt a < expiry a)

def validAtIssuance (a : Bytes32) (now : ℕ) : Bool :=
  validSchema a && decide ((issuedAt a).toNat ≤ now) && decide (now < (expiry a).toNat)

/-- Packs the eight scalar fields; the low 64 bits stay zero. -/
def pack (kind : Uint 8) (assurance : Uint 8) (regime jurisdiction : Uint 16) (methods : Uint 32)
    (issuedAt expiry : Uint 40) (epoch : Uint 32) : Bytes32 :=
  (kind.setWidth 256 <<< 248) ||| (assurance.setWidth 256 <<< 240) |||
    (regime.setWidth 256 <<< 224) ||| (jurisdiction.setWidth 256 <<< 208) |||
    (methods.setWidth 256 <<< 176) ||| (issuedAt.setWidth 256 <<< 136) |||
    (expiry.setWidth 256 <<< 96) ||| (epoch.setWidth 256 <<< 64)

theorem reserved_eq_zero {a : Bytes32} (h : validSchema a = true) :
    a.setWidth 64 = (0 : Uint 64) := by
  simp only [validSchema, Bool.and_eq_true, beq_iff_eq] at h
  exact h.1.1.1.1.1.1.1.1.1

theorem issuedAt_lt_expiry {a : Bytes32} (h : validSchema a = true) : issuedAt a < expiry a := by
  simp only [validSchema, Bool.and_eq_true, decide_eq_true_eq] at h
  exact h.2

theorem validSchema_of_validAtIssuance {a : Bytes32} {now : ℕ}
    (h : validAtIssuance a now = true) : validSchema a = true := by
  simp only [validAtIssuance, Bool.and_eq_true] at h
  exact h.1.1

/-- A field cut out of a word and shifted back is the word masked to the field's bits. -/
theorem getLsbD_field (a : Bytes32) (offset width : ℕ) {i : ℕ} (hi : i < 256) :
    (((a >>> offset).setWidth width).setWidth 256 <<< offset).getLsbD i =
      (decide (offset ≤ i ∧ i < offset + width) && a.getLsbD i) := by
  simp only [BitVec.getLsbD_shiftLeft, BitVec.getLsbD_setWidth, BitVec.getLsbD_ushiftRight]
  by_cases hin : offset ≤ i ∧ i < offset + width
  · have hback : offset + (i - offset) = i := by omega
    simp [hin, hi, hback, show ¬i < offset by omega, show i - offset < 256 by omega,
      show i - offset < width by omega]
  · by_cases hlow : i < offset
    · simp [hlow, hin]
    · simp [hin, show ¬i - offset < width by omega]

/-- **A word of schema 0 survives the round trip through a mark.** The hub unpacks the fields, the
Registry packs them again; the reserved bits are the only ones the fields do not carry. -/
theorem pack_unpack {a : Bytes32} (h : validSchema a = true) :
    pack (kind a) (assurance a) (regime a) (jurisdiction a) (methods a) (issuedAt a) (expiry a)
      (epoch a) = a := by
  have hlow : ∀ i, i < 64 → a.getLsbD i = false := fun i hi ↦ by
    have hbit := congrArg (BitVec.getLsbD · i) (reserved_eq_zero h)
    simpa [hi] using hbit
  apply BitVec.eq_of_getLsbD_eq
  intro i hi
  simp only [pack, kind, assurance, regime, jurisdiction, methods, issuedAt, expiry, epoch,
    BitVec.getLsbD_or, getLsbD_field a 248 8 hi, getLsbD_field a 240 8 hi,
    getLsbD_field a 224 16 hi, getLsbD_field a 208 16 hi, getLsbD_field a 176 32 hi,
    getLsbD_field a 136 40 hi, getLsbD_field a 96 40 hi, getLsbD_field a 64 32 hi]
  -- the eight fields tile the bits from 64 up; below, the word is zero
  cases hbit : a.getLsbD i with
  | false => simp
  | true =>
    have h64 : 64 ≤ i := by
      by_contra hlt
      rw [hlow i (by omega)] at hbit
      exact absurd hbit (by simp)
    simp only [Bool.and_true, Bool.or_eq_true, decide_eq_true_eq]
    omega

end MarkAttrs

/-! ### EpochBounds -/

namespace EpochBounds

/-- `1 days`. -/
def MAX_AGE : ℕ := 86400

/-- `1 hours`. -/
def MAX_PUBLICATION_LAG : ℕ := 3600

/-- Structural bounds on a publisher assertion. The subtractions are guarded by the comparisons
before them, so they never wrap. -/
def valid (root : Bytes32) (cutoff publishedAt validUntil : Uint 40) (snapshotId : Bytes32) :
    Bool :=
  root != 0 && snapshotId != 0 && cutoff != 0 && decide (cutoff ≤ publishedAt)
    && decide (publishedAt.toNat - cutoff.toNat ≤ MAX_PUBLICATION_LAG)
    && decide (publishedAt < validUntil)
    && decide (validUntil.toNat - cutoff.toNat ≤ MAX_AGE)

theorem root_ne_zero {root snapshotId : Bytes32} {cutoff publishedAt validUntil : Uint 40}
    (h : valid root cutoff publishedAt validUntil snapshotId = true) : root ≠ 0 := by
  simp only [valid, Bool.and_eq_true, bne_iff_ne] at h
  exact h.1.1.1.1.1.1

end EpochBounds

end Proofmark
