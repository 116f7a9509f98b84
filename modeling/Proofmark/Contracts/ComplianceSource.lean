import Proofmark.Contracts.Events
import Proofmark.Contracts.Ownable2Step
import Proofmark.Contracts.Types

/-!
# The source of issuance

`ComplianceSource.sol`. An external function takes the state and the environment of the call and
returns the new state with the events it emitted, in order, or reverts.

What the contract asks of other addresses is part of the environment of a call (`External`): whether
an address has code, and what the static calls to an issuer return. One call of the source makes
any of these queries at most once per issuer, so a function of the issuer describes every answer
it can get. The caller is never the zero address, which `SourceEnv` carries. The block number is
the height of the receipt, a 64-bit word.
-/

open Evm

namespace Proofmark

/-! ### Environment -/

/-- The other accounts as one call sees them. A static call that fails is `none`. -/
structure External where
  hasCode : Address → Bool
  /-- `ISSUER_KEY_VERSION()`. -/
  issuerKeyVersion : Address → Option Bytes
  /-- `keyEpoch()`. -/
  keyEpoch : Address → Option Bytes
  /-- `isValidSignature(bytes32,bytes)`. -/
  isValidSignature : Address → Bytes32 → Bytes → Option Bytes
  /-- `ECDSA.tryRecover`; `none` is an error. -/
  tryRecover : Bytes32 → Bytes → Option Address

/-- The environment of a call to the source. -/
structure SourceEnv where
  self : Address
  chainId : Uint 256
  number : Uint 64
  timestamp : ℕ
  sender : Address
  sender_ne_zero : sender ≠ 0
  ext : External

/-! ### State -/

inductive SourceError
  | NotIssuer (caller : Address)
  | NotEpochPublisher (caller : Address)
  | LengthMismatch
  | EpochNotMonotonic (given last : Uint 32)
  | ZeroSubject
  | RequestAlreadyProcessed (requestId : Bytes32)
  | InvalidAttrs
  | InvalidEpoch
  | InvalidRootApprovals
  | InvalidIssuerKeyProvenance
  | InvalidCompromiseCutoff
  | NotDenialCorrectionApprover (caller : Address)
  | InvalidDenialCorrection
  | DenialCorrectionNotApproved (correctionId : Uint 256)
  | DenialCorrectionDelayActive (correctionId : Uint 256) (executeAfter : Uint 40)
  | arithmetic
  | ownable (e : OwnableError)
  deriving DecidableEq

structure DenialCorrection where
  subject : Address
  proposer : Address
  approver : Address
  attrs : Bytes32
  claimsRoot : Bytes32
  evidenceHash : Bytes32
  reasonHash : Bytes32
  denialRevision : Uint 64
  executeAfter : Uint 40
  executed : Bool
  deriving DecidableEq

/-- The value of a mapping slot never written. -/
def DenialCorrection.zero : DenialCorrection :=
  ⟨0, 0, 0, 0, 0, 0, 0, 0, 0, false⟩

structure ComplianceSource where
  ownable : Ownable2Step
  isIssuer : Address → Bool
  isEpochPublisher : Address → Bool
  isDenialCorrectionApprover : Address → Bool
  processedRequest : Bytes32 → Bool
  lastEpoch : Uint 32
  sourceDenialActive : Address → Bool
  sourceDenialRevision : Address → Uint 64
  denialCorrections : Uint 256 → DenialCorrection
  nextDenialCorrectionId : Uint 256

/-- An item of `issueBatch`. -/
structure IssuanceItem where
  subject : Address
  attrs : Bytes32
  claimsRoot : Bytes32
  evidenceHash : Bytes32

structure RootApproval where
  issuer : Address
  signature : Bytes

namespace ComplianceSource

/-- `1 hours`. -/
def MIN_DENIAL_CORRECTION_DELAY : ℕ := 3600

def MAX_ROSTER_ISSUERS : ℕ := 16

/-- `IERC1271.isValidSignature.selector`, left-aligned in a word. -/
def ERC1271_MAGIC : Bytes32 := 0x1626ba7e <<< 224

/-- The state the constructor leaves. -/
def deployed (initialOwner : Address) : ComplianceSource where
  ownable := ⟨initialOwner, 0⟩
  isIssuer _ := false
  isEpochPublisher _ := false
  isDenialCorrectionApprover _ := false
  processedRequest _ := false
  lastEpoch := 0
  sourceDenialActive _ := false
  sourceDenialRevision _ := 0
  denialCorrections _ := DenialCorrection.zero
  nextDenialCorrectionId := 1

/-- The result of a call that does not revert. -/
abbrev Result := Except SourceError (ComplianceSource × List SourceEvent)

/-! ### Modifiers and private functions -/

/-- The modifier `onlyIssuer`. -/
def onlyIssuer (s : ComplianceSource) (env : SourceEnv) : Except SourceError Unit :=
  revertIf (!s.isIssuer env.sender) (.NotIssuer env.sender)

/-- The modifier `onlyEpochPublisher`. -/
def onlyEpochPublisher (s : ComplianceSource) (env : SourceEnv) : Except SourceError Unit :=
  revertIf (!s.isEpochPublisher env.sender) (.NotEpochPublisher env.sender)

def onlyOwner (s : ComplianceSource) (env : SourceEnv) : Except SourceError Unit :=
  (s.ownable.onlyOwner env.sender).mapError .ownable

/-- `_recordDenial`, with the overflow check of the addition. -/
def recordDenial (s : ComplianceSource) (subject : Address) :
    Except SourceError ComplianceSource := do
  revertIf (s.sourceDenialRevision subject == BitVec.allOnes 64) .arithmetic
  return { s with
    sourceDenialActive := Function.update s.sourceDenialActive subject true
    sourceDenialRevision :=
      Function.update s.sourceDenialRevision subject (s.sourceDenialRevision subject + 1) }

/-- `_currentIssuerKeyEpoch`: zero is the legacy path, a version-1 issuer must answer. -/
def currentIssuerKeyEpoch (ext : External) (issuer : Address) : Except SourceError (Uint 64) :=
  if !ext.hasCode issuer then .ok 0
  else
    match ext.issuerKeyVersion issuer with
    | none => .ok 0
    | some versionData =>
      if versionData.length < 32 ∨ abiWord versionData 0 ≠ 1 then .ok 0
      else do
        let epochData ← getOrRevert (ext.keyEpoch issuer) .InvalidIssuerKeyProvenance
        revertIf (decide (epochData.length < 32)) .InvalidIssuerKeyProvenance
        let epoch := abiWord epochData 0
        revertIf (epoch == 0 || !fitsUint 64 epoch) .InvalidIssuerKeyProvenance
        return epoch.setWidth 64

/-- `_checkEpoch`. -/
def checkEpoch (s : ComplianceSource) (env : SourceEnv) (epoch : Uint 32) (root : Bytes32)
    (validUntil sourceCutoff : Uint 40) (snapshotId : Bytes32) : Except SourceError Unit := do
  revertIf (decide (epoch ≤ s.lastEpoch)) (.EpochNotMonotonic epoch s.lastEpoch)
  revertIf (decide (env.timestamp ≥ 2 ^ 40)
    || !EpochBounds.valid root sourceCutoff (BitVec.ofNat 40 env.timestamp) validUntil snapshotId)
    .InvalidEpoch

/-- `_finishEpoch`. -/
def finishEpoch (s : ComplianceSource) (env : SourceEnv) (epoch : Uint 32) (root : Bytes32)
    (listVersion : Uint 32) (validUntil sourceCutoff : Uint 40) (snapshotId : Bytes32) :
    ComplianceSource × SourceEvent :=
  ({ s with lastEpoch := epoch },
    .RosterEpochPublished epoch root listVersion validUntil sourceCutoff
      (BitVec.ofNat 40 env.timestamp) snapshotId)

/-- The domain separator of the contract, name `ProofmarkRoster`, version `1`. -/
def domainSeparator (env : SourceEnv) : Bytes32 :=
  keccak256 (abiEncode
    [keccak256 (ascii
      "EIP712Domain(string name,string version,uint256 chainId,address verifyingContract)"),
      keccak256 (ascii "ProofmarkRoster"), keccak256 (ascii "1"), env.chainId,
      env.self.setWidth 256])

def ROSTER_APPROVAL_TYPEHASH : Bytes32 :=
  keccak256 (ascii ("RosterApproval(uint32 epoch,bytes32 root,uint32 listVersion," ++
    "uint40 validUntil,uint40 sourceCutoff,bytes32 snapshotId,address publisher)"))

def rosterApprovalDigest (env : SourceEnv) (epoch : Uint 32) (root : Bytes32)
    (listVersion : Uint 32) (validUntil sourceCutoff : Uint 40) (snapshotId : Bytes32)
    (publisher : Address) : Bytes32 :=
  let structHash := keccak256 (abiEncode
    [ROSTER_APPROVAL_TYPEHASH, epoch.setWidth 256, root, listVersion.setWidth 256,
      validUntil.setWidth 256, sourceCutoff.setWidth 256, snapshotId, publisher.setWidth 256])
  keccak256 (0x19 :: 0x01 :: (wordBytes (domainSeparator env) ++ wordBytes structHash))

/-- `_validRootSignature`: EOA recovery or ERC-1271. -/
def validRootSignature (ext : External) (issuer : Address) (digest : Bytes32) (signature : Bytes) :
    Bool :=
  if !ext.hasCode issuer then ext.tryRecover digest signature == some issuer
  else
    match ext.isValidSignature issuer digest signature with
    | none => false
    | some result => decide (result.length ≥ 32) && abiWord result 0 == ERC1271_MAGIC

/-! ### Roles -/

def setIssuer (s : ComplianceSource) (env : SourceEnv) (account : Address) (allowed : Bool) :
    Result := do
  s.onlyOwner env
  return ({ s with isIssuer := Function.update s.isIssuer account allowed },
    [.IssuerSet account allowed])

def setEpochPublisher (s : ComplianceSource) (env : SourceEnv) (account : Address)
    (allowed : Bool) : Result := do
  s.onlyOwner env
  return ({ s with isEpochPublisher := Function.update s.isEpochPublisher account allowed },
    [.EpochPublisherSet account allowed])

def setDenialCorrectionApprover (s : ComplianceSource) (env : SourceEnv) (account : Address)
    (allowed : Bool) : Result := do
  s.onlyOwner env
  revertIf (account == 0) .InvalidDenialCorrection
  return ({ s with
    isDenialCorrectionApprover := Function.update s.isDenialCorrectionApprover account allowed },
    [.DenialCorrectionApproverSet account allowed])

/-! ### Issuance -/

def issue (s : ComplianceSource) (env : SourceEnv) (subject : Address)
    (attrs claimsRoot evidenceHash : Bytes32) : Result := do
  s.onlyIssuer env
  revertIf (subject == 0) .ZeroSubject
  revertIf (!MarkAttrs.validAtIssuance attrs env.timestamp) .InvalidAttrs
  return (s, [.MarkIssued subject attrs env.sender claimsRoot evidenceHash])

def issueOnce (s : ComplianceSource) (env : SourceEnv) (requestId : Bytes32) (subject : Address)
    (attrs claimsRoot evidenceHash : Bytes32) : Result := do
  s.onlyIssuer env
  revertIf (subject == 0) .ZeroSubject
  revertIf (s.processedRequest requestId) (.RequestAlreadyProcessed requestId)
  revertIf (!MarkAttrs.validAtIssuance attrs env.timestamp) .InvalidAttrs
  return ({ s with processedRequest := Function.update s.processedRequest requestId true },
    [.MarkIssued subject attrs env.sender claimsRoot evidenceHash])

def issueOnceWithKey (s : ComplianceSource) (env : SourceEnv) (requestId : Bytes32)
    (subject : Address) (attrs claimsRoot evidenceHash : Bytes32) (issuerKeyEpoch : Uint 64) :
    Result := do
  s.onlyIssuer env
  revertIf (subject == 0) .ZeroSubject
  revertIf (s.processedRequest requestId) (.RequestAlreadyProcessed requestId)
  revertIf (!MarkAttrs.validAtIssuance attrs env.timestamp) .InvalidAttrs
  revertIf (issuerKeyEpoch == 0) .InvalidIssuerKeyProvenance
  let current ← currentIssuerKeyEpoch env.ext env.sender
  revertIf (current != issuerKeyEpoch) .InvalidIssuerKeyProvenance
  return ({ s with processedRequest := Function.update s.processedRequest requestId true },
    [.KeyedMarkIssued subject attrs env.sender issuerKeyEpoch claimsRoot evidenceHash])

def issueBatch (s : ComplianceSource) (env : SourceEnv) (items : List IssuanceItem) : Result := do
  s.onlyIssuer env
  let events ← items.foldlM (fun events item ↦ do
    revertIf (item.subject == 0) .ZeroSubject
    revertIf (!MarkAttrs.validAtIssuance item.attrs env.timestamp) .InvalidAttrs
    return events ++ [.MarkIssued item.subject item.attrs env.sender item.claimsRoot
      item.evidenceHash]) []
  return (s, events)

def declareIssuerKeyCompromise (s : ComplianceSource) (env : SourceEnv)
    (issuerKeyEpoch lastTrustedBlock : Uint 64) (reasonHash : Bytes32) : Result := do
  s.onlyIssuer env
  revertIf (issuerKeyEpoch == 0) .InvalidCompromiseCutoff
  let current ← currentIssuerKeyEpoch env.ext env.sender
  revertIf (current != issuerKeyEpoch || reasonHash == 0
    || decide (lastTrustedBlock ≥ env.number)) .InvalidCompromiseCutoff
  return (s, [.IssuerKeyCompromised env.sender issuerKeyEpoch lastTrustedBlock reasonHash])

/-! ### Revocation and denial -/

def revoke (s : ComplianceSource) (env : SourceEnv) (subject : Address) (reasonCode : Uint 16)
    (epoch : Uint 32) : Result := do
  s.onlyIssuer env
  revertIf (subject == 0) .ZeroSubject
  return (s, [.MarkRevoked subject reasonCode epoch])

def revokeBatch (s : ComplianceSource) (env : SourceEnv) (subjects : List Address)
    (reasonCodes : List (Uint 16)) (epoch : Uint 32) : Result := do
  s.onlyIssuer env
  revertIf (subjects.length != reasonCodes.length) .LengthMismatch
  let events ← (subjects.zip reasonCodes).foldlM (fun events item ↦ do
    revertIf (item.1 == 0) .ZeroSubject
    return events ++ [.MarkRevoked item.1 item.2 epoch]) []
  return (s, events)

def deny (s : ComplianceSource) (env : SourceEnv) (subject : Address)
    (listVersion epoch : Uint 32) : Result := do
  s.onlyIssuer env
  revertIf (subject == 0) .ZeroSubject
  let s ← s.recordDenial subject
  return (s, [.SanctionDenied subject listVersion epoch])

def denyBatch (s : ComplianceSource) (env : SourceEnv) (subjects : List Address)
    (listVersion epoch : Uint 32) : Result := do
  s.onlyIssuer env
  subjects.foldlM (fun (s, events) subject ↦ do
    revertIf (subject == 0) .ZeroSubject
    let s ← s.recordDenial subject
    return (s, events ++ [.SanctionDenied subject listVersion epoch])) (s, [])

/-! ### Denial correction -/

def proposeDenialCorrection (s : ComplianceSource) (env : SourceEnv) (subject : Address)
    (attrs claimsRoot evidenceHash reasonHash : Bytes32) : Result := do
  s.onlyIssuer env
  revertIf (subject == 0 || !s.sourceDenialActive subject || reasonHash == 0
    || !MarkAttrs.validAtIssuance attrs env.timestamp) .InvalidDenialCorrection
  let correctionId := s.nextDenialCorrectionId
  revertIf (correctionId == BitVec.allOnes 256) .arithmetic
  let executeAfter : Uint 40 := BitVec.ofNat 40 (env.timestamp + MIN_DENIAL_CORRECTION_DELAY)
  let revision := s.sourceDenialRevision subject
  return ({ s with
    nextDenialCorrectionId := correctionId + 1
    denialCorrections := Function.update s.denialCorrections correctionId
      { subject := subject
        proposer := env.sender
        approver := 0
        attrs := attrs
        claimsRoot := claimsRoot
        evidenceHash := evidenceHash
        reasonHash := reasonHash
        denialRevision := revision
        executeAfter := executeAfter
        executed := false } },
    [.DenialCorrectionProposed correctionId subject revision env.sender reasonHash executeAfter])

def approveDenialCorrection (s : ComplianceSource) (env : SourceEnv) (correctionId : Uint 256) :
    Result := do
  revertIf (!s.isDenialCorrectionApprover env.sender) (.NotDenialCorrectionApprover env.sender)
  let correction := s.denialCorrections correctionId
  revertIf (correction.subject == 0 || correction.executed || correction.approver != 0
    || correction.proposer == env.sender || !s.sourceDenialActive correction.subject
    || s.sourceDenialRevision correction.subject != correction.denialRevision)
    .InvalidDenialCorrection
  return ({ s with
    denialCorrections := Function.update s.denialCorrections correctionId
      { correction with approver := env.sender } },
    [.DenialCorrectionApproved correctionId env.sender correction.reasonHash])

def executeDenialCorrection (s : ComplianceSource) (env : SourceEnv) (correctionId : Uint 256) :
    Result := do
  let correction := s.denialCorrections correctionId
  revertIf (correction.subject == 0 || correction.executed
    || !s.sourceDenialActive correction.subject
    || s.sourceDenialRevision correction.subject != correction.denialRevision
    || !s.isIssuer correction.proposer
    || !MarkAttrs.validAtIssuance correction.attrs env.timestamp) .InvalidDenialCorrection
  revertIf (correction.approver == 0) (.DenialCorrectionNotApproved correctionId)
  revertIf (decide (env.timestamp < correction.executeAfter.toNat))
    (.DenialCorrectionDelayActive correctionId correction.executeAfter)
  return ({ s with
    denialCorrections := Function.update s.denialCorrections correctionId
      { correction with executed := true }
    sourceDenialActive := Function.update s.sourceDenialActive correction.subject false },
    [.SanctionDenialCorrected correction.subject correction.denialRevision correctionId
        correction.reasonHash correction.proposer correction.approver,
      .MarkIssued correction.subject correction.attrs correction.proposer correction.claimsRoot
        correction.evidenceHash])

/-! ### Epoch publication -/

def publishEpoch (s : ComplianceSource) (env : SourceEnv) (epoch : Uint 32) (root : Bytes32)
    (listVersion : Uint 32) (validUntil sourceCutoff : Uint 40) (snapshotId : Bytes32) :
    Result := do
  s.onlyEpochPublisher env
  s.onlyIssuer env
  s.checkEpoch env epoch root validUntil sourceCutoff snapshotId
  let (s, published) := s.finishEpoch env epoch root listVersion validUntil sourceCutoff snapshotId
  return (s, [.RosterIssuerAuthorized epoch root env.sender, published])

/-- One iteration of the loop of `publishEpochForIssuers`: the previous issuer and the events so
far. -/
def authorizeIssuer (s : ComplianceSource) (env : SourceEnv) (epoch : Uint 32) (root : Bytes32)
    (digest : Bytes32) (acc : Address × List SourceEvent) (approval : RootApproval) :
    Except SourceError (Address × List SourceEvent) := do
  let (previous, events) := acc
  revertIf (decide (approval.issuer ≤ previous) || !s.isIssuer approval.issuer
    || decide (approval.signature.length > 4096)
    || !validRootSignature env.ext approval.issuer digest approval.signature)
    .InvalidRootApprovals
  let issuerKeyEpoch ← currentIssuerKeyEpoch env.ext approval.issuer
  return (approval.issuer, events ++ .RosterIssuerAuthorized epoch root approval.issuer ::
    if issuerKeyEpoch ≠ 0 then
      [.RosterIssuerKeyAuthorized epoch root approval.issuer issuerKeyEpoch]
    else [])

def publishEpochForIssuers (s : ComplianceSource) (env : SourceEnv) (epoch : Uint 32)
    (root : Bytes32) (listVersion : Uint 32) (validUntil sourceCutoff : Uint 40)
    (snapshotId : Bytes32) (approvals : List RootApproval) : Result := do
  s.onlyEpochPublisher env
  s.checkEpoch env epoch root validUntil sourceCutoff snapshotId
  revertIf (decide (approvals.length = 0) || decide (approvals.length > MAX_ROSTER_ISSUERS))
    .InvalidRootApprovals
  let digest := rosterApprovalDigest env epoch root listVersion validUntil sourceCutoff snapshotId
    env.sender
  let (_, events) ← approvals.foldlM (s.authorizeIssuer env epoch root digest) (0, [])
  let (s, published) := s.finishEpoch env epoch root listVersion validUntil sourceCutoff snapshotId
  return (s, events ++ [published])

/-! ### Ownership -/

def transferOwnership (s : ComplianceSource) (env : SourceEnv) (newOwner : Address) : Result := do
  let o ← (s.ownable.transferOwnership env.sender newOwner).mapError .ownable
  return ({ s with ownable := o }, [.OwnershipTransferStarted s.ownable.owner newOwner])

def acceptOwnership (s : ComplianceSource) (env : SourceEnv) : Result := do
  let o ← (s.ownable.acceptOwnership env.sender).mapError .ownable
  return ({ s with ownable := o }, [.OwnershipTransferred s.ownable.owner env.sender])

def renounceOwnership (s : ComplianceSource) (env : SourceEnv) : Result := do
  let o ← (s.ownable.renounceOwnership env.sender).mapError .ownable
  return ({ s with ownable := o }, [.OwnershipTransferred s.ownable.owner 0])

/-! ### Calls -/

/-- A state-changing call to the source. -/
inductive Call
  | setIssuer (account : Address) (allowed : Bool)
  | setEpochPublisher (account : Address) (allowed : Bool)
  | setDenialCorrectionApprover (account : Address) (allowed : Bool)
  | issue (subject : Address) (attrs claimsRoot evidenceHash : Bytes32)
  | issueOnce (requestId : Bytes32) (subject : Address) (attrs claimsRoot evidenceHash : Bytes32)
  | issueOnceWithKey (requestId : Bytes32) (subject : Address)
      (attrs claimsRoot evidenceHash : Bytes32) (issuerKeyEpoch : Uint 64)
  | issueBatch (items : List IssuanceItem)
  | declareIssuerKeyCompromise (issuerKeyEpoch lastTrustedBlock : Uint 64) (reasonHash : Bytes32)
  | revoke (subject : Address) (reasonCode : Uint 16) (epoch : Uint 32)
  | revokeBatch (subjects : List Address) (reasonCodes : List (Uint 16)) (epoch : Uint 32)
  | deny (subject : Address) (listVersion epoch : Uint 32)
  | denyBatch (subjects : List Address) (listVersion epoch : Uint 32)
  | proposeDenialCorrection (subject : Address)
      (attrs claimsRoot evidenceHash reasonHash : Bytes32)
  | approveDenialCorrection (correctionId : Uint 256)
  | executeDenialCorrection (correctionId : Uint 256)
  | publishEpoch (epoch : Uint 32) (root : Bytes32) (listVersion : Uint 32)
      (validUntil sourceCutoff : Uint 40) (snapshotId : Bytes32)
  | publishEpochForIssuers (epoch : Uint 32) (root : Bytes32) (listVersion : Uint 32)
      (validUntil sourceCutoff : Uint 40) (snapshotId : Bytes32) (approvals : List RootApproval)
  | transferOwnership (newOwner : Address)
  | acceptOwnership
  | renounceOwnership

/-- Run one call. -/
def exec (s : ComplianceSource) (env : SourceEnv) : Call → Result
  | .setIssuer account allowed => s.setIssuer env account allowed
  | .setEpochPublisher account allowed => s.setEpochPublisher env account allowed
  | .setDenialCorrectionApprover account allowed =>
    s.setDenialCorrectionApprover env account allowed
  | .issue subject attrs claimsRoot evidenceHash =>
    s.issue env subject attrs claimsRoot evidenceHash
  | .issueOnce requestId subject attrs claimsRoot evidenceHash =>
    s.issueOnce env requestId subject attrs claimsRoot evidenceHash
  | .issueOnceWithKey requestId subject attrs claimsRoot evidenceHash issuerKeyEpoch =>
    s.issueOnceWithKey env requestId subject attrs claimsRoot evidenceHash issuerKeyEpoch
  | .issueBatch items => s.issueBatch env items
  | .declareIssuerKeyCompromise issuerKeyEpoch lastTrustedBlock reasonHash =>
    s.declareIssuerKeyCompromise env issuerKeyEpoch lastTrustedBlock reasonHash
  | .revoke subject reasonCode epoch => s.revoke env subject reasonCode epoch
  | .revokeBatch subjects reasonCodes epoch => s.revokeBatch env subjects reasonCodes epoch
  | .deny subject listVersion epoch => s.deny env subject listVersion epoch
  | .denyBatch subjects listVersion epoch => s.denyBatch env subjects listVersion epoch
  | .proposeDenialCorrection subject attrs claimsRoot evidenceHash reasonHash =>
    s.proposeDenialCorrection env subject attrs claimsRoot evidenceHash reasonHash
  | .approveDenialCorrection correctionId => s.approveDenialCorrection env correctionId
  | .executeDenialCorrection correctionId => s.executeDenialCorrection env correctionId
  | .publishEpoch epoch root listVersion validUntil sourceCutoff snapshotId =>
    s.publishEpoch env epoch root listVersion validUntil sourceCutoff snapshotId
  | .publishEpochForIssuers epoch root listVersion validUntil sourceCutoff snapshotId approvals =>
    s.publishEpochForIssuers env epoch root listVersion validUntil sourceCutoff snapshotId
      approvals
  | .transferOwnership newOwner => s.transferOwnership env newOwner
  | .acceptOwnership => s.acceptOwnership env
  | .renounceOwnership => s.renounceOwnership env

end ComplianceSource

end Proofmark
