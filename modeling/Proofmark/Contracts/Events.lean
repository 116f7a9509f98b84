import Proofmark.Evm.Keccak

/-!
# Logs and the events of the source contract

A log as the receipt decoder hands it over, and the events `ComplianceSource` emits with their ABI
encoding: topic 0 is the hash of the event's signature, then the indexed fields, then the rest as
data. The events the hub ignores (roles, ownership, proposals) are here too, because they occupy
log positions of the same receipts.

Topics are stored as words. `EventName.topic_eq_keccak256` evaluates the hash of every signature
once, and `EventName.topic_injective` is what a dispatch on topic 0 rests on.
-/

open Evm

namespace Proofmark

/-- `EvmV1Decoder.LogEntry`. -/
structure LogEntry where
  address_ : Address
  topics : List Bytes32
  data : Bytes
  deriving DecidableEq

/-- The names of the events `ComplianceSource` can emit, inherited ones included. -/
inductive EventName
  | MarkIssued
  | KeyedMarkIssued
  | MarkRevoked
  | SanctionDenied
  | SanctionDenialCorrected
  | RosterEpochPublished
  | RosterIssuerAuthorized
  | RosterIssuerKeyAuthorized
  | IssuerKeyCompromised
  | IssuerSet
  | EpochPublisherSet
  | DenialCorrectionApproverSet
  | DenialCorrectionProposed
  | DenialCorrectionApproved
  | OwnershipTransferStarted
  | OwnershipTransferred
  deriving DecidableEq, Repr

namespace EventName

/-- The canonical signature, the text whose hash is topic 0. -/
def signature : EventName → String
  | MarkIssued => "MarkIssued(address,bytes32,address,bytes32,bytes32)"
  | KeyedMarkIssued => "KeyedMarkIssued(address,bytes32,address,uint64,bytes32,bytes32)"
  | MarkRevoked => "MarkRevoked(address,uint16,uint32)"
  | SanctionDenied => "SanctionDenied(address,uint32,uint32)"
  | SanctionDenialCorrected =>
    "SanctionDenialCorrected(address,uint64,uint256,bytes32,address,address)"
  | RosterEpochPublished =>
    "RosterEpochPublished(uint32,bytes32,uint32,uint40,uint40,uint40,bytes32)"
  | RosterIssuerAuthorized => "RosterIssuerAuthorized(uint32,bytes32,address)"
  | RosterIssuerKeyAuthorized => "RosterIssuerKeyAuthorized(uint32,bytes32,address,uint64)"
  | IssuerKeyCompromised => "IssuerKeyCompromised(address,uint64,uint64,bytes32)"
  | IssuerSet => "IssuerSet(address,bool)"
  | EpochPublisherSet => "EpochPublisherSet(address,bool)"
  | DenialCorrectionApproverSet => "DenialCorrectionApproverSet(address,bool)"
  | DenialCorrectionProposed =>
    "DenialCorrectionProposed(uint256,address,uint64,address,bytes32,uint40)"
  | DenialCorrectionApproved => "DenialCorrectionApproved(uint256,address,bytes32)"
  | OwnershipTransferStarted => "OwnershipTransferStarted(address,address)"
  | OwnershipTransferred => "OwnershipTransferred(address,address)"

/-- Topic 0. -/
def topic : EventName → Bytes32
  | MarkIssued => 0xffac883eea6676651044a7e28ee0527defa8e3fce7558142c598e6569ef5a5f3
  | KeyedMarkIssued => 0x747935815bb65993b5e4a08b2e47fcf8b262645f493087445230097804ff0ea5
  | MarkRevoked => 0xdde75c52928e1a0e5b14011716a8309ab432e435d50ced197b667cc906d3fd09
  | SanctionDenied => 0x4e68a53405a08cc0e2bb7cd374ad540457f069bcf32e0830ea2e851815d6f5ae
  | SanctionDenialCorrected => 0x0e043d15ca02c0ed717b85066118ef48ec76cb07915b7b6a1018ce9cdd8add07
  | RosterEpochPublished => 0x9c17b3d0d930980ffef5e671b9390a26d8f8b5f801f0ce3636909c95c69eb908
  | RosterIssuerAuthorized => 0x375e6bbadefcb5efa3e7f8db2fb23a8e22674d0aace847b5dbbc112aceb45b09
  | RosterIssuerKeyAuthorized =>
    0xab17ee786edbcda9592634661253b9a559daf05468a79f7c53b623ca558df175
  | IssuerKeyCompromised => 0xdb7087c4d03e364d4326b8e4caeff6544c63267ae8e879427679a8a5aae2cb97
  | IssuerSet => 0xc6aeabbc4fc4eb208b2b4cec7249245167cb6191c47e2e6f82a3cd59a89ce7e1
  | EpochPublisherSet => 0x9957b98db266ac067efe38825e649c08ef9f58a06d28fe499df00f176759b710
  | DenialCorrectionApproverSet =>
    0x6a576ed6b035cebea9c86ab75edee2b6cb638a9fcd2122c1af668ad5f7c4f8d3
  | DenialCorrectionProposed => 0xcd08d34620a0ad278c599815c77f8e62fd3e46eb18fa77b5ff408cfbf1e4936c
  | DenialCorrectionApproved => 0x7b25d39370936d02c6932107896e183476de8889a9a65ce2f98601ea41e89ae2
  | OwnershipTransferStarted => 0x38d16b8cac22d99fc7c124b9cd0de2d3fa1faef420bfe791d8c362d765e22700
  | OwnershipTransferred => 0x8be0079c531659141344cd1fd0a4f28419497f9722a3daafe3b4186f6b6457e0

/-- **Every stored topic is the hash of its event's signature.** -/
theorem topic_eq_keccak256 (name : EventName) : name.topic = keccak256 (ascii name.signature) := by
  cases name <;> decide +kernel

/-- Different events have different topics. -/
theorem topic_injective : Function.Injective topic := by
  intro a b h
  revert h
  cases a <;> cases b <;> decide

@[simp]
theorem topic_inj {a b : EventName} : a.topic = b.topic ↔ a = b :=
  topic_injective.eq_iff

end EventName

/-- An event of `ComplianceSource` with its field values. -/
inductive SourceEvent
  | MarkIssued (subject : Address) (attrs : Bytes32) (issuer : Address)
      (claimsRoot evidenceHash : Bytes32)
  | KeyedMarkIssued (subject : Address) (attrs : Bytes32) (issuer : Address)
      (issuerKeyEpoch : Uint 64) (claimsRoot evidenceHash : Bytes32)
  | MarkRevoked (subject : Address) (reasonCode : Uint 16) (epoch : Uint 32)
  | SanctionDenied (subject : Address) (listVersion epoch : Uint 32)
  | SanctionDenialCorrected (subject : Address) (denialRevision : Uint 64)
      (correctionId : Uint 256) (reasonHash : Bytes32) (proposer approver : Address)
  | RosterEpochPublished (epoch : Uint 32) (root : Bytes32) (listVersion : Uint 32)
      (validUntil sourceCutoff publishedAt : Uint 40) (snapshotId : Bytes32)
  | RosterIssuerAuthorized (epoch : Uint 32) (root : Bytes32) (issuer : Address)
  | RosterIssuerKeyAuthorized (epoch : Uint 32) (root : Bytes32) (issuer : Address)
      (issuerKeyEpoch : Uint 64)
  | IssuerKeyCompromised (issuer : Address) (issuerKeyEpoch lastTrustedBlock : Uint 64)
      (reasonHash : Bytes32)
  | IssuerSet (account : Address) (allowed : Bool)
  | EpochPublisherSet (account : Address) (allowed : Bool)
  | DenialCorrectionApproverSet (account : Address) (allowed : Bool)
  | DenialCorrectionProposed (correctionId : Uint 256) (subject : Address)
      (denialRevision : Uint 64) (proposer : Address) (reasonHash : Bytes32)
      (executeAfter : Uint 40)
  | DenialCorrectionApproved (correctionId : Uint 256) (approver : Address)
      (reasonHash : Bytes32)
  | OwnershipTransferStarted (previousOwner newOwner : Address)
  | OwnershipTransferred (previousOwner newOwner : Address)
  deriving DecidableEq

namespace SourceEvent

def name : SourceEvent → EventName
  | MarkIssued .. => .MarkIssued
  | KeyedMarkIssued .. => .KeyedMarkIssued
  | MarkRevoked .. => .MarkRevoked
  | SanctionDenied .. => .SanctionDenied
  | SanctionDenialCorrected .. => .SanctionDenialCorrected
  | RosterEpochPublished .. => .RosterEpochPublished
  | RosterIssuerAuthorized .. => .RosterIssuerAuthorized
  | RosterIssuerKeyAuthorized .. => .RosterIssuerKeyAuthorized
  | IssuerKeyCompromised .. => .IssuerKeyCompromised
  | IssuerSet .. => .IssuerSet
  | EpochPublisherSet .. => .EpochPublisherSet
  | DenialCorrectionApproverSet .. => .DenialCorrectionApproverSet
  | DenialCorrectionProposed .. => .DenialCorrectionProposed
  | DenialCorrectionApproved .. => .DenialCorrectionApproved
  | OwnershipTransferStarted .. => .OwnershipTransferStarted
  | OwnershipTransferred .. => .OwnershipTransferred

/-- The indexed fields, widened to words. -/
def indexed : SourceEvent → List Bytes32
  | MarkIssued subject attrs issuer _ _ => [subject.setWidth 256, attrs, issuer.setWidth 256]
  | KeyedMarkIssued subject attrs issuer _ _ _ =>
    [subject.setWidth 256, attrs, issuer.setWidth 256]
  | MarkRevoked subject reasonCode epoch =>
    [subject.setWidth 256, reasonCode.setWidth 256, epoch.setWidth 256]
  | SanctionDenied subject listVersion epoch =>
    [subject.setWidth 256, listVersion.setWidth 256, epoch.setWidth 256]
  | SanctionDenialCorrected subject denialRevision correctionId _ _ _ =>
    [subject.setWidth 256, denialRevision.setWidth 256, correctionId]
  | RosterEpochPublished epoch root listVersion _ _ _ _ =>
    [epoch.setWidth 256, root, listVersion.setWidth 256]
  | RosterIssuerAuthorized epoch root issuer => [epoch.setWidth 256, root, issuer.setWidth 256]
  | RosterIssuerKeyAuthorized epoch root issuer _ =>
    [epoch.setWidth 256, root, issuer.setWidth 256]
  | IssuerKeyCompromised issuer issuerKeyEpoch _ _ =>
    [issuer.setWidth 256, issuerKeyEpoch.setWidth 256]
  | IssuerSet account _ => [account.setWidth 256]
  | EpochPublisherSet account _ => [account.setWidth 256]
  | DenialCorrectionApproverSet account _ => [account.setWidth 256]
  | DenialCorrectionProposed correctionId subject denialRevision _ _ _ =>
    [correctionId, subject.setWidth 256, denialRevision.setWidth 256]
  | DenialCorrectionApproved correctionId approver reasonHash =>
    [correctionId, approver.setWidth 256, reasonHash]
  | OwnershipTransferStarted previousOwner newOwner =>
    [previousOwner.setWidth 256, newOwner.setWidth 256]
  | OwnershipTransferred previousOwner newOwner =>
    [previousOwner.setWidth 256, newOwner.setWidth 256]

/-- The fields that are not indexed, widened to words. -/
def unindexed : SourceEvent → List Bytes32
  | MarkIssued _ _ _ claimsRoot evidenceHash => [claimsRoot, evidenceHash]
  | KeyedMarkIssued _ _ _ issuerKeyEpoch claimsRoot evidenceHash =>
    [issuerKeyEpoch.setWidth 256, claimsRoot, evidenceHash]
  | SanctionDenialCorrected _ _ _ reasonHash proposer approver =>
    [reasonHash, proposer.setWidth 256, approver.setWidth 256]
  | RosterEpochPublished _ _ _ validUntil sourceCutoff publishedAt snapshotId =>
    [validUntil.setWidth 256, sourceCutoff.setWidth 256, publishedAt.setWidth 256, snapshotId]
  | RosterIssuerKeyAuthorized _ _ _ issuerKeyEpoch => [issuerKeyEpoch.setWidth 256]
  | IssuerKeyCompromised _ _ lastTrustedBlock reasonHash =>
    [lastTrustedBlock.setWidth 256, reasonHash]
  | IssuerSet _ allowed => [(BitVec.ofBool allowed).setWidth 256]
  | EpochPublisherSet _ allowed => [(BitVec.ofBool allowed).setWidth 256]
  | DenialCorrectionApproverSet _ allowed => [(BitVec.ofBool allowed).setWidth 256]
  | DenialCorrectionProposed _ _ _ proposer reasonHash executeAfter =>
    [proposer.setWidth 256, reasonHash, executeAfter.setWidth 256]
  | MarkRevoked .. | SanctionDenied .. | RosterIssuerAuthorized ..
  | DenialCorrectionApproved .. | OwnershipTransferStarted .. | OwnershipTransferred .. => []

/-- The log of an event emitted by the contract at `emitter`. -/
def toLog (emitter : Address) (e : SourceEvent) : LogEntry :=
  ⟨emitter, e.name.topic :: e.indexed, abiEncode e.unindexed⟩

@[simp]
theorem toLog_address (emitter : Address) (e : SourceEvent) : (e.toLog emitter).address_ = emitter :=
  rfl

end SourceEvent

end Proofmark
