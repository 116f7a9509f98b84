import Proofmark.Contracts.Events
import Proofmark.Contracts.Ownable2Step
import Proofmark.Contracts.Types

/-!
# The chain of record

`ASCBaseX.sol` and `ProofmarkASC.sol`: proof verification and replay protection, then one pass over
the logs of a proved receipt.

The mappings keyed by a subject are gathered into one `SubjectRecord` per address, under the names
the contract gives them; a handler first decodes its log and then changes the record of one
subject. The helpers `_advance`, `_advanceDenialDecision` and `_storeMark` are functions on a
record, `_advance` and `_advanceDenialDecision` returning `none` where the contract returns
`false`. A log index is a natural number: it is the position in a receipt held in memory.

Outside the repository, and so parameters: the proof precompile (`INativeQueryVerifier`, part of
the environment of a call) and the receipt decoder (`EvmV1Decoder`). The events the hub itself
emits are not read by anything modelled and are left out.
-/

open Evm

namespace Proofmark

/-! ### External interfaces -/

structure MerkleProofEntry where
  hash : Bytes32
  isLeft : Bool

structure MerkleProof where
  root : Bytes32
  siblings : List MerkleProofEntry

structure ContinuityProof where
  lowerEndpointDigest : Bytes32
  roots : List Bytes32

/-- The BlockProver precompile. `none` is a call that reverts. -/
structure INativeQueryVerifier where
  verifyAndEmit : Uint 64 → Uint 64 → Bytes → MerkleProof → ContinuityProof → Option Bool
  calculateTxIndex : MerkleProof → Option (Uint 64)

/-- The fields of a decoded receipt the hub reads. -/
structure ReceiptFields where
  receiptStatus : Uint 8
  receiptLogs : List LogEntry

/-- The linked decoder library. `none` is a call that reverts. -/
structure EvmV1Decoder where
  getTransactionType : Bytes → Option (Uint 8)
  isValidTransactionType : Uint 8 → Bool
  decodeReceiptFields : Bytes → Option ReceiptFields

/-- The environment of one hub call. -/
structure HubEnv where
  sender : Address
  timestamp : ℕ
  verifier : INativeQueryVerifier

/-! ### State -/

/-- Why a call to the hub reverts. -/
inductive AscError
  | SourceNotConfigured
  | UnexpectedChainKey (got want : Uint 64)
  | UntrustedEmitter (got want : Address)
  | SourceTxFailed
  | NoMatchingEvent
  | BadTopics
  | SourceAlreadyConfigured
  | InvalidEpoch
  | InvalidEpochAuthorization
  | InvalidIssuerKeyProvenance
  | InvalidDenialCorrection
  | InvalidAction (action : Uint 8)
  | require (reason : String)
  | abiDecode
  | externalCall
  | ownable (e : OwnableError)
  deriving DecidableEq

/-- Everything the hub stores per subject. -/
structure SubjectRecord where
  mark : Mark
  tombstone : Bool
  permanentDenial : Bool
  lastAppliedHeight : Uint 64
  lastAppliedTxIndex : Uint 64
  lastAppliedLogIndex : ℕ
  markIssuerKeyEpoch : Uint 64
  lastDenialDecisionHeight : Uint 64
  lastDenialDecisionTxIndex : Uint 64
  lastDenialDecisionLogIndex : ℕ
  latestOrdinaryStatus : MarkStatus
  latestOrdinaryIsIssuance : Bool
  lastCorrectedDenialRevision : Uint 64
  lastDenialCorrectionId : Uint 256
  lastDenialCorrectionReasonHash : Bytes32
  lastDenialCorrectionProposer : Address
  lastDenialCorrectionApprover : Address

/-- The values of mapping slots never written. -/
def SubjectRecord.zero : SubjectRecord :=
  ⟨Mark.zero, false, false, 0, 0, 0, 0, 0, 0, 0, .None, false, 0, 0, 0, 0, 0⟩

structure ProofmarkASC where
  ownable : Ownable2Step
  processedQueries : Bytes32 → Bool
  expectedChainKey : Uint 64
  sourceContract : Address
  subjects : Address → SubjectRecord
  epochRoots : Uint 32 → Bytes32
  epochIssuerApproved : Uint 32 → Address → Bool
  epochIssuerKeyEpoch : Uint 32 → Address → Uint 64
  epochIssuerApprovalHeight : Uint 32 → Address → Uint 64
  issuerKeyCompromised : Address → Uint 64 → Bool
  issuerKeyLastTrustedBlock : Address → Uint 64 → Uint 64
  latestEpoch : Uint 32
  epochValidUntil : Uint 40
  epochSourceCutoff : Uint 40
  epochPublishedAt : Uint 40
  epochListVersion : Uint 32
  epochSnapshotId : Bytes32

/-! ### The record of one subject -/

namespace SubjectRecord

/-- `_isNewer`. -/
def isNewer (r : SubjectRecord) (blockHeight txIndex : Uint 64) (logIndex : ℕ) : Bool :=
  decide (blockHeight > r.lastAppliedHeight)
    || (blockHeight == r.lastAppliedHeight
      && (decide (txIndex > r.lastAppliedTxIndex)
        || (txIndex == r.lastAppliedTxIndex && decide (logIndex > r.lastAppliedLogIndex))))

/-- `_advance`. -/
def advance (r : SubjectRecord) (blockHeight txIndex : Uint 64) (logIndex : ℕ) :
    Option SubjectRecord :=
  if r.isNewer blockHeight txIndex logIndex then
    some { r with
      lastAppliedHeight := blockHeight
      lastAppliedTxIndex := txIndex
      lastAppliedLogIndex := logIndex }
  else none

/-- `_advanceDenialDecision`. -/
def advanceDenialDecision (r : SubjectRecord) (blockHeight txIndex : Uint 64) (logIndex : ℕ) :
    Option SubjectRecord :=
  let newer := decide (blockHeight > r.lastDenialDecisionHeight)
    || (blockHeight == r.lastDenialDecisionHeight
      && (decide (txIndex > r.lastDenialDecisionTxIndex)
        || (txIndex == r.lastDenialDecisionTxIndex
          && decide (logIndex > r.lastDenialDecisionLogIndex))))
  if newer then
    some { r with
      lastDenialDecisionHeight := blockHeight
      lastDenialDecisionTxIndex := txIndex
      lastDenialDecisionLogIndex := logIndex }
  else none

/-- `_storeMark`. -/
def storeMark (r : SubjectRecord) (attrs : Bytes32) (issuer : Address)
    (claimsRoot evidenceHash : Bytes32) : SubjectRecord :=
  { r with
    mark :=
      { status := .Active
        origin := .Direct
        kind := MarkAttrs.kind attrs
        assurance := MarkAttrs.assurance attrs
        regime := MarkAttrs.regime attrs
        jurisdiction := MarkAttrs.jurisdiction attrs
        methods := MarkAttrs.methods attrs
        issuedAt := MarkAttrs.issuedAt attrs
        expiry := MarkAttrs.expiry attrs
        epoch := MarkAttrs.epoch attrs
        claimsRoot := claimsRoot
        evidenceHash := evidenceHash
        issuer := issuer } }

/-- The body `_onIssued` and `_onKeyedIssued` share once their log is decoded; an un-keyed issuance
is of key epoch zero. -/
def issued (r : SubjectRecord) (blockHeight txIndex : Uint 64) (logIndex : ℕ)
    (issuerKeyEpoch : Uint 64) (attrs : Bytes32) (issuer : Address)
    (claimsRoot evidenceHash : Bytes32) : SubjectRecord :=
  match r.advance blockHeight txIndex logIndex with
  | none => r
  | some r =>
    if r.permanentDenial then
      let r :=
        if MarkAttrs.validSchema attrs then
          let r := r.storeMark attrs issuer claimsRoot evidenceHash
          { r with
            mark := { r.mark with status := .Denied }
            markIssuerKeyEpoch := issuerKeyEpoch
            latestOrdinaryStatus := .Active
            latestOrdinaryIsIssuance := true }
        else
          { r with latestOrdinaryStatus := .Suspended, latestOrdinaryIsIssuance := false }
      { r with tombstone := true }
    else if !MarkAttrs.validSchema attrs then
      { r with
        tombstone := true
        mark := { r.mark with status := .Suspended }
        latestOrdinaryStatus := .Suspended
        latestOrdinaryIsIssuance := false }
    else
      let r := { r with tombstone := false }
      let r := r.storeMark attrs issuer claimsRoot evidenceHash
      { r with
        markIssuerKeyEpoch := issuerKeyEpoch
        latestOrdinaryStatus := .Active
        latestOrdinaryIsIssuance := true }

/-- The end of `_onTombstone`: once denied, a later ordinary revocation must not downgrade the
permanent denial. -/
def entomb (r : SubjectRecord) (newStatus : MarkStatus) : SubjectRecord :=
  { r with
    tombstone := true
    mark := { r.mark with status := if r.permanentDenial then .Denied else newStatus } }

/-- The body of `_onTombstone` once its log is decoded. -/
def tombstoned (r : SubjectRecord) (blockHeight txIndex : Uint 64) (logIndex : ℕ)
    (newStatus : MarkStatus) : SubjectRecord :=
  if newStatus = .Denied then
    match r.advanceDenialDecision blockHeight txIndex logIndex with
    | none => r
    | some r =>
      let r := { r with permanentDenial := true }
      entomb ((r.advance blockHeight txIndex logIndex).getD r) newStatus
  else
    match r.advance blockHeight txIndex logIndex with
    | none => r
    | some r =>
      entomb { r with latestOrdinaryStatus := .Revoked, latestOrdinaryIsIssuance := false }
        newStatus

/-- The body of `_onDenialCorrected` once its log is decoded and its fields are checked. -/
def corrected (r : SubjectRecord) (blockHeight txIndex : Uint 64) (logIndex : ℕ)
    (denialRevision : Uint 64) (correctionId : Uint 256) (reasonHash : Bytes32)
    (proposer approver : Address) : SubjectRecord :=
  match r.advanceDenialDecision blockHeight txIndex logIndex with
  | none => r
  | some r =>
    let r := { r with
      permanentDenial := false
      lastCorrectedDenialRevision := denialRevision
      lastDenialCorrectionId := correctionId
      lastDenialCorrectionReasonHash := reasonHash
      lastDenialCorrectionProposer := proposer
      lastDenialCorrectionApprover := approver }
    match r.advance blockHeight txIndex logIndex with
    | none =>
      -- a source-later ordinary event was delivered first: uncover what it left
      if r.latestOrdinaryStatus = .Active then
        { r with tombstone := false, mark := { r.mark with status := .Active } }
      else
        { r with
          tombstone := true
          mark := { r.mark with
            status := if r.latestOrdinaryStatus = .Revoked then .Revoked else .Suspended } }
    | some r =>
      { r with tombstone := true, mark := { r.mark with status := .Suspended } }

end SubjectRecord

/-! ### Handlers -/

namespace ProofmarkASC

/-- `topics[i]`, read after the number of topics is checked. -/
def topicAt (L : LogEntry) (i : ℕ) : Bytes32 :=
  L.topics.getD i 0

def SIG_ISSUED : Bytes32 := EventName.topic .MarkIssued
def SIG_KEYED_ISSUED : Bytes32 := EventName.topic .KeyedMarkIssued
def SIG_REVOKED : Bytes32 := EventName.topic .MarkRevoked
def SIG_DENIED : Bytes32 := EventName.topic .SanctionDenied
def SIG_EPOCH : Bytes32 := EventName.topic .RosterEpochPublished
def SIG_KEY_COMPROMISED : Bytes32 := EventName.topic .IssuerKeyCompromised
def SIG_EPOCH_AUTH : Bytes32 := EventName.topic .RosterIssuerAuthorized
def SIG_KEYED_EPOCH_AUTH : Bytes32 := EventName.topic .RosterIssuerKeyAuthorized
def SIG_DENIAL_CORRECTED : Bytes32 := EventName.topic .SanctionDenialCorrected

/-- Write the record of one subject. -/
def modifySubject (s : ProofmarkASC) (subject : Address)
    (f : SubjectRecord → SubjectRecord) : ProofmarkASC :=
  { s with subjects := Function.update s.subjects subject (f (s.subjects subject)) }

/-- `_requireTrusted`. -/
def requireTrusted (s : ProofmarkASC) (L : LogEntry) (expectedTopics : ℕ) :
    Except AscError Unit := do
  revertIf (L.address_ != s.sourceContract) (.UntrustedEmitter L.address_ s.sourceContract)
  revertIf (L.topics.length != expectedTopics) .BadTopics

/-- `_onIssued`. -/
def onIssued (s : ProofmarkASC) (blockHeight txIndex : Uint 64) (logIndex : ℕ)
    (logs : List LogEntry) : Except AscError ProofmarkASC :=
  logs.foldlM (fun s L ↦ do
    requireTrusted s L 4
    let subject : Address := (topicAt L 1).setWidth 160
    let attrs := topicAt L 2
    let issuer : Address := (topicAt L 3).setWidth 160
    revertIf (decide (L.data.length < 64)) .abiDecode
    return s.modifySubject subject fun r ↦
      r.issued blockHeight txIndex logIndex 0 attrs issuer (abiWord L.data 0) (abiWord L.data 1)) s

/-- `_onKeyedIssued`. -/
def onKeyedIssued (s : ProofmarkASC) (blockHeight txIndex : Uint 64) (logIndex : ℕ)
    (L : LogEntry) : Except AscError ProofmarkASC := do
  requireTrusted s L 4
  revertIf (L.data.length != 96) .InvalidIssuerKeyProvenance
  let subject : Address := (topicAt L 1).setWidth 160
  let attrs := topicAt L 2
  let issuer : Address := (topicAt L 3).setWidth 160
  revertIf (!fitsUint 64 (abiWord L.data 0)) .abiDecode
  let issuerKeyEpoch : Uint 64 := (abiWord L.data 0).setWidth 64
  revertIf (issuerKeyEpoch == 0) .InvalidIssuerKeyProvenance
  return s.modifySubject subject fun r ↦
    r.issued blockHeight txIndex logIndex issuerKeyEpoch attrs issuer (abiWord L.data 1)
      (abiWord L.data 2)

/-- `_onTombstone`. -/
def onTombstone (s : ProofmarkASC) (blockHeight txIndex : Uint 64) (logIndex : ℕ)
    (logs : List LogEntry) (newStatus : MarkStatus) : Except AscError ProofmarkASC :=
  logs.foldlM (fun s L ↦ do
    requireTrusted s L 4
    let subject : Address := (topicAt L 1).setWidth 160
    return s.modifySubject subject fun r ↦ r.tombstoned blockHeight txIndex logIndex newStatus) s

/-- `_onDenialCorrected`. -/
def onDenialCorrected (s : ProofmarkASC) (blockHeight txIndex : Uint 64) (logIndex : ℕ)
    (L : LogEntry) : Except AscError ProofmarkASC := do
  requireTrusted s L 4
  revertIf (L.data.length != 96 || !fitsUint 160 (topicAt L 1) || topicAt L 2 == 0
    || !fitsUint 64 (topicAt L 2) || topicAt L 3 == 0) .InvalidDenialCorrection
  let subject : Address := (topicAt L 1).setWidth 160
  let denialRevision : Uint 64 := (topicAt L 2).setWidth 64
  let correctionId := topicAt L 3
  let reasonHash := abiWord L.data 0
  revertIf (!fitsUint 160 (abiWord L.data 1) || !fitsUint 160 (abiWord L.data 2)) .abiDecode
  let proposer : Address := (abiWord L.data 1).setWidth 160
  let approver : Address := (abiWord L.data 2).setWidth 160
  revertIf (subject == 0 || reasonHash == 0 || proposer == 0 || approver == 0
    || proposer == approver) .InvalidDenialCorrection
  return s.modifySubject subject fun r ↦
    r.corrected blockHeight txIndex logIndex denialRevision correctionId reasonHash proposer approver

/-- The inner scan of `_onEpoch`: the key epoch authorised for one issuer, zero when no log names
it. A second log for the same issuer, or one out of range, reverts. -/
def keyedAuthorization (sourceContract : Address) (epoch : Uint 32) (root : Bytes32)
    (issuer : Address) (issuerKeyEpoch : Uint 64) (keyed : LogEntry) :
    Except AscError (Uint 64) :=
  if keyed.address_ ≠ sourceContract ∨ keyed.topics.length = 0
      ∨ topicAt keyed 0 ≠ SIG_KEYED_EPOCH_AUTH then
    .ok issuerKeyEpoch
  else do
    revertIf (keyed.topics.length != 4 || keyed.data.length != 32) .InvalidEpochAuthorization
    if topicAt keyed 1 ≠ epoch.setWidth 256 ∨ topicAt keyed 2 ≠ root then
      .ok issuerKeyEpoch
    else if (topicAt keyed 3).setWidth 160 ≠ issuer then
      .ok issuerKeyEpoch
    else do
      let decodedEpoch := abiWord keyed.data 0
      revertIf (issuerKeyEpoch != 0 || decodedEpoch == 0 || !fitsUint 64 decodedEpoch)
        .InvalidEpochAuthorization
      return decodedEpoch.setWidth 64

/-- One step of the authorisation scan of `_onEpoch`: the state and the number of approvals. -/
def authorization (blockHeight : Uint 64) (epoch : Uint 32) (root : Bytes32)
    (receiptLogs : List LogEntry) (acc : ProofmarkASC × ℕ) (a : LogEntry) :
    Except AscError (ProofmarkASC × ℕ) :=
  let (s, approved) := acc
  if a.address_ ≠ s.sourceContract ∨ a.topics.length = 0 ∨ topicAt a 0 ≠ SIG_EPOCH_AUTH then
    .ok (s, approved)
  else do
    revertIf (a.topics.length != 4 || a.data.length != 0 || !fitsUint 32 (topicAt a 1)
      || !fitsUint 160 (topicAt a 3)) .InvalidEpochAuthorization
    if topicAt a 1 ≠ epoch.setWidth 256 ∨ topicAt a 2 ≠ root then
      .ok (s, approved)
    else do
      let issuer : Address := (topicAt a 3).setWidth 160
      revertIf (issuer == 0 || s.epochIssuerApproved epoch issuer || decide (approved + 1 > 16))
        .InvalidEpochAuthorization
      let s := { s with
        epochIssuerApproved := set2 s.epochIssuerApproved epoch issuer true
        epochIssuerApprovalHeight := set2 s.epochIssuerApprovalHeight epoch issuer blockHeight }
      let issuerKeyEpoch ←
        receiptLogs.foldlM (keyedAuthorization s.sourceContract epoch root issuer) 0
      return ({ s with
        epochIssuerKeyEpoch := set2 s.epochIssuerKeyEpoch epoch issuer issuerKeyEpoch },
        approved + 1)

/-- `_onEpoch`. -/
def onEpoch (s : ProofmarkASC) (now : ℕ) (blockHeight : Uint 64) (L : LogEntry)
    (receiptLogs : List LogEntry) : Except AscError ProofmarkASC := do
  requireTrusted s L 4
  revertIf (!fitsUint 32 (topicAt L 1) || !fitsUint 32 (topicAt L 3) || L.data.length != 128)
    .InvalidEpoch
  let epoch : Uint 32 := (topicAt L 1).setWidth 32
  let root := topicAt L 2
  revertIf (!fitsUint 40 (abiWord L.data 0) || !fitsUint 40 (abiWord L.data 1)
    || !fitsUint 40 (abiWord L.data 2)) .abiDecode
  let validUntil : Uint 40 := (abiWord L.data 0).setWidth 40
  let cutoff : Uint 40 := (abiWord L.data 1).setWidth 40
  let publishedAt : Uint 40 := (abiWord L.data 2).setWidth 40
  let snapshotId := abiWord L.data 3
  revertIf (!EpochBounds.valid root cutoff publishedAt validUntil snapshotId
    || decide (publishedAt.toNat > now)) .InvalidEpoch
  if epoch ≤ s.latestEpoch then
    return s
  else do
    let (s, approved) ← receiptLogs.foldlM (authorization blockHeight epoch root receiptLogs) (s, 0)
    revertIf (approved == 0) .InvalidEpochAuthorization
    return { s with
      epochRoots := Function.update s.epochRoots epoch root
      latestEpoch := epoch
      epochValidUntil := validUntil
      epochSourceCutoff := cutoff
      epochPublishedAt := publishedAt
      epochListVersion := (topicAt L 3).setWidth 32
      epochSnapshotId := snapshotId }

/-- `_onKeyCompromised`. -/
def onKeyCompromised (s : ProofmarkASC) (declarationHeight : Uint 64) (L : LogEntry) :
    Except AscError ProofmarkASC := do
  requireTrusted s L 3
  revertIf (L.data.length != 64 || !fitsUint 160 (topicAt L 1) || !fitsUint 64 (topicAt L 2))
    .InvalidIssuerKeyProvenance
  let issuer : Address := (topicAt L 1).setWidth 160
  let issuerKeyEpoch : Uint 64 := (topicAt L 2).setWidth 64
  revertIf (!fitsUint 64 (abiWord L.data 0)) .abiDecode
  let lastTrustedBlock : Uint 64 := (abiWord L.data 0).setWidth 64
  let reasonHash := abiWord L.data 1
  revertIf (issuer == 0 || issuerKeyEpoch == 0 || reasonHash == 0
    || decide (lastTrustedBlock ≥ declarationHeight)) .InvalidIssuerKeyProvenance
  let previous := s.issuerKeyLastTrustedBlock issuer issuerKeyEpoch
  if !s.issuerKeyCompromised issuer issuerKeyEpoch || decide (lastTrustedBlock < previous) then
    return { s with
      issuerKeyCompromised := set2 s.issuerKeyCompromised issuer issuerKeyEpoch true
      issuerKeyLastTrustedBlock :=
        set2 s.issuerKeyLastTrustedBlock issuer issuerKeyEpoch lastTrustedBlock }
  else
    return s

/-! ### Receipts -/

/-- The topic an action asks for. -/
def requestedTopic (action : Uint 8) : Bytes32 :=
  if action = 0 then SIG_ISSUED
  else if action = 1 then SIG_REVOKED
  else if action = 2 then SIG_DENIED
  else if action = 3 then SIG_EPOCH
  else if action = 4 then SIG_KEY_COMPROMISED
  else SIG_DENIAL_CORRECTED

/-- The handler of a log, by its topic 0. -/
def dispatch (s : ProofmarkASC) (now : ℕ) (blockHeight txIndex : Uint 64)
    (receiptLogs : List LogEntry) (i : ℕ) (L : LogEntry) : Except AscError ProofmarkASC :=
  let sig := topicAt L 0
  if sig = SIG_ISSUED then s.onIssued blockHeight txIndex i [L]
  else if sig = SIG_KEYED_ISSUED then s.onKeyedIssued blockHeight txIndex i L
  else if sig = SIG_REVOKED then s.onTombstone blockHeight txIndex i [L] .Revoked
  else if sig = SIG_DENIED then s.onTombstone blockHeight txIndex i [L] .Denied
  else if sig = SIG_EPOCH then s.onEpoch now blockHeight L receiptLogs
  else if sig = SIG_KEY_COMPROMISED then s.onKeyCompromised blockHeight L
  else if sig = SIG_DENIAL_CORRECTED then s.onDenialCorrected blockHeight txIndex i L
  else .ok s

/-- One iteration of the loop over a receipt. Foreign contracts may emit identical signatures;
their logs neither change state nor suppress trusted ones. -/
def processLog (now : ℕ) (action : Uint 8) (blockHeight txIndex : Uint 64)
    (receiptLogs : List LogEntry) (acc : ProofmarkASC × Bool) (entry : LogEntry × ℕ) :
    Except AscError (ProofmarkASC × Bool) :=
  let (s, matched) := acc
  let (L, i) := entry
  if L.address_ ≠ s.sourceContract ∨ L.topics.length = 0 then
    .ok (s, matched)
  else do
    let sig := topicAt L 0
    let matched := matched || sig == requestedTopic action
      || (action == Action.MarkIssued.code && sig == SIG_KEYED_ISSUED)
    let s ← s.dispatch now blockHeight txIndex receiptLogs i L
    return (s, matched)

/-- `_processAndEmitEvent`. -/
def processAndEmitEvent (decoder : EvmV1Decoder) (s : ProofmarkASC) (now : ℕ) (action : Uint 8)
    (chainKey blockHeight txIndex : Uint 64) (encodedTx : Bytes) :
    Except AscError ProofmarkASC := do
  revertIf (s.sourceContract == 0) .SourceNotConfigured
  revertIf (chainKey != s.expectedChainKey) (.UnexpectedChainKey chainKey s.expectedChainKey)
  revertIf (decide (action > Action.SanctionDenialCorrection.code)) (.InvalidAction action)
  let t ← getOrRevert (decoder.getTransactionType encodedTx) .externalCall
  revertIf (!decoder.isValidTransactionType t) (.require "bad tx type")
  let r ← getOrRevert (decoder.decodeReceiptFields encodedTx) .externalCall
  revertIf (r.receiptStatus != 1) .SourceTxFailed
  let (s, matched) ← r.receiptLogs.zipIdx.foldlM
    (processLog now action blockHeight txIndex r.receiptLogs) (s, false)
  revertIf (!matched) .NoMatchingEvent
  return s

/-! ### Entry points -/

/-- The arguments of `execute`. -/
structure ExecuteArgs where
  action : Uint 8
  chainKey : Uint 64
  blockHeight : Uint 64
  encodedTransaction : Bytes
  merkleRoot : Bytes32
  siblings : List MerkleProofEntry
  lowerEndpointDigest : Bytes32
  continuityRoots : List Bytes32

/-- `_queryCoordinates`: the chain key as a word, eight bytes of height, the index as a word. -/
def computeQueryId (chainKey blockHeight txIndex : Uint 64) : Bytes32 :=
  keccak256 (wordBytes (chainKey.setWidth 256) ++ toBytes 8 blockHeight.toNat
    ++ wordBytes (txIndex.setWidth 256))

/-- `execute`. -/
def execute (decoder : EvmV1Decoder) (s : ProofmarkASC) (env : HubEnv) (args : ExecuteArgs) :
    Except AscError ProofmarkASC := do
  let merkleProof : MerkleProof := ⟨args.merkleRoot, args.siblings⟩
  let txIndex ← getOrRevert (env.verifier.calculateTxIndex merkleProof) .externalCall
  let queryId := computeQueryId args.chainKey args.blockHeight txIndex
  revertIf (s.processedQueries queryId) (.require "Query already processed")
  let verified ← getOrRevert (env.verifier.verifyAndEmit args.chainKey args.blockHeight
    args.encodedTransaction merkleProof ⟨args.lowerEndpointDigest, args.continuityRoots⟩)
    .externalCall
  revertIf (!verified) (.require "Proof of inclusion verification failed")
  let s := { s with processedQueries := Function.update s.processedQueries queryId true }
  s.processAndEmitEvent decoder env.timestamp args.action args.chainKey args.blockHeight txIndex
    args.encodedTransaction

/-- `configureSource`. -/
def configureSource (s : ProofmarkASC) (env : HubEnv) (chainKey : Uint 64)
    (sourceContract : Address) : Except AscError ProofmarkASC := do
  (s.ownable.onlyOwner env.sender).mapError .ownable
  revertIf (s.sourceContract != 0) .SourceAlreadyConfigured
  revertIf (sourceContract == 0) (.require "zero source")
  revertIf (chainKey == 0) (.require "zero chainKey")
  return { s with expectedChainKey := chainKey, sourceContract := sourceContract }

/-- The state the constructor leaves. -/
def deployed (ownable : Ownable2Step) : ProofmarkASC where
  ownable := ownable
  processedQueries _ := false
  expectedChainKey := 0
  sourceContract := 0
  subjects _ := SubjectRecord.zero
  epochRoots _ := 0
  epochIssuerApproved _ _ := false
  epochIssuerKeyEpoch _ _ := 0
  epochIssuerApprovalHeight _ _ := 0
  issuerKeyCompromised _ _ := false
  issuerKeyLastTrustedBlock _ _ := 0
  latestEpoch := 0
  epochValidUntil := 0
  epochSourceCutoff := 0
  epochPublishedAt := 0
  epochListVersion := 0
  epochSnapshotId := 0

/-- A state-changing call to the hub. -/
inductive Call
  | execute (env : HubEnv) (args : ExecuteArgs)
  | configureSource (env : HubEnv) (chainKey : Uint 64) (sourceContract : Address)
  | transferOwnership (env : HubEnv) (newOwner : Address)
  | acceptOwnership (env : HubEnv)
  | renounceOwnership (env : HubEnv)

/-- Run one call. -/
def exec (decoder : EvmV1Decoder) (s : ProofmarkASC) : Call → Except AscError ProofmarkASC
  | .execute env args => s.execute decoder env args
  | .configureSource env chainKey sourceContract => s.configureSource env chainKey sourceContract
  | .transferOwnership env newOwner => do
    let o ← (s.ownable.transferOwnership env.sender newOwner).mapError .ownable
    return { s with ownable := o }
  | .acceptOwnership env => do
    let o ← (s.ownable.acceptOwnership env.sender).mapError .ownable
    return { s with ownable := o }
  | .renounceOwnership env => do
    let o ← (s.ownable.renounceOwnership env.sender).mapError .ownable
    return { s with ownable := o }

/-! ### Views -/

def getMark (s : ProofmarkASC) (subject : Address) : Mark :=
  (s.subjects subject).mark

def tombstone (s : ProofmarkASC) (subject : Address) : Bool :=
  (s.subjects subject).tombstone

def isMarkIssuerUsable (s : ProofmarkASC) (subject : Address) : Bool :=
  let issuerKeyEpoch := (s.subjects subject).markIssuerKeyEpoch
  let issuer := (s.subjects subject).mark.issuer
  issuerKeyEpoch == 0 || !s.issuerKeyCompromised issuer issuerKeyEpoch
    || decide ((s.subjects subject).lastAppliedHeight
      ≤ s.issuerKeyLastTrustedBlock issuer issuerKeyEpoch)

def isEpochIssuerUsable (s : ProofmarkASC) (epoch : Uint 32) (issuer : Address) : Bool :=
  if !s.epochIssuerApproved epoch issuer then false
  else
    let issuerKeyEpoch := s.epochIssuerKeyEpoch epoch issuer
    issuerKeyEpoch == 0 || !s.issuerKeyCompromised issuer issuerKeyEpoch
      || decide (s.epochIssuerApprovalHeight epoch issuer
        ≤ s.issuerKeyLastTrustedBlock issuer issuerKeyEpoch)

def isRosterFresh (s : ProofmarkASC) (now : ℕ) : Bool :=
  EpochBounds.valid (s.epochRoots s.latestEpoch) s.epochSourceCutoff s.epochPublishedAt
      s.epochValidUntil s.epochSnapshotId
    && decide (s.epochPublishedAt.toNat ≤ now) && decide (now < s.epochValidUntil.toNat)

end ProofmarkASC

end Proofmark
