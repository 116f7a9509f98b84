import Proofmark.Contracts.ProofmarkRegistry
import Proofmark.Pipeline.Addresses
import Proofmark.Vault.Observation

/-!
# Checking a revocation on both chains

`revocation-check.ts` and the constructor of `revocation-observation.ts`. The receipt of a
revocation is read on the source, the cursor and the tombstone of its subject and the verdicts of
some frozen policies on the hub, each side at one block; the comparison of the two names the state
of the revocation.

What the two nodes answer is a record of answers. Numbers are whole, since no other passes a check.
Of a receipt's logs the values are read, and of the hub's answers about addresses the addresses.
-/

open Evm

namespace Proofmark.RevocationCheck

open Pipeline (Text same)
open Vault

/-- `requireThat(ok, code)` -/
def requireThat (ok : Bool) (code : String) : Except String Unit :=
  revertIf (!ok) code

/-! ### Answers -/

structure Block where
  number : ℤ
  hash : Option Text
  timestamp : ℤ

structure SourceReceipt where
  hash : Text
  to_ : Option Text
  from_ : Text
  blockNumber : ℤ
  blockHash : Text
  /-- the position of the transaction -/
  index : ℤ
  status : Option ℤ
  logs : List LogEntry
  /-- an array -/
  length_logs : logs.length < 2 ^ 32

/-- What the source's node answers about one transaction. -/
structure SourceRpc where
  chainId : ℕ
  latest : Option Block
  /-- the code of the source's contract at a height -/
  code : ℤ → Bytes
  receipt : Option SourceReceipt
  block : ℤ → Option Block
  /-- a block read again at the end -/
  blockAgain : ℤ → Option Block

structure PolicyView where
  owner : Address
  frozen : Bool
  verified : Bool

/-- What the hub's node answers at its latest block. -/
structure HubRpc where
  chainId : ℕ
  latest : Option Block
  ascCode : Bytes
  registryCode : Bytes
  sourceContract : Address
  expectedChainKey : ℕ
  transactionProcessingVersion : ℕ
  boundAsc : Address
  policySchemaVersion : ℕ
  tombstone : Address → Bool
  lastAppliedHeight : Address → Uint 64
  lastAppliedTxIndex : Address → Uint 64
  lastAppliedLogIndex : Address → Uint 256
  policy : Address → ℤ → PolicyView
  blockAgain : ℤ → Option Block

inductive CheckResult
  | unsigned
  | sourcePending (transactionHash : Text)
  | sourceUnconfirmed (transactionHash : Text) (confirmations : ℤ)
  | sourceReverted (transactionHash : Text)
  | observed (state : ObservationState) (enforced : Bool) (source : SourceObservation)
    (hub : HubObservation) (observedAt : ℤ)
  deriving DecidableEq

/-! ### `checkRevocation` -/

def SOURCE_CHAIN_ID : ℕ := 11155111

def HUB_CHAIN_ID : ℕ := 102031

def hash (t : Text) : Bool :=
  Text.isHexString t 32

/-- The latest block, if it is a recent one. -/
def fresh (block : Option Block) (now : ℤ) : Except String ObservedBlock := do
  let b ← getOrRevert block "STALE_OR_INVALID_HEAD"
  let blockHash ← getOrRevert b.hash "STALE_OR_INVALID_HEAD"
  requireThat (hash blockHash && isInteger b.number && isInteger b.timestamp
    && decide (0 < b.timestamp) && decide (b.timestamp ≤ now + 30) && decide (now - b.timestamp ≤ 300)) "STALE_OR_INVALID_HEAD"
  return ⟨b.number, blockHash, b.timestamp⟩

/-- A code is the approved one. -/
def pinnedCode (code : Bytes) (expected : Text) : Bool :=
  same (Text.ofWord (keccak256 code)) expected

def assertRevocationTarget (job : RevocationJob) (chainId : ℤ) (source : Text) : Bool :=
  match job.sourceTarget with
  | some target => target.chainId == chainId && same target.source source
  | none => true

/-- `events.parseLog(log)`: the subject and the reason code. -/
def parseRevoked (L : LogEntry) : Option (Address × ℕ) :=
  if 4 ≤ L.topics.length ∧ ProofmarkASC.topicAt L 0 = ProofmarkASC.SIG_REVOKED
      ∧ (ProofmarkASC.topicAt L 1).toNat < 2 ^ 160 then
    some ((ProofmarkASC.topicAt L 1).setWidth 160, (ProofmarkASC.topicAt L 2).toNat % 2 ^ 16)
  else none

/-- The revocations of a wallet in a receipt, with their positions. -/
def matches_ (source wallet : Text) (logs : List LogEntry) : List (LogEntry × ℕ × ℕ) :=
  logs.zipIdx.filterMap fun (L, index) ↦
    if same (Text.ofAddress L.address_) source then
      (parseRevoked L).bind fun (subject, reasonCode) ↦
        if same (Text.ofAddress subject) wallet then some (L, index, reasonCode) else none
    else none

/-- The address of a wallet. -/
def walletOf (t : Text) : Address :=
  BitVec.ofNat 160 (Text.hexNat (t.drop 2))

section Check

variable (P : Platform) (source : SourceRpc) (hub : HubRpc) (job : RevocationJob)
  (config : RevocationCheckConfig) (now : ℤ)

def validConfig : Bool :=
  [config.sourceCodeHash, config.ascCodeHash, config.registryCodeHash].all hash
    && !config.policyIds.isEmpty && decide (config.policyIds.length ≤ 16)
    && (config.policyIds.all fun id ↦ isInteger id && decide (0 < id))
    && decide config.policyIds.Nodup

/-- The receipt, once it is read and belongs to the transaction. -/
def matchingReceipt (tx : RevocationTransaction) (receipt : SourceReceipt) (head : ObservedBlock) :
    Bool :=
  receipt.hash == tx.hash && receipt.to_.any (same · config.source)
    && same receipt.from_ config.expectedRevoker && isInteger receipt.blockNumber
    && decide (receipt.blockNumber ≤ head.blockNumber) && isInteger receipt.index
    && hash receipt.blockHash

/-- The block of a height still has its hash. -/
def hasHash (block : Option Block) (blockHash : Text) : Bool :=
  (block.bind Block.hash) == some blockHash

/-- The verdicts of the policies. -/
def observePolicies (subject : Address) : Except String (List ObservedPolicy) :=
  config.policyIds.mapM fun id ↦ do
    let view := hub.policy subject id
    requireThat (view.owner != 0 && view.frozen) "INVALID_POLICY_OBSERVATION"
    return ⟨id, view.verified⟩

/-- The state that the cursor of the hub shows for a revocation on the source. -/
def classify (s : SourceObservation) (subject : Address) (policies : List ObservedPolicy) :
    ObservationState × Bool :=
  let height : ℤ := (hub.lastAppliedHeight subject).toNat
  let index : ℤ := (hub.lastAppliedTxIndex subject).toNat
  let logIndex : ℤ := (hub.lastAppliedLogIndex subject).toNat
  let exact_ := height == s.blockNumber && index == s.transactionIndex
    && logIndex == s.receiptLogIndex
  let newer := decide (s.blockNumber < height) || (height == s.blockNumber
    && (decide (s.transactionIndex < index) || (index == s.transactionIndex
      && decide (s.receiptLogIndex < logIndex))))
  let enforced := exact_ && hub.tombstone subject && policies.all fun p ↦ !p.verified
  (if enforced then .enforced else if newer then .superseded else if exact_ then .inconsistent
    else .awaitingHub, enforced)

/-- The hub's side of a revocation that is confirmed on the source. -/
def observeHub (s : SourceObservation) (head hubHead : ObservedBlock) :
    Except String CheckResult := do
  let subject := walletOf job.walletAddress
  let policies ← observePolicies hub config subject
  requireThat (same (Text.ofAddress hub.sourceContract) config.source && hub.expectedChainKey == 1
    && hub.transactionProcessingVersion == 2 && same (Text.ofAddress hub.boundAsc) config.asc
    && hub.policySchemaVersion == 2) "HUB_BINDING_MISMATCH"
  let (state, enforced) := classify hub s subject policies
  requireThat (hasHash (source.blockAgain s.blockNumber) s.blockHash
    && hasHash (source.blockAgain head.blockNumber) head.blockHash
    && hasHash (hub.blockAgain hubHead.blockNumber) hubHead.blockHash) "OBSERVATION_REORG"
  return .observed state enforced s {
    block := hubHead
    tombstone := hub.tombstone subject
    cursor := ⟨Text.ofNat (hub.lastAppliedHeight subject).toNat,
      Text.ofNat (hub.lastAppliedTxIndex subject).toNat,
      Text.ofNat (hub.lastAppliedLogIndex subject).toNat⟩
    policies } now

/-- The source's side, with the receipt. -/
def observeReceipt (tx : RevocationTransaction) (receipt : SourceReceipt)
    (head hubHead : ObservedBlock) : Except String CheckResult := do
  requireThat (matchingReceipt config tx receipt head) "SOURCE_RECEIPT_MISMATCH"
  requireThat ((source.block receipt.blockNumber).any fun b ↦
    b.number == receipt.blockNumber && b.hash == some receipt.blockHash) "SOURCE_REORG"
  let depth := head.blockNumber - receipt.blockNumber + 1
  if depth < config.confirmations then
    return .sourceUnconfirmed tx.hash depth
  requireThat (receipt.status == some 0 || receipt.status == some 1) "SOURCE_RECEIPT_MISMATCH"
  if receipt.status = some 0 then
    return .sourceReverted tx.hash
  requireThat (pinnedCode (source.code receipt.blockNumber) config.sourceCodeHash)
    "RUNTIME_PIN_MISMATCH"
  match matches_ config.source job.walletAddress receipt.logs with
  | [(L, logIndex, reasonCode)] =>
    requireThat (reasonCode == 2 && L.topics.length == 4 && L.data == []) "SOURCE_EVENT_MISMATCH"
    observeHub source hub job config now {
      transactionHash := tx.hash
      blockNumber := receipt.blockNumber
      blockHash := receipt.blockHash
      transactionIndex := receipt.index
      receiptLogIndex := logIndex
      confirmations := depth
      head } head hubHead
  | _ => throw "SOURCE_EVENT_MISMATCH"

/-- Read-only reconciliation of a revocation. -/
def checkRevocation : Except String CheckResult := do
  requireThat (isInteger now && decide (0 < now) && isInteger config.confirmations
    && decide (0 < config.confirmations)) "INVALID_CHECK_CONFIG"
  requireThat ([config.source, config.asc, config.registry, config.expectedRevoker,
    job.walletAddress].all fun a ↦ P.isAddress a && !same a zeroAddress) "INVALID_CHECK_ADDRESS"
  requireThat (validConfig config) "INVALID_CHECK_CONFIG"
  match job.transaction with
  | none => return .unsigned
  | some tx =>
    requireThat (hash tx.hash && tx.chainId == SOURCE_CHAIN_ID && same tx.source config.source)
      "SOURCE_TARGET_MISMATCH"
    requireThat (assertRevocationTarget job SOURCE_CHAIN_ID config.source) "SOURCE_TARGET_MISMATCH"
    requireThat (source.chainId == SOURCE_CHAIN_ID && hub.chainId == HUB_CHAIN_ID) "WRONG_CHAIN"
    let head ← fresh source.latest now
    let hubHead ← fresh hub.latest now
    let sourceCode := source.code head.blockNumber
    requireThat (sourceCode != [] && hub.ascCode != [] && hub.registryCode != []
      && pinnedCode sourceCode config.sourceCodeHash && pinnedCode hub.ascCode config.ascCodeHash
      && pinnedCode hub.registryCode config.registryCodeHash) "RUNTIME_PIN_MISMATCH"
    match source.receipt with
    | none => return .sourcePending tx.hash
    | some receipt => observeReceipt source hub job config now tx receipt head hubHead

end Check

/-! ### `revocationObservation` -/

def revocationObservation (P : Platform) (result : CheckResult) (config : RevocationCheckConfig)
    (operator : Text) : Except String RevocationObservation :=
  match result with
  | .observed state _ source hub observedAt =>
    if observedAt = 0 then throw "INCOMPLETE_REVOCATION_OBSERVATION"
    else normalizeRevocationObservation P { version := 1, operator, observedAt, config, state, source, hub }
  | _ => throw "INCOMPLETE_REVOCATION_OBSERVATION"

end Proofmark.RevocationCheck
