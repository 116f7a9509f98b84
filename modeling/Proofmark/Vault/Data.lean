import Proofmark.Pipeline.Json
import Proofmark.Collection.Table
import Proofmark.Evm.Execution
import Mathlib.Data.List.Sort

/-!
# The evidence vault: what its file holds

`vault.ts`, the plaintext of one envelope: the KYC records, the erasure tombstones, the revocation
outbox and the retention controls. The fields of a record that no operation reads (its evidence,
claims, consent and screening subject) are one text, so that a comparison of records still compares
everything. Times are whole numbers of milliseconds.

`Platform` holds what is not written in the repository: the hashes, ICU's collation and
`ethers.isAddress`.
-/

open Evm

namespace Proofmark.Vault

open Pipeline (Text)

/-! ### Records -/

inductive VaultState
  | pending | active | review | blocked | rejected
  deriving DecidableEq

inductive Decision
  | allow | review | block
  deriving DecidableEq

inductive ReviewOutcome
  | cleared | blocked
  deriving DecidableEq

/-- This operation never changes a credential on chain. -/
inductive Disposition
  | unchanged | sourceRevoked | notIssued
  deriving DecidableEq

structure ReviewEvent where
  at_ : ℤ
  operator : Text
  outcome : ReviewOutcome
  reason : Text
  /-- Keyed revision of the case actually reviewed; absent on legacy events. -/
  basedOn : Option Text
  deriving DecidableEq

structure RescreenEvent where
  at_ : ℤ
  decision : Decision
  reason : Option Text
  listVersions : List (Text × ℕ)
  deriving DecidableEq

/-- Historical successful source-receipt observation, not current canonicality or hub
enforcement. -/
structure SourceIssuanceObservation where
  transactionHash : Text
  chainId : ℤ
  source : Text
  observedAt : ℤ
  /-- Historical propagation acknowledgement only; never an eligibility verdict. -/
  hubMaterialized : Bool
  deriving DecidableEq

structure ProcessingPolicy where
  customerId : Text
  rest : Text
  deriving DecidableEq

structure RetentionPolicy where
  policyId : Text
  customerId : Text
  vaultDeleteAt : ℤ
  credentialDisposition : Disposition
  approvalRef : Option Text
  rest : Text
  deriving DecidableEq

structure VaultRecord where
  /-- Opaque flow/request digest, never a name or document number. -/
  id : Text
  walletAddress : Text
  /-- `screeningSubject.fullName` -/
  fullName : Text
  processingPolicy : Option ProcessingPolicy
  retentionPolicy : Option RetentionPolicy
  evidenceHash : Text
  state : VaultState
  createdAt : ℤ
  retentionUntil : ℤ
  lastScreenedAt : Option ℤ
  rescreens : List RescreenEvent
  reviews : List ReviewEvent
  sourceIssuance : Option SourceIssuanceObservation
  rest : Text
  deriving DecidableEq

/-! ### Retention controls -/

structure Approval where
  operator : Text
  at_ : ℤ
  deriving DecidableEq

/-- What the operator of a deletion decides. -/
structure DeletionInput where
  operator : Text
  policyRef : Text
  serviceRef : Text
  disposition : Disposition
  automatic : Bool
  deriving DecidableEq

structure DeletionRequest where
  id : Text
  fingerprint : Text
  requestedAt : ℤ
  input : DeletionInput
  approval : Option Approval
  deriving DecidableEq

structure Extension where
  until_ : ℤ
  operator : Text
  reference : Text
  at_ : ℤ
  deriving DecidableEq

structure Release where
  operator : Text
  reference : Text
  at_ : ℤ
  deriving DecidableEq

structure Hold where
  id : Text
  operator : Text
  reference : Text
  at_ : ℤ
  release : Option Release
  deriving DecidableEq

structure RetentionControls where
  minimumUntil : Option ℤ
  extensions : List Extension
  holds : List Hold
  requests : List DeletionRequest
  deriving DecidableEq

def RetentionControls.empty : RetentionControls :=
  ⟨none, [], [], []⟩

/-- The controls of a record under its id. -/
structure RetentionEntry where
  recordId : Text
  controls : RetentionControls
  deriving DecidableEq

structure Erasure where
  recordId : Text
  at_ : ℤ
  reason : Text
  requestId : Text
  deriving DecidableEq

/-! ### The revocation outbox -/

inductive RevocationJobState
  | pending | prepared | confirmed
  deriving DecidableEq

structure SourceTarget where
  chainId : ℤ
  source : Text
  deriving DecidableEq

/-- Signed transaction, encrypted with the outbox and persisted BEFORE broadcast. -/
structure RevocationTransaction where
  hash : Text
  raw : Text
  chainId : ℤ
  source : Text
  deriving DecidableEq

structure RevocationCheckConfig where
  source : Text
  asc : Text
  registry : Text
  expectedRevoker : Text
  sourceCodeHash : Text
  ascCodeHash : Text
  registryCodeHash : Text
  policyIds : List ℤ
  confirmations : ℤ
  deriving DecidableEq

inductive ObservationState
  | enforced | superseded | inconsistent | awaitingHub
  deriving DecidableEq

structure ObservedBlock where
  blockNumber : ℤ
  blockHash : Text
  timestamp : ℤ
  deriving DecidableEq

structure SourceObservation where
  transactionHash : Text
  blockNumber : ℤ
  blockHash : Text
  transactionIndex : ℤ
  receiptLogIndex : ℤ
  confirmations : ℤ
  head : ObservedBlock
  deriving DecidableEq

structure HubCursor where
  height : Text
  transactionIndex : Text
  receiptLogIndex : Text
  deriving DecidableEq

structure ObservedPolicy where
  id : ℤ
  verified : Bool
  deriving DecidableEq

structure HubObservation where
  block : ObservedBlock
  tombstone : Bool
  cursor : HubCursor
  policies : List ObservedPolicy
  deriving DecidableEq

structure RevocationObservation where
  version : ℤ
  operator : Text
  /-- In seconds. -/
  observedAt : ℤ
  config : RevocationCheckConfig
  state : ObservationState
  source : SourceObservation
  hub : HubObservation
  deriving DecidableEq

structure RecordedObservation where
  recordedAt : ℤ
  observation : RevocationObservation
  deriving DecidableEq

structure RevocationJob where
  id : Text
  recordId : Text
  walletAddress : Text
  createdAt : ℤ
  state : RevocationJobState
  /-- Present for new jobs with a retained successful issuance observation. -/
  sourceTarget : Option SourceTarget
  transaction : Option RevocationTransaction
  confirmedAt : Option ℤ
  lastError : Option Text
  /-- Append-only historical observations. None is a current eligibility or finality guarantee. -/
  observations : List RecordedObservation
  deriving DecidableEq

/-! ### The plaintext -/

structure Rotation where
  at_ : ℤ
  operator : Text
  previousKeyId : Text
  nextKeyId : Text
  deriving DecidableEq

structure Data where
  /-- Monotonic local mutation number. -/
  revision : ℕ
  records : Table VaultRecord.id
  erasures : List Erasure
  revocations : Table RevocationJob.id
  retention : Table RetentionEntry.recordId
  maintenance : List Rotation
  deriving DecidableEq

def Data.empty : Data :=
  ⟨0, .empty, [], .empty, .empty, []⟩

/-- What `deletionFingerprint` serialises. -/
structure Snapshot where
  record : VaultRecord
  minimumUntil : Option ℤ
  extensions : List Extension
  holds : List Hold
  jobs : List RevocationJob
  deriving DecidableEq

/-- What `reviewRevision` serialises. -/
structure ReviewCase where
  record : VaultRecord
  jobs : List RevocationJob
  controls : Option RetentionControls
  deriving DecidableEq

/-- The functions of `node:crypto`, of ICU and of `ethers` that the vault calls. -/
structure Platform where
  /-- SHA-256 of a secret with the vault's suffix. -/
  deriveVaultKey : Text → Text
  keyIdentifier : Text → Text
  /-- SHA-256 of the JSON of a snapshot. -/
  deletionDigest : Snapshot → Text
  /-- Keyed HMAC of the JSON of a case. -/
  reviewDigest : Text → ReviewCase → Text
  /-- `a.localeCompare(b)` is not positive. -/
  collates : Text → Text → Bool
  /-- `ethers.isAddress` -/
  isAddress : Text → Bool

/-! ### Checks on arguments -/

/-- `timestamp(value)` -/
def timestamp (value : ℤ) : Except String Unit :=
  revertIf (!(0 ≤ value && value ≤ 9007199254740991)) "invalid retention timestamp"

def isAlphanumeric (c : Char) : Bool :=
  ('A' ≤ c && c ≤ 'Z') || ('a' ≤ c && c ≤ 'z') || ('0' ≤ c && c ≤ '9')

/-- `/^[A-Za-z0-9][A-Za-z0-9_.:-]{0,127}$/` -/
def isReference : Text → Bool
  | [] => false
  | c :: rest =>
    isAlphanumeric c && rest.length ≤ 127 &&
      rest.all fun c ↦ isAlphanumeric c || c ∈ ['_', '.', ':', '-']

/-- `reference(value)` -/
def reference (value : Text) : Except String Unit :=
  revertIf (!isReference value)
    "use an opaque operator/policy/case reference, not free-text personal data"

/-- A lower-case hex string of 32 bytes, without a prefix. -/
def isDigest (value : Text) : Bool :=
  value.length == 64 && value.all fun c ↦ ('0' ≤ c && c ≤ '9') || ('a' ≤ c && c ≤ 'f')

@[simp]
theorem timestamp_bind_eq_ok {β : Type} {value : ℤ} {f : Unit → Except String β} {b : β} :
    (timestamp value >>= f) = .ok b ↔ (0 ≤ value ∧ value ≤ 9007199254740991) ∧ f () = .ok b := by
  simp [timestamp]

@[simp]
theorem reference_bind_eq_ok {β : Type} {value : Text} {f : Unit → Except String β} {b : β} :
    (reference value >>= f) = .ok b ↔ isReference value = true ∧ f () = .ok b := by
  simp [reference]

/-! ### Reading the file -/

namespace Data

variable (d : Data) (P : Platform)

/-- `mustGet` -/
def mustGet (id : Text) : Except String VaultRecord :=
  getOrRevert (d.records.get id) ("unknown vault record " ++ String.ofList id)

/-- `controls`, which creates empty controls where there are none. -/
def controls (id : Text) : RetentionControls :=
  ((d.retention.get id).map RetentionEntry.controls).getD .empty

def setControls (id : Text) (controls : RetentionControls) : Data :=
  { d with retention := d.retention.set ⟨id, controls⟩ }

def setRecord (record : VaultRecord) : Data :=
  { d with records := d.records.set record }

def setJob (job : RevocationJob) : Data :=
  { d with revocations := d.revocations.set job }

/-- `mustGetJob` -/
def mustGetJob (id : Text) : Except String RevocationJob :=
  getOrRevert (d.revocations.get id) "unknown revocation job"

/-- The jobs of a record, as they are listed. -/
def jobsOf (id : Text) : List RevocationJob :=
  d.revocations.rows.filter fun job ↦ job.recordId = id

/-- The jobs of a record in the order of their ids. -/
def sortedJobs (id : Text) : List RevocationJob :=
  (d.jobsOf id).insertionSort fun a b ↦ P.collates a.id b.id = true

/-- `retentionDeadline` -/
def retentionDeadline (record : VaultRecord) : ℤ :=
  max record.retentionUntil ((d.controls record.id).minimumUntil.getD 0)

/-- What the fingerprint of a record is taken of. -/
def snapshot (record : VaultRecord) : Snapshot where
  record := record
  minimumUntil := (d.controls record.id).minimumUntil
  extensions := (d.controls record.id).extensions
  holds := (d.controls record.id).holds
  jobs := d.sortedJobs P record.id

/-- `deletionFingerprint` -/
def deletionFingerprint (record : VaultRecord) : Text :=
  P.deletionDigest (d.snapshot P record)

/-- `reviewRevision` -/
def reviewRevision (key : Text) (record : VaultRecord) : Text :=
  P.reviewDigest key
    ⟨record, d.sortedJobs P record.id, (d.retention.get record.id).map RetentionEntry.controls⟩

def isSafe (value : ℤ) : Bool :=
  -9007199254740991 ≤ value && value ≤ 9007199254740991

/-- The codes of a list that apply. -/
def codes (l : List (Bool × String)) : List String :=
  (l.filter Prod.fst).map Prod.snd

/-- `safetyBlockers` -/
def safetyBlockers (record : VaultRecord) (now : ℤ) : List String :=
  let deadline := d.retentionDeadline record
  let invalid := !isSafe record.retentionUntil || !isSafe deadline || !isSafe record.createdAt ||
    record.createdAt < 0 || record.retentionUntil < record.createdAt || deadline < record.createdAt
  let jobs := d.jobsOf record.id
  codes [(invalid, "INVALID_RETENTION"),
    (!invalid && now < deadline, "RETENTION_NOT_EXPIRED"),
    (now < record.createdAt, "RECORD_TIME_INVALID"),
    ((d.controls record.id).holds.any fun hold ↦ hold.release.isNone, "LEGAL_HOLD"),
    (record.state = .pending, "ISSUANCE_PENDING"),
    (record.state = .review, "REVIEW_PENDING"),
    (jobs.any fun job ↦ job.state ≠ .confirmed, "REVOCATION_PENDING"),
    (record.state = .blocked && !jobs.any fun job ↦ job.state = .confirmed,
      "REVOCATION_NOT_RECONCILED")]

/-- The last deletion request of a record. -/
def lastRequest (id : Text) : Option DeletionRequest :=
  (d.controls id).requests.getLast?

/-- `deletionBlockers` -/
def deletionBlockers (record : VaultRecord) (now : ℤ) : List String :=
  let request := d.lastRequest record.id
  let approval := request.bind DeletionRequest.approval
  d.safetyBlockers record now ++ codes [(approval.isNone, "DELETION_NOT_APPROVED"),
    (request.any fun request ↦ request.fingerprint ≠ d.deletionFingerprint P record,
      "DELETION_REQUEST_STALE"),
    (request.any fun request ↦ approval.any fun approval ↦
      now < approval.at_ || approval.at_ < request.requestedAt, "APPROVAL_TIME_INVALID")]

end Data

end Proofmark.Vault
