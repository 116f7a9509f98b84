import Proofmark.Vault.Observation

/-!
# The operations of the evidence vault

`EvidenceVault` of `vault.ts`, one function for each operation that writes: from the plaintext read
under the writer's lock to the plaintext to be written, or an error that leaves the file alone.
Failed checks stand in the order of the source, with its messages.
-/

open Evm

namespace Proofmark.Vault

open Pipeline (Text)

namespace Data

variable (d : Data) (P : Platform)

/-! ### Records and decisions -/

def put (record : VaultRecord) : Except String (VaultRecord × Data) := do
  revertIf (record.id.isEmpty || record.walletAddress.isEmpty || record.fullName.isEmpty)
    "incomplete vault record"
  revertIf (d.erasures.any fun event ↦ event.recordId = record.id)
    "erased vault record cannot be restored by put"
  timestamp record.createdAt
  timestamp record.retentionUntil
  revertIf (record.retentionUntil < record.createdAt) "retention precedes creation"
  revertIf (record.retentionPolicy.any fun policy ↦
    policy.vaultDeleteAt ≠ record.retentionUntil ||
      record.processingPolicy.any fun processing ↦ policy.customerId ≠ processing.customerId)
    "vault record does not match its retention policy snapshot"
  match d.records.get record.id with
  | some existing => do
    revertIf (existing.evidenceHash ≠ record.evidenceHash)
      ("vault record " ++ String.ofList record.id ++ " conflicts with existing evidence")
    return (existing, d)
  | none => return (record, d.setRecord record)

/-- A later compliance decision must never be erased by an asynchronous issuance callback. -/
def materialized (record : VaultRecord) : VaultRecord :=
  { record with
    sourceIssuance := record.sourceIssuance.map fun o ↦ { o with hubMaterialized := true }
    state := if record.state = .pending then .active else record.state }

def recordMaterialization (id evidenceHash : Text) : Except String Data := do
  let record ← d.mustGet id
  revertIf (record.evidenceHash ≠ evidenceHash)
    "materialization evidence does not match retained record"
  return d.setRecord (materialized record)

def recordSourceConfirmation (id evidenceHash : Text) (observation : SourceIssuanceObservation) :
    Except String Data := do
  let record ← d.mustGet id
  revertIf (record.evidenceHash ≠ evidenceHash)
    "source confirmation evidence does not match retained record"
  timestamp observation.observedAt
  revertIf (!isSafe observation.chainId || observation.chainId ≤ 0 ||
    !Text.isHexString observation.transactionHash 32 || !Text.isHexString observation.source 20 ||
    observation.observedAt < record.createdAt) "invalid source confirmation observation"
  let next : SourceIssuanceObservation :=
    { observation with
      transactionHash := Text.lower observation.transactionHash
      source := Text.lower observation.source
      hubMaterialized := false }
  match record.sourceIssuance with
  | some previous => do
    revertIf (previous.transactionHash ≠ next.transactionHash || previous.chainId ≠ next.chainId ||
      previous.source ≠ next.source) "source confirmation conflicts with retained issuance"
    -- Preserve the first observation and screening/decision history on replay.
    return d
  | none => return d.setRecord { record with sourceIssuance := some next }

/-- `${record.id}:revoke:${at}` -/
def revocationId (recordId : Text) (at_ : ℤ) : Text :=
  recordId ++ [':', 'r', 'e', 'v', 'o', 'k', 'e', ':'] ++
    match at_ with
    | .ofNat n => Text.ofNat n
    | .negSucc n => '-' :: Text.ofNat (n + 1)

/-- The job that `queueRevocation` creates. -/
def newRevocation (record : VaultRecord) (at_ : ℤ) : RevocationJob where
  id := revocationId record.id at_
  recordId := record.id
  walletAddress := record.walletAddress
  createdAt := at_
  state := .pending
  sourceTarget := record.sourceIssuance.map fun o ↦ ⟨o.chainId, o.source⟩
  transaction := none
  confirmedAt := none
  lastError := none
  observations := []

/-- A job of the record that is not confirmed. -/
def hasOpenJob (id : Text) : Bool :=
  d.revocations.rows.any fun job ↦ job.recordId = id && job.state ≠ .confirmed

def queueRevocation (record : VaultRecord) (at_ : ℤ) : Except String Data :=
  if d.hasOpenJob record.id then return d
  else do
    revertIf (d.revocations.get (revocationId record.id at_)).isSome
      "revocation event ID already used"
    return d.setJob (newRevocation record at_)

/-- The time of the last decision on a record. -/
def latestDecisionAt (record : VaultRecord) : ℤ :=
  record.reviews.foldl (fun latest review ↦ max latest review.at_)
    (max record.createdAt (record.lastScreenedAt.getD 0))

/-- The state after an ALLOW rescreen or a cleared review. -/
def allowedState (record : VaultRecord) : VaultState :=
  if record.state = .pending || record.sourceIssuance.any fun o ↦ !o.hubMaterialized then .pending
  else .active

/-- The record after a rescreen. -/
def rescreened (record : VaultRecord) (event : RescreenEvent) : VaultRecord :=
  { record with
    lastScreenedAt := some event.at_
    rescreens := record.rescreens ++ [event]
    state := match event.decision with
      | .block => .blocked
      | .review => .review
      | .allow => allowedState record }

def recordRescreen (id : Text) (event : RescreenEvent) (expected : VaultRecord) :
    Except String (VaultRecord × Data) := do
  let record ← getOrRevert (d.records.get id) "RESCREEN_RECORD_CHANGED"
  revertIf (expected.id ≠ id || record ≠ expected) "RESCREEN_RECORD_CHANGED"
  revertIf (record.state = .blocked || record.state = .rejected)
    "terminal compliance state requires explicit review; rescreen cannot clear it"
  timestamp event.at_
  revertIf (event.at_ < latestDecisionAt record) "rescreen timestamp precedes retained decision"
  let next := rescreened record event
  if event.decision = .block then do
    let d' ← (d.setRecord next).queueRevocation next event.at_
    return (next, d')
  else return (next, d.setRecord next)

/-- The record after a review, with the revision that was reviewed. -/
def reviewed (record : VaultRecord) (event : ReviewEvent) (revision : Text) : VaultRecord :=
  { record with
    reviews := record.reviews ++ [{ event with basedOn := some revision }]
    state := match event.outcome with
      | .cleared => allowedState record
      | .blocked => .blocked }

def decideReview (key id : Text) (event : ReviewEvent) (expectedRevision : Text) :
    Except String (VaultRecord × Data) := do
  let record ← getOrRevert (d.records.get id) "REVIEW_RECORD_CHANGED"
  revertIf (!isDigest expectedRevision || d.reviewRevision P key record ≠ expectedRevision)
    "REVIEW_RECORD_CHANGED"
  timestamp event.at_
  reference event.operator
  reference event.reason
  revertIf (event.at_ < latestDecisionAt record) "review timestamp precedes retained decision"
  revertIf (event.outcome = .cleared && d.hasOpenJob id)
    "pending revocation must be reconciled before clearance; clearance does not reissue on chain"
  let next := reviewed record event expectedRevision
  if event.outcome = .blocked then do
    let d' ← (d.setRecord next).queueRevocation next event.at_
    return (next, d')
  else return (next, d.setRecord next)

/-! ### Retention, holds and deletion -/

def extendRetention (id : Text) (until_ : ℤ) (operator ref : Text) (at_ : ℤ) :
    Except String Data := do
  timestamp at_
  timestamp until_
  reference operator
  reference ref
  let record ← d.mustGet id
  let controls := d.controls id
  revertIf (until_ ≤ max record.retentionUntil (controls.minimumUntil.getD 0))
    "retention can only be extended"
  return d.setControls id { controls with
    minimumUntil := some until_
    extensions := controls.extensions ++ [⟨until_, operator, ref, at_⟩] }

def placeHold (id holdId operator ref : Text) (at_ : ℤ) : Except String Data := do
  let _ ← d.mustGet id
  timestamp at_
  reference holdId
  reference operator
  reference ref
  let controls := d.controls id
  revertIf (controls.holds.any fun hold ↦ hold.id = holdId) "hold ID already used"
  return d.setControls id { controls with
    holds := controls.holds ++ [⟨holdId, operator, ref, at_, none⟩] }

/-- Release the first hold of an id, which is the one that was looked up. -/
def releaseFirst (holdId : Text) (release : Release) : List Hold → List Hold
  | [] => []
  | hold :: holds =>
    if hold.id = holdId then { hold with release := some release } :: holds
    else hold :: releaseFirst holdId release holds

def releaseHold (id holdId operator ref : Text) (at_ : ℤ) : Except String Data := do
  let _ ← d.mustGet id
  timestamp at_
  reference operator
  reference ref
  let controls := d.controls id
  let hold ← getOrRevert (controls.holds.find? fun hold ↦ hold.id = holdId)
    "unknown or already released hold"
  revertIf hold.release.isSome "unknown or already released hold"
  revertIf (at_ < hold.at_) "hold release precedes placement"
  return d.setControls id { controls with
    holds := releaseFirst holdId ⟨operator, ref, at_⟩ controls.holds }

/-- The blockers that a request or an approval cannot wait out. -/
def pressingBlockers (record : VaultRecord) (at_ : ℤ) : List String :=
  (d.safetyBlockers record at_).filter fun code ↦ code ≠ "RETENTION_NOT_EXPIRED"

def deletionBlocked (blockers : List String) : String :=
  "deletion blocked: " ++ ",".intercalate blockers

/-- `requestDeletion`, for the random id that the request gets. -/
def requestDeletion (requestId id : Text) (input : DeletionInput) (at_ : ℤ) :
    Except String (DeletionRequest × Data) := do
  timestamp at_
  reference input.operator
  reference input.policyRef
  reference input.serviceRef
  let record ← d.mustGet id
  revertIf (record.retentionPolicy.any fun policy ↦
    input.policyRef ≠ policy.approvalRef.getD policy.policyId ||
      input.disposition ≠ policy.credentialDisposition)
    "deletion decision does not match the retained policy snapshot"
  let blockers := d.pressingBlockers record at_
  revertIf (blockers ≠ []) (deletionBlocked blockers)
  let confirmed := d.revocations.rows.any fun job ↦ job.recordId = id && job.state = .confirmed
  revertIf ((input.disposition = .sourceRevoked && !confirmed) ||
    (input.disposition = .notIssued && record.state ≠ .rejected) ||
    (record.state = .blocked && input.disposition ≠ .sourceRevoked))
    "service disposition is not supported by local evidence"
  let request : DeletionRequest :=
    { id := requestId, fingerprint := d.deletionFingerprint P record, requestedAt := at_
      input := input, approval := none }
  let controls := d.controls id
  return (request, d.setControls id { controls with requests := controls.requests ++ [request] })

def approveDeletion (id requestId operator : Text) (at_ : ℤ) : Except String Data := do
  timestamp at_
  reference operator
  let record ← d.mustGet id
  let controls := d.controls id
  let request ← getOrRevert controls.requests.getLast? "deletion request is not current"
  revertIf (request.id ≠ requestId) "deletion request is not current"
  revertIf (request.input.operator = operator) "deletion requires a different approver label"
  revertIf request.approval.isSome "deletion request already approved"
  revertIf (at_ < request.requestedAt) "approval precedes request"
  revertIf (request.fingerprint ≠ d.deletionFingerprint P record) "deletion request is stale"
  let blockers := d.pressingBlockers record at_
  revertIf (blockers ≠ []) (deletionBlocked blockers)
  return d.setControls id { controls with
    requests := controls.requests.dropLast ++ [{ request with approval := some ⟨operator, at_⟩ }] }

/-- Retain the deletion controls/tombstone and confirmed reconciliation outbox. NOT global
erasure. -/
def eraseApproved (record : VaultRecord) (request : DeletionRequest) (at_ : ℤ) : Data :=
  { d with
    records := d.records.erase record.id
    erasures := d.erasures ++ [⟨record.id, at_, request.input.policyRef, request.id⟩] }

def erase (id requestId : Text) (at_ : ℤ) : Except String (Bool × Data) := do
  timestamp at_
  match d.records.get id with
  | none => return (false, d)
  | some record => do
    let request ← getOrRevert (d.controls id).requests.getLast? "deletion request is not current"
    revertIf (request.id ≠ requestId) "deletion request is not current"
    let blockers := d.deletionBlockers P record at_
    revertIf (blockers ≠ []) (deletionBlocked blockers)
    return (true, d.eraseApproved record request at_)

/-- One record of `purgeExpired`. -/
def purgeRecord (now : ℤ) (d : Data) (record : VaultRecord) : Data :=
  match d.lastRequest record.id with
  | some request =>
    if !request.input.automatic || d.deletionBlockers P record now ≠ [] then d
    else d.eraseApproved record request now
  | none => d

def purgeExpired (now : ℤ) : Except String (ℕ × Data) := do
  timestamp now
  let d' := d.records.rows.foldl (purgeRecord P now) d
  return (d'.erasures.length - d.erasures.length, d')

/-! ### The revocation outbox -/

def recordRevocationObservation (id : Text) (expected : RevocationJob)
    (input : RevocationObservation) (recordedAt : ℤ) : Except String Data := do
  let job ← getOrRevert (d.revocations.get id) "REVOCATION_JOB_CHANGED"
  revertIf (expected.id ≠ id || job ≠ expected) "REVOCATION_JOB_CHANGED"
  let observation ← normalizeRevocationObservation P input
  timestamp recordedAt
  revertIf (!job.transaction.any fun transaction ↦
    transaction.chainId = 11155111 &&
      Text.lower transaction.hash = observation.source.transactionHash &&
      Text.lower transaction.source = observation.config.source &&
      job.sourceTarget.all fun target ↦
        target.chainId = 11155111 && Text.lower target.source = observation.config.source)
    "REVOCATION_OBSERVATION_TARGET_MISMATCH"
  revertIf (recordedAt < observation.observedAt * 1000 ||
    300000 < recordedAt - observation.observedAt * 1000 || recordedAt < job.createdAt ||
    observation.observedAt < job.createdAt / 1000) "STALE_REVOCATION_OBSERVATION"
  let previous := job.observations.getLast?
  revertIf (previous.any fun previous ↦
    observation.observedAt < previous.observation.observedAt ||
      recordedAt < previous.recordedAt) "BACKDATED_REVOCATION_OBSERVATION"
  -- Do not change source delivery status, compliance state, approvals or deletion authority.
  if previous.any fun previous ↦ previous.observation = observation then return d
  else return d.setJob { job with observations := job.observations ++ [⟨recordedAt, observation⟩] }

/-- A blocked record without any job, as the old CLI wrote it. -/
def isLegacyBlocked (record : VaultRecord) : Bool :=
  record.state = .blocked && !d.revocations.rows.any fun job ↦ job.recordId = record.id

/-- One record of `recoverBlockedRevocations`. -/
def recoverRecord (now : ℤ) (d : Data) (record : VaultRecord) : Except String Data :=
  if d.isLegacyBlocked record then d.queueRevocation record now else return d

def recoverBlockedRevocations (now : ℤ) : Except String Data :=
  d.records.rows.foldlM (recoverRecord now) d

def prepareRevocation (id : Text) (transaction : RevocationTransaction) :
    Except String (RevocationJob × Data) := do
  let job ← d.mustGetJob id
  revertIf (job.state = .confirmed) "revocation already confirmed"
  revertIf (job.transaction.any fun prepared ↦ prepared.hash ≠ transaction.hash)
    "revocation already has a different signed transaction"
  let next := { job with transaction := some transaction, state := .prepared }
  return (next, d.setJob next)

def finishRevocation (id : Text) (at_ : ℤ) : Except String Data := do
  let job ← d.mustGetJob id
  let transaction ← getOrRevert job.transaction "revocation has no prepared transaction"
  -- Keep the hash for reconciliation; raw transaction is no longer needed.
  return d.setJob { job with
    state := .confirmed
    confirmedAt := some at_
    lastError := none
    transaction := some { transaction with raw := [] } }

def failRevocation (id error : Text) (minedRevert : Bool) : Except String Data := do
  let job ← d.mustGetJob id
  revertIf (job.state = .confirmed) "cannot fail a confirmed revocation"
  -- Only a confirmed revert permits a new nonce/signature. Unknown broadcast outcomes retain it.
  return d.setJob { job with
    lastError := some (error.take 200)
    state := if minedRevert then .pending else job.state
    transaction := if minedRevert then none else job.transaction }

/-- The plaintext after `rotateKey`. -/
def rotateKey (P : Platform) (key nextKey operator : Text) (at_ : ℤ) : Data :=
  { d with maintenance := d.maintenance ++
      [⟨at_, operator, P.keyIdentifier key, P.keyIdentifier nextKey⟩] }

end Data

/-! ### Calls -/

/-- The operations that write, with their arguments. -/
inductive Operation
  | put (record : VaultRecord)
  | recordMaterialization (id evidenceHash : Text)
  | recordSourceConfirmation (id evidenceHash : Text) (observation : SourceIssuanceObservation)
  | recordRescreen (id : Text) (event : RescreenEvent) (expected : VaultRecord)
  | decideReview (id : Text) (event : ReviewEvent) (expectedRevision : Text)
  | extendRetention (id : Text) (until_ : ℤ) (operator ref : Text) (at_ : ℤ)
  | placeHold (id holdId operator ref : Text) (at_ : ℤ)
  | releaseHold (id holdId operator ref : Text) (at_ : ℤ)
  | requestDeletion (requestId id : Text) (input : DeletionInput) (at_ : ℤ)
  | approveDeletion (id requestId operator : Text) (at_ : ℤ)
  | erase (id requestId : Text) (at_ : ℤ)
  | purgeExpired (now : ℤ)
  | recordRevocationObservation (id : Text) (expected : RevocationJob)
      (input : RevocationObservation) (recordedAt : ℤ)
  | recoverBlockedRevocations (now : ℤ)
  | prepareRevocation (id : Text) (transaction : RevocationTransaction)
  | finishRevocation (id : Text) (at_ : ℤ)
  | failRevocation (id error : Text) (minedRevert : Bool)
  | rotateKey (newSecret operator : Text) (at_ : ℤ)

/-- What an operation makes of the plaintext it reads, through an instance with a key. -/
def Data.perform (P : Platform) (key : Text) (d : Data) : Operation → Except String Data
  | .put record => (d.put record).map Prod.snd
  | .recordMaterialization id evidenceHash => d.recordMaterialization id evidenceHash
  | .recordSourceConfirmation id evidenceHash observation =>
    d.recordSourceConfirmation id evidenceHash observation
  | .recordRescreen id event expected => (d.recordRescreen id event expected).map Prod.snd
  | .decideReview id event revision => (d.decideReview P key id event revision).map Prod.snd
  | .extendRetention id until_ operator ref at_ => d.extendRetention id until_ operator ref at_
  | .placeHold id holdId operator ref at_ => d.placeHold id holdId operator ref at_
  | .releaseHold id holdId operator ref at_ => d.releaseHold id holdId operator ref at_
  | .requestDeletion requestId id input at_ =>
    (d.requestDeletion P requestId id input at_).map Prod.snd
  | .approveDeletion id requestId operator at_ => d.approveDeletion P id requestId operator at_
  | .erase id requestId at_ => (d.erase P id requestId at_).map Prod.snd
  | .purgeExpired now => (d.purgeExpired P now).map Prod.snd
  | .recordRevocationObservation id expected input recordedAt =>
    d.recordRevocationObservation P id expected input recordedAt
  | .recoverBlockedRevocations now => d.recoverBlockedRevocations now
  | .prepareRevocation id transaction => (d.prepareRevocation id transaction).map Prod.snd
  | .finishRevocation id at_ => d.finishRevocation id at_
  | .failRevocation id error minedRevert => d.failRevocation id error minedRevert
  | .rotateKey newSecret operator at_ =>
    .ok (d.rotateKey P key (P.deriveVaultKey newSecret) operator at_)

/-- A call through an instance that holds a key. -/
structure Call where
  key : Text
  operation : Operation

/-- The operation and the new revision number. -/
def Data.apply (P : Platform) (d : Data) (call : Call) : Except String Data :=
  (d.perform P call.key call.operation).map fun d' ↦ { d' with revision := d'.revision + 1 }

end Proofmark.Vault
