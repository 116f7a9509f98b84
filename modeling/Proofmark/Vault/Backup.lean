import Proofmark.Pipeline.Canonical
import Proofmark.Vault.Writer

/-!
# Backups of the vault

`decryptVaultData`, `createBackup` and `restoreBackup` of `vault.ts`, on the texts of the files. The
vault's file is the JSON of an AES-GCM envelope, whose plaintext is JSON again; a backup is a JSON
object that holds such a file whole, beside a manifest and an HMAC of both.

`Sealing` holds what is not written in the repository: the numbers of the language and the functions
of `node:crypto`, with digests in lower-case hex. A disk maps paths, which are
absolute, to texts; a lock is a file on it. The disk may change between the checks of a restore and
the moment it holds the lock of its destination, so `restoreBackup` takes both.
-/

open Evm JsonText

namespace Proofmark.Vault

open Pipeline

/-- `/^[0-9a-f]{width}$/` -/
def isHex (width : ℕ) (t : Text) : Bool :=
  t.length == width && t.all fun c ↦ ('0' ≤ c && c ≤ '9') || ('a' ≤ c && c ≤ 'f')

/-- The numbers of the language, and the functions of `node:crypto`. -/
structure Sealing (N : Type) extends JsNumbers N where
  sha256 : Text → Text
  /-- Of a key and a message. -/
  hmac : Text → Text → Text
  isHex_sha256 : ∀ t, isHex 64 (sha256 t) = true
  isHex_hmac : ∀ key t, isHex 64 (hmac key t) = true
  /-- AES-256-GCM: key, nonce, tag and ciphertext. -/
  decipher : Text → Text → Text → Text → Option Text

/-! ### The files of a directory -/

abbrev Disk := Text → Option Text

def Disk.write (disk : Disk) (path content : Text) : Disk :=
  Function.update disk path (some content)

def lockPath (path : Text) : Text :=
  path ++ ".lock".toList

/-- The names that an object inherits. -/
def objectPrototype : List Text :=
  ["constructor", "__defineGetter__", "__defineSetter__", "hasOwnProperty", "__lookupGetter__",
    "__lookupSetter__", "isPrototypeOf", "propertyIsEnumerable", "toString", "valueOf",
    "__proto__", "toLocaleString"].map String.toList

section

variable {N : Type} (S : Sealing N) (P : Platform)

namespace Sealing

/-! ### Opening a file -/

/-- What `decryptVaultData` makes of the plaintext. A file of version 1 has no controls. -/
def upgraded (parsed : Value N) : Option (Value N) :=
  match S.fieldInt parsed "version" with
  | some 1 =>
    some (setField (setField (setField parsed "version" (.number (S.ofInt 2)))
      "retention" (.object [])) "revision" (.number (S.ofInt 0)))
  | some 2 =>
    let revision := parsed.get "revision".toList
    let maintenance := parsed.get "maintenance".toList
    if (asObject (parsed.get "retention".toList)).isNone ||
        (revision.isSome && !(S.asInt revision).any (0 ≤ ·)) ||
        maintenance.any (fun v ↦ match v with
          | .array _ => false
          | _ => true) then none
    else if revision.isNone then some (setField parsed "revision" (.number (S.ofInt 0)))
    else some parsed
  | _ => none

/-- The plaintext of an envelope. -/
def plaintext (envelope : Value N) (key : Text) : Option (Value N) := do
  let iv ← fieldText envelope "iv"
  let tag ← fieldText envelope "tag"
  let ciphertext ← fieldText envelope "ciphertext"
  let plain ← S.decipher key iv tag ciphertext
  S.upgraded (← parse S.numerals plain)

/-- `decryptVaultData` -/
def decryptVaultData (raw key : Text) : Except String (Value N) := do
  let envelope ← getOrRevert (parse S.numerals raw) "Unexpected token"
  revertIf (S.fieldInt envelope "version" ≠ some 1) "unsupported evidence vault version"
  getOrRevert (S.plaintext envelope key)
    "evidence vault authentication failed (wrong key or corrupt file)"

/-- A vault without a file. -/
def emptyVault : Value N :=
  .object [("version".toList, .number (S.ofInt 2)), ("revision".toList, .number (S.ofInt 0)),
    ("records".toList, .object []), ("erasures".toList, .array []),
    ("revocations".toList, .object []), ("retention".toList, .object [])]

/-- `load` -/
def load (disk : Disk) (path key : Text) : Except String (Value N) :=
  match disk path with
  | none => .ok S.emptyVault
  | some raw => S.decryptVaultData raw key

/-- `data.revision ?? 0` -/
def revision (data : Value N) : ℤ :=
  (S.fieldInt data "revision").getD 0

def stateCommitment (data : Value N) : Text :=
  S.sha256 ("proofmark-vault-state-v1\x00".toList ++ print S.numerals data)

structure RecoveryState where
  revision : ℤ
  stateCommitment : Text
  keyId : Text
  deriving DecidableEq

/-- `recoveryState` -/
def recoveryState (disk : Disk) (path key : Text) : Except String RecoveryState :=
  (S.load disk path key).map fun data ↦
    ⟨S.revision data, S.stateCommitment data, P.keyIdentifier key⟩

/-! ### Creating a backup -/

/-- `retentionDeadline`. No operation writes a time that is not a safe integer. -/
def retentionDeadline (data record : Value N) : Option ℤ := do
  let retentionUntil ← S.fieldInt record "retentionUntil"
  let id ← fieldText record "id"
  match ((data.get "retention".toList).bind fun controls ↦ controls.get id).bind
      fun controls ↦ controls.get "minimumUntil".toList with
  | none | some .null => some (max retentionUntil 0)
  | some minimumUntil => return max retentionUntil (← S.asInt (some minimumUntil))

/-- The earliest deadline of a record that is bound to a policy. -/
def deleteBy (data : Value N) (records : List (Text × Value N)) : Option (Option ℤ) :=
  (((records.map Prod.snd).filter fun record ↦
    S.truthy (record.get "retentionPolicy".toList)).mapM fun record ↦
      S.retentionDeadline data record).map List.min?

/-- The fields of a backup without its authentication. -/
def unsignedFields (raw key backupId : Text) (at_ : ℤ) (data : Value N) (deleteBy : Option ℤ) :
    List (Text × Value N) :=
  [("version".toList, .number (S.ofInt 1)), ("backupId".toList, .string backupId),
    ("createdAt".toList, .number (S.ofInt at_)),
    ("revision".toList, .number (S.ofInt (S.revision data))),
    ("stateCommitment".toList, .string (S.stateCommitment data)),
    ("ciphertextHash".toList, .string (S.sha256 raw)),
    ("keyId".toList, .string (P.keyIdentifier key)),
    ("deleteBy".toList, deleteBy.elim .null fun t ↦ .number (S.ofInt t)),
    ("vaultEnvelope".toList, .string raw)]

/-- The HMAC of a backup without its authentication. -/
def authentication (key : Text) (unsigned : Value N) : Text :=
  S.hmac key ("proofmark-vault-backup-v1\x00".toList ++ print S.numerals unsigned)

/-- The backup of a file that opens. -/
def backupFile (raw key backupId : Text) (at_ : ℤ) (data : Value N) (deleteBy : Option ℤ) :
    Value N :=
  let unsigned := S.unsignedFields P raw key backupId at_ data deleteBy
  .object (unsigned ++
    [("authentication".toList, .string (S.authentication key (.object unsigned)))])

/-- The manifest in a backup. -/
def manifestOf (file : Value N) : Value N :=
  dropField (dropField file "vaultEnvelope") "authentication"

/-- `createBackup`, through an instance that has a key -/
def createBackup (disk : Disk) (path backupPath key backupId : Text) (at_ : ℤ) :
    Except String (Value N) × Disk :=
  match (do
    timestamp at_
    revertIf (backupPath = path) "VAULT_BACKUP_PATH_INVALID"
    let raw ← getOrRevert (disk path) "VAULT_BACKUP_SOURCE_MISSING"
    revertIf (disk (lockPath path)).isSome "VAULT_WRITER_BUSY"
    let data ← S.decryptVaultData raw key
    let records ← getOrRevert (asObject (data.get "records".toList)) "Cannot convert to object"
    let deleteBy ← getOrRevert (S.deleteBy data records) "a deadline is no safe integer"
    revertIf (backupPath = lockPath path || (disk backupPath).isSome) "VAULT_BACKUP_UNCONFIRMED"
    return S.backupFile P raw key backupId at_ data deleteBy) with
  | .error error => (.error error, disk)
  | .ok file => (.ok (manifestOf file), disk.write backupPath (print S.numerals file))

end Sealing

/-! ### Restoring a backup -/

structure VaultCommitmentObservation where
  recordId : Text
  walletAddress : Text
  evidenceHash : Text
  claimsRoot : Option Text
  sourceTransactionHash : Option Text
  deriving DecidableEq

structure VaultRestoreRequirements where
  expectedBackupId : Text
  expectedStateCommitment : Text
  minimumRevision : ℤ
  commitments : List VaultCommitmentObservation
  /-- Independently retained opaque erasure tombstones. Required even when currently empty. -/
  erasedRecordIds : List Text
  deriving DecidableEq

/-- `sameHex` -/
def sameHex (left right : Text) : Bool :=
  left.lower = right.lower

namespace Sealing

/-- The checks of a backup against itself and its key. -/
def authenticated (key : Text) (file : Value N) : Bool :=
  let hexField := fun (name : String) (width : ℕ) ↦ (fieldText file name).any (isHex width)
  let createdAt := S.fieldInt file "createdAt"
  S.fieldInt file "version" = some 1 && hexField "backupId" 32 &&
    createdAt.any (0 ≤ ·) && (S.fieldInt file "revision").any (0 ≤ ·) &&
    hexField "stateCommitment" 64 && hexField "ciphertextHash" 64 && hexField "keyId" 64 &&
    (match file.get "deleteBy".toList with
      | none | some .null => true
      | some v => (S.asInt (some v)).any fun t ↦ createdAt.any (· ≤ t)) &&
    (fieldText file "authentication").any (fun authentication ↦ isHex 64 authentication &&
      authentication = S.authentication key (dropField file "authentication")) &&
    fieldText file "keyId" = some (P.keyIdentifier key) &&
    (fieldText file "vaultEnvelope").any fun envelope ↦
      fieldText file "ciphertextHash" = some (S.sha256 envelope)

/-- `data.records[id]`, where it is truthy -/
def record (data : Value N) (id : Text) : Option (Value N) :=
  match (data.get "records".toList).bind fun records ↦ records.get id with
  | some v => if S.truthy (some v) then some v else none
  | none => if id ∈ objectPrototype then some (.object []) else none

/-- A record shows what was observed of it elsewhere. -/
def agrees (record : Value N) (observation : VaultCommitmentObservation) : Bool :=
  (fieldText record "walletAddress").any (sameHex · observation.walletAddress) &&
    (fieldText record "evidenceHash").any (sameHex · observation.evidenceHash) &&
    observation.claimsRoot.all (fun root ↦
      (fieldText record "claimsRoot").any fun t ↦ t ≠ [] && sameHex t root) &&
    observation.sourceTransactionHash.all fun hash ↦
      (record.get "sourceIssuance".toList).any fun issuance ↦
        (fieldText issuance "transactionHash").any (sameHex · hash)

/-- The requirements name this backup and this state of it. -/
def requirementsMet (file data : Value N) (requirements : VaultRestoreRequirements) : Bool :=
  fieldText file "backupId" = some requirements.expectedBackupId &&
    fieldText file "stateCommitment" = some requirements.expectedStateCommitment &&
    isSafeInteger requirements.minimumRevision && 0 ≤ requirements.minimumRevision &&
    (S.fieldInt file "revision").any (requirements.minimumRevision ≤ ·) &&
    fieldText file "stateCommitment" = some (S.stateCommitment data) &&
    S.fieldInt file "revision" = some (S.revision data) &&
    requirements.erasedRecordIds.all (fun id ↦ id ≠ [] && id.length ≤ 256) &&
    decide requirements.erasedRecordIds.Nodup

/-- What `restoreBackup` checks before it touches the destination: the key, the backup and the
envelope in it. -/
def verifyBackup (disk : Disk) (backupPath destinationPath secret : Text)
    (requirements : VaultRestoreRequirements) (now : ℤ) :
    Except String (Text × Value N × Text) := do
  revertIf (backupPath = destinationPath || (disk destinationPath).isSome)
    "VAULT_RESTORE_DESTINATION_NOT_EMPTY"
  revertIf (secret.length < 32) "EVIDENCE_VAULT_KEY must be at least 32 characters"
  let key := P.deriveVaultKey secret
  let file ← getOrRevert ((disk backupPath).bind (parse S.numerals)) "VAULT_BACKUP_UNREADABLE"
  revertIf (!S.authenticated P key file) "VAULT_BACKUP_AUTHENTICATION_FAILED"
  let envelope ← getOrRevert (fieldText file "vaultEnvelope") "VAULT_BACKUP_AUTHENTICATION_FAILED"
  let data ← (S.decryptVaultData envelope key).mapError fun _ ↦
    "VAULT_BACKUP_AUTHENTICATION_FAILED"
  revertIf (!S.requirementsMet file data requirements) "VAULT_RESTORE_REQUIREMENTS_MISMATCH"
  revertIf ((S.fieldInt file "deleteBy").any (· ≤ now)) "VAULT_BACKUP_EXPIRED"
  revertIf ((asObject (data.get "records".toList)).isNone &&
    (requirements.erasedRecordIds ≠ [] || requirements.commitments ≠ []))
    "Cannot read properties of undefined"
  revertIf (requirements.erasedRecordIds.any fun id ↦ (S.record data id).isSome)
    "VAULT_ERASURE_FLOOR_VIOLATION"
  revertIf (requirements.commitments.any fun observation ↦ observation.recordId = [] ||
      !(S.record data observation.recordId).any fun record ↦ agrees record observation)
    "VAULT_ONCHAIN_COMMITMENT_MISMATCH"
  return (key, file, envelope)

/-- `restoreBackup`: what it returns, and the disk it leaves. `held` is the disk once the lock of
the destination can be taken. -/
def restoreBackup (disk held : Disk) (backupPath destinationPath secret : Text)
    (requirements : VaultRestoreRequirements) (now : ℤ) (fault : Fault) :
    Except String (Value N × ℕ) × Disk :=
  match S.verifyBackup P disk backupPath destinationPath secret requirements now with
  | .error error => (.error error, disk)
  | .ok (key, file, envelope) =>
    let lock := lockPath destinationPath
    let restored := held.write destinationPath envelope
    match S.load held destinationPath key with
    | .error error => (.error error, held)
    | .ok _ =>
      if (held lock).isSome then (.error "VAULT_WRITER_BUSY", held)
      else if fault = .lock then (.error "write error", held)
      else if (held destinationPath).isSome then
        (.error "VAULT_RESTORE_DESTINATION_NOT_EMPTY", held)
      else
        match fault with
        | .beforeRename => (.error "VAULT_RESTORE_WRITE_UNCONFIRMED", held.write lock [])
        | .afterRename | .unlock =>
          (.error "VAULT_RESTORE_WRITE_UNCONFIRMED", restored.write lock [])
        | _ =>
          match S.decryptVaultData envelope key with
          | .error error => (.error error, restored)
          | .ok data =>
            if fieldText file "stateCommitment" ≠ some (S.stateCommitment data) then
              (.error "VAULT_RESTORE_WRITE_UNCONFIRMED", restored.write lock [])
            else (.ok (manifestOf file, requirements.commitments.length), restored)

end Sealing

end

end Proofmark.Vault
