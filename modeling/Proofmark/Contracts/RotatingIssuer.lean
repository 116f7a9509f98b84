import Proofmark.Contracts.ComplianceSource

/-!
# An issuer account with rotating keys

`RotatingIssuer.sol`. The account keeps one address towards the source while the key that operates
it changes; every change of key starts a new generation (`keyEpoch`). What the source asks of the
account, its code, its version, its generation and its signature check, is answered from the
account's own state (`answers`), so a call the account makes to the source sees the generation
before the call changes it.

`System` is the account with the source it is bound to. `SOURCE` is immutable and the source's own
address is part of the environment.
-/

open Evm

namespace Proofmark

/-- The events of the account itself. -/
inductive IssuerEvent
  | KeyProposed (key : Address) (previousEpoch : Uint 64)
  | KeyActivated (previousKey key : Address) (epoch : Uint 64)
  | IssuerSuspended (retiredKey : Address) (epoch : Uint 64) (reasonHash : Bytes32)
  | IssuerCompromiseDeclared (retiredKey : Address) (retiredEpoch lastTrustedBlock : Uint 64)
      (reasonHash : Bytes32)
  | OwnershipTransferStarted (previousOwner newOwner : Address)
  | OwnershipTransferred (previousOwner newOwner : Address)
  deriving DecidableEq

inductive IssuerError
  | InvalidKey
  | InactiveKey
  | WrongKeyEpoch
  | InvalidSource
  | RenunciationDisabled
  | MissingReason
  | arithmetic
  | ownable (e : OwnableError)
  | source (e : SourceError)
  deriving DecidableEq

/-- An event of the account or of the source, as one call emits both. -/
inductive SystemEvent
  | issuer (e : IssuerEvent)
  | source (e : SourceEvent)
  deriving DecidableEq

/-- The event of the source, if it is one. -/
def SystemEvent.source? : SystemEvent → Option SourceEvent
  | issuer _ => none
  | source e => some e

structure RotatingIssuer where
  ownable : Ownable2Step
  operatingKey : Address
  pendingKey : Address
  keyEpoch : Uint 64
  suspended : Bool
  usedKey : Address → Bool

/-- The address of the account. -/
structure Account where
  address : Address
  address_ne_zero : address ≠ 0

namespace RotatingIssuer

def ISSUER_KEY_VERSION : Bytes32 := 1

def APPROVAL_TYPEHASH : Bytes32 :=
  keccak256 (ascii "IssuerApproval(bytes32 sourceDigest,uint64 keyEpoch)")

/-- `0xffffffff`, left-aligned in a word. -/
def INVALID_SIGNATURE : Bytes32 := 0xffffffff <<< 224

/-- The versions a source reports. -/
structure SourceVersions where
  ATTRS_SCHEMA_VERSION : Uint 256
  EPOCH_SCHEMA_VERSION : Uint 256
  ROSTER_AUTH_VERSION : Uint 256
  ISSUER_KEY_PROVENANCE_VERSION : Uint 256
  deriving DecidableEq

/-- The constructor. `source` is what the code at the source's address reports, if there is any. -/
def construct (recoveryOwner initialKey : Address) (source : Option SourceVersions) :
    Except IssuerError (RotatingIssuer × List IssuerEvent) := do
  let ownable ← (Ownable2Step.construct recoveryOwner).mapError .ownable
  let versions ← getOrRevert source .InvalidSource
  revertIf (versions.ATTRS_SCHEMA_VERSION != 0 || versions.EPOCH_SCHEMA_VERSION != 2
    || versions.ROSTER_AUTH_VERSION != 1 || versions.ISSUER_KEY_PROVENANCE_VERSION != 1)
    .InvalidSource
  revertIf (initialKey == 0 || initialKey == recoveryOwner) .InvalidKey
  return ({
    ownable := ownable
    operatingKey := initialKey
    pendingKey := 0
    keyEpoch := 1
    suspended := false
    usedKey := Function.update (fun _ ↦ false) initialKey true },
    [.OwnershipTransferred 0 recoveryOwner, .KeyActivated 0 initialKey 1])

/-! ### Modifiers and private functions -/

def onlyOwner (r : RotatingIssuer) (sender : Address) : Except IssuerError Unit :=
  (r.ownable.onlyOwner sender).mapError .ownable

/-- The modifier `currentKey`. -/
def currentKey (r : RotatingIssuer) (sender : Address) (expectedEpoch : Uint 64) :
    Except IssuerError Unit := do
  revertIf (r.suspended || sender != r.operatingKey) .InactiveKey
  revertIf (expectedEpoch != r.keyEpoch) .WrongKeyEpoch

/-- `++keyEpoch`, with its overflow check. -/
def nextEpoch (r : RotatingIssuer) : Except IssuerError (Uint 64) := do
  revertIf (r.keyEpoch == BitVec.allOnes 64) .arithmetic
  return r.keyEpoch + 1

/-- `_suspend`. -/
def suspendWith (r : RotatingIssuer) (reasonHash : Bytes32) :
    Except IssuerError (RotatingIssuer × List IssuerEvent) := do
  revertIf (reasonHash == 0) .MissingReason
  let epoch ← r.nextEpoch
  return ({ r with operatingKey := 0, pendingKey := 0, suspended := true, keyEpoch := epoch },
    [.IssuerSuspended r.operatingKey epoch reasonHash])

/-! ### Keys -/

def proposeKey (r : RotatingIssuer) (sender next : Address) :
    Except IssuerError (RotatingIssuer × List IssuerEvent) := do
  r.onlyOwner sender
  revertIf (next == 0 || r.usedKey next || next == r.ownable.owner
    || next == r.ownable.pendingOwner) .InvalidKey
  return ({ r with pendingKey := next }, [.KeyProposed next r.keyEpoch])

def cancelKeyProposal (r : RotatingIssuer) (sender : Address) :
    Except IssuerError (RotatingIssuer × List IssuerEvent) := do
  r.onlyOwner sender
  return ({ r with pendingKey := 0 }, [.KeyProposed 0 r.keyEpoch])

def acceptKey (r : RotatingIssuer) (sender : Address) (expectedEpoch : Uint 64) :
    Except IssuerError (RotatingIssuer × List IssuerEvent) := do
  revertIf (sender != r.pendingKey || r.pendingKey == 0) .InvalidKey
  revertIf (expectedEpoch != r.keyEpoch) .WrongKeyEpoch
  let epoch ← r.nextEpoch
  return ({ r with
    operatingKey := r.pendingKey
    pendingKey := 0
    usedKey := Function.update r.usedKey r.pendingKey true
    suspended := false
    keyEpoch := epoch },
    [.KeyActivated r.operatingKey r.pendingKey epoch])

def suspend (r : RotatingIssuer) (sender : Address) (reasonHash : Bytes32) :
    Except IssuerError (RotatingIssuer × List IssuerEvent) := do
  r.onlyOwner sender
  r.suspendWith reasonHash

/-! ### Ownership -/

def transferOwnership (r : RotatingIssuer) (sender next : Address) :
    Except IssuerError (RotatingIssuer × List IssuerEvent) := do
  r.onlyOwner sender
  revertIf (next != 0 && (r.usedKey next || next == r.pendingKey)) .InvalidKey
  let o ← (r.ownable.transferOwnership sender next).mapError .ownable
  return ({ r with ownable := o }, [.OwnershipTransferStarted r.ownable.owner next])

/-- `acceptOwnership`; `_transferOwnership` also drops a pending key. -/
def acceptOwnership (r : RotatingIssuer) (sender : Address) :
    Except IssuerError (RotatingIssuer × List IssuerEvent) := do
  let o ← (r.ownable.acceptOwnership sender).mapError .ownable
  return ({ r with ownable := o, pendingKey := 0 },
    (if r.pendingKey != 0 then [.KeyProposed 0 r.keyEpoch] else []) ++
      [.OwnershipTransferred r.ownable.owner sender])

def renounceOwnership (r : RotatingIssuer) (sender : Address) :
    Except IssuerError (RotatingIssuer × List IssuerEvent) := do
  r.onlyOwner sender
  .error .RenunciationDisabled

/-! ### Signatures -/

/-- The domain separator of the account, name `ProofmarkIssuer`, version `1`. -/
def domainSeparator (self : Account) (chainId : Uint 256) : Bytes32 :=
  keccak256 (abiEncode
    [keccak256 (ascii
      "EIP712Domain(string name,string version,uint256 chainId,address verifyingContract)"),
      keccak256 (ascii "ProofmarkIssuer"), keccak256 (ascii "1"), chainId,
      self.address.setWidth 256])

def approvalDigest (self : Account) (chainId : Uint 256) (sourceDigest : Bytes32)
    (epoch : Uint 64) : Bytes32 :=
  let structHash := keccak256 (abiEncode [APPROVAL_TYPEHASH, sourceDigest, epoch.setWidth 256])
  keccak256 (0x19 :: 0x01 ::
    (wordBytes (domainSeparator self chainId) ++ wordBytes structHash))

/-- The generation a signature names: its first eight bytes. -/
def signatureEpoch (signature : Bytes) : Uint 64 :=
  BitVec.ofNat 64 (ofBytes (signature.take 8))

def isValidSignature (r : RotatingIssuer) (self : Account) (source : ComplianceSource)
    (env : SourceEnv) (sourceDigest : Bytes32) (signature : Bytes) : Bytes32 :=
  if r.suspended || signature.length != 73 || !source.isIssuer self.address then INVALID_SIGNATURE
  else
    let epoch := signatureEpoch signature
    if epoch ≠ r.keyEpoch then INVALID_SIGNATURE
    else if env.ext.tryRecover (approvalDigest self env.chainId sourceDigest epoch)
        (signature.drop 8) = some r.operatingKey then ComplianceSource.ERC1271_MAGIC
    else INVALID_SIGNATURE

end RotatingIssuer

/-! ### The account and its source -/

structure System where
  issuer : RotatingIssuer
  source : ComplianceSource

namespace System

/-- What the source can ask of other addresses: the account answers from its state. -/
def answers (w : System) (self : Account) (env : SourceEnv) : External :=
  { env.ext with
    hasCode := Function.update env.ext.hasCode self.address true
    issuerKeyVersion := Function.update env.ext.issuerKeyVersion self.address
      (some (wordBytes RotatingIssuer.ISSUER_KEY_VERSION))
    keyEpoch := Function.update env.ext.keyEpoch self.address
      (some (wordBytes (w.issuer.keyEpoch.setWidth 256)))
    isValidSignature := fun who digest signature ↦
      if who = self.address then
        some (wordBytes (w.issuer.isValidSignature self w.source env digest signature))
      else env.ext.isValidSignature who digest signature }

/-- The environment of a call the account makes to the source. -/
def asAccount (w : System) (self : Account) (env : SourceEnv) : SourceEnv :=
  { env with
    sender := self.address
    sender_ne_zero := self.address_ne_zero
    ext := w.answers self env }

abbrev Result := Except IssuerError (System × List SystemEvent)

/-- A call to the source, its reverts passed on. -/
def callSource (w : System) (env : SourceEnv) (call : ComplianceSource.Call) : Result := do
  let (source, events) ← (w.source.exec env call).mapError .source
  return ({ w with source := source }, events.map .source)

def issueOnce (w : System) (self : Account) (env : SourceEnv) (expectedEpoch : Uint 64)
    (requestId : Bytes32) (subject : Address) (attrs claimsRoot evidenceHash : Bytes32) :
    Result := do
  w.issuer.currentKey env.sender expectedEpoch
  w.callSource (w.asAccount self env)
    (.issueOnceWithKey requestId subject attrs claimsRoot evidenceHash expectedEpoch)

def revoke (w : System) (self : Account) (env : SourceEnv) (expectedEpoch : Uint 64)
    (subject : Address) (reasonCode : Uint 16) (epoch : Uint 32) : Result := do
  w.issuer.currentKey env.sender expectedEpoch
  w.callSource (w.asAccount self env) (.revoke subject reasonCode epoch)

def deny (w : System) (self : Account) (env : SourceEnv) (expectedEpoch : Uint 64)
    (subject : Address) (listVersion epoch : Uint 32) : Result := do
  w.issuer.currentKey env.sender expectedEpoch
  w.callSource (w.asAccount self env) (.deny subject listVersion epoch)

/-- `declareCompromise`: the cutoff is recorded against the current generation, then the current key
is retired. -/
def declareCompromise (w : System) (self : Account) (env : SourceEnv) (reasonHash : Bytes32)
    (lastTrustedBlock : Uint 64) : Result := do
  w.issuer.onlyOwner env.sender
  let retired := w.issuer.operatingKey
  let retiredEpoch := w.issuer.keyEpoch
  let (w, recorded) ← w.callSource (w.asAccount self env)
    (.declareIssuerKeyCompromise retiredEpoch lastTrustedBlock reasonHash)
  let (issuer, suspended) ← w.issuer.suspendWith reasonHash
  return ({ w with issuer := issuer },
    recorded ++ suspended.map .issuer ++
      [.issuer (.IssuerCompromiseDeclared retired retiredEpoch lastTrustedBlock reasonHash)])

/-- A call to the account, or to the source directly. -/
inductive Call
  | proposeKey (next : Address)
  | cancelKeyProposal
  | acceptKey (expectedEpoch : Uint 64)
  | suspend (reasonHash : Bytes32)
  | declareCompromise (reasonHash : Bytes32) (lastTrustedBlock : Uint 64)
  | transferOwnership (next : Address)
  | acceptOwnership
  | renounceOwnership
  | issueOnce (expectedEpoch : Uint 64) (requestId : Bytes32) (subject : Address)
      (attrs claimsRoot evidenceHash : Bytes32)
  | revoke (expectedEpoch : Uint 64) (subject : Address) (reasonCode : Uint 16) (epoch : Uint 32)
  | deny (expectedEpoch : Uint 64) (subject : Address) (listVersion epoch : Uint 32)
  | source (call : ComplianceSource.Call)

/-- A call that only the account answers. -/
def callIssuer (w : System) (result : Except IssuerError (RotatingIssuer × List IssuerEvent)) :
    Result := do
  let (issuer, events) ← result
  return ({ w with issuer := issuer }, events.map .issuer)

/-- Run one call. Who calls the source directly is not restricted, although the account itself never
does. -/
def exec (w : System) (self : Account) (env : SourceEnv) : Call → Result
  | .proposeKey next => w.callIssuer (w.issuer.proposeKey env.sender next)
  | .cancelKeyProposal => w.callIssuer (w.issuer.cancelKeyProposal env.sender)
  | .acceptKey expectedEpoch => w.callIssuer (w.issuer.acceptKey env.sender expectedEpoch)
  | .suspend reasonHash => w.callIssuer (w.issuer.suspend env.sender reasonHash)
  | .declareCompromise reasonHash lastTrustedBlock =>
    w.declareCompromise self env reasonHash lastTrustedBlock
  | .transferOwnership next => w.callIssuer (w.issuer.transferOwnership env.sender next)
  | .acceptOwnership => w.callIssuer (w.issuer.acceptOwnership env.sender)
  | .renounceOwnership => w.callIssuer (w.issuer.renounceOwnership env.sender)
  | .issueOnce expectedEpoch requestId subject attrs claimsRoot evidenceHash =>
    w.issueOnce self env expectedEpoch requestId subject attrs claimsRoot evidenceHash
  | .revoke expectedEpoch subject reasonCode epoch =>
    w.revoke self env expectedEpoch subject reasonCode epoch
  | .deny expectedEpoch subject listVersion epoch =>
    w.deny self env expectedEpoch subject listVersion epoch
  | .source call => w.callSource { env with ext := w.answers self env } call

/-- A call with the environment it is made in. -/
structure Transact where
  env : SourceEnv
  call : Call

/-- The transition of a run. -/
def step (self : Account) (w : System) (t : Transact) : Except IssuerError System :=
  (w.exec self t.env t.call).map Prod.fst

end System

end Proofmark
