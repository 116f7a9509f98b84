import Proofmark.Evm.Execution
import Proofmark.Pipeline.Addresses
import Proofmark.Pipeline.Canonical

/-!
# The external credential adapter

`external-credential.ts`: a compact token of a configured provider is parsed, its signature checked
and its claims mapped to the attributes of a mark; a status answer and a replay store decide on
what is returned. Hashes, signature recovery and addresses are the libraries' (`Libraries`); a clock
value is a whole number of seconds.

A raw credential that is no string is refused like any other malformed one, and so is not modelled.
-/

open Evm JsonText

namespace Proofmark.Pipeline.ExternalCredential

variable {N : Type}

/-- What the adapter takes from libraries. -/
structure Libraries extends Addresses where
  sha256 : Bytes → Bytes32
  /-- `recoverAddress(digest, Signature.from({ r, s, yParity }))`, unless it raises -/
  recoverAddress : Bytes32 → Bytes → Bytes → Bool → Option Text
  /-- `createHmac('sha256', key).update(data).digest()` -/
  hmacSha256 : Text → Bytes → Bytes32

inductive ExternalCredentialError
  | tokenInvalid
  | signatureInvalid
  | configInvalid
  | headerInvalid
  | payloadInvalid
  | issuerMismatch
  | audienceMismatch
  | subjectMismatch
  | credentialIdInvalid
  | timeInvalid
  | clockInvalid
  | issuedInFuture
  | credentialExpired
  | environmentMismatch
  | assuranceUnsupported
  | regimeUnsupported
  | jurisdictionUnsupported
  | requiredCheckMissing
  | providerResponseInvalid
  | providerUnavailable
  | statusUnknown
  | replayConflict
  /-- An error of `packAttrs`, which is no error of the adapter. -/
  | attrs (e : AttrsError)
  deriving DecidableEq

open ExternalCredentialError

/-! ### Configuration -/

structure Publication where
  model : Text
  /-- Exact Source issuer that an independent consumer must pin. -/
  sourceIssuer : Text

structure ExternalCredentialAdapterConfig where
  id : Text
  issuerId : Text
  issuerAddress : Text
  keyId : Text
  audience : Text
  product : Text
  environment : Text
  publication : Publication
  assurance : List (Text × ℤ)
  regimes : List (Text × ℤ)
  jurisdictions : List (Text × ℤ)
  /-- One explicit provider check maps to one method bit. -/
  methods : List (Text × ℤ)
  requiredChecks : List Text
  maxCredentialAgeSeconds : ℤ
  credentialIdHmacKey : Text

/-- `t.length` -/
def units (t : Text) : ℕ :=
  (t.flatMap codeUnits).length

def safeString (t : Text) (max : ℕ) : Bool :=
  decide (0 < units t) && decide (units t ≤ max) &&
    t.all fun c ↦ !(decide (c.toNat < 32) || c.toNat == 127)

def ZeroAddress : Text :=
  Text.ofAddress 0

def ZeroHash : Text :=
  Text.ofWord 0

/-- `/^[A-Z]{2}$/` -/
def isCountry (t : Text) : Bool :=
  t.length == 2 && t.all fun c ↦ decide ('A' ≤ c) && decide (c ≤ 'Z')

/-- A method value, as it is checked. -/
def isMethodBit (value : ℤ) : Bool :=
  isSafeInteger value && decide (1 ≤ value) &&
    Numeric.Int32.and value (value - 1) == 0 &&
    Numeric.Int32.and value (Numeric.Int32.not SUPPORTED_METHODS) == 0

/-- What `validateConfig` accepts. -/
def validConfig (E : Addresses) (c : ExternalCredentialAdapterConfig) : Bool :=
  safeString c.id 80 && safeString c.issuerId 200 && safeString c.keyId 160
    && safeString c.audience 200 && safeString c.product 120
    && E.isAddress c.issuerAddress && !same c.issuerAddress ZeroAddress
    && E.isAddress c.publication.sourceIssuer && !same c.publication.sourceIssuer ZeroAddress
    && decide (c.publication.model ∈ ["provider".toList, "adapter".toList])
    && (c.publication.model != "provider".toList
      || same c.publication.sourceIssuer c.issuerAddress)
    && decide (c.environment ∈ ["production".toList, "sandbox".toList])
    && isSafeInteger c.maxCredentialAgeSeconds && decide (1 ≤ c.maxCredentialAgeSeconds)
    && decide (c.maxCredentialAgeSeconds ≤ 31536000) && decide (32 ≤ units c.credentialIdHmacKey)
    && (c.assurance.all fun p ↦ isSafeInteger p.2 && decide (1 ≤ p.2) && decide (p.2 ≤ 5))
    && (c.regimes.all fun p ↦ isSafeInteger p.2 && (p.2 == 1 || p.2 == 2))
    && (c.jurisdictions.all fun p ↦
      isCountry p.1 && isSafeInteger p.2 && decide (1 ≤ p.2) && decide (p.2 ≤ 999))
    && (c.methods.all fun p ↦ safeString p.1 100 && isMethodBit p.2)
    && c.assurance != [] && c.regimes != [] && c.jurisdictions != []
    && c.methods != [] && c.requiredChecks != [] && decide c.requiredChecks.Nodup
    && (c.requiredChecks.all fun check ↦ safeString check 100 && (c.methods.lookup check).isSome)
    && c.regimes.all fun p ↦
      safeString p.1 100 && (if c.environment = "production".toList then p.2 == 1 else p.2 == 2)

def validateConfig (E : Addresses) (c : ExternalCredentialAdapterConfig) :
    Except ExternalCredentialError Unit :=
  revertIf (!validConfig E c) configInvalid

/-! ### The segments of a token -/

/-- A digit of the alphabet. -/
def base64UrlDigit (n : ℕ) : Char :=
  if n < 26 then Char.ofNat (65 + n)
  else if n < 52 then Char.ofNat (71 + n)
  else if n < 62 then Char.ofNat (n - 4)
  else if n = 62 then '-' else '_'

/-- The value of a digit of the alphabet. -/
def base64UrlValue (c : Char) : Option ℕ :=
  if 'A' ≤ c ∧ c ≤ 'Z' then some (c.toNat - 65)
  else if 'a' ≤ c ∧ c ≤ 'z' then some (c.toNat - 71)
  else if '0' ≤ c ∧ c ≤ '9' then some (c.toNat + 4)
  else if c = '-' then some 62
  else if c = '_' then some 63
  else none

/-- `Buffer.from(value, 'base64url')`, from the values of the digits. Bits that fill no byte are
dropped. -/
def fromBase64Url : List ℕ → Bytes
  | a :: b :: c :: d :: rest =>
    BitVec.ofNat 8 (a * 4 + b / 16) :: BitVec.ofNat 8 (b * 16 + c / 4) ::
      BitVec.ofNat 8 (c * 64 + d) :: fromBase64Url rest
  | [a, b, c] => [BitVec.ofNat 8 (a * 4 + b / 16), BitVec.ofNat 8 (b * 16 + c / 4)]
  | [a, b] => [BitVec.ofNat 8 (a * 4 + b / 16)]
  | _ => []

/-- `toString('base64url')`, the values of the digits. -/
def toBase64Url : Bytes → List ℕ
  | a :: b :: c :: rest =>
    a.toNat / 4 :: (a.toNat % 4 * 16 + b.toNat / 16) :: (b.toNat % 16 * 4 + c.toNat / 64) ::
      c.toNat % 64 :: toBase64Url rest
  | [a, b] => [a.toNat / 4, a.toNat % 4 * 16 + b.toNat / 16, b.toNat % 16 * 4]
  | [a] => [a.toNat / 4, a.toNat % 4 * 16]
  | [] => []

def decodeBase64Url (value : Text) (maxBytes : ℕ) : Except ExternalCredentialError Bytes := do
  -- a digit that is not one of the alphabet
  let digits ← getOrRevert (value.mapM base64UrlValue) tokenInvalid
  revertIf (value == []) tokenInvalid
  let bytes := fromBase64Url digits
  revertIf (decide (bytes.length < 1) || decide (maxBytes < bytes.length)
    || toBase64Url bytes != digits) tokenInvalid
  return bytes

/-- The fields of the object a segment holds. -/
def parseJsonSegment (J : JsNumbers N) (value : Text) (maxBytes : ℕ) :
    Except ExternalCredentialError (List (Text × Value N)) := do
  let bytes ← decodeBase64Url value maxBytes
  let text ← getOrRevert (Text.decoded bytes) tokenInvalid
  getOrRevert (asObject (parse J.numerals text)) tokenInvalid

/-- The addresses that can have signed `input`, in lower case. -/
def recoverSigner (L : Libraries) (input signatureSegment : Text) :
    Except ExternalCredentialError (List Text) := do
  let bytes ← decodeBase64Url signatureSegment 64
  revertIf (bytes.length != 64) signatureInvalid
  let digest := L.sha256 (Text.utf8 input)
  let even ← getOrRevert (L.recoverAddress digest (bytes.take 32) (bytes.drop 32) false)
    signatureInvalid
  let odd ← getOrRevert (L.recoverAddress digest (bytes.take 32) (bytes.drop 32) true)
    signatureInvalid
  revertIf (even.lower == odd.lower) signatureInvalid
  return [even.lower, odd.lower]

/-- `exactKeys` -/
def exactKeys (fields : List (Text × Value N)) (keys : List String) : Bool :=
  (fields.map Prod.fst).isPerm (keys.map String.toList)

/-- An array of strings. -/
def asTexts : Option (Value N) → Option (List Text)
  | some (.array items) => items.mapM fun v ↦ asText (some v)
  | _ => none

/-! ### `authenticate` -/

structure ProofmarkClaims where
  product : Text
  environment : Text
  assurance : Text
  regime : Text
  jurisdiction : Text
  checks : List Text
  evidenceDigest : Text
  deriving DecidableEq

/-- `ExternalCredentialEnvelopeV1` -/
structure Envelope where
  iss : Text
  aud : Text
  sub : Text
  /-- Opaque provider identifier. -/
  jti : Text
  iat : ℤ
  exp : ℤ
  proofmark : ProofmarkClaims
  credentialDigest : Bytes32
  deriving DecidableEq

def EXTERNAL_CREDENTIAL_SCHEMA : String :=
  "proofmark-external-jwt-v1"

/-- The part of `authenticate` before the claims are looked at: the signed payload. -/
def signedPayload (J : JsNumbers N) (L : Libraries) (config : ExternalCredentialAdapterConfig)
    (token : Text) : Except ExternalCredentialError (List (Text × Value N)) := do
  match token.splitOn '.' with
  | [first, second, third] =>
    let header ← parseJsonSegment J first 2048
    revertIf (!exactKeys header ["alg", "typ", "kid"]
      || fieldText (.object header) "alg" != some "ES256K".toList
      || fieldText (.object header) "typ" != some "JWT".toList
      || fieldText (.object header) "kid" != some config.keyId) headerInvalid
    let recovered ← recoverSigner L (first ++ '.' :: second) third
    revertIf (!recovered.any fun address ↦ same address config.issuerAddress) signatureInvalid
    parseJsonSegment J second 16384
  | _ => .error tokenInvalid

/-- The claims of the provider's own part, and their checks. -/
def proofmarkClaims (config : ExternalCredentialAdapterConfig) (proof : Value N) :
    Except ExternalCredentialError ProofmarkClaims := do
  revertIf (fieldText proof "schema" != some EXTERNAL_CREDENTIAL_SCHEMA.toList
    || fieldText proof "provider" != some config.id
    || fieldText proof "product" != some config.product) payloadInvalid
  let assurance ← getOrRevert (fieldText proof "assurance") payloadInvalid
  let regime ← getOrRevert (fieldText proof "regime") payloadInvalid
  let jurisdiction ← getOrRevert (fieldText proof "jurisdiction") payloadInvalid
  let checks ← getOrRevert (asTexts (proof.get "checks".toList)) payloadInvalid
  let evidenceDigest ← getOrRevert (fieldText proof "evidenceDigest") payloadInvalid
  revertIf (!safeString assurance 100 || !safeString regime 100 || !isCountry jurisdiction
    || decide (64 < checks.length) || !checks.all (fun check ↦ safeString check 100)
    || !decide checks.Nodup || !Text.isHexString evidenceDigest 32
    || same evidenceDigest ZeroHash) payloadInvalid
  revertIf (fieldText proof "environment" != some config.environment) environmentMismatch
  return ⟨config.product, config.environment, assurance, regime, jurisdiction, checks,
    evidenceDigest⟩

def authenticate (J : JsNumbers N) (L : Libraries) (config : ExternalCredentialAdapterConfig)
    (token wallet : Text) (observed : ℤ) : Except ExternalCredentialError Envelope := do
  revertIf (decide (units token < 16) || decide (32768 < units token)
    || !L.isAddress wallet || same wallet ZeroAddress) tokenInvalid
  let value ← signedPayload J L config token
  revertIf (!exactKeys value ["iss", "aud", "sub", "jti", "iat", "exp", "proofmark"]) payloadInvalid
  let proof ← getOrRevert (asObject ((Value.object value).get "proofmark".toList)) payloadInvalid
  revertIf (!exactKeys proof ["schema", "provider", "product", "environment", "assurance",
    "regime", "jurisdiction", "checks", "evidenceDigest"]) payloadInvalid
  revertIf (fieldText (.object value) "iss" != some config.issuerId) issuerMismatch
  revertIf (fieldText (.object value) "aud" != some config.audience) audienceMismatch
  let sub ← getOrRevert (fieldText (.object value) "sub") subjectMismatch
  let subject ← getOrRevert (L.getAddress sub) subjectMismatch
  revertIf (!same sub wallet) subjectMismatch
  let jti ← getOrRevert (fieldText (.object value) "jti") credentialIdInvalid
  revertIf (!Text.isHexString jti 32 || same jti ZeroHash) credentialIdInvalid
  let iat ← getOrRevert (J.fieldInt (.object value) "iat") timeInvalid
  let exp ← getOrRevert (J.fieldInt (.object value) "exp") timeInvalid
  revertIf (decide (iat < 1) || decide (exp ≤ iat)) timeInvalid
  revertIf (!isSafeInteger observed || decide (observed < 1)) clockInvalid
  revertIf (decide (observed < iat)) issuedInFuture
  revertIf (decide (exp ≤ observed) || decide (iat + config.maxCredentialAgeSeconds ≤ observed))
    credentialExpired
  let claims ← proofmarkClaims config (.object proof)
  return ⟨config.issuerId, config.audience, subject, jti, iat, exp, claims,
    keccak256 (Text.utf8 token)⟩

/-! ### `normalize` -/

/-- `NormalizedExternalCredentialV1`, whose schema and claims root are constants. -/
structure NormalizedCredential where
  subject : Text
  issuer : Text
  methods : ℤ
  assurance : ℤ
  regime : ℤ
  jurisdiction : ℤ
  issuedAt : ℤ
  expiry : ℤ
  providerCredentialIdHash : Bytes32
  evidenceHash : Bytes32
  requestId : Bytes32
  attrs : Text
  deriving DecidableEq

/-- The mask of the checks that are configured. -/
def methodsOf (config : ExternalCredentialAdapterConfig) (checks : List Text) : ℤ :=
  checks.foldl (fun mask check ↦ Numeric.Int32.or mask ((config.methods.lookup check).getD 0)) 0

/-- What the hash of a provider's identifier is made of. -/
def idText (config : ExternalCredentialAdapterConfig) (jti : Text) : Text :=
  config.id ++ Char.ofNat 0 :: jti

/-- `providerCredentialIdHash` -/
def idHash (L : Libraries) (config : ExternalCredentialAdapterConfig) (jti : Text) : Bytes32 :=
  L.hmacSha256 config.credentialIdHmacKey (Text.utf8 (idText config jti))

/-- `requestId` -/
def requestIdOf (L : Libraries) (config : ExternalCredentialAdapterConfig) (jti : Text) : Bytes32 :=
  keccak256 (wordBytes (idHash L config jti) ++
    wordBytes (keccak256 (Text.utf8 config.publication.sourceIssuer)))

/-- `normalize`, of an envelope of `authenticate`. -/
def normalize (L : Libraries) (config : ExternalCredentialAdapterConfig) (envelope : Envelope) :
    Except ExternalCredentialError NormalizedCredential := do
  let assurance ← getOrRevert (config.assurance.lookup envelope.proofmark.assurance)
    assuranceUnsupported
  let regime ← getOrRevert (config.regimes.lookup envelope.proofmark.regime) regimeUnsupported
  let jurisdiction ← getOrRevert (config.jurisdictions.lookup envelope.proofmark.jurisdiction)
    jurisdictionUnsupported
  revertIf (!config.requiredChecks.all fun required ↦ envelope.proofmark.checks.contains required)
    requiredCheckMissing
  let methods := methodsOf config envelope.proofmark.checks
  let expiry := min envelope.exp (envelope.iat + config.maxCredentialAgeSeconds)
  let packed ← (packAttrs ⟨1, assurance, regime, jurisdiction, methods, envelope.iat, expiry,
    0⟩).mapError ExternalCredentialError.attrs
  return ⟨envelope.sub, (L.getAddress config.publication.sourceIssuer).getD [], methods, assurance,
    regime, jurisdiction, envelope.iat, expiry, idHash L config envelope.jti,
    envelope.credentialDigest, requestIdOf L config envelope.jti, packed⟩

/-! ### `status` and `consume` -/

/-- What the status client does. -/
inductive StatusAnswer
  | answered (status : Text)
  /-- it raises an error of the adapter's own kind, which is passed on -/
  | refused (e : ExternalCredentialError)
  | raised
  deriving DecidableEq

def status (credentialId : Text) (answer : StatusAnswer) : Except ExternalCredentialError Text := do
  revertIf (!Text.isHexString credentialId 32 || same credentialId ZeroHash) credentialIdInvalid
  match answer with
  | .answered status =>
    revertIf (! ["active", "revoked", "expired", "unknown"].any fun known ↦
      status == known.toList) providerResponseInvalid
    return status
  | .refused e => .error e
  | .raised => .error providerUnavailable

/-- `InMemoryCredentialReplayStore` -/
abbrev ReplayStore := Bytes32 → Option Bytes32

inductive Replay
  | fresh
  | duplicate
  | conflict
  deriving DecidableEq

/-- Must atomically distinguish a byte-identical retry from a reused provider credential id. -/
def claim (store : ReplayStore) (requestId credentialDigest : Bytes32) : Replay × ReplayStore :=
  match store requestId with
  | none => (.fresh, Function.update store requestId (some credentialDigest))
  | some existing => (if existing = credentialDigest then .duplicate else .conflict, store)

inductive Consumed
  | active (replay : Replay) (requestId : Bytes32) (credential : NormalizedCredential)
  | revoked (requestId : Bytes32) (subject : Text)
      (providerCredentialIdHash evidenceHash : Bytes32)
  deriving DecidableEq

/-- One call of `consume`: its arguments, the clock before and after the status answer, and the
answer. -/
structure Call where
  raw : Text
  wallet : Text
  observed : ℤ
  later : ℤ
  answer : StatusAnswer

/-- What `consume` decides before it asks the store. -/
inductive Admission
  | revoked (credential : NormalizedCredential)
  | claims (credential : NormalizedCredential)

def admission (J : JsNumbers N) (L : Libraries) (config : ExternalCredentialAdapterConfig)
    (call : Call) : Except ExternalCredentialError Admission := do
  let envelope ← authenticate J L config call.raw call.wallet call.observed
  let credential ← normalize L config envelope
  let current ← status envelope.jti call.answer
  revertIf (current == "unknown".toList) statusUnknown
  if current = "revoked".toList ∨ current = "expired".toList then return .revoked credential
  revertIf (decide (credential.expiry ≤ call.later)) credentialExpired
  return .claims credential

def consume (J : JsNumbers N) (L : Libraries) (config : ExternalCredentialAdapterConfig)
    (store : ReplayStore) (call : Call) :
    Except ExternalCredentialError Consumed × ReplayStore :=
  match admission J L config call with
  | .error e => (.error e, store)
  | .ok (.revoked credential) =>
    (.ok (.revoked credential.requestId credential.subject credential.providerCredentialIdHash
      credential.evidenceHash), store)
  | .ok (.claims credential) =>
    let (replay, store') := claim store credential.requestId credential.evidenceHash
    match replay with
    | .conflict => (.error replayConflict, store')
    | replay => (.ok (.active replay credential.requestId credential), store')

/-- The calls with their results, in the order in which they reach the store. -/
def outcomes (J : JsNumbers N) (L : Libraries) (config : ExternalCredentialAdapterConfig) :
    ReplayStore → List Call → List (Call × Except ExternalCredentialError Consumed)
  | _, [] => []
  | store, call :: calls =>
    (call, (consume J L config store call).1) ::
      outcomes J L config (consume J L config store call).2 calls

end Proofmark.Pipeline.ExternalCredential
