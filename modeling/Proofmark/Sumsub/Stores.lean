import Proofmark.Sumsub.Evidence
import Proofmark.Async.Program
import Mathlib.Data.List.Sort

/-!
# The two Sumsub state stores and their callers

`sumsub-state.ts`, `sumsub-redis.ts` and the two calls of `sumsub-server.ts`, for one session.
A status read evaluates the provider's answer and saves it under the fence it found; a callback
does the same with the fence of its own. Both stores check the revision of the record that was
read; they differ in how they know the newest callback, and in who merges the fence at the write.

Each write is entered in a ghost log with the observation it comes from, the observation that the
caller had read and the one that was stored.
-/

open Async

namespace Proofmark.Sumsub

open Pipeline (Text)

/-! ### What is stored -/

/-- `SumsubSessionRecord`; `binding` is what never changes in it. -/
structure SessionRecord where
  revision : ℕ
  binding : Text
  latest : Option Evidence
  deriving DecidableEq

/-- A callback that the in-memory store has accepted. -/
structure ClaimedWebhook where
  digest : Text
  eventAt : ℕ
  applicantId : Text
  deriving DecidableEq

/-- The hash of Redis beside the sealed record. -/
structure LatestHash where
  revision : ℕ
  applicant : Option Text
  eventAt : ℕ
  deriving DecidableEq

/-- What a write comes from: a status read, or a callback. -/
inductive Origin
  | status
  | webhook (webhook : SumsubWebhook)
  deriving DecidableEq

/-- Where a write comes from: the observation that was fetched, and the one that the record had
when its caller read it. -/
structure Provenance where
  origin : Origin
  fetched : Evidence
  seen : Option Evidence
  deriving DecidableEq

/-- An entry of the log: a write, and what it replaced. -/
structure Write extends Provenance where
  held : Option Evidence
  deriving DecidableEq

/-- The session in a store: its record, the accepted callbacks of the in-memory store, the event
keys and the hash of Redis, and the log, newest first. -/
structure State where
  record : Option SessionRecord
  webhooks : List ClaimedWebhook
  events : List Text
  latest : LatestHash
  log : List Write
  deriving DecidableEq

/-- A new record in place of one, in the log as well. -/
def State.put (s : State) (from_ : Provenance) (held record : SessionRecord) : State :=
  { s with record := some record, log := ⟨from_, held.latest⟩ :: s.log }

inductive WebhookClaim
  | fresh | duplicate | stale | conflict
  deriving DecidableEq

/-! ### `InMemorySumsubStateStore` -/

namespace InMemory

def saveObservation (from_ : Provenance) (evidence : Evidence) (expectedRevision : ℕ) (s : State) :
    Except String Evidence × State :=
  match s.record with
  | none => (.error "SUMSUB_SESSION_NOT_FOUND", s)
  | some value =>
    if value.revision ≠ expectedRevision then (.error "SUMSUB_REVISION_CONFLICT", s)
    else
      let merged := retainSumsubWebhookFence evidence value.latest
      let fenceAt := (value.latest.bind Evidence.webhookFence).map WebhookFence.eventAt
      let mergedAt := merged.webhookFence.map WebhookFence.eventAt
      -- A callback newer than the review cannot be cleared by a stale concurrent status write.
      if fenceAt.isSome ∧ mergedAt ≠ fenceAt ∧
          evidence.providerReviewedAt.getD 0 < fenceAt.getD 0 then
        (.error "SUMSUB_STATUS_FENCED", s)
      else
        (.ok merged, s.put from_ value
          { value with latest := some merged, revision := value.revision + 1 })

/-- The newest accepted callback. -/
def newest (webhooks : List ClaimedWebhook) : Option ClaimedWebhook :=
  (webhooks.mergeSort fun a b ↦ b.eventAt ≤ a.eventAt).head?

def claimWebhook (digest : Text) (eventAt : ℕ) (applicantId : Text) (s : State) :
    WebhookClaim × State :=
  if s.record.isNone then (.conflict, s)
  else if s.webhooks.any fun claimed ↦ claimed.digest = digest then (.duplicate, s)
  else if (newest s.webhooks).any fun latest ↦ latest.applicantId ≠ applicantId then (.conflict, s)
  else if (newest s.webhooks).any fun latest ↦ eventAt ≤ latest.eventAt then (.stale, s)
  else (.fresh, { s with webhooks := s.webhooks ++ [⟨digest, eventAt, applicantId⟩] })

def applyWebhook (from_ : Provenance) (digest : Text) (eventAt : ℕ) (applicantId : Text)
    (evidence : Evidence) (s : State) : Except String WebhookClaim × State :=
  match claimWebhook digest eventAt applicantId s with
  | (.fresh, s) =>
    match s.record with
    | none => (.error "TypeError", s)
    | some value =>
      (.ok .fresh, s.put from_ value
        { value with
          latest := some (retainSumsubWebhookFence evidence value.latest)
          revision := value.revision + 1 })
  | (claim, s) => (.ok claim, s)

end InMemory

/-! ### `LUA` -/

inductive SaveReply
  | missing | revisionConflict | fenced | ok
  deriving DecidableEq

def luaSave (from_ : Provenance) (sealed : SessionRecord) (reviewedAt carriedFence revision : ℕ)
    (s : State) : SaveReply × State :=
  match s.record with
  | none => (.missing, s)
  | some old =>
    if s.latest.revision ≠ revision then (.revisionConflict, s)
    else if reviewedAt < s.latest.eventAt ∧ carriedFence < s.latest.eventAt then (.fenced, s)
    else
      (.ok, { s.put from_ old sealed with
        latest := { s.latest with revision := s.latest.revision + 1 } })

inductive WebhookReply
  | revisionConflict
  | claim (claim : WebhookClaim)
  deriving DecidableEq

def luaWebhook (from_ : Provenance) (digest : Text) (eventAt : ℕ) (applicantId : Text)
    (sealed : SessionRecord) (revision : ℕ) (s : State) : WebhookReply × State :=
  match s.record with
  | none => (.claim .conflict, s)
  | some old =>
    if digest ∈ s.events then (.claim .duplicate, s)
    else if s.latest.revision ≠ revision then (.revisionConflict, s)
    else if s.latest.applicant.any fun applicant ↦ applicant ≠ applicantId then
      (.claim .conflict, s)
    else if eventAt ≤ s.latest.eventAt then (.claim .stale, s)
    else
      (.claim .fresh, { s.put from_ old sealed with
        events := digest :: s.events
        latest := ⟨s.latest.revision + 1, some applicantId, eventAt⟩ })

/-! ### The calls -/

/-- What a call awaits: the provider, its store, or only its turn. -/
inductive Wait
  | provider | store | turn
  deriving DecidableEq

/-- The fate of a request to Redis. -/
inductive Link
  | answered | lost | unsent
  deriving DecidableEq

/-- The answers; without one from the provider, `evaluate` throws. -/
abbrev Wait.Answer : Wait → Type
  | provider => Option (StatusAnswer × ℕ)
  | store => Link
  | turn => Unit

abbrev Call (β : Type) := Program State String Wait.Answer β

/-- `run`: a script may have run although its reply is lost. -/
def runScript {β : Type} (script : State → β × State) : Call β := do
  match ← Program.request Wait.store with
  | .answered => Program.call fun s ↦ (.ok (script s).1, (script s).2)
  | .lost => Program.call fun s ↦ (.error "SUMSUB_STATE_UNAVAILABLE", (script s).2)
  | .unsent => throw "SUMSUB_STATE_UNAVAILABLE"

/-- The two implementations of `SumsubStateStore`. -/
inductive StoreKind
  | inMemory | redis
  deriving DecidableEq

namespace StoreKind

def load : StoreKind → Call (Option SessionRecord)
  | inMemory => do
    let _ ← Program.request Wait.turn
    let s ← Program.get
    return s.record
  | redis => runScript fun s ↦ (s.record, s)

def saveObservation (from_ : Provenance) (evidence : Evidence) (expectedRevision : ℕ) :
    StoreKind → Call Evidence
  | inMemory => do
    let _ ← Program.request Wait.turn
    Program.call (InMemory.saveObservation from_ evidence expectedRevision)
  | redis => do
    match ← load redis with
    | none => throw "SUMSUB_SESSION_NOT_FOUND"
    | some record => do
      if record.revision ≠ expectedRevision then throw "SUMSUB_REVISION_CONFLICT" else
      let sealed := { record with latest := some evidence, revision := expectedRevision + 1 }
      match ← runScript (luaSave from_ sealed (evidence.providerReviewedAt.getD 0)
        ((evidence.webhookFence.map WebhookFence.eventAt).getD 0) expectedRevision) with
      | .fenced => throw "SUMSUB_STATUS_FENCED"
      | .revisionConflict => throw "SUMSUB_REVISION_CONFLICT"
      | .missing => throw "SUMSUB_SESSION_NOT_FOUND"
      | .ok => return evidence

/-- The attempts of `RedisSumsubStateStore.applyWebhook`. -/
def applyWebhookRedis (from_ : Provenance) (digest : Text) (eventAt : ℕ) (applicantId : Text)
    (evidence : Evidence) : ℕ → Call WebhookClaim
  | 0 => throw "SUMSUB_REVISION_CONFLICT"
  | attempts + 1 => do
    match ← load redis with
    | none => return .conflict
    | some record => do
      let sealed := { record with
        latest := some (retainSumsubWebhookFence evidence record.latest)
        revision := record.revision + 1 }
      match ← runScript (luaWebhook from_ digest eventAt applicantId sealed record.revision) with
      | .revisionConflict =>
        applyWebhookRedis from_ digest eventAt applicantId evidence attempts
      | .claim claim => return claim

def applyWebhook (from_ : Provenance) (digest : Text) (eventAt : ℕ) (applicantId : Text)
    (evidence : Evidence) : StoreKind → Call WebhookClaim
  | inMemory => do
    let _ ← Program.request Wait.turn
    Program.call (InMemory.applyWebhook from_ digest eventAt applicantId evidence)
  | redis => applyWebhookRedis from_ digest eventAt applicantId evidence 3

end StoreKind

/-- The server's client: the keyed hash of its evidence, and the checks of a record against the
wallet's tokens and against the policies of the day. -/
structure Client where
  keyedHash : Text → Text
  assertRecord : Text → Bool
  authorizeStoredRecord : Text → Bool

namespace Client

variable (client : Client) (kind : StoreKind)

/-- `client.evaluate` -/
def fetch : Call Evidence := do
  match ← Program.request Wait.provider with
  | none => throw "SUMSUB_UNAVAILABLE"
  | some (status, now) => return evaluate client.keyedHash now status

def currentSumsubStatus : Call Evidence := do
  match ← kind.load with
  | none => throw "Sumsub session is unavailable"
  | some record => do
    if !client.assertRecord record.binding then throw "Sumsub session binding mismatch" else
    let fetched ← client.fetch
    let current := retainSumsubWebhookFence fetched record.latest
    kind.saveObservation ⟨.status, fetched, record.latest⟩ current record.revision

structure Acceptance where
  accepted : Bool
  reason : Option String
  status : Option SumsubDecision

/-- What follows a claim. -/
def acknowledge : WebhookClaim → Call Acceptance
  | .duplicate => return ⟨false, some "duplicate", none⟩
  | .stale => return ⟨false, some "stale", none⟩
  | .conflict => throw "SUMSUB_WEBHOOK_CONFLICT"
  | .fresh => do
    match (← kind.load).bind SessionRecord.latest with
    | none => throw "SUMSUB_STATE_UNAVAILABLE"
    | some latest => return ⟨true, none, some latest.decision⟩

/-- `acceptSumsubWebhook`, for a callback whose signature is verified. -/
def acceptSumsubWebhook (webhook : SumsubWebhook) : Call Acceptance := do
  if webhook.testMode then return ⟨false, some "test", none⟩ else
  match ← kind.load with
  | none => throw "SUMSUB_WEBHOOK_SUBJECT_UNKNOWN"
  | some record => do
    if !client.authorizeStoredRecord record.binding then throw "TokenError" else
    let fetched ← client.fetch
    if fetched.applicantIdHash ≠ client.keyedHash webhook.applicantId then
      throw "SUMSUB_WEBHOOK_APPLICANT_MISMATCH"
    else
    let current :=
      retainSumsubWebhookFence (applySumsubWebhookFence fetched webhook) record.latest
    let claim ← kind.applyWebhook ⟨.webhook webhook, fetched, record.latest⟩ webhook.digest
      webhook.createdAtMs fetched.applicantIdHash current
    acknowledge kind claim

end Client

/-- Status reads and callbacks in any number and order, on one session; Redis may let it expire. -/
def sessionSystem (kind : StoreKind) : Async.System State String Wait.Answer ℕ where
  starts _ t := ∃ client : Client,
    (t = do
      let _ ← client.currentSumsubStatus kind
      return ()) ∨
    ∃ webhook, t = do
      let _ ← client.acceptSumsubWebhook kind webhook
      return ()
  answers _ _ _ := True
  env s s' := kind = .redis ∧ s' = { s with record := none }
  crash s s' := s' = s

/-- A session that has just been created. Of an earlier one, Redis may still have callbacks. -/
structure Created (s : State) : Prop where
  record : ∃ binding, s.record = some ⟨1, binding, none⟩
  revision : s.latest.revision = 1
  log : s.log = []

end Proofmark.Sumsub
