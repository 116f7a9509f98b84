import Proofmark.Pipeline.Json

/-!
# Sumsub evidence and the callback fence

`sumsub.ts`. A status answer of the provider becomes an evidence candidate (`evaluate`). A signed
callback may only make it less permissive: a restrictive one sets a fence at its event time
(`applySumsubWebhookFence`), and `retainSumsubWebhookFence` holds a fence until the provider's
review time has reached it.
-/

namespace Proofmark.Sumsub

open Pipeline (Text)

inductive SumsubDecision
  | notStarted | review | approved | rejected
  deriving DecidableEq

/-- How restrictive a decision is. -/
def SumsubDecision.rank : SumsubDecision → ℕ
  | approved => 0
  | notStarted => 1
  | review => 1
  | rejected => 2

theorem SumsubDecision.rank_eq_zero {d : SumsubDecision} : d.rank = 0 ↔ d = .approved := by
  cases d <;> simp [rank]

/-- `REVIEW_STATUSES` -/
inductive ReviewStatus
  | init | pending | queued | awaitingService | awaitingUser | onHold | prechecked | completed
  deriving DecidableEq

inductive ReviewAnswer
  | green | red
  deriving DecidableEq

inductive RejectType
  | final | retry
  deriving DecidableEq

/-- `WEBHOOK_TYPES` -/
inductive WebhookType
  | applicantCreated | applicantPending | applicantOnHold | applicantReviewed
  deriving DecidableEq

inductive ReviewMode
  | ongoingAml | ongoingDocExpired
  deriving DecidableEq

structure SumsubWebhook where
  applicantId : Text
  type : WebhookType
  createdAtMs : ℕ
  digest : Text
  testMode : Bool
  reviewStatus : Option ReviewStatus
  reviewMode : Option ReviewMode
  reviewAnswer : Option ReviewAnswer
  reviewRejectType : Option RejectType
  deriving DecidableEq

inductive FenceReason
  | ongoingReview | providerRejection
  deriving DecidableEq

structure WebhookFence where
  eventAt : ℕ
  type : WebhookType
  reason : FenceReason
  deriving DecidableEq

inductive EnvironmentEvidence
  | configuredCredentials | signedWebhook
  deriving DecidableEq

/-- `SumsubEvidenceCandidate`, less what binds it to the session and its own hash. -/
structure Evidence where
  environmentEvidence : EnvironmentEvidence
  applicantIdHash : Text
  methods : ℕ
  methodNames : List Text
  decision : SumsubDecision
  reviewStatus : ReviewStatus
  reviewAnswer : Option ReviewAnswer
  reviewRejectType : Option RejectType
  observedAt : ℕ
  providerReviewedAt : Option ℕ
  webhookFence : Option WebhookFence
  deriving DecidableEq

/-! ### Status answers -/

/-- What the provider's two status requests say of the applicant. -/
structure StatusAnswer where
  applicantId : Text
  reviewStatus : ReviewStatus
  reviewAnswer : Option ReviewAnswer
  reviewRejectType : Option RejectType
  reviewDate : Option ℕ

def StatusAnswer.decision (status : StatusAnswer) : SumsubDecision :=
  match status.reviewStatus, status.reviewAnswer with
  | .init, _ => .notStarted
  | .completed, some .green => .approved
  | .completed, some .red => if status.reviewRejectType = some .final then .rejected else .review
  | _, _ => .review

/-- `evaluate` -/
def evaluate (keyedHash : Text → Text) (now : ℕ) (status : StatusAnswer) : Evidence where
  environmentEvidence := .configuredCredentials
  applicantIdHash := keyedHash status.applicantId
  methods := 0
  methodNames := []
  decision := status.decision
  reviewStatus := status.reviewStatus
  reviewAnswer := status.reviewAnswer
  reviewRejectType := status.reviewRejectType
  observedAt := now
  providerReviewedAt := status.reviewDate
  webhookFence := none

/-! ### The fence of a callback -/

/-- A callback that says a review goes on. -/
def SumsubWebhook.ongoing (webhook : SumsubWebhook) : Bool :=
  webhook.type = .applicantPending || webhook.type = .applicantOnHold ||
    webhook.reviewStatus.any (fun status ↦ status ≠ .completed) || webhook.reviewMode.isSome

/-- A callback that sets a fence. -/
def SumsubWebhook.restrictive (webhook : SumsubWebhook) : Bool :=
  webhook.ongoing || webhook.reviewAnswer = some .red

/-- The decision that a restrictive callback stands for. -/
def SumsubWebhook.ownDecision (webhook : SumsubWebhook) : SumsubDecision :=
  if webhook.ongoing then .review
  else if webhook.reviewRejectType = some .final then .rejected
  else .review

/-- The fence that a callback sets. -/
def SumsubWebhook.fence (webhook : SumsubWebhook) : Option WebhookFence :=
  if webhook.ongoing then some ⟨webhook.createdAtMs, webhook.type, .ongoingReview⟩
  else if webhook.reviewAnswer = some .red then
    some ⟨webhook.createdAtMs, webhook.type, .providerRejection⟩
  else none

def applySumsubWebhookFence (current : Evidence) (webhook : SumsubWebhook) : Evidence :=
  { current with
    environmentEvidence := .signedWebhook
    decision := if webhook.restrictive then webhook.ownDecision else current.decision
    methods := 0
    methodNames := []
    webhookFence := webhook.fence.or current.webhookFence }

/-- The provider reviewed at or after a time. -/
def Evidence.reviewedSince (e : Evidence) (time : ℕ) : Bool :=
  e.providerReviewedAt.any fun reviewedAt ↦ time ≤ reviewedAt

def retainSumsubWebhookFence (current : Evidence) (previous : Option Evidence) : Evidence :=
  match previous with
  | none => current
  | some previous =>
    match previous.webhookFence with
    | none => current
    | some fence =>
      if current.reviewedSince fence.eventAt then current
      else
        { current with
          decision := previous.decision
          methods := 0
          methodNames := []
          webhookFence := some fence }

/-! ### What the fence functions do -/

section Laws

variable {current : Evidence} {previous : Option Evidence} {webhook : SumsubWebhook}

theorem SumsubWebhook.rank_ownDecision_pos : 0 < webhook.ownDecision.rank := by
  unfold ownDecision
  split_ifs <;> exact Nat.succ_pos _

/-- A restrictive callback sets the fence at its own time, and no other callback sets one. -/
theorem SumsubWebhook.fence_eventAt :
    webhook.fence.map WebhookFence.eventAt =
      if webhook.restrictive then some webhook.createdAtMs else none := by
  unfold fence restrictive
  cases hongoing : webhook.ongoing with
  | true => simp
  | false => by_cases hred : webhook.reviewAnswer = some .red <;> simp [hred]

theorem SumsubWebhook.fence_eq_none (h : webhook.restrictive = false) : webhook.fence = none := by
  simpa [h] using webhook.fence_eventAt

@[simp]
theorem reviewedSince_apply (time : ℕ) :
    (applySumsubWebhookFence current webhook).reviewedSince time = current.reviewedSince time :=
  rfl

theorem Evidence.reviewedSince_of_le {time time' : ℕ} (hle : time ≤ time')
    (h : current.reviewedSince time' = true) : current.reviewedSince time = true := by
  unfold reviewedSince at h ⊢
  cases hat : current.providerReviewedAt with
  | none => simp [hat] at h
  | some reviewedAt =>
    have hreviewed : time' ≤ reviewedAt := by simpa [hat] using h
    simpa using hle.trans hreviewed

/-- The fences of a previous observation that an observation does not reach. -/
def Evidence.heldBy (e : Evidence) (previous : Option Evidence) : Option WebhookFence :=
  (previous.bind Evidence.webhookFence).filter fun fence ↦ !e.reviewedSince fence.eventAt

theorem heldBy_eq_some {fence : WebhookFence} :
    current.heldBy previous = some fence ↔ ∃ p, previous = some p ∧ p.webhookFence = some fence ∧
      current.reviewedSince fence.eventAt = false := by
  cases previous <;> simp [Evidence.heldBy, Option.filter_eq_some_iff]

/-- Where no fence holds it, an observation is stored as it is. -/
theorem retain_of_heldBy_eq_none (h : current.heldBy previous = none) :
    retainSumsubWebhookFence current previous = current := by
  rcases previous with - | p
  · rfl
  · rcases hfence : p.webhookFence with - | fence
    · simp [retainSumsubWebhookFence, hfence]
    · have hsince : current.reviewedSince fence.eventAt = true := by
        simpa [Evidence.heldBy, hfence] using h
      simp [retainSumsubWebhookFence, hfence, hsince]

/-- A fence that holds keeps the previous decision, and itself. -/
theorem retain_of_heldBy {fence : WebhookFence} (h : current.heldBy previous = some fence) :
    ∃ p, previous = some p ∧ p.webhookFence = some fence ∧
      (retainSumsubWebhookFence current previous).decision = p.decision ∧
      (retainSumsubWebhookFence current previous).webhookFence = some fence := by
  obtain ⟨p, rfl, hfence, hsince⟩ := heldBy_eq_some.1 h
  exact ⟨p, rfl, hfence, by simp [retainSumsubWebhookFence, hfence, hsince]⟩

@[simp]
theorem reviewedSince_retain (time : ℕ) :
    (retainSumsubWebhookFence current previous).reviewedSince time =
      current.reviewedSince time := by
  rcases h : current.heldBy previous with - | fence
  · rw [retain_of_heldBy_eq_none h]
  · obtain ⟨p, rfl, hfence, hsince⟩ := heldBy_eq_some.1 h
    simp only [retainSumsubWebhookFence, hfence, hsince, Bool.false_eq_true, if_false]
    rfl

/-- Behind a fence nothing is approved. -/
def Evidence.Fenced (e : Evidence) : Prop :=
  e.webhookFence.isSome → e.decision ≠ .approved

theorem fenced_evaluate (keyedHash : Text → Text) (now : ℕ) (status : StatusAnswer) :
    (evaluate keyedHash now status).Fenced :=
  nofun

theorem fenced_apply (h : current.Fenced) : (applySumsubWebhookFence current webhook).Fenced := by
  intro hfence
  cases hrestrictive : webhook.restrictive with
  | true =>
    have hpos := webhook.rank_ownDecision_pos
    simp only [applySumsubWebhookFence, hrestrictive, if_true]
    exact fun hd ↦ hpos.ne' (SumsubDecision.rank_eq_zero.2 hd)
  | false =>
    simp only [applySumsubWebhookFence, webhook.fence_eq_none hrestrictive, Option.none_or]
      at hfence
    simpa [applySumsubWebhookFence, hrestrictive] using h hfence

theorem fenced_retain (h : current.Fenced) (hprevious : ∀ p ∈ previous, p.Fenced) :
    (retainSumsubWebhookFence current previous).Fenced := by
  rcases hheld : current.heldBy previous with - | fence
  · rwa [retain_of_heldBy_eq_none hheld]
  · obtain ⟨p, rfl, hfence, hdecision, -⟩ := retain_of_heldBy hheld
    intro _
    rw [hdecision]
    exact hprevious p rfl (by simp [hfence])

end Laws

end Proofmark.Sumsub
