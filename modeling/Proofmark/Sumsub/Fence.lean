import Proofmark.Sumsub.Stores

/-!
# The callback fence over histories of writes

What any order of status reads and callbacks can make of a session is a `History`: each write
merges the observation it fetched under the fence its caller had read and under the stored one. A
restrictive callback opens a fence that later writes must hold until a review reaches it.

The fence can be lost. A restrictive callback whose own status answer does not reach an older fence
is stored with that older fence and its decision. And once a fence is cleared, an older approving
status answer is stored as it comes. `regular` names the writes where neither happens, and a
history of regular writes keeps the fence: `held` and `approved` below.
-/

namespace Proofmark.Sumsub

/-! ### Histories of writes -/

namespace Write

variable (w : Write)

/-- The observation with which its caller came to the merge. -/
def claimed : Evidence :=
  match w.origin with
  | .status => w.fetched
  | .webhook webhook => applySumsubWebhookFence w.fetched webhook

/-- What the write stores. -/
def stored : Evidence :=
  retainSumsubWebhookFence (retainSumsubWebhookFence w.claimed w.seen) w.held

/-- The restrictive callback that the write is. -/
def fences : Option SumsubWebhook :=
  match w.origin with
  | .status => none
  | .webhook webhook => if webhook.restrictive then some webhook else none

/-- The status answer of the write reviewed at or after a time. -/
def reviewedSince (time : ℕ) : Bool :=
  w.fetched.reviewedSince time

/-- A fence that was read or stored holds the write's status answer. -/
def blocked : Bool :=
  (w.fetched.heldBy w.seen).isSome || (w.fetched.heldBy w.held).isSome

end Write

/-- The stored observation after some writes, newest first. -/
def latestOf : List Write → Option Evidence
  | [] => none
  | w :: _ => some w.stored

/-- A write that can come after some others. -/
structure Write.Follows (w : Write) (log : List Write) : Prop where
  held : w.held = latestOf log
  seen : ∃ older, older <:+ log ∧ w.seen = latestOf older
  status : w.origin = .status → w.seen = w.held
  fetched : w.fetched.webhookFence = none
  later : ∀ webhook, w.origin = .webhook webhook → ∀ w' ∈ log, ∀ webhook',
    w'.origin = .webhook webhook' → webhook'.createdAtMs < webhook.createdAtMs

inductive History : List Write → Prop
  | nil : History []
  | cons {w : Write} {log : List Write} (h : History log) (hw : w.Follows log) : History (w :: log)

/-- The newest restrictive callback, and whether a later write has reached it. -/
def newestFence : List Write → Option (SumsubWebhook × Bool)
  | [] => none
  | w :: log =>
    match w.fences with
    | some webhook => some (webhook, false)
    | none => (newestFence log).map fun (webhook, answered) ↦
      (webhook, answered || w.reviewedSince webhook.createdAtMs)

/-- A restrictive callback comes with a status answer that no fence holds. Once the newest
restrictive callback has been reached, an approving answer reaches it too, unless a fence holds
it. -/
def Write.regular (w : Write) (log : List Write) : Bool :=
  match w.fences with
  | some _ => !w.blocked
  | none =>
    w.fetched.decision ≠ .approved || w.blocked ||
      (newestFence log).all fun (webhook, answered) ↦
        !answered || w.reviewedSince webhook.createdAtMs

def regular : List Write → Bool
  | [] => true
  | w :: log => w.regular log && regular log

/-! ### What a write stores -/

attribute [local grind =] Write.claimed Write.stored Write.fences

section Stored

variable {w : Write} {log : List Write} {webhook : SumsubWebhook} {time : ℕ}

theorem reviewedSince_claimed : w.claimed.reviewedSince time = w.reviewedSince time := by
  unfold Write.claimed
  split <;> rfl

theorem heldBy_claimed (previous : Option Evidence) :
    w.claimed.heldBy previous = w.fetched.heldBy previous := by
  simp [Evidence.heldBy, reviewedSince_claimed, Write.reviewedSince]

theorem heldBy_retain (e : Evidence) (previous previous' : Option Evidence) :
    (retainSumsubWebhookFence e previous).heldBy previous' = e.heldBy previous' := by
  simp [Evidence.heldBy]

@[simp]
theorem reviewedSince_stored : w.stored.reviewedSince time = w.reviewedSince time := by
  simp [Write.stored, reviewedSince_claimed]

/-- A write that no fence holds stores what its caller came with. -/
theorem stored_of_not_blocked (h : w.blocked = false) : w.stored = w.claimed := by
  simp only [Write.blocked, Bool.or_eq_false_iff, Option.isSome_eq_false_iff,
    Option.isNone_iff_eq_none] at h
  have hseen : w.claimed.heldBy w.seen = none := by rw [heldBy_claimed, h.1]
  have hheld : w.claimed.heldBy w.held = none := by rw [heldBy_claimed, h.2]
  rw [Write.stored, retain_of_heldBy_eq_none hseen, retain_of_heldBy_eq_none hheld]

/-- A write that the stored fence holds keeps the stored decision and fence. -/
theorem stored_of_heldBy {fence : WebhookFence} (h : w.fetched.heldBy w.held = some fence) :
    ∃ p, w.held = some p ∧ p.webhookFence = some fence ∧ w.stored.decision = p.decision ∧
      w.stored.webhookFence = some fence := by
  refine retain_of_heldBy ?_
  rw [heldBy_retain, heldBy_claimed, h]

/-- A write that some fence holds stores a fence. -/
theorem stored_of_blocked (h : w.blocked = true) : w.stored.webhookFence.isSome = true := by
  rcases hheld : w.fetched.heldBy w.held with - | fence
  case some =>
    obtain ⟨-, -, -, -, hkept⟩ := stored_of_heldBy hheld
    rw [hkept, Option.isSome_some]
  case none =>
    rcases hseen : w.fetched.heldBy w.seen with - | fence
    case none => simp [Write.blocked, hheld, hseen] at h
    case some =>
      have hstored : w.stored = retainSumsubWebhookFence w.claimed w.seen :=
        retain_of_heldBy_eq_none (by rw [heldBy_retain, heldBy_claimed, hheld])
      obtain ⟨-, -, -, -, hkept⟩ := retain_of_heldBy ((heldBy_claimed w.seen).trans hseen)
      rw [hstored, hkept, Option.isSome_some]

theorem fences_eq_some :
    w.fences = some webhook ↔ w.origin = .webhook webhook ∧ webhook.restrictive = true := by
  unfold Write.fences
  cases w.origin with
  | status => simp
  | webhook webhook' =>
    by_cases h : webhook'.restrictive = true
    · simp only [h, if_true, Option.some.injEq, Origin.webhook.injEq]
      exact ⟨fun heq ↦ ⟨heq, heq ▸ h⟩, fun heq ↦ heq.1⟩
    · simp only [h, Bool.false_eq_true, if_false, Origin.webhook.injEq, reduceCtorEq, false_iff]
      exact fun heq ↦ h (heq.1 ▸ heq.2)

/-- A restrictive callback that no fence holds is stored with its own decision and fence. -/
theorem stored_of_fences (hw : w.fences = some webhook) (h : w.blocked = false) :
    w.stored.decision = webhook.ownDecision ∧
      w.stored.webhookFence.map WebhookFence.eventAt = some webhook.createdAtMs := by
  obtain ⟨horigin, hrestrictive⟩ := fences_eq_some.1 hw
  have hfence := webhook.fence_eventAt
  rw [hrestrictive, if_pos rfl] at hfence
  obtain ⟨fence, hsome, htime⟩ := Option.map_eq_some_iff.1 hfence
  rw [stored_of_not_blocked h, Write.claimed, horigin]
  simp [applySumsubWebhookFence, hrestrictive, hsome, htime]

/-- Any other write that no fence holds stores the decision that it fetched. -/
theorem stored_of_fences_eq_none (hw : w.fences = none) (h : w.blocked = false) :
    w.stored.decision = w.fetched.decision := by
  rw [stored_of_not_blocked h, Write.claimed]
  cases horigin : w.origin with
  | status => rfl
  | webhook webhook =>
    have hrestrictive : webhook.restrictive = false := by
      by_contra hne
      rw [fences_eq_some.2 ⟨horigin, by simpa using hne⟩] at hw
      exact nomatch hw
    simp [applySumsubWebhookFence, hrestrictive]

end Stored

/-! ### The laws of a history -/

section Laws

variable {w : Write} {log : List Write} {webhook : SumsubWebhook}

theorem fenced_stored (hclaimed : w.claimed.Fenced) (hseen : ∀ p ∈ w.seen, p.Fenced)
    (hheld : ∀ p ∈ w.held, p.Fenced) : w.stored.Fenced :=
  fenced_retain (fenced_retain hclaimed hseen) hheld

theorem Write.Follows.fenced_claimed (h : w.Follows log) : w.claimed.Fenced := by
  have hfetched : w.fetched.Fenced := by
    intro hsome
    rw [h.fetched] at hsome
    exact nomatch hsome
  unfold Write.claimed
  split
  · exact hfetched
  · exact fenced_apply hfetched

/-- Nothing is ever approved behind a fence, in any state of a history. -/
theorem History.fenced (h : History log) {older : List Write} (holder : older <:+ log) :
    ∀ e ∈ latestOf older, e.Fenced := by
  induction h generalizing older with
  | nil =>
    obtain rfl := List.suffix_nil.1 holder
    exact fun e he ↦ absurd he (Option.not_mem_none e)
  | @cons w log hlog hw ih =>
    rcases List.suffix_cons_iff.1 holder with rfl | holder
    · intro e he
      obtain rfl := Option.mem_some.1 he
      obtain ⟨older, holder, hseen⟩ := hw.seen
      refine fenced_stored hw.fenced_claimed ?_ ?_
      · rw [hseen]
        exact ih holder
      · rw [hw.held]
        exact ih List.suffix_rfl
    · exact ih holder

/-- Where the newest restrictive callback has not been reached, its fence is in force and the
decision is no softer. -/
theorem History.inForce (h : History log) (hregular : regular log = true)
    (hnewest : newestFence log = some (webhook, false)) :
    ∃ e, latestOf log = some e ∧
      e.webhookFence.map WebhookFence.eventAt = some webhook.createdAtMs ∧
      webhook.ownDecision.rank ≤ e.decision.rank := by
  induction h with
  | nil => exact nomatch hnewest
  | @cons w log hlog hw ih =>
    simp only [regular, Bool.and_eq_true] at hregular
    refine ⟨w.stored, rfl, ?_⟩
    rcases hfences : w.fences with - | webhook'
    case some =>
      obtain rfl : webhook' = webhook := by simpa [newestFence, hfences] using hnewest
      have hblocked : w.blocked = false := by simpa [Write.regular, hfences] using hregular.1
      obtain ⟨hdecision, htime⟩ := stored_of_fences hfences hblocked
      exact ⟨htime, hdecision ▸ le_rfl⟩
    case none =>
      -- an older fence in force holds the write, since the write does not reach it
      simp only [newestFence, hfences, Option.map_eq_some_iff, Prod.exists, Prod.mk.injEq,
        Bool.or_eq_false_iff] at hnewest
      obtain ⟨webhook', answered, hnewest, rfl, rfl, hsince⟩ := hnewest
      obtain ⟨e, hlatest, htime, hrank⟩ := ih hregular.2 hnewest
      obtain ⟨fence, hfence, hat⟩ := Option.map_eq_some_iff.1 htime
      have hheld : w.fetched.heldBy w.held = some fence := by
        refine heldBy_eq_some.2 ⟨e, hw.held.trans hlatest, hfence, ?_⟩
        rw [hat]
        exact hsince
      obtain ⟨p, hp, -, hdecision, hkept⟩ := stored_of_heldBy hheld
      obtain rfl : e = p := Option.some.inj (hlatest.symm.trans (hw.held.symm.trans hp))
      exact ⟨by rw [hkept, Option.map_some, hat], hdecision ▸ hrank⟩

/-- Where it has been reached, what is approved reaches it. -/
theorem History.reached (h : History log) (hregular : regular log = true)
    (hnewest : newestFence log = some (webhook, true)) {e : Evidence}
    (hlatest : latestOf log = some e) (happroved : e.decision = .approved) :
    e.reviewedSince webhook.createdAtMs = true := by
  cases h with
  | nil => exact nomatch hnewest
  | @cons w log hlog hw =>
    simp only [regular, Bool.and_eq_true] at hregular
    obtain rfl := Option.some.inj hlatest
    rw [reviewedSince_stored]
    rcases hfences : w.fences with - | webhook'
    case some => simp [newestFence, hfences] at hnewest
    case none =>
      simp only [newestFence, hfences, Option.map_eq_some_iff, Prod.exists, Prod.mk.injEq,
        Bool.or_eq_true] at hnewest
      obtain ⟨webhook', answered, hnewest, rfl, hanswered | hsince⟩ := hnewest
      case inr => exact hsince
      case inl =>
        -- a fence that held the write would have kept it from being approved
        have hblocked : w.blocked = false := by
          by_contra hne
          have hfenced := (hlog.cons hw).fenced List.suffix_rfl w.stored rfl
          exact hfenced (stored_of_blocked (by simpa using hne)) happroved
        have hfetched : w.fetched.decision = .approved :=
          stored_of_fences_eq_none hfences hblocked ▸ happroved
        simpa [Write.regular, hfences, hfetched, hblocked, hnewest, hanswered] using hregular.1

/-- Only the newest restrictive callback can be unanswered: an older one is answered by the time
the newer is accepted. -/
theorem History.newestFence_of_unanswered (h : History log) (hregular : regular log = true)
    {newer older : List Write} (hlog : log = newer ++ w :: older) (hw : w.fences = some webhook)
    (hunanswered : ∀ w' ∈ newer, w'.reviewedSince webhook.createdAtMs = false) :
    newestFence log = some (webhook, false) := by
  induction h generalizing newer with
  | nil => simp at hlog
  | @cons w₀ log hhistory hw₀ ih =>
    cases newer with
    | nil =>
      obtain ⟨rfl, rfl⟩ := List.cons.inj hlog
      simp [newestFence, hw]
    | cons w' newer =>
      obtain ⟨rfl, rfl⟩ := List.cons.inj hlog
      simp only [regular, Bool.and_eq_true] at hregular
      have hsince : w₀.reviewedSince webhook.createdAtMs = false := hunanswered w₀ (by simp)
      have hnewest : newestFence (newer ++ w :: older) = some (webhook, false) :=
        ih hregular.2 rfl fun w' hw' ↦ hunanswered w' (by simp [hw'])
      rcases hfences : w₀.fences with - | webhook'
      · simp [newestFence, hfences, hnewest, hsince]
      · -- the open fence is stored, and would hold the status answer of the newer callback
        exfalso
        obtain ⟨e, hlatest, htime, -⟩ := hhistory.inForce hregular.2 hnewest
        obtain ⟨fence, hfence, hat⟩ := Option.map_eq_some_iff.1 htime
        have hblocked : w₀.blocked = false := by simpa [Write.regular, hfences] using hregular.1
        have hheld : w₀.fetched.heldBy w₀.held = some fence := by
          refine heldBy_eq_some.2 ⟨e, hw₀.held.trans hlatest, hfence, ?_⟩
          rw [hat]
          exact hsince
        simp [Write.blocked, hheld] at hblocked

/-- No restrictive callback is newer than the newest. -/
theorem History.le_newestFence (h : History log) (hmem : w ∈ log) (hw : w.fences = some webhook) :
    ∃ newest answered, newestFence log = some (newest, answered) ∧
      webhook.createdAtMs ≤ newest.createdAtMs := by
  induction h with
  | nil => exact absurd hmem List.not_mem_nil
  | @cons w₀ log hlog hw₀ ih =>
    rcases hfences : w₀.fences with - | webhook₀
    · have hne : w ≠ w₀ := fun heq ↦ by simp [← heq, hw] at hfences
      obtain ⟨newest, answered, hnewest, hle⟩ := ih ((List.mem_cons.1 hmem).resolve_left hne)
      exact ⟨newest, _, by simp [newestFence, hfences, hnewest]; rfl, hle⟩
    · refine ⟨webhook₀, false, by simp [newestFence, hfences], ?_⟩
      rcases List.mem_cons.1 hmem with rfl | hmem
      · exact (Option.some.inj (hw.symm.trans hfences) ▸ le_rfl)
      · exact (hw₀.later _ (fences_eq_some.1 hfences).1 w hmem _ (fences_eq_some.1 hw).1).le

/-- **The decision holds.** In a history of regular writes the stored decision is no softer than
a restrictive callback's until a write reaches the callback. -/
theorem History.holds (h : History log) (hregular : regular log = true)
    {newer older : List Write} (hlog : log = newer ++ w :: older) (hw : w.fences = some webhook)
    (hunanswered : ∀ w' ∈ newer, w'.reviewedSince webhook.createdAtMs = false) :
    ∃ e, latestOf log = some e ∧ webhook.ownDecision.rank ≤ e.decision.rank := by
  have hnewest := h.newestFence_of_unanswered hregular hlog hw hunanswered
  obtain ⟨e, hlatest, -, hrank⟩ := h.inForce hregular hnewest
  exact ⟨e, hlatest, hrank⟩

/-- **Approval is recent.** In a history of regular writes what is approved was reviewed no
earlier than any restrictive callback. -/
theorem History.approved_since (h : History log) (hregular : regular log = true) {e : Evidence}
    (hlatest : latestOf log = some e) (happroved : e.decision = .approved) (hmem : w ∈ log)
    (hw : w.fences = some webhook) : e.reviewedSince webhook.createdAtMs = true := by
  obtain ⟨newest, answered, hnewest, hle⟩ := h.le_newestFence hmem hw
  have hsince : e.reviewedSince newest.createdAtMs = true := by
    cases answered with
    | true => exact h.reached hregular hnewest hlatest happroved
    | false =>
      obtain ⟨e', hlatest', -, hrank⟩ := h.inForce hregular hnewest
      obtain rfl := Option.some.inj (hlatest.symm.trans hlatest')
      have hpos := newest.rank_ownDecision_pos
      rw [SumsubDecision.rank_eq_zero.2 happroved] at hrank
      omega
  exact Evidence.reviewedSince_of_le hle hsince

end Laws

end Proofmark.Sumsub
