import Proofmark.Hub.Runs

/-!
# Accepted epochs

An epoch log is accepted together with the approvals its receipt carries, or skipped. The six
mappings and fields an accepted epoch writes are tied together by `EpochLedger`: every epoch number
with a root has the root and exactly the approvals of one log of one receipt (`Records`), no
number above the latest epoch has any, and the epoch-wide fields are those of the log that set it.

An approval is written before the epoch is committed. It is never seen without the commit, since
the scan either ends in a commit or reverts, and this is why the ledger needs no intermediate
state.
-/

open Evm

namespace Proofmark

namespace ProofmarkASC

/-- The state holds what the log `a` of the receipt `R` announced, approvals included. -/
structure Records (s : ProofmarkASC) (R : Receipt) (a : Announcement) : Prop where
  root : s.epochRoots a.epoch = a.root
  valid : a.valid = true
  distinct : (authorizedIssuers s.sourceContract R.logs a.epoch a.root).Nodup
  count_pos : 1 ≤ (authorizedIssuers s.sourceContract R.logs a.epoch a.root).length
  count_le : (authorizedIssuers s.sourceContract R.logs a.epoch a.root).length ≤ 16
  approved : ∀ issuer, s.epochIssuerApproved a.epoch issuer = true ↔
    issuer ∈ authorizedIssuers s.sourceContract R.logs a.epoch a.root
  height : ∀ issuer ∈ authorizedIssuers s.sourceContract R.logs a.epoch a.root,
    s.epochIssuerApprovalHeight a.epoch issuer = R.height
  keyEpoch : ∀ issuer ∈ authorizedIssuers s.sourceContract R.logs a.epoch a.root,
    s.epochIssuerKeyEpoch a.epoch issuer =
      authorizedKeyEpoch s.sourceContract R.logs a.epoch a.root issuer

/-- The epoch-wide fields are those of a log. -/
structure ShowsEpoch (s : ProofmarkASC) (a : Announcement) : Prop where
  epoch : s.latestEpoch = a.epoch
  validUntil : s.epochValidUntil = a.validUntil
  sourceCutoff : s.epochSourceCutoff = a.sourceCutoff
  publishedAt : s.epochPublishedAt = a.publishedAt
  listVersion : s.epochListVersion = a.listVersion
  snapshotId : s.epochSnapshotId = a.snapshotId

/-- What the core records the state records. -/
theorem Records.of_core {s : ProofmarkASC} {R : Receipt} {a : Announcement}
    (h : s.core.Records R a) : s.Records R a :=
  ⟨h.root, h.valid, h.distinct, h.count_pos, h.count_le, h.approved, h.height, h.keyEpoch⟩

theorem ShowsEpoch.of_core {s : ProofmarkASC} {a : Announcement} (h : s.core.ShowsEpoch a) :
    s.ShowsEpoch a :=
  ⟨h.epoch, h.validUntil, h.sourceCutoff, h.publishedAt, h.listVersion, h.snapshotId⟩

/-- The log that raised the latest epoch last: every epoch log before it has a smaller number, and
none after it a greater one. -/
def SetBy (T : Trace) (R : Receipt) (i : ℕ) (a : Announcement) : Prop :=
  ∃ T₁ T₂, T = T₁ ++ (R, i, .epoch a) :: T₂ ∧
    (∀ R' i' a', (R', i', HubEvent.epoch a') ∈ T₁ → a'.epoch < a.epoch) ∧
    ∀ R' i' a', (R', i', HubEvent.epoch a') ∈ T₂ → a'.epoch ≤ a.epoch

/-- What the hub holds about epochs after the events of a trace. -/
structure EpochLedger (T : Trace) (s : ProofmarkASC) : Prop where
  /-- An epoch number is blank, or it is what one log of the trace announced. -/
  recorded : ∀ e, (s.epochRoots e = 0 ∧ ∀ issuer, s.epochIssuerApproved e issuer = false) ∨
    ∃ R i a, (R, i, HubEvent.epoch a) ∈ T ∧ a.epoch = e ∧ s.Records R a
  bounded : ∀ e, s.latestEpoch < e → s.epochRoots e = 0
  /-- Epoch zero is never accepted. -/
  zero : s.epochRoots 0 = 0
  /-- No epoch was accepted, or the fields are those of the log that set the latest. -/
  latest : s.latestEpoch = 0 ∨ ∃ R i a, SetBy T R i a ∧ s.Records R a ∧ s.ShowsEpoch a
  greatest : ∀ R i a, (R, i, HubEvent.epoch a) ∈ T → a.epoch ≤ s.latestEpoch

/-! ### Accepted epochs are final -/

/-- The latest epoch did not decrease, and no epoch up to it changed. -/
structure KeepsEpochs (s s' : ProofmarkASC) : Prop where
  latest : s.latestEpoch ≤ s'.latestEpoch
  root : ∀ e ≤ s.latestEpoch, s'.epochRoots e = s.epochRoots e
  approved : ∀ e ≤ s.latestEpoch, s'.epochIssuerApproved e = s.epochIssuerApproved e
  keyEpoch : ∀ e ≤ s.latestEpoch, s'.epochIssuerKeyEpoch e = s.epochIssuerKeyEpoch e
  height : ∀ e ≤ s.latestEpoch, s'.epochIssuerApprovalHeight e = s.epochIssuerApprovalHeight e

theorem KeepsEpochs.same {s s' : ProofmarkASC} (hlatest : s'.latestEpoch = s.latestEpoch)
    (hroot : s'.epochRoots = s.epochRoots)
    (happroved : s'.epochIssuerApproved = s.epochIssuerApproved)
    (hkey : s'.epochIssuerKeyEpoch = s.epochIssuerKeyEpoch)
    (hheight : s'.epochIssuerApprovalHeight = s.epochIssuerApprovalHeight) : s.KeepsEpochs s' :=
  ⟨BitVec.le_of_eq hlatest.symm, fun _ _ ↦ by rw [hroot], fun _ _ ↦ by rw [happroved],
    fun _ _ ↦ by rw [hkey], fun _ _ ↦ by rw [hheight]⟩

theorem KeepsEpochs.trans {s t u : ProofmarkASC} (h : s.KeepsEpochs t) (h' : t.KeepsEpochs u) :
    s.KeepsEpochs u where
  latest := BitVec.le_trans h.latest h'.latest
  root e he := (h'.root e (BitVec.le_trans he h.latest)).trans (h.root e he)
  approved e he := (h'.approved e (BitVec.le_trans he h.latest)).trans (h.approved e he)
  keyEpoch e he := (h'.keyEpoch e (BitVec.le_trans he h.latest)).trans (h.keyEpoch e he)
  height e he := (h'.height e (BitVec.le_trans he h.latest)).trans (h.height e he)

/-- **No event touches an epoch up to the latest.** -/
theorem keepsEpochs_applyEvent (s : ProofmarkASC) (R : Receipt) (i : ℕ) (ev : HubEvent) :
    s.KeepsEpochs (s.applyEvent R i ev) := by
  cases ev with
  | lifecycle subject e => exact .same rfl rfl rfl rfl rfl
  | compromised issuer issuerKeyEpoch lastTrustedBlock =>
    rw [applyEvent, lowerCutoff]
    split <;> exact .same rfl rfl rfl rfl rfl
  | epoch a =>
    rw [applyEvent]
    split
    · exact .same rfl rfl rfl rfl rfl
    · have hlt : s.latestEpoch < a.epoch := BitVec.not_le.1 ‹_›
      have hne : ∀ e ≤ s.latestEpoch, e ≠ a.epoch := by
        rintro e he rfl
        exact absurd he (BitVec.not_le.2 hlt)
      refine ⟨BitVec.le_of_lt hlt, ?_, ?_, ?_, ?_⟩ <;> intro e he <;>
        simp [commit, approve, hne e he]

/-- A recorded epoch stays recorded. -/
theorem Records.keep {s s' : ProofmarkASC} {R : Receipt} {a : Announcement} (h : s.Records R a)
    (he : a.epoch ≤ s.latestEpoch) (hkeeps : s.KeepsEpochs s')
    (hsource : s'.sourceContract = s.sourceContract) : s'.Records R a := by
  constructor
  case root => rw [hkeeps.root _ he, h.root]
  case valid => exact h.valid
  case distinct => rw [hsource]; exact h.distinct
  case count_pos => rw [hsource]; exact h.count_pos
  case count_le => rw [hsource]; exact h.count_le
  case approved => rw [hsource, hkeeps.approved _ he]; exact h.approved
  case height => rw [hsource, hkeeps.height _ he]; exact h.height
  case keyEpoch => rw [hsource, hkeeps.keyEpoch _ he]; exact h.keyEpoch

/-- **Accepted epochs are final** under every call to the hub. -/
theorem keepsEpochs_exec {decoder : EvmV1Decoder} {s s' : ProofmarkASC} {call : Call}
    (h : s.exec decoder call = .ok s') : s.KeepsEpochs s' := by
  cases call with
  | execute env args =>
    obtain ⟨R, matched, -, -, -, hscan⟩ := execute_spec h
    have hrule := receipt_rule (P := fun _ t ↦ s.KeepsEpochs t)
      (fun _ t i e ht _ ↦ ht.trans (keepsEpochs_applyEvent t R i e)) hscan
      (.same rfl rfl rfl rfl rfl)
    exact hrule.2
  | configureSource env chainKey sourceContract =>
    obtain ⟨-, -, h⟩ := bind_eq_ok.1 h
    simp only [revertIf_bind_eq_ok] at h
    obtain rfl := Except.ok.inj h.2.2.2
    exact .same rfl rfl rfl rfl rfl
  | transferOwnership env newOwner | acceptOwnership env | renounceOwnership env =>
    obtain ⟨o', -, h⟩ := bind_eq_ok.1 h
    obtain rfl := Except.ok.inj h
    exact .same rfl rfl rfl rfl rfl

/-- Accepted epochs are final in every longer run. -/
theorem keepsEpochs_run (decoder : EvmV1Decoder) (o : Ownable2Step) (calls calls' : List Call) :
    (after decoder o calls).KeepsEpochs (after decoder o (calls ++ calls')) := by
  rw [after, after, run_append]
  exact run_invariant (P := fun t ↦ (run (exec decoder) (deployed o) calls).KeepsEpochs t)
    (.same rfl rfl rfl rfl rfl) (fun t call t' ht h ↦ ht.trans (keepsEpochs_exec h)) calls'

/-! ### The ledger -/

theorem SetBy.mem {T : Trace} {R : Receipt} {i : ℕ} {a : Announcement} (h : SetBy T R i a) :
    (R, i, HubEvent.epoch a) ∈ T := by
  obtain ⟨T₁, T₂, rfl, -, -⟩ := h
  simp

/-- One more event that brings no greater number. -/
theorem SetBy.concat {T : Trace} {R : Receipt} {i : ℕ} {a : Announcement} (h : SetBy T R i a)
    {x : Receipt × ℕ × HubEvent} (hx : ∀ a', x.2.2 = .epoch a' → a'.epoch ≤ a.epoch) :
    SetBy (T ++ [x]) R i a := by
  obtain ⟨T₁, T₂, rfl, hbefore, hafter⟩ := h
  refine ⟨T₁, T₂ ++ [x], by simp, hbefore, fun R' i' a' hmem ↦ ?_⟩
  rcases List.mem_append.1 hmem with hmem | hmem
  · exact hafter R' i' a' hmem
  · exact hx a' (by rw [← List.mem_singleton.1 hmem])

theorem epochLedger_blank (source : Address) : EpochLedger [] (blank source) where
  recorded _ := .inl ⟨rfl, fun _ ↦ rfl⟩
  bounded _ _ := rfl
  zero := rfl
  latest := .inl rfl
  greatest := by simp

/-- Without a root there is no approval. -/
theorem EpochLedger.not_approved {s : ProofmarkASC} {T : Trace} (h : EpochLedger T s)
    {e : Uint 32} (he : s.epochRoots e = 0) (issuer : Address) :
    s.epochIssuerApproved e issuer = false := by
  rcases h.recorded e with ⟨-, hnone⟩ | ⟨R, i, a, -, rfl, hrecords⟩
  · exact hnone issuer
  · have hroot : a.root = 0 := by rw [← hrecords.root, he]
    exact absurd hroot (EpochBounds.root_ne_zero hrecords.valid)

/-- A new epoch is recorded when it is committed: nothing was approved under its number before. -/
theorem records_commit {s : ProofmarkASC} {T : Trace} (h : EpochLedger T s) {R : Receipt}
    {a : Announcement} {now : ℕ} (hadmits : s.Admits now R (.epoch a))
    (hlt : s.latestEpoch < a.epoch) :
    ((s.approve R a.epoch a.root
      (authorizedIssuers s.sourceContract R.logs a.epoch a.root)).commit a).Records R a := by
  obtain ⟨hvalid, -, hissuers⟩ := hadmits
  obtain ⟨hnd, hpos, hle, hfresh⟩ := hissuers hlt
  have hnone : ∀ issuer, s.epochIssuerApproved a.epoch issuer = false :=
    h.not_approved (h.bounded _ hlt)
  constructor
  case root => simp [commit]
  case valid => exact hvalid
  case distinct => exact hnd
  case count_pos => exact hpos
  case count_le => exact hle
  case approved => simp [commit, approve, hnone]
  case height =>
    intro issuer hmem
    have hmem' : issuer ∈ authorizedIssuers s.sourceContract R.logs a.epoch a.root := hmem
    simp [commit, approve, hmem']
  case keyEpoch =>
    intro issuer hmem
    have hmem' : issuer ∈ authorizedIssuers s.sourceContract R.logs a.epoch a.root := hmem
    simp [commit, approve, hmem']

/-- An epoch with a root is recorded by a log of the trace. -/
theorem EpochLedger.exists_records {s : ProofmarkASC} {T : Trace} (h : EpochLedger T s)
    {e : Uint 32} (he : s.epochRoots e ≠ 0) :
    ∃ R i a, (R, i, HubEvent.epoch a) ∈ T ∧ a.epoch = e ∧ s.Records R a := by
  rcases h.recorded e with ⟨hzero, -⟩ | hrecords
  · exact absurd hzero he
  · exact hrecords

/-- Every recorded epoch is at most the latest. -/
theorem EpochLedger.le_latest {s : ProofmarkASC} {T : Trace} (h : EpochLedger T s) {R : Receipt}
    {a : Announcement} (hrecords : s.Records R a) : a.epoch ≤ s.latestEpoch := by
  by_contra hlt
  have hroot : a.root = 0 := by
    rw [← hrecords.root, h.bounded _ (BitVec.not_le.1 hlt)]
  exact EpochBounds.root_ne_zero hrecords.valid hroot

/-- The latest epoch is recorded by the log that set it. -/
theorem EpochLedger.exists_latest {s : ProofmarkASC} {T : Trace} (h : EpochLedger T s)
    (hlatest : s.latestEpoch ≠ 0) :
    ∃ R i a, SetBy T R i a ∧ s.Records R a ∧ s.ShowsEpoch a := by
  rcases h.latest with hzero | hrecords
  · exact absurd hzero hlatest
  · exact hrecords

/-- An event that commits no epoch keeps the ledger. -/
theorem EpochLedger.keep {s s' : ProofmarkASC} {T : Trace} (h : EpochLedger T s)
    {x : Receipt × ℕ × HubEvent} (hkeeps : s.KeepsEpochs s')
    (hsource : s'.sourceContract = s.sourceContract) (hlatest : s'.latestEpoch = s.latestEpoch)
    (hroots : s'.epochRoots = s.epochRoots)
    (happroved : s'.epochIssuerApproved = s.epochIssuerApproved)
    (hfields : ∀ a, s.ShowsEpoch a → s'.ShowsEpoch a)
    (hgreatest : ∀ a, x.2.2 = .epoch a → a.epoch ≤ s.latestEpoch) : EpochLedger (T ++ [x]) s' := by
  have hkept : ∀ R i a, (R, i, HubEvent.epoch a) ∈ T → s.Records R a →
      (R, i, HubEvent.epoch a) ∈ T ++ [x] ∧ s'.Records R a := fun R i a hmem hrecords ↦
    ⟨List.mem_append_left _ hmem, hrecords.keep (h.le_latest hrecords) hkeeps hsource⟩
  constructor
  case recorded =>
    intro e
    rcases h.recorded e with ⟨hroot, hnone⟩ | ⟨R, i, a, hmem, heq, hrecords⟩
    · exact .inl ⟨by rw [hroots, hroot], fun issuer ↦ by rw [happroved, hnone]⟩
    · obtain ⟨hmem', hrecords'⟩ := hkept R i a hmem hrecords
      exact .inr ⟨R, i, a, hmem', heq, hrecords'⟩
  case bounded =>
    intro e he
    rw [hroots, h.bounded e (by rwa [hlatest] at he)]
  case zero => rw [hroots, h.zero]
  case latest =>
    rcases h.latest with hzero | ⟨R, i, a, hset, hrecords, hshows⟩
    · exact .inl (hlatest.trans hzero)
    · obtain ⟨-, hrecords'⟩ := hkept R i a hset.mem hrecords
      have hset' : SetBy (T ++ [x]) R i a :=
        hset.concat fun a' ha' ↦ hshows.epoch ▸ hgreatest a' ha'
      exact .inr ⟨R, i, a, hset', hrecords', hfields a hshows⟩
  case greatest =>
    intro R i a hmem
    rw [hlatest]
    rcases List.mem_append.1 hmem with hmem | hmem
    · exact h.greatest R i a hmem
    · rw [List.mem_singleton] at hmem
      exact hgreatest a (by rw [← hmem])

/-- **The step of the ledger.** -/
theorem EpochLedger.applyEvent {s : ProofmarkASC} {T : Trace} (h : EpochLedger T s) {R : Receipt}
    {i : ℕ} {ev : HubEvent} {now : ℕ} (hadmits : s.Admits now R ev) :
    EpochLedger (T ++ [(R, i, ev)]) (s.applyEvent R i ev) := by
  have hkeeps := keepsEpochs_applyEvent s R i ev
  have hsource := applyEvent_sourceContract s R i ev
  cases ev with
  | lifecycle subject e =>
    exact h.keep hkeeps hsource rfl rfl rfl (fun _ ha ↦ ⟨ha.1, ha.2, ha.3, ha.4, ha.5, ha.6⟩)
      fun a ha ↦ by simp at ha
  | compromised issuer issuerKeyEpoch lastTrustedBlock =>
    rw [ProofmarkASC.applyEvent, lowerCutoff] at *
    split at hkeeps
    · rw [if_pos ‹_›]
      exact h.keep hkeeps rfl rfl rfl rfl (fun _ ha ↦ ⟨ha.1, ha.2, ha.3, ha.4, ha.5, ha.6⟩)
        fun a ha ↦ by simp at ha
    · rw [if_neg ‹_›]
      exact h.keep hkeeps rfl rfl rfl rfl (fun _ ha ↦ ha) fun a ha ↦ by simp at ha
  | epoch a =>
    rw [ProofmarkASC.applyEvent] at *
    by_cases hstale : a.epoch ≤ s.latestEpoch
    · rw [if_pos hstale] at *
      refine h.keep hkeeps rfl rfl rfl rfl (fun _ ha ↦ ha) fun a' ha' ↦ ?_
      obtain rfl : a = a' := HubEvent.epoch.inj ha'
      exact hstale
    · rw [if_neg hstale] at *
      have hlt : s.latestEpoch < a.epoch := BitVec.not_le.1 hstale
      have hcommit := records_commit h hadmits hlt
      have hmem : (R, i, HubEvent.epoch a) ∈ T ++ [(R, i, HubEvent.epoch a)] := by simp
      constructor
      case recorded =>
        intro e
        by_cases he : e = a.epoch
        · exact .inr ⟨R, i, a, hmem, he.symm, hcommit⟩
        · rcases h.recorded e with ⟨hroot, hnone⟩ | ⟨R', j, a', hmem', heq, hrecords⟩
          · refine .inl ⟨?_, fun issuer ↦ ?_⟩
            · simp [commit, approve, he, hroot]
            · simp [commit, approve, he, hnone]
          · exact .inr ⟨R', j, a', List.mem_append_left _ hmem', heq,
              hrecords.keep (h.le_latest hrecords) hkeeps hsource⟩
      case bounded =>
        intro e he
        have he' : a.epoch < e := he
        have hne : e ≠ a.epoch := fun heq ↦ by
          rw [heq] at he'
          exact absurd he' (BitVec.lt_irrefl _)
        simp [commit, approve, hne, h.bounded e (BitVec.lt_trans hlt he')]
      case zero =>
        have hne : (0 : Uint 32) ≠ a.epoch := fun heq ↦ by
          rw [← heq] at hlt
          exact absurd hlt BitVec.not_lt_zero
        exact (Function.update_of_ne hne _ _).trans h.zero
      case latest =>
        have hset : SetBy (T ++ [(R, i, .epoch a)]) R i a :=
          ⟨T, [], rfl, fun R' i' a' hmem' ↦ BitVec.not_le.1 fun hle ↦
            hstale (BitVec.le_trans hle (h.greatest R' i' a' hmem')), by simp⟩
        exact .inr ⟨R, i, a, hset, hcommit, ⟨rfl, rfl, rfl, rfl, rfl, rfl⟩⟩
      case greatest =>
        intro R' j a' hmem'
        rcases List.mem_append.1 hmem' with hmem' | hmem'
        · exact BitVec.le_trans (h.greatest R' j a' hmem') (BitVec.le_of_lt hlt)
        · obtain rfl : a' = a := by simpa using congrArg (·.2.2) (List.mem_singleton.1 hmem')
          exact BitVec.le_refl _

/-- **The ledger of a run.** -/
theorem epochLedger_after (decoder : EvmV1Decoder) (o : Ownable2Step) (calls : List Call) :
    EpochLedger (traceAfter decoder o calls) (after decoder o calls).core :=
  run_rule (P := EpochLedger) epochLedger_blank
    (fun _ _ _ _ _ _ hdone hadmits ↦ hdone.applyEvent hadmits) decoder o calls

end ProofmarkASC

end Proofmark
