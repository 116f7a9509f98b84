import Proofmark.Vault.Outbox

/-!
# Activation of pending records

A record put as `pending` becomes `active` by `recordMaterialization`. A rescreen that says ALLOW,
or a review that clears, keeps a pending record pending; but a record that left `pending` through
`review` or `blocked` is told from a materialised one by its source observation alone. Without an
observation, clearance makes it active (`activation_law_fails`). `activation_iff` says that this is
the only way.
-/

open Evm

namespace Proofmark.Vault

open Pipeline (Text)

/-- `recordMaterialization` went through for an id with an evidence hash. -/
def Materialized (id evidenceHash : Text) (log : Log) : Prop :=
  ∃ entry ∈ log, entry.input.operation = .recordMaterialization id evidenceHash

/-- A rescreen that says ALLOW, or a review that clears. -/
def Operation.Allows (id : Text) (op : Operation) : Prop :=
  (∃ event expected, op = .recordRescreen id event expected ∧ event.decision = .allow) ∨
  ∃ event revision, op = .decideReview id event revision ∧ event.outcome = .cleared

/-- **The activation law**, in one durable state: a record put as pending is active only if it was
materialised under its evidence hash. -/
def ActivationLaw (id : Text) (log : Log) (d : Data) : Prop :=
  FirstPut id (· = .pending) log → ∀ record, d.records.get id = some record → record.state = .active →
    Materialized id record.evidenceHash log

/-- The record is still pending, or has a source observation that is not materialised. -/
def AwaitsHub (record : VaultRecord) : Prop :=
  record.state = .pending ∨ ∃ o, record.sourceIssuance = some o ∧ o.hubMaterialized = false

/-- **When a clearance is sound**: what it clears was not put as pending, or was materialised
before, or still awaits the hub. -/
def SoundClearance (id : Text) (before : Log) (entry : Entry Data Call) : Prop :=
  entry.input.operation.Allows id → FirstPut id (· = .pending) before → ∀ record,
    entry.state.records.get id = some record → Materialized id record.evidenceHash before ∨
      AwaitsHub record

variable {P : Platform} {d d' : Data} {id key : Text} {op : Operation} {x : Dossier} {log : Log}

theorem allowedState_eq_active {record : VaultRecord} :
    Data.allowedState record = .active ↔ ¬AwaitsHub record := by
  unfold Data.allowedState AwaitsHub
  cases record.sourceIssuance <;> by_cases h : record.state = .pending <;> simp [h]

/-- **How a record is active after a call**: it was before, it was put so, it was materialised, or
it was cleared while it did not await the hub. -/
theorem Act.active (h : Act P d id key op x) {r : VaultRecord} (hx : x.record = some r)
    (hr : r.state = .active) :
    (∃ r₀, d.records.get id = some r₀ ∧ r₀.evidenceHash = r.evidenceHash ∧
        (r₀.state = .active ∨ op = .recordMaterialization id r.evidenceHash ∨
          op.Allows id ∧ ¬AwaitsHub r₀)) ∨
      Creates id ⟨d, ⟨key, op⟩⟩ r := by
  cases h with
  | @put record hid hget =>
    obtain rfl := Option.some.inj hx
    exact .inr ⟨rfl, hid, hget⟩
  | @materialized record hget =>
    obtain rfl := Option.some.inj hx
    exact .inl ⟨record, hget, rfl, .inr (.inl rfl)⟩
  | @sourceConfirmed record _ _ _ hget =>
    obtain rfl := Option.some.inj hx
    exact .inl ⟨record, hget, rfl, .inl hr⟩
  | @rescreened event record _ hget =>
    obtain rfl := Option.some.inj hx
    cases hdecision : event.decision with
    | allow =>
      simp only [Data.rescreened, hdecision] at hr
      exact .inl ⟨record, hget, rfl, .inr (.inr ⟨.inl ⟨event, record, rfl, hdecision⟩,
        allowedState_eq_active.1 hr⟩)⟩
    | review => simp [Data.rescreened, hdecision] at hr
    | block => simp [Data.rescreened, hdecision] at hr
  | @reviewed event revision record _ hget =>
    obtain rfl := Option.some.inj hx
    cases houtcome : event.outcome with
    | cleared =>
      simp only [Data.reviewed, houtcome] at hr
      exact .inl ⟨record, hget, rfl, .inr (.inr ⟨.inr ⟨event, revision, rfl, houtcome⟩,
        allowedState_eq_active.1 hr⟩)⟩
    | blocked => simp [Data.reviewed, houtcome] at hr
  | erased => cases hx
  | _ => exact .inl ⟨r, hx, rfl, .inl hr⟩

/-- A clearance of a record that does not await the hub makes it active. -/
theorem Act.active_of_allows (h : Act P d id key op x) (hop : op.Allows id)
    {record : VaultRecord} (hget : d.records.get id = some record) (hnot : ¬AwaitsHub record) :
    ∃ r, x.record = some r ∧ r.state = .active ∧ r.evidenceHash = record.evidenceHash := by
  rcases hop with ⟨event, expected, rfl, hdecision⟩ | ⟨event, revision, rfl, houtcome⟩
  · cases h with
    | idle hsubject => exact absurd rfl hsubject
    | rescreened hget' =>
      obtain rfl := Option.some.inj (hget'.symm.trans hget)
      refine ⟨_, rfl, ?_, rfl⟩
      simp only [Data.rescreened, hdecision]
      exact allowedState_eq_active.2 hnot
    | holds hmatches => cases hmatches
    | erased hop => rcases hop with hop | ⟨hop, -⟩ <;> cases hop
    | advanced hop => cases hop
  · cases h with
    | idle hsubject => exact absurd rfl hsubject
    | reviewed hget' =>
      obtain rfl := Option.some.inj (hget'.symm.trans hget)
      refine ⟨_, rfl, ?_, rfl⟩
      simp only [Data.reviewed, houtcome]
      exact allowedState_eq_active.2 hnot
    | holds hmatches => cases hmatches
    | erased hop => rcases hop with hop | ⟨hop, -⟩ <;> cases hop
    | advanced hop => cases hop

theorem Materialized.concat {evidenceHash : Text} (h : Materialized id evidenceHash log)
    (entry : Entry Data Call) : Materialized id evidenceHash (log ++ [entry]) := by
  obtain ⟨e, he, hop⟩ := h
  exact ⟨e, List.mem_append_left _ he, hop⟩

/-- **What one call keeps**, if a clearance is sound. -/
theorem ActivationLaw.step (hkept : OutboxKept id log (d.dossier id)) (h : ActivationLaw id log d)
    {call : Call} (hsound : SoundClearance id log ⟨d, call⟩) (happly : d.apply P call = .ok d') :
    ActivationLaw id (log ++ [⟨d, call⟩]) d' := by
  intro hfirst r hx hr
  have hact := act_of_apply id happly
  rcases hact.active hx hr with ⟨r₀, hget, hhash, hcases⟩ | hcreates
  · have hfirst₀ := hfirst.of_concat hget
    rw [← hhash] at hcases ⊢
    rcases hcases with hactive | hop | ⟨hallows, hnot⟩
    · exact (h hfirst₀ r₀ hget hactive).concat _
    · exact ⟨⟨d, call⟩, List.mem_append_right _ List.mem_cons_self, hop⟩
    · rcases hsound hallows hfirst₀ r₀ hget with hmaterialized | hawaits
      · exact hmaterialized.concat _
      · exact absurd hawaits hnot
  · have hpending : r.state = .pending := hkept.creates_first hact hfirst hcreates
    exact absurd (hr.symm.trans hpending) (by decide)

/-- **What a run of sound clearances keeps.** -/
theorem activation_run (id : Text) (calls : List Call)
    (hsound : ∀ before entry later, history (Data.apply P) .empty calls =
      before ++ entry :: later → SoundClearance id before entry) :
    ActivationLaw id (history (Data.apply P) .empty calls)
      (run (Data.apply P) .empty calls) := by
  suffices h : OutboxKept id (history (Data.apply P) .empty calls)
      ((run (Data.apply P) .empty calls).dossier id) ∧
      ((∀ before entry later, history (Data.apply P) .empty calls =
        before ++ entry :: later → SoundClearance id before entry) →
      ActivationLaw id (history (Data.apply P) .empty calls)
        (run (Data.apply P) .empty calls)) from h.2 hsound
  refine history_rule (P := fun log d ↦ OutboxKept id log (d.dossier id) ∧
    ((∀ before entry later, log = before ++ entry :: later → SoundClearance id before entry) →
      ActivationLaw id log d)) ⟨outboxKept_empty id, ?_⟩ ?_ calls
  · rintro - ⟨e, he, -⟩
    exact absurd he List.not_mem_nil
  · rintro log d call d' ⟨hkept, hlaw⟩ happly
    refine ⟨hkept.step (act_of_apply id happly), fun hsound ↦ ?_⟩
    refine ActivationLaw.step hkept (hlaw fun before entry later hlog ↦ ?_) ?_ happly
    · exact hsound before entry (later ++ [⟨d, call⟩]) (by simp [hlog])
    · exact hsound log ⟨d, call⟩ [] rfl

/-- **Activation.** The law holds in every durable state of a run exactly when every clearance of
the run is sound. -/
theorem activation_iff {ι : Type} [DecidableEq ι] (P : Platform) (events : List (Event ι))
    (id : Text) :
    (∀ first last, events = first ++ last →
      ActivationLaw id ((World.fresh : World ι).written P first)
        ((World.fresh : World ι).after P first).data) ↔
    ∀ before entry later, (World.fresh : World ι).written P events = before ++ entry :: later →
      SoundClearance id before entry := by
  constructor
  · intro hlaw before entry later hlog hallows hfirst record hget
    obtain ⟨first, last, rfl, hwritten, happly⟩ := World.written_split hlog
    by_cases hawaits : AwaitsHub record
    · exact .inr hawaits
    obtain ⟨r, hr, hactive, hhash⟩ := (act_of_apply id happly).active_of_allows hallows hget hawaits
    have hfirst' : FirstPut id (· = .pending) (before ++ [entry]) := by
      obtain ⟨e, he, hcreates⟩ := hfirst
      exact ⟨e, List.mem_append_left _ he, hcreates⟩
    obtain ⟨e, he, hop⟩ := hlaw first last rfl (hwritten ▸ hfirst') r hr hactive
    rw [hwritten] at he
    rcases List.mem_append.1 he with he | he
    · exact .inl ⟨e, he, hhash ▸ hop⟩
    · obtain rfl := List.mem_singleton.1 he
      rcases hallows with ⟨_, _, hallow, -⟩ | ⟨_, _, hallow, -⟩
      · exact absurd (hop.symm.trans hallow) nofun
      · exact absurd (hop.symm.trans hallow) nofun
  · rintro hsound first last rfl
    obtain ⟨calls, hafter, hwritten⟩ := World.after_eq (P := P) (w := (World.fresh : World ι)) first
    rw [World.written_append, hwritten] at hsound
    rw [hafter, hwritten]
    refine activation_run id calls fun before entry later hlog ↦ ?_
    refine hsound before entry
      (later ++ (World.after P (World.fresh : World ι) first).written P last) ?_
    change history _ Data.empty calls ++ _ = _
    rw [hlog]
    simp

/-- A record is put as pending, found in a list, and cleared by an operator: it is active, and no
call has materialised it. -/
def clearedUnissued : List (Event Unit) :=
  [.construct () sampleSecret,
    .call () (.put (sampleRecord .pending)) .none,
    .call () (.recordRescreen ['r'] ⟨2, .review, none, []⟩ (sampleRecord .pending)) .none,
    .call () (.recordRescreen ['r'] ⟨3, .allow, none, []⟩
      { sampleRecord .review with lastScreenedAt := some 2, rescreens := [⟨2, .review, none, []⟩] })
      .none]

/-- **The law fails** in the run of `clearedUnissued`. -/
theorem activation_law_fails : ¬ActivationLaw ['r']
    ((World.fresh : World Unit).written samplePlatform clearedUnissued)
    ((World.fresh : World Unit).after samplePlatform clearedUnissued).data := by
  intro hlaw
  have hlog : (World.fresh.written samplePlatform clearedUnissued) =
      ⟨.empty, ⟨sampleSecret, .put (sampleRecord .pending)⟩⟩ ::
        (World.fresh.written samplePlatform clearedUnissued).tail := by rfl
  have hactive : ((World.fresh.after samplePlatform clearedUnissued).data.records.get ['r']).map
      VaultRecord.state = some .active := by decide +kernel
  obtain ⟨record, hget, hstate⟩ := Option.map_eq_some_iff.1 hactive
  have hfirst : FirstPut ['r'] (· = .pending)
      (World.fresh.written samplePlatform clearedUnissued) := by
    rw [hlog]
    exact ⟨_, List.mem_cons_self, sampleRecord .pending, ⟨rfl, rfl, rfl⟩, rfl⟩
  obtain ⟨entry, hentry, hop⟩ := hlaw hfirst record hget hstate
  have hnone : (World.fresh.written samplePlatform clearedUnissued).all (fun entry ↦
      !entry.input.operation matches .recordMaterialization _ _) = true := by decide +kernel
  have := List.all_eq_true.1 hnone entry hentry
  rw [hop] at this
  exact nomatch this

end Proofmark.Vault
