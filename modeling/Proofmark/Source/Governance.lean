import Proofmark.Source.Receipts

/-!
# Who may correct a denial

A run of the source with its history: every call that went through, with the state it was made in
(`SourceEntry`). `Slot` is what the history says about one stored correction: who proposed it, who approved
it and which call executed it, in which roles and at which revision of the denial. A call about
another correction can only raise revisions (`Quiet`), and every fact of a slot survives that.

The delay is the one thing that is not unconditional. `executeAfter` is the time of the proposal plus
an hour cut to 40 bits, so a proposal made in the last hour those count can be executed at once.
-/

open Evm

namespace Proofmark

namespace ComplianceSource

/-! ### What a call does to revisions -/

/-- A call that stores no correction: revisions may grow, and a denial that is new has a new
revision. -/
structure Quiet (s s' : ComplianceSource) : Prop where
  corrections : s'.denialCorrections = s.denialCorrections
  nextId : s'.nextDenialCorrectionId = s.nextDenialCorrectionId
  revision_le : ∀ u, s.sourceDenialRevision u ≤ s'.sourceDenialRevision u
  active : ∀ u, s'.sourceDenialActive u = true →
    s.sourceDenialActive u = true ∨ s.sourceDenialRevision u < s'.sourceDenialRevision u

/-- The calls about corrections. -/
def Call.governs : Call → Bool
  | .proposeDenialCorrection .. | .approveDenialCorrection _ | .executeDenialCorrection _ => true
  | _ => false

/-- The subjects a call denies. -/
def Call.denied : Call → List Address
  | .deny subject _ _ => [subject]
  | .denyBatch subjects _ _ => subjects
  | _ => []

variable {s s' : ComplianceSource} {env : SourceEnv} {call : Call} {events : List SourceEvent}

theorem Effect.quiet (h : Effect s env call s' events) (hcall : call.governs = false) :
    s.Quiet s' := by
  cases h with
  | plain keeps plain =>
    refine ⟨keeps.corrections, keeps.nextId, fun u ↦ ?_, fun u hu ↦ .inl ?_⟩
    · rw [keeps.revision]
    · rwa [keeps.active] at hu
  | denied listVersion epoch denies =>
    refine ⟨denies.corrections, denies.nextId, denies.revision_le, fun u hu ↦ ?_⟩
    exact ((denies.active u).1 hu).symm.imp_right (denies.revision_lt u)
  | proposed | approved | executed => simp [Call.governs] at hcall
  | published => exact ⟨rfl, rfl, fun u ↦ le_rfl, fun u ↦ .inl⟩

/-- A denial raises the revision. -/
theorem revision_lt_of_denied {u : Address} (hu : u ∈ call.denied)
    (h : s.exec env call = .ok (s', events)) :
    s.sourceDenialRevision u < s'.sourceDenialRevision u := by
  cases call with
  | deny subject listVersion epoch => exact (deny_eq_ok h).1.revision_lt u hu
  | denyBatch subjects listVersion epoch => exact (denyBatch_eq_ok h).1.revision_lt u hu
  | _ => simp [Call.denied] at hu

end ComplianceSource

/-! ### Runs with a history -/

/-- A call with the environment it is made in. -/
structure SourceCall where
  env : SourceEnv
  call : ComplianceSource.Call

namespace ComplianceSource

/-- The transition of a run. -/
def step (s : ComplianceSource) (x : SourceCall) : Except SourceError ComplianceSource :=
  (s.exec x.env x.call).map Prod.fst

end ComplianceSource

/-- A call that went through, with the state it was made in. -/
abbrev SourceEntry := Entry ComplianceSource SourceCall

/-! ### The history of one correction -/

namespace SourceEntry

/-- The entry is a proposal and got an id. -/
def ProposesId (p : SourceEntry) (id : Uint 256) : Prop :=
  (∃ u a b e r, p.input.call = .proposeDenialCorrection u a b e r) ∧ p.state.nextDenialCorrectionId = id

/-- The entry approves the correction of an id. -/
def approvesId (id : Uint 256) (q : SourceEntry) : Bool :=
  match q.input.call with
  | .approveDenialCorrection id' => id' == id
  | _ => false

/-- The entry executes the correction of an id. -/
def executesId (id : Uint 256) (x : SourceEntry) : Bool :=
  match x.input.call with
  | .executeDenialCorrection id' => id' == id
  | _ => false

/-- The proposal of a correction, by an issuer, of a denial in force. -/
structure Proposes (p : SourceEntry) (id : Uint 256) (c : DenialCorrection) : Prop where
  call : p.input.call =
    .proposeDenialCorrection c.subject c.attrs c.claimsRoot c.evidenceHash c.reasonHash
  id : p.state.nextDenialCorrectionId = id
  subject_ne_zero : c.subject ≠ 0
  sender : p.input.env.sender = c.proposer
  issuer : p.state.isIssuer c.proposer = true
  active : p.state.sourceDenialActive c.subject = true
  revision : p.state.sourceDenialRevision c.subject = c.denialRevision
  executeAfter : c.executeAfter =
    BitVec.ofNat 40 (p.input.env.timestamp + ComplianceSource.MIN_DENIAL_CORRECTION_DELAY)

/-- Approving and executing leave the proposal. -/
theorem Proposes.mark {p : SourceEntry} {id : Uint 256} {c : DenialCorrection} (h : p.Proposes id c)
    (approver : Address) (executed : Bool) :
    p.Proposes id { c with approver := approver, executed := executed } :=
  ⟨h.call, h.id, h.subject_ne_zero, h.sender, h.issuer, h.active, h.revision, h.executeAfter⟩

/-- The approval of a correction, by an approver other than the proposer, while the denial is in
force at the revision of the proposal. -/
structure Approves (q : SourceEntry) (id : Uint 256) (c : DenialCorrection) : Prop where
  call : q.input.call = .approveDenialCorrection id
  sender : q.input.env.sender = c.approver
  role : q.state.isDenialCorrectionApprover c.approver = true
  other : c.approver ≠ c.proposer
  active : q.state.sourceDenialActive c.subject = true
  revision : q.state.sourceDenialRevision c.subject = c.denialRevision

/-- The execution of a correction, while its proposer is an issuer and the denial is in force at the
revision of the proposal. -/
structure Executes (x : SourceEntry) (id : Uint 256) (c : DenialCorrection) : Prop where
  call : x.input.call = .executeDenialCorrection id
  issuer : x.state.isIssuer c.proposer = true
  active : x.state.sourceDenialActive c.subject = true
  revision : x.state.sourceDenialRevision c.subject = c.denialRevision
  after : c.executeAfter.toNat ≤ x.input.env.timestamp
  valid : MarkAttrs.validAtIssuance c.attrs x.input.env.timestamp = true

end SourceEntry

/-- What the history says about the correction stored under an id. -/
structure Slot (log : List SourceEntry) (s : ComplianceSource) (id : Uint 256)
    (c : DenialCorrection) : Prop where
  empty : c.subject = 0 → c.approver = 0 ∧ c.executed = false
  approved : c.approver ≠ 0 →
    ∃ p q, [p, q].Sublist log ∧ p.Proposes id c ∧ q.Approves id c
  executed : c.executed = true → ∃ p q x, [p, q, x].Sublist log ∧ p.Proposes id c ∧
    q.Approves id c ∧ x.Executes id c
  approvals : log.countP (SourceEntry.approvesId id) = if c.approver = 0 then 0 else 1
  executions : log.countP (SourceEntry.executesId id) = if c.executed then 1 else 0
  owned : c.subject ≠ 0 → ∃ p ∈ log, p.Proposes id c
  proposals : ∀ p ∈ log, p.ProposesId id → p.Proposes id c
  revision_le : c.subject ≠ 0 → c.denialRevision ≤ s.sourceDenialRevision c.subject
  spent : c.executed = true → s.sourceDenialActive c.subject = true →
    c.denialRevision < s.sourceDenialRevision c.subject
  stale : ∀ p y, [p, y].Sublist log → p.ProposesId id → c.subject ∈ y.input.call.denied →
    c.denialRevision < s.sourceDenialRevision c.subject

namespace Slot

variable {log : List SourceEntry} {s s' : ComplianceSource} {id : Uint 256} {c : DenialCorrection}
  {x : SourceEntry}

/-- The last element of a sublist of a history that grew is the new entry, or an old one. -/
theorem sublist_concat {l : List SourceEntry} {y : SourceEntry}
    (h : (l ++ [y]).Sublist (log ++ [x])) : (l ++ [y]).Sublist log ∨ y = x ∧ l.Sublist log := by
  obtain ⟨l₁, l₂, hsplit, h₁, h₂⟩ := List.sublist_append_iff.1 h
  rcases List.sublist_singleton.1 h₂ with rfl | rfl
  · rw [List.append_nil] at hsplit
    exact .inl (hsplit ▸ h₁)
  · obtain ⟨rfl, hy⟩ := List.append_inj' hsplit rfl
    exact .inr ⟨List.singleton_inj.1 hy, h₁⟩

/-- A correction that has an execution or an approval has a subject. -/
theorem subject_ne_zero (h : Slot log s id c) (hexecuted : c.executed = true) : c.subject ≠ 0 :=
  fun hzero ↦ absurd (hexecuted.symm.trans (h.empty hzero).2) (by decide)

/-- **Every fact about a correction survives a call about something else.** -/
theorem keep (h : Slot log s id c) (happroves : x.approvesId id = false)
    (hexecutes : x.executesId id = false) (hproposes : ¬x.ProposesId id)
    (hle : ∀ u, s.sourceDenialRevision u ≤ s'.sourceDenialRevision u)
    (hactive : s'.sourceDenialActive c.subject = true → s.sourceDenialActive c.subject = true ∨
      s.sourceDenialRevision c.subject < s'.sourceDenialRevision c.subject)
    (hdenied : ∀ u ∈ x.input.call.denied, s.sourceDenialRevision u < s'.sourceDenialRevision u) :
    Slot (log ++ [x]) s' id c := by
  have hsub : log.Sublist (log ++ [x]) := List.sublist_append_left _ _
  constructor
  case empty => exact h.empty
  case approved =>
    intro happrover
    obtain ⟨p, q, hlog, htrail⟩ := h.approved happrover
    exact ⟨p, q, hlog.trans hsub, htrail⟩
  case executed =>
    intro hexecuted
    obtain ⟨p, q, y, hlog, htrail⟩ := h.executed hexecuted
    exact ⟨p, q, y, hlog.trans hsub, htrail⟩
  case approvals => rw [List.countP_append, List.countP_singleton, happroves, h.approvals]; simp
  case executions => rw [List.countP_append, List.countP_singleton, hexecutes, h.executions]; simp
  case owned =>
    intro hsubject
    obtain ⟨p, hp, hproposal⟩ := h.owned hsubject
    exact ⟨p, hsub.subset hp, hproposal⟩
  case proposals =>
    intro p hp hid
    rcases List.mem_append.1 hp with hp | hp
    · exact h.proposals p hp hid
    · rw [List.mem_singleton.1 hp] at hid
      exact absurd hid hproposes
  case revision_le => exact fun hsubject ↦ (h.revision_le hsubject).trans (hle _)
  case spent =>
    intro hexecuted hnow
    rcases hactive hnow with hbefore | hlt
    · exact (h.spent hexecuted hbefore).trans_le (hle _)
    · exact (h.revision_le (h.subject_ne_zero hexecuted)).trans_lt hlt
  case stale =>
    intro p y hpy hid hy
    rcases sublist_concat (l := [p]) hpy with hpy | ⟨rfl, hp⟩
    · exact (h.stale p y hpy hid hy).trans_le (hle _)
    · have hproposal := h.proposals p (List.singleton_sublist.1 hp) hid
      exact (h.revision_le hproposal.subject_ne_zero).trans_lt (hdenied _ hy)

/-- A new proposal. -/
theorem propose (h : Slot log s id c) (hempty : c.subject = 0) {c' : DenialCorrection}
    (hproposal : x.Proposes id c') (happrover : c'.approver = 0) (hexecuted : c'.executed = false)
    (hrevision : s'.sourceDenialRevision = s.sourceDenialRevision) (hstate : x.state = s) :
    Slot (log ++ [x]) s' id c' := by
  have hx : x.approvesId id = false ∧ x.executesId id = false := by
    simp [SourceEntry.approvesId, SourceEntry.executesId, hproposal.call]
  have hold : ∀ p ∈ log, ¬p.ProposesId id := fun p hp hid ↦
    (h.proposals p hp hid).subject_ne_zero hempty
  constructor
  case empty => exact fun hzero ↦ absurd hzero hproposal.subject_ne_zero
  case approved => exact fun hne ↦ absurd happrover hne
  case executed => exact fun htrue ↦ absurd (hexecuted.symm.trans htrue) (by decide)
  case approvals =>
    rw [List.countP_append, List.countP_singleton, hx.1, h.approvals, (h.empty hempty).1,
      happrover]
    simp
  case executions =>
    rw [List.countP_append, List.countP_singleton, hx.2, h.executions, (h.empty hempty).2,
      hexecuted]
    simp
  case owned => exact fun _ ↦ ⟨x, by simp, hproposal⟩
  case proposals =>
    intro p hp hid
    rcases List.mem_append.1 hp with hp | hp
    · exact absurd hid (hold p hp)
    · rwa [List.mem_singleton.1 hp]
  case revision_le =>
    intro _
    rw [hrevision, ← hproposal.revision, hstate]
  case spent => exact fun htrue ↦ absurd (hexecuted.symm.trans htrue) (by decide)
  case stale =>
    intro p y hpy hid _
    -- nothing is recorded after the proposal yet
    rcases sublist_concat (l := [p]) hpy with hpy | ⟨-, hp⟩
    · exact absurd hid (hold p (hpy.subset List.mem_cons_self))
    · exact absurd hid (hold p (List.singleton_sublist.1 hp))

/-- An approval. -/
theorem approve (h : Slot log s id c) (hopen : s.Open c) (hnone : c.approver = 0)
    {approver : Address} (hne : approver ≠ 0)
    (happroval : x.Approves id { c with approver := approver })
    (hrevision : s'.sourceDenialRevision = s.sourceDenialRevision) :
    Slot (log ++ [x]) s' id { c with approver := approver } := by
  have hx : x.approvesId id = true ∧ x.executesId id = false := by
    simp [SourceEntry.approvesId, SourceEntry.executesId, happroval.call]
  have hquiet : ¬x.ProposesId id := fun ⟨⟨_, _, _, _, _, hcall⟩, _⟩ ↦ by
    simp [happroval.call] at hcall
  have hdenied : x.input.call.denied = [] := by rw [happroval.call]; rfl
  have hfalse : c.executed ≠ true := by simp [hopen.executed]
  constructor
  case empty => exact fun hzero ↦ absurd hzero hopen.subject
  case approved =>
    intro _
    obtain ⟨p, hp, hproposal⟩ := h.owned hopen.subject
    exact ⟨p, x, (List.singleton_sublist.2 hp).append (List.Sublist.refl [x]),
      hproposal.mark approver c.executed, happroval⟩
  case executed => exact fun htrue ↦ absurd htrue hfalse
  case approvals =>
    rw [List.countP_append, List.countP_singleton, hx.1, h.approvals, hnone]
    simpa using hne
  case executions =>
    rw [List.countP_append, List.countP_singleton, hx.2, h.executions]
    simp
  case owned =>
    intro _
    obtain ⟨p, hp, hproposal⟩ := h.owned hopen.subject
    exact ⟨p, List.mem_append_left _ hp, hproposal.mark approver c.executed⟩
  case proposals =>
    intro p hp hid
    rcases List.mem_append.1 hp with hp | hp
    · exact (h.proposals p hp hid).mark approver c.executed
    · exact absurd (List.mem_singleton.1 hp ▸ hid) hquiet
  case revision_le =>
    rw [hrevision]
    exact h.revision_le
  case spent => exact fun htrue ↦ absurd htrue hfalse
  case stale =>
    intro p y hpy hid hy
    rw [hrevision]
    rcases sublist_concat (l := [p]) hpy with hpy | ⟨rfl, -⟩
    · exact h.stale p y hpy hid hy
    · rw [hdenied] at hy
      exact absurd hy List.not_mem_nil

/-- An execution. -/
theorem execute (h : Slot log s id c) (hopen : s.Open c) (happrover : c.approver ≠ 0)
    (hexecution : x.Executes id { c with executed := true })
    (hrevision : s'.sourceDenialRevision = s.sourceDenialRevision)
    (hactive : s'.sourceDenialActive c.subject = false) :
    Slot (log ++ [x]) s' id { c with executed := true } := by
  have hx : x.approvesId id = false ∧ x.executesId id = true := by
    simp [SourceEntry.approvesId, SourceEntry.executesId, hexecution.call]
  have hquiet : ¬x.ProposesId id := fun ⟨⟨_, _, _, _, _, hcall⟩, _⟩ ↦ by
    simp [hexecution.call] at hcall
  have hdenied : x.input.call.denied = [] := by rw [hexecution.call]; rfl
  obtain ⟨p, q, hpq, hproposal, happroval⟩ := h.approved happrover
  have hproposal' := hproposal.mark c.approver true
  have happroval' : q.Approves id { c with executed := true } :=
    ⟨happroval.call, happroval.sender, happroval.role, happroval.other, happroval.active,
      happroval.revision⟩
  constructor
  case empty => exact fun hzero ↦ absurd hzero hopen.subject
  case approved =>
    exact fun _ ↦ ⟨p, q, hpq.trans (List.sublist_append_left _ _), hproposal', happroval'⟩
  case executed =>
    exact fun _ ↦ ⟨p, q, x, hpq.append (List.Sublist.refl [x]), hproposal', happroval', hexecution⟩
  case approvals =>
    rw [List.countP_append, List.countP_singleton, hx.1, h.approvals]
    simp
  case executions =>
    rw [List.countP_append, List.countP_singleton, hx.2, h.executions, hopen.executed]
    simp
  case owned =>
    exact fun _ ↦ ⟨p, List.mem_append_left _ (hpq.subset List.mem_cons_self), hproposal'⟩
  case proposals =>
    intro p hp hid
    rcases List.mem_append.1 hp with hp | hp
    · exact (h.proposals p hp hid).mark c.approver true
    · exact absurd (List.mem_singleton.1 hp ▸ hid) hquiet
  case revision_le =>
    rw [hrevision]
    exact h.revision_le
  case spent => exact fun _ htrue ↦ absurd (hactive.symm.trans htrue) (by decide)
  case stale =>
    intro p y hpy hid hy
    rw [hrevision]
    rcases sublist_concat (l := [p]) hpy with hpy | ⟨rfl, -⟩
    · exact h.stale p y hpy hid hy
    · rw [hdenied] at hy
      exact absurd hy List.not_mem_nil

end Slot

/-! ### Along a run -/

/-- What the history of a run says about its corrections. -/
structure Trail (log : List SourceEntry) (s : ComplianceSource) : Prop where
  sound : s.Sound
  slots : ∀ id, Slot log s id (s.denialCorrections id)
  one : ∀ id id', (s.denialCorrections id).executed = true →
    (s.denialCorrections id').executed = true →
    (s.denialCorrections id).subject = (s.denialCorrections id').subject →
    (s.denialCorrections id).denialRevision = (s.denialCorrections id').denialRevision → id = id'
  dead : ∀ p y z id, [p, y, z].Sublist log → p.ProposesId id →
    (s.denialCorrections id).subject ∈ y.input.call.denied →
    z.approvesId id = false ∧ z.executesId id = false

namespace Trail

open ComplianceSource

variable {log : List SourceEntry} {s s' : ComplianceSource} {x : SourceEntry}
  {events : List SourceEvent}

/-- A new entry that is not about the correction of a stale proposal keeps `dead`. -/
theorem dead_concat (h : Trail log s) (hsubject : ∀ id, (∃ p ∈ log, p.ProposesId id) →
      (s'.denialCorrections id).subject = (s.denialCorrections id).subject)
    (hx : ∀ id, (x.approvesId id = true ∨ x.executesId id = true) →
      s.sourceDenialRevision (s.denialCorrections id).subject =
        (s.denialCorrections id).denialRevision) :
    ∀ p y z id, [p, y, z].Sublist (log ++ [x]) → p.ProposesId id →
      (s'.denialCorrections id).subject ∈ y.input.call.denied →
      z.approvesId id = false ∧ z.executesId id = false := by
  intro p y z id hpyz hid hy
  rcases Slot.sublist_concat (l := [p, y]) hpyz with hpyz | ⟨rfl, hpy⟩
  · rw [hsubject id ⟨p, hpyz.subset List.mem_cons_self, hid⟩] at hy
    exact h.dead p y z id hpyz hid hy
  · -- the new entry would need the revision of the proposal, which the denial raised
    rw [hsubject id ⟨p, hpy.subset List.mem_cons_self, hid⟩] at hy
    have hlt := (h.slots id).stale p y hpy hid hy
    have hnot : ¬(z.approvesId id = true ∨ z.executesId id = true) := fun hbad ↦
      hlt.ne (hx id hbad).symm
    simpa [not_or] using hnot

/-- A call that is not about corrections. -/
theorem quiet (h : Trail log s) (hcall : x.input.call.governs = false)
    (hexec : s.exec x.input.env x.input.call = .ok (s', events)) : Trail (log ++ [x]) s' := by
  have heffect := exec_effect hexec
  have hquiet := heffect.quiet hcall
  have hx : ∀ id, x.approvesId id = false ∧ x.executesId id = false ∧ ¬x.ProposesId id := by
    intro id
    generalize hc : x.input.call = call at hcall
    cases call <;> simp_all [Call.governs, SourceEntry.approvesId, SourceEntry.executesId,
      SourceEntry.ProposesId]
  constructor
  case sound => exact heffect.sound h.sound
  case slots =>
    intro id
    rw [hquiet.corrections]
    obtain ⟨happroves, hexecutes, hproposes⟩ := hx id
    exact (h.slots id).keep happroves hexecutes hproposes hquiet.revision_le (hquiet.active _)
      fun u hu ↦ revision_lt_of_denied hu hexec
  case one =>
    rw [hquiet.corrections]
    exact h.one
  case dead =>
    refine h.dead_concat (fun id _ ↦ by rw [hquiet.corrections]) fun id hbad ↦ ?_
    simp [(hx id).1, (hx id).2.1] at hbad

/-- A call about one correction: what it does to the other slots. -/
theorem other (h : Trail log s) {id' : Uint 256} (happroves : x.approvesId id' = false)
    (hexecutes : x.executesId id' = false) (hproposes : ¬x.ProposesId id')
    (hdenied : x.input.call.denied = [])
    (hrevision : s'.sourceDenialRevision = s.sourceDenialRevision)
    (hactive : ∀ u, s'.sourceDenialActive u = true → s.sourceDenialActive u = true) :
    Slot (log ++ [x]) s' id' (s.denialCorrections id') :=
  (h.slots id').keep happroves hexecutes hproposes (fun u ↦ by rw [hrevision])
    (fun hu ↦ .inl (hactive _ hu)) fun u hu ↦ by simp [hdenied] at hu

theorem propose (h : Trail log s) (hstate : x.state = s) {u : Address} {a b e r : Bytes32}
    (hcall : x.input.call = .proposeDenialCorrection u a b e r)
    (hexec : s.exec x.input.env x.input.call = .ok (s', events)) : Trail (log ++ [x]) s' := by
  have hsound := (exec_effect hexec).sound h.sound
  rw [hcall] at hexec
  obtain ⟨hissuer, hsubject, hactive, hreason, hid, rfl, -⟩ :=
    proposeDenialCorrection_eq_ok hexec
  have hempty : (s.denialCorrections s.nextDenialCorrectionId).subject = 0 := by
    by_contra hne
    exact lt_irrefl _ (h.sound.id_lt _ hne)
  have hproposal : x.Proposes s.nextDenialCorrectionId (s.proposal x.input.env u a b e r) := by
    refine ⟨hcall, by rw [hstate], hsubject, rfl, ?_, ?_, ?_, rfl⟩ <;> rw [hstate]
    · exact hissuer
    · exact hactive
    · rfl
  have hx : ∀ id, x.approvesId id = false ∧ x.executesId id = false := by
    simp [SourceEntry.approvesId, SourceEntry.executesId, hcall]
  have hne_of_old : ∀ id, (∃ p ∈ log, p.ProposesId id) → id ≠ s.nextDenialCorrectionId := by
    rintro id ⟨p, hp, hpid⟩ rfl
    exact ((h.slots _).proposals p hp hpid).subject_ne_zero hempty
  have hcorrections : ∀ id, id ≠ s.nextDenialCorrectionId →
      (s.addCorrection (s.proposal x.input.env u a b e r)).denialCorrections id =
        s.denialCorrections id := fun id hne ↦ setCorrection_of_ne hne
  have hnew : (s.addCorrection (s.proposal x.input.env u a b e r)).denialCorrections
      s.nextDenialCorrectionId = s.proposal x.input.env u a b e r := setCorrection_self _ _ _
  -- an executed correction is an old one
  have hexecuted : ∀ id, ((s.addCorrection (s.proposal x.input.env u a b e r)).denialCorrections
      id).executed = true → id ≠ s.nextDenialCorrectionId := by
    rintro id htrue rfl
    rw [hnew] at htrue
    exact absurd htrue (by simp [proposal])
  constructor
  case sound => exact hsound
  case slots =>
    intro id
    rcases eq_or_ne id s.nextDenialCorrectionId with rfl | hne
    · rw [hnew]
      exact (h.slots _).propose hempty hproposal rfl rfl rfl hstate
    · rw [hcorrections id hne]
      refine h.other (hx id).1 (hx id).2 (fun hpid ↦ hne ?_) (by rw [hcall]; rfl) rfl
        fun _ hu ↦ hu
      rw [← hpid.2, hstate]
  case one =>
    intro id id' hex hex' hsub hrev
    have hold := hcorrections id (hexecuted id hex)
    have hold' := hcorrections id' (hexecuted id' hex')
    rw [hold] at hex hsub hrev
    rw [hold'] at hex' hsub hrev
    exact h.one id id' hex hex' hsub hrev
  case dead =>
    refine h.dead_concat (fun id hold ↦ by rw [hcorrections id (hne_of_old id hold)])
      fun id hbad ↦ ?_
    simp [(hx id).1, (hx id).2] at hbad

theorem approve (h : Trail log s) (hstate : x.state = s) {id : Uint 256}
    (hcall : x.input.call = .approveDenialCorrection id)
    (hexec : s.exec x.input.env x.input.call = .ok (s', events)) : Trail (log ++ [x]) s' := by
  have hsound := (exec_effect hexec).sound h.sound
  rw [hcall] at hexec
  obtain ⟨hrole, hopen, hnone, hother, rfl, -⟩ := approveDenialCorrection_eq_ok rfl hexec
  have happroval : x.Approves id { s.denialCorrections id with approver := x.input.env.sender } := by
    refine ⟨hcall, rfl, ?_, hother.symm, ?_, ?_⟩ <;> rw [hstate]
    · exact hrole
    · exact hopen.active
    · exact hopen.revision
  have hx : ∀ id', id' ≠ id → x.approvesId id' = false := fun id' hne ↦ by
    simp [SourceEntry.approvesId, hcall, hne.symm]
  have hx' : ∀ id', x.executesId id' = false ∧ ¬x.ProposesId id' := by
    simp [SourceEntry.executesId, SourceEntry.ProposesId, hcall]
  -- the fields of a correction other than its approver stay
  have hfields : ∀ id', ∃ approver, (s.setCorrection id { s.denialCorrections id with
      approver := x.input.env.sender }).denialCorrections id' =
        { s.denialCorrections id' with approver := approver } := fun id' ↦ by
    rcases eq_or_ne id' id with rfl | hne
    · exact ⟨_, setCorrection_self _ _ _⟩
    · exact ⟨_, setCorrection_of_ne hne⟩
  constructor
  case sound => exact hsound
  case slots =>
    intro id'
    rcases eq_or_ne id' id with rfl | hne
    · rw [setCorrection_self]
      exact (h.slots _).approve hopen hnone x.input.env.sender_ne_zero happroval rfl
    · rw [setCorrection_of_ne hne]
      exact h.other (hx id' hne) (hx' id').1 (hx' id').2 (by rw [hcall]; rfl) rfl
        fun _ hu ↦ hu
  case one =>
    intro id₁ id₂ hex₁ hex₂ hsub hrev
    obtain ⟨a₁, h₁⟩ := hfields id₁
    obtain ⟨a₂, h₂⟩ := hfields id₂
    rw [h₁] at hex₁ hsub hrev
    rw [h₂] at hex₂ hsub hrev
    exact h.one id₁ id₂ hex₁ hex₂ hsub hrev
  case dead =>
    refine h.dead_concat (fun id' _ ↦ ?_) fun id' hbad ↦ ?_
    · obtain ⟨a, ha⟩ := hfields id'
      rw [ha]
    · rw [(hx' id').1] at hbad
      obtain rfl : id' = id := by
        by_contra hne
        simp [hx id' hne] at hbad
      exact hopen.revision

theorem execute (h : Trail log s) (hstate : x.state = s) {id : Uint 256}
    (hcall : x.input.call = .executeDenialCorrection id)
    (hexec : s.exec x.input.env x.input.call = .ok (s', events)) : Trail (log ++ [x]) s' := by
  have hsound := (exec_effect hexec).sound h.sound
  rw [hcall] at hexec
  obtain ⟨hopen, happrover, hvalid, hissuer, hdelay, rfl, -⟩ :=
    executeDenialCorrection_eq_ok rfl hexec
  have hexecution : x.Executes id { s.denialCorrections id with executed := true } := by
    refine ⟨hcall, ?_, ?_, ?_, hdelay, hvalid⟩ <;> rw [hstate]
    · exact hissuer
    · exact hopen.active
    · exact hopen.revision
  have hx : ∀ id', id' ≠ id → x.executesId id' = false := fun id' hne ↦ by
    simp [SourceEntry.executesId, hcall, hne.symm]
  have hx' : ∀ id', x.approvesId id' = false ∧ ¬x.ProposesId id' := by
    simp [SourceEntry.approvesId, SourceEntry.ProposesId, hcall]
  set s' := (s.setCorrection id { s.denialCorrections id with executed := true }).clearDenial
    (s.denialCorrections id).subject with hs'
  have hself : s'.denialCorrections id = { s.denialCorrections id with executed := true } :=
    setCorrection_self _ _ _
  have hothers : ∀ id', id' ≠ id → s'.denialCorrections id' = s.denialCorrections id' :=
    fun id' hne ↦ setCorrection_of_ne hne
  -- a correction executed before is of another subject or of an earlier revision
  have hfresh : ∀ id', id' ≠ id → (s.denialCorrections id').executed = true →
      (s.denialCorrections id').subject = (s.denialCorrections id).subject →
      (s.denialCorrections id').denialRevision ≠ (s.denialCorrections id).denialRevision := by
    intro id' _ hex hsub hrev
    have hspent := (h.slots id').spent hex (by rw [hsub]; exact hopen.active)
    rw [hsub, hrev, hopen.revision] at hspent
    exact lt_irrefl _ hspent
  constructor
  case sound => exact hsound
  case slots =>
    intro id'
    rcases eq_or_ne id' id with rfl | hne
    · rw [hself]
      exact (h.slots _).execute hopen happrover hexecution rfl (by simp [hs', clearDenial])
    · rw [hothers id' hne]
      refine h.other (hx' id').1 (hx id' hne) (hx' id').2 (by rw [hcall]; rfl) rfl fun u hu ↦ ?_
      exact (clearDenial_active.1 hu).2
  case one =>
    intro id₁ id₂ hex₁ hex₂ hsub hrev
    rcases eq_or_ne id₁ id with rfl | hne₁ <;> rcases eq_or_ne id₂ id₁ with rfl | hne
    · rfl
    · rw [hothers id₂ hne] at hex₂ hsub hrev
      rw [hself] at hsub hrev
      exact absurd hrev.symm (hfresh id₂ hne hex₂ hsub.symm)
    · rfl
    · rcases eq_or_ne id₂ id with rfl | hne₂
      · rw [hothers id₁ hne₁] at hex₁ hsub hrev
        rw [hself] at hsub hrev
        exact absurd hrev (hfresh id₁ hne₁ hex₁ hsub)
      · rw [hothers id₁ hne₁] at hex₁ hsub hrev
        rw [hothers id₂ hne₂] at hex₂ hsub hrev
        exact h.one id₁ id₂ hex₁ hex₂ hsub hrev
  case dead =>
    refine h.dead_concat (fun id' _ ↦ ?_) fun id' hbad ↦ ?_
    · rcases eq_or_ne id' id with rfl | hne
      · rw [hself]
      · rw [hothers id' hne]
    · rw [(hx' id').1] at hbad
      obtain rfl : id' = id := by
        by_contra hne
        simp [hx id' hne] at hbad
      exact hopen.revision

/-- **Every call keeps the trail.** -/
theorem concat (h : Trail log s) (hstate : x.state = s)
    (hexec : s.exec x.input.env x.input.call = .ok (s', events)) : Trail (log ++ [x]) s' := by
  generalize hcall : x.input.call = call
  cases call with
  | proposeDenialCorrection => exact h.propose hstate hcall hexec
  | approveDenialCorrection => exact h.approve hstate hcall hexec
  | executeDenialCorrection => exact h.execute hstate hcall hexec
  | _ => exact h.quiet (by rw [hcall]; rfl) hexec

end Trail

/-- **The trail of every run.** -/
theorem trail_history (owner : Address) (calls : List SourceCall) :
    Trail (history ComplianceSource.step (ComplianceSource.deployed owner) calls)
      (run ComplianceSource.step (ComplianceSource.deployed owner) calls) := by
  refine history_rule ?_ (fun log s x s' h hstep ↦ ?_) calls
  · constructor
    case sound => exact ComplianceSource.sound_deployed owner
    case slots =>
      intro id
      constructor <;> simp [ComplianceSource.deployed, DenialCorrection.zero]
    case one => simp [ComplianceSource.deployed, DenialCorrection.zero]
    case dead => simp
  · obtain ⟨⟨s'', events⟩, hexec, rfl⟩ := map_eq_ok.1 hstep
    exact h.concat rfl hexec

/-! ### The law of corrections -/

/-- An executed correction was proposed an hour before exactly if the end of that hour fits in 40
bits: otherwise the stored end is in the past. -/
theorem delay_iff {id : Uint 256} {c : DenialCorrection} {p x : SourceEntry} (hp : p.Proposes id c)
    (hx : x.Executes id c) :
    p.input.env.timestamp + ComplianceSource.MIN_DENIAL_CORRECTION_DELAY ≤ x.input.env.timestamp ↔
      p.input.env.timestamp + ComplianceSource.MIN_DENIAL_CORRECTION_DELAY < 2 ^ 40 := by
  have hafter := hx.after
  rw [hp.executeAfter, BitVec.toNat_ofNat] at hafter
  -- a valid credential expires within 40 bits
  have hexpiry : x.input.env.timestamp < 2 ^ 40 := by
    have hvalid := hx.valid
    simp only [MarkAttrs.validAtIssuance, Bool.and_eq_true, decide_eq_true_eq] at hvalid
    exact hvalid.2.trans (MarkAttrs.expiry c.attrs).isLt
  constructor
  · exact fun hle ↦ lt_of_le_of_lt hle hexpiry
  · intro hlt
    rwa [Nat.mod_eq_of_lt hlt] at hafter

/-- The law of corrections: every executed one was proposed by an issuer, approved once by an approver
other than the proposer, executed once an hour later while the proposer was an issuer, all at one
revision of a denial in force; a revision is corrected at most once; and what was proposed before a
denial is neither approved nor executed after it. -/
structure Governed (log : List SourceEntry) (s : ComplianceSource) : Prop where
  authorized : ∀ id, (∃ x ∈ log, x.input.call = .executeDenialCorrection id) →
    ∃ p q x, [p, q, x].Sublist log ∧ p.Proposes id (s.denialCorrections id) ∧
      q.Approves id (s.denialCorrections id) ∧ x.Executes id (s.denialCorrections id) ∧
      log.countP (SourceEntry.approvesId id) = 1 ∧ log.countP (SourceEntry.executesId id) = 1
  delayed : ∀ id p x, p ∈ log → x ∈ log → p.Proposes id (s.denialCorrections id) →
    x.Executes id (s.denialCorrections id) →
    p.input.env.timestamp + ComplianceSource.MIN_DENIAL_CORRECTION_DELAY ≤ x.input.env.timestamp
  one : ∀ id id', (∃ x ∈ log, x.input.call = .executeDenialCorrection id) →
    (∃ x ∈ log, x.input.call = .executeDenialCorrection id') →
    (s.denialCorrections id).subject = (s.denialCorrections id').subject →
    (s.denialCorrections id).denialRevision = (s.denialCorrections id').denialRevision → id = id'
  dead : ∀ p y z id u a b e r, [p, y, z].Sublist log →
    p.input.call = .proposeDenialCorrection u a b e r → p.state.nextDenialCorrectionId = id →
    u ∈ y.input.call.denied → z.input.call ≠ .approveDenialCorrection id ∧ z.input.call ≠ .executeDenialCorrection id

theorem SourceEntry.approvesId_iff {id : Uint 256} {q : SourceEntry} :
    q.approvesId id = true ↔ q.input.call = .approveDenialCorrection id := by
  rw [approvesId]
  split
  case h_1 id' hcall => simp [hcall]
  case h_2 hother => simpa using hother id

theorem SourceEntry.executesId_iff {id : Uint 256} {x : SourceEntry} :
    x.executesId id = true ↔ x.input.call = .executeDenialCorrection id := by
  rw [executesId]
  split
  case h_1 id' hcall => simp [hcall]
  case h_2 hother => simpa using hother id

namespace Trail

variable {log : List SourceEntry} {s : ComplianceSource}

/-- What was executed is stored as executed, and the trail of it has the call that did. -/
theorem executed (h : Trail log s) {id : Uint 256} {x : SourceEntry} (hx : x ∈ log)
    (hcall : x.input.call = .executeDenialCorrection id) : (s.denialCorrections id).executed = true := by
  have hpos : 0 < log.countP (SourceEntry.executesId id) :=
    List.countP_pos_iff.2 ⟨x, hx, SourceEntry.executesId_iff.2 hcall⟩
  rw [(h.slots id).executions] at hpos
  by_contra hfalse
  rw [if_neg hfalse] at hpos
  exact absurd hpos (lt_irrefl 0)

/-- **The law holds up to the delay.** -/
theorem governed (h : Trail log s) (hdelay : ∀ id p x, p ∈ log → x ∈ log →
      p.Proposes id (s.denialCorrections id) → x.Executes id (s.denialCorrections id) →
      p.input.env.timestamp + ComplianceSource.MIN_DENIAL_CORRECTION_DELAY < 2 ^ 40) :
    Governed log s := by
  constructor
  case authorized =>
    rintro id ⟨y, hy, hcall⟩
    have hexecuted := h.executed hy hcall
    obtain ⟨p, q, x, hpqx, hp, hq, hx⟩ := (h.slots id).executed hexecuted
    have happrover : (s.denialCorrections id).approver ≠ 0 := by
      rw [← hq.sender]
      exact q.input.env.sender_ne_zero
    refine ⟨p, q, x, hpqx, hp, hq, hx, ?_, ?_⟩
    · rw [(h.slots id).approvals, if_neg happrover]
    · rw [(h.slots id).executions, if_pos hexecuted]
  case delayed =>
    exact fun id p x hp hx hproposes hexecutes ↦
      (delay_iff hproposes hexecutes).2 (hdelay id p x hp hx hproposes hexecutes)
  case one =>
    rintro id id' ⟨x, hx, hcall⟩ ⟨x', hx', hcall'⟩ hsub hrev
    exact h.one id id' (h.executed hx hcall) (h.executed hx' hcall') hsub hrev
  case dead =>
    intro p y z id u a b e r hpyz hcall hid hy
    have hpid : p.ProposesId id := ⟨⟨u, a, b, e, r, hcall⟩, hid⟩
    have hproposal := (h.slots id).proposals p (hpyz.subset (by simp)) hpid
    -- the stored subject is the one proposed
    obtain rfl : u = (s.denialCorrections id).subject := by
      have hsame := hcall.symm.trans hproposal.call
      injection hsame
    obtain ⟨happroves, hexecutes⟩ := h.dead p y z id hpyz hpid hy
    constructor
    · intro hz
      exact absurd (happroves.symm.trans (SourceEntry.approvesId_iff.2 hz)) (by decide)
    · intro hz
      exact absurd (hexecutes.symm.trans (SourceEntry.executesId_iff.2 hz)) (by decide)

end Trail

/-- **When corrections are governed.** A run obeys the law of corrections if and only if no correction
that was executed was proposed so late that the end of its delay needs more than 40 bits; so every run
does whose proposals are all made before that. -/
theorem governed_iff (owner : Address) (calls : List SourceCall) :
    let s := run ComplianceSource.step (ComplianceSource.deployed owner) calls
    let log : List SourceEntry :=
      history ComplianceSource.step (ComplianceSource.deployed owner) calls
    (Governed log s ↔ ∀ id p x, p ∈ log → x ∈ log → p.Proposes id (s.denialCorrections id) →
      x.Executes id (s.denialCorrections id) →
      p.input.env.timestamp + ComplianceSource.MIN_DENIAL_CORRECTION_DELAY < 2 ^ 40) ∧
    ((∀ y ∈ calls, ∀ u a b e r, y.call = .proposeDenialCorrection u a b e r →
      y.env.timestamp + ComplianceSource.MIN_DENIAL_CORRECTION_DELAY < 2 ^ 40) →
      Governed log s) := by
  intro s log
  have htrail := trail_history owner calls
  refine ⟨⟨fun h id p x hp hx hproposes hexecutes ↦ ?_, htrail.governed⟩, fun hearly ↦ ?_⟩
  · exact (delay_iff hproposes hexecutes).1 (h.delayed id p x hp hx hproposes hexecutes)
  · refine htrail.governed fun id p x hp _ hproposes _ ↦ ?_
    have haccepted : p.input ∈ accepted ComplianceSource.step (ComplianceSource.deployed owner)
        calls := by
      rw [← map_input_history]
      exact List.mem_map_of_mem hp
    exact hearly _ (accepted_subset haccepted) _ _ _ _ _ hproposes.call

/-- A run that corrects a denial an hour after the proposal. -/
def sampleCorrection (proposed executed : ℕ) : List SourceCall :=
  let env (timestamp : ℕ) (sender : Address) (h : sender ≠ 0) : SourceEnv :=
    ⟨0x501, 1, 100, timestamp, sender, h, noCode⟩
  let attrs := MarkAttrs.pack 1 3 1 840 1 1700000000 0xffffffffff 1
  [⟨env proposed 1 sampleOwner_ne_zero, .setIssuer 0xCA11 true⟩,
    ⟨env proposed 1 sampleOwner_ne_zero, .setDenialCorrectionApprover 0xA9900 true⟩,
    ⟨env proposed 0xCA11 sampleIssuer_ne_zero, .deny 0x3001 2 1⟩,
    ⟨env proposed 0xCA11 sampleIssuer_ne_zero, .proposeDenialCorrection 0x3001 attrs 5 6 4⟩,
    ⟨env proposed 0xA9900 sampleApprover_ne_zero, .approveDenialCorrection 1⟩,
    ⟨env executed 0xF00D sampleExecutor_ne_zero, .executeDenialCorrection 1⟩]

/-- What went through in the sample. -/
def sampleHistory (proposed executed : ℕ) : List SourceEntry :=
  history ComplianceSource.step (ComplianceSource.deployed 1) (sampleCorrection proposed executed)

/-- The sample obeys the law, and its correction is executed. -/
theorem governed_sampleCorrection :
    Governed (sampleHistory 1700086400 1700090000) (run ComplianceSource.step
      (ComplianceSource.deployed 1) (sampleCorrection 1700086400 1700090000)) ∧
    (sampleHistory 1700086400 1700090000).countP (SourceEntry.executesId 1) = 1 := by
  refine ⟨(governed_iff 1 (sampleCorrection 1700086400 1700090000)).2 ?_, by decide +kernel⟩
  simp [sampleCorrection, ComplianceSource.MIN_DENIAL_CORRECTION_DELAY]

/-- Half an hour before time needs more than 40 bits, a correction is proposed, approved and executed
at one time. -/
theorem not_governed_late :
    ¬Governed (sampleHistory (2 ^ 40 - 1800) (2 ^ 40 - 1800)) (run ComplianceSource.step
      (ComplianceSource.deployed 1) (sampleCorrection (2 ^ 40 - 1800) (2 ^ 40 - 1800))) := by
  intro h
  have hexecuted : (sampleHistory (2 ^ 40 - 1800) (2 ^ 40 - 1800)).any
      (SourceEntry.executesId 1) = true := by decide +kernel
  have hsame : (sampleHistory (2 ^ 40 - 1800) (2 ^ 40 - 1800)).all
      (fun y ↦ y.input.env.timestamp == 2 ^ 40 - 1800) = true := by decide +kernel
  obtain ⟨y, hy, hcall⟩ := List.any_eq_true.1 hexecuted
  obtain ⟨p, q, x, hpqx, hp, -, hx, -⟩ :=
    h.authorized 1 ⟨y, hy, SourceEntry.executesId_iff.1 hcall⟩
  have htime : ∀ y ∈ sampleHistory (2 ^ 40 - 1800) (2 ^ 40 - 1800),
      y.input.env.timestamp = 2 ^ 40 - 1800 := fun y hy ↦
    beq_iff_eq.1 (List.all_eq_true.1 hsame y hy)
  have hpmem := hpqx.subset (show p ∈ [p, q, x] by simp)
  have hxmem := hpqx.subset (show x ∈ [p, q, x] by simp)
  have hdelay := h.delayed 1 p x hpmem hxmem hp hx
  rw [htime p hpmem, htime x hxmem, ComplianceSource.MIN_DENIAL_CORRECTION_DELAY] at hdelay
  omega

end Proofmark
