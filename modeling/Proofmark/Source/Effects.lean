import Mathlib.Data.List.Nodup
import Proofmark.Contracts.ComplianceSource
import Proofmark.Evm.Execution

/-!
# What one call to the source can do

`exec_effect` is the one inversion of the source: a call that succeeded had one of the six effects
of `Effect`, with its guards. Most calls are plain, they change roles or nothing and emit events
about which the registers say nothing. The other five move the registers of denial, correction and
epochs, and every invariant of the source is proved by cases on them.
-/

open Evm

namespace Proofmark

/-- The events of a plain call in a block, with what the contract checked of them. -/
def SourceEvent.Plain (number : Uint 64) : SourceEvent → Prop
  | .MarkIssued .. | .MarkRevoked .. | .IssuerSet .. | .EpochPublisherSet ..
  | .DenialCorrectionApproverSet .. | .OwnershipTransferStarted .. | .OwnershipTransferred .. =>
    True
  | .KeyedMarkIssued _ _ _ issuerKeyEpoch _ _ => issuerKeyEpoch ≠ 0
  | .IssuerKeyCompromised issuer issuerKeyEpoch lastTrustedBlock reasonHash =>
    issuer ≠ 0 ∧ issuerKeyEpoch ≠ 0 ∧ lastTrustedBlock < number ∧ reasonHash ≠ 0
  | .SanctionDenied .. | .SanctionDenialCorrected .. | .RosterEpochPublished ..
  | .RosterIssuerAuthorized .. | .RosterIssuerKeyAuthorized .. | .DenialCorrectionProposed ..
  | .DenialCorrectionApproved .. => False

/-- The events that authorise one issuer, with the generation of its key, for a roster. -/
def SourceEvent.authorization (epoch : Uint 32) (root : Bytes32) (x : Address × Uint 64) :
    List SourceEvent :=
  .RosterIssuerAuthorized epoch root x.1 ::
    if x.2 ≠ 0 then [.RosterIssuerKeyAuthorized epoch root x.1 x.2] else []

namespace ComplianceSource

/-- The registers of denial, correction and epochs stay as they are. -/
structure Keeps (s s' : ComplianceSource) : Prop where
  lastEpoch : s'.lastEpoch = s.lastEpoch
  active : s'.sourceDenialActive = s.sourceDenialActive
  revision : s'.sourceDenialRevision = s.sourceDenialRevision
  corrections : s'.denialCorrections = s.denialCorrections
  nextId : s'.nextDenialCorrectionId = s.nextDenialCorrectionId

theorem Keeps.refl (s : ComplianceSource) : s.Keeps s :=
  ⟨rfl, rfl, rfl, rfl, rfl⟩

/-- A list of subjects was denied, some perhaps more than once. -/
structure Denies (s s' : ComplianceSource) (subjects : List Address) : Prop where
  lastEpoch : s'.lastEpoch = s.lastEpoch
  corrections : s'.denialCorrections = s.denialCorrections
  nextId : s'.nextDenialCorrectionId = s.nextDenialCorrectionId
  active : ∀ u, s'.sourceDenialActive u = true ↔ u ∈ subjects ∨ s.sourceDenialActive u = true
  revision_lt : ∀ u ∈ subjects, s.sourceDenialRevision u < s'.sourceDenialRevision u
  revision_of_notMem : ∀ u, u ∉ subjects → s'.sourceDenialRevision u = s.sourceDenialRevision u

/-- A denied subject has a positive revision. -/
theorem Denies.revision_of_mem {s s' : ComplianceSource} {subjects : List Address}
    (h : s.Denies s' subjects) {u : Address} (hu : u ∈ subjects) :
    s'.sourceDenialRevision u ≠ 0 := fun hzero ↦ by
  have hlt := h.revision_lt u hu
  rw [hzero] at hlt
  exact BitVec.not_lt_zero hlt

/-- A proposal as `proposeDenialCorrection` stores it. -/
def proposal (s : ComplianceSource) (env : SourceEnv) (subject : Address)
    (attrs claimsRoot evidenceHash reasonHash : Bytes32) : DenialCorrection where
  subject := subject
  proposer := env.sender
  approver := 0
  attrs := attrs
  claimsRoot := claimsRoot
  evidenceHash := evidenceHash
  reasonHash := reasonHash
  denialRevision := s.sourceDenialRevision subject
  executeAfter := BitVec.ofNat 40 (env.timestamp + MIN_DENIAL_CORRECTION_DELAY)
  executed := false

/-- A proposal that the current denial of its subject keeps alive. -/
structure Open (s : ComplianceSource) (c : DenialCorrection) : Prop where
  subject : c.subject ≠ 0
  executed : c.executed = false
  active : s.sourceDenialActive c.subject = true
  revision : s.sourceDenialRevision c.subject = c.denialRevision

/-- Store a proposal under an id. -/
def setCorrection (s : ComplianceSource) (id : Uint 256) (c : DenialCorrection) :
    ComplianceSource :=
  { s with denialCorrections := Function.update s.denialCorrections id c }

@[simp]
theorem setCorrection_self (s : ComplianceSource) (id : Uint 256) (c : DenialCorrection) :
    (s.setCorrection id c).denialCorrections id = c :=
  Function.update_self _ _ _

theorem setCorrection_of_ne {s : ComplianceSource} {id id' : Uint 256} {c : DenialCorrection}
    (h : id' ≠ id) : (s.setCorrection id c).denialCorrections id' = s.denialCorrections id' :=
  Function.update_of_ne h _ _

/-- Store a proposal under the next id. -/
def addCorrection (s : ComplianceSource) (c : DenialCorrection) : ComplianceSource :=
  { s.setCorrection s.nextDenialCorrectionId c with
    nextDenialCorrectionId := s.nextDenialCorrectionId + 1 }

/-- Lift the denial of a subject. -/
def clearDenial (s : ComplianceSource) (subject : Address) : ComplianceSource :=
  { s with sourceDenialActive := Function.update s.sourceDenialActive subject false }

theorem clearDenial_active {s : ComplianceSource} {subject u : Address} :
    (s.clearDenial subject).sourceDenialActive u = true ↔
      u ≠ subject ∧ s.sourceDenialActive u = true := by
  by_cases h : u = subject <;> simp [clearDenial, h]

/-- **The effects of a call that succeeds.** -/
inductive Effect (s : ComplianceSource) (env : SourceEnv) :
    Call → ComplianceSource → List SourceEvent → Prop
  | plain {call : Call} {s' : ComplianceSource} {events : List SourceEvent}
      (keeps : s.Keeps s') (plain : ∀ e ∈ events, e.Plain env.number) : Effect s env call s' events
  | denied {call : Call} {s' : ComplianceSource} {subjects : List Address}
      (listVersion epoch : Uint 32) (denies : s.Denies s' subjects) :
      Effect s env call s' (subjects.map (.SanctionDenied · listVersion epoch))
  | proposed (subject : Address) (attrs claimsRoot evidenceHash reasonHash : Bytes32)
      {c : DenialCorrection}
      (terms : c = s.proposal env subject attrs claimsRoot evidenceHash reasonHash)
      (subject_ne_zero : subject ≠ 0) (active : s.sourceDenialActive subject = true)
      (reason_ne_zero : reasonHash ≠ 0)
      (id_lt : s.nextDenialCorrectionId ≠ BitVec.allOnes 256) :
      Effect s env (.proposeDenialCorrection subject attrs claimsRoot evidenceHash reasonHash)
        (s.addCorrection c)
        [.DenialCorrectionProposed s.nextDenialCorrectionId subject c.denialRevision env.sender
          reasonHash c.executeAfter]
  | approved (id : Uint 256) {c : DenialCorrection} (stored : s.denialCorrections id = c)
      (isOpen : s.Open c) (unapproved : c.approver = 0) (other : c.proposer ≠ env.sender) :
      Effect s env (.approveDenialCorrection id)
        (s.setCorrection id { c with approver := env.sender })
        [.DenialCorrectionApproved id env.sender c.reasonHash]
  | executed (id : Uint 256) {c : DenialCorrection} (stored : s.denialCorrections id = c)
      (isOpen : s.Open c) (approved : c.approver ≠ 0)
      (valid : MarkAttrs.validSchema c.attrs = true) :
      Effect s env (.executeDenialCorrection id)
        ((s.setCorrection id { c with executed := true }).clearDenial c.subject)
        [.SanctionDenialCorrected c.subject c.denialRevision id c.reasonHash c.proposer c.approver,
          .MarkIssued c.subject c.attrs c.proposer c.claimsRoot c.evidenceHash]
  | published {call : Call} (epoch : Uint 32) (root : Bytes32) (listVersion : Uint 32)
      (validUntil sourceCutoff : Uint 40) (snapshotId : Bytes32)
      {issuers : List (Address × Uint 64)} (newer : s.lastEpoch < epoch)
      (valid : EpochBounds.valid root sourceCutoff (BitVec.ofNat 40 env.timestamp) validUntil
        snapshotId = true)
      (count_pos : 1 ≤ issuers.length) (count_le : issuers.length ≤ MAX_ROSTER_ISSUERS)
      (distinct : (issuers.map Prod.fst).Nodup) (ne_zero : ∀ x ∈ issuers, x.1 ≠ 0) :
      Effect s env call { s with lastEpoch := epoch }
        (issuers.flatMap (SourceEvent.authorization epoch root) ++
          [.RosterEpochPublished epoch root listVersion validUntil sourceCutoff
            (BitVec.ofNat 40 env.timestamp) snapshotId])

/-! ### One lemma per function -/

section Inversion

variable {s s' : ComplianceSource} {env : SourceEnv} {events : List SourceEvent} {call : Call}

/-- A plain call emitted one event. -/
theorem Effect.plain_one {e : SourceEvent} (keeps : s.Keeps s') (plain : e.Plain env.number) :
    Effect s env call s' [e] :=
  .plain keeps fun _ he ↦ List.mem_singleton.1 he ▸ plain

theorem setIssuer_effect {account : Address} {allowed : Bool}
    (h : s.setIssuer env account allowed = .ok (s', events)) : Effect s env call s' events := by
  obtain ⟨-, -, h⟩ := bind_eq_ok.1 h
  obtain ⟨rfl, rfl⟩ := Prod.mk.inj (Except.ok.inj h)
  exact .plain_one ⟨rfl, rfl, rfl, rfl, rfl⟩ trivial

theorem setEpochPublisher_effect {account : Address} {allowed : Bool}
    (h : s.setEpochPublisher env account allowed = .ok (s', events)) :
    Effect s env call s' events := by
  obtain ⟨-, -, h⟩ := bind_eq_ok.1 h
  obtain ⟨rfl, rfl⟩ := Prod.mk.inj (Except.ok.inj h)
  exact .plain_one ⟨rfl, rfl, rfl, rfl, rfl⟩ trivial

theorem setDenialCorrectionApprover_effect {account : Address} {allowed : Bool}
    (h : s.setDenialCorrectionApprover env account allowed = .ok (s', events)) :
    Effect s env call s' events := by
  obtain ⟨-, -, h⟩ := bind_eq_ok.1 h
  obtain ⟨-, h⟩ := revertIf_bind_eq_ok.1 h
  obtain ⟨rfl, rfl⟩ := Prod.mk.inj (Except.ok.inj h)
  exact .plain_one ⟨rfl, rfl, rfl, rfl, rfl⟩ trivial

theorem issue_effect {subject : Address} {attrs claimsRoot evidenceHash : Bytes32}
    (h : s.issue env subject attrs claimsRoot evidenceHash = .ok (s', events)) :
    Effect s env call s' events := by
  obtain ⟨-, -, h⟩ := bind_eq_ok.1 h
  simp only [revertIf_bind_eq_ok] at h
  obtain ⟨rfl, rfl⟩ := Prod.mk.inj (Except.ok.inj h.2.2)
  exact .plain_one (.refl s) trivial

theorem issueOnce_effect {requestId : Bytes32} {subject : Address}
    {attrs claimsRoot evidenceHash : Bytes32}
    (h : s.issueOnce env requestId subject attrs claimsRoot evidenceHash = .ok (s', events)) :
    Effect s env call s' events := by
  obtain ⟨-, -, h⟩ := bind_eq_ok.1 h
  simp only [revertIf_bind_eq_ok] at h
  obtain ⟨rfl, rfl⟩ := Prod.mk.inj (Except.ok.inj h.2.2.2)
  exact .plain_one ⟨rfl, rfl, rfl, rfl, rfl⟩ trivial

theorem issueOnceWithKey_effect {requestId : Bytes32} {subject : Address}
    {attrs claimsRoot evidenceHash : Bytes32} {issuerKeyEpoch : Uint 64}
    (h : s.issueOnceWithKey env requestId subject attrs claimsRoot evidenceHash issuerKeyEpoch =
      .ok (s', events)) : Effect s env call s' events := by
  obtain ⟨-, -, h⟩ := bind_eq_ok.1 h
  simp only [revertIf_bind_eq_ok, beq_eq_false_iff_ne] at h
  obtain ⟨-, -, -, hkey, h⟩ := h
  obtain ⟨current, -, h⟩ := bind_eq_ok.1 h
  obtain ⟨-, h⟩ := revertIf_bind_eq_ok.1 h
  obtain ⟨rfl, rfl⟩ := Prod.mk.inj (Except.ok.inj h)
  exact .plain_one ⟨rfl, rfl, rfl, rfl, rfl⟩ hkey

theorem issueBatch_effect {items : List IssuanceItem}
    (h : s.issueBatch env items = .ok (s', events)) : Effect s env call s' events := by
  obtain ⟨-, -, h⟩ := bind_eq_ok.1 h
  obtain ⟨out, hloop, h⟩ := bind_eq_ok.1 h
  obtain ⟨rfl, rfl⟩ := Prod.mk.inj (Except.ok.inj h)
  refine .plain (.refl s) ?_
  refine foldlM_invariant (P := fun out ↦ ∀ e ∈ out, SourceEvent.Plain env.number e)
    (fun out item out' _ hout hitem ↦ ?_) (by simp) hloop
  simp only [revertIf_bind_eq_ok] at hitem
  obtain rfl := Except.ok.inj hitem.2.2
  intro e he
  rcases List.mem_append.1 he with he | he
  · exact hout e he
  · rw [List.mem_singleton.1 he]
    trivial

/-- What a declaration of compromise checks and does. -/
theorem declareIssuerKeyCompromise_eq_ok {issuerKeyEpoch lastTrustedBlock : Uint 64}
    {reasonHash : Bytes32}
    (h : s.declareIssuerKeyCompromise env issuerKeyEpoch lastTrustedBlock reasonHash =
      .ok (s', events)) :
    s.isIssuer env.sender = true ∧ issuerKeyEpoch ≠ 0 ∧ lastTrustedBlock < env.number ∧
      reasonHash ≠ 0 ∧ s' = s ∧
      events = [.IssuerKeyCompromised env.sender issuerKeyEpoch lastTrustedBlock reasonHash] := by
  obtain ⟨u, hissuer, h⟩ := bind_eq_ok.1 h
  simp only [onlyIssuer, revertIf_eq_ok, Bool.not_eq_false'] at hissuer
  simp only [revertIf_bind_eq_ok, beq_eq_false_iff_ne] at h
  obtain ⟨hkey, h⟩ := h
  obtain ⟨current, -, h⟩ := bind_eq_ok.1 h
  simp only [revertIf_bind_eq_ok, Bool.or_eq_false_iff, beq_eq_false_iff_ne,
    decide_eq_false_iff_not, ge_iff_le, BitVec.not_le] at h
  obtain ⟨⟨⟨-, hreason⟩, hblock⟩, h⟩ := h
  obtain ⟨rfl, rfl⟩ := Prod.mk.inj (Except.ok.inj h)
  exact ⟨hissuer, hkey, hblock, hreason, rfl, rfl⟩

theorem declareIssuerKeyCompromise_effect {issuerKeyEpoch lastTrustedBlock : Uint 64}
    {reasonHash : Bytes32}
    (h : s.declareIssuerKeyCompromise env issuerKeyEpoch lastTrustedBlock reasonHash =
      .ok (s', events)) : Effect s env call s' events := by
  obtain ⟨-, hkey, hblock, hreason, rfl, rfl⟩ := declareIssuerKeyCompromise_eq_ok h
  exact .plain_one (.refl s') ⟨env.sender_ne_zero, hkey, hblock, hreason⟩

theorem revoke_effect {subject : Address} {reasonCode : Uint 16} {epoch : Uint 32}
    (h : s.revoke env subject reasonCode epoch = .ok (s', events)) :
    Effect s env call s' events := by
  obtain ⟨-, -, h⟩ := bind_eq_ok.1 h
  obtain ⟨-, h⟩ := revertIf_bind_eq_ok.1 h
  obtain ⟨rfl, rfl⟩ := Prod.mk.inj (Except.ok.inj h)
  exact .plain_one (.refl s) trivial

theorem revokeBatch_effect {subjects : List Address} {reasonCodes : List (Uint 16)}
    {epoch : Uint 32} (h : s.revokeBatch env subjects reasonCodes epoch = .ok (s', events)) :
    Effect s env call s' events := by
  obtain ⟨-, -, h⟩ := bind_eq_ok.1 h
  obtain ⟨-, h⟩ := revertIf_bind_eq_ok.1 h
  obtain ⟨out, hloop, h⟩ := bind_eq_ok.1 h
  obtain ⟨rfl, rfl⟩ := Prod.mk.inj (Except.ok.inj h)
  refine .plain (.refl s) ?_
  refine foldlM_invariant (P := fun out ↦ ∀ e ∈ out, SourceEvent.Plain env.number e)
    (fun out item out' _ hout hitem ↦ ?_) (by simp) hloop
  simp only [revertIf_bind_eq_ok] at hitem
  obtain rfl := Except.ok.inj hitem.2
  intro e he
  rcases List.mem_append.1 he with he | he
  · exact hout e he
  · rw [List.mem_singleton.1 he]
    trivial

/-- Denials only raise revisions. -/
theorem Denies.revision_le {subjects : List Address} (h : s.Denies s' subjects) (u : Address) :
    s.sourceDenialRevision u ≤ s'.sourceDenialRevision u := by
  by_cases hu : u ∈ subjects
  · exact (h.revision_lt u hu).le
  · exact (h.revision_of_notMem u hu).ge

theorem Denies.nil (s : ComplianceSource) : s.Denies s [] :=
  ⟨rfl, rfl, rfl, by simp, by simp, by simp⟩

/-- Denying one more subject. -/
theorem Denies.concat {t t' : ComplianceSource} {subjects : List Address} {u : Address}
    (h : s.Denies t subjects) (hrecord : t.recordDenial u = .ok t') :
    s.Denies t' (subjects ++ [u]) := by
  obtain ⟨hmax, hrecord⟩ := revertIf_bind_eq_ok.1 hrecord
  obtain rfl := Except.ok.inj hrecord
  rw [beq_eq_false_iff_ne] at hmax
  constructor
  case lastEpoch => exact h.lastEpoch
  case corrections => exact h.corrections
  case nextId => exact h.nextId
  case active =>
    intro v
    have hv := h.active v
    by_cases hvu : v = u
    · simp [hvu]
    · simpa [hvu] using hv
  case revision_lt =>
    intro v hv
    by_cases hvu : v = u
    · subst hvu
      have hnext : t.sourceDenialRevision v < t.sourceDenialRevision v + 1 := counter_lt_next hmax
      simpa using (h.revision_le v).trans_lt hnext
    · have hmem : v ∈ subjects := by simpa [hvu] using hv
      simpa [hvu] using h.revision_lt v hmem
  case revision_of_notMem =>
    intro v hv
    have hvu : v ≠ u := fun heq ↦ hv (by simp [heq])
    have hnot : v ∉ subjects := fun hmem ↦ hv (List.mem_append_left _ hmem)
    simpa [hvu] using h.revision_of_notMem v hnot

/-- What denying one subject does. -/
theorem deny_eq_ok {subject : Address} {listVersion epoch : Uint 32}
    (h : s.deny env subject listVersion epoch = .ok (s', events)) :
    s.Denies s' [subject] ∧ events = [.SanctionDenied subject listVersion epoch] := by
  obtain ⟨-, -, h⟩ := bind_eq_ok.1 h
  obtain ⟨-, h⟩ := revertIf_bind_eq_ok.1 h
  obtain ⟨t, hrecord, h⟩ := bind_eq_ok.1 h
  obtain ⟨rfl, rfl⟩ := Prod.mk.inj (Except.ok.inj h)
  exact ⟨(Denies.nil s).concat hrecord, rfl⟩

/-- What denying a batch does. -/
theorem denyBatch_eq_ok {subjects : List Address} {listVersion epoch : Uint 32}
    (h : s.denyBatch env subjects listVersion epoch = .ok (s', events)) :
    s.Denies s' subjects ∧ events = subjects.map (.SanctionDenied · listVersion epoch) := by
  obtain ⟨-, -, h⟩ := bind_eq_ok.1 h
  refine foldlM_induction (P := fun done (acc : ComplianceSource × List SourceEvent) ↦
    s.Denies acc.1 done ∧ acc.2 = done.map (.SanctionDenied · listVersion epoch))
    (fun done acc u acc' _ hacc hu ↦ ?_) ⟨.nil s, rfl⟩ h
  obtain ⟨hdenies, hevents⟩ := hacc
  obtain ⟨-, hu⟩ := revertIf_bind_eq_ok.1 hu
  obtain ⟨t, hrecord, hu⟩ := bind_eq_ok.1 hu
  obtain rfl := Except.ok.inj hu
  exact ⟨hdenies.concat hrecord, by simp [hevents]⟩

theorem deny_effect {subject : Address} {listVersion epoch : Uint 32}
    (h : s.deny env subject listVersion epoch = .ok (s', events)) :
    Effect s env call s' events := by
  obtain ⟨hdenies, rfl⟩ := deny_eq_ok h
  exact .denied listVersion epoch hdenies

theorem denyBatch_effect {subjects : List Address} {listVersion epoch : Uint 32}
    (h : s.denyBatch env subjects listVersion epoch = .ok (s', events)) :
    Effect s env call s' events := by
  obtain ⟨hdenies, rfl⟩ := denyBatch_eq_ok h
  exact .denied listVersion epoch hdenies

/-- What proposing a correction checks and does. -/
theorem proposeDenialCorrection_eq_ok {subject : Address}
    {attrs claimsRoot evidenceHash reasonHash : Bytes32}
    (h : s.proposeDenialCorrection env subject attrs claimsRoot evidenceHash reasonHash =
      .ok (s', events)) :
    s.isIssuer env.sender = true ∧ subject ≠ 0 ∧ s.sourceDenialActive subject = true ∧
      reasonHash ≠ 0 ∧ s.nextDenialCorrectionId ≠ BitVec.allOnes 256 ∧
      s' = s.addCorrection (s.proposal env subject attrs claimsRoot evidenceHash reasonHash) ∧
      events = [.DenialCorrectionProposed s.nextDenialCorrectionId subject
        (s.sourceDenialRevision subject) env.sender reasonHash
        (BitVec.ofNat 40 (env.timestamp + MIN_DENIAL_CORRECTION_DELAY))] := by
  obtain ⟨u, hissuer, h⟩ := bind_eq_ok.1 h
  simp only [onlyIssuer, revertIf_bind_eq_ok, revertIf_eq_ok, Bool.or_eq_false_iff,
    beq_eq_false_iff_ne, Bool.not_eq_false'] at hissuer h
  obtain ⟨⟨⟨⟨hsubject, hactive⟩, hreason⟩, -⟩, hid, h⟩ := h
  obtain ⟨rfl, rfl⟩ := Prod.mk.inj (Except.ok.inj h)
  exact ⟨hissuer, hsubject, hactive, hreason, hid, rfl, rfl⟩

theorem proposeDenialCorrection_effect {subject : Address}
    {attrs claimsRoot evidenceHash reasonHash : Bytes32}
    (h : s.proposeDenialCorrection env subject attrs claimsRoot evidenceHash reasonHash =
      .ok (s', events)) :
    Effect s env (.proposeDenialCorrection subject attrs claimsRoot evidenceHash reasonHash) s'
      events := by
  obtain ⟨-, hsubject, hactive, hreason, hid, rfl, rfl⟩ := proposeDenialCorrection_eq_ok h
  exact .proposed subject attrs claimsRoot evidenceHash reasonHash rfl hsubject hactive hreason hid

/-- What approving a correction checks and does. -/
theorem approveDenialCorrection_eq_ok {id : Uint 256} {c : DenialCorrection}
    (hstored : s.denialCorrections id = c)
    (h : s.approveDenialCorrection env id = .ok (s', events)) :
    s.isDenialCorrectionApprover env.sender = true ∧ s.Open c ∧ c.approver = 0 ∧
      c.proposer ≠ env.sender ∧ s' = s.setCorrection id { c with approver := env.sender } ∧
      events = [.DenialCorrectionApproved id env.sender c.reasonHash] := by
  subst hstored
  simp only [approveDenialCorrection, revertIf_bind_eq_ok, Bool.or_eq_false_iff,
    beq_eq_false_iff_ne, Bool.not_eq_false', bne_eq_false_iff_eq] at h
  obtain ⟨hrole, ⟨⟨⟨⟨⟨hsubject, hexecuted⟩, happrover⟩, hother⟩, hactive⟩, hrevision⟩, h⟩ := h
  obtain ⟨rfl, rfl⟩ := Prod.mk.inj (Except.ok.inj h)
  exact ⟨hrole, ⟨hsubject, hexecuted, hactive, hrevision⟩, happrover, hother, rfl, rfl⟩

theorem approveDenialCorrection_effect {id : Uint 256}
    (h : s.approveDenialCorrection env id = .ok (s', events)) :
    Effect s env (.approveDenialCorrection id) s' events := by
  obtain ⟨-, hopen, happrover, hother, rfl, rfl⟩ := approveDenialCorrection_eq_ok rfl h
  exact .approved id rfl hopen happrover hother

/-- What executing a correction checks and does. -/
theorem executeDenialCorrection_eq_ok {id : Uint 256} {c : DenialCorrection}
    (hstored : s.denialCorrections id = c)
    (h : s.executeDenialCorrection env id = .ok (s', events)) :
    s.Open c ∧ c.approver ≠ 0 ∧ MarkAttrs.validAtIssuance c.attrs env.timestamp = true ∧
      s.isIssuer c.proposer = true ∧ c.executeAfter.toNat ≤ env.timestamp ∧
      s' = (s.setCorrection id { c with executed := true }).clearDenial c.subject ∧
      events = [.SanctionDenialCorrected c.subject c.denialRevision id c.reasonHash c.proposer
          c.approver,
        .MarkIssued c.subject c.attrs c.proposer c.claimsRoot c.evidenceHash] := by
  subst hstored
  simp only [executeDenialCorrection, revertIf_bind_eq_ok, Bool.or_eq_false_iff,
    beq_eq_false_iff_ne, Bool.not_eq_false', bne_eq_false_iff_eq, decide_eq_false_iff_not,
    Nat.not_lt] at h
  obtain ⟨⟨⟨⟨⟨⟨hsubject, hexecuted⟩, hactive⟩, hrevision⟩, hissuer⟩, hvalid⟩, happrover, hdelay,
    h⟩ := h
  obtain ⟨rfl, rfl⟩ := Prod.mk.inj (Except.ok.inj h)
  exact ⟨⟨hsubject, hexecuted, hactive, hrevision⟩, happrover, hvalid, hissuer, hdelay, rfl, rfl⟩

theorem executeDenialCorrection_effect {id : Uint 256}
    (h : s.executeDenialCorrection env id = .ok (s', events)) :
    Effect s env (.executeDenialCorrection id) s' events := by
  obtain ⟨hopen, happrover, hvalid, -, -, rfl, rfl⟩ := executeDenialCorrection_eq_ok rfl h
  exact .executed id rfl hopen happrover (MarkAttrs.validSchema_of_validAtIssuance hvalid)

/-- The check of a publication: the epoch is new and the announcement in bounds. -/
theorem checkEpoch_eq_ok {epoch : Uint 32} {root : Bytes32} {validUntil sourceCutoff : Uint 40}
    {snapshotId : Bytes32} {u : Unit}
    (h : s.checkEpoch env epoch root validUntil sourceCutoff snapshotId = .ok u) :
    s.lastEpoch < epoch ∧ EpochBounds.valid root sourceCutoff (BitVec.ofNat 40 env.timestamp)
      validUntil snapshotId = true := by
  simp only [checkEpoch, revertIf_bind_eq_ok, revertIf_eq_ok, decide_eq_false_iff_not,
    BitVec.not_le, Bool.or_eq_false_iff, Bool.not_eq_false'] at h
  exact ⟨h.1, h.2.2⟩

theorem publishEpoch_effect {epoch : Uint 32} {root : Bytes32} {listVersion : Uint 32}
    {validUntil sourceCutoff : Uint 40} {snapshotId : Bytes32}
    (h : s.publishEpoch env epoch root listVersion validUntil sourceCutoff snapshotId =
      .ok (s', events)) : Effect s env call s' events := by
  obtain ⟨-, -, h⟩ := bind_eq_ok.1 h
  obtain ⟨-, -, h⟩ := bind_eq_ok.1 h
  obtain ⟨u, hcheck, h⟩ := bind_eq_ok.1 h
  obtain ⟨hnewer, hvalid⟩ := checkEpoch_eq_ok hcheck
  obtain ⟨rfl, rfl⟩ := Prod.mk.inj (Except.ok.inj h)
  have hne : ∀ x ∈ [(env.sender, (0 : Uint 64))], x.1 ≠ 0 := by simpa using env.sender_ne_zero
  exact .published epoch root listVersion validUntil sourceCutoff snapshotId hnewer hvalid
    (by simp) (by simp [MAX_ROSTER_ISSUERS]) (by simp) hne

/-- One iteration of the loop over approvals: the issuer is greater than the one before it. -/
theorem authorizeIssuer_eq_ok {epoch : Uint 32} {root digest : Bytes32} {previous last : Address}
    {out out' : List SourceEvent} {approval : RootApproval}
    (h : s.authorizeIssuer env epoch root digest (previous, out) approval = .ok (last, out')) :
    previous < last ∧ ∃ k, out' = out ++ SourceEvent.authorization epoch root (last, k) := by
  simp only [authorizeIssuer, revertIf_bind_eq_ok, Bool.or_eq_false_iff,
    decide_eq_false_iff_not, BitVec.not_le] at h
  obtain ⟨⟨⟨⟨hlt, -⟩, -⟩, -⟩, h⟩ := h
  obtain ⟨k, -, h⟩ := bind_eq_ok.1 h
  obtain ⟨rfl, rfl⟩ := Prod.mk.inj (Except.ok.inj h)
  exact ⟨hlt, k, rfl⟩

/-- The loop over approvals authorises as many different issuers as there are approvals. -/
theorem authorizeIssuer_foldlM {epoch : Uint 32} {root digest : Bytes32} {last : Address}
    {out : List SourceEvent} {approvals : List RootApproval}
    (h : approvals.foldlM (s.authorizeIssuer env epoch root digest) (0, []) = .ok (last, out)) :
    ∃ issuers : List (Address × Uint 64), issuers.length = approvals.length ∧
      out = issuers.flatMap (SourceEvent.authorization epoch root) ∧
      (issuers.map Prod.fst).Nodup ∧ ∀ x ∈ issuers, x.1 ≠ 0 := by
  suffices hloop : ∃ issuers : List (Address × Uint 64), issuers.length = approvals.length ∧
      out = issuers.flatMap (SourceEvent.authorization epoch root) ∧
      (issuers.map Prod.fst).Nodup ∧ ∀ x ∈ issuers, x.1 ≠ 0 ∧ x.1 ≤ last by
    obtain ⟨issuers, hlength, hout, hnd, hall⟩ := hloop
    exact ⟨issuers, hlength, hout, hnd, fun x hx ↦ (hall x hx).1⟩
  refine foldlM_induction (P := fun (done : List RootApproval) (acc : Address × List SourceEvent) ↦
    ∃ issuers : List (Address × Uint 64), issuers.length = done.length ∧
      acc.2 = issuers.flatMap (SourceEvent.authorization epoch root) ∧
      (issuers.map Prod.fst).Nodup ∧ ∀ x ∈ issuers, x.1 ≠ 0 ∧ x.1 ≤ acc.1)
    (fun done acc approval acc' _ hacc happroval ↦ ?_) ⟨[], rfl, rfl, by simp, by simp⟩ h
  obtain ⟨previous, out⟩ := acc
  obtain ⟨last, out'⟩ := acc'
  obtain ⟨issuers, hlength, rfl, hnd, hall⟩ := hacc
  obtain ⟨hlt, k, rfl⟩ := authorizeIssuer_eq_ok happroval
  -- the issuers so far are at most the previous one, so the next is none of them
  have hfresh : last ∉ issuers.map Prod.fst := fun hmem ↦ by
    obtain ⟨x, hx, rfl⟩ := List.mem_map.1 hmem
    exact BitVec.not_lt.2 (hall x hx).2 hlt
  refine ⟨issuers ++ [(last, k)], by simp [hlength], by simp, ?_, fun x hx ↦ ?_⟩
  · rw [List.map_append, List.map_singleton, ← List.concat_eq_append, List.nodup_concat]
    exact ⟨hfresh, hnd⟩
  · rcases List.mem_append.1 hx with hx | hx
    · exact ⟨(hall x hx).1, BitVec.le_trans (hall x hx).2 (BitVec.le_of_lt hlt)⟩
    · rw [List.mem_singleton.1 hx]
      refine ⟨fun hzero ↦ ?_, BitVec.le_refl _⟩
      have hlast : last = 0 := hzero
      rw [hlast] at hlt
      exact absurd hlt BitVec.not_lt_zero

theorem publishEpochForIssuers_effect {epoch : Uint 32} {root : Bytes32} {listVersion : Uint 32}
    {validUntil sourceCutoff : Uint 40} {snapshotId : Bytes32} {approvals : List RootApproval}
    (h : s.publishEpochForIssuers env epoch root listVersion validUntil sourceCutoff snapshotId
      approvals = .ok (s', events)) : Effect s env call s' events := by
  obtain ⟨-, -, h⟩ := bind_eq_ok.1 h
  obtain ⟨u, hcheck, h⟩ := bind_eq_ok.1 h
  obtain ⟨hnewer, hvalid⟩ := checkEpoch_eq_ok hcheck
  simp only [revertIf_bind_eq_ok, Bool.or_eq_false_iff, decide_eq_false_iff_not] at h
  obtain ⟨⟨hpos, hle⟩, h⟩ := h
  obtain ⟨⟨last, out⟩, hloop, h⟩ := bind_eq_ok.1 h
  obtain ⟨rfl, rfl⟩ := Prod.mk.inj (Except.ok.inj h)
  obtain ⟨issuers, hlength, rfl, hnd, hne⟩ := authorizeIssuer_foldlM hloop
  exact .published epoch root listVersion validUntil sourceCutoff snapshotId hnewer hvalid
    (by omega) (by omega) hnd hne

theorem ownership_effect {x : Except OwnableError Ownable2Step} {e : SourceEvent}
    (h : (do
      let o ← x.mapError SourceError.ownable
      return ({ s with ownable := o }, [e])) = .ok (s', events)) (he : e.Plain env.number) :
    Effect s env call s' events := by
  obtain ⟨o, -, h⟩ := bind_eq_ok.1 h
  obtain ⟨rfl, rfl⟩ := Prod.mk.inj (Except.ok.inj h)
  exact .plain_one ⟨rfl, rfl, rfl, rfl, rfl⟩ he

/-- **Inversion of the source.** -/
theorem exec_effect (h : s.exec env call = .ok (s', events)) : Effect s env call s' events := by
  cases call with
  | setIssuer => exact setIssuer_effect h
  | setEpochPublisher => exact setEpochPublisher_effect h
  | setDenialCorrectionApprover => exact setDenialCorrectionApprover_effect h
  | issue => exact issue_effect h
  | issueOnce => exact issueOnce_effect h
  | issueOnceWithKey => exact issueOnceWithKey_effect h
  | issueBatch => exact issueBatch_effect h
  | declareIssuerKeyCompromise => exact declareIssuerKeyCompromise_effect h
  | revoke => exact revoke_effect h
  | revokeBatch => exact revokeBatch_effect h
  | deny => exact deny_effect h
  | denyBatch => exact denyBatch_effect h
  | proposeDenialCorrection => exact proposeDenialCorrection_effect h
  | approveDenialCorrection => exact approveDenialCorrection_effect h
  | executeDenialCorrection => exact executeDenialCorrection_effect h
  | publishEpoch => exact publishEpoch_effect h
  | publishEpochForIssuers => exact publishEpochForIssuers_effect h
  | transferOwnership | acceptOwnership | renounceOwnership => exact ownership_effect h trivial

end Inversion

end ComplianceSource

end Proofmark
