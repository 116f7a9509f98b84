import Proofmark.Hub.Record

/-!
# What an accepted receipt does to the hub

A handler both decides whether its log is acceptable and changes the state. The two are separated
here. `decode` reads a trusted log as a `HubEvent`, `applyEvent` is the change of state with no
error branch left, and `dispatch_spec` is the one inversion of the dispatcher: a log that went
through was admissible (`Admits`) and changed the state as `applyEvent` says. Everything proved
about the hub goes through these three and never unfolds a handler again.

An epoch log reads its whole receipt. `authorizedIssuers` and `authorizedKeyEpoch` are what it
finds there, and `onEpoch_spec` says that the scan of the handler computes them.
-/

open Evm

namespace Proofmark

/-- A source receipt as the hub sees it after decoding. -/
structure Receipt where
  height : Uint 64
  txIndex : Uint 64
  logs : List LogEntry
  deriving DecidableEq

/-- The fields of an epoch log. -/
structure Announcement where
  epoch : Uint 32
  root : Bytes32
  listVersion : Uint 32
  validUntil : Uint 40
  sourceCutoff : Uint 40
  publishedAt : Uint 40
  snapshotId : Bytes32
  deriving DecidableEq

def Announcement.valid (a : Announcement) : Bool :=
  EpochBounds.valid a.root a.sourceCutoff a.publishedAt a.validUntil a.snapshotId

/-- What a trusted log says. -/
inductive HubEvent
  | lifecycle (subject : Address) (e : LifecycleEvent)
  | epoch (a : Announcement)
  | compromised (issuer : Address) (issuerKeyEpoch lastTrustedBlock : Uint 64)

namespace ProofmarkASC

/-! ### Reading logs -/

/-- A log of the pinned source with a topic. -/
def trusted (source : Address) (L : LogEntry) : Prop :=
  L.address_ = source ∧ L.topics.length ≠ 0

instance (source : Address) (L : LogEntry) : Decidable (trusted source L) :=
  inferInstanceAs (Decidable (_ ∧ _))

/-- The event a log spells, if its topic 0 is one the hub acts on. -/
def decode (L : LogEntry) : Option HubEvent :=
  let sig := topicAt L 0
  let subject : Address := (topicAt L 1).setWidth 160
  if sig = SIG_ISSUED then
    some (.lifecycle subject (.issued ⟨topicAt L 2, (topicAt L 3).setWidth 160, 0,
      abiWord L.data 0, abiWord L.data 1⟩))
  else if sig = SIG_KEYED_ISSUED then
    some (.lifecycle subject (.issued ⟨topicAt L 2, (topicAt L 3).setWidth 160,
      (abiWord L.data 0).setWidth 64, abiWord L.data 1, abiWord L.data 2⟩))
  else if sig = SIG_REVOKED then some (.lifecycle subject .revoked)
  else if sig = SIG_DENIED then some (.lifecycle subject .denied)
  else if sig = SIG_EPOCH then
    some (.epoch ⟨(topicAt L 1).setWidth 32, topicAt L 2, (topicAt L 3).setWidth 32,
      (abiWord L.data 0).setWidth 40, (abiWord L.data 1).setWidth 40,
      (abiWord L.data 2).setWidth 40, abiWord L.data 3⟩)
  else if sig = SIG_KEY_COMPROMISED then
    some (.compromised subject ((topicAt L 2).setWidth 64) ((abiWord L.data 0).setWidth 64))
  else if sig = SIG_DENIAL_CORRECTED then
    some (.lifecycle subject (.corrected ⟨(topicAt L 2).setWidth 64, topicAt L 3,
      abiWord L.data 0, (abiWord L.data 1).setWidth 160, (abiWord L.data 2).setWidth 160⟩))
  else none

/-- The issuer a log authorises for an epoch and its root. -/
def authorizes (source : Address) (epoch : Uint 32) (root : Bytes32) (L : LogEntry) :
    Option Address :=
  if trusted source L ∧ topicAt L 0 = SIG_EPOCH_AUTH ∧ topicAt L 1 = epoch.setWidth 256
      ∧ topicAt L 2 = root then
    some ((topicAt L 3).setWidth 160)
  else none

/-- The issuers a receipt authorises for an epoch and its root. -/
def authorizedIssuers (source : Address) (logs : List LogEntry) (epoch : Uint 32)
    (root : Bytes32) : List Address :=
  logs.filterMap (authorizes source epoch root)

/-- The key epoch a log binds to an authorisation. -/
def keyAuthorizes (source : Address) (epoch : Uint 32) (root : Bytes32) (issuer : Address)
    (L : LogEntry) : Option (Uint 64) :=
  if trusted source L ∧ topicAt L 0 = SIG_KEYED_EPOCH_AUTH ∧ topicAt L 1 = epoch.setWidth 256
      ∧ topicAt L 2 = root ∧ (topicAt L 3).setWidth 160 = issuer then
    some ((abiWord L.data 0).setWidth 64)
  else none

/-- The key epoch a receipt binds to an authorisation, zero if it binds none. -/
def authorizedKeyEpoch (source : Address) (logs : List LogEntry) (epoch : Uint 32)
    (root : Bytes32) (issuer : Address) : Uint 64 :=
  (logs.filterMap (keyAuthorizes source epoch root issuer)).head?.getD 0

/-! ### The change of state -/

/-- Lower the cutoff of a key generation. -/
def lowerCutoff (s : ProofmarkASC) (issuer : Address) (issuerKeyEpoch lastTrustedBlock : Uint 64) :
    ProofmarkASC :=
  if s.issuerKeyCompromised issuer issuerKeyEpoch = false
      ∨ lastTrustedBlock < s.issuerKeyLastTrustedBlock issuer issuerKeyEpoch then
    { s with
      issuerKeyCompromised := set2 s.issuerKeyCompromised issuer issuerKeyEpoch true
      issuerKeyLastTrustedBlock :=
        set2 s.issuerKeyLastTrustedBlock issuer issuerKeyEpoch lastTrustedBlock }
  else s

/-- Record the approvals of an epoch. -/
def approve (s : ProofmarkASC) (R : Receipt) (epoch : Uint 32) (root : Bytes32)
    (issuers : List Address) : ProofmarkASC :=
  { s with
    epochIssuerApproved := fun e i ↦
      if e = epoch ∧ i ∈ issuers then true else s.epochIssuerApproved e i
    epochIssuerApprovalHeight := fun e i ↦
      if e = epoch ∧ i ∈ issuers then R.height else s.epochIssuerApprovalHeight e i
    epochIssuerKeyEpoch := fun e i ↦
      if e = epoch ∧ i ∈ issuers then authorizedKeyEpoch s.sourceContract R.logs epoch root i
      else s.epochIssuerKeyEpoch e i }

/-- Make an epoch the latest one. -/
def commit (s : ProofmarkASC) (a : Announcement) : ProofmarkASC :=
  { s with
    epochRoots := Function.update s.epochRoots a.epoch a.root
    latestEpoch := a.epoch
    epochValidUntil := a.validUntil
    epochSourceCutoff := a.sourceCutoff
    epochPublishedAt := a.publishedAt
    epochListVersion := a.listVersion
    epochSnapshotId := a.snapshotId }

/-- What an admitted event at log position `i` of the receipt `R` does. -/
def applyEvent (R : Receipt) (s : ProofmarkASC) (i : ℕ) : HubEvent → ProofmarkASC
  | .lifecycle subject e =>
    s.modifySubject subject fun r ↦ r.apply (⟨R.height, R.txIndex, i⟩, e)
  | .compromised issuer issuerKeyEpoch lastTrustedBlock =>
    s.lowerCutoff issuer issuerKeyEpoch lastTrustedBlock
  | .epoch a =>
    if a.epoch ≤ s.latestEpoch then s
    else (s.approve R a.epoch a.root
      (authorizedIssuers s.sourceContract R.logs a.epoch a.root)).commit a

/-- What the hub checked of an event it let through. -/
def Admits (s : ProofmarkASC) (now : ℕ) (R : Receipt) : HubEvent → Prop
  | .lifecycle _ _ => True
  | .compromised issuer issuerKeyEpoch lastTrustedBlock =>
    issuer ≠ 0 ∧ issuerKeyEpoch ≠ 0 ∧ lastTrustedBlock < R.height
  | .epoch a =>
    a.valid = true ∧ a.publishedAt.toNat ≤ now ∧ (s.latestEpoch < a.epoch →
      let issuers := authorizedIssuers s.sourceContract R.logs a.epoch a.root
      issuers.Nodup ∧ 1 ≤ issuers.length ∧ issuers.length ≤ 16
        ∧ ∀ i ∈ issuers, i ≠ 0 ∧ s.epochIssuerApproved a.epoch i = false)

/-! ### The scan of an epoch's receipt -/

section Epoch

variable {s s' : ProofmarkASC} {R : Receipt} {epoch : Uint 32} {root : Bytes32}

theorem authorizes_eq_none {source : Address} {L : LogEntry}
    (h : ¬(L.address_ = source ∧ L.topics.length ≠ 0 ∧ topicAt L 0 = SIG_EPOCH_AUTH
      ∧ topicAt L 1 = epoch.setWidth 256 ∧ topicAt L 2 = root)) :
    authorizes source epoch root L = none := by
  rw [authorizes, if_neg]
  rintro ⟨⟨haddr, hlen⟩, hsig, hepoch, hroot⟩
  exact h ⟨haddr, hlen, hsig, hepoch, hroot⟩

/-- One step of the inner scan. -/
theorem keyedAuthorization_spec {source issuer : Address} {k k' : Uint 64} {L : LogEntry}
    (h : keyedAuthorization source epoch root issuer k L = .ok k') :
    (keyAuthorizes source epoch root issuer L = none ∧ k' = k) ∨
      (keyAuthorizes source epoch root issuer L = some k' ∧ k = 0 ∧ k' ≠ 0) := by
  rw [keyedAuthorization] at h
  split at h
  case isTrue hskip =>
    refine .inl ⟨?_, by simpa using h.symm⟩
    rw [keyAuthorizes, if_neg]
    rintro ⟨⟨haddr, hlen⟩, hsig, -⟩
    rcases hskip with hne | hzero | hne
    · exact hne haddr
    · exact hlen hzero
    · exact hne hsig
  case isFalse htrusted =>
    simp only [not_or, not_not] at htrusted
    obtain ⟨haddr, hlen, hsig⟩ := htrusted
    simp only [revertIf_bind_eq_ok] at h
    obtain ⟨-, h⟩ := h
    split at h
    case isTrue hother =>
      refine .inl ⟨?_, by simpa using h.symm⟩
      rw [keyAuthorizes, if_neg]
      rintro ⟨-, -, hepoch, hroot, -⟩
      rcases hother with hne | hne
      · exact hne hepoch
      · exact hne hroot
    case isFalse hsame =>
      simp only [not_or, not_not] at hsame
      split at h
      case isTrue hissuer =>
        refine .inl ⟨?_, by simpa using h.symm⟩
        rw [keyAuthorizes, if_neg]
        rintro ⟨-, -, -, -, heq⟩
        exact hissuer heq
      case isFalse hissuer =>
        rw [not_not] at hissuer
        simp only [revertIf_bind_eq_ok, Bool.or_eq_false_iff, bne_eq_false_iff_eq,
          beq_eq_false_iff_ne, Bool.not_eq_false'] at h
        obtain ⟨⟨⟨rfl, hne⟩, hfits⟩, hk⟩ := h
        obtain rfl : (abiWord L.data 0).setWidth 64 = k' := by simpa [pure, Except.pure] using hk
        refine .inr ⟨?_, rfl, fun hzero ↦ hne ?_⟩
        · rw [keyAuthorizes, if_pos ⟨⟨haddr, hlen⟩, hsig, hsame.1, hsame.2, hissuer⟩]
        · have hback := setWidth_setWidth_of_fits (N := 64) (by decide) hfits
          rw [← hback, hzero]
          rfl

/-- A completed inner scan found at most one binding, and it is the key epoch it returns. -/
theorem keyedAuthorization_foldlM {source issuer : Address} {logs : List LogEntry} {k : Uint 64}
    (h : logs.foldlM (keyedAuthorization source epoch root issuer) 0 = .ok k) :
    k = authorizedKeyEpoch source logs epoch root issuer := by
  have hscan : (logs.filterMap (keyAuthorizes source epoch root issuer) = [] ∧ k = 0) ∨
      (logs.filterMap (keyAuthorizes source epoch root issuer) = [k] ∧ k ≠ 0) := by
    refine foldlM_induction (P := fun done k ↦
      (done.filterMap (keyAuthorizes source epoch root issuer) = [] ∧ k = 0) ∨
        (done.filterMap (keyAuthorizes source epoch root issuer) = [k] ∧ k ≠ 0))
      (fun done k L k' _ hk hL ↦ ?_) (.inl ⟨rfl, rfl⟩) h
    rw [List.filterMap_append]
    rcases keyedAuthorization_spec hL with ⟨hnone, rfl⟩ | ⟨hsome, rfl, hne⟩
    · simpa [hnone] using hk
    · rcases hk with ⟨hnil, -⟩ | ⟨-, habs⟩
      · exact .inr ⟨by simp [hnil, hsome], hne⟩
      · exact absurd rfl habs
  rw [authorizedKeyEpoch]
  rcases hscan with ⟨hnil, rfl⟩ | ⟨hone, -⟩
  · rw [hnil]
    rfl
  · rw [hone]
    rfl

theorem approve_nil : s.approve R epoch root [] = s := by
  simp [approve]

/-- Approving one more issuer. -/
theorem approve_concat (issuers : List Address) (i : Address) :
    s.approve R epoch root (issuers ++ [i]) =
      { s.approve R epoch root issuers with
        epochIssuerApproved := set2 (s.approve R epoch root issuers).epochIssuerApproved epoch i true
        epochIssuerApprovalHeight :=
          set2 (s.approve R epoch root issuers).epochIssuerApprovalHeight epoch i R.height
        epochIssuerKeyEpoch := set2 (s.approve R epoch root issuers).epochIssuerKeyEpoch epoch i
          (authorizedKeyEpoch s.sourceContract R.logs epoch root i) } := by
  rw [approve, approve, mk.injEq]
  simp only [true_and, and_true]
  refine ⟨?_, ?_, ?_⟩
  all_goals
    funext e j
    rw [set2_apply]
    by_cases he : e = epoch <;> by_cases hj : j = i <;> simp [he, hj]

/-- One step of the authorisation scan. -/
theorem authorization_spec {n n' : ℕ} {L : LogEntry}
    (h : authorization R.height epoch root R.logs (s, n) L = .ok (s', n')) :
    (authorizes s.sourceContract epoch root L = none ∧ s' = s ∧ n' = n) ∨
      ∃ i, authorizes s.sourceContract epoch root L = some i ∧ i ≠ 0 ∧
        s.epochIssuerApproved epoch i = false ∧ n' = n + 1 ∧ n' ≤ 16 ∧
        s' = { s with
          epochIssuerApproved := set2 s.epochIssuerApproved epoch i true
          epochIssuerApprovalHeight := set2 s.epochIssuerApprovalHeight epoch i R.height
          epochIssuerKeyEpoch := set2 s.epochIssuerKeyEpoch epoch i
            (authorizedKeyEpoch s.sourceContract R.logs epoch root i) } := by
  rw [authorization] at h
  simp only at h
  split at h
  case isTrue hskip =>
    simp only [Except.ok.injEq, Prod.mk.injEq] at h
    refine .inl ⟨?_, h.1.symm, h.2.symm⟩
    rw [authorizes, if_neg]
    rintro ⟨⟨haddr, hlen⟩, hsig, -⟩
    rcases hskip with hne | hzero | hne
    · exact hne haddr
    · exact hlen hzero
    · exact hne hsig
  case isFalse htrusted =>
    simp only [not_or, not_not] at htrusted
    obtain ⟨haddr, hlen, hsig⟩ := htrusted
    simp only [revertIf_bind_eq_ok] at h
    obtain ⟨-, h⟩ := h
    split at h
    case isTrue hother =>
      simp only [Except.ok.injEq, Prod.mk.injEq] at h
      refine .inl ⟨?_, h.1.symm, h.2.symm⟩
      rw [authorizes, if_neg]
      rintro ⟨-, -, hepoch, hroot⟩
      rcases hother with hne | hne
      · exact hne hepoch
      · exact hne hroot
    case isFalse hsame =>
      simp only [not_or, not_not] at hsame
      simp only [revertIf_bind_eq_ok, Bool.or_eq_false_iff, beq_eq_false_iff_ne,
        decide_eq_false_iff_not, not_lt] at h
      obtain ⟨⟨⟨hne, hnew⟩, hcount⟩, h⟩ := h
      obtain ⟨k, hk, h⟩ := bind_eq_ok.1 h
      rw [keyedAuthorization_foldlM hk] at h
      simp only [pure, Except.pure, Except.ok.injEq, Prod.mk.injEq] at h
      refine .inr ⟨_, ?_, hne, hnew, h.2.symm, by omega, h.1.symm⟩
      rw [authorizes, if_pos ⟨⟨haddr, hlen⟩, hsig, hsame.1, hsame.2⟩]

/-- The completed scan approved the issuers the receipt authorises, each once. -/
theorem authorization_foldlM {n : ℕ}
    (h : R.logs.foldlM (authorization R.height epoch root R.logs) (s, 0) = .ok (s', n)) :
    let issuers := authorizedIssuers s.sourceContract R.logs epoch root
    s' = s.approve R epoch root issuers ∧ n = issuers.length ∧ issuers.Nodup ∧
      issuers.length ≤ 16 ∧ ∀ i ∈ issuers, i ≠ 0 ∧ s.epochIssuerApproved epoch i = false := by
  refine foldlM_induction (P := fun done (acc : ProofmarkASC × ℕ) ↦
    let issuers := authorizedIssuers s.sourceContract done epoch root
    acc.1 = s.approve R epoch root issuers ∧ acc.2 = issuers.length ∧ issuers.Nodup ∧
      issuers.length ≤ 16 ∧ ∀ i ∈ issuers, i ≠ 0 ∧ s.epochIssuerApproved epoch i = false)
    (fun done acc L acc' _ hacc hL ↦ ?_) ?_ h
  swap
  · exact ⟨approve_nil.symm, rfl, List.nodup_nil, by simp [authorizedIssuers],
      by simp [authorizedIssuers]⟩
  obtain ⟨t, m⟩ := acc
  obtain ⟨t', m'⟩ := acc'
  obtain ⟨rfl, rfl, hnd, hle, hall⟩ := hacc
  simp only [authorizedIssuers, List.filterMap_append] at *
  rcases authorization_spec hL with ⟨hnone, rfl, rfl⟩ | ⟨i, hsome, hne, hnew, rfl, hcount, rfl⟩
  · have hnone' : authorizes s.sourceContract epoch root L = none := hnone
    simp only [List.filterMap_cons, hnone', List.filterMap_nil, List.append_nil]
    exact ⟨trivial, trivial, hnd, hle, hall⟩
  · have hsome' : authorizes s.sourceContract epoch root L = some i := hsome
    simp only [List.filterMap_cons, hsome', List.filterMap_nil]
    -- an issuer approved a second time would fail the check of the mapping
    obtain ⟨hnotmem, hbefore⟩ : i ∉ done.filterMap (authorizes s.sourceContract epoch root) ∧
        s.epochIssuerApproved epoch i = false := by
      simp only [approve, true_and] at hnew
      split at hnew
      · exact absurd hnew (by simp)
      · exact ⟨‹_›, hnew⟩
    refine ⟨(approve_concat _ i).symm, by simp, ?_, by simpa using hcount, fun j hj ↦ ?_⟩
    · exact List.nodup_append.2 ⟨hnd, List.nodup_singleton i, fun a ha b hb ↦ by
        rintro rfl
        exact hnotmem (List.mem_singleton.1 hb ▸ ha)⟩
    · rcases List.mem_append.1 hj with hj | hj
      · exact hall j hj
      · rw [List.mem_singleton.1 hj]
        exact ⟨hne, hbefore⟩

/-- An epoch log that went through: it was in bounds, it changed the state as `applyEvent` says,
and a new epoch carried between one and sixteen authorisations of different issuers. -/
theorem onEpoch_spec {now i : ℕ} {L : LogEntry}
    (h : s.onEpoch now R.height L R.logs = .ok s') :
    let a : Announcement := ⟨(topicAt L 1).setWidth 32, topicAt L 2, (topicAt L 3).setWidth 32,
      (abiWord L.data 0).setWidth 40, (abiWord L.data 1).setWidth 40,
      (abiWord L.data 2).setWidth 40, abiWord L.data 3⟩
    s.Admits now R (.epoch a) ∧ s' = s.applyEvent R i (.epoch a) := by
  intro a
  obtain ⟨-, -, h⟩ := bind_eq_ok.1 h
  simp only [revertIf_bind_eq_ok, Bool.or_eq_false_iff, Bool.not_eq_false',
    decide_eq_false_iff_not, not_lt] at h
  obtain ⟨-, -, ⟨hvalid, hpublished⟩, h⟩ := h
  by_cases hstale : a.epoch ≤ s.latestEpoch
  · rw [if_pos hstale] at h
    refine ⟨⟨hvalid, hpublished, fun hlt ↦ absurd hstale (BitVec.not_le.2 hlt)⟩, ?_⟩
    rw [applyEvent, if_pos hstale]
    exact (Except.ok.inj h).symm
  · rw [if_neg hstale] at h
    obtain ⟨⟨t, n⟩, hscan, h⟩ := bind_eq_ok.1 h
    obtain ⟨rfl, rfl, hnd, hle, hall⟩ := authorization_foldlM hscan
    simp only [revertIf_bind_eq_ok, beq_eq_false_iff_ne] at h
    refine ⟨⟨hvalid, hpublished, fun _ ↦ ⟨hnd, Nat.one_le_iff_ne_zero.2 h.1, hle, hall⟩⟩, ?_⟩
    rw [applyEvent, if_neg hstale]
    exact (Except.ok.inj h.2).symm

end Epoch

/-! ### Inversion of the dispatcher -/

section Dispatch

variable {s s' : ProofmarkASC} {R : Receipt} {now i : ℕ} {L : LogEntry}

theorem onIssued_spec (h : s.onIssued R.height R.txIndex i [L] = .ok s') :
    s' = s.applyEvent R i (.lifecycle ((topicAt L 1).setWidth 160) (.issued ⟨topicAt L 2,
      (topicAt L 3).setWidth 160, 0, abiWord L.data 0, abiWord L.data 1⟩)) := by
  obtain ⟨t, ht, hnil⟩ := foldlM_cons_eq_ok.1 h
  obtain ⟨-, -, ht⟩ := bind_eq_ok.1 ht
  rw [← foldlM_nil_eq_ok.1 hnil]
  exact (Except.ok.inj (revertIf_bind_eq_ok.1 ht).2).symm

theorem onKeyedIssued_spec (h : s.onKeyedIssued R.height R.txIndex i L = .ok s') :
    s' = s.applyEvent R i (.lifecycle ((topicAt L 1).setWidth 160) (.issued ⟨topicAt L 2,
      (topicAt L 3).setWidth 160, (abiWord L.data 0).setWidth 64, abiWord L.data 1,
      abiWord L.data 2⟩)) := by
  obtain ⟨-, -, h⟩ := bind_eq_ok.1 h
  simp only [revertIf_bind_eq_ok] at h
  exact (Except.ok.inj h.2.2.2).symm

theorem onTombstone_spec {newStatus : MarkStatus}
    (h : s.onTombstone R.height R.txIndex i [L] newStatus = .ok s') :
    s' = s.modifySubject ((topicAt L 1).setWidth 160) fun r ↦
      r.tombstoned R.height R.txIndex i newStatus := by
  obtain ⟨t, ht, hnil⟩ := foldlM_cons_eq_ok.1 h
  obtain ⟨-, -, ht⟩ := bind_eq_ok.1 ht
  rw [← foldlM_nil_eq_ok.1 hnil]
  exact (Except.ok.inj ht).symm

theorem onDenialCorrected_spec (h : s.onDenialCorrected R.height R.txIndex i L = .ok s') :
    s' = s.applyEvent R i (.lifecycle ((topicAt L 1).setWidth 160) (.corrected
      ⟨(topicAt L 2).setWidth 64, topicAt L 3, abiWord L.data 0, (abiWord L.data 1).setWidth 160,
      (abiWord L.data 2).setWidth 160⟩)) := by
  obtain ⟨-, -, h⟩ := bind_eq_ok.1 h
  simp only [revertIf_bind_eq_ok] at h
  exact (Except.ok.inj h.2.2.2).symm

theorem onKeyCompromised_spec (h : s.onKeyCompromised R.height L = .ok s') :
    let issuer : Address := (topicAt L 1).setWidth 160
    let issuerKeyEpoch : Uint 64 := (topicAt L 2).setWidth 64
    let lastTrustedBlock : Uint 64 := (abiWord L.data 0).setWidth 64
    s.Admits now R (.compromised issuer issuerKeyEpoch lastTrustedBlock) ∧
      s' = s.lowerCutoff issuer issuerKeyEpoch lastTrustedBlock := by
  intro issuer issuerKeyEpoch lastTrustedBlock
  obtain ⟨-, -, h⟩ := bind_eq_ok.1 h
  simp only [revertIf_bind_eq_ok, Bool.or_eq_false_iff, beq_eq_false_iff_ne,
    decide_eq_false_iff_not, ge_iff_le, BitVec.not_le] at h
  obtain ⟨-, -, ⟨⟨⟨hissuer, hkey⟩, -⟩, hheight⟩, h⟩ := h
  refine ⟨⟨hissuer, hkey, hheight⟩, ?_⟩
  simp only [Bool.or_eq_true, Bool.not_eq_true', decide_eq_true_eq] at h
  rw [lowerCutoff]
  split at h
  · rw [if_pos ‹_›]
    exact (Except.ok.inj h).symm
  · rw [if_neg ‹_›]
    exact (Except.ok.inj h).symm

/-- **What a trusted log that went through did.** Every handler is inverted above; here only the
topic decides. -/
theorem dispatch_spec (h : s.dispatch now R.height R.txIndex R.logs i L = .ok s') :
    (decode L = none ∧ s' = s) ∨
      ∃ e, decode L = some e ∧ s.Admits now R e ∧ s' = s.applyEvent R i e := by
  simp only [dispatch] at h
  rw [decode]
  by_cases hissued : topicAt L 0 = SIG_ISSUED
  · rw [if_pos hissued] at h ⊢
    exact .inr ⟨_, rfl, trivial, onIssued_spec h⟩
  rw [if_neg hissued] at h ⊢
  by_cases hkeyed : topicAt L 0 = SIG_KEYED_ISSUED
  · rw [if_pos hkeyed] at h ⊢
    exact .inr ⟨_, rfl, trivial, onKeyedIssued_spec h⟩
  rw [if_neg hkeyed] at h ⊢
  by_cases hrevoked : topicAt L 0 = SIG_REVOKED
  · rw [if_pos hrevoked] at h ⊢
    exact .inr ⟨_, rfl, trivial, onTombstone_spec h⟩
  rw [if_neg hrevoked] at h ⊢
  by_cases hdenied : topicAt L 0 = SIG_DENIED
  · rw [if_pos hdenied] at h ⊢
    exact .inr ⟨_, rfl, trivial, onTombstone_spec h⟩
  rw [if_neg hdenied] at h ⊢
  by_cases hepoch : topicAt L 0 = SIG_EPOCH
  · rw [if_pos hepoch] at h ⊢
    exact .inr ⟨_, rfl, onEpoch_spec h⟩
  rw [if_neg hepoch] at h ⊢
  by_cases hcompromised : topicAt L 0 = SIG_KEY_COMPROMISED
  · rw [if_pos hcompromised] at h ⊢
    exact .inr ⟨_, rfl, onKeyCompromised_spec h⟩
  rw [if_neg hcompromised] at h ⊢
  by_cases hcorrected : topicAt L 0 = SIG_DENIAL_CORRECTED
  · rw [if_pos hcorrected] at h ⊢
    exact .inr ⟨_, rfl, trivial, onDenialCorrected_spec h⟩
  rw [if_neg hcorrected] at h ⊢
  exact .inl ⟨rfl, (Except.ok.inj h).symm⟩

end Dispatch

end ProofmarkASC

end Proofmark
