import Proofmark.Hub.Receipts

/-!
# Logs of the source as the hub reads them

`decode_toLog` is the round trip of the encoding: the hub reads off a log of the source the event
that was written. The second half is the converse of the inversion of the handlers: an event with
the field values the source writes goes through (`dispatch_toLog`), and an epoch goes through if its
receipt authorises its issuers properly (`Announced`).
-/

open Evm

namespace Proofmark

/-- What the hub reads in a log of the source. -/
def SourceEvent.hubEvent : SourceEvent → Option HubEvent
  | .MarkIssued subject attrs issuer claimsRoot evidenceHash =>
    some (.lifecycle subject (.issued ⟨attrs, issuer, 0, claimsRoot, evidenceHash⟩))
  | .KeyedMarkIssued subject attrs issuer issuerKeyEpoch claimsRoot evidenceHash =>
    some (.lifecycle subject (.issued ⟨attrs, issuer, issuerKeyEpoch, claimsRoot, evidenceHash⟩))
  | .MarkRevoked subject _ _ => some (.lifecycle subject .revoked)
  | .SanctionDenied subject _ _ => some (.lifecycle subject .denied)
  | .SanctionDenialCorrected subject denialRevision correctionId reasonHash proposer approver =>
    some (.lifecycle subject
      (.corrected ⟨denialRevision, correctionId, reasonHash, proposer, approver⟩))
  | .RosterEpochPublished epoch root listVersion validUntil sourceCutoff publishedAt snapshotId =>
    some (.epoch ⟨epoch, root, listVersion, validUntil, sourceCutoff, publishedAt, snapshotId⟩)
  | .IssuerKeyCompromised issuer issuerKeyEpoch lastTrustedBlock _ =>
    some (.compromised issuer issuerKeyEpoch lastTrustedBlock)
  | .RosterIssuerAuthorized .. | .RosterIssuerKeyAuthorized .. | .IssuerSet ..
  | .EpochPublisherSet .. | .DenialCorrectionApproverSet .. | .DenialCorrectionProposed ..
  | .DenialCorrectionApproved .. | .OwnershipTransferStarted .. | .OwnershipTransferred .. => none

/-- The issuer an event authorises for an epoch and its root. -/
def SourceEvent.authorizes (epoch : Uint 32) (root : Bytes32) : SourceEvent → Option Address
  | .RosterIssuerAuthorized e r issuer => if e = epoch ∧ r = root then some issuer else none
  | _ => none

/-- The key epoch an event binds to an authorisation. -/
def SourceEvent.keyAuthorizes (epoch : Uint 32) (root : Bytes32) (issuer : Address) :
    SourceEvent → Option (Uint 64)
  | .RosterIssuerKeyAuthorized e r i issuerKeyEpoch =>
    if e = epoch ∧ r = root ∧ i = issuer then some issuerKeyEpoch else none
  | _ => none

namespace ProofmarkASC

variable {source : Address}

@[simp]
theorem topicAt_zero (e : SourceEvent) : topicAt (e.toLog source) 0 = e.name.topic :=
  rfl

@[simp]
theorem topicAt_succ (e : SourceEvent) (i : ℕ) :
    topicAt (e.toLog source) (i + 1) = e.indexed.getD i 0 :=
  rfl

@[simp]
theorem toLog_data (e : SourceEvent) : (e.toLog source).data = abiEncode e.unindexed :=
  rfl

@[simp]
theorem toLog_topics_length (e : SourceEvent) :
    (e.toLog source).topics.length = e.indexed.length + 1 :=
  rfl

theorem trusted_toLog (e : SourceEvent) : trusted source (e.toLog source) :=
  ⟨rfl, by simp⟩

/-- **What is written is what is read.** -/
theorem decode_toLog (e : SourceEvent) : decode (e.toLog source) = e.hubEvent := by
  cases e <;>
    simp [decode, SIG_ISSUED, SIG_KEYED_ISSUED, SIG_REVOKED, SIG_DENIED, SIG_EPOCH,
      SIG_KEY_COMPROMISED, SIG_DENIAL_CORRECTED, SourceEvent.name, SourceEvent.hubEvent,
      SourceEvent.indexed, SourceEvent.unindexed, SourceEvent.toLog, topicAt, -topicAt_succ]

/-- Widening keeps different epochs different. -/
theorem setWidth_eq_iff {N : ℕ} (hN : N ≤ 256) {v w : Uint N} :
    v.setWidth 256 = w.setWidth 256 ↔ v = w :=
  ⟨setWidth_inj hN, fun h ↦ by rw [h]⟩

theorem authorizes_toLog (epoch : Uint 32) (root : Bytes32) (e : SourceEvent) :
    authorizes source epoch root (e.toLog source) = e.authorizes epoch root := by
  rw [authorizes]
  cases e with
  | RosterIssuerAuthorized e r issuer =>
    simp [trusted_toLog, SIG_EPOCH_AUTH, SourceEvent.name, SourceEvent.indexed,
      SourceEvent.authorizes, setWidth_eq_iff]
  | _ => simp [SIG_EPOCH_AUTH, SourceEvent.name, SourceEvent.authorizes]

theorem keyAuthorizes_toLog (epoch : Uint 32) (root : Bytes32) (issuer : Address)
    (e : SourceEvent) :
    keyAuthorizes source epoch root issuer (e.toLog source) = e.keyAuthorizes epoch root issuer := by
  rw [keyAuthorizes]
  cases e with
  | RosterIssuerKeyAuthorized e r i k =>
    simp [trusted_toLog, SIG_KEYED_EPOCH_AUTH, SourceEvent.name, SourceEvent.indexed,
      SourceEvent.unindexed, SourceEvent.keyAuthorizes, setWidth_eq_iff]
  | _ => simp [SIG_KEYED_EPOCH_AUTH, SourceEvent.name, SourceEvent.keyAuthorizes]

/-! ### Progress of the scans -/

/-- Every log a receipt shows under the source's address is an event of the source. -/
def Genuine (source : Address) (logs : List LogEntry) : Prop :=
  ∀ L ∈ logs, L.address_ = source → ∃ e : SourceEvent, L = e.toLog source

/-- A receipt authorises issuers for an epoch and its root as the hub demands. -/
structure Announced (source : Address) (logs : List LogEntry) (epoch : Uint 32) (root : Bytes32) :
    Prop where
  distinct : (authorizedIssuers source logs epoch root).Nodup
  count_pos : 1 ≤ (authorizedIssuers source logs epoch root).length
  count_le : (authorizedIssuers source logs epoch root).length ≤ 16
  issuer_ne_zero : ∀ issuer ∈ authorizedIssuers source logs epoch root, issuer ≠ 0
  key_unique : ∀ issuer, (logs.filterMap (keyAuthorizes source epoch root issuer)).length ≤ 1
  key_ne_zero : ∀ issuer, ∀ k ∈ logs.filterMap (keyAuthorizes source epoch root issuer), k ≠ 0

section Scans

variable {s : ProofmarkASC} {R : Receipt} {epoch : Uint 32} {root : Bytes32} {issuer : Address}

/-- One step of the inner scan goes through unless it finds a second binding. -/
theorem keyedAuthorization_ok {L : LogEntry} (k : Uint 64)
    (hgenuine : L.address_ = source → ∃ e : SourceEvent, L = e.toLog source)
    (hbinding : ∀ k', keyAuthorizes source epoch root issuer L = some k' → k = 0 ∧ k' ≠ 0) :
    ∃ k', keyedAuthorization source epoch root issuer k L = .ok k' := by
  rw [keyedAuthorization]
  split
  case isTrue => exact ⟨k, rfl⟩
  case isFalse htrusted =>
    simp only [not_or, not_not] at htrusted
    obtain ⟨haddr, -, hsig⟩ := htrusted
    obtain ⟨e, rfl⟩ := hgenuine haddr
    rw [topicAt_zero, SIG_KEYED_EPOCH_AUTH, EventName.topic_inj] at hsig
    cases e with
    | RosterIssuerKeyAuthorized e r i k' =>
      have hepoch : topicAt ((SourceEvent.RosterIssuerKeyAuthorized e r i k').toLog source) 1 =
          e.setWidth 256 := rfl
      have hroot : topicAt ((SourceEvent.RosterIssuerKeyAuthorized e r i k').toLog source) 2 = r :=
        rfl
      have hissuer : (topicAt ((SourceEvent.RosterIssuerKeyAuthorized e r i k').toLog source)
          3).setWidth 160 = i := setWidth_setWidth_self (by decide) i
      have hdata : abiWord (abiEncode (SourceEvent.unindexed
          (.RosterIssuerKeyAuthorized e r i k'))) 0 = k'.setWidth 256 := by
        simp [SourceEvent.unindexed]
      simp only [hepoch, hroot, hissuer, hdata, revertIf_bind_eq_ok, toLog_topics_length,
        toLog_data, length_abiEncode]
      refine exists_and_left.2 ⟨by simp [SourceEvent.indexed, SourceEvent.unindexed], ?_⟩
      split
      · exact ⟨k, rfl⟩
      split
      · exact ⟨k, rfl⟩
      · rename_i hsame hi
        simp only [not_or, not_not, setWidth_eq_iff (show 32 ≤ 256 by decide)] at hsame hi
        have hbound : SourceEvent.keyAuthorizes epoch root issuer
            (.RosterIssuerKeyAuthorized e r i k') = some k' := if_pos ⟨hsame.1, hsame.2, hi⟩
        obtain ⟨rfl, hne⟩ := hbinding k' (by rw [keyAuthorizes_toLog, hbound])
        have hword : k'.setWidth 256 ≠ 0 := fun hzero ↦ hne (setWidth_inj (by decide) hzero)
        refine ⟨_, revertIf_bind_eq_ok.2 ⟨?_, rfl⟩⟩
        simpa [fitsUint_setWidth] using hword
    | _ => simp [SourceEvent.name] at hsig

/-- The inner scan goes through and returns the binding, if the receipt has at most one. -/
theorem keyedAuthorization_foldlM_ok {logs : List LogEntry} (hgenuine : Genuine source logs)
    (hannounced : Announced source logs epoch root) (issuer : Address) :
    ∃ k, logs.foldlM (keyedAuthorization source epoch root issuer) 0 = .ok k := by
  have hscan : ∃ k, logs.foldlM (keyedAuthorization source epoch root issuer) 0 = .ok k ∧
      ((logs.filterMap (keyAuthorizes source epoch root issuer)) = [] → k = 0) := by
    refine foldlM_progress (P := fun done k ↦
      done.filterMap (keyAuthorizes source epoch root issuer) = [] → k = 0) (fun _ ↦ rfl)
      fun done L rest k hlogs hk ↦ ?_
    have hmem : L ∈ logs := by simp [hlogs]
    have hsplit : logs.filterMap (keyAuthorizes source epoch root issuer) =
        done.filterMap (keyAuthorizes source epoch root issuer) ++
          (L :: rest).filterMap (keyAuthorizes source epoch root issuer) := by
      rw [hlogs, List.filterMap_append]
    obtain ⟨k', hk'⟩ := keyedAuthorization_ok k (hgenuine L hmem) fun k' hbinding ↦ by
        -- a binding here leaves no room for an earlier one
        have hlength := hannounced.key_unique issuer
        rw [hsplit, List.filterMap_cons_some hbinding, List.length_append,
          List.length_cons] at hlength
        have hnil : done.filterMap (keyAuthorizes source epoch root issuer) = [] :=
          List.length_eq_zero_iff.1 (by omega)
        exact ⟨hk hnil, hannounced.key_ne_zero issuer k'
          (List.mem_filterMap.2 ⟨L, hmem, hbinding⟩)⟩
    refine ⟨k', hk', fun hnil ↦ ?_⟩
    rw [List.filterMap_append, List.append_eq_nil_iff] at hnil
    rcases keyedAuthorization_spec hk' with ⟨-, rfl⟩ | ⟨hsome, -, -⟩
    · exact hk hnil.1
    · simp [hsome] at hnil
  exact hscan.imp fun _ h ↦ h.1

/-- One step of the authorisation scan goes through if what it finds is acceptable. -/
theorem authorization_ok {L : LogEntry} {n : ℕ} (hgenuine : Genuine s.sourceContract R.logs)
    (hannounced : Announced s.sourceContract R.logs epoch root) (hmem : L ∈ R.logs)
    (hissuer : ∀ issuer, authorizes s.sourceContract epoch root L = some issuer →
      s.epochIssuerApproved epoch issuer = false ∧ n + 1 ≤ 16) :
    ∃ acc, authorization R.height epoch root R.logs (s, n) L = .ok acc := by
  rw [authorization]
  simp only
  split
  case isTrue => exact ⟨_, rfl⟩
  case isFalse htrusted =>
    simp only [not_or, not_not] at htrusted
    obtain ⟨haddr, -, hsig⟩ := htrusted
    obtain ⟨e, rfl⟩ := hgenuine L hmem haddr
    rw [topicAt_zero, SIG_EPOCH_AUTH, EventName.topic_inj] at hsig
    cases e with
    | RosterIssuerAuthorized e r i =>
      have hword : topicAt ((SourceEvent.RosterIssuerAuthorized e r i).toLog s.sourceContract) 3 =
          i.setWidth 256 := rfl
      have hepoch : topicAt ((SourceEvent.RosterIssuerAuthorized e r i).toLog s.sourceContract) 1 =
          e.setWidth 256 := rfl
      have hroot : topicAt ((SourceEvent.RosterIssuerAuthorized e r i).toLog s.sourceContract) 2 =
          r := rfl
      simp only [hword, hepoch, hroot, revertIf_bind_eq_ok, toLog_topics_length, toLog_data,
        length_abiEncode, setWidth_setWidth_self (show 160 ≤ 256 by decide)]
      refine exists_and_left.2 ⟨by
        simp [SourceEvent.indexed, SourceEvent.unindexed, fitsUint_setWidth], ?_⟩
      split
      · exact ⟨_, rfl⟩
      · rename_i hsame
        simp only [not_or, not_not, setWidth_eq_iff (show 32 ≤ 256 by decide)] at hsame
        have hauthorizes : authorizes s.sourceContract epoch root
            ((SourceEvent.RosterIssuerAuthorized e r i).toLog s.sourceContract) = some i := by
          rw [authorizes_toLog]
          exact if_pos hsame
        obtain ⟨hnew, hcount⟩ := hissuer i hauthorizes
        have hne : i ≠ 0 := hannounced.issuer_ne_zero i
          (List.mem_filterMap.2 ⟨_, hmem, hauthorizes⟩)
        obtain ⟨k, hk⟩ := keyedAuthorization_foldlM_ok hgenuine hannounced i
        refine ⟨_, revertIf_bind_eq_ok.2 ⟨?_, bind_eq_ok.2 ⟨k, hk, rfl⟩⟩⟩
        simpa [hnew, Nat.not_lt.2 hcount] using hne
    | _ => simp [SourceEvent.name] at hsig

/-- The authorisation scan goes through when nothing was approved under the epoch before. -/
theorem authorization_foldlM_ok (hgenuine : Genuine s.sourceContract R.logs)
    (hannounced : Announced s.sourceContract R.logs epoch root)
    (hblank : ∀ issuer, s.epochIssuerApproved epoch issuer = false) :
    ∃ t n, R.logs.foldlM (authorization R.height epoch root R.logs) (s, 0) = .ok (t, n) ∧
      n ≠ 0 := by
  have hscan : ∃ acc, R.logs.foldlM (authorization R.height epoch root R.logs) (s, 0) = .ok acc ∧
      acc.1.sourceContract = s.sourceContract ∧
      acc.2 = (authorizedIssuers s.sourceContract R.logs epoch root).length ∧
      ∀ i, acc.1.epochIssuerApproved epoch i = true →
        i ∈ authorizedIssuers s.sourceContract R.logs epoch root := by
    refine foldlM_progress (P := fun done (acc : ProofmarkASC × ℕ) ↦
      acc.1.sourceContract = s.sourceContract ∧
      acc.2 = (authorizedIssuers s.sourceContract done epoch root).length ∧
      ∀ i, acc.1.epochIssuerApproved epoch i = true →
        i ∈ authorizedIssuers s.sourceContract done epoch root)
      ⟨rfl, rfl, fun i hi ↦ by simp [hblank i] at hi⟩ fun done L rest acc hlogs hacc ↦ ?_
    obtain ⟨t, n⟩ := acc
    obtain ⟨hsource, rfl, happroved⟩ := hacc
    simp only at hsource happroved
    have hmem : L ∈ R.logs := by simp [hlogs]
    obtain ⟨⟨t', n'⟩, hL⟩ := authorization_ok (s := t)
      (n := (authorizedIssuers s.sourceContract done epoch root).length)
      (by rwa [hsource]) (by rwa [hsource]) hmem fun i hi ↦ by
        -- the issuer is none of those before it, and there are at most sixteen in all
        rw [hsource] at hi
        have hall : authorizedIssuers s.sourceContract R.logs epoch root =
            authorizedIssuers s.sourceContract done epoch root ++
              i :: authorizedIssuers s.sourceContract rest epoch root := by
          rw [authorizedIssuers, hlogs, List.filterMap_append, List.filterMap_cons_some hi]
          rfl
        have hnd := hannounced.distinct
        have hcount := hannounced.count_le
        rw [hall] at hnd hcount
        rw [List.length_append, List.length_cons] at hcount
        refine ⟨?_, by omega⟩
        rw [← Bool.not_eq_true]
        intro hi'
        exact (List.nodup_append.1 hnd).2.2 i (happroved i hi') i (by simp) rfl
    refine ⟨(t', n'), hL, ?_⟩
    simp only [authorizedIssuers, List.filterMap_append, List.length_append]
    rcases authorization_spec hL with ⟨hnone, rfl, rfl⟩ | ⟨i, hsome, -, -, rfl, -, rfl⟩
    · rw [hsource] at hnone
      simp only [List.filterMap_cons, hnone, List.filterMap_nil, List.append_nil, List.length_nil]
      exact ⟨hsource, rfl, happroved⟩
    · rw [hsource] at hsome
      simp only [hsource, List.filterMap_cons, hsome, List.filterMap_nil, List.length_singleton,
        List.mem_append, List.mem_singleton, true_and]
      refine ⟨rfl, fun j hj ↦ ?_⟩
      rw [set2_apply] at hj
      split at hj
      · exact .inr (‹_ ∧ _›).2
      · exact .inl (happroved j hj)
  obtain ⟨⟨t, n⟩, hfold, -, rfl, -⟩ := hscan
  exact ⟨t, _, hfold, Nat.one_le_iff_ne_zero.1 hannounced.count_pos⟩

end Scans

/-! ### Progress of the dispatcher -/

/-- The field values the hub demands of an event in a receipt. -/
def Acceptable (s : ProofmarkASC) (now : ℕ) (R : Receipt) : SourceEvent → Prop
  | .KeyedMarkIssued _ _ _ issuerKeyEpoch _ _ => issuerKeyEpoch ≠ 0
  | .SanctionDenialCorrected subject denialRevision correctionId reasonHash proposer approver =>
    subject ≠ 0 ∧ denialRevision ≠ 0 ∧ correctionId ≠ 0 ∧ reasonHash ≠ 0 ∧ proposer ≠ 0 ∧
      approver ≠ 0 ∧ proposer ≠ approver
  | .IssuerKeyCompromised issuer issuerKeyEpoch lastTrustedBlock reasonHash =>
    issuer ≠ 0 ∧ issuerKeyEpoch ≠ 0 ∧ lastTrustedBlock < R.height ∧ reasonHash ≠ 0
  | .RosterEpochPublished epoch root _ validUntil sourceCutoff publishedAt snapshotId =>
    EpochBounds.valid root sourceCutoff publishedAt validUntil snapshotId = true ∧
      publishedAt.toNat ≤ now ∧ Announced s.sourceContract R.logs epoch root ∧
      (s.latestEpoch < epoch → ∀ issuer, s.epochIssuerApproved epoch issuer = false)
  | _ => True

section Dispatch

variable {s : ProofmarkASC} {now i : ℕ} {R : Receipt}

theorem requireTrusted_toLog (e : SourceEvent) {n : ℕ} (hn : e.indexed.length + 1 = n) :
    requireTrusted s (e.toLog s.sourceContract) n = .ok () := by
  simp [requireTrusted, hn]

theorem onIssued_ok (subject : Address) (attrs : Bytes32) (issuer : Address)
    (claimsRoot evidenceHash : Bytes32) :
    ∃ s', s.onIssued R.height R.txIndex i [(SourceEvent.MarkIssued subject attrs issuer claimsRoot
      evidenceHash).toLog s.sourceContract] = .ok s' := by
  simp only [onIssued, foldlM_cons_eq_ok, foldlM_nil_eq_ok, bind_eq_ok, exists_eq_right]
  refine ⟨_, (), requireTrusted_toLog _ rfl, (), ?_, rfl⟩
  simp [SourceEvent.unindexed]

theorem onTombstone_ok {e : SourceEvent} (he : e.indexed.length = 3) (newStatus : MarkStatus) :
    ∃ s', s.onTombstone R.height R.txIndex i [e.toLog s.sourceContract] newStatus = .ok s' := by
  simp only [onTombstone, foldlM_cons_eq_ok, foldlM_nil_eq_ok, bind_eq_ok, exists_eq_right]
  exact ⟨_, (), requireTrusted_toLog _ (by rw [he]), rfl⟩

theorem onKeyedIssued_ok {subject : Address} {attrs : Bytes32} {issuer : Address}
    {issuerKeyEpoch : Uint 64} {claimsRoot evidenceHash : Bytes32} (hkey : issuerKeyEpoch ≠ 0) :
    ∃ s', s.onKeyedIssued R.height R.txIndex i ((SourceEvent.KeyedMarkIssued subject attrs issuer
      issuerKeyEpoch claimsRoot evidenceHash).toLog s.sourceContract) = .ok s' := by
  simp only [onKeyedIssued, bind_eq_ok, revertIf_eq_ok]
  refine ⟨_, (), requireTrusted_toLog _ rfl, (), ?_, (), ?_, (), ?_, rfl⟩
  · simp [SourceEvent.unindexed]
  · simp [SourceEvent.unindexed, fitsUint_setWidth]
  · simpa [SourceEvent.unindexed] using hkey

/-- Widening keeps a nonzero value nonzero. -/
theorem setWidth_ne_zero {N : ℕ} (hN : N ≤ 256) {v : Uint N} (hv : v ≠ 0) :
    v.setWidth 256 ≠ 0#256 := fun hzero ↦
  hv (setWidth_inj hN (hzero.trans (BitVec.setWidth_zero 256 N).symm))

theorem onDenialCorrected_ok {subject : Address} {denialRevision : Uint 64}
    {correctionId : Uint 256} {reasonHash : Bytes32} {proposer approver : Address}
    (hsubject : subject ≠ 0) (hrevision : denialRevision ≠ 0) (hid : correctionId ≠ 0)
    (hreason : reasonHash ≠ 0) (hproposer : proposer ≠ 0) (happrover : approver ≠ 0)
    (hother : proposer ≠ approver) :
    ∃ s', s.onDenialCorrected R.height R.txIndex i ((SourceEvent.SanctionDenialCorrected subject
      denialRevision correctionId reasonHash proposer approver).toLog s.sourceContract) =
        .ok s' := by
  simp only [onDenialCorrected, bind_eq_ok, revertIf_eq_ok]
  refine ⟨_, (), requireTrusted_toLog _ rfl, (), ?_, (), ?_, (), ?_, rfl⟩
  · have hword := setWidth_ne_zero (by decide) hrevision
    simpa [SourceEvent.indexed, SourceEvent.unindexed, fitsUint_setWidth] using ⟨hword, hid⟩
  · simp [SourceEvent.unindexed, fitsUint_setWidth]
  · simpa [SourceEvent.indexed, SourceEvent.unindexed] using
      ⟨⟨⟨⟨hsubject, hreason⟩, hproposer⟩, happrover⟩, hother⟩

theorem onKeyCompromised_ok {issuer : Address} {issuerKeyEpoch lastTrustedBlock : Uint 64}
    {reasonHash : Bytes32} (hissuer : issuer ≠ 0) (hkey : issuerKeyEpoch ≠ 0)
    (hblock : lastTrustedBlock < R.height) (hreason : reasonHash ≠ 0) :
    ∃ s', s.onKeyCompromised R.height ((SourceEvent.IssuerKeyCompromised issuer issuerKeyEpoch
      lastTrustedBlock reasonHash).toLog s.sourceContract) = .ok s' := by
  simp only [onKeyCompromised, bind_eq_ok, revertIf_eq_ok]
  suffices h : ∀ c : Bool, ∀ t : ProofmarkASC, ∃ s' : ProofmarkASC,
      (if c then (.ok t : Except AscError ProofmarkASC) else .ok s) = .ok s' by
    obtain ⟨s', hs'⟩ := h _ _
    refine ⟨s', (), requireTrusted_toLog _ rfl, (), ?_, (), ?_, (), ?_, hs'⟩
    · simp [SourceEvent.indexed, SourceEvent.unindexed, fitsUint_setWidth]
    · simp [SourceEvent.unindexed, fitsUint_setWidth]
    · simpa [SourceEvent.indexed, SourceEvent.unindexed] using ⟨⟨⟨hissuer, hkey⟩, hreason⟩, hblock⟩
  rintro (- | -) t
  · exact ⟨s, rfl⟩
  · exact ⟨t, rfl⟩

theorem onEpoch_ok {epoch : Uint 32} {root : Bytes32} {listVersion : Uint 32}
    {validUntil sourceCutoff publishedAt : Uint 40} {snapshotId : Bytes32}
    (hgenuine : Genuine s.sourceContract R.logs)
    (h : s.Acceptable now R (.RosterEpochPublished epoch root listVersion validUntil sourceCutoff
      publishedAt snapshotId)) :
    ∃ s', s.onEpoch now R.height ((SourceEvent.RosterEpochPublished epoch root listVersion
      validUntil sourceCutoff publishedAt snapshotId).toLog s.sourceContract) R.logs = .ok s' := by
  obtain ⟨hvalid, hpublished, hannounced, hblank⟩ := h
  simp only [onEpoch, bind_eq_ok, revertIf_eq_ok]
  have hepoch : (topicAt ((SourceEvent.RosterEpochPublished epoch root listVersion validUntil
      sourceCutoff publishedAt snapshotId).toLog s.sourceContract) 1).setWidth 32 = epoch :=
    setWidth_setWidth_self (by decide) epoch
  have hroot : topicAt ((SourceEvent.RosterEpochPublished epoch root listVersion validUntil
      sourceCutoff publishedAt snapshotId).toLog s.sourceContract) 2 = root := rfl
  rw [hepoch, hroot]
  by_cases hstale : epoch ≤ s.latestEpoch
  · refine ⟨s, (), requireTrusted_toLog _ rfl, (), ?_, (), ?_, (), ?_, if_pos hstale⟩
    · simp [SourceEvent.indexed, SourceEvent.unindexed, fitsUint_setWidth]
    · simp [SourceEvent.unindexed, fitsUint_setWidth]
    · simpa [SourceEvent.unindexed] using ⟨hvalid, hpublished⟩
  · obtain ⟨t, n, hscan, hn⟩ := authorization_foldlM_ok hgenuine hannounced
      (hblank (BitVec.not_le.1 hstale))
    refine ⟨_, (), requireTrusted_toLog _ rfl, (), ?_, (), ?_, (), ?_,
      (if_neg hstale).trans (bind_eq_ok.2 ⟨(t, n), hscan, revertIf_bind_eq_ok.2 ⟨?_, rfl⟩⟩)⟩
    · simp [SourceEvent.indexed, SourceEvent.unindexed, fitsUint_setWidth]
    · simp [SourceEvent.unindexed, fitsUint_setWidth]
    · simpa [SourceEvent.unindexed] using ⟨hvalid, hpublished⟩
    · simpa using hn

/-- **An acceptable event goes through.** -/
theorem dispatch_toLog {e : SourceEvent} (hgenuine : Genuine s.sourceContract R.logs)
    (h : s.Acceptable now R e) :
    ∃ s', s.dispatch now R.height R.txIndex R.logs i (e.toLog s.sourceContract) = .ok s' := by
  simp only [dispatch, topicAt_zero, SIG_ISSUED, SIG_KEYED_ISSUED, SIG_REVOKED, SIG_DENIED,
    SIG_EPOCH, SIG_KEY_COMPROMISED, SIG_DENIAL_CORRECTED, EventName.topic_inj]
  cases e with
  | MarkIssued => exact onIssued_ok ..
  | MarkRevoked => exact onTombstone_ok rfl .Revoked
  | SanctionDenied => exact onTombstone_ok rfl .Denied
  | KeyedMarkIssued => exact onKeyedIssued_ok h
  | SanctionDenialCorrected =>
    obtain ⟨hsubject, hrevision, hid, hreason, hproposer, happrover, hother⟩ := h
    exact onDenialCorrected_ok hsubject hrevision hid hreason hproposer happrover hother
  | IssuerKeyCompromised =>
    obtain ⟨hissuer, hkey, hblock, hreason⟩ := h
    exact onKeyCompromised_ok hissuer hkey hblock hreason
  | RosterEpochPublished => exact onEpoch_ok hgenuine h
  | _ => exact ⟨s, rfl⟩

end Dispatch

end ProofmarkASC

end Proofmark
