import Proofmark.Hub.Runs

/-!
# The hub's lifecycle does not depend on the order of delivery

Receipts are delivered by anyone, in any order, with failed and repeated deliveries in between. The
record of a subject afterwards shows the standing that the accepted events have in source order
(`lifecycle_confluence`).

Three of a record's fields do keep a trace of the order: `latestOrdinaryStatus` while a decision is
the greatest event, the content of a mark that is not `Active`, and the particulars of a correction
that a later decision preceded. None of them is read while the standing is what it is.
-/

open Evm

namespace Proofmark

/-- A record agrees with the events of its subject in source order. -/
structure AgreesWithSource (E : History) (r : SubjectRecord) : Prop where
  /-- A denial is in force iff the last decision is a denial. -/
  denial : r.permanentDenial = true ↔ ∃ c, E.decisions.Greatest (c, .denied)
  decisionCursor : ∀ x, E.decisions.Greatest x → r.decisionCursor = x.1
  decisionCursor_zero : E.decisions = [] → r.decisionCursor = Coord.zero
  cursor : ∀ x, E.Greatest x → r.cursor = x.1
  cursor_zero : E = [] → r.cursor = Coord.zero
  status_none : E = [] → r.mark.status = .None
  status_denied : r.permanentDenial = true → r.mark.status = .Denied
  /-- The greatest event decides: a valid issuance leaves `Active`, a revocation `Revoked`, a
  correction or an issuance of an unsupported schema `Suspended`. -/
  status_event : ∀ c e, E.Greatest (c, e) → r.permanentDenial = false → r.mark.status = e.status
  tombstone : r.tombstone = true ↔ r.mark.status ≠ .None ∧ r.mark.status ≠ .Active
  /-- An active mark is the one of the greatest event. -/
  active : r.mark.status = .Active → ∃ c i, E.Greatest (c, .issued i) ∧ i.valid = true ∧
    r.mark = i.mark ∧ r.markIssuerKeyEpoch = i.issuerKeyEpoch

theorem eq_nil_of_lastEvent {E : History} (h : lastEvent E = none) : E = [] :=
  LastWriter.latest_eq_none.1 h

/-- A record that tracks a history agrees with it. -/
theorem Tracks.agreesWithSource {E : History} {r : SubjectRecord} (h : Tracks E r)
    (hnd : (E.map Prod.fst).Nodup) : AgreesWithSource E r := by
  have hdenied : r.permanentDenial = true → r.mark.status = .Denied := fun hd ↦ by
    rw [h.status, hd, statusOf, if_pos rfl]
  constructor
  case denial => rw [h.denial, deniedBy_lastDecision_iff hnd]
  case decisionCursor =>
    intro x hx
    rw [h.decisionCursor, (lastDecision_eq_some_iff hnd).2 hx]
    rfl
  case decisionCursor_zero =>
    intro hnil
    have hnone : lastDecision E = none := LastWriter.latest_eq_none.2 hnil
    rw [h.decisionCursor, hnone]
    rfl
  case cursor =>
    intro x hx
    rw [h.cursor, (lastEvent_eq_some_iff hnd).2 hx]
    rfl
  case cursor_zero =>
    rintro rfl
    exact h.cursor
  case status_none =>
    rintro rfl
    rw [h.status, h.denial]
    rfl
  case status_denied => exact hdenied
  case status_event =>
    intro c e hx hd
    rw [h.status, hd, (lastEvent_eq_some_iff hnd).2 hx]
    rfl
  case tombstone => rw [h.tombstone, decide_eq_true_eq]
  case active =>
    intro hactive
    have hd : r.permanentDenial = false := by
      by_contra hd
      rw [hdenied (by simpa using hd)] at hactive
      exact absurd hactive (by simp)
    rcases hlast : lastEvent E with - | ⟨c, e⟩
    · rw [h.status, hd, hlast] at hactive
      exact absurd hactive (by simp [statusOf])
    · have hstatus : e.status = .Active := by
        rw [h.status, hd, hlast] at hactive
        simpa [statusOf] using hactive
      obtain ⟨i, rfl, hvalid⟩ := LifecycleEvent.status_eq_active.1 hstatus
      obtain ⟨hmark, hkey⟩ := h.content c i hlast hvalid
      refine ⟨c, i, (lastEvent_eq_some_iff hnd).1 hlast, hvalid, ?_, hkey⟩
      rw [hmark, hactive]
      rfl

/-- A mark is active exactly if no denial is in force and the greatest event is a valid issuance. -/
theorem AgreesWithSource.active_iff {E : History} {r : SubjectRecord} (h : AgreesWithSource E r) :
    r.mark.status = .Active ↔ (¬∃ c, E.decisions.Greatest (c, .denied)) ∧
      ∃ c i, E.Greatest (c, .issued i) ∧ i.valid = true := by
  rw [← h.denial, Bool.not_eq_true]
  constructor
  · intro hactive
    obtain ⟨c, i, hgreatest, hvalid, -⟩ := h.active hactive
    refine ⟨?_, c, i, hgreatest, hvalid⟩
    by_contra hdenied
    have hstatus := h.status_denied (by simpa using hdenied)
    rw [hactive] at hstatus
    exact absurd hstatus (by simp)
  · rintro ⟨hdenied, c, i, hgreatest, hvalid⟩
    rw [h.status_event c _ hgreatest hdenied]
    simp [LifecycleEvent.status, hvalid]

/-- An active mark is outside the tombstone. -/
theorem AgreesWithSource.tombstone_of_active {E : History} {r : SubjectRecord}
    (h : AgreesWithSource E r) (hactive : r.mark.status = .Active) : r.tombstone = false := by
  rw [← Bool.not_eq_true, h.tombstone, hactive]
  simp

namespace ProofmarkASC

/-- Receipts above height zero carry no event at the zero coordinate. -/
theorem historyOf_pos {source : Address} {Rs : List Receipt} {subject : Address}
    (h : ∀ R ∈ Rs, 0 < R.height) :
    ∀ x ∈ historyOf subject (traceOf source Rs), Coord.zero < x.1 := by
  intro x hx
  obtain ⟨⟨R, i, e⟩, hmem, hlifecycle⟩ := List.mem_filterMap.1 hx
  obtain ⟨R', hR', hxR'⟩ := List.mem_flatMap.1 hmem
  obtain ⟨y, -, hy⟩ := List.mem_map.1 hxR'
  obtain rfl : R' = R := congrArg Prod.fst hy
  simp only [lifecycleOf] at hlifecycle
  split at hlifecycle
  · split at hlifecycle
    · rw [← Option.some_inj.1 hlifecycle]
      exact Coord.zero_lt_of_height (h R' hR')
    · simp at hlifecycle
  · simp at hlifecycle

/-- The traces of two runs with the same receipts list the same events. -/
theorem traceAfter_perm {decoder decoder' : EvmV1Decoder} {o o' : Ownable2Step}
    {calls calls' : List Call}
    (hsource : (after decoder' o' calls').sourceContract = (after decoder o calls).sourceContract)
    (hreceipts : ∀ R, R ∈ acceptedReceipts decoder' o' calls' ↔
      R ∈ acceptedReceipts decoder o calls) :
    (traceAfter decoder' o' calls').Perm (traceAfter decoder o calls) := by
  have hperm : (acceptedReceipts decoder' o' calls').Perm (acceptedReceipts decoder o calls) :=
    (List.perm_ext_iff_of_nodup (List.Nodup.of_map _ (receipts_nodup decoder' o' calls'))
      (List.Nodup.of_map _ (receipts_nodup decoder o calls))).2 hreceipts
  rw [traceAfter, traceAfter, hsource]
  exact traceOf_perm _ hperm

/-- Above height zero every event counts. -/
theorem tracks_history {decoder : EvmV1Decoder} {o : Ownable2Step} {calls : List Call}
    (hheight : ∀ R ∈ acceptedReceipts decoder o calls, 0 < R.height) (subject : Address) :
    Tracks (historyOf subject (traceAfter decoder o calls))
      ((after decoder o calls).subjects subject) := by
  have hpos : ∀ x ∈ historyOf subject (traceAfter decoder o calls), Coord.zero < x.1 :=
    historyOf_pos hheight
  have h := tracks_after decoder o calls subject
  rwa [effective_eq_self hpos] at h

/-- **Delivery-order confluence.** After any run whose accepted receipts are above height zero, the
record of a subject shows the standing that the accepted events give it in source order, and any
other run that accepted the same receipts shows the same. -/
theorem lifecycle_confluence (decoder : EvmV1Decoder) (o : Ownable2Step) (calls : List Call)
    (hheight : ∀ R ∈ acceptedReceipts decoder o calls, 0 < R.height) (subject : Address) :
    let E := historyOf subject (traceAfter decoder o calls)
    let r := (after decoder o calls).subjects subject
    Shows r (standing E) ∧ AgreesWithSource E r ∧
      ∀ decoder' o' calls',
        (after decoder' o' calls').sourceContract = (after decoder o calls).sourceContract →
        (∀ R, R ∈ acceptedReceipts decoder' o' calls' ↔ R ∈ acceptedReceipts decoder o calls) →
        Shows ((after decoder' o' calls').subjects subject) (standing E) := by
  intro E r
  have hnd : (E.map Prod.fst).Nodup := historyOf_nodup (traceAfter_nodup decoder o calls) subject
  have htracks : Tracks E r := tracks_history hheight subject
  refine ⟨htracks.shows hnd, htracks.agreesWithSource hnd, fun decoder' o' calls' hsource hsame ↦ ?_⟩
  have hperm := historyOf_perm subject (traceAfter_perm hsource hsame)
  have hnd' := historyOf_nodup (traceAfter_nodup decoder' o' calls') subject
  have htracks' := tracks_history (fun R hR ↦ hheight R ((hsame R).1 hR)) subject
  rw [show standing E = standing (historyOf subject (traceAfter decoder' o' calls')) from
    (standing_perm hnd' hperm).symm]
  exact htracks'.shows hnd'

/-! ### A run to try it on -/

/-- The prover the repository's tests put in place of the precompile: it accepts every proof and
reads the transaction index off the root. -/
def mockBlockProver : INativeQueryVerifier where
  verifyAndEmit _ _ _ _ _ := some true
  calculateTxIndex proof := some (proof.root.setWidth 64)

/-- A decoder that looks receipts up by their first byte. -/
def tableDecoder (table : List (List LogEntry)) : EvmV1Decoder where
  getTransactionType _ := some 2
  isValidTransactionType t := decide (t ≤ 4)
  decodeReceiptFields encoded := (table[(encoded.headD 0).toNat]?).map fun logs ↦ ⟨1, logs⟩

/-- The call that proves receipt `entry` of the table at a coordinate. -/
def deliver (action : Action) (height txIndex : ℕ) (entry : Byte) : Call :=
  .execute ⟨1, 1700086400, mockBlockProver⟩
    ⟨action.code, 1, BitVec.ofNat 64 height, [entry], BitVec.ofNat 256 txIndex, [], 0, []⟩

/-- Two receipts of one subject: a correction with its replacement issuance, and the denial it
corrects. -/
def sampleReceipts : List (List LogEntry) :=
  [[(SourceEvent.SanctionDenialCorrected 0x3001 1 1 7 0xCA11 0xA9900).toLog 0x501,
    (SourceEvent.MarkIssued 0x3001 (MarkAttrs.pack 1 3 1 840 1 1700000000 1800000000 1) 0xCA11 5
      6).toLog 0x501],
    [(SourceEvent.SanctionDenied 0x3001 2 1).toLog 0x501]]

/-- The correction is delivered before the denial it corrects. -/
def sampleRun : List Call :=
  [.configureSource ⟨1, 1700086400, mockBlockProver⟩ 1 0x501,
    deliver .SanctionDenialCorrection 101 3 0, deliver .SanctionDenied 100 2 1]

theorem acceptedReceipts_sampleRun_height :
    ∀ R ∈ acceptedReceipts (tableDecoder sampleReceipts) ⟨1, 0⟩ sampleRun, 0 < R.height := by
  have hcalled : ∀ R ∈ receiptsOf (tableDecoder sampleReceipts) sampleRun, 0 < R.height := by
    decide +kernel
  intro R hR
  exact hcalled R (List.filterMap_subset _ accepted_subset hR)

theorem lifecycle_confluence_sampleRun :
    Shows ((after (tableDecoder sampleReceipts) ⟨1, 0⟩ sampleRun).subjects 0x3001)
      (standing (historyOf 0x3001 (traceAfter (tableDecoder sampleReceipts) ⟨1, 0⟩ sampleRun))) :=
  (lifecycle_confluence (tableDecoder sampleReceipts) ⟨1, 0⟩ sampleRun
    acceptedReceipts_sampleRun_height 0x3001).1

end ProofmarkASC

end Proofmark
