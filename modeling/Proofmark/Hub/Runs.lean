import Proofmark.Evm.Execution
import Proofmark.Hub.Receipts

/-!
# Runs of the hub

A run is any list of calls to a freshly deployed hub, reverted ones included. Its receipts are the
ones of the accepted `execute` calls in the order of delivery, and its trace is the list of
trusted events they carry.

`run_rule` is the induction every theorem about runs uses: what the blank hub has with the empty
trace, and one admitted event keeps, holds of the trace of any run and the state after it. The
state is cut down to `core` there: ownership, the replay table and the chain key change without an
event, and no event reads them. `receipts_nodup` is what the replay table is for: no coordinate is
accepted twice.
-/

open Evm

namespace Proofmark

/-- Trusted events, each with the receipt and the log position it comes from. -/
abbrev Trace := List (Receipt × ℕ × HubEvent)

namespace Receipt

/-- The event of a log, if the log is the source's and spells one. -/
def eventAt (source : Address) (x : LogEntry × ℕ) : Option (ℕ × HubEvent) :=
  if ProofmarkASC.trusted source x.1 then (ProofmarkASC.decode x.1).map fun e ↦ (x.2, e) else none

/-- The trusted events of a receipt in log order. -/
def events (R : Receipt) (source : Address) : List (ℕ × HubEvent) :=
  R.logs.zipIdx.filterMap (eventAt source)

/-- The coordinates of the transaction a receipt belongs to. -/
def coordinates (R : Receipt) : Uint 64 × Uint 64 :=
  (R.height, R.txIndex)

end Receipt

/-- The events of receipts in order of delivery. -/
def traceOf (source : Address) (Rs : List Receipt) : Trace :=
  Rs.flatMap fun R ↦ (R.events source).map fun x ↦ (R, x)

@[simp]
theorem traceOf_nil (source : Address) : traceOf source [] = [] :=
  rfl

theorem traceOf_concat (source : Address) (Rs : List Receipt) (R : Receipt) :
    traceOf source (Rs ++ [R]) =
      traceOf source Rs ++ (R.events source).map fun x ↦ (R, x) := by
  simp [traceOf]

theorem traceOf_perm (source : Address) {Rs Rs' : List Receipt} (h : Rs.Perm Rs') :
    (traceOf source Rs).Perm (traceOf source Rs') :=
  h.flatMap_right _

namespace ProofmarkASC

/-! ### Accepted receipts -/

/-- The receipt an `execute` call proves. -/
def Call.receipt? (decoder : EvmV1Decoder) : Call → Option Receipt
  | .execute env args =>
    match env.verifier.calculateTxIndex ⟨args.merkleRoot, args.siblings⟩,
      decoder.decodeReceiptFields args.encodedTransaction with
    | some txIndex, some r => some ⟨args.blockHeight, txIndex, r.receiptLogs⟩
    | _, _ => none
  | _ => none

/-- The receipts of some calls. -/
def receiptsOf (decoder : EvmV1Decoder) (calls : List Call) : List Receipt :=
  calls.filterMap (Call.receipt? decoder)

/-- The state after a run of a hub deployed with the owner record `o`. -/
def after (decoder : EvmV1Decoder) (o : Ownable2Step) (calls : List Call) : ProofmarkASC :=
  run (exec decoder) (deployed o) calls

/-- The receipts accepted in a run, in order of delivery. -/
def acceptedReceipts (decoder : EvmV1Decoder) (o : Ownable2Step) (calls : List Call) :
    List Receipt :=
  receiptsOf decoder (accepted (exec decoder) (deployed o) calls)

/-- The trace of a run. -/
def traceAfter (decoder : EvmV1Decoder) (o : Ownable2Step) (calls : List Call) : Trace :=
  traceOf (after decoder o calls).sourceContract (acceptedReceipts decoder o calls)

/-- What an accepted `execute` call did. -/
theorem execute_spec {decoder : EvmV1Decoder} {s s' : ProofmarkASC} {env : HubEnv}
    {args : ExecuteArgs} (h : s.execute decoder env args = .ok s') :
    ∃ R matched, Call.receipt? decoder (.execute env args) = some R ∧
      s.processedQueries (computeQueryId s.expectedChainKey R.height R.txIndex) = false ∧
      s.sourceContract ≠ 0 ∧
      R.logs.zipIdx.foldlM
        (processLog env.timestamp args.action R.height R.txIndex R.logs)
        ({ s with
          processedQueries := Function.update s.processedQueries
            (computeQueryId s.expectedChainKey R.height R.txIndex) true }, false) =
        .ok (s', matched) := by
  obtain ⟨txIndex, htx, h⟩ := bind_eq_ok.1 h
  rw [getOrRevert_eq_ok] at htx
  simp only [revertIf_bind_eq_ok] at h
  obtain ⟨hfresh, h⟩ := h
  obtain ⟨verified, -, h⟩ := bind_eq_ok.1 h
  simp only [revertIf_bind_eq_ok, processAndEmitEvent, beq_eq_false_iff_ne,
    bne_eq_false_iff_eq] at h
  obtain ⟨-, hsource, hchain, -, h⟩ := h
  obtain ⟨t, -, h⟩ := bind_eq_ok.1 h
  simp only [revertIf_bind_eq_ok] at h
  obtain ⟨-, h⟩ := h
  obtain ⟨r, hr, h⟩ := bind_eq_ok.1 h
  rw [getOrRevert_eq_ok] at hr
  simp only [revertIf_bind_eq_ok] at h
  obtain ⟨-, h⟩ := h
  obtain ⟨⟨t, matched⟩, hscan, h⟩ := bind_eq_ok.1 h
  simp only [revertIf_bind_eq_ok] at h
  obtain rfl : t = s' := Except.ok.inj h.2
  rw [hchain] at hscan hfresh
  exact ⟨⟨args.blockHeight, txIndex, r.receiptLogs⟩, matched, by simp [Call.receipt?, htx, hr],
    hfresh, hsource, hscan⟩

/-! ### The part of the state events act on -/

/-- The state without the fields no event reads or writes. -/
def core (s : ProofmarkASC) : ProofmarkASC :=
  { s with ownable := ⟨0, 0⟩, processedQueries := fun _ ↦ false, expectedChainKey := 0 }

/-- A hub that pinned `source` and received nothing. -/
def blank (source : Address) : ProofmarkASC :=
  { deployed ⟨0, 0⟩ with sourceContract := source }

/-- An event changes the core as it changes the state. -/
theorem core_applyEvent (s : ProofmarkASC) (R : Receipt) (i : ℕ) (e : HubEvent) :
    (s.applyEvent R i e).core = s.core.applyEvent R i e := by
  cases e with
  | lifecycle subject e => rfl
  | epoch a =>
    by_cases h : a.epoch ≤ s.latestEpoch
    · have h' : a.epoch ≤ s.core.latestEpoch := h
      rw [applyEvent, applyEvent, if_pos h, if_pos h']
    · have h' : ¬a.epoch ≤ s.core.latestEpoch := h
      rw [applyEvent, applyEvent, if_neg h, if_neg h']
      rfl
  | compromised issuer issuerKeyEpoch lastTrustedBlock =>
    simp only [applyEvent, lowerCutoff, apply_ite core]
    rfl

@[simp]
theorem applyEvent_sourceContract (s : ProofmarkASC) (R : Receipt) (i : ℕ) (e : HubEvent) :
    (s.applyEvent R i e).sourceContract = s.sourceContract := by
  cases e with
  | lifecycle subject e => rfl
  | epoch a =>
    rw [applyEvent]
    split <;> rfl
  | compromised issuer issuerKeyEpoch lastTrustedBlock =>
    rw [applyEvent, lowerCutoff]
    split <;> rfl

@[simp]
theorem applyEvent_processedQueries (s : ProofmarkASC) (R : Receipt) (i : ℕ) (e : HubEvent) :
    (s.applyEvent R i e).processedQueries = s.processedQueries := by
  cases e with
  | lifecycle subject e => rfl
  | epoch a =>
    rw [applyEvent]
    split <;> rfl
  | compromised issuer issuerKeyEpoch lastTrustedBlock =>
    rw [applyEvent, lowerCutoff]
    split <;> rfl

@[simp]
theorem applyEvent_expectedChainKey (s : ProofmarkASC) (R : Receipt) (i : ℕ) (e : HubEvent) :
    (s.applyEvent R i e).expectedChainKey = s.expectedChainKey := by
  cases e with
  | lifecycle subject e => rfl
  | epoch a =>
    rw [applyEvent]
    split <;> rfl
  | compromised issuer issuerKeyEpoch lastTrustedBlock =>
    rw [applyEvent, lowerCutoff]
    split <;> rfl

theorem admits_core {s : ProofmarkASC} {now : ℕ} {R : Receipt} {e : HubEvent}
    (h : s.Admits now R e) : s.core.Admits now R e := by
  cases e with
  | lifecycle subject e => exact h
  | epoch a => exact h
  | compromised issuer issuerKeyEpoch lastTrustedBlock => exact h

/-- One iteration over a receipt: a foreign log changes nothing, a trusted one is dispatched. -/
theorem processLog_spec {s s' : ProofmarkASC} {matched matched' : Bool} {R : Receipt} {now : ℕ}
    {action : Uint 8} {x : LogEntry × ℕ}
    (h : processLog now action R.height R.txIndex R.logs (s, matched) x = .ok (s', matched')) :
    (Receipt.eventAt s.sourceContract x = none ∧ s' = s) ∨
      ∃ e, Receipt.eventAt s.sourceContract x = some (x.2, e) ∧ s.Admits now R e ∧
        s' = s.applyEvent R x.2 e := by
  obtain ⟨L, i⟩ := x
  simp only [processLog] at h
  split at h
  case isTrue hforeign =>
    refine .inl ⟨?_, (Prod.mk.inj (Except.ok.inj h)).1.symm⟩
    rw [Receipt.eventAt, if_neg]
    rintro ⟨haddr, hlen⟩
    rcases hforeign with hne | hzero
    · exact hne haddr
    · exact hlen hzero
  case isFalse htrusted =>
    simp only [not_or, not_not] at htrusted
    obtain ⟨t, ht, h⟩ := bind_eq_ok.1 h
    obtain rfl : t = s' := (Prod.mk.inj (Except.ok.inj h)).1
    have hat : Receipt.eventAt s.sourceContract (L, i) = (decode L).map fun e ↦ (i, e) := by
      have hpos : trusted s.sourceContract L := htrusted
      rw [Receipt.eventAt, if_pos hpos]
    rcases dispatch_spec ht with ⟨hnone, rfl⟩ | ⟨e, hsome, hadmits, rfl⟩
    · exact .inl ⟨by rw [hat, hnone, Option.map_none], rfl⟩
    · exact .inr ⟨e, by rw [hat, hsome, Option.map_some], hadmits, rfl⟩

/-- Induction over the events of one receipt. -/
theorem receipt_rule {P : List (ℕ × HubEvent) → ProofmarkASC → Prop} {s s' : ProofmarkASC}
    {matched matched' : Bool} {R : Receipt} {now : ℕ} {action : Uint 8}
    (hstep : ∀ done t i e, P done t → t.Admits now R e →
      P (done ++ [(i, e)]) (t.applyEvent R i e))
    (h : R.logs.zipIdx.foldlM (processLog now action R.height R.txIndex R.logs) (s, matched) =
      .ok (s', matched')) (hinit : P [] s) :
    s'.sourceContract = s.sourceContract ∧ P (R.events s.sourceContract) s' := by
  refine foldlM_induction (P := fun logs (acc : ProofmarkASC × Bool) ↦
    acc.1.sourceContract = s.sourceContract ∧
      P (logs.filterMap (Receipt.eventAt s.sourceContract)) acc.1) ?_ ?_ h
  swap
  · exact ⟨rfl, hinit⟩
  rintro logs ⟨t, m⟩ x ⟨t', m'⟩ - ⟨hsource, hP⟩ hx
  simp only at hsource
  rw [List.filterMap_append]
  rcases processLog_spec hx with ⟨hnone, rfl⟩ | ⟨e, hsome, hadmits, rfl⟩
  · rw [hsource] at hnone
    refine ⟨hsource, ?_⟩
    simpa [hnone] using hP
  · rw [hsource] at hsome
    refine ⟨by simpa using hsource, ?_⟩
    simpa [hsome] using hstep _ t x.2 e hP hadmits

/-- **Induction over the events of a run.** What a blank hub has before any event, and one admitted
event keeps, holds after every run of the trace of its receipts. -/
theorem run_rule {P : Trace → ProofmarkASC → Prop} (hblank : ∀ source, P [] (blank source))
    (hstep : ∀ done s R i e now, P done s → s.Admits now R e →
      P (done ++ [(R, i, e)]) (s.applyEvent R i e))
    (decoder : EvmV1Decoder) (o : Ownable2Step) (calls : List Call) :
    P (traceAfter decoder o calls) (after decoder o calls).core := by
  -- before the source is pinned there is no receipt and the core is blank
  suffices h : ((after decoder o calls).sourceContract = 0 →
      acceptedReceipts decoder o calls = [] ∧ (after decoder o calls).core = blank 0) ∧
      P (traceOf (after decoder o calls).sourceContract (acceptedReceipts decoder o calls))
        (after decoder o calls).core from h.2
  have hinit : ((deployed o).sourceContract = 0 →
      receiptsOf decoder [] = [] ∧ (deployed o).core = blank 0) ∧
      P (traceOf (deployed o).sourceContract (receiptsOf decoder [])) (deployed o).core :=
    ⟨fun _ ↦ ⟨rfl, rfl⟩, hblank 0⟩
  refine run_induction (P := fun done (s : ProofmarkASC) ↦
    (s.sourceContract = 0 → receiptsOf decoder done = [] ∧ s.core = blank 0) ∧
      P (traceOf s.sourceContract (receiptsOf decoder done)) s.core) hinit ?_ calls
  rintro done s call s' ⟨hunset, hP⟩ hexec
  have hadmin : Call.receipt? decoder call = none →
      receiptsOf decoder (done ++ [call]) = receiptsOf decoder done := fun hnone ↦ by
    simp [receiptsOf, hnone]
  cases call with
  | execute env args =>
    obtain ⟨R, matched, hR, -, hsource, hscan⟩ := execute_spec hexec
    have hreceipts : receiptsOf decoder (done ++ [.execute env args]) =
        receiptsOf decoder done ++ [R] := by simp [receiptsOf, hR]
    obtain ⟨hsame, htrace⟩ := receipt_rule (P := fun events t ↦
      P (traceOf s.sourceContract (receiptsOf decoder done) ++ events.map fun x ↦ (R, x)) t.core)
      (fun events t i e ht hadmits ↦ by
        have hnext := hstep _ t.core R i e env.timestamp ht (admits_core hadmits)
        simpa [core_applyEvent] using hnext)
      hscan (by
        rw [List.map_nil, List.append_nil]
        exact hP)
    refine ⟨fun h0 ↦ absurd (hsame.symm.trans h0) hsource, ?_⟩
    rw [hreceipts, hsame, traceOf_concat]
    exact htrace
  | configureSource env chainKey sourceContract =>
    obtain ⟨-, -, hexec⟩ := bind_eq_ok.1 hexec
    simp only [revertIf_bind_eq_ok, bne_eq_false_iff_eq, beq_eq_false_iff_ne] at hexec
    obtain ⟨hzero, hne, -, hexec⟩ := hexec
    obtain rfl := Except.ok.inj hexec
    obtain ⟨hnil, hcore⟩ := hunset hzero
    have hpinned : core { s with expectedChainKey := chainKey, sourceContract := sourceContract } =
        { s.core with sourceContract := sourceContract } := rfl
    refine ⟨fun h0 ↦ absurd h0 hne, ?_⟩
    rw [hadmin rfl, hnil, hpinned, hcore]
    exact hblank sourceContract
  | transferOwnership env newOwner | acceptOwnership env | renounceOwnership env =>
    obtain ⟨o', -, hexec⟩ := bind_eq_ok.1 hexec
    obtain rfl := Except.ok.inj hexec
    rw [hadmin rfl]
    exact ⟨hunset, hP⟩

/-! ### Replay protection -/

/-- **No coordinate is accepted twice.** The replay table is keyed by a hash of the coordinates;
equal coordinates have equal keys, whatever the hash does on different ones. -/
theorem receipts_nodup (decoder : EvmV1Decoder) (o : Ownable2Step) (calls : List Call) :
    ((acceptedReceipts decoder o calls).map Receipt.coordinates).Nodup := by
  suffices h : ((after decoder o calls).sourceContract = 0 →
      acceptedReceipts decoder o calls = []) ∧
      (∀ R ∈ acceptedReceipts decoder o calls, (after decoder o calls).processedQueries
        (computeQueryId (after decoder o calls).expectedChainKey R.height R.txIndex) = true) ∧
      ((acceptedReceipts decoder o calls).map Receipt.coordinates).Nodup from h.2.2
  refine run_induction (P := fun done (s : ProofmarkASC) ↦
    (s.sourceContract = 0 → receiptsOf decoder done = []) ∧
      (∀ R ∈ receiptsOf decoder done,
        s.processedQueries (computeQueryId s.expectedChainKey R.height R.txIndex) = true) ∧
      ((receiptsOf decoder done).map Receipt.coordinates).Nodup) ?_ ?_ calls
  · simp [receiptsOf]
  rintro done s call s' ⟨hunset, hprocessed, hnd⟩ hexec
  have hadmin : Call.receipt? decoder call = none →
      receiptsOf decoder (done ++ [call]) = receiptsOf decoder done := fun hnone ↦ by
    simp [receiptsOf, hnone]
  cases call with
  | execute env args =>
    obtain ⟨R, matched, hR, hfresh, hsource, hscan⟩ := execute_spec hexec
    have hreceipts : receiptsOf decoder (done ++ [.execute env args]) =
        receiptsOf decoder done ++ [R] := by simp [receiptsOf, hR]
    obtain ⟨hsame, hkey, htable⟩ := receipt_rule (P := fun _ (t : ProofmarkASC) ↦
      t.expectedChainKey = s.expectedChainKey ∧
        t.processedQueries = Function.update s.processedQueries
          (computeQueryId s.expectedChainKey R.height R.txIndex) true)
      (fun _ t i e ht _ ↦ by simpa using ht) hscan ⟨rfl, rfl⟩
    refine ⟨fun h0 ↦ absurd (hsame.symm.trans h0) hsource, ?_, ?_⟩
    · intro R' hR'
      rw [hkey, htable, Function.update_apply]
      split
      · rfl
      · rw [hreceipts, List.mem_append, List.mem_singleton] at hR'
        rcases hR' with hR' | rfl
        · exact hprocessed R' hR'
        · exact absurd rfl ‹_›
    · rw [hreceipts, List.map_append, List.map_singleton, ← List.concat_eq_append,
        List.nodup_concat]
      refine ⟨fun hmem ↦ ?_, hnd⟩
      obtain ⟨R', hR', hcoord⟩ := List.mem_map.1 hmem
      obtain ⟨hheight, htx⟩ := Prod.mk.inj hcoord
      rw [← hheight, ← htx, hprocessed R' hR'] at hfresh
      exact absurd hfresh (by simp)
  | configureSource env chainKey sourceContract =>
    obtain ⟨-, -, hexec⟩ := bind_eq_ok.1 hexec
    simp only [revertIf_bind_eq_ok, bne_eq_false_iff_eq, beq_eq_false_iff_ne] at hexec
    obtain ⟨hzero, hne, -, hexec⟩ := hexec
    obtain rfl := Except.ok.inj hexec
    rw [hadmin rfl, hunset hzero]
    simp
  | transferOwnership env newOwner | acceptOwnership env | renounceOwnership env =>
    obtain ⟨o', -, hexec⟩ := bind_eq_ok.1 hexec
    obtain rfl := Except.ok.inj hexec
    rw [hadmin rfl]
    exact ⟨hunset, hprocessed, hnd⟩

/-! ### The records of the subjects -/

end ProofmarkASC

/-- The coordinate of an entry of a trace. -/
def coordOf (x : Receipt × ℕ × HubEvent) : Coord :=
  ⟨x.1.height, x.1.txIndex, x.2.1⟩

/-- The lifecycle event of an entry of a trace, if it is about the subject. -/
def lifecycleOf (subject : Address) (x : Receipt × ℕ × HubEvent) :
    Option (Coord × LifecycleEvent) :=
  match x.2.2 with
  | .lifecycle who e => if who = subject then some (coordOf x, e) else none
  | _ => none

/-- The events of a trace about one subject, in order of delivery. -/
def historyOf (subject : Address) (T : Trace) : History :=
  T.filterMap (lifecycleOf subject)

/-- The positions of the events of a receipt are positions of its logs, in order. -/
theorem events_positions_sublist (source : Address) (l : List (LogEntry × ℕ)) :
    ((l.filterMap (Receipt.eventAt source)).map Prod.fst).Sublist (l.map Prod.snd) := by
  induction l with
  | nil => simp
  | cons x l ih =>
    rcases hx : Receipt.eventAt source x with - | ⟨i, e⟩
    · rw [List.filterMap_cons, hx, List.map_cons]
      exact ih.cons _
    · have hi : i = x.2 := by
        simp only [Receipt.eventAt] at hx
        split at hx
        · obtain ⟨e', -, he⟩ := Option.map_eq_some_iff.1 hx
          exact (Prod.mk.inj he).1.symm
        · simp at hx
      rw [List.filterMap_cons, hx, List.map_cons, List.map_cons, hi]
      exact ih.cons_cons _

/-- The events of receipts with distinct coordinates have distinct coordinates. -/
theorem traceOf_coordOf_nodup {source : Address} {Rs : List Receipt}
    (hnd : (Rs.map Receipt.coordinates).Nodup) : ((traceOf source Rs).map coordOf).Nodup := by
  induction Rs using List.reverseRecOn with
  | nil => simp
  | append_singleton Rs R ih =>
    rw [List.map_append, List.nodup_append] at hnd
    obtain ⟨hRs, -, hdisjoint⟩ := hnd
    rw [traceOf_concat, List.map_append, List.map_map, List.nodup_append]
    refine ⟨ih hRs, ?_, ?_⟩
    · -- inside one receipt the log index tells the events apart
      have hpositions : ((R.events source).map Prod.fst).Nodup := by
        refine (events_positions_sublist source R.logs.zipIdx).nodup ?_
        rw [List.zipIdx_map_snd]
        exact List.nodup_range'
      refine List.Nodup.of_map Coord.logIndex ?_
      rw [List.map_map]
      exact hpositions
    · rintro c hc d hd rfl
      obtain ⟨x, hx, rfl⟩ := List.mem_map.1 hc
      obtain ⟨y, -, hxy⟩ := List.mem_map.1 hd
      obtain ⟨R', hR', hxR'⟩ := List.mem_flatMap.1 hx
      obtain ⟨z, -, rfl⟩ := List.mem_map.1 hxR'
      simp only [Function.comp_apply, coordOf, Coord.mk.injEq] at hxy
      refine hdisjoint (R'.height, R'.txIndex) (List.mem_map_of_mem hR')
        (R.height, R.txIndex) (by simp [Receipt.coordinates]) ?_
      rw [hxy.1, hxy.2.1]

/-- Taking the events of one subject keeps coordinates distinct. -/
theorem historyOf_nodup {T : Trace} (hnd : (T.map coordOf).Nodup) (subject : Address) :
    ((historyOf subject T).map Prod.fst).Nodup := by
  refine List.Sublist.nodup ?_ hnd
  induction T with
  | nil => simp [historyOf]
  | cons x T ih =>
    rw [historyOf, List.filterMap_cons]
    have hT := ih (List.nodup_cons.1 hnd).2
    rcases hx : lifecycleOf subject x with - | ⟨c, e⟩
    · exact hT.cons _
    · have hc : c = coordOf x := by
        simp only [lifecycleOf] at hx
        split at hx
        · split at hx
          · exact (Prod.mk.inj (Option.some_inj.1 hx)).1.symm
          · simp at hx
        · simp at hx
      rw [List.map_cons, List.map_cons, hc]
      exact hT.cons_cons _

theorem historyOf_perm (subject : Address) {T T' : Trace} (h : T.Perm T') :
    (historyOf subject T).Perm (historyOf subject T') :=
  h.filterMap _

namespace ProofmarkASC

/-- An event changes the record of a subject as the history of that subject says. -/
theorem applyEvent_subjects (s : ProofmarkASC) (R : Receipt) (i : ℕ) (e : HubEvent)
    (subject : Address) : (s.applyEvent R i e).subjects subject =
      (historyOf subject [(R, i, e)]).foldl SubjectRecord.apply (s.subjects subject) := by
  cases e with
  | lifecycle who e =>
    by_cases h : who = subject
    · subst h
      simp [applyEvent, modifySubject, historyOf, lifecycleOf, coordOf]
    · simp [applyEvent, modifySubject, historyOf, lifecycleOf, h, Ne.symm h]
  | epoch a =>
    simp only [applyEvent, historyOf, lifecycleOf, List.filterMap_cons, List.filterMap_nil,
      List.foldl_nil]
    split <;> rfl
  | compromised issuer issuerKeyEpoch lastTrustedBlock =>
    simp only [applyEvent, lowerCutoff, historyOf, lifecycleOf, List.filterMap_cons,
      List.filterMap_nil, List.foldl_nil]
    split <;> rfl

/-- **The record of a subject after a run** is the fold of the subject's events in the order of
delivery. -/
theorem subjects_after (decoder : EvmV1Decoder) (o : Ownable2Step) (calls : List Call)
    (subject : Address) : (after decoder o calls).subjects subject =
      (historyOf subject (traceAfter decoder o calls)).foldl SubjectRecord.apply
        SubjectRecord.zero := by
  refine run_rule (P := fun done s ↦ s.subjects subject =
    (historyOf subject done).foldl SubjectRecord.apply SubjectRecord.zero)
    (fun _ ↦ rfl) (fun done s R i e now hdone _ ↦ ?_) decoder o calls
  rw [applyEvent_subjects, hdone, historyOf, historyOf, historyOf, List.filterMap_append,
    List.foldl_append]

theorem traceAfter_nodup (decoder : EvmV1Decoder) (o : Ownable2Step) (calls : List Call) :
    ((traceAfter decoder o calls).map coordOf).Nodup :=
  traceOf_coordOf_nodup (receipts_nodup decoder o calls)

/-- **The record of a subject after a run tracks the subject's history.** -/
theorem tracks_after (decoder : EvmV1Decoder) (o : Ownable2Step) (calls : List Call)
    (subject : Address) :
    Tracks (historyOf subject (traceAfter decoder o calls)).effective
      ((after decoder o calls).subjects subject) := by
  have hnd := historyOf_nodup (traceAfter_nodup decoder o calls) subject
  rw [subjects_after, foldl_apply_effective]
  refine tracks_foldl_apply (effective_nodup hnd) fun x hx ↦ ?_
  simpa using (List.mem_filter.1 hx).2

end ProofmarkASC

end Proofmark
