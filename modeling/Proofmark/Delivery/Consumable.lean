import Proofmark.Hub.Confluence
import Proofmark.Hub.Epochs
import Proofmark.Source.Receipts
import Proofmark.Worker.SourceEvents

/-!
# Every receipt of the source is consumable

One revert of the hub blocks every event of a receipt for ever, so no receipt the source can
produce may revert. The hub's side needs one invariant, that nothing is approved above the latest
epoch; the rest is what the source guarantees of a transaction (`SoundTransaction`). The action the
worker sends with the receipt only has to name an event that is there.

The decoder, the endpoint and the ABI interface are outside the repository. `Decodes` and
`Renders` say what is relied on: they report what is in the receipt.
-/

open Evm

namespace Proofmark

variable {d : Deployment}

/-- The time of a publication. -/
def SourceEvent.publishedAt? : SourceEvent → Option (Uint 40)
  | .RosterEpochPublished _ _ _ _ _ publishedAt _ => some publishedAt
  | _ => none

/-! ### The hub's side -/

/-- The decoder library reads a transaction as a successful one with the given logs. -/
structure EvmV1Decoder.Decodes (decoder : EvmV1Decoder) (encoded : Bytes) (logs : List LogEntry) :
    Prop where
  txType : ∃ t, decoder.getTransactionType encoded = some t ∧
    decoder.isValidTransactionType t = true
  receipt : decoder.decodeReceiptFields encoded = some ⟨1, logs⟩

namespace ProofmarkASC

/-- A log that a call with the given action is looking for. -/
def Matches (action : Uint 8) (L : LogEntry) : Prop :=
  topicAt L 0 = requestedTopic action ∨
    action = Action.MarkIssued.code ∧ topicAt L 0 = SIG_KEYED_ISSUED

/-- One iteration over a receipt goes through on a log of another contract, and on an acceptable
event. -/
theorem processLog_ok {s : ProofmarkASC} (matched : Bool) {now : ℕ} (action : Uint 8) {R : Receipt}
    {x : LogEntry × ℕ} (hgenuine : Genuine s.sourceContract R.logs)
    (h : x.1.address_ = s.sourceContract →
      ∃ e : SourceEvent, x.1 = e.toLog s.sourceContract ∧ s.Acceptable now R e) :
    ∃ t matched', processLog now action R.height R.txIndex R.logs (s, matched) x =
      .ok (t, matched') ∧ (matched = true → matched' = true) ∧
        (trusted s.sourceContract x.1 → Matches action x.1 → matched' = true) := by
  simp only [processLog]
  split
  case isTrue hforeign =>
    refine ⟨s, matched, rfl, id, fun htrusted _ ↦ ?_⟩
    exact absurd hforeign (not_or.2 ⟨not_not.2 htrusted.1, htrusted.2⟩)
  case isFalse htrusted =>
    rw [not_or, not_not] at htrusted
    obtain ⟨e, he, hacceptable⟩ := h htrusted.1
    obtain ⟨t, ht⟩ := dispatch_toLog (i := x.2) hgenuine hacceptable
    rw [← he] at ht
    refine ⟨t, _, bind_eq_ok.2 ⟨t, ht, rfl⟩, fun hmatched ↦ by simp [hmatched], ?_⟩
    rintro - (hrequested | ⟨haction, hkeyed⟩)
    · simp [hrequested]
    · simp [haction, hkeyed]

/-- What makes an event of a receipt acceptable to any hub with a ledger. -/
structure Consumable (source : Address) (now : ℕ) (R : Receipt) (e : SourceEvent) : Prop where
  sound : e.Sound R.height
  published : ∀ p, e.publishedAt? = some p → p.toNat ≤ now
  announced : ∀ epoch root, e.publication? = some (epoch, root) →
    Announced source R.logs epoch root

/-- Above the latest epoch nothing is approved, so a consumable event is acceptable. -/
theorem Consumable.acceptable {s : ProofmarkASC} {T : Trace} {now : ℕ} {R : Receipt}
    {e : SourceEvent} (h : Consumable s.sourceContract now R e) (hledger : EpochLedger T s.core) :
    s.Acceptable now R e := by
  cases e with
  | RosterEpochPublished epoch root listVersion validUntil sourceCutoff publishedAt snapshotId =>
    refine ⟨h.sound, h.published _ rfl, h.announced epoch root rfl, fun hlt issuer ↦ ?_⟩
    exact hledger.not_approved (hledger.bounded epoch hlt) issuer
  | KeyedMarkIssued | SanctionDenialCorrected | IssuerKeyCompromised => exact h.sound
  | _ => trivial

/-- **A consumable receipt goes through**, with any action that names one of its trusted logs. -/
theorem processLogs_ok {s : ProofmarkASC} {T : Trace} {now : ℕ} {action : Uint 8} {R : Receipt}
    (hledger : EpochLedger T s.core)
    (hlogs : ∀ L ∈ R.logs, L.address_ = s.sourceContract →
      ∃ e : SourceEvent, L = e.toLog s.sourceContract ∧ Consumable s.sourceContract now R e)
    (haction : ∃ L ∈ R.logs, trusted s.sourceContract L ∧ Matches action L) :
    ∃ s', R.logs.zipIdx.foldlM (processLog now action R.height R.txIndex R.logs) (s, false) =
      .ok (s', true) := by
  have hgenuine : Genuine s.sourceContract R.logs := fun L hL haddr ↦
    (hlogs L hL haddr).imp fun _ h ↦ h.1
  have hscan : ∃ acc, R.logs.zipIdx.foldlM
      (processLog now action R.height R.txIndex R.logs) (s, false) = .ok acc ∧
      acc.1.sourceContract = s.sourceContract ∧ (∃ T, EpochLedger T acc.1.core) ∧
      ∀ x ∈ R.logs.zipIdx, trusted s.sourceContract x.1 → Matches action x.1 → acc.2 = true := by
    refine foldlM_progress (P := fun (done : List (LogEntry × ℕ)) (acc : ProofmarkASC × Bool) ↦
      acc.1.sourceContract = s.sourceContract ∧ (∃ T, EpochLedger T acc.1.core) ∧
      ∀ x ∈ done, trusted s.sourceContract x.1 → Matches action x.1 → acc.2 = true)
      ⟨rfl, ⟨T, hledger⟩, by simp⟩ fun done x rest acc hsplit hacc ↦ ?_
    obtain ⟨t, matched⟩ := acc
    obtain ⟨hsource, ⟨T', hledger'⟩, hmatched⟩ := hacc
    simp only at hsource hledger' hmatched
    have hx : x.1 ∈ R.logs := by
      have hmem : x ∈ R.logs.zipIdx := by simp [hsplit]
      exact List.fst_mem_of_mem_zipIdx hmem
    rw [← hsource] at hgenuine
    obtain ⟨t', matched', hstep, hkeep, hnew⟩ := processLog_ok matched action hgenuine fun haddr ↦ by
        obtain ⟨e, he, hconsumable⟩ := hlogs x.1 hx (haddr.trans hsource)
        rw [← hsource] at he hconsumable
        exact ⟨e, he, hconsumable.acceptable hledger'⟩
    refine ⟨(t', matched'), hstep, ?_, ?_, fun y hy htrusted hmatches ↦ ?_⟩
    · rcases processLog_spec hstep with ⟨-, rfl⟩ | ⟨e, -, -, rfl⟩
      · exact hsource
      · simpa using hsource
    · rcases processLog_spec hstep with ⟨-, rfl⟩ | ⟨e, -, hadmits, rfl⟩
      · exact ⟨T', hledger'⟩
      · refine ⟨T' ++ [(R, x.2, e)], ?_⟩
        rw [core_applyEvent]
        exact hledger'.applyEvent (admits_core hadmits)
    · rcases List.mem_append.1 hy with hy | hy
      · exact hkeep (hmatched y hy htrusted hmatches)
      · rw [List.mem_singleton.1 hy] at htrusted hmatches
        rw [← hsource] at htrusted
        exact hnew htrusted hmatches
  obtain ⟨⟨s', matched⟩, hfold, -, -, hmatched⟩ := hscan
  obtain ⟨L, hL, htrusted, hmatches⟩ := haction
  rw [← List.zipIdx_map_fst 0 R.logs] at hL
  obtain ⟨x, hx, rfl⟩ := List.mem_map.1 hL
  obtain rfl : matched = true := hmatched x hx htrusted hmatches
  exact ⟨s', hfold⟩

/-- The handler of a consumable receipt goes through. -/
theorem processAndEmitEvent_ok {decoder : EvmV1Decoder} {s : ProofmarkASC} {T : Trace} {now : ℕ}
    {action : Uint 8} {R : Receipt} {encoded : Bytes} (hledger : EpochLedger T s.core)
    (hpinned : s.sourceContract ≠ 0) (hdecodes : decoder.Decodes encoded R.logs)
    (hlogs : ∀ L ∈ R.logs, L.address_ = s.sourceContract →
      ∃ e : SourceEvent, L = e.toLog s.sourceContract ∧ Consumable s.sourceContract now R e)
    (hle : action ≤ Action.SanctionDenialCorrection.code)
    (haction : ∃ L ∈ R.logs, trusted s.sourceContract L ∧ Matches action L) :
    ∃ s', s.processAndEmitEvent decoder now action s.expectedChainKey R.height R.txIndex encoded =
      .ok s' := by
  obtain ⟨t, htype, hvalid⟩ := hdecodes.txType
  obtain ⟨s', hscan⟩ := processLogs_ok hledger hlogs haction
  refine ⟨s', ?_⟩
  simp only [processAndEmitEvent, bind_eq_ok, revertIf_eq_ok, getOrRevert_eq_ok]
  refine ⟨(), by simpa using hpinned, (), by simp, (), by simpa using BitVec.not_lt.2 hle, t,
    htype, (), by simp [hvalid], ⟨1, R.logs⟩, hdecodes.receipt, (), by simp, (s', true), hscan, (),
    rfl, rfl⟩

end ProofmarkASC

/-! ### The worker's hint -/

/-- The name of an event in the ABI. -/
def EventName.label : EventName → String
  | MarkIssued => "MarkIssued"
  | KeyedMarkIssued => "KeyedMarkIssued"
  | MarkRevoked => "MarkRevoked"
  | SanctionDenied => "SanctionDenied"
  | SanctionDenialCorrected => "SanctionDenialCorrected"
  | RosterEpochPublished => "RosterEpochPublished"
  | RosterIssuerAuthorized => "RosterIssuerAuthorized"
  | RosterIssuerKeyAuthorized => "RosterIssuerKeyAuthorized"
  | IssuerKeyCompromised => "IssuerKeyCompromised"
  | IssuerSet => "IssuerSet"
  | EpochPublisherSet => "EpochPublisherSet"
  | DenialCorrectionApproverSet => "DenialCorrectionApproverSet"
  | DenialCorrectionProposed => "DenialCorrectionProposed"
  | DenialCorrectionApproved => "DenialCorrectionApproved"
  | OwnershipTransferStarted => "OwnershipTransferStarted"
  | OwnershipTransferred => "OwnershipTransferred"

/-- The action of an event names its log. -/
theorem matches_of_lookup (source : Address) {e : SourceEvent} {action : ℕ}
    (h : Worker.EVENT_TO_ACTION.lookup e.name.label = some action) :
    ProofmarkASC.Matches (BitVec.ofNat 8 action) (e.toLog source) ∧
      BitVec.ofNat 8 action ≤ Action.SanctionDenialCorrection.code := by
  have hnames : ∀ name : EventName, ∀ a, Worker.EVENT_TO_ACTION.lookup name.label = some a →
      (name.topic = ProofmarkASC.requestedTopic (BitVec.ofNat 8 a) ∨
        BitVec.ofNat 8 a = Action.MarkIssued.code ∧ name = .KeyedMarkIssued) ∧
      BitVec.ofNat 8 a ≤ Action.SanctionDenialCorrection.code := by
    intro name a ha
    cases name <;>
      simp [Worker.EVENT_TO_ACTION, EventName.label, List.lookup_cons, List.lookup_nil] at ha <;> subst ha <;> decide
  obtain ⟨hmatches, hle⟩ := hnames e.name action h
  refine ⟨hmatches.imp id fun hkeyed ↦ ⟨hkeyed.1, ?_⟩, hle⟩
  rw [ProofmarkASC.topicAt_zero, hkeyed.2]
  rfl

/-- Every event the hub acts on has an action. -/
theorem lookup_of_hubEvent {e : SourceEvent} (h : e.hubEvent ≠ none) :
    ∃ action, Worker.EVENT_TO_ACTION.lookup e.name.label = some action := by
  cases e <;>
    first
    | exact absurd rfl h
    | exact ⟨_, rfl⟩

/-- The logs an endpoint lists under the hash of a transaction, as the ABI interface decodes them,
are those of the source in its receipt. -/
structure Renders (parseLog : Worker.ParseLog) (address : String) (raw : List Worker.SourceLog)
    (hash : String) (m : Mined d) : Prop where
  /-- The endpoint places a transaction in one block. -/
  block : ∀ l ∈ raw, ∀ l' ∈ raw, l.transactionHash = l'.transactionHash →
    l.blockNumber = l'.blockNumber
  /-- A log decodes to the name of its event, if it decodes. -/
  reads : ∀ l ∈ raw, l.transactionHash = hash → l.address.toLower = address.toLower →
    ∃ e ∈ m.events, ∀ name, parseLog l.topics l.data = some name → name = e.name.label
  /-- No lifecycle log is missing. -/
  lists : ∀ e ∈ m.events, e.hubEvent ≠ none → ∃ l ∈ raw, l.transactionHash = hash ∧
    l.address.toLower = address.toLower ∧ parseLog l.topics l.data = some e.name.label

/-- A watched log of the transaction names one of its events. -/
theorem Renders.watched {parseLog : Worker.ParseLog} {address : String}
    {raw : List Worker.SourceLog} {hash : String} {m : Mined d}
    (h : Renders parseLog address raw hash m) {l : Worker.SourceLog} (hl : l ∈ raw)
    (hhash : l.transactionHash = hash) {name : String} {action : ℕ}
    (hwatched : Worker.watched? parseLog address l = some (name, action)) :
    ∃ e ∈ m.events, Worker.EVENT_TO_ACTION.lookup e.name.label = some action := by
  rw [Worker.watched?] at hwatched
  split at hwatched
  · exact absurd hwatched (by simp)
  · obtain ⟨e, he, hname⟩ := h.reads l hl hhash (not_not.1 ‹_›)
    simp only [Option.bind_eq_bind, Option.bind_eq_some_iff, Option.pure_def, Option.some.injEq,
      Prod.mk.injEq] at hwatched
    obtain ⟨name', hparse, action', hlookup, -, rfl⟩ := hwatched
    refine ⟨e, he, ?_⟩
    rw [← hname name' hparse]
    exact hlookup

/-! ### Every receipt goes through -/

/-- The events of a mined transaction are consumable. -/
theorem SourceChain.SoundTransaction.consumable {m : Mined d}
    (h : SourceChain.SoundTransaction m) {now : ℕ}
    (hnow : ∀ p ∈ m.events.filterMap SourceEvent.publishedAt?, p.toNat ≤ now) {e : SourceEvent}
    (he : e ∈ m.events) : ProofmarkASC.Consumable d.address now m.receipt e where
  sound := h.sound e he
  published p hp := hnow p (List.mem_filterMap.2 ⟨e, he, hp⟩)
  announced epoch root hpublished := (h.authorized e he epoch root hpublished).announced

/-- **Every source receipt is consumable.** Take any transaction of any chain that emitted a
lifecycle event, any run of a hub pinned to the source, and a time at which every epoch of the
transaction is published. The worker finds a job for the transaction, and with the action of that
job the hub's handler goes through, and so does `execute` if the proof verifies and the query was
not processed. -/
theorem receipts_consumable (C : SourceChain d) {m : Mined d} (hm : m ∈ C.mined)
    (hlifecycle : ∃ e ∈ m.events, e.hubEvent ≠ none) (decoder : EvmV1Decoder) (o : Ownable2Step)
    (calls : List ProofmarkASC.Call)
    (hpinned : (ProofmarkASC.after decoder o calls).sourceContract = d.address) {now : ℕ}
    (hnow : ∀ p ∈ m.events.filterMap SourceEvent.publishedAt?, p.toNat ≤ now) {encoded : Bytes}
    (hdecodes : decoder.Decodes encoded m.receipt.logs) {parseLog : Worker.ParseLog}
    {address : String} {raw : List Worker.SourceLog} {hash : String}
    (hrenders : Renders parseLog address raw hash m) :
    let s := ProofmarkASC.after decoder o calls
    ∃ jobs, Worker.groupSourceEvents parseLog address raw = .ok jobs ∧
      (∃ job ∈ jobs, job.txHash = hash) ∧ ∀ job ∈ jobs, job.txHash = hash →
        (∃ s', s.processAndEmitEvent decoder now (BitVec.ofNat 8 job.action) s.expectedChainKey
          m.tx.height m.tx.txIndex encoded = .ok s') ∧
        ∀ (env : HubEnv) (args : ProofmarkASC.ExecuteArgs), env.timestamp = now →
          args.action = BitVec.ofNat 8 job.action → args.chainKey = s.expectedChainKey →
          args.blockHeight = m.tx.height → args.encodedTransaction = encoded →
          env.verifier.calculateTxIndex ⟨args.merkleRoot, args.siblings⟩ = some m.tx.txIndex →
          env.verifier.verifyAndEmit args.chainKey args.blockHeight encoded
            ⟨args.merkleRoot, args.siblings⟩ ⟨args.lowerEndpointDigest, args.continuityRoots⟩ =
              some true →
          s.processedQueries (ProofmarkASC.computeQueryId s.expectedChainKey m.tx.height
            m.tx.txIndex) = false →
          ∃ s', s.execute decoder env args = .ok s' := by
  intro s
  obtain ⟨jobs, hjobs⟩ := Worker.groupSourceEvents_ok parseLog address hrenders.block
  refine ⟨jobs, hjobs, ?_, fun job hjob hhash ↦ ?_⟩
  · obtain ⟨e, he, hhub⟩ := hlifecycle
    obtain ⟨l, hl, rfl, haddress, hparse⟩ := hrenders.lists e he hhub
    obtain ⟨action, hlookup⟩ := lookup_of_hubEvent hhub
    refine Worker.groupSourceEvents_complete hjobs hl ?_
    simp [Worker.watched?, haddress, hparse, hlookup]
  obtain ⟨l, hl, htx, name, hwatched⟩ := Worker.groupSourceEvents_action hjobs hjob
  obtain ⟨e, he, hlookup⟩ := hrenders.watched hl (htx.trans hhash) hwatched
  obtain ⟨hmatches, hle⟩ := matches_of_lookup d.address hlookup
  have hledger := ProofmarkASC.epochLedger_after decoder o calls
  have hsound := C.soundTransaction hm
  -- the handler sees the state with the query marked; nothing it reads changed
  have hgo : ∀ t : ProofmarkASC, t.sourceContract = s.sourceContract → t.core = s.core →
      t.expectedChainKey = s.expectedChainKey → ∃ s', t.processAndEmitEvent decoder now
        (BitVec.ofNat 8 job.action) s.expectedChainKey m.tx.height m.tx.txIndex encoded =
          .ok s' := by
    intro t hsource hcore hkey
    have haddress : t.sourceContract = d.address := hsource.trans hpinned
    rw [← hkey]
    refine ProofmarkASC.processAndEmitEvent_ok (R := m.receipt) (hcore ▸ hledger)
      (haddress ▸ d.address_ne_zero) hdecodes (fun L hL haddr ↦ ?_) hle
      ⟨e.toLog d.address, m.mem_logs he, ?_, hmatches⟩
    · rw [haddress] at haddr ⊢
      obtain ⟨e', he', heq⟩ := m.exists_event hL haddr
      exact ⟨e', heq, hsound.consumable hnow he'⟩
    · rw [haddress]
      exact ProofmarkASC.trusted_toLog e
  refine ⟨hgo s rfl rfl rfl, ?_⟩
  rintro env args rfl haction hkey hheight rfl htxIndex hverified hfresh
  obtain ⟨s', hs'⟩ := hgo
    { s with
      processedQueries := Function.update s.processedQueries
        (ProofmarkASC.computeQueryId s.expectedChainKey m.tx.height m.tx.txIndex) true }
    rfl rfl rfl
  refine ⟨s', ?_⟩
  simp only [ProofmarkASC.execute, bind_eq_ok, revertIf_eq_ok, getOrRevert_eq_ok, haction, hkey,
    hheight]
  rw [hkey, hheight] at hverified
  exact ⟨m.tx.txIndex, htxIndex, (), hfresh, true, hverified, (), rfl, hs'⟩

/-! ### The receipt of the sample -/

/-- The first transaction of the sample chain with what it left. -/
def sampleMined : Mined sampleDeployment :=
  ⟨sampleTransaction, (sampleTransaction.run (ComplianceSource.deployed 1)).2⟩

theorem sampleMined_mem : sampleMined ∈ sampleChain.mined := by
  show sampleMined ∈ [sampleMined, _]
  exact List.mem_cons_self

theorem events_sampleMined : sampleMined.events =
    [.IssuerSet 0xCA11 true, .EpochPublisherSet 0xCA11 true,
      .DenialCorrectionApproverSet 0xA9900 true, .SanctionDenied 0x3001 2 1,
      .RosterIssuerAuthorized 1 7 0xCA11,
      .RosterEpochPublished 1 7 2 1700090000 1700086340 1700086400 9,
      .DenialCorrectionProposed 1 0x3001 1 0xCA11 4 1700090000,
      .DenialCorrectionApproved 1 0xA9900 4] := by
  decide +kernel

/-- A log of the transaction as an endpoint lists it. -/
def sampleLog (topic : String) (index : ℕ) : Worker.SourceLog :=
  ⟨"0x501", [topic], "", "0xaa", 100, index⟩

/-- Three logs of the transaction, in no order. -/
def sampleLogs : List Worker.SourceLog :=
  [sampleLog "0x9c17b3d0d930980ffef5e671b9390a26d8f8b5f801f0ce3636909c95c69eb908" 6,
    sampleLog "0x4e68a53405a08cc0e2bb7cd374ad540457f069bcf32e0830ea2e851815d6f5ae" 4,
    sampleLog "0xc6aeabbc4fc4eb208b2b4cec7249245167cb6191c47e2e6f82a3cd59a89ce7e1" 0]

/-- The ABI interface on them: topic 0 decides. -/
def sampleParseLog : Worker.ParseLog := fun topics _ ↦
  [("0x9c17b3d0d930980ffef5e671b9390a26d8f8b5f801f0ce3636909c95c69eb908", "RosterEpochPublished"),
    ("0x4e68a53405a08cc0e2bb7cd374ad540457f069bcf32e0830ea2e851815d6f5ae", "SanctionDenied"),
    ("0xc6aeabbc4fc4eb208b2b4cec7249245167cb6191c47e2e6f82a3cd59a89ce7e1", "IssuerSet")].lookup
    (topics.headD "")

theorem renders_sample : Renders sampleParseLog "0x501" sampleLogs "0xaa" sampleMined := by
  have hparse : sampleLogs.map (fun l ↦ sampleParseLog l.topics l.data) =
      [some "RosterEpochPublished", some "SanctionDenied", some "IssuerSet"] := by decide
  simp only [sampleLogs, List.map_cons, List.map_nil, List.cons.injEq, and_true] at hparse
  obtain ⟨hepoch, hdenied, hissuer⟩ := hparse
  constructor
  case block => simp [sampleLogs, sampleLog]
  case reads =>
    intro l hl _ _
    rw [events_sampleMined]
    simp only [sampleLogs, List.mem_cons, List.not_mem_nil, or_false] at hl
    rcases hl with rfl | rfl | rfl
    · refine ⟨.RosterEpochPublished 1 7 2 1700090000 1700086340 1700086400 9, by simp, ?_⟩
      exact fun name hname ↦ (Option.some.inj (hepoch.symm.trans hname)).symm
    · refine ⟨.SanctionDenied 0x3001 2 1, by simp, ?_⟩
      exact fun name hname ↦ (Option.some.inj (hdenied.symm.trans hname)).symm
    · refine ⟨.IssuerSet 0xCA11 true, by simp, ?_⟩
      exact fun name hname ↦ (Option.some.inj (hissuer.symm.trans hname)).symm
  case lists =>
    rw [events_sampleMined]
    simp only [List.forall_mem_cons, SourceEvent.hubEvent, ne_eq, not_true_eq_false,
      false_implies, reduceCtorEq, not_false_eq_true, forall_const, true_and, List.not_mem_nil,
      implies_true, and_true]
    exact ⟨⟨_, by simp [sampleLogs], rfl, rfl, hdenied⟩, ⟨_, by simp [sampleLogs], rfl, rfl, hepoch⟩⟩

theorem decodes_tableDecoder (logs : List LogEntry) :
    (ProofmarkASC.tableDecoder [logs]).Decodes [0] logs :=
  ⟨⟨2, rfl, rfl⟩, rfl⟩

/-- A hub that has only pinned the source. -/
def sampleHub : ProofmarkASC :=
  ProofmarkASC.after (ProofmarkASC.tableDecoder [sampleMined.receipt.logs]) ⟨1, 0⟩
    [.configureSource ⟨1, 1700086400, ProofmarkASC.mockBlockProver⟩ 1 0x501]

theorem receipts_consumable_sampleMined :
    ∃ jobs, Worker.groupSourceEvents sampleParseLog "0x501" sampleLogs = .ok jobs ∧
      ∃ job ∈ jobs, ∃ s, sampleHub.processAndEmitEvent
        (ProofmarkASC.tableDecoder [sampleMined.receipt.logs]) 1700086400
        (BitVec.ofNat 8 job.action) sampleHub.expectedChainKey 100 2 [0] = .ok s := by
  have hpinned : sampleHub.sourceContract = sampleDeployment.address := by decide +kernel
  have hlifecycle : ∃ e ∈ sampleMined.events, e.hubEvent ≠ none := by
    rw [events_sampleMined]
    exact ⟨.SanctionDenied 0x3001 2 1, by simp, by simp [SourceEvent.hubEvent]⟩
  have hnow : ∀ p ∈ sampleMined.events.filterMap SourceEvent.publishedAt?,
      p.toNat ≤ 1700086400 := by
    rw [events_sampleMined]
    simp [SourceEvent.publishedAt?]
  have hdecodes := decodes_tableDecoder sampleMined.receipt.logs
  obtain ⟨jobs, hjobs, ⟨job, hjob, hhash⟩, hall⟩ := receipts_consumable sampleChain
    sampleMined_mem hlifecycle _ _ _ hpinned hnow hdecodes renders_sample
  exact ⟨jobs, hjobs, job, hjob, (hall job hjob hhash).1⟩

end Proofmark
