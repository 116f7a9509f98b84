import Proofmark.Hub.Cutoffs
import Proofmark.Hub.Progress
import Proofmark.Issuer.Moves
import Proofmark.Source.Receipts

/-!
# Which generation a declaration of compromise reaches

`declareCompromise` records its cutoff against the current generation. `suspend`, which the contract
advises to call first when a compromise is suspected, retires the key and starts a generation that
has no key, so after it the current generation is not the one that operated last.
`declareCompromise_reaches_iff` is the exact condition: a declaration reaches the key that operated
last if and only if it is made while the account is not suspended.
-/

open Evm

namespace Proofmark

/-! ### The hub after a declaration -/

namespace ProofmarkASC

/-- Nothing that a generation did above a block counts: no active mark whose issuance it signed, no
roster it approved. -/
structure Disowned (s : ProofmarkASC) (T : Trace) (issuer : Address)
    (generation lastTrustedBlock : Uint 64) : Prop where
  marks : ∀ subject c i, (s.subjects subject).mark.status = .Active →
    (historyOf subject T).effective.Greatest (c, .issued i) → i.issuer = issuer →
    i.issuerKeyEpoch = generation → lastTrustedBlock < c.height →
    s.isMarkIssuerUsable subject = false
  approvals : ∀ epoch, s.epochIssuerKeyEpoch epoch issuer = generation →
    lastTrustedBlock < s.epochIssuerApprovalHeight epoch issuer →
    s.isEpochIssuerUsable epoch issuer = false

/-- A cutoff declared for a generation leaves nothing above it trusted. -/
theorem not_trusted {cutoffs : List (Uint 64)} {b height : Uint 64} (hb : b ∈ cutoffs)
    (hlt : b < height) : ¬Trusted cutoffs height := by
  rintro (hnil | ⟨block, hleast, hle⟩)
  · rw [hnil] at hb
    exact List.not_mem_nil hb
  · exact BitVec.not_lt.2 (BitVec.le_trans hle (hleast.2 b hb)) hlt

/-- What the hub reads in a log of the source. -/
theorem eventAt_toLog {source : Address} (e : SourceEvent) (i : ℕ) :
    Receipt.eventAt source (e.toLog source, i) = e.hubEvent.map fun h ↦ (i, h) := by
  have htrusted : trusted source (e.toLog source) := trusted_toLog e
  rw [Receipt.eventAt, if_pos htrusted, decode_toLog]

/-- **A delivered declaration disowns its generation**, whatever else was delivered. -/
theorem disowned_after {decoder : EvmV1Decoder} {o : Ownable2Step} {calls : List Call}
    {source issuer : Address} {generation lastTrustedBlock : Uint 64} {reasonHash : Bytes32}
    {R : Receipt} (hpinned : (after decoder o calls).sourceContract = source)
    (hR : R ∈ acceptedReceipts decoder o calls) (hgeneration : generation ≠ 0)
    (hlog : (SourceEvent.IssuerKeyCompromised issuer generation lastTrustedBlock reasonHash).toLog
      source ∈ R.logs) :
    (after decoder o calls).Disowned (traceAfter decoder o calls) issuer generation
      lastTrustedBlock := by
  have hcutoff : lastTrustedBlock ∈ cutoffsOf issuer generation (traceAfter decoder o calls) := by
    obtain ⟨i, hi⟩ := List.mem_iff_getElem?.1 hlog
    have hevent : (i, HubEvent.compromised issuer generation lastTrustedBlock) ∈ R.events source :=
      List.mem_filterMap.2 ⟨(_, i), List.mem_zipIdx_iff_getElem?.2 hi, eventAt_toLog _ i⟩
    have hmem : (R, i, HubEvent.compromised issuer generation lastTrustedBlock) ∈
        traceAfter decoder o calls := by
      rw [traceAfter, hpinned]
      exact List.mem_flatMap.2 ⟨R, hR, List.mem_map_of_mem hevent⟩
    exact List.mem_filterMap.2 ⟨_, hmem, if_pos ⟨rfl, rfl⟩⟩
  have hregister := cutoffRegister_after decoder o calls issuer generation
  constructor
  case marks =>
    intro subject c i hactive hgreatest hissuer hkey hlt
    obtain ⟨c', i', hgreatest', hmark, husable⟩ := markUsable_after decoder o calls subject hactive
    have hnd := effective_nodup (historyOf_nodup (traceAfter_nodup decoder o calls) subject)
    obtain ⟨rfl, hi⟩ := Prod.mk.inj (hgreatest'.unique hnd hgreatest)
    obtain rfl := LifecycleEvent.issued.inj hi
    rw [hissuer, hkey] at husable
    rw [Bool.eq_false_iff, ne_eq, husable]
    rintro (hzero | htrusted)
    · exact hgeneration hzero
    · exact not_trusted hcutoff hlt htrusted
  case approvals =>
    intro epoch hkey hlt
    have hnot : ¬Trusted (cutoffsOf issuer generation (traceAfter decoder o calls))
        ((after decoder o calls).epochIssuerApprovalHeight epoch issuer) :=
      not_trusted hcutoff hlt
    rw [← hregister.trusted_iff, Bool.not_eq_true] at hnot
    rw [isEpochIssuerUsable]
    split
    · rfl
    · have hne : (generation == 0) = false := beq_eq_false_iff_ne.2 hgeneration
      rw [hkey]
      show (generation == 0 || _ || _) = false
      rw [hne, Bool.false_or]
      exact hnot

end ProofmarkASC

/-! ### Generations of the account -/

namespace RotatingIssuer

/-- Later in a run: the generation did not decrease, and while it is the same nothing was
suspended or resumed. -/
structure Rotates (r r' : RotatingIssuer) : Prop where
  epoch_le : r.keyEpoch ≤ r'.keyEpoch
  same : r'.keyEpoch = r.keyEpoch → r'.suspended = r.suspended

theorem Rotates.of_eq {r r' : RotatingIssuer} (hepoch : r'.keyEpoch = r.keyEpoch)
    (hsuspended : r'.suspended = r.suspended) : r.Rotates r' :=
  ⟨BitVec.le_of_eq hepoch.symm, fun _ ↦ hsuspended⟩

theorem Rotates.of_lt {r r' : RotatingIssuer} (h : r.keyEpoch < r'.keyEpoch) : r.Rotates r' :=
  ⟨BitVec.le_of_lt h, fun heq ↦ absurd (heq ▸ h) (BitVec.lt_irrefl _)⟩

theorem Rotates.trans {r t u : RotatingIssuer} (h : r.Rotates t) (h' : t.Rotates u) :
    r.Rotates u where
  epoch_le := BitVec.le_trans h.epoch_le h'.epoch_le
  same heq := by
    -- the generation in between is squeezed
    have hmid : t.keyEpoch = r.keyEpoch :=
      BitVec.le_antisymm (heq ▸ h'.epoch_le) h.epoch_le
    rw [h'.same (heq.trans hmid.symm), h.same hmid]

theorem Move.rotates {r r' : RotatingIssuer} (h : r.Move r') : r.Rotates r' := by
  cases h with
  | keep | propose | drop | nominate | accept => exact .of_eq rfl rfl
  | activate hpending hlt => exact .of_lt hlt
  | retire hlt => exact .of_lt hlt

end RotatingIssuer

namespace System

variable {w w' : System} {self : Account} {env : SourceEnv} {events : List SystemEvent}

/-- What a declaration of compromise checks and does. -/
theorem declareCompromise_eq_ok {reasonHash : Bytes32} {lastTrustedBlock : Uint 64}
    (h : w.declareCompromise self env reasonHash lastTrustedBlock = .ok (w', events)) :
    w.source.isIssuer self.address = true ∧ w.issuer.keyEpoch ≠ 0 ∧
      events.filterMap SystemEvent.source? =
        [.IssuerKeyCompromised self.address w.issuer.keyEpoch lastTrustedBlock reasonHash] := by
  obtain ⟨-, -, h⟩ := bind_eq_ok.1 h
  obtain ⟨⟨w₁, recorded⟩, hrecord, h⟩ := bind_eq_ok.1 h
  obtain ⟨⟨issuer, suspended⟩, hsuspend, h⟩ := bind_eq_ok.1 h
  obtain ⟨rfl, rfl⟩ := Prod.mk.inj (Except.ok.inj h)
  obtain ⟨hissuer, out, hexec, hrecorded⟩ := callSource_eq_ok hrecord
  obtain ⟨hallowed, hepoch, -, -, -, rfl⟩ := ComplianceSource.declareIssuerKeyCompromise_eq_ok hexec
  refine ⟨hallowed, hepoch, ?_⟩
  have hown : ∀ out : List IssuerEvent,
      (out.map SystemEvent.issuer).filterMap SystemEvent.source? = [] := fun out ↦ by
    rw [List.filterMap_map]
    exact List.filterMap_eq_nil_iff.2 fun _ _ ↦ rfl
  rw [hrecorded, List.filterMap_append, List.filterMap_append, hown, List.append_nil]
  rfl

/-- A mark the key issues carries the generation of the key. -/
theorem issueOnce_events {expectedEpoch : Uint 64} {requestId : Bytes32} {subject : Address}
    {attrs claimsRoot evidenceHash : Bytes32}
    (h : w.issueOnce self env expectedEpoch requestId subject attrs claimsRoot evidenceHash =
      .ok (w', events)) : events = [.source (.KeyedMarkIssued subject attrs self.address
        w.issuer.keyEpoch claimsRoot evidenceHash)] := by
  obtain ⟨-, -, rfl, -, out, hexec, hevents⟩ := currentKey_callSource h
  obtain ⟨-, -, hexec⟩ := bind_eq_ok.1 hexec
  simp only [revertIf_bind_eq_ok] at hexec
  obtain ⟨-, -, -, -, hexec⟩ := hexec
  obtain ⟨current, -, hexec⟩ := bind_eq_ok.1 hexec
  obtain ⟨-, hexec⟩ := revertIf_bind_eq_ok.1 hexec
  obtain ⟨-, rfl⟩ := Prod.mk.inj (Except.ok.inj hexec)
  rw [hevents]
  rfl

/-- **Every run keeps generations in order.** -/
theorem rotates_run (self : Account) (w : System) (ts : List Transact) :
    w.issuer.Rotates (run (step self) w ts).issuer := by
  refine run_invariant (P := fun (t : System) ↦ w.issuer.Rotates t.issuer) (.of_eq rfl rfl)
    (fun t call t' ht h ↦ ?_) ts
  obtain ⟨⟨t'', events⟩, hexec, rfl⟩ := map_eq_ok.1 h
  exact ht.trans (move_exec hexec).rotates

/-! ### The generation that operated last -/

/-- A generation operates: an issuance under it can go through, or a signature that names it can be
accepted. -/
def Operates (self : Account) (w : System) (generation : Uint 64) : Prop :=
  (∃ env requestId subject attrs claimsRoot evidenceHash w' events,
    w.issueOnce self env generation requestId subject attrs claimsRoot evidenceHash =
      .ok (w', events)) ∨
  ∃ env digest signature, RotatingIssuer.signatureEpoch signature = generation ∧
    w.issuer.isValidSignature self w.source env digest signature = ComplianceSource.ERC1271_MAGIC

/-- A signature of the right length that names a generation. -/
theorem exists_signature (generation : Uint 64) : ∃ signature : Bytes,
    signature.length = 73 ∧ RotatingIssuer.signatureEpoch signature = generation := by
  have hlength : (toBytes 8 generation.toNat).length = 8 := length_toBytes _ _
  refine ⟨toBytes 8 generation.toNat ++ List.replicate 65 0, by simp, ?_⟩
  rw [RotatingIssuer.signatureEpoch, List.take_left' hlength, ofBytes_toBytes]
  apply BitVec.eq_of_toNat_eq
  have hlt := generation.isLt
  rw [BitVec.toNat_ofNat]
  omega

/-- **Exactly the current generation operates**, while the account is registered and not
suspended. -/
theorem operates_iff {generation : Uint 64} : w.Operates self generation ↔
    w.source.isIssuer self.address = true ∧ w.issuer.suspended = false ∧
      w.issuer.keyEpoch = generation := by
  constructor
  · rintro (⟨env, requestId, subject, attrs, claimsRoot, evidenceHash, w', events, h⟩ |
      ⟨env, digest, signature, hsignature, h⟩)
    · obtain ⟨hsuspended, -, hepoch, -, out, hexec, -⟩ := currentKey_callSource h
      obtain ⟨u, hissuer, -⟩ := bind_eq_ok.1 hexec
      simp only [ComplianceSource.onlyIssuer, revertIf_eq_ok, Bool.not_eq_false'] at hissuer
      exact ⟨hissuer, hsuspended, hepoch.symm⟩
    · obtain ⟨hsuspended, -, hissuer, hepoch, -⟩ := RotatingIssuer.isValidSignature_eq_magic h
      exact ⟨hissuer, hsuspended, hepoch.symm.trans hsignature⟩
  · rintro ⟨hissuer, hsuspended, rfl⟩
    obtain ⟨signature, hlength, hepoch⟩ := exists_signature w.issuer.keyEpoch
    refine .inr ⟨⟨0, 0, 0, 0, self.address, self.address_ne_zero,
      ⟨fun _ ↦ false, fun _ ↦ none, fun _ ↦ none, fun _ _ _ ↦ none,
        fun _ _ ↦ some w.issuer.operatingKey⟩⟩, 0, signature, hepoch, ?_⟩
    simp [RotatingIssuer.isValidSignature, hissuer, hsuspended, hlength, hepoch]

/-- The generation that operated last in a run: it operated after some call, and none did after a
later one. -/
def LastOperating (self : Account) (w₀ : System) (ts : List Transact) (generation : Uint 64) :
    Prop :=
  ∃ before after, ts = before ++ after ∧
    (run (step self) w₀ before).Operates self generation ∧
    ∀ mid, mid <+: after → mid ≠ [] → ∀ later,
      ¬(run (step self) w₀ (before ++ mid)).Operates self later

/-- If the current generation operated last, the account is not suspended: nothing is suspended
within a generation. -/
theorem LastOperating.not_suspended {w₀ : System} {ts : List Transact} {generation : Uint 64}
    (h : LastOperating self w₀ ts generation)
    (hcurrent : (run (step self) w₀ ts).issuer.keyEpoch = generation) :
    (run (step self) w₀ ts).issuer.suspended = false := by
  obtain ⟨before, after, rfl, hoperates, -⟩ := h
  obtain ⟨-, hactive, hsame⟩ := operates_iff.1 hoperates
  have hrotates := rotates_run self (run (step self) w₀ before) after
  rw [← run_append] at hrotates
  rw [hrotates.same (hcurrent.trans hsame.symm), hactive]

/-- A declaration recorded against a generation reaches the key that operated last: the generation
is that key's, and a hub that accepted the receipt of the declaration disowns it. -/
structure Reaches (account : Account) (w₀ : System) (ts : List Transact) (source : Address)
    (generation lastTrustedBlock : Uint 64) (reasonHash : Bytes32) : Prop where
  last : LastOperating account w₀ ts generation
  disowned : ∀ decoder o calls R, (ProofmarkASC.after decoder o calls).sourceContract = source →
    R ∈ ProofmarkASC.acceptedReceipts decoder o calls →
    (SourceEvent.IssuerKeyCompromised account.address generation lastTrustedBlock reasonHash).toLog
      source ∈ R.logs →
    (ProofmarkASC.after decoder o calls).Disowned (ProofmarkASC.traceAfter decoder o calls)
      account.address generation lastTrustedBlock

/-- **When a declaration reaches the compromised key.** After any run of an account and its source,
from the construction of the account or from any other state, a declaration that goes through
records the current generation, and it reaches the key that operated last if and only if the account
is not suspended. -/
theorem declareCompromise_reaches_iff {self : Account} {w₀ : System} {ts : List Transact}
    {env : SourceEnv} {reasonHash : Bytes32} {lastTrustedBlock : Uint 64} {w' : System}
    {events : List SystemEvent}
    (h : (run (step self) w₀ ts).declareCompromise self env reasonHash lastTrustedBlock =
      .ok (w', events)) :
    ∃ generation, events.filterMap SystemEvent.source? =
        [.IssuerKeyCompromised self.address generation lastTrustedBlock reasonHash] ∧
      (Reaches self w₀ ts env.self generation lastTrustedBlock reasonHash ↔
        (run (step self) w₀ ts).issuer.suspended = false) := by
  obtain ⟨hissuer, hepoch, hrecorded⟩ := declareCompromise_eq_ok h
  refine ⟨_, hrecorded, fun hreaches ↦ hreaches.last.not_suspended rfl, fun hactive ↦ ⟨?_, ?_⟩⟩
  · refine ⟨ts, [], (List.append_nil _).symm, operates_iff.2 ⟨hissuer, hactive, rfl⟩, ?_⟩
    exact fun mid hmid hne ↦ absurd (List.prefix_nil.1 hmid) hne
  · exact fun decoder o calls R hpinned hR hlog ↦
      ProofmarkASC.disowned_after hpinned hR hepoch hlog

/-! ### Suspension first -/

def sampleAccount : Account :=
  ⟨0x155, by decide⟩

/-- A call in a block, from a sender. -/
def sampleEnv (number : Uint 64) (sender : Address) (sender_ne_zero : sender ≠ 0) : SourceEnv :=
  ⟨0x501, 1, number, 1700086400, sender, sender_ne_zero, noCode⟩

/-- The account as constructed for owner `0x0E` and key `0xCA11`, at a source owned by `1`. -/
def sampleSystem : System where
  issuer :=
    { ownable := ⟨0x0E, 0⟩
      operatingKey := 0xCA11
      pendingKey := 0
      keyEpoch := 1
      suspended := false
      usedKey := Function.update (fun _ ↦ false) 0xCA11 true }
  source := ComplianceSource.deployed 1

theorem construct_sampleSystem : RotatingIssuer.construct 0x0E 0xCA11 (some ⟨0, 2, 1, 1⟩) =
    .ok (sampleSystem.issuer, [.OwnershipTransferred 0 0x0E, .KeyActivated 0 0xCA11 1]) :=
  rfl

/-- The account is registered and its key issues a mark in block 199. -/
def sampleIssuance : List Transact :=
  [⟨sampleEnv 90 1 sampleOwner_ne_zero, .source (.setIssuer 0x155 true)⟩,
    ⟨sampleEnv 199 0xCA11 sampleIssuer_ne_zero, .issueOnce 1 8 0x3001 sampleAttrs 5 6⟩]

/-- Then the owner suspects the key and suspends it, as the contract advises. -/
def sampleSuspension : List Transact :=
  sampleIssuance ++ [⟨sampleEnv 200 0x0E sampleGovernor_ne_zero, .suspend 9⟩]

/-- What a declaration in block 202 with the last trusted block 150 records after some calls. -/
def recordedAfter (ts : List Transact) : Option (List SourceEvent) :=
  (((run (step sampleAccount) sampleSystem ts).declareCompromise sampleAccount
    (sampleEnv 202 0x0E (by decide)) 9 150).toOption).map fun x ↦
      x.2.filterMap SystemEvent.source?

/-- A declaration that records something went through. -/
theorem exists_of_recordedAfter {ts : List Transact} {out : List SourceEvent}
    (h : recordedAfter ts = some out) :
    ∃ w' events, (run (step sampleAccount) sampleSystem ts).declareCompromise sampleAccount
      (sampleEnv 202 0x0E (by decide)) 9 150 = .ok (w', events) ∧
        events.filterMap SystemEvent.source? = out := by
  rw [recordedAfter] at h
  obtain ⟨⟨w', events⟩, hok, hout⟩ := Option.map_eq_some_iff.1 h
  exact ⟨w', events, toOption_eq_some.1 hok, hout⟩

/-- Without the suspension the declaration reaches the key. -/
theorem declareCompromise_reaches_sampleIssuance :
    ∃ generation, Reaches sampleAccount sampleSystem sampleIssuance 0x501 generation 150 9 := by
  have hrecorded : recordedAfter sampleIssuance = some [.IssuerKeyCompromised 0x155 1 150 9] := by
    decide +kernel
  obtain ⟨w', events, hdeclare, -⟩ := exists_of_recordedAfter hrecorded
  obtain ⟨generation, -, hreaches⟩ := declareCompromise_reaches_iff hdeclare
  have hactive : (run (step sampleAccount) sampleSystem sampleIssuance).issuer.suspended =
      false := by decide +kernel
  exact ⟨generation, hreaches.2 hactive⟩

/-- The receipts of the sample: the mark in block 199, and the declaration in block 202 after the
suspension. -/
def sampleDeclared : List (List LogEntry) :=
  [[(SourceEvent.KeyedMarkIssued 0x3001 sampleAttrs 0x155 1 5 6).toLog 0x501],
    [(SourceEvent.IssuerKeyCompromised 0x155 2 150 9).toLog 0x501]]

/-- A hub that got both receipts. -/
def sampleHubRun : ProofmarkASC :=
  ProofmarkASC.after (ProofmarkASC.tableDecoder sampleDeclared) ⟨1, 0⟩
    [.configureSource ⟨1, 1700086400, ProofmarkASC.mockBlockProver⟩ 1 0x501,
      ProofmarkASC.deliver .MarkIssued 199 0 0, ProofmarkASC.deliver .IssuerKeyCompromise 202 0 1]

theorem declareCompromise_misses_sampleSuspension :
    (∃ w' events, (run (step sampleAccount) sampleSystem sampleSuspension).declareCompromise
      sampleAccount (sampleEnv 202 0x0E (by decide)) 9 150 = .ok (w', events) ∧
        events.filterMap SystemEvent.source? = [.IssuerKeyCompromised 0x155 2 150 9]) ∧
      LastOperating sampleAccount sampleSystem sampleSuspension 1 ∧
      ¬Reaches sampleAccount sampleSystem sampleSuspension 0x501 2 150 9 ∧
      (sampleHubRun.subjects 0x3001).mark.status = .Active ∧
      (sampleHubRun.subjects 0x3001).mark.issuer = 0x155 ∧
      (sampleHubRun.subjects 0x3001).markIssuerKeyEpoch = 1 ∧
      (sampleHubRun.subjects 0x3001).lastAppliedHeight = 199 ∧
      sampleHubRun.issuerKeyCompromised 0x155 2 = true ∧
      sampleHubRun.isMarkIssuerUsable 0x3001 = true := by
  have hrecorded : recordedAfter sampleSuspension =
      some [.IssuerKeyCompromised 0x155 2 150 9] := by decide +kernel
  have hsuspended : (run (step sampleAccount) sampleSystem sampleSuspension).issuer.suspended =
      true := by decide +kernel
  have hlast : LastOperating sampleAccount sampleSystem sampleSuspension 1 := by
    refine ⟨sampleIssuance, _, rfl, operates_iff.2 (by decide +kernel), fun mid hmid hne g hg ↦ ?_⟩
    -- the only later state is the suspended one
    obtain ⟨t, mid, rfl⟩ := List.exists_cons_of_ne_nil hne
    obtain ⟨rfl, hnil⟩ := List.cons_prefix_cons.1 hmid
    obtain rfl := List.prefix_nil.1 hnil
    have hactive := (operates_iff.1 hg).2.1
    exact absurd (hsuspended.symm.trans hactive) (by decide)
  refine ⟨exists_of_recordedAfter hrecorded, hlast, fun hreaches ↦ ?_, by decide +kernel⟩
  -- the declaration names a generation that never operated
  have hepoch : (run (step sampleAccount) sampleSystem sampleSuspension).issuer.keyEpoch = 2 := by
    decide +kernel
  exact absurd (hsuspended.symm.trans (hreaches.last.not_suspended hepoch)) (by decide)

end System

end Proofmark
