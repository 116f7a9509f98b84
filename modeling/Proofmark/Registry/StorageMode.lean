import Proofmark.Contracts.ProofmarkRegistry
import Proofmark.Hub.Cutoffs

/-!
# The stored verdict is the source's verdict

For a policy that does not ask for a roster, `isVerified` reads the materialised mark. The mark's
fields were unpacked from one word when it was stored and are packed again here, and the height
its key generation is checked at is the ordinary cursor, which denials and corrections move too.
Both are harmless: the word survives the round trip, and the cursor of an active mark is the
coordinate of the issuance itself.
-/

open Evm

namespace Proofmark

/-! ### What a policy asks for -/

/-- Attributes and issuer satisfy a policy at a time. -/
structure Satisfies (p : Policy) (kind : Uint 8) (attrs : Bytes32) (issuer : Address) (now : ℕ) :
    Prop where
  kind : MarkAttrs.kind attrs = kind
  methods : MarkAttrs.methods attrs &&& p.requireAll = p.requireAll
  assurance : p.minAssurance ≤ MarkAttrs.assurance attrs
  regime : p.requiredRegime = 0 ∨ MarkAttrs.regime attrs = p.requiredRegime
  jurisdiction : p.requiredJurisdiction = 0 ∨
    MarkAttrs.jurisdiction attrs = p.requiredJurisdiction
  trustedIssuer : p.trustedIssuer = 0 ∨ issuer = p.trustedIssuer
  issued : (MarkAttrs.issuedAt attrs).toNat ≤ now
  unexpired : now < (MarkAttrs.expiry attrs).toNat
  age : p.maxAge = 0 ∨ now - (MarkAttrs.issuedAt attrs).toNat ≤ p.maxAge.toNat

namespace ProofmarkRegistry

/-- The check the registry makes is the one the policy asks for. -/
theorem policyHolds_iff {attrs : Bytes32} {issuer : Address} {p : Policy} {kind : Uint 8}
    {now : ℕ} : policyHolds attrs issuer p kind now = true ↔
      MarkAttrs.validSchema attrs = true ∧ issuer ≠ 0 ∧ Satisfies p kind attrs issuer now := by
  simp only [policyHolds, Bool.if_false_left, Bool.and_eq_true, Bool.not_eq_true',
    decide_eq_false_iff_not, Bool.or_eq_true, bne_iff_ne, beq_iff_eq, not_or, not_and, not_not,
    ne_eq, not_lt, not_le, gt_iff_lt, BitVec.not_lt, BitVec.not_le]
  constructor
  · rintro ⟨⟨⟨hvalid, hkind⟩, hissuer⟩, hmethods, hassurance, hregime, hjurisdiction, htrusted,
      hexpiry, ⟨hissued, -⟩, hage, -⟩
    refine ⟨by simpa using hvalid, hissuer, hkind, hmethods, hassurance, ?_, ?_, ?_, hissued,
      hexpiry, ?_⟩
    · exact or_iff_not_imp_left.2 hregime
    · exact or_iff_not_imp_left.2 hjurisdiction
    · exact or_iff_not_imp_left.2 htrusted
    · exact or_iff_not_imp_left.2 hage
  · rintro ⟨hvalid, hissuer, h⟩
    refine ⟨⟨⟨by simp [hvalid], h.kind⟩, hissuer⟩, h.methods, h.assurance,
      or_iff_not_imp_left.1 h.regime, or_iff_not_imp_left.1 h.jurisdiction,
      or_iff_not_imp_left.1 h.trustedIssuer, h.unexpired,
      ⟨h.issued, MarkAttrs.issuedAt_lt_expiry hvalid⟩, or_iff_not_imp_left.1 h.age, trivial⟩

/-- A positive verdict is about a registered policy and a subject without a tombstone. -/
theorem registered_of_isVerified {g : ProofmarkRegistry} {asc : ProofmarkASC} {now : ℕ}
    {subject : Address} {policyId : Uint 256} (h : g.isVerified asc now subject policyId = true) :
    (g.policies policyId).exists_ = true ∧ asc.tombstone subject = false := by
  simp only [isVerified, Bool.if_false_left, Bool.and_eq_true, Bool.not_eq_true',
    decide_eq_false_iff_not, Bool.decide_eq_true, Bool.not_eq_false] at h
  exact ⟨h.1, h.2.1⟩

end ProofmarkRegistry

namespace HubChain

/-- The calls of a run that went to the hub. -/
def ascCalls (calls : List Call) : List ProofmarkASC.Call :=
  calls.filterMap Call.asc?

theorem transact_asc (decoder : EvmV1Decoder) (h : HubChain) (call : ProofmarkASC.Call) :
    transact (exec decoder) h (.asc call) =
      { h with asc := transact (ProofmarkASC.exec decoder) h.asc call } := by
  rcases hcall : h.asc.exec decoder call with e | s' <;>
    simp [transact, exec, hcall, Except.mapError, bind, Except.bind, pure, Except.pure]

theorem transact_registry (decoder : EvmV1Decoder) (h : HubChain)
    (call : ProofmarkRegistry.Call) :
    (transact (exec decoder) h (.registry call)).asc = h.asc := by
  rcases hcall : h.registry.exec h.asc call with e | g <;>
    simp [transact, exec, hcall, Except.mapError, bind, Except.bind, pure, Except.pure]

/-- The registry does not change the hub: in a joint run the hub makes the run of its own calls. -/
theorem after_asc (decoder : EvmV1Decoder) (o : Ownable2Step) (calls : List Call) :
    (after decoder o calls).asc = ProofmarkASC.after decoder o (ascCalls calls) := by
  induction calls using List.reverseRecOn with
  | nil => rfl
  | append_singleton calls call ih =>
    rw [after, run_concat, ← after, ascCalls, List.filterMap_append, ← ascCalls]
    cases call with
    | asc call =>
      show _ = ProofmarkASC.after decoder o (ascCalls calls ++ [call])
      rw [transact_asc, ih]
      exact (run_concat _ _ _).symm
    | registry call =>
      show _ = ProofmarkASC.after decoder o (ascCalls calls ++ [])
      rw [transact_registry, ih, List.append_nil]

/-- The receipts the hub accepted in a joint run. -/
def acceptedReceipts (decoder : EvmV1Decoder) (o : Ownable2Step) (calls : List Call) :
    List Receipt :=
  ProofmarkASC.acceptedReceipts decoder o (ascCalls calls)

/-- The trusted events the hub accepted in a joint run. -/
def trace (decoder : EvmV1Decoder) (o : Ownable2Step) (calls : List Call) : Trace :=
  ProofmarkASC.traceAfter decoder o (ascCalls calls)

/-- In storage mode the mark of an issuance passes a policy exactly if the issuance does. -/
theorem isVerified_of_mark {g : ProofmarkRegistry} {asc : ProofmarkASC} {subject : Address}
    {policyId : Uint 256} {now : ℕ} {i : Issuance} (hvalid : i.valid = true)
    (hregistered : (g.policies policyId).exists_ = true)
    (hmode : (g.policies policyId).requireRoster = false)
    (htombstone : (asc.subjects subject).tombstone = false)
    (hmark : (asc.subjects subject).mark = i.mark) :
    g.isVerified asc now subject policyId = true ↔
      asc.isMarkIssuerUsable subject = true ∧ i.issuer ≠ 0 ∧
        Satisfies (g.policies policyId) (g.policyKind policyId) i.attrs i.issuer now := by
  have hpack : MarkAttrs.pack i.mark.kind i.mark.assurance i.mark.regime i.mark.jurisdiction
      i.mark.methods i.mark.issuedAt i.mark.expiry i.mark.epoch = i.attrs :=
    MarkAttrs.pack_unpack hvalid
  have hactive : i.mark.status = .Active := rfl
  have horigin : i.mark.origin = .Direct := rfl
  have hissuer : i.mark.issuer = i.issuer := rfl
  simp only [ProofmarkRegistry.isVerified, hregistered, ProofmarkASC.tombstone, htombstone, hmode,
    ProofmarkASC.getMark, hmark, hpack, hactive, ProofmarkRegistry.fresh, horigin, hissuer]
  simp only [Bool.not_true, Bool.false_eq_true, if_false, ne_eq, not_true_eq_false,
    Bool.if_false_left, reduceCtorEq, decide_not, Bool.decide_eq_true, Bool.not_not,
    Bool.and_eq_true, ProofmarkRegistry.policyHolds_iff]
  have hschema : MarkAttrs.validSchema i.attrs = true := hvalid
  simp [hschema]

/-- Only an active mark outside a tombstone is verified in storage mode. -/
theorem active_of_isVerified {g : ProofmarkRegistry} {asc : ProofmarkASC} {subject : Address}
    {policyId : Uint 256} {now : ℕ} (hmode : (g.policies policyId).requireRoster = false)
    (h : g.isVerified asc now subject policyId = true) :
    (asc.subjects subject).mark.status = .Active := by
  simp only [ProofmarkRegistry.isVerified, hmode, Bool.if_false_left, Bool.and_eq_true,
    Bool.false_eq_true, if_false, Bool.not_eq_true', decide_eq_false_iff_not, not_not, ne_eq,
    ProofmarkASC.getMark] at h
  exact h.2.2.1

/-- **The registry's verdict is the source's verdict.** For a registered policy that does not ask
for a roster, `isVerified` holds exactly if, in source order, the last decision about the subject
is not a denial, the greatest event is a valid issuance of a real issuer whose key generation is
trusted at the height of that issuance, and the issuance satisfies the policy. -/
theorem isVerified_iff_history (decoder : EvmV1Decoder) (o : Ownable2Step) (calls : List Call)
    (hheight : ∀ R ∈ acceptedReceipts decoder o calls, 0 < R.height) (subject : Address)
    (policyId : Uint 256) (now : ℕ)
    (hregistered : ((after decoder o calls).registry.policies policyId).exists_ = true)
    (hmode : ((after decoder o calls).registry.policies policyId).requireRoster = false) :
    let h := after decoder o calls
    let T := trace decoder o calls
    let E := historyOf subject T
    h.registry.isVerified h.asc now subject policyId = true ↔
      (¬∃ c, E.decisions.Greatest (c, .denied)) ∧
      ∃ c i, E.Greatest (c, .issued i) ∧ MarkAttrs.validSchema i.attrs = true ∧ i.issuer ≠ 0 ∧
        (i.issuerKeyEpoch = 0 ∨
          Trusted (cutoffsOf i.issuer i.issuerKeyEpoch T) c.height) ∧
        Satisfies (h.registry.policies policyId) (h.registry.policyKind policyId) i.attrs
          i.issuer now := by
  intro h T E
  have hasc : h.asc = ProofmarkASC.after decoder o (ascCalls calls) := after_asc decoder o calls
  have hnd : (E.map Prod.fst).Nodup :=
    historyOf_nodup (ProofmarkASC.traceAfter_nodup decoder o (ascCalls calls)) subject
  have hpos : ∀ x ∈ E, Coord.zero < x.1 := ProofmarkASC.historyOf_pos hheight
  have heffective : (historyOf subject (ProofmarkASC.traceAfter decoder o
      (ascCalls calls))).effective = E := effective_eq_self hpos
  have hagrees : AgreesWithSource E (h.asc.subjects subject) := by
    have htracks := ProofmarkASC.tracks_after decoder o (ascCalls calls) subject
    rw [heffective, ← hasc] at htracks
    exact htracks.agreesWithSource hnd
  -- for an active mark the verdict reads the issuance
  have hverdict : (h.asc.subjects subject).mark.status = .Active → ∀ c i,
      E.Greatest (c, .issued i) → i.valid = true →
      (h.registry.isVerified h.asc now subject policyId = true ↔
        (i.issuerKeyEpoch = 0 ∨ Trusted (cutoffsOf i.issuer i.issuerKeyEpoch T) c.height) ∧
        i.issuer ≠ 0 ∧ Satisfies (h.registry.policies policyId) (h.registry.policyKind policyId)
          i.attrs i.issuer now) := by
    intro hactive c i hgreatest hvalid
    obtain ⟨c', i', hgreatest', hmark, husable⟩ := ProofmarkASC.markUsable_after decoder o
      (ascCalls calls) subject (hasc ▸ hactive)
    rw [heffective] at hgreatest'
    obtain ⟨rfl, heq⟩ := Prod.mk.inj (hgreatest'.unique hnd hgreatest)
    obtain rfl := LifecycleEvent.issued.inj heq
    rw [isVerified_of_mark hvalid hregistered hmode (hagrees.tombstone_of_active hactive)
      (hasc ▸ hmark), hasc, husable]
    rfl
  constructor
  · intro hverified
    have hactive := active_of_isVerified hmode hverified
    obtain ⟨hdenied, c, i, hgreatest, hvalid⟩ := hagrees.active_iff.1 hactive
    obtain ⟨htrusted, hissuer, hsatisfies⟩ := (hverdict hactive c i hgreatest hvalid).1 hverified
    exact ⟨hdenied, c, i, hgreatest, hvalid, hissuer, htrusted, hsatisfies⟩
  · rintro ⟨hdenied, c, i, hgreatest, hvalid, hissuer, htrusted, hsatisfies⟩
    have hactive := hagrees.active_iff.2 ⟨hdenied, c, i, hgreatest, hvalid⟩
    exact (hverdict hactive c i hgreatest hvalid).2 ⟨htrusted, hissuer, hsatisfies⟩

/-- Individuals of a US jurisdiction with an ownership check, from one issuer. -/
def samplePolicy : Policy :=
  ⟨1, 2, 0, 1, 840, 0xCA11, false, false⟩

/-- The sample run of the hub, then a policy registered by a consumer. -/
def sampleRun : List Call :=
  ProofmarkASC.sampleRun.map .asc ++ [.registry (.registerPolicy 7 samplePolicy)]

theorem sampleRun_verified :
    let h := after (ProofmarkASC.tableDecoder ProofmarkASC.sampleReceipts) ⟨1, 0⟩ sampleRun
    ((h.registry.policies 1).exists_ = true ∧ (h.registry.policies 1).requireRoster = false) ∧
      h.registry.isVerified h.asc 1700086400 0x3001 1 = true := by
  decide +kernel

/-- The replacement of the corrected denial is verified, so no denial is in force at the source. -/
theorem isVerified_iff_history_sampleRun :
    ¬∃ c, (historyOf 0x3001 (trace (ProofmarkASC.tableDecoder ProofmarkASC.sampleReceipts) ⟨1, 0⟩
      sampleRun)).decisions.Greatest (c, .denied) :=
  ((isVerified_iff_history (ProofmarkASC.tableDecoder ProofmarkASC.sampleReceipts) ⟨1, 0⟩
    sampleRun ProofmarkASC.acceptedReceipts_sampleRun_height 0x3001 1 1700086400
    sampleRun_verified.1.1 sampleRun_verified.1.2).1 sampleRun_verified.2).1

end HubChain

end Proofmark
