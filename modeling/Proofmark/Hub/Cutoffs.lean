import Proofmark.Hub.Confluence
import Proofmark.Hub.Epochs

/-!
# Compromise cutoffs

A declaration that a key generation was compromised carries the last block that is still trusted.
The hub keeps, per generation, whether there was a declaration and the least such block
(`cutoffRegister_after`); the block alone would not do, as zero is both the default of the mapping
and a legal cutoff.

The cutoff is compared with heights that two other handlers stored. `markUsable_after` and
`approvalUsable_after` trace those heights back to the receipts they came from, so usability is a
statement about the accepted receipts in which no order of delivery occurs.
-/

open Evm

namespace Proofmark

/-! ### The declarations of a trace -/

/-- The cutoff an entry of a trace declares for a key generation. -/
def cutoffOf (issuer : Address) (issuerKeyEpoch : Uint 64) (x : Receipt × ℕ × HubEvent) :
    Option (Uint 64) :=
  match x.2.2 with
  | .compromised who generation lastTrustedBlock =>
    if who = issuer ∧ generation = issuerKeyEpoch then some lastTrustedBlock else none
  | _ => none

/-- The cutoffs declared for a key generation, in order of delivery. -/
def cutoffsOf (issuer : Address) (issuerKeyEpoch : Uint 64) (T : Trace) : List (Uint 64) :=
  T.filterMap (cutoffOf issuer issuerKeyEpoch)

/-- The least of some blocks. -/
def Least (blocks : List (Uint 64)) (block : Uint 64) : Prop :=
  block ∈ blocks ∧ ∀ other ∈ blocks, block ≤ other

theorem Least.unique {blocks : List (Uint 64)} {b b' : Uint 64} (h : Least blocks b)
    (h' : Least blocks b') : b = b' :=
  BitVec.le_antisymm (h.2 b' h'.1) (h'.2 b h.1)

theorem Least.congr {blocks blocks' : List (Uint 64)} {b : Uint 64} (h : Least blocks b)
    (hmem : ∀ x, x ∈ blocks ↔ x ∈ blocks') : Least blocks' b :=
  ⟨(hmem b).1 h.1, fun x hx ↦ h.2 x ((hmem x).2 hx)⟩

/-- What the two mappings hold for a generation with the declared `cutoffs`. -/
structure CutoffRegister (cutoffs : List (Uint 64)) (compromised : Bool) (lastTrusted : Uint 64) :
    Prop where
  flag : compromised = true ↔ cutoffs ≠ []
  least : compromised = true → Least cutoffs lastTrusted
  default : compromised = false → lastTrusted = 0

/-- What a generation with the declared `cutoffs` did at a height is trusted. -/
def Trusted (cutoffs : List (Uint 64)) (height : Uint 64) : Prop :=
  cutoffs = [] ∨ ∃ block, Least cutoffs block ∧ height ≤ block

/-- The check the hub makes on the two mappings decides trust. -/
theorem CutoffRegister.trusted_iff {cutoffs : List (Uint 64)} {compromised : Bool}
    {lastTrusted height : Uint 64} (h : CutoffRegister cutoffs compromised lastTrusted) :
    (!compromised || decide (height ≤ lastTrusted)) = true ↔ Trusted cutoffs height := by
  rw [Bool.or_eq_true, Bool.not_eq_true', decide_eq_true_eq, Trusted]
  cases hflag : compromised with
  | false =>
    have hnil : cutoffs = [] := by
      by_contra hne
      rw [h.flag.2 hne] at hflag
      exact absurd hflag (by simp)
    simp [hnil]
  | true =>
    have hne : cutoffs ≠ [] := h.flag.1 hflag
    simp only [Bool.true_eq_false, false_or, hne]
    constructor
    · intro hle
      exact ⟨lastTrusted, h.least hflag, hle⟩
    · rintro ⟨block, hleast, hle⟩
      rwa [(h.least hflag).unique hleast]

namespace ProofmarkASC

variable {s : ProofmarkASC} {issuer : Address} {issuerKeyEpoch : Uint 64}

/-- One more declaration. -/
theorem cutoffRegister_lower {cutoffs : List (Uint 64)} {b : Uint 64}
    (h : CutoffRegister cutoffs (s.issuerKeyCompromised issuer issuerKeyEpoch)
      (s.issuerKeyLastTrustedBlock issuer issuerKeyEpoch)) :
    CutoffRegister (cutoffs ++ [b])
      ((s.lowerCutoff issuer issuerKeyEpoch b).issuerKeyCompromised issuer issuerKeyEpoch)
      ((s.lowerCutoff issuer issuerKeyEpoch b).issuerKeyLastTrustedBlock issuer issuerKeyEpoch) := by
  rw [lowerCutoff]
  split
  case isTrue hlower =>
    simp only [set2_self]
    refine ⟨by simp, fun _ ↦ ⟨by simp, fun x hx ↦ ?_⟩, by simp⟩
    rcases List.mem_append.1 hx with hx | hx
    · have hsome : s.issuerKeyCompromised issuer issuerKeyEpoch = true :=
        h.flag.2 (List.ne_nil_of_mem hx)
      rcases hlower with hnone | hlt
      · rw [hsome] at hnone
        exact absurd hnone (by simp)
      · exact BitVec.le_trans (BitVec.le_of_lt hlt) ((h.least hsome).2 x hx)
    · exact BitVec.le_of_eq (List.mem_singleton.1 hx).symm
  case isFalse hkeep =>
    rw [not_or, Bool.not_eq_false, BitVec.not_lt] at hkeep
    obtain ⟨hsome, hle⟩ := hkeep
    obtain ⟨hmem, hmin⟩ := h.least hsome
    refine ⟨by simp [hsome], fun _ ↦ ⟨List.mem_append_left _ hmem, fun x hx ↦ ?_⟩, ?_⟩
    · rcases List.mem_append.1 hx with hx | hx
      · exact hmin x hx
      · rw [List.mem_singleton.1 hx]
        exact hle
    · intro hnone
      rw [hsome] at hnone
      exact absurd hnone (by simp)

/-- A declaration for one generation does not touch another. -/
theorem lowerCutoff_of_ne {issuer' : Address} {issuerKeyEpoch' b : Uint 64}
    (h : ¬(issuer = issuer' ∧ issuerKeyEpoch = issuerKeyEpoch')) :
    (s.lowerCutoff issuer' issuerKeyEpoch' b).issuerKeyCompromised issuer issuerKeyEpoch =
        s.issuerKeyCompromised issuer issuerKeyEpoch ∧
      (s.lowerCutoff issuer' issuerKeyEpoch' b).issuerKeyLastTrustedBlock issuer issuerKeyEpoch =
        s.issuerKeyLastTrustedBlock issuer issuerKeyEpoch := by
  rw [lowerCutoff]
  split
  · exact ⟨set2_of_ne h, set2_of_ne h⟩
  · exact ⟨rfl, rfl⟩

/-- The step: an event declares at most one cutoff. -/
theorem cutoffRegister_applyEvent {T : Trace} (R : Receipt) (i : ℕ) (e : HubEvent)
    (h : CutoffRegister (cutoffsOf issuer issuerKeyEpoch T)
      (s.issuerKeyCompromised issuer issuerKeyEpoch)
      (s.issuerKeyLastTrustedBlock issuer issuerKeyEpoch)) :
    CutoffRegister (cutoffsOf issuer issuerKeyEpoch (T ++ [(R, i, e)]))
      ((s.applyEvent R i e).issuerKeyCompromised issuer issuerKeyEpoch)
      ((s.applyEvent R i e).issuerKeyLastTrustedBlock issuer issuerKeyEpoch) := by
  rw [cutoffsOf, List.filterMap_append, ← cutoffsOf]
  cases e with
  | lifecycle subject e =>
    show CutoffRegister (_ ++ []) _ _
    rw [List.append_nil]
    exact h
  | epoch a =>
    show CutoffRegister (_ ++ []) _ _
    rw [List.append_nil, applyEvent]
    split <;> exact h
  | compromised who generation b =>
    rw [applyEvent]
    by_cases hsame : who = issuer ∧ generation = issuerKeyEpoch
    · obtain ⟨rfl, rfl⟩ := hsame
      simpa [cutoffOf] using cutoffRegister_lower h (b := b)
    · obtain ⟨hflag, hblock⟩ := lowerCutoff_of_ne (s := s) (b := b) fun hpair ↦
        hsame ⟨hpair.1.symm, hpair.2.symm⟩
      rw [hflag, hblock]
      simpa [cutoffOf, hsame] using h

/-- **The register of a key generation after a run** holds the least declared cutoff. -/
theorem cutoffRegister_after (decoder : EvmV1Decoder) (o : Ownable2Step) (calls : List Call)
    (issuer : Address) (issuerKeyEpoch : Uint 64) :
    CutoffRegister (cutoffsOf issuer issuerKeyEpoch (traceAfter decoder o calls))
      ((after decoder o calls).issuerKeyCompromised issuer issuerKeyEpoch)
      ((after decoder o calls).issuerKeyLastTrustedBlock issuer issuerKeyEpoch) :=
  run_rule (P := fun T s ↦ CutoffRegister (cutoffsOf issuer issuerKeyEpoch T)
    (s.issuerKeyCompromised issuer issuerKeyEpoch)
    (s.issuerKeyLastTrustedBlock issuer issuerKeyEpoch))
    (fun _ ↦ ⟨by simp [blank, deployed, cutoffsOf], by simp [blank, deployed], fun _ ↦ rfl⟩)
    (fun _ _ R i e _ hdone _ ↦ cutoffRegister_applyEvent R i e hdone) decoder o calls

/-- An active mark comes from the greatest event of its subject, and it is usable exactly if the
generation that issued it is trusted at the height of that event. -/
theorem markUsable_after (decoder : EvmV1Decoder) (o : Ownable2Step) (calls : List Call)
    (subject : Address)
    (hactive : ((after decoder o calls).subjects subject).mark.status = .Active) :
    ∃ c i, (historyOf subject (traceAfter decoder o calls)).effective.Greatest (c, .issued i) ∧
      ((after decoder o calls).subjects subject).mark = i.mark ∧
      ((after decoder o calls).isMarkIssuerUsable subject = true ↔ i.issuerKeyEpoch = 0 ∨
        Trusted (cutoffsOf i.issuer i.issuerKeyEpoch (traceAfter decoder o calls)) c.height) := by
  have hnd := effective_nodup (historyOf_nodup (traceAfter_nodup decoder o calls) subject)
  have hagrees := (tracks_after decoder o calls subject).agreesWithSource hnd
  obtain ⟨c, i, hgreatest, hvalid, hmark, hkey⟩ := hagrees.active hactive
  have hheight : ((after decoder o calls).subjects subject).lastAppliedHeight = c.height :=
    congrArg Coord.height (hagrees.cursor _ hgreatest)
  have hissuer : ((after decoder o calls).subjects subject).mark.issuer = i.issuer := by
    rw [hmark]
    rfl
  refine ⟨c, i, hgreatest, hmark, ?_⟩
  rw [← (cutoffRegister_after decoder o calls i.issuer i.issuerKeyEpoch).trusted_iff]
  simp only [isMarkIssuerUsable, hkey, hissuer, hheight, Bool.or_assoc, Bool.or_eq_true,
    beq_iff_eq]

/-- An approval of the latest epoch comes from the receipt that set it, and it is usable exactly if
the generation the receipt binds is trusted at the height of that receipt. -/
theorem approvalUsable_after (decoder : EvmV1Decoder) (o : Ownable2Step) (calls : List Call)
    (issuer : Address) (happroved : (after decoder o calls).epochIssuerApproved
      (after decoder o calls).latestEpoch issuer = true) :
    let s := after decoder o calls
    ∃ R i a, (R, i, HubEvent.epoch a) ∈ traceAfter decoder o calls ∧ s.ShowsEpoch a ∧
      s.epochRoots a.epoch = a.root ∧
      issuer ∈ authorizedIssuers s.sourceContract R.logs a.epoch a.root ∧
      (s.isEpochIssuerUsable s.latestEpoch issuer = true ↔
        authorizedKeyEpoch s.sourceContract R.logs a.epoch a.root issuer = 0 ∨
        Trusted (cutoffsOf issuer
          (authorizedKeyEpoch s.sourceContract R.logs a.epoch a.root issuer)
          (traceAfter decoder o calls)) R.height) := by
  intro s
  have hledger := epochLedger_after decoder o calls
  have hlatest : s.latestEpoch ≠ 0 := fun hzero ↦ by
    have hnot := hledger.not_approved hledger.zero issuer
    rw [hzero] at happroved
    exact absurd (happroved.symm.trans hnot) (by simp)
  obtain ⟨R, i, a, hset, hrecords, hshows⟩ := hledger.exists_latest hlatest
  have hepoch : s.latestEpoch = a.epoch := hshows.epoch
  have happroved' : s.epochIssuerApproved a.epoch issuer = true := hepoch ▸ happroved
  have hissuer := (hrecords.approved issuer).1 happroved'
  have hheight : s.epochIssuerApprovalHeight a.epoch issuer = R.height :=
    hrecords.height issuer hissuer
  have hkey : s.epochIssuerKeyEpoch a.epoch issuer =
      authorizedKeyEpoch s.sourceContract R.logs a.epoch a.root issuer :=
    hrecords.keyEpoch issuer hissuer
  refine ⟨R, i, a, hset.mem, hshows.of_core,
    hrecords.root, hissuer, ?_⟩
  rw [← (cutoffRegister_after decoder o calls issuer _).trusted_iff, hepoch]
  simp only [isEpochIssuerUsable, happroved', hheight, hkey, Bool.not_true, Bool.false_eq_true,
    if_false, Bool.or_assoc, Bool.or_eq_true, beq_iff_eq]
  rfl

/-- Two runs that accepted the same receipts hold the same registers. -/
theorem cutoffs_confluence {decoder decoder' : EvmV1Decoder} {o o' : Ownable2Step}
    {calls calls' : List Call}
    (hsource : (after decoder' o' calls').sourceContract = (after decoder o calls).sourceContract)
    (hreceipts : ∀ R, R ∈ acceptedReceipts decoder' o' calls' ↔
      R ∈ acceptedReceipts decoder o calls) (issuer : Address) (issuerKeyEpoch : Uint 64) :
    (after decoder' o' calls').issuerKeyCompromised issuer issuerKeyEpoch =
        (after decoder o calls).issuerKeyCompromised issuer issuerKeyEpoch ∧
      (after decoder' o' calls').issuerKeyLastTrustedBlock issuer issuerKeyEpoch =
        (after decoder o calls).issuerKeyLastTrustedBlock issuer issuerKeyEpoch := by
  have hregister := cutoffRegister_after decoder o calls issuer issuerKeyEpoch
  have hregister' := cutoffRegister_after decoder' o' calls' issuer issuerKeyEpoch
  have hmem : ∀ b, b ∈ cutoffsOf issuer issuerKeyEpoch (traceAfter decoder' o' calls') ↔
      b ∈ cutoffsOf issuer issuerKeyEpoch (traceAfter decoder o calls) := fun b ↦
    ((traceAfter_perm hsource hreceipts).filterMap _).mem_iff
  have hflag : (after decoder' o' calls').issuerKeyCompromised issuer issuerKeyEpoch =
      (after decoder o calls).issuerKeyCompromised issuer issuerKeyEpoch := by
    rw [Bool.eq_iff_iff, hregister.flag, hregister'.flag, ne_eq, ne_eq,
      List.eq_nil_iff_forall_not_mem, List.eq_nil_iff_forall_not_mem]
    simp only [hmem]
  refine ⟨hflag, ?_⟩
  cases h : (after decoder o calls).issuerKeyCompromised issuer issuerKeyEpoch with
  | false => rw [hregister.default h, hregister'.default (hflag.trans h)]
  | true =>
    exact ((hregister'.least (hflag.trans h)).congr hmem).unique (hregister.least h)

/-- **Compromise cutoffs are exact and independent of the order of delivery.** After any run the
register of every key generation holds the least declared cutoff; an active mark, and an approval
of the latest epoch, is usable exactly if it is un-keyed or its own generation is trusted at the
height of its own receipt; and the registers depend on the accepted receipts only. -/
theorem compromise_cutoffs_exact (decoder : EvmV1Decoder) (o : Ownable2Step)
    (calls : List Call) :
    let s := after decoder o calls
    let T := traceAfter decoder o calls
    (∀ issuer issuerKeyEpoch, CutoffRegister (cutoffsOf issuer issuerKeyEpoch T)
      (s.issuerKeyCompromised issuer issuerKeyEpoch)
      (s.issuerKeyLastTrustedBlock issuer issuerKeyEpoch)) ∧
    (∀ subject, (s.subjects subject).mark.status = .Active →
      ∃ c i, (historyOf subject T).effective.Greatest (c, .issued i) ∧
        (s.subjects subject).mark = i.mark ∧
        (s.isMarkIssuerUsable subject = true ↔
          i.issuerKeyEpoch = 0 ∨ Trusted (cutoffsOf i.issuer i.issuerKeyEpoch T) c.height)) ∧
    (∀ issuer, s.epochIssuerApproved s.latestEpoch issuer = true →
      ∃ R i a, (R, i, HubEvent.epoch a) ∈ T ∧ s.ShowsEpoch a ∧ s.epochRoots a.epoch = a.root ∧
        issuer ∈ authorizedIssuers s.sourceContract R.logs a.epoch a.root ∧
        (s.isEpochIssuerUsable s.latestEpoch issuer = true ↔
          authorizedKeyEpoch s.sourceContract R.logs a.epoch a.root issuer = 0 ∨
          Trusted (cutoffsOf issuer
            (authorizedKeyEpoch s.sourceContract R.logs a.epoch a.root issuer) T) R.height)) ∧
    ∀ decoder' o' calls',
      (after decoder' o' calls').sourceContract = s.sourceContract →
      (∀ R, R ∈ acceptedReceipts decoder' o' calls' ↔ R ∈ acceptedReceipts decoder o calls) →
      ∀ issuer issuerKeyEpoch,
        (after decoder' o' calls').issuerKeyCompromised issuer issuerKeyEpoch =
            s.issuerKeyCompromised issuer issuerKeyEpoch ∧
          (after decoder' o' calls').issuerKeyLastTrustedBlock issuer issuerKeyEpoch =
            s.issuerKeyLastTrustedBlock issuer issuerKeyEpoch :=
  ⟨cutoffRegister_after decoder o calls, markUsable_after decoder o calls,
    approvalUsable_after decoder o calls,
    fun _ _ _ hsource hreceipts ↦ cutoffs_confluence hsource hreceipts⟩

end ProofmarkASC

end Proofmark
