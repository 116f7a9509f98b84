import Proofmark.Hub.Epochs
import Proofmark.Registry.StorageMode

/-!
# A cached roster witness stands for its proof

`cacheRosterWitness` checks a proof of inclusion once and stores an epoch number and a mark;
`isVerified` reads them back and never sees the proof again. What it skips is only the part that
cannot change: the root of an accepted epoch is final, so a proof that was checked against it still
checks (`Witnessed`). What can change, namely the latest epoch, freshness, tombstones and the
cutoffs of issuer keys, it checks again.

No property of the hash is used. The proof that counts is the one the witness was cached with.
-/

open Evm

namespace Proofmark

/-! ### Proof mode and storage mode -/

namespace ProofmarkRegistry

/-- The leaf a roster mark of a subject hashes to. -/
def rosterLeaf (subject : Address) (mark : RosterMark) : Bytes32 :=
  RosterProof.leafOf (RosterProof.subjectKey NAMESPACE subject)
    (RosterProof.markHash mark.attrs mark.claimsRoot mark.evidenceHash mark.issuer)

/-- The checks of a roster that depend on time or on the latest state. -/
structure Current (asc : ProofmarkASC) (now : ℕ) (subject issuer : Address) : Prop where
  tombstone : asc.tombstone subject = false
  fresh : asc.isRosterFresh now = true
  usable : asc.isEpochIssuerUsable asc.latestEpoch issuer = true

theorem rosterContains_iff {asc : ProofmarkASC} {now : ℕ} {subject : Address} {mark : RosterMark}
    {p : RosterProof.Inclusion} : rosterContains asc now subject mark p = true ↔
      subject ≠ 0 ∧ Current asc now subject mark.issuer ∧ asc.epochRoots asc.latestEpoch ≠ 0 ∧
        RosterProof.verifyInclusion (asc.epochRoots asc.latestEpoch) (rosterLeaf subject mark) p =
          true := by
  simp only [rosterContains, Bool.if_false_left, Bool.and_eq_true, Bool.not_eq_true',
    decide_eq_false_iff_not, Bool.decide_eq_true, Bool.not_eq_false, rosterLeaf, ne_eq]
  constructor
  · rintro ⟨hsubject, htombstone, hfresh, husable, hroot, hverify⟩
    exact ⟨hsubject, ⟨htombstone, hfresh, husable⟩, hroot, hverify⟩
  · rintro ⟨hsubject, ⟨htombstone, hfresh, husable⟩, hroot, hverify⟩
    exact ⟨hsubject, htombstone, hfresh, husable, hroot, hverify⟩

theorem verifyWithRoster_iff {g : ProofmarkRegistry} {asc : ProofmarkASC} {now : ℕ}
    {subject : Address} {policyId : Uint 256} {mark : RosterMark} {p : RosterProof.Inclusion} :
    g.verifyWithRoster asc now subject policyId mark p = true ↔
      (g.policies policyId).exists_ = true ∧ rosterContains asc now subject mark p = true ∧
        policyHolds mark.attrs mark.issuer (g.policies policyId) (g.policyKind policyId) now =
          true := by
  simp only [verifyWithRoster, Bool.if_false_left, Bool.and_eq_true, Bool.not_eq_true',
    decide_eq_false_iff_not, Bool.not_eq_false]

theorem isVerified_roster_iff {g : ProofmarkRegistry} {asc : ProofmarkASC} {now : ℕ}
    {subject : Address} {policyId : Uint 256}
    (hmode : (g.policies policyId).requireRoster = true) :
    g.isVerified asc now subject policyId = true ↔
      (g.policies policyId).exists_ = true ∧ (g.rosterWitnesses subject).epoch ≠ 0 ∧
        (g.rosterWitnesses subject).epoch = asc.latestEpoch ∧
        Current asc now subject (g.rosterWitnesses subject).mark.issuer ∧
        policyHolds (g.rosterWitnesses subject).mark.attrs (g.rosterWitnesses subject).mark.issuer
          (g.policies policyId) (g.policyKind policyId) now = true := by
  simp only [isVerified, hmode, if_true, Bool.if_false_left, Bool.and_eq_true, Bool.not_eq_true',
    decide_eq_false_iff_not, Bool.decide_eq_true, Bool.not_eq_false, not_or, not_not, ne_eq]
  constructor
  · rintro ⟨hexists, htombstone, ⟨hepoch, hlatest, hfresh⟩, husable, hpolicy⟩
    rw [hlatest] at husable
    exact ⟨hexists, hepoch, hlatest, ⟨htombstone, hfresh, husable⟩, hpolicy⟩
  · rintro ⟨hexists, hepoch, hlatest, ⟨htombstone, hfresh, husable⟩, hpolicy⟩
    rw [← hlatest] at husable
    exact ⟨hexists, htombstone, ⟨hepoch, hlatest, hfresh⟩, husable, hpolicy⟩

/-- Store a witness. -/
def withWitness (g : ProofmarkRegistry) (subject : Address) (w : RosterWitness) :
    ProofmarkRegistry :=
  { g with rosterWitnesses := Function.update g.rosterWitnesses subject w }

@[simp]
theorem withWitness_policies (g : ProofmarkRegistry) (subject : Address) (w : RosterWitness) :
    (g.withWitness subject w).policies = g.policies :=
  rfl

@[simp]
theorem withWitness_policyKind (g : ProofmarkRegistry) (subject : Address) (w : RosterWitness) :
    (g.withWitness subject w).policyKind = g.policyKind :=
  rfl

@[simp]
theorem withWitness_self (g : ProofmarkRegistry) (subject : Address) (w : RosterWitness) :
    (g.withWitness subject w).rosterWitnesses subject = w :=
  Function.update_self _ _ _

theorem withWitness_of_ne {g : ProofmarkRegistry} {subject who : Address} {w : RosterWitness}
    (h : who ≠ subject) :
    (g.withWitness subject w).rosterWitnesses who = g.rosterWitnesses who :=
  Function.update_of_ne h _ _

/-- What the cache call does when it succeeds. -/
theorem cacheRosterWitness_eq_ok {g g' : ProofmarkRegistry} {asc : ProofmarkASC} {now : ℕ}
    {subject : Address} {mark : RosterMark} {p : RosterProof.Inclusion} :
    g.cacheRosterWitness asc now subject mark p = .ok g' ↔
      rosterContains asc now subject mark p = true ∧
        g' = g.withWitness subject ⟨asc.latestEpoch, mark⟩ := by
  rw [cacheRosterWitness, revertIf_bind_eq_ok, Bool.not_eq_false']
  refine and_congr_right fun _ ↦ ?_
  exact ⟨fun h ↦ (Except.ok.inj h).symm, fun h ↦ by rw [h]; rfl⟩

/-- A proof that is accepted can be cached, and storage mode then gives the same verdict. -/
theorem isVerified_of_verifyWithRoster {g : ProofmarkRegistry} {asc : ProofmarkASC} {now : ℕ}
    {subject : Address} {policyId : Uint 256} {mark : RosterMark} {p : RosterProof.Inclusion}
    (hzero : asc.epochRoots 0 = 0) (hmode : (g.policies policyId).requireRoster = true)
    (h : g.verifyWithRoster asc now subject policyId mark p = true) :
    ∃ g', g.cacheRosterWitness asc now subject mark p = .ok g' ∧
      g'.isVerified asc now subject policyId = true := by
  obtain ⟨hexists, hcontains, hpolicy⟩ := verifyWithRoster_iff.1 h
  obtain ⟨-, hcurrent, hroot, -⟩ := rosterContains_iff.1 hcontains
  refine ⟨_, cacheRosterWitness_eq_ok.2 ⟨hcontains, rfl⟩, ?_⟩
  have hmode' : ((g.withWitness subject ⟨asc.latestEpoch, mark⟩).policies policyId).requireRoster =
      true := hmode
  rw [isVerified_roster_iff hmode']
  simp only [withWitness_policies, withWitness_policyKind, withWitness_self]
  refine ⟨hexists, fun hepoch ↦ hroot ?_, trivial, hcurrent, hpolicy⟩
  rw [hepoch, hzero]

/-- Caching changes no verdict but the one of its subject under a roster policy. -/
theorem isVerified_withWitness {g : ProofmarkRegistry} {asc : ProofmarkASC} {now : ℕ}
    {subject who : Address} {policyId : Uint 256} {w : RosterWitness}
    (hother : who ≠ subject ∨ (g.policies policyId).requireRoster = false) :
    (g.withWitness subject w).isVerified asc now who policyId =
      g.isVerified asc now who policyId := by
  rcases hother with hwho | hmode
  · simp only [isVerified, withWitness_policies, withWitness_policyKind, withWitness_of_ne hwho]
    rfl
  · simp only [isVerified, withWitness_policies, withWitness_policyKind, hmode,
      Bool.false_eq_true, if_false]
    rfl

/-- Caching turns a verdict true only where its own proof is accepted. -/
theorem verifyWithRoster_of_turned {g g' : ProofmarkRegistry} {asc : ProofmarkASC}
    {now later : ℕ} {subject who : Address} {policyId : Uint 256} {mark : RosterMark}
    {p : RosterProof.Inclusion} (hcache : g.cacheRosterWitness asc now subject mark p = .ok g')
    (hbefore : g.isVerified asc later who policyId = false)
    (hafter : g'.isVerified asc later who policyId = true) :
    g.verifyWithRoster asc later who policyId mark p = true := by
  obtain ⟨hcontains, rfl⟩ := cacheRosterWitness_eq_ok.1 hcache
  obtain ⟨hsubject, -, hroot, hverify⟩ := rosterContains_iff.1 hcontains
  by_cases hother : who ≠ subject ∨ (g.policies policyId).requireRoster = false
  · rw [isVerified_withWitness hother, hbefore] at hafter
    exact absurd hafter (by simp)
  · rw [not_or, not_not, Bool.not_eq_false] at hother
    obtain ⟨rfl, hmode⟩ := hother
    have hmode' : ((g.withWitness who ⟨asc.latestEpoch, mark⟩).policies policyId).requireRoster =
        true := hmode
    rw [isVerified_roster_iff hmode'] at hafter
    simp only [withWitness_policies, withWitness_policyKind, withWitness_self] at hafter
    obtain ⟨hexists, -, -, hcurrent, hpolicy⟩ := hafter
    rw [verifyWithRoster_iff, rosterContains_iff]
    exact ⟨hexists, ⟨hsubject, hcurrent, hroot, hverify⟩, hpolicy⟩

/-- Every other call leaves the witnesses alone. -/
theorem rosterWitnesses_exec {g g' : ProofmarkRegistry} {asc : ProofmarkASC} {call : Call}
    (h : g.exec asc call = .ok g')
    (hcall : ∀ now subject mark p, call ≠ .cacheRosterWitness now subject mark p) :
    g'.rosterWitnesses = g.rosterWitnesses := by
  cases call with
  | registerPolicy sender p | registerPolicyForKind sender p kind =>
    obtain ⟨-, h⟩ := revertIf_bind_eq_ok.1 h
    obtain ⟨-, -, h⟩ := bind_eq_ok.1 h
    obtain ⟨-, h⟩ := revertIf_bind_eq_ok.1 h
    obtain rfl := Except.ok.inj h
    rfl
  | updatePolicy sender policyId p =>
    obtain ⟨-, h⟩ := revertIf_bind_eq_ok.1 h
    obtain ⟨-, h⟩ := revertIf_bind_eq_ok.1 h
    obtain ⟨-, h⟩ := revertIf_bind_eq_ok.1 h
    obtain ⟨-, -, h⟩ := bind_eq_ok.1 h
    obtain rfl := Except.ok.inj h
    rfl
  | transferPolicyOwner sender policyId newOwner =>
    obtain ⟨-, h⟩ := revertIf_bind_eq_ok.1 h
    obtain ⟨-, h⟩ := revertIf_bind_eq_ok.1 h
    obtain rfl := Except.ok.inj h
    rfl
  | freezePolicy sender policyId =>
    obtain ⟨-, h⟩ := revertIf_bind_eq_ok.1 h
    obtain ⟨-, h⟩ := revertIf_bind_eq_ok.1 h
    obtain rfl := Except.ok.inj h
    rfl
  | cacheRosterWitness now subject mark p => exact absurd rfl (hcall now subject mark p)

end ProofmarkRegistry

/-! ### The proof behind a witness -/

namespace HubChain

/-- The mark and the proof a call caches for a subject. -/
def Call.cached? (subject : Address) : Call → Option (RosterMark × RosterProof.Inclusion)
  | .registry (.cacheRosterWitness _ who mark p) => if who = subject then some (mark, p) else none
  | _ => none

/-- The mark and the proof cached last for a subject by some calls. -/
def cachedBy (subject : Address) (calls : List Call) : Option (RosterMark × RosterProof.Inclusion) :=
  (calls.filterMap (Call.cached? subject)).getLast?

theorem cachedBy_concat (subject : Address) (calls : List Call) (call : Call) :
    cachedBy subject (calls ++ [call]) =
      (Call.cached? subject call).or (cachedBy subject calls) := by
  rw [cachedBy, List.filterMap_append]
  rcases h : Call.cached? subject call with - | x
  · simp [h, cachedBy]
  · simp [h]

/-- The stored witness of a subject was cached with a proof that checks against the root of its
epoch, and that epoch is accepted. -/
def Witnessed (h : HubChain) (subject : Address) :
    Option (RosterMark × RosterProof.Inclusion) → Prop
  | none => h.registry.rosterWitnesses subject = RosterWitness.zero
  | some (mark, p) => ∃ e, h.registry.rosterWitnesses subject = ⟨e, mark⟩ ∧ subject ≠ 0 ∧ e ≠ 0 ∧
      e ≤ h.asc.latestEpoch ∧ h.asc.epochRoots e ≠ 0 ∧
      RosterProof.verifyInclusion (h.asc.epochRoots e)
        (ProofmarkRegistry.rosterLeaf subject mark) p = true

/-- A witness keeps its proof while accepted epochs and the stored witness stay. -/
theorem Witnessed.keep {h h' : HubChain} {subject : Address}
    {cached : Option (RosterMark × RosterProof.Inclusion)} (hw : Witnessed h subject cached)
    (hasc : h.asc.KeepsEpochs h'.asc)
    (hregistry : h'.registry.rosterWitnesses subject = h.registry.rosterWitnesses subject) :
    Witnessed h' subject cached := by
  cases cached with
  | none => exact hregistry.trans hw
  | some x =>
    obtain ⟨e, hstored, hsubject, he, hle, hroot, hverify⟩ := hw
    refine ⟨e, hregistry.trans hstored, hsubject, he, BitVec.le_trans hle hasc.latest, ?_, ?_⟩
    · rwa [hasc.root e hle]
    · rwa [hasc.root e hle]

/-- **Every stored witness has its proof**, after every run. -/
theorem witnessed_after (decoder : EvmV1Decoder) (o : Ownable2Step) (calls : List Call)
    (subject : Address) :
    Witnessed (after decoder o calls) subject
      (cachedBy subject (accepted (exec decoder) (deployed o) calls)) := by
  suffices h : (after decoder o calls).asc.epochRoots 0 = 0 ∧
      Witnessed (after decoder o calls) subject
        (cachedBy subject (accepted (exec decoder) (deployed o) calls)) from h.2
  have hinit : (deployed o).asc.epochRoots 0 = 0 ∧
      Witnessed (deployed o) subject (cachedBy subject []) := ⟨rfl, rfl⟩
  refine run_induction (P := fun done (h : HubChain) ↦
    h.asc.epochRoots 0 = 0 ∧ Witnessed h subject (cachedBy subject done)) hinit ?_ calls
  rintro done h call h' ⟨hzero, hw⟩ hexec
  rw [cachedBy_concat]
  cases call with
  | asc call =>
    obtain ⟨asc', hasc, hexec⟩ := bind_eq_ok.1 hexec
    obtain rfl := Except.ok.inj hexec
    have hkeeps := ProofmarkASC.keepsEpochs_exec (mapError_eq_ok.1 hasc)
    exact ⟨(hkeeps.root 0 (BitVec.not_lt.1 BitVec.not_lt_zero)).trans hzero, hw.keep hkeeps rfl⟩
  | registry call =>
    obtain ⟨g', hg, hexec⟩ := bind_eq_ok.1 hexec
    obtain rfl := Except.ok.inj hexec
    rw [mapError_eq_ok] at hg
    refine ⟨hzero, ?_⟩
    by_cases hcall : ∃ now who mark p, call = .cacheRosterWitness now who mark p
    · obtain ⟨now, who, mark, p, rfl⟩ := hcall
      obtain ⟨hcontains, rfl⟩ := ProofmarkRegistry.cacheRosterWitness_eq_ok.1 hg
      by_cases hwho : who = subject
      · subst hwho
        obtain ⟨hsubject, -, hroot, hverify⟩ := ProofmarkRegistry.rosterContains_iff.1 hcontains
        rw [Call.cached?, if_pos rfl, Option.some_or]
        refine ⟨h.asc.latestEpoch, ProofmarkRegistry.withWitness_self _ _ _, hsubject, fun he ↦ hroot ?_,
          BitVec.le_refl _, hroot, hverify⟩
        rw [he, hzero]
      · rw [Call.cached?, if_neg hwho, Option.none_or]
        exact hw.keep (.same rfl rfl rfl rfl rfl)
          (ProofmarkRegistry.withWitness_of_ne (Ne.symm hwho))
    · have hnone : Call.cached? subject (.registry call) = none := by
        cases call with
        | cacheRosterWitness now who mark p => exact absurd ⟨now, who, mark, p, rfl⟩ hcall
        | _ => rfl
      rw [hnone, Option.none_or]
      refine hw.keep (.same rfl rfl rfl rfl rfl) ?_
      rw [ProofmarkRegistry.rosterWitnesses_exec hg fun now who mark p heq ↦
        hcall ⟨now, who, mark, p, heq⟩]

/-- **Storage mode agrees with proof mode.** For a policy that asks for a roster:

* `isVerified` holds exactly if the subject has a cached witness of the latest epoch and
  `verifyWithRoster` accepts the mark with the proof it was cached with;
* a proof that `verifyWithRoster` accepts can be cached, and `isVerified` holds then;
* caching turns `isVerified` true, at whatever time it is read, only where `verifyWithRoster`
  accepts some proof. -/
theorem rosterWitness_agrees (decoder : EvmV1Decoder) (o : Ownable2Step) (calls : List Call)
    (subject : Address) (policyId : Uint 256) (now : ℕ)
    (hmode : ((after decoder o calls).registry.policies policyId).requireRoster = true) :
    let h := after decoder o calls
    let g := h.registry
    let cached := cachedBy subject (accepted (exec decoder) (deployed o) calls)
    (g.isVerified h.asc now subject policyId = true ↔
      ∃ e mark p, g.rosterWitnesses subject = ⟨e, mark⟩ ∧ cached = some (mark, p) ∧
        e = h.asc.latestEpoch ∧ g.verifyWithRoster h.asc now subject policyId mark p = true) ∧
    (∀ mark p, g.verifyWithRoster h.asc now subject policyId mark p = true →
      ∃ g', g.cacheRosterWitness h.asc now subject mark p = .ok g' ∧
        g'.isVerified h.asc now subject policyId = true) ∧
    ∀ mark p g' who policyId' later, g.cacheRosterWitness h.asc now subject mark p = .ok g' →
      g.isVerified h.asc later who policyId' = false →
      g'.isVerified h.asc later who policyId' = true →
      ∃ mark' p', g.verifyWithRoster h.asc later who policyId' mark' p' = true := by
  intro h g cached
  refine ⟨?_, ?_, ?_⟩
  · have hwitnessed : Witnessed h subject cached := witnessed_after decoder o calls subject
    rw [ProofmarkRegistry.isVerified_roster_iff hmode]
    constructor
    · rintro ⟨hexists, hepoch, hlatest, hcurrent, hpolicy⟩
      rcases hcached : cached with - | ⟨mark, p⟩
      · -- nothing was cached, so the stored epoch is zero
        rw [hcached] at hwitnessed
        have hzero : g.rosterWitnesses subject = RosterWitness.zero := hwitnessed
        rw [hzero] at hepoch
        exact absurd rfl hepoch
      · rw [hcached] at hwitnessed
        obtain ⟨e, hstored, hsubject, -, -, hroot, hverify⟩ := hwitnessed
        have hstored' : g.rosterWitnesses subject = ⟨e, mark⟩ := hstored
        rw [hstored'] at hlatest hcurrent hpolicy
        obtain rfl : e = h.asc.latestEpoch := hlatest
        refine ⟨_, mark, p, hstored', rfl, rfl, ?_⟩
        rw [ProofmarkRegistry.verifyWithRoster_iff, ProofmarkRegistry.rosterContains_iff]
        exact ⟨hexists, ⟨hsubject, hcurrent, hroot, hverify⟩, hpolicy⟩
    · rintro ⟨e, mark, p, hstored, hcached, rfl, hproof⟩
      rw [hcached] at hwitnessed
      obtain ⟨e, hstored', -, he, -⟩ := hwitnessed
      have hsame : (⟨h.asc.latestEpoch, mark⟩ : RosterWitness) = ⟨e, mark⟩ :=
        hstored.symm.trans hstored'
      rw [ProofmarkRegistry.verifyWithRoster_iff, ProofmarkRegistry.rosterContains_iff] at hproof
      obtain ⟨hexists, ⟨-, hcurrent, -, -⟩, hpolicy⟩ := hproof
      rw [hstored]
      exact ⟨hexists, (RosterWitness.mk.inj hsame).1 ▸ he, rfl, hcurrent, hpolicy⟩
  · have hzero : h.asc.epochRoots 0 = 0 := by
      rw [show h.asc = _ from after_asc decoder o calls]
      exact (ProofmarkASC.epochLedger_after decoder o (ascCalls calls)).zero
    intro mark p hproof
    exact ProofmarkRegistry.isVerified_of_verifyWithRoster hzero hmode hproof
  · intro mark p g' who policyId' later hcache hbefore hafter
    exact ⟨mark, p, ProofmarkRegistry.verifyWithRoster_of_turned hcache hbefore hafter⟩

/-- The mark of the sample subject as the roster of the sample epoch carries it. -/
def sampleMark : RosterMark :=
  ⟨MarkAttrs.pack 1 3 1 840 1 1700000000 1800000000 1, 5, 6, 0xCA11⟩

/-- Its position between the two sentinels, whose hashes are given. -/
def sampleProof : RosterProof.Inclusion :=
  ⟨1, 3, [5, 6]⟩

/-- The root of a roster that holds the sample mark. -/
def sampleRoot : Bytes32 :=
  0x28b8e43ac59dac909e42924d4cdcf645550dfc1a5bb1112f89f645f6401ae8b1

/-- One receipt with an epoch of that roster and the authorisation of its issuer. -/
def sampleEpoch : List (List LogEntry) :=
  [[(SourceEvent.RosterIssuerAuthorized 4 sampleRoot 0xCA11).toLog 0x501,
    (SourceEvent.RosterEpochPublished 4 sampleRoot 2 1700150000 1700085000 1700086000 9).toLog
      0x501]]

/-- The epoch is delivered, a policy asks for a roster, and the witness is cached. -/
def sampleRosterRun : List Call :=
  [.asc (.configureSource ⟨1, 1700086400, ProofmarkASC.mockBlockProver⟩ 1 0x501),
    .asc (ProofmarkASC.deliver .RosterEpoch 100 2 0),
    .registry (.registerPolicy 7 { samplePolicy with requireRoster := true }),
    .registry (.cacheRosterWitness 1700086400 0x3001 sampleMark sampleProof)]

/-- A witness that the hub accepts is cached. -/
theorem after_cacheRosterWitness {decoder : EvmV1Decoder} {o : Ownable2Step} {calls : List Call}
    {now : ℕ} {subject : Address} {mark : RosterMark} {p : RosterProof.Inclusion}
    (h : ProofmarkRegistry.rosterContains (after decoder o calls).asc now subject mark p = true) :
    after decoder o (calls ++ [.registry (.cacheRosterWitness now subject mark p)]) =
      { after decoder o calls with
        registry := { (after decoder o calls).registry with
          rosterWitnesses := Function.update (after decoder o calls).registry.rosterWitnesses
            subject ⟨(after decoder o calls).asc.latestEpoch, mark⟩ } } := by
  have hcached : exec decoder (after decoder o calls)
      (.registry (.cacheRosterWitness now subject mark p)) = .ok
        { after decoder o calls with
          registry := { (after decoder o calls).registry with
            rosterWitnesses := Function.update (after decoder o calls).registry.rosterWitnesses
              subject ⟨(after decoder o calls).asc.latestEpoch, mark⟩ } } := by
    simp only [exec, ProofmarkRegistry.exec, ProofmarkRegistry.cacheRosterWitness, h, Bool.not_true]
    rfl
  rw [after, run_concat, transact]
  simp only [after] at hcached ⊢
  rw [hcached]

/-- The sample proof is accepted, from the digests on its way. -/
theorem verifyInclusion_sampleProof {root leaf left top : Bytes32}
    (hleft : RosterProof.node 5 leaf = left) (htop : RosterProof.node left 6 = top)
    (hroot : RosterProof.rootOf top 3 = root) :
    RosterProof.verifyInclusion root leaf sampleProof = true := by
  have hclimb : RosterProof.climb sampleProof.siblings leaf 1 3 =
      some (RosterProof.node (RosterProof.node 5 leaf) 6, 0, 1) := rfl
  rw [hleft, htop] at hclimb
  rw [RosterProof.verifyInclusion, if_neg (by decide)]
  change RosterProof.climb sampleProof.siblings leaf sampleProof.index.toNat
    sampleProof.leafCount.toNat = _ at hclimb
  rw [hclimb]
  show (1 == 1 && 0 == 0 && RosterProof.rootOf top 3 == root) = true
  rw [hroot]
  simp

theorem subjectKey_sample : RosterProof.subjectKey ProofmarkRegistry.NAMESPACE 0x3001 =
    0x2c33f9ec516b2faec7cccd6987539c944fd8e870543b0edbd1eed7d3980b0de9 := by
  decide +kernel

theorem verifyInclusion_sampleMark :
    RosterProof.verifyInclusion sampleRoot (ProofmarkRegistry.rosterLeaf 0x3001 sampleMark)
      sampleProof = true := by
  have hmark : RosterProof.markHash sampleMark.attrs sampleMark.claimsRoot sampleMark.evidenceHash
      sampleMark.issuer =
        0x4404fb9f664c837f33c56fbe0570eb4774213c753894e5b27c069dcdb15b9a2d := by decide +kernel
  have hleaf : RosterProof.leafOf
      0x2c33f9ec516b2faec7cccd6987539c944fd8e870543b0edbd1eed7d3980b0de9
      0x4404fb9f664c837f33c56fbe0570eb4774213c753894e5b27c069dcdb15b9a2d =
        0x83affddae42d3e0fc61efe4ca23c0a0ede6902503c59b3b784a5881711d2a61c := by decide +kernel
  have hleft : RosterProof.node 5
      0x83affddae42d3e0fc61efe4ca23c0a0ede6902503c59b3b784a5881711d2a61c =
        0xd4e03f02154495d3e8009957e04bfd19e3f2a84da7c086517c311e9cf930c706 := by decide +kernel
  have htop : RosterProof.node
      0xd4e03f02154495d3e8009957e04bfd19e3f2a84da7c086517c311e9cf930c706 6 =
        0x3d84363d1f64461c4d24da2e587aeca3dbea3d927455ddfd4fdb28005f474ad9 := by decide +kernel
  have hroot : RosterProof.rootOf
      0x3d84363d1f64461c4d24da2e587aeca3dbea3d927455ddfd4fdb28005f474ad9 3 = sampleRoot := by
    decide +kernel
  rw [ProofmarkRegistry.rosterLeaf, subjectKey_sample, hmark, hleaf]
  exact verifyInclusion_sampleProof hleft htop hroot

/-- The sample mark is listed wherever its epoch is current. -/
theorem rosterContains_sample {asc : ProofmarkASC} {mark : RosterMark} {root : Bytes32}
    (hverify : RosterProof.verifyInclusion root (ProofmarkRegistry.rosterLeaf 0x3001 mark)
      sampleProof = true) (hroot : root ≠ 0) (hepoch : asc.epochRoots asc.latestEpoch = root)
    (hcurrent : ProofmarkRegistry.Current asc 1700086400 0x3001 mark.issuer) :
    ProofmarkRegistry.rosterContains asc 1700086400 0x3001 mark sampleProof = true := by
  refine ProofmarkRegistry.rosterContains_iff.2 ⟨by decide, hcurrent, ?_, ?_⟩
  · rwa [hepoch]
  · rwa [hepoch]

theorem sampleRosterRun_verified :
    let h := after (ProofmarkASC.tableDecoder sampleEpoch) ⟨1, 0⟩ sampleRosterRun
    (h.registry.policies 1).requireRoster = true ∧
      h.registry.isVerified h.asc 1700086400 0x3001 1 = true := by
  have hcontains : ProofmarkRegistry.rosterContains (after (ProofmarkASC.tableDecoder sampleEpoch)
      ⟨1, 0⟩ (sampleRosterRun.take 3)).asc 1700086400 0x3001 sampleMark sampleProof = true :=
    rosterContains_sample verifyInclusion_sampleMark (by decide) (by decide +kernel)
      ⟨by decide +kernel, by decide +kernel, by decide +kernel⟩
  have hrun := after_cacheRosterWitness hcontains
  rw [show sampleRosterRun.take 3 ++ [.registry (.cacheRosterWitness 1700086400 0x3001 sampleMark
    sampleProof)] = sampleRosterRun from rfl] at hrun
  rw [hrun]
  decide +kernel

/-- The cached witness is verified, so its proof is accepted. -/
theorem rosterWitness_agrees_sampleRosterRun :
    ∃ e mark p, (after (ProofmarkASC.tableDecoder sampleEpoch) ⟨1, 0⟩
        sampleRosterRun).registry.rosterWitnesses 0x3001 = ⟨e, mark⟩ ∧
      cachedBy 0x3001 (accepted (exec (ProofmarkASC.tableDecoder sampleEpoch)) (deployed ⟨1, 0⟩)
        sampleRosterRun) = some (mark, p) ∧
      e = (after (ProofmarkASC.tableDecoder sampleEpoch) ⟨1, 0⟩ sampleRosterRun).asc.latestEpoch ∧
      (after (ProofmarkASC.tableDecoder sampleEpoch) ⟨1, 0⟩
        sampleRosterRun).registry.verifyWithRoster
        (after (ProofmarkASC.tableDecoder sampleEpoch) ⟨1, 0⟩ sampleRosterRun).asc 1700086400
        0x3001 1 mark p = true :=
  (rosterWitness_agrees (ProofmarkASC.tableDecoder sampleEpoch) ⟨1, 0⟩ sampleRosterRun 0x3001 1
    1700086400 sampleRosterRun_verified.1).1.1 sampleRosterRun_verified.2

end HubChain

end Proofmark
