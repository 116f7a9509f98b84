import Proofmark.Delivery.Delivered

/-!
# Source and hub agree on denials

The source keeps a denial register and a table of proposed corrections; the hub keeps a cursor over
receipts in any order. `DenialRegister` is the simulation: the register of the source is the fold of
the subject's events, which is what the hub shows once everything is delivered. `Corrections` is the
trail of every stored correction: who proposed it, who approved it and which call executed it.
-/

open Evm LastWriter

namespace Proofmark

variable {d : Deployment}

/-! ### The denial register -/

/-- Whether a denial is in force after an event. -/
def LifecycleEvent.denies (inForce : Bool) : LifecycleEvent → Bool
  | issued _ | revoked => inForce
  | denied => true
  | corrected _ => false

/-- The denial of a standing is a fold over the events alone. -/
theorem foldl_step_denied (E : History) (S : Standing) :
    (E.foldl Standing.step S).denied = (E.map Prod.snd).foldl LifecycleEvent.denies S.denied := by
  induction E generalizing S with
  | nil => rfl
  | cons x E ih =>
    rw [List.foldl_cons, List.map_cons, List.foldl_cons, ih]
    obtain ⟨c, e⟩ := x
    cases e <;> rfl

/-- Events that decide nothing leave the denial. -/
theorem foldl_denies_of_ordinary {l : List LifecycleEvent} (h : ∀ e ∈ l, e.isDecision = false)
    (b : Bool) : l.foldl LifecycleEvent.denies b = b := by
  induction l with
  | nil => rfl
  | cons e l ih =>
    have hhead : e.denies b = b := by
      have he := h e List.mem_cons_self
      cases e <;> first | rfl | simp [LifecycleEvent.isDecision] at he
    rw [List.foldl_cons, hhead]
    exact ih fun e' he' ↦ h e' (List.mem_cons_of_mem _ he')

/-- Denials put a denial in force. -/
theorem foldl_denies_of_denied {l : List LifecycleEvent} (h : ∀ e ∈ l, e = .denied) (b : Bool) :
    l.foldl LifecycleEvent.denies b = (!l.isEmpty || b) := by
  induction l generalizing b with
  | nil => rfl
  | cons e l ih =>
    rw [List.foldl_cons, h e List.mem_cons_self, ih fun e' he' ↦ h e' (List.mem_cons_of_mem _ he')]
    simp [LifecycleEvent.denies]

namespace ComplianceSource

/-- **The register of denials is the fold of the events.** -/
def DenialRegister (done : List Executed) (s : ComplianceSource) : Prop :=
  ∀ u, s.sourceDenialActive u =
    ((done.flatMap Executed.events).filterMap (SourceEvent.about u)).foldl
      LifecycleEvent.denies false

variable {s s' : ComplianceSource} {env : SourceEnv} {call : Call} {events : List SourceEvent}

/-- A plain event about a subject decides nothing. -/
theorem isDecision_of_plain {number : Uint 64} {u : Address} {e : SourceEvent}
    (hplain : e.Plain number) {l : LifecycleEvent} (habout : e.about u = some l) :
    l.isDecision = false := by
  cases e <;> simp [SourceEvent.about, SourceEvent.hubEvent, SourceEvent.Plain] at hplain habout
  all_goals
    obtain ⟨-, rfl⟩ := habout
    rfl

/-- **One call moves the register as its events say.** -/
theorem Effect.denies (h : Effect s env call s' events) (u : Address) :
    s'.sourceDenialActive u = (events.filterMap (SourceEvent.about u)).foldl
      LifecycleEvent.denies (s.sourceDenialActive u) := by
  cases h with
  | plain keeps plain =>
    rw [keeps.active, foldl_denies_of_ordinary]
    intro l hl
    obtain ⟨e, he, habout⟩ := List.mem_filterMap.1 hl
    exact isDecision_of_plain (plain e he) habout
  | @denied _ _ subjects listVersion epoch denies =>
    rw [List.filterMap_map, foldl_denies_of_denied]
    · rw [Bool.eq_iff_iff, denies.active, Bool.or_eq_true, Bool.not_eq_true',
        List.isEmpty_eq_false_iff]
      refine or_congr_left ⟨fun hu hnil ↦ ?_, fun hne ↦ ?_⟩
      · rw [List.filterMap_eq_nil_iff] at hnil
        simpa [SourceEvent.about, SourceEvent.hubEvent] using hnil u hu
      · obtain ⟨l, hl⟩ := List.exists_mem_of_ne_nil _ hne
        obtain ⟨v, hv, habout⟩ := List.mem_filterMap.1 hl
        simp [SourceEvent.about, SourceEvent.hubEvent] at habout
        exact habout.1 ▸ hv
    · intro l hl
      obtain ⟨v, hv, habout⟩ := List.mem_filterMap.1 hl
      simp [SourceEvent.about, SourceEvent.hubEvent] at habout
      exact habout.2.symm
  | proposed => rfl
  | approved => rfl
  | @executed id c stored isOpen approved valid =>
    rcases eq_or_ne u c.subject with rfl | hne
    · simp [clearDenial, SourceEvent.about, SourceEvent.hubEvent, LifecycleEvent.denies]
    · simp [clearDenial, setCorrection, SourceEvent.about, SourceEvent.hubEvent, hne, hne.symm]
  | @published _ epoch root listVersion validUntil sourceCutoff snapshotId issuers =>
    have hnil : (issuers.flatMap (SourceEvent.authorization epoch root) ++
        [SourceEvent.RosterEpochPublished epoch root listVersion validUntil sourceCutoff
          (BitVec.ofNat 40 env.timestamp) snapshotId]).filterMap (SourceEvent.about u) = [] := by
      refine List.filterMap_eq_nil_iff.2 fun e he ↦ ?_
      rcases List.mem_append.1 he with he | he
      · rcases SourceEvent.mem_authorization he with ⟨i, rfl⟩ | ⟨i, k, rfl⟩ <;> rfl
      · rw [List.mem_singleton.1 he]
        rfl
    rw [hnil]
    rfl

end ComplianceSource

/-- **The source denies whom its events deny.** -/
theorem SourceChain.denialRegister (C : SourceChain d) :
    ComplianceSource.DenialRegister C.executed C.final := by
  refine C.executed_rule (P := ComplianceSource.DenialRegister) (fun u ↦ rfl)
    fun done s x s' hs hexec u ↦ ?_
  rw [(ComplianceSource.exec_effect hexec).denies u, hs u, List.flatMap_append,
    List.filterMap_append, List.foldl_append, List.flatMap_singleton]

/-! ### The trail of a correction -/

/-- A call that proposed a correction, under its id and with its terms. -/
structure Executed.Proposes (p : Executed) (id : Uint 256) (c : DenialCorrection) : Prop where
  call : p.call =
    .proposeDenialCorrection c.subject c.attrs c.claimsRoot c.evidenceHash c.reasonHash
  sender : p.env.sender = c.proposer
  events : p.events = [.DenialCorrectionProposed id c.subject c.denialRevision c.proposer
    c.reasonHash c.executeAfter]

/-- A call by which somebody else approved a correction. -/
structure Executed.Approves (q : Executed) (id : Uint 256) (c : DenialCorrection) : Prop where
  call : q.call = .approveDenialCorrection id
  sender : q.env.sender = c.approver
  other : c.approver ≠ c.proposer

/-- A call that executed a correction. -/
structure Executed.Executes (x : Executed) (id : Uint 256) (c : DenialCorrection) : Prop where
  call : x.call = .executeDenialCorrection id
  events : x.events = [.SanctionDenialCorrected c.subject c.denialRevision id c.reasonHash
      c.proposer c.approver,
    .MarkIssued c.subject c.attrs c.proposer c.claimsRoot c.evidenceHash]
  valid : MarkAttrs.validSchema c.attrs = true
  subject_ne_zero : c.subject ≠ 0
  closed : c.executed = true

/-- Where the stored corrections come from. -/
structure Proposals (done : List Executed) (s : ComplianceSource) : Prop where
  proposed : ∀ id, (s.denialCorrections id).subject ≠ 0 →
    ∃ p ∈ done, p.Proposes id (s.denialCorrections id)
  approved : ∀ id, (s.denialCorrections id).approver ≠ 0 → ∃ p q, [p, q].Sublist done ∧
    p.Proposes id (s.denialCorrections id) ∧ q.Approves id (s.denialCorrections id)

namespace Proposals

variable {done : List Executed} {s s' : ComplianceSource} {x : Executed}

/-- A call that stores nothing. -/
theorem keep (h : Proposals done s) (x : Executed)
    (hcorrections : s'.denialCorrections = s.denialCorrections) :
    Proposals (done ++ [x]) s' := by
  constructor
  case proposed =>
    intro id hid
    rw [hcorrections] at hid ⊢
    obtain ⟨p, hp, hproposes⟩ := h.proposed id hid
    exact ⟨p, List.mem_append_left _ hp, hproposes⟩
  case approved =>
    intro id hid
    rw [hcorrections] at hid ⊢
    obtain ⟨p, q, hsub, htrail⟩ := h.approved id hid
    exact ⟨p, q, hsub.trans (List.sublist_append_left _ _), htrail⟩

/-- A call that stores one correction. -/
theorem store (h : Proposals done s) (x : Executed) {id : Uint 256} {c : DenialCorrection}
    (hcorrections : s'.denialCorrections = Function.update s.denialCorrections id c)
    (hproposed : ∃ p ∈ done ++ [x], p.Proposes id c)
    (happroved : c.approver ≠ 0 → ∃ p q, [p, q].Sublist (done ++ [x]) ∧ p.Proposes id c ∧
      q.Approves id c) : Proposals (done ++ [x]) s' := by
  have hkeep : Proposals (done ++ [x]) s := h.keep x rfl
  constructor
  case proposed =>
    intro id' hid'
    rcases eq_or_ne id' id with rfl | hne
    · rw [hcorrections, Function.update_self]
      exact hproposed
    · rw [hcorrections, Function.update_of_ne hne] at hid' ⊢
      exact hkeep.proposed id' hid'
  case approved =>
    intro id' hid'
    rcases eq_or_ne id' id with rfl | hne
    · rw [hcorrections, Function.update_self] at hid' ⊢
      exact happroved hid'
    · rw [hcorrections, Function.update_of_ne hne] at hid' ⊢
      exact hkeep.approved id' hid'

/-- **Every call keeps the trail.** -/
theorem concat (h : Proposals done s) (hexec : s.exec x.env x.call = .ok (s', x.events)) :
    Proposals (done ++ [x]) s' := by
  have hx : x ∈ done ++ [x] := by simp
  generalize hcall : x.call = call at hexec
  generalize hevents : x.events = events at hexec
  cases ComplianceSource.exec_effect hexec with
  | plain keeps => exact h.keep x keeps.corrections
  | denied listVersion epoch denies => exact h.keep x denies.corrections
  | proposed subject attrs claimsRoot evidenceHash reasonHash terms =>
    subst terms
    refine h.store x rfl ⟨x, hx, hcall, rfl, hevents⟩ fun hzero ↦ absurd rfl hzero
  | @approved id c stored isOpen unapproved other =>
    obtain ⟨p, hp, hproposes⟩ := h.proposed id (by rw [stored]; exact isOpen.subject)
    rw [stored] at hproposes
    have hp' : p.Proposes id { c with approver := x.env.sender } :=
      ⟨hproposes.call, hproposes.sender, hproposes.events⟩
    have hsub : [p, x].Sublist (done ++ [x]) :=
      (List.singleton_sublist.2 hp).append (List.Sublist.refl [x])
    exact h.store x rfl ⟨p, List.mem_append_left _ hp, hp'⟩ fun _ ↦
      ⟨p, x, hsub, hp', hcall, rfl, other.symm⟩
  | @executed id c stored isOpen approved valid =>
    obtain ⟨p, q, hsub, hproposes, happroves⟩ := h.approved id (by rw [stored]; exact approved)
    rw [stored] at hproposes happroves
    have hp' : p.Proposes id { c with executed := true } :=
      ⟨hproposes.call, hproposes.sender, hproposes.events⟩
    have hq' : q.Approves id { c with executed := true } :=
      ⟨happroves.call, happroves.sender, happroves.other⟩
    have hsub' := hsub.trans (List.sublist_append_left done [x])
    exact h.store x rfl ⟨p, hsub'.subset (by simp), hp'⟩ fun _ ↦ ⟨p, q, hsub', hp', hq'⟩
  | published => exact h.keep x rfl

end Proposals

/-- The trail of every executed correction: proposed, approved by somebody else, then executed. -/
def Corrections (done : List Executed) (s : ComplianceSource) : Prop :=
  ∀ x ∈ done, ∀ id, x.call = .executeDenialCorrection id →
    x.Executes id (s.denialCorrections id) ∧ ∃ p q, [p, q, x].Sublist done ∧
      p.Proposes id (s.denialCorrections id) ∧ q.Approves id (s.denialCorrections id)

/-- An executed correction is never written again. -/
theorem ComplianceSource.Effect.closed {s s' : ComplianceSource} {env : SourceEnv}
    {call : ComplianceSource.Call} {events : List SourceEvent}
    (h : Effect s env call s' events) (hsound : s.Sound) {id : Uint 256}
    (hsubject : (s.denialCorrections id).subject ≠ 0)
    (hclosed : (s.denialCorrections id).executed = true) :
    s'.denialCorrections id = s.denialCorrections id := by
  have hother : ∀ {id'}, s.Open (s.denialCorrections id') → id ≠ id' := by
    rintro id' hopen rfl
    rw [hopen.executed] at hclosed
    exact absurd hclosed Bool.false_ne_true
  cases h with
  | plain keeps => rw [keeps.corrections]
  | denied listVersion epoch denies => rw [denies.corrections]
  | proposed =>
    have hne : id ≠ s.nextDenialCorrectionId := (BitVec.ne_of_lt (hsound.id_lt id hsubject))
    exact setCorrection_of_ne hne
  | approved id' stored isOpen => exact setCorrection_of_ne (hother (stored ▸ isOpen))
  | executed id' stored isOpen => exact setCorrection_of_ne (hother (stored ▸ isOpen))
  | published => rfl

/-- **The trail of the chain.** -/
theorem SourceChain.corrections (C : SourceChain d) : Corrections C.executed C.final := by
  have htrail : C.final.Sound ∧ Proposals C.executed C.final ∧ Corrections C.executed C.final := by
    refine C.executed_rule (P := fun done s ↦ s.Sound ∧ Proposals done s ∧ Corrections done s)
      ⟨ComplianceSource.sound_deployed d.owner, ?_, ?_⟩ fun done s x s' hdone hexec ↦ ?_
    · constructor <;> simp [ComplianceSource.deployed, DenialCorrection.zero]
    · simp [Corrections]
    obtain ⟨hsound, hproposals, hcorrections⟩ := hdone
    have heffect := ComplianceSource.exec_effect hexec
    have hproposals' := hproposals.concat hexec
    refine ⟨heffect.sound hsound, hproposals', fun y hy id hcall ↦ ?_⟩
    rcases List.mem_append.1 hy with hy | hy
    · -- an earlier execution: its correction is closed
      obtain ⟨hexecutes, p, q, hsub, htrail⟩ := hcorrections y hy id hcall
      rw [heffect.closed hsound hexecutes.subject_ne_zero hexecutes.closed]
      exact ⟨hexecutes, p, q, hsub.trans (List.sublist_append_left _ _), htrail⟩
    · obtain rfl := List.mem_singleton.1 hy
      rw [hcall] at hexec
      obtain ⟨hopen, happrover, hvalid, -, -, rfl, hevents⟩ :=
        ComplianceSource.executeDenialCorrection_eq_ok rfl hexec
      obtain ⟨p, q, hsub, hproposes, happroves⟩ := hproposals.approved id happrover
      have hstored : (((s.setCorrection id { s.denialCorrections id with executed := true }
        ).clearDenial (s.denialCorrections id).subject).denialCorrections id) =
          { s.denialCorrections id with executed := true } := ComplianceSource.setCorrection_self ..
      have hsub' : [p, q, y].Sublist (done ++ [y]) := hsub.append (List.Sublist.refl [y])
      rw [hstored]
      have hschema := MarkAttrs.validSchema_of_validAtIssuance hvalid
      exact ⟨⟨hcall, hevents, hschema, hopen.subject, rfl⟩, p, q, hsub',
        ⟨hproposes.call, hproposes.sender, hproposes.events⟩,
        ⟨happroves.call, happroves.sender, happroves.other⟩⟩
  exact htrail.2.2

/-! ### Agreement -/

/-- The last event about a subject came from a call. -/
def SourceChain.EndsWith (C : SourceChain d) (u : Address) (x : Executed) : Prop :=
  ∃ before after, C.executed = before ++ x :: after ∧
    x.events.filterMap (SourceEvent.about u) ≠ [] ∧
    (after.flatMap Executed.events).filterMap (SourceEvent.about u) = []

/-- The issuance an executed correction stands for. -/
def DenialCorrection.issuance (c : DenialCorrection) : Issuance :=
  ⟨c.attrs, c.proposer, 0, c.claimsRoot, c.evidenceHash⟩

/-- What an executed correction says about a subject: nothing unless it is its own. -/
theorem Executed.Executes.about {x : Executed} {id : Uint 256} {c : DenialCorrection}
    (h : x.Executes id c) {u : Address} (hne : x.events.filterMap (SourceEvent.about u) ≠ []) :
    c.subject = u ∧ ∃ k, x.events.filterMap (SourceEvent.about u) =
      [.corrected k, .issued c.issuance] := by
  rw [h.events] at hne ⊢
  rcases eq_or_ne c.subject u with hu | hu
  · simp [SourceEvent.about, SourceEvent.hubEvent, hu, DenialCorrection.issuance]
  · simp [SourceEvent.about, SourceEvent.hubEvent, hu] at hne

/-- A correction and a valid issuance at the end put the issuance in force. -/
theorem foldl_step_corrected {E : History} {l : List LifecycleEvent} {k : Correction}
    {i : Issuance} (h : E.map Prod.snd = l ++ [.corrected k, .issued i]) (hvalid : i.valid = true) :
    (E.foldl Standing.step Standing.initial).status = .Active ∧
      (E.foldl Standing.step Standing.initial).credential = some i := by
  obtain ⟨E₁, E₂, rfl, -, hE₂⟩ := List.map_eq_append_iff.1 h
  obtain ⟨⟨a, _⟩, E₃, rfl, rfl, hE₃⟩ := List.map_eq_cons_iff.1 hE₂
  obtain ⟨⟨b, _⟩, E₄, rfl, rfl, hE₄⟩ := List.map_eq_cons_iff.1 hE₃
  obtain rfl := List.map_eq_nil_iff.1 hE₄
  simp [List.foldl_append, Standing.step, hvalid]

/-- **Source and hub agree on denials.** Once the receipts of a chain are delivered, in any order,
the hub denies a subject exactly if the source does. If the last event about the subject came from
an executed correction, the mark of the hub is the one its proposal fixed, which somebody else than
the proposer approved. -/
theorem denial_agrees {C : SourceChain d} {decoder : EvmV1Decoder} {o : Ownable2Step}
    {calls : List ProofmarkASC.Call} (h : Delivered d.address C.receipts decoder o calls)
    (u : Address) :
    let r := (ProofmarkASC.after decoder o calls).subjects u
    r.permanentDenial = C.final.sourceDenialActive u ∧
      ∀ x id, C.EndsWith u x → x.call = .executeDenialCorrection id →
        let c := C.final.denialCorrections id
        c.subject = u ∧ r.mark.status = .Active ∧ r.mark = c.issuance.mark ∧
          ∃ p q, [p, q, x].Sublist C.executed ∧ p.Proposes id c ∧ q.Approves id c := by
  intro r
  have hshows := h.shows_history u
  have hregister : r.permanentDenial = C.final.sourceDenialActive u := by
    rw [hshows.denied, foldl_step_denied, C.map_snd_history, C.denialRegister u, C.events_eq]
    rfl
  refine ⟨hregister, fun x id hlast hcall ↦ ?_⟩
  obtain ⟨before, after, hexecuted, hne, hafter⟩ := hlast
  have hx : x ∈ C.executed := by simp [hexecuted]
  obtain ⟨hexecutes, p, q, htrail⟩ := C.corrections x hx id hcall
  obtain ⟨hsubject, k, habout⟩ := hexecutes.about hne
  have hhistory : (C.history u).map Prod.snd =
      (before.flatMap Executed.events).filterMap (SourceEvent.about u) ++
        [.corrected k, .issued (C.final.denialCorrections id).issuance] := by
    rw [C.map_snd_history, C.events_eq, hexecuted, List.flatMap_append, List.flatMap_cons,
      List.filterMap_append, List.filterMap_append, habout, hafter, List.append_nil]
  obtain ⟨hstatus, hcredential⟩ := foldl_step_corrected hhistory hexecutes.valid
  refine ⟨hsubject, ?_, ?_, p, q, htrail⟩
  · rw [hshows.status, hstatus]
  · exact (hshows.credential _ hcredential).1

/-! ### The correction of the sample -/

/-- The correction a call executes. -/
def Executed.correctionId? (x : Executed) : Option (Uint 256) :=
  match x.call with
  | .executeDenialCorrection id => some id
  | _ => none

theorem Executed.call_of_correctionId? {x : Executed} {id : Uint 256}
    (h : x.correctionId? = some id) : x.call = .executeDenialCorrection id := by
  rw [correctionId?] at h
  split at h
  case h_1 id' hcall => rw [hcall, Option.some.inj h]
  case h_2 => simp at h

/-- The sample ends with the execution of its correction. -/
theorem endsWith_sampleChain :
    ∃ x, sampleChain.EndsWith 0x3001 x ∧ x.call = .executeDenialCorrection 1 := by
  have hlast : (sampleChain.executed.getLast?.map fun x ↦ (x.correctionId?, x.events)) =
      some (some 1, [.SanctionDenialCorrected 0x3001 1 1 4 0xCA11 0xA9900,
        .MarkIssued 0x3001 sampleAttrs 0xCA11 5 6]) := by
    decide +kernel
  obtain ⟨x, hx, hpair⟩ := Option.map_eq_some_iff.1 hlast
  obtain ⟨hid, hevents⟩ := Prod.mk.inj hpair
  obtain ⟨before, hexecuted⟩ := List.getLast?_eq_some_iff.1 hx
  refine ⟨x, ⟨before, [], hexecuted, ?_, rfl⟩, Executed.call_of_correctionId? hid⟩
  simp [hevents, SourceEvent.about, SourceEvent.hubEvent]

theorem denial_agrees_backwards :
    ((ProofmarkASC.after sampleDecoder ⟨1, 0⟩ backwards).subjects 0x3001).permanentDenial =
        sampleChain.final.sourceDenialActive 0x3001 ∧
      ((ProofmarkASC.after sampleDecoder ⟨1, 0⟩ backwards).subjects 0x3001).mark.status =
        .Active := by
  obtain ⟨hdenial, hmark⟩ := denial_agrees delivered_backwards 0x3001
  obtain ⟨x, hlast, hcall⟩ := endsWith_sampleChain
  exact ⟨hdenial, (hmark x 1 hlast hcall).2.1⟩

end Proofmark
