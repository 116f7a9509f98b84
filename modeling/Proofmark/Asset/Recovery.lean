import Proofmark.Asset.Effects

/-!
# Conservation and authority of the asset

A run of the note with its history, as for the corrections of a denial: `Slot` is what the history
says about one stored recovery, `Trail` what it says about all of them, and every effect keeps both.
With the bypass off in every state of a run (`Trail.bypass`) the two facts about a flow leave an
execution as the only call that can take from an account that is not verified, and the slot of the
recovery it executes names who proposed it and who approved it.

The delay has the defect of the correction of a denial: `executeAfter` is cut to 40 bits.
-/

open Evm

namespace Proofmark

/-- A call with the environment it is made in. -/
structure NoteCall where
  env : NoteEnv
  call : GatedRwaNote.Call

namespace GatedRwaNote

variable {T : Erc20}

/-- The transition of a run. -/
def step (s : GatedRwaNote T) (x : NoteCall) : Except NoteError (GatedRwaNote T) :=
  (s.exec x.env x.call).map Prod.fst

end GatedRwaNote

/-- A call that went through, with the state it was made in. -/
abbrev NoteEntry (T : Erc20) := Entry (GatedRwaNote T) NoteCall

variable {T : Erc20}

/-! ### The history of one recovery -/

namespace NoteEntry

/-- The entry executes the recovery of an id. -/
def executesId (id : Uint 256) (x : NoteEntry T) : Bool :=
  x.input.call == .executeRecovery id

/-- The proposal of a recovery, by the proposer. -/
structure Proposes (p : NoteEntry T) (id : Uint 256) (r : RecoveryRequest) : Prop where
  call : p.input.call = .proposeRecovery r.kind r.from_ r.to_ r.amount r.reasonHash
  id : p.state.nextRecoveryId = id
  sender : p.input.env.sender = r.proposer
  role : p.state.recoveryProposer = r.proposer
  executeAfter : r.executeAfter =
    BitVec.ofNat 40 (p.input.env.timestamp + GatedRwaNote.MIN_RECOVERY_DELAY)

/-- The approval of a recovery, by the approver, who is not its proposer. -/
structure Approves (q : NoteEntry T) (id : Uint 256) (r : RecoveryRequest) : Prop where
  call : q.input.call = .approveRecovery id
  sender : q.input.env.sender = r.approver
  role : q.state.recoveryApprover = r.approver
  other : r.approver ≠ r.proposer

/-- Approving and executing leave the proposal. -/
theorem Proposes.mark {p : NoteEntry T} {id : Uint 256} {r : RecoveryRequest} (h : p.Proposes id r)
    (approver : Address) (executed : Bool) :
    p.Proposes id { r with approver := approver, executed := executed } :=
  ⟨h.call, h.id, h.sender, h.role, h.executeAfter⟩

end NoteEntry

/-- What the history says about the recovery stored under an id. -/
structure RecoverySlot (log : List (NoteEntry T)) (s : GatedRwaNote T) (id : Uint 256)
    (r : RecoveryRequest) : Prop where
  empty : r.proposer = 0 → r.approver = 0 ∧ r.executed = false
  proposer : r.proposer ≠ 0 → r.proposer = s.recoveryProposer
  approver : r.approver ≠ 0 → r.approver = s.recoveryApprover
  owned : r.proposer ≠ 0 → ∃ p ∈ log, p.Proposes id r
  approved : r.approver ≠ 0 → ∃ p q, [p, q].Sublist log ∧ p.Proposes id r ∧ q.Approves id r
  executions : log.countP (NoteEntry.executesId id) = if r.executed then 1 else 0

namespace RecoverySlot

variable {log : List (NoteEntry T)} {s s' : GatedRwaNote T} {id : Uint 256} {r : RecoveryRequest}
  {x : NoteEntry T}

/-- **Every fact about a recovery survives a call about something else.** -/
theorem keep (h : RecoverySlot log s id r) (hexecutes : x.executesId id = false)
    (hproposer : s.recoveryProposer ≠ 0 → s'.recoveryProposer = s.recoveryProposer)
    (happrover : s.recoveryApprover ≠ 0 → s'.recoveryApprover = s.recoveryApprover) :
    RecoverySlot (log ++ [x]) s' id r := by
  have hsub : log.Sublist (log ++ [x]) := List.sublist_append_left _ _
  constructor
  case empty => exact h.empty
  case proposer =>
    intro hne
    have hold := h.proposer hne
    rw [hproposer (hold ▸ hne), hold]
  case approver =>
    intro hne
    have hold := h.approver hne
    rw [happrover (hold ▸ hne), hold]
  case owned =>
    intro hne
    obtain ⟨p, hp, hproposal⟩ := h.owned hne
    exact ⟨p, hsub.subset hp, hproposal⟩
  case approved =>
    intro hne
    obtain ⟨p, q, hlog, htrail⟩ := h.approved hne
    exact ⟨p, q, hlog.trans hsub, htrail⟩
  case executions => rw [List.countP_append, List.countP_singleton, hexecutes, h.executions]; simp

/-- A new proposal. -/
theorem propose (h : RecoverySlot log s id r) (hempty : r.proposer = 0) {r' : RecoveryRequest}
    (hproposal : x.Proposes id r') (happrover : r'.approver = 0) (hexecuted : r'.executed = false)
    (hproposer : r'.proposer ≠ 0) (hrole : s'.recoveryProposer = r'.proposer) :
    RecoverySlot (log ++ [x]) s' id r' := by
  constructor
  case empty => exact fun hzero ↦ absurd hzero hproposer
  case proposer => exact fun _ ↦ hrole.symm
  case approver => exact fun hne ↦ absurd happrover hne
  case owned => exact fun _ ↦ ⟨x, by simp, hproposal⟩
  case approved => exact fun hne ↦ absurd happrover hne
  case executions =>
    have hx : x.executesId id = false := by simp [NoteEntry.executesId, hproposal.call]
    rw [List.countP_append, List.countP_singleton, hx, h.executions, (h.empty hempty).2, hexecuted]
    simp

/-- An approval. -/
theorem approve (h : RecoverySlot log s id r) (hproposer : r.proposer ≠ 0) {approver : Address}
    (happroval : x.Approves id { r with approver := approver })
    (hrole : s'.recoveryApprover = approver) (hsame : s'.recoveryProposer = s.recoveryProposer) :
    RecoverySlot (log ++ [x]) s' id { r with approver := approver } := by
  obtain ⟨p, hp, hproposal⟩ := h.owned hproposer
  have hmarked : p.Proposes id { r with approver := approver } := hproposal.mark approver r.executed
  constructor
  case empty => exact fun hzero ↦ absurd hzero hproposer
  case proposer => exact fun hne ↦ (h.proposer hne).trans hsame.symm
  case approver => exact fun _ ↦ hrole.symm
  case owned => exact fun _ ↦ ⟨p, List.mem_append_left _ hp, hmarked⟩
  case approved =>
    exact fun _ ↦ ⟨p, x, (List.singleton_sublist.2 hp).append (List.Sublist.refl [x]), hmarked,
      happroval⟩
  case executions =>
    have hx : x.executesId id = false := by simp [NoteEntry.executesId, happroval.call]
    rw [List.countP_append, List.countP_singleton, hx, h.executions]
    simp

/-- An execution. -/
theorem execute (h : RecoverySlot log s id r) (hproposer : r.proposer ≠ 0)
    (happrover : r.approver ≠ 0) (hunexecuted : r.executed = false)
    (hcall : x.input.call = .executeRecovery id)
    (hsame : s'.recoveryProposer = s.recoveryProposer)
    (hsame' : s'.recoveryApprover = s.recoveryApprover) :
    RecoverySlot (log ++ [x]) s' id { r with executed := true } := by
  obtain ⟨p, q, hpq, hproposal, happroval⟩ := h.approved happrover
  have hmarked : p.Proposes id { r with executed := true } := hproposal.mark r.approver true
  constructor
  case empty => exact fun hzero ↦ absurd hzero hproposer
  case proposer => exact fun hne ↦ (h.proposer hne).trans hsame.symm
  case approver => exact fun hne ↦ (h.approver hne).trans hsame'.symm
  case owned =>
    exact fun _ ↦ ⟨p, List.mem_append_left _ (hpq.subset List.mem_cons_self), hmarked⟩
  case approved =>
    exact fun _ ↦ ⟨p, q, hpq.trans (List.sublist_append_left _ _), hmarked,
      ⟨happroval.call, happroval.sender, happroval.role, happroval.other⟩⟩
  case executions =>
    have hx : x.executesId id = true := by simp [NoteEntry.executesId, hcall]
    rw [List.countP_append, List.countP_singleton, hx, h.executions, hunexecuted]
    simp

end RecoverySlot

/-! ### Along a run -/

/-- What the history of a run says about the note. -/
structure NoteTrail (policyId : Uint 256) (log : List (NoteEntry T)) (s : GatedRwaNote T) :
    Prop where
  policy : s.POLICY_ID = policyId
  bypass : s.complianceBypass = false
  unset : s.recoveryProposer = 0 → s.recoveryApprover = 0
  distinct : s.recoveryProposer ≠ 0 → s.recoveryApprover ≠ s.recoveryProposer
  id_lt : ∀ id, (s.recoveryRequests id).proposer ≠ 0 → id < s.nextRecoveryId
  slots : ∀ id, RecoverySlot log s id (s.recoveryRequests id)

namespace NoteTrail

open GatedRwaNote

variable {policyId : Uint 256} {log : List (NoteEntry T)} {s s' : GatedRwaNote T} {x : NoteEntry T}

theorem not_executesId {id : Uint 256} (h : x.input.call ≠ .executeRecovery id) :
    x.executesId id = false := by
  simpa [NoteEntry.executesId] using h

/-- **Every effect keeps the trail.** -/
theorem concat (h : NoteTrail policyId log s) (hstate : x.state = s)
    (heffect : Effect s x.input.env x.input.call s') : NoteTrail policyId (log ++ [x]) s' := by
  generalize hcall : x.input.call = call at heffect
  cases heffect with
  | token hother ownable base flow =>
    refine ⟨h.policy, h.bypass, h.unset, h.distinct, h.id_lt, fun id ↦ ?_⟩
    refine (h.slots id).keep (not_executesId fun hx ↦ ?_) (fun _ ↦ rfl) (fun _ ↦ rfl)
    rw [hcall] at hx
    simp [hx, Call.recovers] at hother
  | configured proposer approver hnone hproposer happrover hne =>
    refine ⟨h.policy, h.bypass, fun hzero ↦ absurd hzero hproposer, fun _ ↦ hne.symm, h.id_lt,
      fun id ↦ ?_⟩
    exact (h.slots id).keep (not_executesId (by simp [hcall])) (fun hset ↦ absurd hnone hset)
      (fun hset ↦ absurd (h.unset hnone) hset)
  | proposed kind source target amount reasonHash hsender hsource hamount hid =>
    have hproposer : x.input.env.sender ≠ 0 := x.input.env.sender_ne_zero
    have hlt : s.nextRecoveryId < s.nextRecoveryId + 1 := counter_lt_next hid
    refine ⟨h.policy, h.bypass, h.unset, h.distinct, fun id hne ↦ ?_, fun id ↦ ?_⟩
    · rcases eq_or_ne id s.nextRecoveryId with rfl | hother
      · exact hlt
      · rw [show (s.addRecovery _).recoveryRequests id = _ from setRecovery_of_ne hother] at hne
        exact (h.id_lt id hne).trans hlt
    · rcases eq_or_ne id s.nextRecoveryId with rfl | hother
      · rw [show (s.addRecovery _).recoveryRequests _ = _ from setRecovery_self ..]
        have hempty : (s.recoveryRequests s.nextRecoveryId).proposer = 0 := by
          by_contra hne
          exact lt_irrefl _ (h.id_lt _ hne)
        have hproposal : x.Proposes s.nextRecoveryId
            (proposal x.input.env kind source target amount reasonHash) :=
          ⟨hcall, by rw [hstate], rfl, by rw [hstate]; exact hsender.symm, rfl⟩
        exact (h.slots _).propose hempty hproposal rfl rfl hproposer hsender.symm
      · rw [show (s.addRecovery _).recoveryRequests id = _ from setRecovery_of_ne hother]
        exact (h.slots id).keep (not_executesId (by simp [hcall])) (fun _ ↦ rfl) (fun _ ↦ rfl)
  | approved id hsender hproposer happrover hexecuted =>
    refine ⟨h.policy, h.bypass, h.unset, h.distinct, fun id' hne ↦ ?_, fun id' ↦ ?_⟩
    · rcases eq_or_ne id' id with rfl | hother
      · exact h.id_lt _ hproposer
      · rw [setRecovery_of_ne hother] at hne
        exact h.id_lt id' hne
    · rcases eq_or_ne id' id with rfl | hother
      · rw [setRecovery_self]
        have hrole := (h.slots id').proposer hproposer
        have happroval : x.Approves id'
            { s.recoveryRequests id' with approver := x.input.env.sender } := by
          refine ⟨hcall, rfl, by rw [hstate]; exact hsender.symm, ?_⟩
          show x.input.env.sender ≠ (s.recoveryRequests id').proposer
          rw [hsender, hrole]
          exact h.distinct (hrole ▸ hproposer)
        exact (h.slots id').approve hproposer happroval hsender.symm rfl
      · rw [setRecovery_of_ne hother]
        exact (h.slots id').keep (not_executesId (by simp [hcall])) (fun _ ↦ rfl) (fun _ ↦ rfl)
  | executed id base hexecutable =>
    refine ⟨h.policy, rfl, h.unset, h.distinct, fun id' hne ↦ ?_, fun id' ↦ ?_⟩
    · rcases eq_or_ne id' id with rfl | hother
      · exact h.id_lt _ hexecutable.proposed
      · rw [show (s.recover id base).recoveryRequests id' = _ from setRecovery_of_ne hother] at hne
        exact h.id_lt id' hne
    · rcases eq_or_ne id' id with rfl | hother
      · rw [show (s.recover id' base).recoveryRequests id' = _ from setRecovery_self ..]
        exact (h.slots id').execute hexecutable.proposed hexecutable.approved
          hexecutable.unexecuted hcall rfl rfl
      · rw [show (s.recover id base).recoveryRequests id' = _ from setRecovery_of_ne hother]
        refine (h.slots id').keep (not_executesId ?_) (fun _ ↦ rfl) (fun _ ↦ rfl)
        rw [hcall]
        exact fun heq ↦ hother (Call.executeRecovery.inj heq).symm

end NoteTrail

/-- **The trail of every run.** -/
theorem noteTrail_history {view : GatedRwaNote.RegistryView} {base : T.Storage}
    {registry owner : Address} {policyId : Uint 256} {s₀ : GatedRwaNote T}
    (hs₀ : GatedRwaNote.construct view base registry policyId owner = .ok s₀)
    (calls : List NoteCall) : NoteTrail policyId (history GatedRwaNote.step s₀ calls)
      (run GatedRwaNote.step s₀ calls) := by
  refine history_rule ?_ (fun log s x s' h hstep ↦ ?_) calls
  · obtain ⟨o, -, hs₀⟩ := bind_eq_ok.1 hs₀
    simp only [revertIf_bind_eq_ok] at hs₀
    obtain ⟨-, hs₀⟩ := hs₀
    obtain ⟨frozen, -, hs₀⟩ := bind_eq_ok.1 hs₀
    obtain ⟨-, hs₀⟩ := revertIf_bind_eq_ok.1 hs₀
    obtain ⟨version, -, hs₀⟩ := bind_eq_ok.1 hs₀
    obtain ⟨-, hs₀⟩ := revertIf_bind_eq_ok.1 hs₀
    obtain ⟨requires, -, hs₀⟩ := bind_eq_ok.1 hs₀
    obtain ⟨-, hs₀⟩ := revertIf_bind_eq_ok.1 hs₀
    obtain rfl := Except.ok.inj hs₀
    refine ⟨rfl, rfl, fun _ ↦ rfl, fun hne ↦ absurd rfl hne, fun id hne ↦ absurd rfl hne, fun id ↦ ?_⟩
    constructor <;> simp [RecoveryRequest.zero]
  · obtain ⟨⟨s'', events⟩, hexec, rfl⟩ := map_eq_ok.1 hstep
    exact h.concat rfl (GatedRwaNote.exec_effect hexec)

/-! ### The law of the asset -/

/-- What a call may do to the asset after a history: who gains is verified; who loses without being
verified loses to one recovery that names the account and the amount, was proposed and approved by
the two roles and waited its delay; a recovery changes balances once; one that fails can be tried
again; and the bypass is off before and after. -/
structure Conserved (policyId : Uint 256) (log : List (NoteEntry T)) (s : GatedRwaNote T)
    (x : NoteCall) (s' : GatedRwaNote T) : Prop where
  gain : ∀ a, a ≠ 0 → s.balanceOf a < s'.balanceOf a → x.env.isVerified a policyId = some true
  loss : ∀ a, a ≠ 0 → s'.balanceOf a < s.balanceOf a → x.env.isVerified a policyId ≠ some true →
    ∃ id r, x.call = .executeRecovery id ∧ s.recoveryRequests id = r ∧ r.from_ = a ∧
      s.balanceOf a = s'.balanceOf a + r.amount.toNat ∧ r.proposer = s.recoveryProposer ∧
      r.approver = s.recoveryApprover ∧ r.approver ≠ r.proposer ∧
      ∃ p q, [p, q].Sublist log ∧ p.Proposes id r ∧ q.Approves id r ∧
        p.input.env.timestamp + GatedRwaNote.MIN_RECOVERY_DELAY ≤ x.env.timestamp
  once : ∀ id, x.call = .executeRecovery id → (∃ a, s'.balanceOf a ≠ s.balanceOf a) →
    ∀ y ∈ log, y.input.call ≠ .executeRecovery id
  retry : ∀ id e, x.call = .executeRecovery id → s.exec x.env x.call = .error e → s' = s ∧
    ∀ env, (∃ result, s'.exec env (.executeRecovery id) = .ok result) ↔
      ∃ base, s.Executable env id base
  bypass : s.complianceBypass = false ∧ s'.complianceBypass = false

namespace NoteTrail

open GatedRwaNote

variable {policyId : Uint 256} {log : List (NoteEntry T)} {s s' : GatedRwaNote T} {x : NoteCall}

/-- Who gains in a call that went through. -/
theorem gain (hT : T.Lawful) (h : NoteTrail policyId log s) (heffect : Effect s x.env x.call s')
    {a : Address} (ha : a ≠ 0) (hlt : s.balanceOf a < s'.balanceOf a) :
    x.env.isVerified a policyId = some true := by
  rw [← h.policy]
  generalize x.call = call at heffect
  cases heffect with
  | token _ _ base flow =>
    rcases flow with rfl | ⟨entry, flow⟩
    · exact absurd hlt (lt_irrefl _)
    · exact flow.gain hT ha hlt
  | executed id base hexecutable => exact hexecutable.flow.gain hT ha hlt
  | configured | proposed | approved => exact absurd hlt (lt_irrefl _)

/-- Who loses in a call that went through without being verified. -/
theorem loss (hT : T.Lawful) (h : NoteTrail policyId log s) (heffect : Effect s x.env x.call s')
    {a : Address} (ha : a ≠ 0) (hlt : s'.balanceOf a < s.balanceOf a)
    (hunverified : x.env.isVerified a policyId ≠ some true) :
    ∃ id base, x.call = .executeRecovery id ∧ s.Executable x.env id base ∧
      a = (s.recoveryRequests id).from_ ∧
      s.balanceOf a = s'.balanceOf a + (s.recoveryRequests id).amount.toNat := by
  rw [← h.policy] at hunverified
  generalize hcall : x.call = call at heffect
  cases heffect with
  | token _ _ base flow =>
    rcases flow with rfl | ⟨entry, flow⟩
    · exact absurd hlt (lt_irrefl _)
    · rw [h.bypass] at flow
      exact absurd (flow.loss hT ha hlt) hunverified
  | executed id base hexecutable =>
    obtain ⟨hfrom, hamount⟩ := hexecutable.flow.recovered hT ha hlt
    exact ⟨id, base, rfl, hexecutable, hfrom, hamount⟩
  | configured | proposed | approved => exact absurd hlt (lt_irrefl _)

/-- What is still to be executed was not executed. -/
theorem unexecuted (h : NoteTrail policyId log s) {id : Uint 256}
    (hfalse : (s.recoveryRequests id).executed = false) :
    ∀ y ∈ log, y.input.call ≠ .executeRecovery id := by
  have hzero := (h.slots id).executions
  rw [if_neg (by simp [hfalse]), List.countP_eq_zero] at hzero
  intro y hy hcall
  exact hzero y hy (by simp [NoteEntry.executesId, hcall])

/-- **One call of a run keeps the law**, when the recoveries were proposed before the last hour that
40 bits count. -/
theorem conserved (hT : T.Lawful) (h : NoteTrail policyId log s)
    (hearly : ∀ p ∈ log, ∀ kind source target amount reasonHash,
      p.input.call = .proposeRecovery kind source target amount reasonHash →
      p.input.env.timestamp + MIN_RECOVERY_DELAY < 2 ^ 40) :
    Conserved policyId log s x (transact step s x) := by
  rcases hstep : step s x with e | s'
  · -- a reverted call is no call
    have hsame : transact step s x = s := transact_of_error hstep
    rw [hsame]
    refine ⟨fun a _ hlt ↦ absurd hlt (lt_irrefl _), fun a _ hlt ↦ absurd hlt (lt_irrefl _),
      fun id _ ⟨a, hne⟩ ↦ absurd rfl hne, fun id e _ _ ↦ ⟨rfl, fun env ↦ ?_⟩, h.bypass, h.bypass⟩
    constructor
    · rintro ⟨⟨s₁, events⟩, hok⟩
      obtain ⟨base, hexecutable, -⟩ := executeRecovery_eq_ok.1 ⟨events, hok⟩
      exact ⟨base, hexecutable⟩
    · rintro ⟨base, hexecutable⟩
      obtain ⟨events, hok⟩ := executeRecovery_eq_ok.2 ⟨base, hexecutable, rfl⟩
      exact ⟨_, hok⟩
  · rw [transact_of_ok hstep]
    obtain ⟨⟨s'', events⟩, hexec, rfl⟩ := map_eq_ok.1 hstep
    have heffect := exec_effect hexec
    refine ⟨fun a ha hlt ↦ h.gain hT heffect ha hlt, fun a ha hlt hunverified ↦ ?_,
      fun id hcall hchanged ↦ ?_, fun id e _ herror ↦ ?_,
      h.bypass, (h.concat rfl heffect (x := ⟨s, x⟩)).bypass⟩
    · obtain ⟨id, base, hcall, hexecutable, hfrom, hamount⟩ :=
        h.loss hT heffect ha hlt hunverified
      obtain ⟨p, q, hpq, hp, hq⟩ := (h.slots id).approved hexecutable.approved
      refine ⟨id, _, hcall, rfl, hfrom.symm, hamount, (h.slots id).proposer hexecutable.proposed,
        (h.slots id).approver hexecutable.approved, hq.other, p, q, hpq, hp, hq, ?_⟩
      have hdue := hexecutable.due
      have hfits := hearly p (hpq.subset List.mem_cons_self) _ _ _ _ _ hp.call
      rwa [hp.executeAfter, BitVec.toNat_ofNat, Nat.mod_eq_of_lt hfits] at hdue
    · rw [hcall] at hexec
      obtain ⟨base, hexecutable, -⟩ := executeRecovery_eq_ok.1 ⟨events, hexec⟩
      exact h.unexecuted hexecutable.unexecuted
    · rw [hexec] at herror
      exact absurd herror (by simp)

end NoteTrail

/-- **The law of the asset.** After every run in which recoveries are proposed while the end of their
delay fits in 40 bits, every call keeps the law, whatever the registry answers. -/
theorem conserved_run (hT : T.Lawful) {view : GatedRwaNote.RegistryView} {base : T.Storage}
    {registry owner : Address} {policyId : Uint 256} {s₀ : GatedRwaNote T}
    (hs₀ : GatedRwaNote.construct view base registry policyId owner = .ok s₀)
    (calls : List NoteCall) (hearly : ∀ y ∈ calls, ∀ kind source target amount reasonHash,
      y.call = .proposeRecovery kind source target amount reasonHash →
      y.env.timestamp + GatedRwaNote.MIN_RECOVERY_DELAY < 2 ^ 40) (x : NoteCall) :
    Conserved policyId (history GatedRwaNote.step s₀ calls) (run GatedRwaNote.step s₀ calls) x
      (transact GatedRwaNote.step (run GatedRwaNote.step s₀ calls) x) := by
  refine (noteTrail_history hs₀ calls).conserved hT fun p hp ↦ hearly p.input ?_
  have haccepted : p.input ∈ accepted GatedRwaNote.step s₀ calls := by
    rw [← map_input_history]
    exact List.mem_map_of_mem hp
  exact accepted_subset haccepted

/-! ### A token -/

/-- The storage of a token. -/
structure TokenStorage where
  balances : Address → Uint 256
  allowances : Address → Address → Uint 256
  totalSupply : Uint 256

namespace TokenStorage

/-- The first half of `ERC20._update`. -/
def debit (b : TokenStorage) (account : Address) (value : Uint 256) : Option TokenStorage :=
  if account = 0 then
    if b.totalSupply.toNat + value.toNat < 2 ^ 256 then
      some { b with totalSupply := b.totalSupply + value }
    else none
  else if value ≤ b.balances account then
    some { b with balances := Function.update b.balances account (b.balances account - value) }
  else none

/-- The second half. A balance past 256 bits, which the total supply excludes, reverts here. -/
def credit (b : TokenStorage) (account : Address) (value : Uint 256) : Option TokenStorage :=
  if account = 0 then some { b with totalSupply := b.totalSupply - value }
  else if (b.balances account).toNat + value.toNat < 2 ^ 256 then
    some { b with balances := Function.update b.balances account (b.balances account + value) }
  else none

/-- `_spendAllowance`. -/
def spendAllowance (b : TokenStorage) (owner spender : Address) (value : Uint 256) :
    Option TokenStorage :=
  if b.allowances owner spender = BitVec.allOnes 256 then some b
  else if value ≤ b.allowances owner spender then
    some { b with allowances := set2 b.allowances owner spender (b.allowances owner spender - value) }
  else none

/-- What each function does before `_update`. -/
def route : TokenEntry → TokenStorage → Option (TokenStorage × Option Movement)
  | .mint account value, b => if account = 0 then none else some (b, some ⟨0, account, value⟩)
  | .burn account value, b => if account = 0 then none else some (b, some ⟨account, 0, value⟩)
  | .move source target value, b | .transfer source target value, b =>
    if source = 0 ∨ target = 0 then none else some (b, some ⟨source, target, value⟩)
  | .transferFrom spender source target value, b =>
    (b.spendAllowance source spender value).bind fun b ↦
      if source = 0 ∨ target = 0 then none else some (b, some ⟨source, target, value⟩)
  | .approve owner spender value, b =>
    if owner = 0 ∨ spender = 0 then none
    else some ({ b with allowances := set2 b.allowances owner spender value }, none)

theorem debit_balance {b b' : TokenStorage} {account a : Address} {value : Uint 256}
    (h : b.debit account value = some b') (ha : a ≠ 0) :
    (b'.balances a).toNat + (if a = account then value.toNat else 0) = (b.balances a).toNat := by
  rw [debit] at h
  split_ifs at h with hzero hfits hle
  · obtain rfl := Option.some.inj h
    rw [if_neg (hzero ▸ ha)]
    rfl
  · obtain rfl := Option.some.inj h
    rcases eq_or_ne a account with rfl | hne
    · have hsub : (b.balances a - value).toNat = (b.balances a).toNat - value.toNat :=
        BitVec.toNat_sub_of_le hle
      rw [BitVec.le_def] at hle
      simp only [Function.update_self, if_pos, hsub]
      omega
    · simp [hne]

theorem credit_balance {b b' : TokenStorage} {account a : Address} {value : Uint 256}
    (h : b.credit account value = some b') (ha : a ≠ 0) :
    (b'.balances a).toNat = (b.balances a).toNat + (if a = account then value.toNat else 0) := by
  rw [credit] at h
  split_ifs at h with hzero hfits
  · obtain rfl := Option.some.inj h
    rw [if_neg (hzero ▸ ha)]
    rfl
  · obtain rfl := Option.some.inj h
    rcases eq_or_ne a account with rfl | hne
    · simp only [Function.update_self, if_pos, BitVec.toNat_add]
      exact Nat.mod_eq_of_lt hfits
    · simp [hne]

theorem spendAllowance_balances {b b' : TokenStorage} {owner spender : Address}
    {value : Uint 256} (h : b.spendAllowance owner spender value = some b') :
    b'.balances = b.balances := by
  rw [spendAllowance] at h
  split_ifs at h <;> obtain rfl := Option.some.inj h <;> rfl

end TokenStorage

/-- A token with the functions of `ERC20`. -/
def sampleToken : Erc20 where
  Storage := TokenStorage
  balanceOf := TokenStorage.balances
  route := TokenStorage.route
  superUpdate b m := (b.debit m.from_ m.value).bind fun b ↦ b.credit m.to_ m.value

theorem sampleToken_lawful : sampleToken.Lawful where
  route_balance entry b b' m h := by
    show b'.balances = b.balances
    replace h : TokenStorage.route entry b = some (b', m) := h
    cases entry with
    | transferFrom spender source target value =>
      obtain ⟨b₁, hspend, h⟩ := Option.bind_eq_some_iff.1 h
      split_ifs at h
      obtain ⟨rfl, -⟩ := Prod.mk.inj (Option.some.inj h)
      exact TokenStorage.spendAllowance_balances hspend
    | mint | burn | move | transfer | approve =>
      simp only [TokenStorage.route] at h
      split_ifs at h
      obtain ⟨rfl, -⟩ := Prod.mk.inj (Option.some.inj h)
      rfl
  route_burn account value b b' m h := by
    replace h : TokenStorage.route (.burn account value) b = some (b', m) := h
    simp only [TokenStorage.route] at h
    split_ifs at h
    exact (Prod.mk.inj (Option.some.inj h)).2.symm
  route_move source target value b b' m h := by
    replace h : TokenStorage.route (.move source target value) b = some (b', m) := h
    simp only [TokenStorage.route] at h
    split_ifs at h
    exact (Prod.mk.inj (Option.some.inj h)).2.symm
  update_balance b m b' h a ha := by
    obtain ⟨b₁, hdebit, hcredit⟩ := Option.bind_eq_some_iff.1 h
    have hloss := TokenStorage.debit_balance hdebit ha
    have hgain := TokenStorage.credit_balance hcredit ha
    show (b'.balances a).toNat + _ = (b.balances a).toNat + _
    rw [hgain, ← hloss]
    omega

/-- A registry to which everyone but `0xBAD` is verified. -/
def sampleRegistry (account : Address) (_ : Uint 256) : Option Bool :=
  some (account != 0xBAD)

/-- The note over the token, as deployed. -/
def sampleNote : GatedRwaNote sampleToken where
  base := ⟨fun _ ↦ 0, fun _ _ ↦ 0, 0⟩
  ownable := ⟨1, 0⟩
  POLICY_ID := 7
  complianceBypass := false
  recoveryProposer := 0
  recoveryApprover := 0
  nextRecoveryId := 1
  recoveryRequests _ := RecoveryRequest.zero

theorem construct_sampleNote : GatedRwaNote.construct
    ⟨fun _ ↦ some true, fun _ ↦ some true, some 1⟩ sampleNote.base 0x4E6 7 1 = .ok sampleNote :=
  rfl

/-- An account gets 100 units and loses its verification; then a governed recovery of 60 units up to
its execution. -/
def sampleRecovery (proposed : ℕ) : List NoteCall :=
  let env (sender : Address) (h : sender ≠ 0) : NoteEnv := ⟨proposed, sender, h, sampleRegistry⟩
  [⟨⟨proposed, 1, by decide, fun _ _ ↦ some true⟩, .mint 0xBAD 100⟩,
    ⟨env 1 (by decide), .configureRecoveryGovernance 0xA 0xB⟩,
    ⟨env 0xA (by decide), .proposeRecovery .Transfer 0xBAD 0xCAFE 60 9⟩,
    ⟨env 0xB (by decide), .approveRecovery 1⟩]

def sampleExecution (executed : ℕ) : NoteCall :=
  ⟨⟨executed, 0xF00D, by decide, sampleRegistry⟩, .executeRecovery 1⟩

/-- The sample obeys the law, and takes 60 units of the account that is not verified. -/
theorem conserved_sampleRecovery :
    Conserved 7 (history GatedRwaNote.step sampleNote (sampleRecovery 1700000000))
      (run GatedRwaNote.step sampleNote (sampleRecovery 1700000000)) (sampleExecution 1700003600)
      (transact GatedRwaNote.step
        (run GatedRwaNote.step sampleNote (sampleRecovery 1700000000))
        (sampleExecution 1700003600)) ∧
    (transact GatedRwaNote.step (run GatedRwaNote.step sampleNote (sampleRecovery 1700000000))
      (sampleExecution 1700003600)).balanceOf 0xBAD = 40 := by
  refine ⟨conserved_run sampleToken_lawful construct_sampleNote (sampleRecovery 1700000000) ?_
    (sampleExecution 1700003600), by decide +kernel⟩
  simp [sampleRecovery, GatedRwaNote.MIN_RECOVERY_DELAY]

/-- Half an hour before time needs more than 40 bits, a recovery is proposed, approved and executed
at one time. -/
theorem not_conserved_late :
    ¬Conserved 7 (history GatedRwaNote.step sampleNote (sampleRecovery (2 ^ 40 - 1800)))
      (run GatedRwaNote.step sampleNote (sampleRecovery (2 ^ 40 - 1800)))
      (sampleExecution (2 ^ 40 - 1800))
      (transact GatedRwaNote.step
        (run GatedRwaNote.step sampleNote (sampleRecovery (2 ^ 40 - 1800)))
        (sampleExecution (2 ^ 40 - 1800))) := by
  intro h
  have hloses : (transact GatedRwaNote.step
      (run GatedRwaNote.step sampleNote (sampleRecovery (2 ^ 40 - 1800)))
      (sampleExecution (2 ^ 40 - 1800))).balanceOf 0xBAD <
    (run GatedRwaNote.step sampleNote (sampleRecovery (2 ^ 40 - 1800))).balanceOf 0xBAD := by
    decide +kernel
  obtain ⟨id, r, -, -, -, -, -, -, -, p, q, hpq, -, -, hdelay⟩ :=
    h.loss 0xBAD (by decide) hloses (by decide)
  have hsame : (history GatedRwaNote.step sampleNote (sampleRecovery (2 ^ 40 - 1800))).all
      (fun y ↦ y.input.env.timestamp == 2 ^ 40 - 1800) = true := by decide +kernel
  have htime := beq_iff_eq.1 (List.all_eq_true.1 hsame p (hpq.subset List.mem_cons_self))
  rw [htime, GatedRwaNote.MIN_RECOVERY_DELAY] at hdelay
  exact absurd hdelay (by decide)

end Proofmark
