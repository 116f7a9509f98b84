import Proofmark.Evm.Execution
import Proofmark.Evm.Keccak

/-!
# The gate of the eligibility statement

`ZkKycPolicyGate.sol`. An authority anchors roots under growing epochs and may revoke them; anybody
presents a proof with its public signals, and a presentation that goes through consumes its
nullifier. What decides about a presentation is the record of one root and the current epoch, so
the invariant (`Kept`) reads both off the history of the calls that went through: the record of a
root is its last anchoring together with the revocations since (`LastAnchored`), and the epochs of
all anchorings ascend up to the current one.

A word of the public signals is compared with a narrower field on the numbers they are, as the
compiler widens the field.
-/

open Evm

namespace Proofmark

def SNARK_SCALAR_FIELD : ℕ :=
  21888242871839275222246405745257275088548364400416034343698204186575808495617

/-! ### Signals and records -/

/-- The proof as the verifier takes it. -/
structure Groth16Proof where
  a : Fin 2 → Uint 256
  b : Fin 2 → Fin 2 → Uint 256
  c : Fin 2 → Uint 256

/-- `uint256[10] publicSignals`. -/
abbrev PublicSignals := Fin 10 → Uint 256

def NULLIFIER_INDEX : Fin 10 := 0
def ROOT_INDEX : Fin 10 := 1
def POLICY_ID_INDEX : Fin 10 := 2
def COUNTRY_A_INDEX : Fin 10 := 3
def COUNTRY_B_INDEX : Fin 10 := 4
def MAX_BIRTH_DAY_INDEX : Fin 10 := 5
def HOLDER_INDEX : Fin 10 := 6
def APPLICATION_ID_INDEX : Fin 10 := 7
def EPOCH_INDEX : Fin 10 := 8
def DEADLINE_INDEX : Fin 10 := 9

structure RootRecord where
  epoch : Uint 64
  validUntil : Uint 64
  anchored : Bool
  revoked : Bool
  deriving DecidableEq

/-- The value of a mapping slot never written. -/
def RootRecord.zero : RootRecord :=
  ⟨0, 0, false, false⟩

inductive GateError
  | InvalidVerifier
  | InvalidSourceRootAuthority
  | UnauthorizedRootAuthority
  | InvalidRoot
  | InvalidRootLifetime
  | EpochNotIncreasing
  | RootNotAnchored
  | RootRevoked
  | RootStale
  | EpochMismatch
  | PolicyMismatch
  | HolderMismatch
  | ApplicationMismatch
  | ProofExpired
  | DeadlineBeyondRootLifetime
  | NullifierAlreadyUsed
  | InvalidProof
  /-- The verifier reverted or answered no boolean. -/
  | verifier
  deriving DecidableEq

inductive GateEvent
  | RootAnchored (root : Uint 256) (epoch validUntil : Uint 64)
  | RootRevokedEvent (root : Uint 256) (epoch : Uint 64)
  | ProofConsumed (nullifier : Uint 256) (holder : Address) (applicationId : Uint 256)
      (epoch : Uint 64)
  deriving DecidableEq

/-- The storage of the gate. -/
structure GateState where
  currentEpoch : Uint 64
  roots : Uint 256 → RootRecord
  nullifierUsed : Uint 256 → Bool

/-- The storage after the constructor, which writes none of it. -/
def GateState.initial : GateState :=
  ⟨0, fun _ ↦ .zero, fun _ ↦ false⟩

/-- What a call finds around it. The verifier is called statically, so all it can do is answer;
`none` is an answer that reverts. -/
structure GateMessage where
  sender : Address
  timestamp : Uint 256
  chainid : Uint 256
  verifyProof : Groth16Proof → PublicSignals → Option Bool

/-! ### The contract -/

/-- A deployed gate: its address and its immutable fields. -/
structure ZkKycPolicyGate where
  address : Address
  verifier : Address
  sourceRootAuthority : Address
  policyId : Uint 64
  allowedCountryA : Uint 16
  allowedCountryB : Uint 16
  maxBirthDay : Uint 32
  actionDomain : Bytes32
  sourceRootAuthority_ne_zero : sourceRootAuthority ≠ 0

namespace ZkKycPolicyGate

/-- The constructor; `codeLength` is the length of the code at the verifier's address. -/
def construct (address verifier_ sourceRootAuthority_ : Address) (codeLength : ℕ)
    (policyId_ : Uint 64) (allowedCountryA_ allowedCountryB_ : Uint 16) (maxBirthDay_ : Uint 32)
    (actionDomain_ : Bytes32) : Except GateError ZkKycPolicyGate := do
  revertIf (codeLength == 0) .InvalidVerifier
  if h : sourceRootAuthority_ = 0 then
    .error .InvalidSourceRootAuthority
  else
    .ok ⟨address, verifier_, sourceRootAuthority_, policyId_, allowedCountryA_, allowedCountryB_,
      maxBirthDay_, actionDomain_, h⟩

variable (g : ZkKycPolicyGate)

def anchorRoot (m : GateMessage) (root : Uint 256) (epoch validUntil : Uint 64) (s : GateState) :
    Except GateError (GateState × GateEvent) := do
  revertIf (m.sender != g.sourceRootAuthority) .UnauthorizedRootAuthority
  revertIf (root == 0 || decide (SNARK_SCALAR_FIELD ≤ root.toNat)) .InvalidRoot
  revertIf (decide (epoch ≤ s.currentEpoch)) .EpochNotIncreasing
  revertIf (decide (validUntil.toNat ≤ m.timestamp.toNat)) .InvalidRootLifetime
  return ({ s with
    roots := Function.update s.roots root ⟨epoch, validUntil, true, false⟩
    currentEpoch := epoch }, .RootAnchored root epoch validUntil)

def revokeRoot (m : GateMessage) (root : Uint 256) (s : GateState) :
    Except GateError (GateState × GateEvent) := do
  revertIf (m.sender != g.sourceRootAuthority) .UnauthorizedRootAuthority
  let record := s.roots root
  revertIf (!record.anchored) .RootNotAnchored
  return ({ s with roots := Function.update s.roots root { record with revoked := true } },
    .RootRevokedEvent root record.epoch)

/-- `uint256(keccak256(abi.encode(block.chainid, address(this), actionDomain)))`, reduced to a field
element. -/
def expectedApplicationId (m : GateMessage) : Uint 256 :=
  BitVec.ofNat 256 ((keccak256 (abiEncode
    [m.chainid, g.address.setWidth 256, g.actionDomain])).toNat % SNARK_SCALAR_FIELD)

def verifyAndConsume (m : GateMessage) (proof : Groth16Proof) (publicSignals : PublicSignals)
    (s : GateState) : Except GateError (GateState × GateEvent) := do
  let root := publicSignals ROOT_INDEX
  let record := s.roots root
  revertIf (!record.anchored) .RootNotAnchored
  revertIf record.revoked .RootRevoked
  revertIf (decide (record.validUntil.toNat < m.timestamp.toNat)) .RootStale
  revertIf ((publicSignals EPOCH_INDEX).toNat != s.currentEpoch.toNat
    || record.epoch != s.currentEpoch) .EpochMismatch
  revertIf ((publicSignals POLICY_ID_INDEX).toNat != g.policyId.toNat
    || (publicSignals COUNTRY_A_INDEX).toNat != g.allowedCountryA.toNat
    || (publicSignals COUNTRY_B_INDEX).toNat != g.allowedCountryB.toNat
    || (publicSignals MAX_BIRTH_DAY_INDEX).toNat != g.maxBirthDay.toNat) .PolicyMismatch
  revertIf ((publicSignals HOLDER_INDEX).toNat != m.sender.toNat) .HolderMismatch
  let applicationId := g.expectedApplicationId m
  revertIf (publicSignals APPLICATION_ID_INDEX != applicationId) .ApplicationMismatch
  let deadline := publicSignals DEADLINE_INDEX
  revertIf (decide (deadline < m.timestamp)) .ProofExpired
  revertIf (decide (record.validUntil.toNat < deadline.toNat)) .DeadlineBeyondRootLifetime
  let nullifier := publicSignals NULLIFIER_INDEX
  revertIf (s.nullifierUsed nullifier) .NullifierAlreadyUsed
  let accepted ← getOrRevert (m.verifyProof proof publicSignals) .verifier
  revertIf (!accepted) .InvalidProof
  return ({ s with nullifierUsed := Function.update s.nullifierUsed nullifier true },
    .ProofConsumed nullifier m.sender applicationId record.epoch)

end ZkKycPolicyGate

inductive GateCall
  | anchorRoot (root : Uint 256) (epoch validUntil : Uint 64)
  | revokeRoot (root : Uint 256)
  | verifyAndConsume (proof : Groth16Proof) (publicSignals : PublicSignals)

structure GateTx where
  message : GateMessage
  call : GateCall

/-- The calls of a run that went through, each with the storage it found. -/
abbrev GateLog := List (Entry GateState GateTx)

namespace ZkKycPolicyGate

variable (g : ZkKycPolicyGate)

/-- One call. -/
def call (s : GateState) (tx : GateTx) : Except GateError (GateState × GateEvent) :=
  match tx.call with
  | .anchorRoot root epoch validUntil => g.anchorRoot tx.message root epoch validUntil s
  | .revokeRoot root => g.revokeRoot tx.message root s
  | .verifyAndConsume proof publicSignals => g.verifyAndConsume tx.message proof publicSignals s

/-- The storage one call leaves. -/
def exec (s : GateState) (tx : GateTx) : Except GateError GateState :=
  (g.call s tx).map Prod.fst

/-! ### What a call that goes through did -/

variable {g} {m : GateMessage} {s s' : GateState} {event : GateEvent}

theorem anchorRoot_eq_ok {root : Uint 256} {epoch validUntil : Uint 64}
    (h : g.anchorRoot m root epoch validUntil s = .ok (s', event)) :
    m.sender = g.sourceRootAuthority ∧ s.currentEpoch < epoch ∧
      m.timestamp.toNat < validUntil.toNat ∧
      s' = { s with
        roots := Function.update s.roots root ⟨epoch, validUntil, true, false⟩
        currentEpoch := epoch } := by
  simp only [anchorRoot, revertIf_bind_eq_ok, bne_eq_false_iff_eq, decide_eq_false_iff_not,
    not_le] at h
  obtain ⟨hsender, -, hepoch, htime, h⟩ := h
  obtain ⟨rfl, -⟩ := Prod.mk.inj (Except.ok.inj h)
  exact ⟨hsender, hepoch, htime, rfl⟩

theorem revokeRoot_eq_ok {root : Uint 256} (h : g.revokeRoot m root s = .ok (s', event)) :
    m.sender = g.sourceRootAuthority ∧ (s.roots root).anchored = true ∧
      s' = { s with
        roots := Function.update s.roots root { s.roots root with revoked := true } } := by
  simp only [revokeRoot, revertIf_bind_eq_ok, bne_eq_false_iff_eq, Bool.not_eq_false'] at h
  obtain ⟨hsender, hanchored, h⟩ := h
  obtain ⟨rfl, -⟩ := Prod.mk.inj (Except.ok.inj h)
  exact ⟨hsender, hanchored, rfl⟩

/-- What the guards of a presentation ask of the storage, the message and the signals. -/
structure Presentable (g : ZkKycPolicyGate) (s : GateState) (m : GateMessage)
    (proof : Groth16Proof) (publicSignals : PublicSignals) : Prop where
  anchored : (s.roots (publicSignals ROOT_INDEX)).anchored = true
  not_revoked : (s.roots (publicSignals ROOT_INDEX)).revoked = false
  epoch : (publicSignals EPOCH_INDEX).toNat = s.currentEpoch.toNat
  root_epoch : (s.roots (publicSignals ROOT_INDEX)).epoch = s.currentEpoch
  policyId : (publicSignals POLICY_ID_INDEX).toNat = g.policyId.toNat
  countryA : (publicSignals COUNTRY_A_INDEX).toNat = g.allowedCountryA.toNat
  countryB : (publicSignals COUNTRY_B_INDEX).toNat = g.allowedCountryB.toNat
  maxBirthDay : (publicSignals MAX_BIRTH_DAY_INDEX).toNat = g.maxBirthDay.toNat
  holder : (publicSignals HOLDER_INDEX).toNat = m.sender.toNat
  applicationId : publicSignals APPLICATION_ID_INDEX = g.expectedApplicationId m
  not_expired : m.timestamp.toNat ≤ (publicSignals DEADLINE_INDEX).toNat
  deadline_le : (publicSignals DEADLINE_INDEX).toNat ≤
    (s.roots (publicSignals ROOT_INDEX)).validUntil.toNat
  unused : s.nullifierUsed (publicSignals NULLIFIER_INDEX) = false
  verified : m.verifyProof proof publicSignals = some true

theorem verifyAndConsume_eq_ok {proof : Groth16Proof} {publicSignals : PublicSignals}
    (h : g.verifyAndConsume m proof publicSignals s = .ok (s', event)) :
    Presentable g s m proof publicSignals ∧
      s' = { s with
        nullifierUsed :=
          Function.update s.nullifierUsed (publicSignals NULLIFIER_INDEX) true } := by
  simp only [verifyAndConsume, revertIf_bind_eq_ok, Bool.or_eq_false_iff, Bool.not_eq_false',
    bne_eq_false_iff_eq, decide_eq_false_iff_not, not_lt] at h
  obtain ⟨hanchored, hrevoked, -, ⟨hepoch, hroot⟩, ⟨⟨⟨hpolicy, hA⟩, hB⟩, hbirth⟩, hholder, happ,
    hexpired, hdeadline, hunused, h⟩ := h
  obtain ⟨accepted, hanswer, h⟩ := bind_eq_ok.1 h
  obtain ⟨haccepted, h⟩ := revertIf_bind_eq_ok.1 h
  have hverified : m.verifyProof proof publicSignals = some true := by
    rw [getOrRevert_eq_ok.1 hanswer]
    simpa using haccepted
  obtain ⟨rfl, -⟩ := Prod.mk.inj (Except.ok.inj h)
  exact ⟨⟨hanchored, hrevoked, hepoch, hroot, hpolicy, hA, hB, hbirth, hholder, happ,
    BitVec.le_def.1 hexpired, hdeadline, hunused, hverified⟩, rfl⟩

/-- The guards are exactly what a presentation needs. -/
theorem exists_verifyAndConsume_iff {proof : Groth16Proof} {publicSignals : PublicSignals} :
    (∃ result, g.verifyAndConsume m proof publicSignals s = .ok result) ↔
      Presentable g s m proof publicSignals := by
  constructor
  · rintro ⟨⟨s', event⟩, h⟩
    exact (verifyAndConsume_eq_ok h).1
  · intro h
    refine ⟨({ s with
      nullifierUsed := Function.update s.nullifierUsed (publicSignals NULLIFIER_INDEX) true },
      .ProofConsumed (publicSignals NULLIFIER_INDEX) m.sender (g.expectedApplicationId m)
        (s.roots (publicSignals ROOT_INDEX)).epoch), ?_⟩
    simp only [verifyAndConsume, revertIf_bind_eq_ok, Bool.or_eq_false_iff, Bool.not_eq_false',
      bne_eq_false_iff_eq, decide_eq_false_iff_not, not_lt]
    refine ⟨h.anchored, h.not_revoked, h.not_expired.trans h.deadline_le, ⟨h.epoch, h.root_epoch⟩,
      ⟨⟨⟨h.policyId, h.countryA⟩, h.countryB⟩, h.maxBirthDay⟩, h.holder, h.applicationId,
      BitVec.le_def.2 h.not_expired, h.deadline_le, h.unused, ?_⟩
    rw [h.verified]
    rfl

/-- **What one call can do**, guards included. -/
theorem exec_cases {tx : GateTx} (h : g.exec s tx = .ok s') :
    (∃ root epoch validUntil, tx.call = .anchorRoot root epoch validUntil ∧
      s.currentEpoch < epoch ∧ s' = { s with
        roots := Function.update s.roots root ⟨epoch, validUntil, true, false⟩
        currentEpoch := epoch }) ∨
    (∃ root, tx.call = .revokeRoot root ∧ (s.roots root).anchored = true ∧ s' = { s with
        roots := Function.update s.roots root { s.roots root with revoked := true } }) ∨
    (∃ proof publicSignals, tx.call = .verifyAndConsume proof publicSignals ∧
      Presentable g s tx.message proof publicSignals ∧ s' = { s with
        nullifierUsed :=
          Function.update s.nullifierUsed (publicSignals NULLIFIER_INDEX) true }) := by
  obtain ⟨⟨t, event⟩, hcall, rfl⟩ := map_eq_ok.1 h
  obtain ⟨m, call⟩ := tx
  cases call with
  | anchorRoot root epoch validUntil =>
    obtain ⟨-, hepoch, -, hs'⟩ := anchorRoot_eq_ok hcall
    exact .inl ⟨root, epoch, validUntil, rfl, hepoch, hs'⟩
  | revokeRoot root =>
    obtain ⟨-, hanchored, hs'⟩ := revokeRoot_eq_ok hcall
    exact .inr (.inl ⟨root, rfl, hanchored, hs'⟩)
  | verifyAndConsume proof publicSignals =>
    obtain ⟨hok, hs'⟩ := verifyAndConsume_eq_ok hcall
    exact .inr (.inr ⟨proof, publicSignals, rfl, hok, hs'⟩)

end ZkKycPolicyGate

/-! ### The history of a root -/

/-- The epoch a call anchors a root under, if it does. -/
def GateCall.anchoredEpoch : GateCall → Option (Uint 64)
  | .anchorRoot _ epoch _ => some epoch
  | .revokeRoot _ | .verifyAndConsume _ _ => none

/-- The epochs of the anchorings of a history, in order. -/
def anchoredEpochs (log : GateLog) : List (Uint 64) :=
  log.filterMap fun e ↦ e.input.call.anchoredEpoch

@[simp]
theorem mem_anchoredEpochs {log : GateLog} {epoch : Uint 64} : epoch ∈ anchoredEpochs log ↔
    ∃ e ∈ log, ∃ root validUntil, e.input.call = .anchorRoot root epoch validUntil := by
  simp only [anchoredEpochs, List.mem_filterMap]
  refine exists_congr fun e ↦ and_congr_right fun _ ↦ ?_
  cases e.input.call <;> simp [GateCall.anchoredEpoch]

/-- The last anchoring of a root and the revocations since are what its record says. -/
def LastAnchored (log : GateLog) (root : Uint 256) (record : RootRecord) : Prop :=
  ∃ before e since, log = before ++ e :: since ∧
    e.input.call = .anchorRoot root record.epoch record.validUntil ∧
    (∀ b ∈ since, ∀ epoch validUntil, b.input.call ≠ .anchorRoot root epoch validUntil) ∧
    (record.revoked = true ↔ ∃ b ∈ since, b.input.call = .revokeRoot root)

section LastAnchored

variable {log : GateLog} {root : Uint 256} {record : RootRecord} {x : Entry GateState GateTx}

/-- A call about something else leaves the record of a root. -/
theorem LastAnchored.concat (h : LastAnchored log root record)
    (hanchor : ∀ epoch validUntil, x.input.call ≠ .anchorRoot root epoch validUntil)
    (hrevoke : x.input.call ≠ .revokeRoot root) : LastAnchored (log ++ [x]) root record := by
  obtain ⟨before, e, since, rfl, he, hsince, hrevoked⟩ := h
  refine ⟨before, e, since ++ [x], by simp, he, ?_, ?_⟩
  · intro b hb
    rcases List.mem_append.1 hb with hb | hb
    · exact hsince b hb
    · rw [List.mem_singleton.1 hb]
      exact hanchor
  · rw [hrevoked]
    simp [or_and_right, exists_or, hrevoke]

/-- A revocation of the root marks its record. -/
theorem LastAnchored.revoke (h : LastAnchored log root record)
    (hx : x.input.call = .revokeRoot root) :
    LastAnchored (log ++ [x]) root { record with revoked := true } := by
  obtain ⟨before, e, since, rfl, he, hsince, -⟩ := h
  refine ⟨before, e, since ++ [x], by simp, he, ?_, ?_⟩
  · intro b hb
    rcases List.mem_append.1 hb with hb | hb
    · exact hsince b hb
    · rw [List.mem_singleton.1 hb, hx]
      simp
  · simp [hx]

/-- An anchoring of the root starts its record anew. -/
theorem lastAnchored_anchor {epoch validUntil : Uint 64}
    (hx : x.input.call = .anchorRoot root epoch validUntil) :
    LastAnchored (log ++ [x]) root ⟨epoch, validUntil, true, false⟩ :=
  ⟨log, x, [], rfl, hx, by simp, by simp⟩

end LastAnchored

/-- What the calls that went through say about the storage. -/
structure Kept (log : GateLog) (s : GateState) : Prop where
  epochs_lt : (anchoredEpochs log).Pairwise (· < ·)
  epochs_le : ∀ epoch ∈ anchoredEpochs log, epoch ≤ s.currentEpoch
  current : s.currentEpoch = 0 ∨ s.currentEpoch ∈ anchoredEpochs log
  record : ∀ root, (s.roots root).anchored = true → LastAnchored log root (s.roots root)
  used : ∀ e ∈ log, ∀ proof publicSignals,
    e.input.call = .verifyAndConsume proof publicSignals →
      s.nullifierUsed (publicSignals NULLIFIER_INDEX) = true

namespace ZkKycPolicyGate

variable {g : ZkKycPolicyGate}

theorem anchoredEpochs_concat (log : GateLog) (s : GateState) (tx : GateTx) :
    anchoredEpochs (log ++ [⟨s, tx⟩]) =
      anchoredEpochs log ++ tx.call.anchoredEpoch.toList := by
  rw [anchoredEpochs, List.filterMap_append]
  cases hcall : tx.call.anchoredEpoch <;> simp [anchoredEpochs, hcall]

section Step

variable {log : GateLog} {s s' : GateState} {tx : GateTx}

theorem epochs_exec (h : Kept log s) (hstep : g.exec s tx = .ok s') :
    (anchoredEpochs (log ++ [⟨s, tx⟩])).Pairwise (· < ·) ∧
      ∀ epoch ∈ anchoredEpochs (log ++ [⟨s, tx⟩]), epoch ≤ s'.currentEpoch := by
  rw [anchoredEpochs_concat]
  rcases exec_cases hstep with ⟨root, epoch, validUntil, hcall, hlt, rfl⟩ |
    ⟨root, hcall, -, rfl⟩ | ⟨proof, publicSignals, hcall, -, rfl⟩ <;>
    simp only [hcall, GateCall.anchoredEpoch, Option.toList_some, Option.toList_none,
      List.append_nil]
  · -- the new epoch is above all those before it
    have hbelow : ∀ a ∈ anchoredEpochs log, a < epoch := fun a ha ↦
      (h.epochs_le a ha).trans_lt hlt
    refine ⟨List.pairwise_append.2 ⟨h.epochs_lt, List.pairwise_singleton _ _, ?_⟩, ?_⟩
    · intro a ha b hb
      rw [List.mem_singleton.1 hb]
      exact hbelow a ha
    · intro a ha
      rcases List.mem_append.1 ha with ha | ha
      · exact (hbelow a ha).le
      · exact (List.mem_singleton.1 ha).le
  · exact ⟨h.epochs_lt, h.epochs_le⟩
  · exact ⟨h.epochs_lt, h.epochs_le⟩

theorem record_exec (h : Kept log s) (hstep : g.exec s tx = .ok s') (r : Uint 256)
    (hr : (s'.roots r).anchored = true) : LastAnchored (log ++ [⟨s, tx⟩]) r (s'.roots r) := by
  rcases exec_cases hstep with ⟨root, epoch, validUntil, hcall, -, rfl⟩ |
    ⟨root, hcall, hanchored, rfl⟩ | ⟨proof, publicSignals, hcall, -, rfl⟩
  · dsimp only at hr ⊢
    by_cases hroot : r = root
    · subst hroot
      rw [Function.update_self]
      exact lastAnchored_anchor hcall
    · rw [Function.update_of_ne hroot] at hr ⊢
      refine (h.record r hr).concat (fun ep v hsame ↦ hroot ?_) (by simp [hcall])
      rw [hcall] at hsame
      exact (GateCall.anchorRoot.inj hsame).1.symm
  · dsimp only at hr ⊢
    by_cases hroot : r = root
    · subst hroot
      rw [Function.update_self]
      exact (h.record r hanchored).revoke hcall
    · rw [Function.update_of_ne hroot] at hr ⊢
      refine (h.record r hr).concat (by simp [hcall]) fun hsame ↦ hroot ?_
      rw [hcall] at hsame
      exact (GateCall.revokeRoot.inj hsame).symm
  · exact (h.record r hr).concat (by simp [hcall]) (by simp [hcall])

theorem current_exec (h : Kept log s) (hstep : g.exec s tx = .ok s') :
    s'.currentEpoch = 0 ∨ s'.currentEpoch ∈ anchoredEpochs (log ++ [⟨s, tx⟩]) := by
  rw [anchoredEpochs_concat]
  rcases exec_cases hstep with ⟨root, epoch, validUntil, hcall, -, rfl⟩ | ⟨_, -, -, rfl⟩ |
    ⟨_, _, -, -, rfl⟩
  · exact .inr (List.mem_append_right _ (by simp [hcall, GateCall.anchoredEpoch]))
  · exact h.current.imp_right (List.mem_append_left _)
  · exact h.current.imp_right (List.mem_append_left _)

/-- A nullifier once used stays used, and a presentation uses its own. -/
theorem used_exec (h : Kept log s) (hstep : g.exec s tx = .ok s') :
    ∀ e ∈ log ++ [⟨s, tx⟩], ∀ proof publicSignals,
      e.input.call = .verifyAndConsume proof publicSignals →
        s'.nullifierUsed (publicSignals NULLIFIER_INDEX) = true := by
  intro e he proof publicSignals hcall
  rcases List.mem_append.1 he with he | he
  · have hold := h.used e he proof publicSignals hcall
    rcases exec_cases hstep with ⟨_, _, _, -, -, rfl⟩ | ⟨_, -, -, rfl⟩ | ⟨_, _, -, -, rfl⟩
    · exact hold
    · exact hold
    · dsimp only
      rw [Function.update_apply, hold, ite_self]
  · rw [List.mem_singleton.1 he] at hcall
    rcases exec_cases hstep with ⟨_, _, _, hother, -, -⟩ | ⟨_, hother, -, -⟩ |
      ⟨_, _, hsame, -, rfl⟩
    · exact absurd (hother.symm.trans hcall) (by simp)
    · exact absurd (hother.symm.trans hcall) (by simp)
    · dsimp only
      rw [(GateCall.verifyAndConsume.inj (hsame.symm.trans hcall)).2, Function.update_self]

/-- **One call keeps the history and the storage in step.** -/
theorem kept_exec (h : Kept log s) (hstep : g.exec s tx = .ok s') :
    Kept (log ++ [⟨s, tx⟩]) s' :=
  ⟨(epochs_exec h hstep).1, (epochs_exec h hstep).2, current_exec h hstep, record_exec h hstep,
    used_exec h hstep⟩

end Step

/-- The storage of every run is the one its history tells. -/
theorem kept_run (calls : List GateTx) :
    Kept (history g.exec .initial calls) (run g.exec .initial calls) := by
  refine history_rule ?_ (fun log s x s' h hstep ↦ kept_exec h hstep) calls
  exact ⟨by simp [anchoredEpochs], by simp [anchoredEpochs], .inl rfl, by simp [GateState.initial,
    RootRecord.zero], by simp⟩

/-! ### What a run authorises -/

/-- What stands behind a presentation that went through: an anchoring of its root under the current
epoch with no anchoring and no revocation of the root since, a deadline ahead and inside the root's
lifetime, and signals that bind the gate's policy, the caller and this action. -/
structure Authorised (g : ZkKycPolicyGate) (before : GateLog) (s : GateState) (m : GateMessage)
    (proof : Groth16Proof) (publicSignals : PublicSignals) : Prop where
  anchored : ∃ earlier a since validUntil, before = earlier ++ a :: since ∧
    a.input.call = .anchorRoot (publicSignals ROOT_INDEX) s.currentEpoch validUntil ∧
    (∀ b ∈ since, b.input.call.anchoredEpoch = none ∧
      b.input.call ≠ .revokeRoot (publicSignals ROOT_INDEX)) ∧
    m.timestamp.toNat ≤ (publicSignals DEADLINE_INDEX).toNat ∧
    (publicSignals DEADLINE_INDEX).toNat ≤ validUntil.toNat
  epoch : (publicSignals EPOCH_INDEX).toNat = s.currentEpoch.toNat
  policyId : (publicSignals POLICY_ID_INDEX).toNat = g.policyId.toNat
  countryA : (publicSignals COUNTRY_A_INDEX).toNat = g.allowedCountryA.toNat
  countryB : (publicSignals COUNTRY_B_INDEX).toNat = g.allowedCountryB.toNat
  maxBirthDay : (publicSignals MAX_BIRTH_DAY_INDEX).toNat = g.maxBirthDay.toNat
  holder : (publicSignals HOLDER_INDEX).toNat = m.sender.toNat
  applicationId : publicSignals APPLICATION_ID_INDEX = g.expectedApplicationId m
  verified : m.verifyProof proof publicSignals = some true

/-- **A presentation that goes through is authorised by the history.** -/
theorem authorised_of_presentable {log : GateLog} {s : GateState} {m : GateMessage}
    {proof : Groth16Proof} {publicSignals : PublicSignals} (h : Kept log s)
    (hok : Presentable g s m proof publicSignals) : Authorised g log s m proof publicSignals := by
  refine ⟨?_, hok.epoch, hok.policyId, hok.countryA, hok.countryB, hok.maxBirthDay, hok.holder,
    hok.applicationId, hok.verified⟩
  obtain ⟨earlier, a, since, hlog, ha, hsince, hrevoked⟩ := h.record _ hok.anchored
  rw [hok.root_epoch] at ha
  refine ⟨earlier, a, since, _, hlog, ha, fun b hb ↦ ⟨?_, fun hrevoke ↦ ?_⟩, hok.not_expired,
    hok.deadline_le⟩
  · -- an anchoring since would have moved the current epoch on
    cases hcall : b.input.call.anchoredEpoch with
    | none => rfl
    | some epoch =>
      have hlist : anchoredEpochs log =
          anchoredEpochs earlier ++ s.currentEpoch :: anchoredEpochs since := by
        simp [hlog, anchoredEpochs, ha, GateCall.anchoredEpoch]
      have hmem : epoch ∈ anchoredEpochs since := List.mem_filterMap.2 ⟨b, hb, hcall⟩
      have hpairs := hlist ▸ h.epochs_lt
      have hlt : s.currentEpoch < epoch :=
        (List.pairwise_cons.1 (List.pairwise_append.1 hpairs).2.1).1 epoch hmem
      have hle : epoch ≤ s.currentEpoch := h.epochs_le epoch (by
        rw [hlist]
        exact List.mem_append_right _ (List.mem_cons_of_mem _ hmem))
      exact absurd hlt hle.not_gt
  · have hmarked := hrevoked.2 ⟨b, hb, hrevoke⟩
    rw [hok.not_revoked] at hmarked
    exact absurd hmarked (by simp)

/-- No anchoring of the root was under the current epoch. -/
def Superseded (log : GateLog) (s : GateState) (root : Uint 256) : Prop :=
  ∀ e ∈ log, ∀ epoch validUntil, e.input.call = .anchorRoot root epoch validUntil →
    epoch < s.currentEpoch

/-- The root was revoked and not anchored again under a greater epoch. -/
def RevokedForGood (log : GateLog) (root : Uint 256) : Prop :=
  ∃ before e later, log = before ++ e :: later ∧ e.input.call = .revokeRoot root ∧
    ∀ b ∈ later, ∀ epoch validUntil, b.input.call = .anchorRoot root epoch validUntil →
      epoch ≤ e.state.currentEpoch

/-- A presentation that goes through is not against a superseded root. -/
theorem not_superseded {log : GateLog} {s : GateState} {m : GateMessage} {proof : Groth16Proof}
    {publicSignals : PublicSignals} (h : Authorised g log s m proof publicSignals) :
    ¬Superseded log s (publicSignals ROOT_INDEX) := by
  obtain ⟨earlier, a, since, validUntil, hlog, ha, -⟩ := h.anchored
  intro hsuperseded
  exact lt_irrefl _ (hsuperseded a (by simp [hlog]) _ _ ha)

/-- The entries of a run's history: each went through, from the storage the entries before it
account for. -/
theorem kept_entry {calls : List GateTx} {before later : GateLog} {e : Entry GateState GateTx}
    (h : history g.exec .initial calls = before ++ e :: later) :
    Kept before e.state ∧ ∃ s', g.exec e.state e.input = .ok s' := by
  obtain ⟨as, bs, s', -, rfl, hstate, hexec, -, -⟩ := history_split h
  rw [hstate] at hexec ⊢
  exact ⟨kept_run as, s', hexec⟩

/-- An anchoring of a history is under an epoch greater than the one it finds. -/
theorem lt_of_anchors {calls : List GateTx} {before later : GateLog} {e : Entry GateState GateTx}
    (h : history g.exec .initial calls = before ++ e :: later) {root : Uint 256}
    {epoch validUntil : Uint 64} (he : e.input.call = .anchorRoot root epoch validUntil) :
    e.state.currentEpoch < epoch ∧
      (transact g.exec e.state e.input).currentEpoch = epoch := by
  obtain ⟨-, s', hexec⟩ := kept_entry h
  rw [transact_of_ok hexec]
  rcases exec_cases hexec with ⟨_, _, _, hcall, hlt, rfl⟩ | ⟨_, hcall, -, -⟩ | ⟨_, _, hcall, -, -⟩
  · obtain ⟨-, rfl, -⟩ := GateCall.anchorRoot.inj (he.symm.trans hcall)
    exact ⟨hlt, rfl⟩
  · exact absurd (he.symm.trans hcall) (by simp)
  · exact absurd (he.symm.trans hcall) (by simp)

/-- A presentation that goes through is not against a root revoked for good. -/
theorem not_revokedForGood {calls : List GateTx} {m : GateMessage} {proof : Groth16Proof}
    {publicSignals : PublicSignals}
    (h : Authorised g (history g.exec .initial calls) (run g.exec .initial calls) m proof
      publicSignals) :
    ¬RevokedForGood (history g.exec .initial calls) (publicSignals ROOT_INDEX) := by
  obtain ⟨earlier, a, since, validUntil, hlog, ha, hsince, -, -⟩ := h.anchored
  rintro ⟨before, e, later, hsplit, he, hlater⟩
  have hne : e ≠ a := by
    rintro rfl
    exact absurd (he.symm.trans ha) (by simp)
  rcases List.append_eq_append_iff.1 (hlog.symm.trans hsplit) with
    ⟨mid, hbefore, hmid⟩ | ⟨mid, hearlier, hmid⟩
  · -- the revocation came after the anchoring
    rcases List.cons_eq_append_iff.1 hmid with ⟨-, hsame⟩ | ⟨rest, -, hrest⟩
    · exact hne (List.cons.inj hsame).1
    · exact (hsince e (by simp [hrest])).2 he
  · -- the anchoring came after the revocation, so its epoch is a greater one
    rcases List.cons_eq_append_iff.1 hmid with ⟨-, hsame⟩ | ⟨rest, rfl, hrest⟩
    · exact hne (List.cons.inj hsame).1.symm
    · have hle := hlater a (by simp [hrest]) _ _ ha
      have hlt := (lt_of_anchors hlog ha).1
      have hkept := (kept_entry hsplit).1
      rcases hkept.current with hzero | hmem
      · rw [hzero] at hle
        exact absurd (hlt.trans_le hle) (BitVec.not_lt_zero)
      · have hlist : anchoredEpochs (history g.exec .initial calls) =
            anchoredEpochs earlier ++ (run g.exec .initial calls).currentEpoch ::
              anchoredEpochs since := by
          simp [hlog, anchoredEpochs, ha, GateCall.anchoredEpoch]
        have hpairs := hlist ▸ (kept_run (g := g) calls).epochs_lt
        have hgreater := (List.pairwise_append.1 hpairs).2.2 _
          (by rw [hearlier, anchoredEpochs, List.filterMap_append]
              exact List.mem_append_left _ hmem) _ List.mem_cons_self
        exact absurd hle hgreater.not_ge

/-- **Safety of the gate.** In every run, by any callers and under any answers of the verifier:
the current epoch strictly increases with every anchoring; what goes through is authorised by the
history before it; every nullifier is consumed at most once; a root that is superseded, or revoked
for good, authorises nothing; and a reverting call changes nothing. The times of the calls need not
even be ordered. -/
theorem gate_safe (g : ZkKycPolicyGate) (calls : List GateTx) :
    (∀ before e later, history g.exec .initial calls = before ++ e :: later →
      ∀ root epoch validUntil, e.input.call = .anchorRoot root epoch validUntil →
        e.state.currentEpoch < epoch ∧
          (transact g.exec e.state e.input).currentEpoch = epoch) ∧
    (anchoredEpochs (history g.exec .initial calls)).Pairwise (· < ·) ∧
    (∀ before e later, history g.exec .initial calls = before ++ e :: later →
      ∀ proof publicSignals, e.input.call = .verifyAndConsume proof publicSignals →
        Authorised g before e.state e.input.message proof publicSignals ∧
        ∀ b ∈ before, ∀ proof' publicSignals',
          b.input.call = .verifyAndConsume proof' publicSignals' →
            publicSignals' NULLIFIER_INDEX ≠ publicSignals NULLIFIER_INDEX) ∧
    (∀ m proof publicSignals,
      Superseded (history g.exec .initial calls) (run g.exec .initial calls)
          (publicSignals ROOT_INDEX) ∨
        RevokedForGood (history g.exec .initial calls) (publicSignals ROOT_INDEX) →
      ∃ error, g.exec (run g.exec .initial calls) ⟨m, .verifyAndConsume proof publicSignals⟩ =
        .error error) ∧
    (∀ tx error, g.exec (run g.exec .initial calls) tx = .error error →
      run g.exec .initial (calls ++ [tx]) = run g.exec .initial calls) := by
  refine ⟨fun before e later h root epoch validUntil he ↦ lt_of_anchors h he,
    (kept_run calls).epochs_lt, ?_, ?_, ?_⟩
  · intro before e later h proof publicSignals he
    obtain ⟨hkept, s', hexec⟩ := kept_entry h
    have hok : Presentable g e.state e.input.message proof publicSignals := by
      rcases exec_cases hexec with ⟨_, _, _, hcall, -, -⟩ | ⟨_, hcall, -, -⟩ |
        ⟨_, _, hcall, hok, -⟩
      · exact absurd (he.symm.trans hcall) (by simp)
      · exact absurd (he.symm.trans hcall) (by simp)
      · obtain ⟨rfl, rfl⟩ := GateCall.verifyAndConsume.inj (he.symm.trans hcall)
        exact hok
    refine ⟨authorised_of_presentable hkept hok, fun b hb proof' publicSignals' hb' hsame ↦ ?_⟩
    have hused := hkept.used b hb proof' publicSignals' hb'
    rw [hsame, hok.unused] at hused
    exact absurd hused (by simp)
  · intro m proof publicSignals hdead
    cases hexec : g.exec (run g.exec .initial calls) ⟨m, .verifyAndConsume proof publicSignals⟩ with
    | error error => exact ⟨error, rfl⟩
    | ok s' =>
      obtain ⟨⟨_, event⟩, hcall, -⟩ := map_eq_ok.1 hexec
      have hauth := authorised_of_presentable (kept_run calls) (verifyAndConsume_eq_ok hcall).1
      rcases hdead with hdead | hdead
      · exact absurd hdead (not_superseded hauth)
      · exact absurd hdead (not_revokedForGood hauth)
  · intro tx error h
    rw [run_concat, transact_of_error h]

end ZkKycPolicyGate

end Proofmark
