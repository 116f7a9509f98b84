import Proofmark.Contracts.RotatingIssuer

/-!
# What a call does to the issuer account

Ten entry points of `RotatingIssuer` change its state, and a call to the source leaves it alone.
`RotatingIssuer.Move` is the whole list of what can happen, with what is checked in each case, and
`System.move_exec` is the only place where the entry points are unfolded for it: what holds of the
account over a run is proved by cases on a move.
-/

open Evm

namespace Proofmark

namespace RotatingIssuer

/-- One step of the account. -/
inductive Move (r : RotatingIssuer) : RotatingIssuer → Prop
  | keep : Move r r
  | propose {next : Address} (hzero : next ≠ 0) (hfresh : r.usedKey next = false)
      (howner : next ≠ r.ownable.owner) (hpending : next ≠ r.ownable.pendingOwner) :
      Move r { r with pendingKey := next }
  | drop : Move r { r with pendingKey := 0 }
  | activate {epoch : Uint 64} (hpending : r.pendingKey ≠ 0) (hlt : r.keyEpoch < epoch) :
      Move r { r with
        operatingKey := r.pendingKey
        pendingKey := 0
        usedKey := Function.update r.usedKey r.pendingKey true
        suspended := false
        keyEpoch := epoch }
  | retire {epoch : Uint 64} (hlt : r.keyEpoch < epoch) :
      Move r { r with operatingKey := 0, pendingKey := 0, suspended := true, keyEpoch := epoch }
  | nominate {next : Address} (hfresh : next ≠ 0 → r.usedKey next = false ∧ next ≠ r.pendingKey) :
      Move r { r with ownable := { r.ownable with pendingOwner := next } }
  | accept (hpending : r.ownable.pendingOwner ≠ 0) :
      Move r { r with ownable := ⟨r.ownable.pendingOwner, 0⟩, pendingKey := 0 }

/-- A new generation is a greater one. -/
theorem nextEpoch_eq_ok {r : RotatingIssuer} {epoch : Uint 64} (h : r.nextEpoch = .ok epoch) :
    r.keyEpoch < epoch := by
  obtain ⟨hmax, h⟩ := revertIf_bind_eq_ok.1 h
  obtain rfl := Except.ok.inj h
  exact counter_lt_next (beq_eq_false_iff_ne.1 hmax)

variable {r r' : RotatingIssuer} {events : List IssuerEvent} {sender : Address}

theorem suspendWith_move {reasonHash : Bytes32}
    (h : r.suspendWith reasonHash = .ok (r', events)) : r.Move r' := by
  obtain ⟨-, h⟩ := revertIf_bind_eq_ok.1 h
  obtain ⟨epoch, hepoch, h⟩ := bind_eq_ok.1 h
  obtain ⟨rfl, -⟩ := Prod.mk.inj (Except.ok.inj h)
  exact .retire (nextEpoch_eq_ok hepoch)

theorem proposeKey_move {next : Address} (h : r.proposeKey sender next = .ok (r', events)) :
    r.Move r' := by
  obtain ⟨-, -, h⟩ := bind_eq_ok.1 h
  obtain ⟨hguard, h⟩ := revertIf_bind_eq_ok.1 h
  obtain ⟨rfl, -⟩ := Prod.mk.inj (Except.ok.inj h)
  simp only [Bool.or_eq_false_iff, beq_eq_false_iff_ne] at hguard
  exact .propose hguard.1.1.1 hguard.1.1.2 hguard.1.2 hguard.2

theorem cancelKeyProposal_move (h : r.cancelKeyProposal sender = .ok (r', events)) :
    r.Move r' := by
  obtain ⟨-, -, h⟩ := bind_eq_ok.1 h
  obtain ⟨rfl, -⟩ := Prod.mk.inj (Except.ok.inj h)
  exact .drop

theorem acceptKey_move {expectedEpoch : Uint 64}
    (h : r.acceptKey sender expectedEpoch = .ok (r', events)) : r.Move r' := by
  obtain ⟨hguard, h⟩ := revertIf_bind_eq_ok.1 h
  obtain ⟨-, h⟩ := revertIf_bind_eq_ok.1 h
  obtain ⟨epoch, hepoch, h⟩ := bind_eq_ok.1 h
  obtain ⟨rfl, -⟩ := Prod.mk.inj (Except.ok.inj h)
  rw [Bool.or_eq_false_iff, beq_eq_false_iff_ne] at hguard
  exact .activate hguard.2 (nextEpoch_eq_ok hepoch)

theorem suspend_move {reasonHash : Bytes32} (h : r.suspend sender reasonHash = .ok (r', events)) :
    r.Move r' := by
  obtain ⟨-, -, h⟩ := bind_eq_ok.1 h
  exact suspendWith_move h

theorem transferOwnership_move {next : Address}
    (h : r.transferOwnership sender next = .ok (r', events)) : r.Move r' := by
  obtain ⟨-, -, h⟩ := bind_eq_ok.1 h
  obtain ⟨hguard, h⟩ := revertIf_bind_eq_ok.1 h
  obtain ⟨o, ho, h⟩ := bind_eq_ok.1 h
  obtain ⟨rfl, -⟩ := Prod.mk.inj (Except.ok.inj h)
  obtain ⟨-, -, ho⟩ := bind_eq_ok.1 (mapError_eq_ok.1 ho)
  obtain rfl := Except.ok.inj ho
  exact .nominate (by simpa using hguard)

/-- Nobody calls from the zero address, so the nominee is an account. -/
theorem acceptOwnership_move (hsender : sender ≠ 0)
    (h : r.acceptOwnership sender = .ok (r', events)) : r.Move r' := by
  obtain ⟨o, ho, h⟩ := bind_eq_ok.1 h
  obtain ⟨rfl, -⟩ := Prod.mk.inj (Except.ok.inj h)
  obtain ⟨hnominee, ho⟩ := revertIf_bind_eq_ok.1 (mapError_eq_ok.1 ho)
  obtain rfl := Except.ok.inj ho
  obtain rfl := bne_eq_false_iff_eq.1 hnominee
  exact .accept hsender

/-- Ownership cannot be renounced. -/
theorem renounceOwnership_ne_ok {result : RotatingIssuer × List IssuerEvent} :
    r.renounceOwnership sender ≠ .ok result := fun h ↦ by
  obtain ⟨-, -, h⟩ := bind_eq_ok.1 h
  simp at h

/-- What an accepted signature is: of the operating key, naming the current generation. -/
theorem isValidSignature_eq_magic {self : Account} {source : ComplianceSource} {env : SourceEnv}
    {digest : Bytes32} {signature : Bytes}
    (h : r.isValidSignature self source env digest signature = ComplianceSource.ERC1271_MAGIC) :
    r.suspended = false ∧ signature.length = 73 ∧ source.isIssuer self.address = true ∧
      signatureEpoch signature = r.keyEpoch ∧
      env.ext.tryRecover (approvalDigest self env.chainId digest r.keyEpoch)
        (signature.drop 8) = some r.operatingKey := by
  have hmagic : INVALID_SIGNATURE ≠ ComplianceSource.ERC1271_MAGIC := by decide
  rw [isValidSignature] at h
  split at h
  case isTrue => exact absurd h hmagic
  case isFalse hguard =>
    simp only [Bool.or_eq_true, not_or, Bool.not_eq_true, Bool.not_eq_false',
      bne_iff_ne, ne_eq, not_not] at hguard
    dsimp only at h
    split at h
    case isTrue => exact absurd h hmagic
    case isFalse hepoch =>
      split at h
      case isTrue hrecovered =>
        rw [not_not.1 hepoch] at hrecovered
        exact ⟨hguard.1.1, hguard.1.2, hguard.2, not_not.1 hepoch, hrecovered⟩
      case isFalse => exact absurd h hmagic

end RotatingIssuer

namespace System

variable {w w' : System} {self : Account} {env : SourceEnv} {events : List SystemEvent}

/-- A call to the source leaves the account as it is. -/
theorem callSource_eq_ok {call : ComplianceSource.Call}
    (h : w.callSource env call = .ok (w', events)) : w'.issuer = w.issuer ∧
      ∃ out, w.source.exec env call = .ok (w'.source, out) ∧ events = out.map .source := by
  obtain ⟨⟨source, out⟩, hexec, h⟩ := bind_eq_ok.1 h
  obtain ⟨rfl, rfl⟩ := Prod.mk.inj (Except.ok.inj h)
  exact ⟨rfl, out, mapError_eq_ok.1 hexec, rfl⟩

/-- A call that only the account answers leaves the source as it is. -/
theorem callIssuer_eq_ok {result : Except IssuerError (RotatingIssuer × List IssuerEvent)}
    (h : w.callIssuer result = .ok (w', events)) :
    ∃ out, result = .ok (w'.issuer, out) ∧ w'.source = w.source := by
  obtain ⟨⟨issuer, out⟩, hresult, h⟩ := bind_eq_ok.1 h
  obtain ⟨rfl, -⟩ := Prod.mk.inj (Except.ok.inj h)
  exact ⟨out, hresult, rfl⟩

/-- A call of the current key leaves the account as it is. -/
theorem currentKey_callSource {expectedEpoch : Uint 64} {call : ComplianceSource.Call}
    (h : (do
      w.issuer.currentKey env.sender expectedEpoch
      w.callSource (w.asAccount self env) call) = .ok (w', events)) :
    w.issuer.suspended = false ∧ env.sender = w.issuer.operatingKey ∧
      expectedEpoch = w.issuer.keyEpoch ∧ w'.issuer = w.issuer ∧
      ∃ out, w.source.exec (w.asAccount self env) call = .ok (w'.source, out) ∧
        events = out.map .source := by
  obtain ⟨u, hkey, h⟩ := bind_eq_ok.1 h
  simp only [RotatingIssuer.currentKey, revertIf_bind_eq_ok, revertIf_eq_ok, Bool.or_eq_false_iff,
    bne_eq_false_iff_eq] at hkey
  exact ⟨hkey.1.1, hkey.1.2, hkey.2, callSource_eq_ok h⟩

theorem declareCompromise_move {reasonHash : Bytes32} {lastTrustedBlock : Uint 64}
    (h : w.declareCompromise self env reasonHash lastTrustedBlock = .ok (w', events)) :
    w.issuer.Move w'.issuer := by
  obtain ⟨-, -, h⟩ := bind_eq_ok.1 h
  obtain ⟨⟨w₁, recorded⟩, hrecord, h⟩ := bind_eq_ok.1 h
  obtain ⟨⟨issuer, suspended⟩, hsuspend, h⟩ := bind_eq_ok.1 h
  obtain ⟨rfl, -⟩ := Prod.mk.inj (Except.ok.inj h)
  rw [(callSource_eq_ok hrecord).1] at hsuspend
  exact RotatingIssuer.suspendWith_move hsuspend

/-- **Every call is a move of the account.** -/
theorem move_exec {call : Call} (h : w.exec self env call = .ok (w', events)) :
    w.issuer.Move w'.issuer := by
  cases call with
  | proposeKey next =>
    obtain ⟨_, h, -⟩ := callIssuer_eq_ok h
    exact RotatingIssuer.proposeKey_move h
  | cancelKeyProposal =>
    obtain ⟨_, h, -⟩ := callIssuer_eq_ok h
    exact RotatingIssuer.cancelKeyProposal_move h
  | acceptKey expectedEpoch =>
    obtain ⟨_, h, -⟩ := callIssuer_eq_ok h
    exact RotatingIssuer.acceptKey_move h
  | suspend reasonHash =>
    obtain ⟨_, h, -⟩ := callIssuer_eq_ok h
    exact RotatingIssuer.suspend_move h
  | declareCompromise reasonHash lastTrustedBlock => exact declareCompromise_move h
  | transferOwnership next =>
    obtain ⟨_, h, -⟩ := callIssuer_eq_ok h
    exact RotatingIssuer.transferOwnership_move h
  | acceptOwnership =>
    obtain ⟨_, h, -⟩ := callIssuer_eq_ok h
    exact RotatingIssuer.acceptOwnership_move env.sender_ne_zero h
  | renounceOwnership =>
    obtain ⟨_, h, -⟩ := callIssuer_eq_ok h
    exact absurd h RotatingIssuer.renounceOwnership_ne_ok
  | issueOnce | revoke | deny =>
    obtain ⟨-, -, -, hsame, -⟩ := currentKey_callSource h
    rw [hsame]
    exact .keep
  | source call =>
    rw [(callSource_eq_ok h).1]
    exact .keep

end System

end Proofmark
