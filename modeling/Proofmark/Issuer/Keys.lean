import Proofmark.Issuer.Moves
import Proofmark.Source.Receipts

/-!
# The keys of an issuer account

The keys that operate an account and the owners that recover it are kept apart: a key that was used
is never an owner or a nominee, and a key that is proposed is neither used nor an owner. Every change
of the operating key starts a greater generation and a used key is never proposed again, so a key
operates in one generation and a generation has one key.
-/

open Evm

namespace Proofmark

namespace RotatingIssuer

/-! ### The roles in one state -/

/-- Who may be what. -/
structure KeyRoles (r : RotatingIssuer) : Prop where
  suspended_iff : r.operatingKey = 0 ↔ r.suspended = true
  used : r.operatingKey ≠ 0 → r.usedKey r.operatingKey = true
  operating_apart : r.operatingKey ≠ 0 →
    r.operatingKey ≠ r.ownable.owner ∧ r.operatingKey ≠ r.ownable.pendingOwner
  pending_apart : r.pendingKey ≠ 0 →
    r.pendingKey ≠ r.ownable.owner ∧ r.pendingKey ≠ r.ownable.pendingOwner
  pending_fresh : r.usedKey r.pendingKey = false

/-- `KeyRoles` as every call keeps it: what holds of the operating key holds of every used key. -/
structure KeyInvariant (r : RotatingIssuer) : Prop extends KeyRoles r where
  zero_fresh : r.usedKey 0 = false
  used_apart : ∀ k, r.usedKey k = true → k ≠ r.ownable.owner ∧ k ≠ r.ownable.pendingOwner

variable {r r' r'' : RotatingIssuer}

theorem KeyInvariant.used_ne_zero (hr : r.KeyInvariant) {k : Address} (hk : r.usedKey k = true) :
    k ≠ 0 := by
  rintro rfl
  exact absurd (hk.symm.trans hr.zero_fresh) (by decide)

theorem Move.keyInvariant (h : r.Move r') (hr : r.KeyInvariant) : r'.KeyInvariant := by
  cases h with
  | keep => exact hr
  | propose hzero hfresh howner hpending =>
    exact { hr with
      pending_apart := fun _ ↦ ⟨howner, hpending⟩
      pending_fresh := hfresh }
  | drop =>
    exact { hr with
      pending_apart := fun h ↦ absurd rfl h
      pending_fresh := hr.zero_fresh }
  | activate hpending hlt =>
    have hused : ∀ k, Function.update r.usedKey r.pendingKey true k = true →
        k ≠ r.ownable.owner ∧ k ≠ r.ownable.pendingOwner := by
      intro k hk
      rw [Function.update_apply] at hk
      split at hk
      case isTrue heq => exact heq ▸ hr.pending_apart hpending
      case isFalse => exact hr.used_apart k hk
    have hzero : Function.update r.usedKey r.pendingKey true 0 = false := by
      rw [Function.update_of_ne hpending.symm]
      exact hr.zero_fresh
    exact {
      suspended_iff := by simpa using hpending
      used := fun _ ↦ Function.update_self _ _ _
      operating_apart := fun _ ↦ hr.pending_apart hpending
      pending_apart := fun h ↦ absurd rfl h
      pending_fresh := hzero
      zero_fresh := hzero
      used_apart := hused }
  | retire hlt =>
    exact {
      suspended_iff := by simp
      used := fun h ↦ absurd rfl h
      operating_apart := fun h ↦ absurd rfl h
      pending_apart := fun h ↦ absurd rfl h
      pending_fresh := hr.zero_fresh
      zero_fresh := hr.zero_fresh
      used_apart := hr.used_apart }
  | nominate hfresh =>
    rename_i next
    -- a nominee is no used key and not the one proposed
    have hnominee : ∀ k, r.usedKey k = true → k ≠ next := by
      rintro k hk rfl
      exact absurd (hk.symm.trans (hfresh (hr.used_ne_zero hk)).1) (by decide)
    have hpending : r.pendingKey ≠ 0 → r.pendingKey ≠ next := by
      rintro h rfl
      exact (hfresh h).2 rfl
    exact { hr with
      operating_apart := fun h ↦ ⟨(hr.operating_apart h).1, hnominee _ (hr.used h)⟩
      pending_apart := fun h ↦ ⟨(hr.pending_apart h).1, hpending h⟩
      used_apart := fun k hk ↦ ⟨(hr.used_apart k hk).1, hnominee k hk⟩ }
  | accept hpending =>
    have hapart : ∀ k, r.usedKey k = true → k ≠ r.ownable.pendingOwner ∧ k ≠ 0 := fun k hk ↦
      ⟨(hr.used_apart k hk).2, hr.used_ne_zero hk⟩
    exact { hr with
      operating_apart := fun h ↦ hapart _ (hr.used h)
      pending_apart := fun h ↦ absurd rfl h
      pending_fresh := hr.zero_fresh
      used_apart := hapart }

/-- The account as constructed. -/
theorem keyInvariant_construct {recoveryOwner initialKey : Address} {source : Option SourceVersions}
    {events : List IssuerEvent} (h : construct recoveryOwner initialKey source = .ok (r, events)) :
    r.KeyInvariant := by
  obtain ⟨o, ho, h⟩ := bind_eq_ok.1 h
  obtain ⟨versions, -, h⟩ := bind_eq_ok.1 h
  simp only [revertIf_bind_eq_ok, Bool.or_eq_false_iff, beq_eq_false_iff_ne] at h
  obtain ⟨-, ⟨hzero, howner⟩, h⟩ := h
  obtain ⟨rfl, -⟩ := Prod.mk.inj (Except.ok.inj h)
  have ho := mapError_eq_ok.1 ho
  rw [Ownable2Step.construct] at ho
  split at ho
  · simp at ho
  obtain rfl := Except.ok.inj ho
  have hfresh : Function.update (fun _ : Address ↦ false) initialKey true 0 = false :=
    Function.update_of_ne hzero.symm _ _
  exact {
    suspended_iff := by simpa using hzero
    used := fun _ ↦ by simp
    operating_apart := fun _ ↦ ⟨howner, hzero⟩
    pending_apart := fun h ↦ absurd rfl h
    pending_fresh := hfresh
    zero_fresh := hfresh
    used_apart := by
      intro k hk
      obtain rfl : k = initialKey := by simpa [Function.update_apply] using hk
      exact ⟨howner, hzero⟩ }


/-! ### The roles over time -/

/-- Later in a run: generations do not decrease, one generation has one key, and a key used before
operates again only if it never stopped. -/
structure Follows (r r' : RotatingIssuer) : Prop where
  epoch_le : r.keyEpoch ≤ r'.keyEpoch
  same : r'.keyEpoch = r.keyEpoch → r'.operatingKey = r.operatingKey
  used : ∀ k, r.usedKey k = true → r'.usedKey k = true
  back : r'.operatingKey ≠ 0 → r.usedKey r'.operatingKey = true → r'.keyEpoch = r.keyEpoch

theorem Follows.refl (r : RotatingIssuer) : r.Follows r :=
  ⟨BitVec.le_refl _, fun _ ↦ rfl, fun _ ↦ id, fun _ _ ↦ rfl⟩

theorem Follows.move (h : r.Follows r') (hmove : r'.Move r'') (hr : r'.KeyInvariant) :
    r.Follows r'' := by
  cases hmove with
  | keep | propose | drop | nominate | accept => exact ⟨h.epoch_le, h.same, h.used, h.back⟩
  | activate hpending hlt =>
    have hgt := h.epoch_le.trans_lt hlt
    refine ⟨hgt.le, fun heq ↦ absurd heq hgt.ne', fun k hk ↦ ?_, fun _ hk ↦ ?_⟩
    · show Function.update r'.usedKey r'.pendingKey true k = true
      rw [Function.update_apply, h.used k hk, ite_self]
    · -- the key that takes over was not used before
      exact absurd ((h.used _ hk).symm.trans hr.pending_fresh) (by decide)
  | retire hlt =>
    have hgt := h.epoch_le.trans_lt hlt
    exact ⟨hgt.le, fun heq ↦ absurd heq hgt.ne', h.used, fun h ↦ absurd rfl h⟩

/-- A change of the operating key starts a greater generation. -/
theorem Move.lt_of_ne (h : r.Move r') (hne : r'.operatingKey ≠ r.operatingKey) :
    r.keyEpoch < r'.keyEpoch := by
  cases h with
  | keep | propose | drop | nominate | accept => exact absurd rfl hne
  | activate hpending hlt => exact hlt
  | retire hlt => exact hlt

end RotatingIssuer

namespace System

variable {self : Account} {w w₀ w' : System}

theorem move_step {t : Transact} (h : step self w t = .ok w') : w.issuer.Move w'.issuer := by
  obtain ⟨⟨w'', events⟩, hexec, rfl⟩ := map_eq_ok.1 h
  exact move_exec hexec

/-- **The roles are kept apart in every run.** -/
theorem keyInvariant_run (h₀ : w₀.issuer.KeyInvariant) (ts : List Transact) :
    (run (step self) w₀ ts).issuer.KeyInvariant :=
  run_invariant (P := fun w : System ↦ w.issuer.KeyInvariant) h₀
    (fun _ _ _ hw h ↦ (move_step h).keyInvariant hw) ts

/-- **Later states follow earlier ones.** -/
theorem follows_run (h₀ : w₀.issuer.KeyInvariant) {before ts : List Transact} (h : before <+: ts) :
    (run (step self) w₀ before).issuer.Follows (run (step self) w₀ ts).issuer := by
  obtain ⟨rest, rfl⟩ := h
  rw [run_append]
  refine (run_invariant (P := fun w : System ↦ w.issuer.KeyInvariant ∧
    (run (step self) w₀ before).issuer.Follows w.issuer) ⟨keyInvariant_run h₀ before, .refl _⟩
    (fun _ _ _ hw h ↦ ?_) rest).2
  exact ⟨(move_step h).keyInvariant hw.1, hw.2.move (move_step h) hw.1⟩

/-! ### Who acts -/

/-- The generation a call of the operating key presents. -/
def Call.presented : Call → Option (Uint 64)
  | .issueOnce expectedEpoch _ _ _ _ _ => some expectedEpoch
  | .revoke expectedEpoch _ _ _ => some expectedEpoch
  | .deny expectedEpoch _ _ _ => some expectedEpoch
  | _ => none

/-- A key acts under a generation: a call it makes that presents the generation goes through, or a
signature of it that names the generation is accepted. -/
def Acts (self : Account) (w : System) (key : Address) (generation : Uint 64) : Prop :=
  (∃ env call w' events, env.sender = key ∧ Call.presented call = some generation ∧
    w.exec self env call = .ok (w', events)) ∨
  ∃ env digest signature, RotatingIssuer.signatureEpoch signature = generation ∧
    env.ext.tryRecover (RotatingIssuer.approvalDigest self env.chainId digest generation)
      (signature.drop 8) = some key ∧
    w.issuer.isValidSignature self w.source env digest signature = ComplianceSource.ERC1271_MAGIC

/-- **Only the operating key acts, under the current generation.** -/
theorem Acts.current {key : Address} {generation : Uint 64} (h : w.Acts self key generation) :
    w.issuer.suspended = false ∧ key = w.issuer.operatingKey ∧
      generation = w.issuer.keyEpoch := by
  rcases h with ⟨env, call, w', events, rfl, hpresented, h⟩ | ⟨env, digest, signature, hnames,
    hsigner, h⟩
  · cases call with
    | issueOnce | revoke | deny =>
      obtain ⟨hactive, hkey, hepoch, -⟩ := currentKey_callSource h
      exact ⟨hactive, hkey, (Option.some.inj hpresented).symm.trans hepoch⟩
    | _ => simp [Call.presented] at hpresented
  · obtain ⟨hactive, -, -, hepoch, hrecovered⟩ := RotatingIssuer.isValidSignature_eq_magic h
    obtain rfl := hnames.symm.trans hepoch
    exact ⟨hactive, Option.some.inj (hsigner.symm.trans hrecovered), rfl⟩

/-- The account after a run. -/
def issuerAfter (self : Account) (w₀ : System) (ts : List Transact) : RotatingIssuer :=
  (run (step self) w₀ ts).issuer

/-- The laws of the keys of an account, at the end of a run and against every earlier state. -/
structure KeyLaws (self : Account) (w₀ : System) (ts : List Transact) : Prop where
  roles : (issuerAfter self w₀ ts).KeyRoles
  increases : ∀ t w', step self (run (step self) w₀ ts) t = .ok w' →
    w'.issuer.operatingKey ≠ (issuerAfter self w₀ ts).operatingKey →
    (issuerAfter self w₀ ts).keyEpoch < w'.issuer.keyEpoch
  one_key : ∀ before, before <+: ts →
    (issuerAfter self w₀ before).keyEpoch = (issuerAfter self w₀ ts).keyEpoch →
    (issuerAfter self w₀ before).operatingKey = (issuerAfter self w₀ ts).operatingKey
  one_reign : ∀ before mid, before <+: mid → mid <+: ts →
    (issuerAfter self w₀ ts).operatingKey ≠ 0 →
    (issuerAfter self w₀ before).operatingKey = (issuerAfter self w₀ ts).operatingKey →
    (issuerAfter self w₀ mid).operatingKey = (issuerAfter self w₀ ts).operatingKey ∧
      (issuerAfter self w₀ mid).keyEpoch = (issuerAfter self w₀ ts).keyEpoch
  acts : ∀ key generation, (run (step self) w₀ ts).Acts self key generation →
    key ≠ 0 ∧ key = (issuerAfter self w₀ ts).operatingKey ∧
      generation = (issuerAfter self w₀ ts).keyEpoch ∧
      key ≠ (issuerAfter self w₀ ts).pendingKey
  retired : ∀ before, before <+: ts → (issuerAfter self w₀ before).operatingKey ≠ 0 →
    (issuerAfter self w₀ before).keyEpoch ≠ (issuerAfter self w₀ ts).keyEpoch →
    ∀ generation, ¬(run (step self) w₀ ts).Acts self
      (issuerAfter self w₀ before).operatingKey generation

/-- A key that operated before and operates now did not stop in between. -/
theorem reign_of_follows {r r' r'' : RotatingIssuer} (hr : r.KeyInvariant) (h : r.Follows r')
    (h' : r'.Follows r'') (hzero : r''.operatingKey ≠ 0) (hkey : r.operatingKey = r''.operatingKey)
    (hback : r.Follows r'') : r'.operatingKey = r''.operatingKey ∧ r'.keyEpoch = r''.keyEpoch := by
  have hepoch : r''.keyEpoch = r.keyEpoch := hback.back hzero (hkey ▸ hr.used (hkey ▸ hzero))
  -- the generation in between is squeezed
  have hmid : r'.keyEpoch = r.keyEpoch := le_antisymm (hepoch ▸ h'.epoch_le) h.epoch_le
  exact ⟨(h.same hmid).trans hkey, hmid.trans hepoch.symm⟩

/-- **The keys of an issuer account.** In every state of every run of an account that was constructed,
whatever is called by whom, the roles of keys and owners are apart, a change of the operating key
starts a greater generation, a generation has one key and a key one reign, and only the operating key
acts, under its own generation. -/
theorem keyLaws_run {recoveryOwner initialKey : Address}
    {versions : Option RotatingIssuer.SourceVersions} {r : RotatingIssuer}
    {events : List IssuerEvent}
    (h : RotatingIssuer.construct recoveryOwner initialKey versions = .ok (r, events))
    (source : ComplianceSource) (self : Account) (ts : List Transact) :
    KeyLaws self ⟨r, source⟩ ts := by
  have h₀ : (System.mk r source).issuer.KeyInvariant := RotatingIssuer.keyInvariant_construct h
  have hinvariant : ∀ ts, (run (step self) ⟨r, source⟩ ts).issuer.KeyInvariant :=
    keyInvariant_run h₀
  constructor
  case roles => exact (hinvariant ts).toKeyRoles
  case increases => exact fun t w' ht hne ↦ (move_step ht).lt_of_ne hne
  case one_key => exact fun before hbefore hepoch ↦
    ((follows_run h₀ hbefore).same hepoch.symm).symm
  case one_reign =>
    intro before mid hbefore hmid hzero hkey
    exact reign_of_follows (hinvariant before) (follows_run h₀ hbefore) (follows_run h₀ hmid) hzero
      hkey (follows_run h₀ (hbefore.trans hmid))
  case acts =>
    intro key generation hacts
    obtain ⟨hactive, rfl, rfl⟩ := hacts.current
    have hzero : (run (step self) ⟨r, source⟩ ts).issuer.operatingKey ≠ 0 := fun heq ↦ by
      rw [(hinvariant ts).suspended_iff.1 heq] at hactive
      exact absurd hactive (by decide)
    refine ⟨hzero, rfl, rfl, fun heq ↦ ?_⟩
    have hused := (hinvariant ts).used hzero
    rw [show (run (step self) ⟨r, source⟩ ts).issuer.operatingKey = _ from heq] at hused
    exact absurd (hused.symm.trans (hinvariant ts).pending_fresh) (by decide)
  case retired =>
    intro before hbefore hzero hne generation hacts
    obtain ⟨-, hkey, -⟩ := hacts.current
    have hused := (hinvariant before).used hzero
    have hfollows : (run (step self) ⟨r, source⟩ before).issuer.Follows
        (run (step self) ⟨r, source⟩ ts).issuer := follows_run h₀ hbefore
    refine hne (hfollows.back ?_ ?_).symm
    · rw [← hkey]
      exact hzero
    · rw [← hkey]
      exact hused

/-- Owner `0x0E` proposes key `0xCA12` to an account of key `0xCA11`, and the key accepts. -/
def sampleRotation : List Transact :=
  [⟨⟨0x501, 1, 90, 1700086400, 0x0E, sampleGovernor_ne_zero, noCode⟩, .proposeKey 0xCA12⟩,
    ⟨⟨0x501, 1, 91, 1700086412, 0xCA12, by decide, noCode⟩, .acceptKey 1⟩]

theorem keyLaws_sampleRotation : ∃ r events,
    RotatingIssuer.construct 0x0E 0xCA11 (some ⟨0, 2, 1, 1⟩) = .ok (r, events) ∧
      KeyLaws ⟨0x155, by decide⟩ ⟨r, ComplianceSource.deployed 1⟩ sampleRotation ∧
      (issuerAfter ⟨0x155, by decide⟩ ⟨r, ComplianceSource.deployed 1⟩
        sampleRotation).operatingKey = 0xCA12 := by
  obtain ⟨r, events, h, hoperating⟩ : ∃ r events,
      RotatingIssuer.construct 0x0E 0xCA11 (some ⟨0, 2, 1, 1⟩) = .ok (r, events) ∧
        (issuerAfter ⟨0x155, by decide⟩ ⟨r, ComplianceSource.deployed 1⟩
          sampleRotation).operatingKey = 0xCA12 := ⟨_, _, rfl, by decide +kernel⟩
  exact ⟨r, events, h, keyLaws_run h _ _ _, hoperating⟩

end System

end Proofmark
