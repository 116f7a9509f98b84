import Proofmark.Pipeline.AttrsCodec
import Proofmark.Pipeline.Claims
import Proofmark.Pipeline.ExternalCredential

/-!
# What an active credential is worth

Every result with status `active` carries attributes that are valid at the last clock value, within
the times, checks and regime of its token and the configuration, for the wallet itself. Two tokens
with one provider id cannot both be active (`outcomes_worth`).

Two slips are left out by the conditions of that theorem. The id is hashed as it is spelled, so the
same 32 bytes in other letters are another id; and the check for a single method bit looks at the
low 32 bits alone, so a configured number from `2 ^ 32` on need not be a bit at all.
-/

open Evm JsonText

namespace Proofmark.Pipeline.ExternalCredential

variable {N : Type} {J : JsNumbers N} {L : Libraries} {config : ExternalCredentialAdapterConfig}

/-! ### What a token says -/

/-- The payload of a token, whoever signed it. -/
def payloadOf (J : JsNumbers N) (token : Text) : Option (Value N) :=
  match token.splitOn '.' with
  | [_, second, _] => (parseJsonSegment J second 16384).toOption.map Value.object
  | _ => none

/-- The provider's id, as it is spelled. -/
def jtiOf (J : JsNumbers N) (token : Text) : Option Text :=
  (payloadOf J token).bind fun v ↦ fieldText v "jti"

/-- The provider's id. -/
def idOf (J : JsNumbers N) (token : Text) : Option Bytes32 :=
  (jtiOf J token).map Text.toWord

def checksOf (J : JsNumbers N) (token : Text) : Option (List Text) :=
  (payloadOf J token).bind fun v ↦ (v.get "proofmark".toList).bind fun proof ↦
    asTexts (proof.get "checks".toList)

def regimeOf (J : JsNumbers N) (token : Text) : Option Text :=
  (payloadOf J token).bind fun v ↦ (v.get "proofmark".toList).bind fun proof ↦
    fieldText proof "regime"

def iatOf (J : JsNumbers N) (token : Text) : Option ℤ :=
  (payloadOf J token).bind fun v ↦ J.fieldInt v "iat"

def expOf (J : JsNumbers N) (token : Text) : Option ℤ :=
  (payloadOf J token).bind fun v ↦ J.fieldInt v "exp"

def subOf (J : JsNumbers N) (token : Text) : Option Text :=
  (payloadOf J token).bind fun v ↦ fieldText v "sub"

/-! ### What is claimed -/

/-- What an active credential is worth. -/
structure Worth (J : JsNumbers N) (L : Libraries) (config : ExternalCredentialAdapterConfig)
    (call : Call) (credential : NormalizedCredential) : Prop where
  attrs : validCredentialAttrs credential.attrs (some call.later) = true
  expiry_exp : ∃ exp, expOf J call.raw = some exp ∧ credential.expiry ≤ exp
  expiry_age : ∃ iat, iatOf J call.raw = some iat ∧
    credential.expiry ≤ iat + config.maxCredentialAgeSeconds
  /-- every method is the bit of a check the token lists -/
  methods_listed : ∃ checks, checksOf J call.raw = some checks ∧
    ∀ i, credential.methods.toNat.testBit i → ∃ check ∈ checks,
      config.methods.lookup check = some (2 ^ i)
  /-- every required check is listed and has its bit -/
  methods_required : ∃ checks, checksOf J call.raw = some checks ∧
    ∀ check ∈ config.requiredChecks, check ∈ checks ∧
      ∃ i, config.methods.lookup check = some (2 ^ i) ∧ credential.methods.toNat.testBit i
  regime : ∃ name, regimeOf J call.raw = some name ∧
    config.regimes.lookup name = some credential.regime ∧
    credential.regime = if config.environment = "production".toList then 1 else 2
  subject : ∃ sub, subOf J call.raw = some sub ∧
    L.getAddress sub = some credential.subject ∧
    L.getAddress call.wallet = some credential.subject

/-- A result that is active. -/
def IsActive (r : Except ExternalCredentialError Consumed) : Prop :=
  ∃ replay requestId credential, r = .ok (.active replay requestId credential)

/-- What two calls are worth together, the first before the second. -/
structure Exclusive (J : JsNumbers N) (L : Libraries) (config : ExternalCredentialAdapterConfig)
    (p q : Call × Except ExternalCredentialError Consumed) : Prop where
  /-- one id belongs to one token -/
  same (hid : idOf J p.1.raw = idOf J q.1.raw) (hp : IsActive p.2) (hq : IsActive q.2) :
    p.1.raw = q.1.raw
  /-- another token with that id ends in a conflict -/
  conflict (hid : idOf J p.1.raw = idOf J q.1.raw) (hp : IsActive p.2)
    (hne : p.1.raw ≠ q.1.raw) {credential : NormalizedCredential}
    (hq : admission J L config q.1 = .ok (.claims credential)) : q.2 = .error .replayConflict

/-- What the results of some calls are worth. -/
structure Worthy (J : JsNumbers N) (L : Libraries) (config : ExternalCredentialAdapterConfig)
    (results : List (Call × Except ExternalCredentialError Consumed)) : Prop where
  worth : ∀ p ∈ results, ∀ replay requestId credential,
    p.2 = .ok (.active replay requestId credential) → Worth J L config p.1 credential
  exclusive : results.Pairwise (Exclusive J L config)

/-! ### What `authenticate` and `normalize` accept -/

/-- What is known of an authenticated token. -/
structure Authenticated (J : JsNumbers N) (L : Libraries)
    (config : ExternalCredentialAdapterConfig) (token wallet : Text) (observed : ℤ)
    (envelope : Envelope) : Prop where
  iat : iatOf J token = some envelope.iat
  exp : expOf J token = some envelope.exp
  jti : jtiOf J token = some envelope.jti
  checks : checksOf J token = some envelope.proofmark.checks
  regime : regimeOf J token = some envelope.proofmark.regime
  subject : ∃ sub, subOf J token = some sub ∧ L.getAddress sub = some envelope.sub ∧
    L.getAddress wallet = some envelope.sub
  positive : 1 ≤ envelope.iat
  ordered : envelope.iat < envelope.exp
  issued : envelope.iat ≤ observed
  digest : envelope.credentialDigest = keccak256 (Text.utf8 token)

theorem payloadOf_of_signedPayload {token : Text} {value : List (Text × Value N)}
    (h : signedPayload J L config token = .ok value) : payloadOf J token = some (.object value) := by
  unfold signedPayload at h
  unfold payloadOf
  split at h
  case h_1 first second third hsplit =>
    simp only [bind_eq_ok, revertIf_eq_ok, exists_const] at h
    obtain ⟨-, -, -, -, -, -, hparse⟩ := h
    simp only [hsplit, hparse]
    rfl
  case h_2 => cases h

theorem proofmarkClaims_eq_ok {proof : Value N} {claims : ProofmarkClaims}
    (h : proofmarkClaims config proof = .ok claims) :
    asTexts (proof.get "checks".toList) = some claims.checks ∧
      fieldText proof "regime" = some claims.regime := by
  simp only [proofmarkClaims, bind_eq_ok, revertIf_eq_ok, exists_const, getOrRevert_eq_ok] at h
  obtain ⟨-, assurance, -, regime, hregime, jurisdiction, -, checks, hchecks, digest, -, -, -, h⟩ := h
  obtain rfl := Except.ok.inj h
  exact ⟨hchecks, hregime⟩

theorem authenticated {token wallet : Text} {observed : ℤ} {envelope : Envelope}
    (h : authenticate J L config token wallet observed = .ok envelope) :
    Authenticated J L config token wallet observed envelope := by
  simp only [authenticate, bind_eq_ok, revertIf_eq_ok, exists_const, getOrRevert_eq_ok] at h
  obtain ⟨hwallet, value, hvalue, -, proof, hproof, -, -, -, sub, hsub, subject, hsubject, hsame, jti,
    hjti, -, iat, hiat, exp, hexp, htime, -, hissued, -, claims, hclaims, h⟩ := h
  obtain rfl := Except.ok.inj h
  have hpayload := payloadOf_of_signedPayload hvalue
  have hget : (Value.object value).get "proofmark".toList = some (.object proof) := by
    unfold asObject at hproof
    split at hproof
    · rename_i heq
      rw [heq, Option.some.inj hproof]
    · cases hproof
  obtain ⟨hchecks, hregime⟩ := proofmarkClaims_eq_ok hclaims
  simp only [Bool.or_eq_false_iff, Bool.not_eq_false', decide_eq_false_iff_not, not_lt, not_le,
    Addresses.isAddress] at hwallet htime hissued hsame
  obtain ⟨x, hx⟩ := Option.isSome_iff_exists.1 hwallet.1.2
  have hunique : subject = x := L.getAddress_unique (of_decide_eq_true hsame) hsubject hx
  exact {
    iat := by rw [iatOf, hpayload]; exact hiat
    exp := by rw [expOf, hpayload]; exact hexp
    jti := by rw [jtiOf, hpayload]; exact hjti
    checks := by
      rw [checksOf, hpayload, Option.bind_some, hget]
      exact hchecks
    regime := by
      rw [regimeOf, hpayload, Option.bind_some, hget]
      exact hregime
    subject := ⟨sub, by rw [subOf, hpayload]; exact hsub, hsubject, hunique ▸ hx⟩
    positive := htime.1
    ordered := htime.2
    issued := hissued
    digest := rfl }

/-! ### Configuration and masks -/

/-- What is known of a configuration that was accepted. -/
structure Configured (config : ExternalCredentialAdapterConfig) : Prop where
  age : 1 ≤ config.maxCredentialAgeSeconds
  assurance : ∀ {k v}, config.assurance.lookup k = some v → 1 ≤ v ∧ v ≤ 5
  regimes : ∀ {k v}, config.regimes.lookup k = some v →
    v = if config.environment = "production".toList then 1 else 2
  jurisdictions : ∀ {k v}, config.jurisdictions.lookup k = some v → 1 ≤ v ∧ v ≤ 999
  methods : ∀ {k v}, config.methods.lookup k = some v → isMethodBit v = true
  required : ∀ check ∈ config.requiredChecks, (config.methods.lookup check).isSome = true

theorem mem_of_lookup {α β : Type} [BEq α] [LawfulBEq α] {l : List (α × β)} {a : α} {b : β}
    (h : l.lookup a = some b) : (a, b) ∈ l := by
  obtain ⟨before, after, rfl, -⟩ := List.lookup_eq_some_iff.1 h
  exact List.mem_append_right _ List.mem_cons_self

theorem configured {E : Addresses} (h : validateConfig E config = .ok ()) : Configured config := by
  rw [validateConfig, revertIf_eq_ok, Bool.not_eq_false'] at h
  simp only [validConfig, Bool.and_eq_true, and_assoc, decide_eq_true_eq, List.all_eq_true] at h
  obtain ⟨-, -, -, -, -, -, -, -, -, -, -, -, -, hage, -, -, hassurance, -, hjurisdictions,
    hmethods, -, -, -, -, -, -, hrequired, hregimes⟩ := h
  exact {
    age := hage
    assurance := fun hk ↦ (hassurance _ (mem_of_lookup hk)).2
    regimes := fun hk ↦ by
      have hvalue := (hregimes _ (mem_of_lookup hk)).2
      split at hvalue
      case isTrue henv => exact (beq_iff_eq.1 hvalue).trans (if_pos henv).symm
      case isFalse henv => exact (beq_iff_eq.1 hvalue).trans (if_neg henv).symm
    jurisdictions := fun hk ↦ (hjurisdictions _ (mem_of_lookup hk)).2.2
    methods := fun hk ↦ (hmethods _ (mem_of_lookup hk)).2
    required := fun check hcheck ↦ (hrequired check hcheck).2 }

/-- The bits of the mask are those of the configured numbers. -/
theorem getLsbD_methodsOf (checks : List Text) (i : ℕ) :
    (BitVec.ofInt 32 (methodsOf config checks)).getLsbD i = true ↔ ∃ check ∈ checks,
      (BitVec.ofInt 32 ((config.methods.lookup check).getD 0)).getLsbD i = true := by
  have hfold : ∀ (checks : List Text) (mask : ℤ), (BitVec.ofInt 32 (checks.foldl
      (fun mask check ↦ Numeric.Int32.or mask ((config.methods.lookup check).getD 0))
        mask)).getLsbD i = true ↔ (BitVec.ofInt 32 mask).getLsbD i = true ∨ ∃ check ∈ checks,
      (BitVec.ofInt 32 ((config.methods.lookup check).getD 0)).getLsbD i = true := by
    intro checks
    induction checks with
    | nil => simp
    | cons check checks ih =>
      intro mask
      rw [List.foldl_cons, ih, Numeric.Int32.ofInt_or, BitVec.getLsbD_or, Bool.or_eq_true, or_assoc,
        List.exists_mem_cons_iff]
  rw [methodsOf, hfold]
  simp

theorem methods_supported (hconfig : Configured config) (checks : List Text) :
    Numeric.Int32.and (methodsOf config checks) (Numeric.Int32.not SUPPORTED_METHODS) = 0 := by
  rw [Numeric.Int32.and_eq_zero_iff]
  refine BitVec.eq_of_getLsbD_eq fun i _ ↦ ?_
  rw [BitVec.getLsbD_and]
  cases hbit : (BitVec.ofInt 32 (methodsOf config checks)).getLsbD i with
  | false => simp
  | true =>
    obtain ⟨check, -, hcheck⟩ := (getLsbD_methodsOf checks i).1 hbit
    cases hlookup : config.methods.lookup check with
    | none => simp [hlookup] at hcheck
    | some v =>
      have hvalue := hconfig.methods hlookup
      simp only [isMethodBit, Bool.and_eq_true, beq_iff_eq] at hvalue
      have hmask := congrArg (BitVec.getLsbD · i) ((Numeric.Int32.and_eq_zero_iff _ _).1 hvalue.2)
      simp only [BitVec.getLsbD_and] at hmask
      rw [hlookup] at hcheck
      rwa [show (BitVec.ofInt 32 v).getLsbD i = true from hcheck] at hmask

/-- A configured number below `2 ^ 32` is a bit. -/
theorem exists_bit (hconfig : Configured config) {check : Text} {v : ℤ}
    (h : config.methods.lookup check = some v) (hlt : v < 2 ^ 32) : ∃ k < 32, v = 2 ^ k := by
  have hvalue := hconfig.methods h
  simp only [isMethodBit, Bool.and_eq_true, beq_iff_eq, decide_eq_true_eq] at hvalue
  exact Numeric.Int32.exists_two_pow hvalue.1.1.2 hlt hvalue.1.2

/-- The bits of a mask in range. -/
theorem testBit_methodsOf {checks : List Text}
    (hrange : 0 ≤ methodsOf config checks ∧ methodsOf config checks ≤ 0xffffffff) (i : ℕ) :
    (methodsOf config checks).toNat.testBit i = true ↔ ∃ check ∈ checks,
      (BitVec.ofInt 32 ((config.methods.lookup check).getD 0)).getLsbD i = true := by
  rw [← getLsbD_methodsOf, BitVec.getLsbD, Numeric.Int32.toNat_ofInt hrange.1 (by omega)]

/-! ### One call -/

/-- What is known of a credential that was normalized. -/
structure Normalized (L : Libraries) (config : ExternalCredentialAdapterConfig)
    (envelope : Envelope) (credential : NormalizedCredential) : Prop where
  subject : credential.subject = envelope.sub
  assurance : config.assurance.lookup envelope.proofmark.assurance = some credential.assurance
  regime : config.regimes.lookup envelope.proofmark.regime = some credential.regime
  jurisdiction : config.jurisdictions.lookup envelope.proofmark.jurisdiction =
    some credential.jurisdiction
  required : ∀ check ∈ config.requiredChecks, check ∈ envelope.proofmark.checks
  methods : credential.methods = methodsOf config envelope.proofmark.checks
  expiry : credential.expiry = min envelope.exp (envelope.iat + config.maxCredentialAgeSeconds)
  attrs : packAttrs ⟨1, credential.assurance, credential.regime, credential.jurisdiction,
    credential.methods, envelope.iat, credential.expiry, 0⟩ = .ok credential.attrs
  evidence : credential.evidenceHash = envelope.credentialDigest
  requestId : credential.requestId = requestIdOf L config envelope.jti

theorem normalized {envelope : Envelope} {credential : NormalizedCredential}
    (h : normalize L config envelope = .ok credential) :
    Normalized L config envelope credential := by
  simp only [normalize, bind_eq_ok, revertIf_eq_ok, exists_const, getOrRevert_eq_ok,
    mapError_eq_ok] at h
  obtain ⟨assurance, hassurance, regime, hregime, jurisdiction, hjurisdiction, hrequired, packed,
    hpacked, h⟩ := h
  obtain rfl := Except.ok.inj h
  rw [Bool.not_eq_false', List.all_eq_true] at hrequired
  exact ⟨rfl, hassurance, hregime, hjurisdiction,
    fun check hcheck ↦ List.contains_iff_mem.1 (hrequired check hcheck), rfl, rfl, hpacked, rfl, rfl⟩

/-- The low bits of a packed word are zero. -/
theorem solidity_and_low (a : MarkAttrsInput) : a.solidity &&& 0xffffffffffffffff = 0 := by
  rw [and_low_eq_zero_iff]
  refine BitVec.eq_of_getLsbD_eq fun i hi ↦ ?_
  rw [BitVec.getLsbD_setWidth, MarkAttrsInput.solidity, getLsbD_pack _ _ _ _ _ _ _ _ (by omega)]
  simp (disch := omega) only [decide_eq_true]
  simp

/-- **A packed credential is valid** within its times. -/
theorem validCredentialAttrs_of_packAttrs {a : MarkAttrsInput} {t : Text} {now : ℤ}
    (hpack : packAttrs a = .ok t) (hkind : a.kind = 1)
    (hassurance : 1 ≤ a.assurance ∧ a.assurance ≤ 5) (hregime : a.regime = 1 ∨ a.regime = 2)
    (hjurisdiction : 1 ≤ a.jurisdiction ∧ a.jurisdiction ≤ 999)
    (hmethods : Numeric.Int32.and a.methods (Numeric.Int32.not SUPPORTED_METHODS) = 0)
    (hissued : 0 < a.issuedAt) (hnow : a.issuedAt ≤ now) (hexpiry : now < a.expiry) :
    validCredentialAttrs t (some now) = true := by
  have hrange := inRange_of_packAttrs hpack
  rw [packAttrs_of_inRange hrange] at hpack
  obtain rfl := Except.ok.inj hpack
  have hsafe : isSafeInteger now = true := by
    have hlimit := hrange.expiry.2
    rw [isSafeInteger, Bool.and_eq_true, decide_eq_true_eq, decide_eq_true_eq]
    omega
  have hregime' : (a.regime == 1 || a.regime == 2) = true := by
    rw [Bool.or_eq_true, beq_iff_eq, beq_iff_eq]
    exact hregime
  rw [validCredentialAttrs, Text.isHexString_ofWord, Bool.not_true, if_neg Bool.false_ne_true,
    Text.toWord_ofWord, fieldsOf_solidity hrange, solidity_and_low]
  simp only [hmethods, hkind, BEq.rfl, Bool.true_or, Bool.true_and, Option.all_some, hregime', hsafe,
    Bool.and_eq_true, decide_eq_true_eq, Bool.and_true]
  omega

/-- A call that may claim its id. -/
theorem admitted {call : Call} {credential : NormalizedCredential}
    (h : admission J L config call = .ok (.claims credential)) :
    ∃ envelope, Authenticated J L config call.raw call.wallet call.observed envelope ∧
      Normalized L config envelope credential ∧ call.later < credential.expiry := by
  simp only [admission, bind_eq_ok, revertIf_eq_ok, exists_const] at h
  obtain ⟨envelope, henvelope, credential', hcredential, current, -, -, h⟩ := h
  split at h
  · cases Except.ok.inj h
  · simp only [bind_eq_ok, revertIf_eq_ok, exists_const, decide_eq_false_iff_not, not_le] at h
    obtain ⟨hexpiry, h⟩ := h
    cases Except.ok.inj h
    exact ⟨envelope, authenticated henvelope, normalized hcredential, hexpiry⟩

/-- The store is asked for the id of a call. -/
def Admitted (J : JsNumbers N) (L : Libraries) (config : ExternalCredentialAdapterConfig)
    (call : Call) : Prop :=
  ∃ credential, admission J L config call = .ok (.claims credential)

/-- The configured numbers of the checks a token lists are words. -/
def BitsOnly (J : JsNumbers N) (config : ExternalCredentialAdapterConfig) (call : Call) : Prop :=
  ∀ checks, checksOf J call.raw = some checks → ∀ check ∈ checks, ∀ v,
    config.methods.lookup check = some v → v < 2 ^ 32

theorem worth_of_admit (hconfig : Configured config) {call : Call}
    {credential : NormalizedCredential} (hbits : BitsOnly J config call)
    (hclock : call.observed ≤ call.later)
    (h : admission J L config call = .ok (.claims credential)) :
    Worth J L config call credential := by
  obtain ⟨envelope, henvelope, hcredential, hexpiry⟩ := admitted h
  have hrange := (inRange_of_packAttrs hcredential.attrs).methods
  rw [hcredential.methods] at hrange
  obtain ⟨sub, hsub, hsubject, hwallet⟩ := henvelope.subject
  have hlisted : ∀ i, credential.methods.toNat.testBit i = true →
      ∃ check ∈ envelope.proofmark.checks, config.methods.lookup check = some (2 ^ i) := by
    intro i hi
    rw [hcredential.methods, testBit_methodsOf hrange] at hi
    obtain ⟨check, hcheck, hbit⟩ := hi
    cases hlookup : config.methods.lookup check with
    | none => simp [hlookup] at hbit
    | some v =>
      obtain ⟨k, hk, rfl⟩ := exists_bit hconfig hlookup
        (hbits _ henvelope.checks check hcheck v hlookup)
      rw [hlookup, Option.getD_some, Numeric.Int32.getLsbD_two_pow hk, decide_eq_true_eq] at hbit
      exact ⟨check, hcheck, hbit ▸ hlookup⟩
  have hrequired : ∀ check ∈ config.requiredChecks, check ∈ envelope.proofmark.checks ∧
      ∃ i, config.methods.lookup check = some (2 ^ i) ∧ credential.methods.toNat.testBit i := by
    intro check hcheck
    have hmem := hcredential.required check hcheck
    obtain ⟨v, hlookup⟩ := Option.isSome_iff_exists.1 (hconfig.required check hcheck)
    obtain ⟨k, hk, rfl⟩ := exists_bit hconfig hlookup
      (hbits _ henvelope.checks check hmem v hlookup)
    refine ⟨hmem, k, hlookup, ?_⟩
    rw [hcredential.methods, testBit_methodsOf hrange]
    refine ⟨check, hmem, ?_⟩
    rw [hlookup, Option.getD_some, Numeric.Int32.getLsbD_two_pow hk, decide_eq_true_eq]
  have hregime := hconfig.regimes hcredential.regime
  have hage := hconfig.age
  exact {
    attrs := by
      refine validCredentialAttrs_of_packAttrs hcredential.attrs rfl
        (hconfig.assurance hcredential.assurance) ?_ (hconfig.jurisdictions hcredential.jurisdiction)
        ?_ henvelope.positive (henvelope.issued.trans hclock) hexpiry
      · show credential.regime = 1 ∨ credential.regime = 2
        rw [hregime]
        split
        · exact .inl rfl
        · exact .inr rfl
      · show Numeric.Int32.and credential.methods _ = 0
        rw [hcredential.methods, methods_supported hconfig]
    expiry_exp := ⟨envelope.exp, henvelope.exp, hcredential.expiry ▸ min_le_left _ _⟩
    expiry_age := ⟨envelope.iat, henvelope.iat, hcredential.expiry ▸ min_le_right _ _⟩
    methods_listed := ⟨_, henvelope.checks, hlisted⟩
    methods_required := ⟨_, henvelope.checks, hrequired⟩
    regime := ⟨_, henvelope.regime, hcredential.regime, hregime⟩
    subject := ⟨sub, hsub, hcredential.subject ▸ hsubject, hcredential.subject ▸ hwallet⟩ }

/-! ### Some calls -/

/-- A call that is active has claimed its id. -/
theorem consume_eq_active {store : ReplayStore} {call : Call} {replay : Replay}
    {requestId : Bytes32} {credential : NormalizedCredential}
    (h : (consume J L config store call).1 = .ok (.active replay requestId credential)) :
    admission J L config call = .ok (.claims credential) ∧
      (consume J L config store call).2 credential.requestId = some credential.evidenceHash := by
  unfold consume at h ⊢
  split at h
  case h_1 => cases h
  case h_2 => cases Except.ok.inj h
  case h_3 credential' hadmission =>
    rw [hadmission]
    cases hstore : store credential'.requestId with
    | none =>
      simp only [claim, hstore] at h ⊢
      cases Except.ok.inj h
      exact ⟨rfl, Function.update_self ..⟩
    | some existing =>
      simp only [claim, hstore] at h ⊢
      split_ifs at h ⊢ with heq
      cases Except.ok.inj h
      exact ⟨rfl, heq ▸ hstore⟩

theorem claim_store {store : ReplayStore} {r d : Bytes32} (h : store r = some d)
    (requestId credentialDigest : Bytes32) :
    (claim store requestId credentialDigest).2 r = some d := by
  unfold claim
  split
  case h_1 hnone =>
    have hne : r ≠ requestId := fun heq ↦ by
      rw [← heq, h] at hnone
      cases hnone
    exact (Function.update_of_ne hne ..).trans h
  case h_2 => exact h

/-- A claim stays. -/
theorem consume_store {store : ReplayStore} {r d : Bytes32} (h : store r = some d) (call : Call) :
    (consume J L config store call).2 r = some d := by
  unfold consume
  cases admission J L config call with
  | error e => exact h
  | ok admission =>
    cases admission with
    | revoked credential => exact h
    | claims credential =>
      have hclaim := claim_store h credential.requestId credential.evidenceHash
      rcases hresult : claim store credential.requestId credential.evidenceHash with ⟨replay, store'⟩
      rw [hresult] at hclaim
      simp only [hresult]
      cases replay <;> exact hclaim

/-- Later calls meet the claim. -/
theorem mem_outcomes {store : ReplayStore} {r d : Bytes32} (h : store r = some d)
    {calls : List Call} {q : Call × Except ExternalCredentialError Consumed}
    (hq : q ∈ outcomes J L config store calls) {credential : NormalizedCredential}
    (hadmission : admission J L config q.1 = .ok (.claims credential)) (hr : credential.requestId = r) :
    if d = credential.evidenceHash then IsActive q.2 else q.2 = .error .replayConflict := by
  induction calls generalizing store with
  | nil => cases hq
  | cons call calls ih =>
    rw [outcomes, List.mem_cons] at hq
    rcases hq with rfl | hq
    · have hconsume : (consume J L config store call).1 =
          if d = credential.evidenceHash
            then .ok (.active .duplicate credential.requestId credential)
            else .error .replayConflict := by
        simp only [consume, show admission J L config call = .ok (.claims credential) from hadmission, claim,
          hr, h]
        by_cases heq : d = credential.evidenceHash
        · simp [heq]
        · simp [heq]
      show if d = credential.evidenceHash then IsActive (consume J L config store call).1
        else (consume J L config store call).1 = .error .replayConflict
      rw [hconsume]
      split
      · exact ⟨_, _, _, rfl⟩
      · rfl
    · exact ih (consume_store h call) hq

/-- The result of a call is active in some store. -/
theorem exists_store_of_mem_outcomes {store : ReplayStore} {calls : List Call}
    {p : Call × Except ExternalCredentialError Consumed}
    (hp : p ∈ outcomes J L config store calls) :
    p.1 ∈ calls ∧ ∃ store', p.2 = (consume J L config store' p.1).1 := by
  induction calls generalizing store with
  | nil => cases hp
  | cons call calls ih =>
    rw [outcomes, List.mem_cons] at hp
    rcases hp with rfl | hp
    · exact ⟨List.mem_cons_self, store, rfl⟩
    · obtain ⟨hmem, hstore⟩ := ih hp
      exact ⟨List.mem_cons_of_mem _ hmem, hstore⟩

/-- One id is spelled in one way. -/
def OneSpelling (J : JsNumbers N) (L : Libraries) (config : ExternalCredentialAdapterConfig)
    (calls : List Call) : Prop :=
  ∀ p ∈ calls, ∀ q ∈ calls, Admitted J L config p → Admitted J L config q →
    idOf J p.raw = idOf J q.raw → jtiOf J p.raw = jtiOf J q.raw

/-- The first of some calls excludes those after it. -/
theorem exclusive_of_mem {store : ReplayStore} {call : Call} {calls : List Call}
    (hspelling : OneSpelling J L config (call :: calls))
    (hfree : CollisionFree keccak256 {b | ∃ c ∈ call :: calls, b = Text.utf8 c.raw})
    {q : Call × Except ExternalCredentialError Consumed}
    (hq : q ∈ outcomes J L config (consume J L config store call).2 calls) :
    Exclusive J L config (call, (consume J L config store call).1) q := by
  obtain ⟨hmem, store', hstore'⟩ := exists_store_of_mem_outcomes hq
  have hbytes : ∀ {credential credential' : NormalizedCredential},
      admission J L config call = .ok (.claims credential) →
      admission J L config q.1 = .ok (.claims credential') →
      idOf J call.raw = idOf J q.1.raw → IsActive (consume J L config store call).1 →
      if call.raw = q.1.raw then IsActive q.2 else q.2 = .error .replayConflict := by
    rintro credential credential' hadmission hadmission' hid ⟨replay, requestId, credential'', hactive⟩
    obtain ⟨hclaims, hstored⟩ := consume_eq_active hactive
    obtain rfl : credential'' = credential := by
      rw [hadmission] at hclaims
      cases hclaims
      rfl
    obtain ⟨envelope, henvelope, hcredential, -⟩ := admitted hadmission
    obtain ⟨envelope', henvelope', hcredential', -⟩ := admitted hadmission'
    have hjti : envelope.jti = envelope'.jti := by
      have hspelled := hspelling call List.mem_cons_self q.1 (List.mem_cons_of_mem _ hmem)
        ⟨_, hadmission⟩ ⟨_, hadmission'⟩ hid
      rw [henvelope.jti, henvelope'.jti] at hspelled
      exact Option.some.inj hspelled
    have hresult := mem_outcomes hstored hq hadmission'
      (by rw [hcredential.requestId, hcredential'.requestId, hjti])
    have hdigest : credential''.evidenceHash = credential'.evidenceHash ↔ call.raw = q.1.raw := by
      rw [hcredential.evidence, hcredential'.evidence, henvelope.digest, henvelope'.digest]
      refine ⟨fun heq ↦ ?_, fun heq ↦ by rw [heq]⟩
      exact Text.utf8_injective (hfree.eq ⟨call, List.mem_cons_self, rfl⟩
        ⟨q.1, List.mem_cons_of_mem _ hmem, rfl⟩ heq)
    simpa only [hdigest] using hresult
  constructor
  · rintro hid ⟨replay, requestId, credential, hp⟩ ⟨replay', requestId', credential', hq'⟩
    by_contra hne
    have hresult := hbytes (consume_eq_active hp).1
      (consume_eq_active (hstore' ▸ hq')).1 hid ⟨_, _, _, hp⟩
    rw [if_neg hne, hq'] at hresult
    cases hresult
  · rintro hid ⟨replay, requestId, credential, hp⟩ hne credential' hadmission'
    have hresult := hbytes (consume_eq_active hp).1 hadmission' hid ⟨_, _, _, hp⟩
    rwa [if_neg hne] at hresult

theorem pairwise_outcomes {store : ReplayStore} {calls : List Call}
    (hspelling : OneSpelling J L config calls)
    (hfree : CollisionFree keccak256 {b | ∃ c ∈ calls, b = Text.utf8 c.raw}) :
    (outcomes J L config store calls).Pairwise (Exclusive J L config) := by
  induction calls generalizing store with
  | nil => exact List.Pairwise.nil
  | cons call calls ih =>
    rw [outcomes, List.pairwise_cons]
    refine ⟨fun q hq ↦ exclusive_of_mem hspelling hfree hq, ih ?_ ?_⟩
    · exact fun p hp q hq ↦
        hspelling p (List.mem_cons_of_mem _ hp) q (List.mem_cons_of_mem _ hq)
    · exact hfree.mono fun b ⟨c, hc, hb⟩ ↦ ⟨c, List.mem_cons_of_mem _ hc, hb⟩

/-- **Every active result is worth what it says**, and no provider id is accepted twice. -/
theorem outcomes_worth (J : JsNumbers N) (L : Libraries) (config : ExternalCredentialAdapterConfig)
    (hconfig : validateConfig L.toAddresses config = .ok ()) (calls : List Call)
    (hclock : ∀ call ∈ calls, call.observed ≤ call.later)
    (hfree : CollisionFree keccak256 {b | ∃ c ∈ calls, b = Text.utf8 c.raw})
    (hbits : ∀ call ∈ calls, Admitted J L config call → BitsOnly J config call)
    (hspelling : OneSpelling J L config calls) :
    Worthy J L config (outcomes J L config (fun _ ↦ none) calls) := by
  refine ⟨fun p hp replay requestId credential hactive ↦ ?_, pairwise_outcomes hspelling hfree⟩
  obtain ⟨hmem, store, hstore⟩ := exists_store_of_mem_outcomes hp
  rw [hstore] at hactive
  have hadmission := (consume_eq_active hactive).1
  exact worth_of_admit (configured hconfig) (hbits _ hmem ⟨_, hadmission⟩) (hclock _ hmem) hadmission

/-! ### One credential, spelled twice -/

def sampleConfig : ExternalCredentialAdapterConfig where
  id := "p".toList
  issuerId := "i".toList
  issuerAddress := "0x19e7e376e7c213b7e7e7e46cc70a5dd086daff2a".toList
  keyId := "k".toList
  audience := "a".toList
  product := "d".toList
  environment := "production".toList
  publication := ⟨"adapter".toList, "0x1111111111111111111111111111111111111111".toList⟩
  assurance := [("s".toList, 3)]
  regimes := [("r".toList, 1)]
  jurisdictions := [("KR".toList, 410)]
  methods := [("c".toList, 1)]
  requiredChecks := ["c".toList]
  maxCredentialAgeSeconds := 86400
  credentialIdHmacKey := List.replicate 32 'k'

/-- `Buffer.from(t).toString('base64url')` -/
def segment (t : Text) : Text :=
  (toBase64Url (Text.utf8 t)).map base64UrlDigit

/-- The first two segments of a token. -/
def signingInput (jti : Text) : Text :=
  segment "\x7b\"alg\":\"ES256K\",\"typ\":\"JWT\",\"kid\":\"k\"\x7d".toList ++ '.' ::
    segment ("\x7b\"iss\":\"i\",\"aud\":\"a\",\"sub\":\"0x".toList ++ List.replicate 40 '1' ++
      "\",\"jti\":\"".toList ++ jti ++ "\",\"iat\":100,\"exp\":200,\"proofmark\":".toList ++
      "\x7b\"schema\":\"proofmark-external-jwt-v1\",".toList ++
      "\"provider\":\"p\",\"product\":\"d\",".toList ++
      "\"environment\":\"production\",\"assurance\":\"s\",".toList ++
      "\"regime\":\"r\",\"jurisdiction\":\"KR\",".toList ++
      "\"checks\":[\"c\"],\"evidenceDigest\":\"0x".toList ++ List.replicate 64 '2' ++
      "\"\x7d\x7d".toList)

/-- A spelling of one id. -/
def spelled (a b : Char) : Text :=
  '0' :: 'x' :: (List.replicate 32 [a, b]).flatten

/-- The provider signed the id in small letters and in capitals. -/
def sampleCall (capitals : Bool) : Call where
  raw :=
    if capitals then signingInput (spelled 'A' 'B') ++ '.' ::
      ("MN9_Au0AohwySP434MbDZTaLBuakSCCjwBvGHzMOs5FR1DskoyeS0Lt6a_5WZrKe53avywmZAP28rB62vWojrw"
        ).toList
    else signingInput (spelled 'a' 'b') ++ '.' ::
      ("n-940QutlHcIslCi9WpV1mHpd804OoKP3Qd0AqpnTOFJPyDmx5nvVK16dAdULlMB3N7ICzdiUe1VUY54VUn34g"
        ).toList
  wallet := "0x1111111111111111111111111111111111111111".toList
  observed := 150
  later := 150
  answer := .answered "active".toList

/-- The libraries on the two tokens. -/
def sampleLibraries : Libraries where
  toAddresses := eip55
  sha256 input :=
    if input = Text.utf8 (signingInput (spelled 'a' 'b'))
      then 0xeb47e99042ede48abff56efc090f927852487649bd039183ccf76373ad4ca68d
      else 0x158a79032dee0c2e44695159e902639157b5be7e0103b43417642cfa3483274c
  recoverAddress digest _ _ odd :=
    if odd == (digest == 0x158a79032dee0c2e44695159e902639157b5be7e0103b43417642cfa3483274c)
      then some sampleConfig.issuerAddress
      else if odd then some "0x030bff81b57c5919747f9be0c9ce31d02b000834".toList
        else some "0x907621b41bbdbfd264f6d76871696cfcdc340a40".toList
  hmacSha256 _ data :=
    if data = Text.utf8 (idText sampleConfig (spelled 'a' 'b'))
      then 0x3b4427435076e284f27da8aedd991dc38d0c46ba1befb53bf1c3a63ee986e882
      else 0x3b4e4e7f0bb6b7264979c53e5da2c2796031ff0bd6f2740fe7870dc3ee2430f5

instance (r : Except ExternalCredentialError Consumed) : Decidable (IsActive r) :=
  match r with
  | .ok (.active _ _ _) => .isTrue ⟨_, _, _, rfl⟩
  | .ok (.revoked _ _ _ _) => .isFalse fun ⟨_, _, _, h⟩ ↦ by cases h
  | .error _ => .isFalse fun ⟨_, _, _, h⟩ ↦ by cases h

/-- The request of a credential that is admitted. -/
def requestOf : Except ExternalCredentialError Admission → Option Bytes32
  | .ok (.claims credential) => some credential.requestId
  | _ => none

/-- A credential whose request the store does not know is active. -/
theorem isActive_of_requestOf (store : ReplayStore) {call : Call} {r : Bytes32}
    (hr : requestOf (admission J L config call) = some r) (hfree : store r = none) :
    IsActive (consume J L config store call).1 ∧
      ∃ digest, (consume J L config store call).2 = Function.update store r (some digest) := by
  rcases hadmission : admission J L config call with e | (credential | credential)
  · rw [hadmission] at hr
    cases hr
  · rw [hadmission] at hr
    cases hr
  · rw [hadmission] at hr
    obtain rfl : credential.requestId = r := Option.some.inj hr
    simp only [consume, hadmission, claim, hfree]
    exact ⟨⟨_, _, _, rfl⟩, _, rfl⟩

/-- The credential may claim its id. -/
def mayClaim : Except ExternalCredentialError Admission → Bool
  | .ok (.claims _) => true
  | _ => false

/-- The request of a credential that is admitted. -/
theorem requestOf_of_mayClaim {call : Call} {jti : Text}
    (h : mayClaim (admission J L config call) = true) (hjti : jtiOf J call.raw = some jti) :
    requestOf (admission J L config call) = some (requestIdOf L config jti) := by
  rcases hadmission : admission J L config call with e | (credential | credential)
  · rw [hadmission] at h
    cases h
  · rw [hadmission] at h
    cases h
  · obtain ⟨envelope, henvelope, hcredential, -⟩ := admitted hadmission
    rw [requestOf, hcredential.requestId, Option.some.inj (henvelope.jti.symm.trans hjti)]

/-- The two ids make two requests, although they are one id. -/
theorem requestOf_sampleCalls :
    requestOf (admission wholeNumbers sampleLibraries sampleConfig (sampleCall false)) =
        some 0xae5c748298f8c29639ae416c0b6454ceac5e904e08df0ecfe64a68989cc353eb ∧
      requestOf (admission wholeNumbers sampleLibraries sampleConfig (sampleCall true)) =
        some 0x2e02ae4710beb5ce2b90c6f1f9b857988e00bd1073cf2343c75e2d6cac5702d6 ∧
      idOf wholeNumbers (sampleCall false).raw = idOf wholeNumbers (sampleCall true).raw ∧
      (sampleCall false).raw ≠ (sampleCall true).raw := by
  -- both tokens may claim, each what it spells
  obtain ⟨hsmall, hcapitals, hjti, hjti'⟩ :
      mayClaim (admission wholeNumbers sampleLibraries sampleConfig (sampleCall false)) = true ∧
        mayClaim (admission wholeNumbers sampleLibraries sampleConfig (sampleCall true)) = true ∧
        jtiOf wholeNumbers (sampleCall false).raw = some (spelled 'a' 'b') ∧
        jtiOf wholeNumbers (sampleCall true).raw = some (spelled 'A' 'B') := by
    unfold sampleCall sampleLibraries signingInput sampleConfig
    repeat rw [String.toList_ofList]
    exact ⟨by decide +kernel, by decide +kernel, by decide +kernel, by decide +kernel⟩
  have hissuer : keccak256 (Text.utf8 sampleConfig.publication.sourceIssuer) =
      0xefda2c2822100aaf94fb77c3765831ce37fc3c02cbc11603dd6ffa9c0d25ec55 := by decide +kernel
  have hrequest : requestIdOf sampleLibraries sampleConfig (spelled 'a' 'b') =
      0xae5c748298f8c29639ae416c0b6454ceac5e904e08df0ecfe64a68989cc353eb := by
    rw [requestIdOf, hissuer]
    decide +kernel
  have hrequest' : requestIdOf sampleLibraries sampleConfig (spelled 'A' 'B') =
      0x2e02ae4710beb5ce2b90c6f1f9b857988e00bd1073cf2343c75e2d6cac5702d6 := by
    rw [requestIdOf, hissuer]
    decide +kernel
  refine ⟨(requestOf_of_mayClaim hsmall hjti).trans (congrArg some hrequest),
    (requestOf_of_mayClaim hcapitals hjti').trans (congrArg some hrequest'), ?_, ?_⟩
  · have hword : Text.toWord (spelled 'a' 'b') = Text.toWord (spelled 'A' 'B') := by decide +kernel
    refine (congrArg (Option.map Text.toWord) hjti).trans ?_
    refine Eq.trans ?_ (congrArg (Option.map Text.toWord) hjti').symm
    exact congrArg some hword
  · intro hraw
    rw [hraw, hjti'] at hjti
    exact absurd hjti (by decide +kernel)

/-- A token is worth what it says. -/
theorem outcomes_worth_sampleCall :
    Worthy wholeNumbers sampleLibraries sampleConfig
      (outcomes wholeNumbers sampleLibraries sampleConfig (fun _ ↦ none) [sampleCall false]) := by
  refine outcomes_worth wholeNumbers sampleLibraries sampleConfig
    (by decide +kernel) [sampleCall false] ?_ ?_ ?_ ?_
  · exact List.forall_mem_singleton.2 le_rfl
  · rintro a ⟨c, hc, rfl⟩ b ⟨d, hd, rfl⟩ -
    rw [List.mem_singleton.1 hc, List.mem_singleton.1 hd]
  · rintro call - - checks - check - v hv
    obtain rfl : v = 1 := congrArg Prod.snd (List.mem_singleton.1 (mem_of_lookup hv))
    norm_num
  · rintro p hp q hq - - -
    rw [List.mem_singleton.1 hp, List.mem_singleton.1 hq]

/-- **The id in other letters is another id**, and its credential is active twice. -/
theorem consumed_in_other_letters :
    ¬∀ (config : ExternalCredentialAdapterConfig) (calls : List Call),
      validateConfig sampleLibraries.toAddresses config = .ok () →
      (∀ call ∈ calls, call.observed ≤ call.later) →
      Worthy wholeNumbers sampleLibraries config
        (outcomes wholeNumbers sampleLibraries config (fun _ ↦ none) calls) := by
  intro h
  have hworthy := h sampleConfig [sampleCall false, sampleCall true] (by decide +kernel)
    (by decide +kernel)
  have hexclusive := hworthy.exclusive
  rw [outcomes, outcomes, outcomes, List.pairwise_cons, List.forall_mem_singleton] at hexclusive
  have hsame : ∀ {c d : Call} {r r' : Except ExternalCredentialError Consumed},
      Exclusive wholeNumbers sampleLibraries sampleConfig (c, r) (d, r') →
      idOf wholeNumbers c.raw = idOf wholeNumbers d.raw → IsActive r → IsActive r' →
      c.raw = d.raw := fun h ↦ h.same
  obtain ⟨hsmall, hcapitals, hid, hraw⟩ := requestOf_sampleCalls
  obtain ⟨hactive, digest, hstore⟩ := isActive_of_requestOf (fun _ ↦ none) hsmall rfl
  refine hraw (hsame hexclusive.1 hid hactive (isActive_of_requestOf _ hcapitals ?_).1)
  rw [hstore]
  exact Function.update_of_ne (by decide) _ _

/-- What is checked of a configured number are its low 32 bits. -/
example : isMethodBit (2 ^ 32) = true ∧ methodsOf ⟨[], [], [], [], [], [], [], ⟨[], []⟩, [], [], [],
    [(['c'], 2 ^ 32)], [['c']], 1, []⟩ [['c']] = 0 := by
  decide

end Proofmark.Pipeline.ExternalCredential
