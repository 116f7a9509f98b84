import Proofmark.Contracts.ProofmarkRegistry
import Proofmark.Pipeline.Attrs

/-!
# One codec, in three places

The packed attributes are written and read by `attrs.ts`, by `MarkAttrs.sol`, and a third time by
the contracts that unpack a word into a mark and pack it again. `CodecAgrees` says that the three
are one codec. A text stands for the word it spells, in either letter case.
-/

open Evm

namespace Proofmark.Pipeline

/-! ### The words the texts spell -/

/-- Every field is within its limit. -/
structure MarkAttrsInput.InRange (a : MarkAttrsInput) : Prop where
  kind : 0 ≤ a.kind ∧ a.kind ≤ 0xff
  assurance : 0 ≤ a.assurance ∧ a.assurance ≤ 0xff
  regime : 0 ≤ a.regime ∧ a.regime ≤ 0xffff
  jurisdiction : 0 ≤ a.jurisdiction ∧ a.jurisdiction ≤ 0xffff
  methods : 0 ≤ a.methods ∧ a.methods ≤ 0xffffffff
  issuedAt : 0 ≤ a.issuedAt ∧ a.issuedAt ≤ 0xffffffffff
  expiry : 0 ≤ a.expiry ∧ a.expiry ≤ 0xffffffffff
  epoch : 0 ≤ a.epoch ∧ a.epoch ≤ 0xffffffff

/-- `MarkAttrs.pack` of the fields. -/
def MarkAttrsInput.solidity (a : MarkAttrsInput) : Bytes32 :=
  MarkAttrs.pack (BitVec.ofInt 8 a.kind) (BitVec.ofInt 8 a.assurance) (BitVec.ofInt 16 a.regime)
    (BitVec.ofInt 16 a.jurisdiction) (BitVec.ofInt 32 a.methods) (BitVec.ofInt 40 a.issuedAt)
    (BitVec.ofInt 40 a.expiry) (BitVec.ofInt 32 a.epoch)

/-- The fields the contracts read. -/
def accessors (v : Bytes32) : MarkAttrsInput where
  kind := (MarkAttrs.kind v).toNat
  assurance := (MarkAttrs.assurance v).toNat
  regime := (MarkAttrs.regime v).toNat
  jurisdiction := (MarkAttrs.jurisdiction v).toNat
  methods := (MarkAttrs.methods v).toNat
  issuedAt := (MarkAttrs.issuedAt v).toNat
  expiry := (MarkAttrs.expiry v).toNat
  epoch := (MarkAttrs.epoch v).toNat

/-- A word with its low 64 bits cleared. -/
def clearReserved (v : Bytes32) : Bytes32 :=
  v &&& ~~~(0xffffffffffffffff : Bytes32)

/-- The codec of `attrs.ts` is that of the contracts. -/
structure CodecAgrees : Prop where
  /-- fields in range survive being packed -/
  unpack_pack (a : MarkAttrsInput) (h : a.InRange) :
    ∃ t, packAttrs a = .ok t ∧ unpackAttrs t = .ok a
  /-- they are packed into the word the contracts pack them into -/
  pack_solidity (a : MarkAttrsInput) (h : a.InRange) :
    packAttrs a = .ok (Text.ofWord a.solidity)
  /-- a word survives being unpacked, but for its reserved bits -/
  pack_unpack (t : Text) (h : Text.isHexString t 32 = true) :
    ∃ a, unpackAttrs t = .ok a ∧
      packAttrs a = .ok (Text.ofWord (clearReserved (Text.toWord t)))
  /-- the fields read off chain are those read on chain -/
  unpack_solidity (t : Text) (h : Text.isHexString t 32 = true) :
    unpackAttrs t = .ok (accessors (Text.toWord t))
  /-- a word is valid off chain if and only if it is valid on chain -/
  valid (t : Text) (h : Text.isHexString t 32 = true) :
    validCredentialAttrs t none = MarkAttrs.validSchema (Text.toWord t)
  /-- also at a time -/
  validAt (t : Text) (h : Text.isHexString t 32 = true) (now : ℤ)
    (hsafe : isSafeInteger now = true) (hnow : 0 ≤ now) :
    validCredentialAttrs t (some now) = MarkAttrs.validAtIssuance (Text.toWord t) now.toNat
  /-- a valid word that is stored in a mark is the word its fields are packed into -/
  stored (v : Bytes32) (h : MarkAttrs.validSchema v = true) (r : SubjectRecord) (issuer : Address)
    (claimsRoot evidenceHash : Bytes32) :
    let m := (r.storeMark v issuer claimsRoot evidenceHash).mark
    MarkAttrs.pack m.kind m.assurance m.regime m.jurisdiction m.methods m.issuedAt m.expiry
      m.epoch = v
  /-- the registry decides on the word that was stored -/
  decided (v : Bytes32) (h : MarkAttrs.validSchema v = true) (r : SubjectRecord) (issuer : Address)
    (claimsRoot evidenceHash : Bytes32) (g : ProofmarkRegistry) (asc : ProofmarkASC) (now : ℕ)
    (subject : Address) (policyId : Uint 256)
    (hmark : asc.getMark subject = (r.storeMark v issuer claimsRoot evidenceHash).mark)
    (hdirect : (g.policies policyId).requireRoster = false) :
    g.isVerified asc now subject policyId = ((g.policies policyId).exists_ &&
      !asc.tombstone subject && asc.isMarkIssuerUsable subject &&
      ProofmarkRegistry.policyHolds v issuer (g.policies policyId) (g.policyKind policyId) now)

/-! ### The laws -/

/-- A number within the limit of a field is the number of its machine field. -/
theorem toNat_ofInt_of_le {N : ℕ} {z : ℤ} (h : 0 ≤ z ∧ z ≤ 2 ^ N - 1) :
    ((BitVec.ofInt N z).toNat : ℤ) = z := by
  rw [BitVec.toNat_ofInt, Int.toNat_of_nonneg (Int.emod_nonneg _ (by positivity))]
  exact Int.emod_eq_of_lt h.1 (by push_cast; omega)

/-- Fields in range are machine fields. -/
theorem packAttrs_of_inRange {a : MarkAttrsInput} (h : a.InRange) :
    packAttrs a = .ok (Text.ofWord a.solidity) := by
  have hpack := packAttrs_eq (BitVec.ofInt 8 a.kind) (BitVec.ofInt 8 a.assurance)
    (BitVec.ofInt 16 a.regime) (BitVec.ofInt 16 a.jurisdiction) (BitVec.ofInt 32 a.methods)
    (BitVec.ofInt 40 a.issuedAt) (BitVec.ofInt 40 a.expiry) (BitVec.ofInt 32 a.epoch)
  rwa [toNat_ofInt_of_le h.kind, toNat_ofInt_of_le h.assurance, toNat_ofInt_of_le h.regime,
    toNat_ofInt_of_le h.jurisdiction, toNat_ofInt_of_le h.methods, toNat_ofInt_of_le h.issuedAt,
    toNat_ofInt_of_le h.expiry, toNat_ofInt_of_le h.epoch] at hpack

theorem inRange_of_checkField {value : ℤ} {max : ℤ} (h : checkField value max = .ok ()) :
    0 ≤ value ∧ value ≤ max := by
  unfold checkField at h
  by_cases hsafe : isSafeInteger value
  · by_cases hrange : value < 0 ∨ max < value
    · simp [hsafe, hrange] at h
    · omega
  · simp [hsafe, bind, Except.bind] at h

/-- Only fields in range are packed. -/
theorem inRange_of_packAttrs {a : MarkAttrsInput} {t : Text} (h : packAttrs a = .ok t) :
    a.InRange := by
  simp only [packAttrs, bind_eq_ok] at h
  obtain ⟨⟨⟩, h₁, ⟨⟩, h₂, ⟨⟩, h₃, ⟨⟩, h₄, ⟨⟩, h₅, ⟨⟩, h₆, ⟨⟩, h₇, ⟨⟩, h₈, -⟩ := h
  exact ⟨inRange_of_checkField h₁, inRange_of_checkField h₂, inRange_of_checkField h₃,
    inRange_of_checkField h₄, inRange_of_checkField h₅, inRange_of_checkField h₆,
    inRange_of_checkField h₇, inRange_of_checkField h₈⟩

section Fields

variable (kind assurance : Uint 8) (regime jurisdiction : Uint 16) (methods : Uint 32)
  (issuedAt expiry : Uint 40) (epoch : Uint 32)

/-- The bits of a packed word. -/
theorem getLsbD_pack {i : ℕ} (hi : i < 256) :
    (MarkAttrs.pack kind assurance regime jurisdiction methods issuedAt expiry epoch).getLsbD i =
      (!decide (i < 248) && kind.getLsbD (i - 248) ||
        !decide (i < 240) && assurance.getLsbD (i - 240) ||
        !decide (i < 224) && regime.getLsbD (i - 224) ||
        !decide (i < 208) && jurisdiction.getLsbD (i - 208) ||
        !decide (i < 176) && methods.getLsbD (i - 176) ||
        !decide (i < 136) && issuedAt.getLsbD (i - 136) ||
        !decide (i < 96) && expiry.getLsbD (i - 96) ||
        !decide (i < 64) && epoch.getLsbD (i - 64)) := by
  simp [MarkAttrs.pack, hi]

/-- **Fields that are packed are read back.** -/
theorem accessors_pack :
    accessors (MarkAttrs.pack kind assurance regime jurisdiction methods issuedAt expiry epoch) =
      ⟨kind.toNat, assurance.toNat, regime.toNat, jurisdiction.toNat, methods.toNat,
        issuedAt.toNat, expiry.toNat, epoch.toNat⟩ := by
  have hfield {width : ℕ} (offset : ℕ) (field : Uint width) (hend : offset + width ≤ 256)
      (hbits : ∀ i < width, (MarkAttrs.pack kind assurance regime jurisdiction methods issuedAt
        expiry epoch).getLsbD (offset + i) = field.getLsbD i) :
      ((MarkAttrs.pack kind assurance regime jurisdiction methods issuedAt expiry epoch >>>
        offset).setWidth width) = field := by
    refine BitVec.eq_of_getLsbD_eq fun i hi ↦ ?_
    rw [BitVec.getLsbD_setWidth, BitVec.getLsbD_ushiftRight, hbits i hi, decide_eq_true hi,
      Bool.true_and]
  simp only [accessors, MarkAttrs.kind, MarkAttrs.assurance, MarkAttrs.regime,
    MarkAttrs.jurisdiction, MarkAttrs.methods, MarkAttrs.issuedAt, MarkAttrs.expiry,
    MarkAttrs.epoch]
  -- the other fields have no bits at the place of a field
  rw [hfield 248 kind, hfield 240 assurance, hfield 224 regime, hfield 208 jurisdiction,
    hfield 176 methods, hfield 136 issuedAt, hfield 96 expiry, hfield 64 epoch]
  all_goals first
    | norm_num; done
    | intro i hi
      rw [getLsbD_pack _ _ _ _ _ _ _ _ (by omega)]
      simp (disch := omega) only [decide_eq_true, decide_eq_false, BitVec.getLsbD_of_ge,
        Nat.add_sub_cancel_left, Bool.not_true, Bool.not_false, Bool.false_and, Bool.true_and,
        Bool.and_false, Bool.or_false, Bool.false_or]

end Fields

/-- What is read off chain is what is read on chain. -/
theorem fieldsOf_eq_accessors (v : Bytes32) : fieldsOf v = accessors v :=
  rfl

theorem fieldsOf_solidity {a : MarkAttrsInput} (h : a.InRange) : fieldsOf a.solidity = a := by
  rw [fieldsOf_eq_accessors, MarkAttrsInput.solidity, accessors_pack,
    toNat_ofInt_of_le h.kind, toNat_ofInt_of_le h.assurance, toNat_ofInt_of_le h.regime,
    toNat_ofInt_of_le h.jurisdiction, toNat_ofInt_of_le h.methods, toNat_ofInt_of_le h.issuedAt,
    toNat_ofInt_of_le h.expiry, toNat_ofInt_of_le h.epoch]

/-- Repacking clears the reserved bits and nothing else. -/
theorem repack_eq_clearReserved (v : Bytes32) : repack v = clearReserved v := by
  refine BitVec.eq_of_getLsbD_eq fun i hi ↦ ?_
  have hmask : (0xffffffffffffffff : Bytes32) = (BitVec.allOnes 64).setWidth 256 := by decide
  rw [getLsbD_repack v hi, clearReserved, BitVec.getLsbD_and, BitVec.getLsbD_not, hmask,
    BitVec.getLsbD_setWidth, BitVec.getLsbD_allOnes]
  by_cases h64 : i < 64
  · simp [h64, hi]
  · simp [h64, hi, not_lt.1 h64, Bool.and_comm]

/-- The check of a text is the check of the word it spells. -/
theorem validCredentialAttrs_toWord {t : Text} (h : Text.isHexString t 32 = true)
    (now : Option ℤ) :
    validCredentialAttrs t now = validCredentialAttrs (Text.ofWord (Text.toWord t)) now := by
  rw [validCredentialAttrs, validCredentialAttrs, h, Text.isHexString_ofWord, Text.toWord_ofWord]

/-- The fields of a stored mark are packed into the word they were unpacked from. -/
theorem pack_storeMark {v : Bytes32} (h : MarkAttrs.validSchema v = true) (r : SubjectRecord)
    (issuer : Address) (claimsRoot evidenceHash : Bytes32) :
    let m := (r.storeMark v issuer claimsRoot evidenceHash).mark
    MarkAttrs.pack m.kind m.assurance m.regime m.jurisdiction m.methods m.issuedAt m.expiry
      m.epoch = v :=
  MarkAttrs.pack_unpack h

/-- **The attributes have one codec.** -/
theorem codec_agrees : CodecAgrees where
  unpack_pack a h := ⟨_, packAttrs_of_inRange h, by
    rw [unpackAttrs_ofWord, fieldsOf_solidity h]⟩
  pack_solidity a h := packAttrs_of_inRange h
  pack_unpack t h := ⟨_, by rw [unpackAttrs, if_pos h], by
    rw [packAttrs_fieldsOf, repack_eq_clearReserved]⟩
  unpack_solidity t h := by rw [unpackAttrs, if_pos h, fieldsOf_eq_accessors]
  valid t h := by rw [validCredentialAttrs_toWord h, validCredentialAttrs_ofWord]
  validAt t h now hsafe hnow := by
    obtain ⟨n, rfl⟩ := Int.eq_ofNat_of_zero_le hnow
    rw [isSafeInteger, Bool.and_eq_true, decide_eq_true_eq, decide_eq_true_eq] at hsafe
    have hn : n ≤ 2 ^ 53 - 1 := by omega
    rw [validCredentialAttrs_toWord h, validCredentialAttrs_now_ofWord _ hn, Int.toNat_natCast]
  stored v h := pack_storeMark h
  decided v h r issuer claimsRoot evidenceHash g asc now subject policyId hmark hdirect := by
    have hfresh : ProofmarkRegistry.fresh asc now
        (r.storeMark v issuer claimsRoot evidenceHash).mark (g.policies policyId) = true := by
      show (MarkOrigin.Direct == .Direct && !(g.policies policyId).requireRoster) = true
      rw [hdirect]
      rfl
    have hissuer : (r.storeMark v issuer claimsRoot evidenceHash).mark.issuer = issuer := rfl
    have hstatus : (r.storeMark v issuer claimsRoot evidenceHash).mark.status = .Active := rfl
    simp only [ProofmarkRegistry.isVerified, hdirect, hmark, hfresh, hstatus, hissuer,
      pack_storeMark h]
    cases (g.policies policyId).exists_ <;> cases asc.tombstone subject <;>
      cases asc.isMarkIssuerUsable subject <;> simp

end Proofmark.Pipeline
