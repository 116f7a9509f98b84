import Mathlib.Tactic.NormNum
import Proofmark.Contracts.Types
import Proofmark.Numeric.Int32
import Proofmark.Pipeline.Json

/-!
# The packed attributes, off chain

`attrs.ts`. The functions work on hex strings and on JavaScript numbers; the contracts work on the
word itself. They agree: what `unpackAttrs` reads are the fields of the word
(`unpackAttrs_ofWord`), `packAttrs` writes the word `MarkAttrs.pack` builds (`packAttrs_eq`), and
`validCredentialAttrs` is the schema of the contracts (`validCredentialAttrs_ofWord`), although its
mask is a 32-bit operation.

Packing what was unpacked is not the identity: the reserved bits are gone
(`packAttrs_unpackAttrs`).
-/

open Evm

namespace Proofmark.Pipeline

namespace Text

/-! ### Words from hex strings -/

/-- The value of a hex digit. -/
def hexValue (c : Char) : ℕ :=
  if c.isDigit then c.toNat - 48 else if 'a' ≤ c then c.toNat - 87 else c.toNat - 55

/-- The number a text of hex digits spells. -/
def hexNat (t : Text) : ℕ :=
  t.foldl (fun acc c ↦ acc * 16 + hexValue c) 0

/-- `BigInt` of a 32-byte hex string. -/
def toWord (t : Text) : Bytes32 :=
  BitVec.ofNat 256 (hexNat (t.drop 2))

theorem isHexDigit_hexDigit : ∀ n < 16, isHexDigit (hexDigit n) = true := by
  decide

theorem hexValue_hexDigit : ∀ n < 16, hexValue (hexDigit n) = n := by
  decide

theorem div_lt_sixteen (b : Byte) : b.toNat / 16 < 16 := by
  have hb := b.isLt
  omega

theorem toLower_hexDigit : ∀ n < 16, (hexDigit n).toLower = hexDigit n := by
  decide

theorem hexNat_concat (t : Text) (c : Char) : hexNat (t ++ [c]) = hexNat t * 16 + hexValue c := by
  rw [hexNat, List.foldl_append]
  rfl

/-- Bytes are written without capitals. -/
@[simp]
theorem lower_ofBytes (bs : Bytes) : lower (ofBytes bs) = ofBytes bs := by
  rw [lower, ofBytes, List.map_cons, List.map_cons, List.map_flatMap]
  have hbytes : ∀ bs : Bytes, (bs.flatMap fun b ↦
      [hexDigit (b.toNat / 16), hexDigit (b.toNat % 16)].map Char.toLower) =
      bs.flatMap fun b ↦ [hexDigit (b.toNat / 16), hexDigit (b.toNat % 16)] := by
    intro bs
    refine List.flatMap_congr fun b _ ↦ ?_
    rw [List.map_cons, List.map_cons, List.map_nil, toLower_hexDigit _ (div_lt_sixteen b),
      toLower_hexDigit _ (Nat.mod_lt _ (by norm_num))]
  rw [hbytes]
  rfl

/-- The digits of a byte string spell its number. -/
theorem hexNat_flatMap (bs : Bytes) :
    hexNat (bs.flatMap fun b ↦ [hexDigit (b.toNat / 16), hexDigit (b.toNat % 16)]) =
      Evm.ofBytes bs := by
  induction bs using List.reverseRecOn with
  | nil => rfl
  | append_singleton bs b ih =>
    rw [List.flatMap_append, hexNat, List.foldl_append, ← hexNat, ih, ofBytes_concat]
    simp only [List.flatMap_cons, List.flatMap_nil, List.append_nil, List.foldl_cons,
      List.foldl_nil]
    rw [hexValue_hexDigit _ (div_lt_sixteen b), hexValue_hexDigit _ (Nat.mod_lt _ (by norm_num))]
    omega

theorem drop_two_ofBytes (bs : Bytes) : (ofBytes bs).drop 2 =
    bs.flatMap fun b ↦ [hexDigit (b.toNat / 16), hexDigit (b.toNat % 16)] :=
  rfl

@[simp]
theorem toWord_ofWord (w : Bytes32) : toWord (ofWord w) = w := by
  rw [toWord, ofWord, drop_two_ofBytes, hexNat_flatMap, ofBytes_wordBytes, BitVec.ofNat_toNat,
    BitVec.setWidth_eq]

theorem isHexString_ofBytes (bs : Bytes) : isHexString (ofBytes bs) bs.length = true := by
  have hlength : (bs.flatMap fun b ↦
      [hexDigit (b.toNat / 16), hexDigit (b.toNat % 16)]).length = 2 * bs.length := by
    induction bs with
    | nil => rfl
    | cons b bs ih =>
      rw [List.flatMap_cons, List.length_append, ih]
      simp only [List.length_cons, List.length_nil]
      omega
  have hdigits : (bs.flatMap fun b ↦
      [hexDigit (b.toNat / 16), hexDigit (b.toNat % 16)]).all isHexDigit = true := by
    refine List.all_eq_true.2 fun c hc ↦ ?_
    obtain ⟨b, -, hb⟩ := List.mem_flatMap.1 hc
    rcases List.mem_pair.1 hb with rfl | rfl
    · exact isHexDigit_hexDigit _ (div_lt_sixteen b)
    · exact isHexDigit_hexDigit _ (Nat.mod_lt _ (by norm_num))
  rw [isHexString, ofBytes]
  simp only [List.length_cons, hlength, List.take_succ_cons, List.take_zero, List.drop_succ_cons,
    List.drop_zero, hdigits, BEq.rfl, Bool.and_true, beq_iff_eq]
  omega

theorem isHexString_ofAddress (a : Address) : isHexString (ofAddress a) 20 = true := by
  have h := isHexString_ofBytes (toBytes 20 a.toNat)
  rwa [length_toBytes] at h

@[simp]
theorem isHexString_ofWord (w : Bytes32) : isHexString (ofWord w) 32 = true := by
  have h := isHexString_ofBytes (wordBytes w)
  rwa [length_wordBytes] at h

end Text

/-! ### `attrs.ts` -/

structure MarkAttrsInput where
  kind : ℤ
  assurance : ℤ
  regime : ℤ
  jurisdiction : ℤ
  methods : ℤ
  issuedAt : ℤ
  expiry : ℤ
  epoch : ℤ
  deriving DecidableEq

def SUPPORTED_METHODS : ℤ := 0x001f07ff

inductive AttrsError
  /-- `packAttrs: k must be a safe integer`. -/
  | notSafe
  /-- `packAttrs: k=… is out of range (max …)`. -/
  | outOfRange
  /-- `unpackAttrs: expected exactly bytes32`. -/
  | notBytes32
  deriving DecidableEq

def isSafeInteger (z : ℤ) : Bool :=
  decide (-(2 ^ 53 - 1) ≤ z) && decide (z ≤ 2 ^ 53 - 1)

/-- The check of one field against its limit. -/
def checkField (value max : ℤ) : Except AttrsError Unit := do
  if !isSafeInteger value then .error .notSafe
  if value < 0 ∨ max < value then .error .outOfRange

/-- The fields at their places, the low 64 bits zero. -/
def MarkAttrsInput.word (a : MarkAttrsInput) : Bytes32 :=
  (BitVec.ofInt 256 a.kind <<< 248) ||| (BitVec.ofInt 256 a.assurance <<< 240) |||
    (BitVec.ofInt 256 a.regime <<< 224) ||| (BitVec.ofInt 256 a.jurisdiction <<< 208) |||
    (BitVec.ofInt 256 a.methods <<< 176) ||| (BitVec.ofInt 256 a.issuedAt <<< 136) |||
    (BitVec.ofInt 256 a.expiry <<< 96) ||| (BitVec.ofInt 256 a.epoch <<< 64)

def packAttrs (a : MarkAttrsInput) : Except AttrsError Text := do
  checkField a.kind 0xff
  checkField a.assurance 0xff
  checkField a.regime 0xffff
  checkField a.jurisdiction 0xffff
  checkField a.methods 0xffffffff
  checkField a.issuedAt 0xffffffffff
  checkField a.expiry 0xffffffffff
  checkField a.epoch 0xffffffff
  return Text.ofWord a.word

/-- `Number((v >> shift) & mask)`, the mask all ones on `width` bits. -/
def fieldAt (v : Bytes32) (shift width : ℕ) : ℤ :=
  ((v >>> shift).setWidth width).toNat

/-- The fields of a word. -/
def fieldsOf (v : Bytes32) : MarkAttrsInput where
  kind := fieldAt v 248 8
  assurance := fieldAt v 240 8
  regime := fieldAt v 224 16
  jurisdiction := fieldAt v 208 16
  methods := fieldAt v 176 32
  issuedAt := fieldAt v 136 40
  expiry := fieldAt v 96 40
  epoch := fieldAt v 64 32

def unpackAttrs (attrs : Text) : Except AttrsError MarkAttrsInput :=
  if Text.isHexString attrs 32 then .ok (fieldsOf (Text.toWord attrs)) else .error .notBytes32

/-- The schema check, and with a time in seconds the check at that time. -/
def validCredentialAttrs (attrs : Text) (now : Option ℤ) : Bool :=
  if !Text.isHexString attrs 32 then false
  else
    let a := fieldsOf (Text.toWord attrs)
    (Text.toWord attrs &&& 0xffffffffffffffff) == 0
      && (a.kind == 1 || a.kind == 2) && decide (1 ≤ a.assurance) && decide (a.assurance ≤ 5)
      && (a.regime == 1 || a.regime == 2)
      && decide (1 ≤ a.jurisdiction) && decide (a.jurisdiction ≤ 999)
      && Numeric.Int32.and a.methods (Numeric.Int32.not SUPPORTED_METHODS) == 0
      && decide (0 < a.issuedAt) && decide (a.issuedAt < a.expiry)
      && now.all fun now ↦ isSafeInteger now && decide (0 ≤ now) && decide (a.issuedAt ≤ now)
          && decide (now < a.expiry)

/-! ### The same word as on chain -/

theorem unpackAttrs_ofWord (w : Bytes32) : unpackAttrs (Text.ofWord w) = .ok (fieldsOf w) := by
  rw [unpackAttrs, if_pos (Text.isHexString_ofWord w), Text.toWord_ofWord]

/-- The low bits of a word, masked or truncated. -/
theorem and_low_eq_zero_iff (v : Bytes32) :
    v &&& 0xffffffffffffffff = 0 ↔ v.setWidth 64 = (0 : Uint 64) := by
  have hmask : (0xffffffffffffffff : Bytes32).toNat = 2 ^ 64 - 1 := by decide
  rw [← BitVec.toNat_inj, ← BitVec.toNat_inj, BitVec.toNat_and, hmask,
    Nat.and_two_pow_sub_one_eq_mod, BitVec.toNat_setWidth]
  rfl

theorem methods_supported_iff (v : Bytes32) :
    Numeric.Int32.and (fieldsOf v).methods (Numeric.Int32.not SUPPORTED_METHODS) = 0 ↔
      MarkAttrs.methods v &&& ~~~MarkAttrs.SUPPORTED_METHODS = 0 := by
  have hmethods : BitVec.ofInt 32 (fieldsOf v).methods = MarkAttrs.methods v :=
    Numeric.Int32.ofInt_toNat _
  have hsupported : BitVec.ofInt 32 SUPPORTED_METHODS = MarkAttrs.SUPPORTED_METHODS := by decide
  rw [Numeric.Int32.and_eq_zero_iff, Numeric.Int32.ofInt_not, hmethods, hsupported]

/-- A field compared with a number is the machine field compared with it. -/
theorem field_eq_iff {N : ℕ} (w : Uint N) {n : ℕ} (hn : n < 2 ^ N) :
    (w.toNat : ℤ) = n ↔ w = BitVec.ofNat N n := by
  rw [Nat.cast_inj, ← BitVec.toNat_inj, BitVec.toNat_ofNat, Nat.mod_eq_of_lt hn]

theorem le_field_iff {N : ℕ} (w : Uint N) {n : ℕ} (hn : n < 2 ^ N) :
    (n : ℤ) ≤ w.toNat ↔ BitVec.ofNat N n ≤ w := by
  rw [Nat.cast_le, BitVec.le_def, BitVec.toNat_ofNat, Nat.mod_eq_of_lt hn]

theorem field_le_iff {N : ℕ} (w : Uint N) {n : ℕ} (hn : n < 2 ^ N) :
    (w.toNat : ℤ) ≤ n ↔ w ≤ BitVec.ofNat N n := by
  rw [Nat.cast_le, BitVec.le_def, BitVec.toNat_ofNat, Nat.mod_eq_of_lt hn]

/-- **The schema check is the contracts'.** -/
theorem validCredentialAttrs_ofWord (v : Bytes32) :
    validCredentialAttrs (Text.ofWord v) none = MarkAttrs.validSchema v := by
  have hkind (n : ℕ) (hn : n < 2 ^ 8) := field_eq_iff (MarkAttrs.kind v) hn
  have hregime (n : ℕ) (hn : n < 2 ^ 16) := field_eq_iff (MarkAttrs.regime v) hn
  have hassurance : (1 : ℤ) ≤ (fieldsOf v).assurance ↔ 1 ≤ MarkAttrs.assurance v :=
    le_field_iff (n := 1) _ (by norm_num)
  have hassurance' : (fieldsOf v).assurance ≤ 5 ↔ MarkAttrs.assurance v ≤ 5 :=
    field_le_iff (n := 5) _ (by norm_num)
  have hjurisdiction : (1 : ℤ) ≤ (fieldsOf v).jurisdiction ↔ 1 ≤ MarkAttrs.jurisdiction v :=
    le_field_iff (n := 1) _ (by norm_num)
  have hjurisdiction' : (fieldsOf v).jurisdiction ≤ 999 ↔ MarkAttrs.jurisdiction v ≤ 999 :=
    field_le_iff (n := 999) _ (by norm_num)
  have hissued : 0 < (fieldsOf v).issuedAt ↔ MarkAttrs.issuedAt v ≠ 0 := by
    rw [ne_eq, ← BitVec.toNat_inj]
    show (0 : ℤ) < ((MarkAttrs.issuedAt v).toNat : ℤ) ↔ ¬(MarkAttrs.issuedAt v).toNat = 0
    omega
  have hexpiry : (fieldsOf v).issuedAt < (fieldsOf v).expiry ↔
      MarkAttrs.issuedAt v < MarkAttrs.expiry v := by
    rw [BitVec.lt_def]
    exact Nat.cast_lt
  rw [validCredentialAttrs, if_neg (by simp), Text.toWord_ofWord, Bool.eq_iff_iff]
  simp only [MarkAttrs.validSchema, Option.all_none, Bool.and_true, Bool.and_eq_true, beq_iff_eq,
    Bool.or_eq_true, decide_eq_true_eq, and_low_eq_zero_iff, methods_supported_iff, bne_iff_ne,
    hassurance, hassurance', hjurisdiction, hjurisdiction', hissued, hexpiry]
  rw [show (fieldsOf v).kind = 1 ↔ MarkAttrs.kind v = 1 from hkind 1 (by norm_num),
    show (fieldsOf v).kind = 2 ↔ MarkAttrs.kind v = 2 from hkind 2 (by norm_num),
    show (fieldsOf v).regime = 1 ↔ MarkAttrs.regime v = 1 from hregime 1 (by norm_num),
    show (fieldsOf v).regime = 2 ↔ MarkAttrs.regime v = 2 from hregime 2 (by norm_num)]

/-- The check at a time is the contracts' check at that time. -/
theorem validCredentialAttrs_now_ofWord (v : Bytes32) {now : ℕ} (hnow : now ≤ 2 ^ 53 - 1) :
    validCredentialAttrs (Text.ofWord v) (some now) = MarkAttrs.validAtIssuance v now := by
  have hsplit : validCredentialAttrs (Text.ofWord v) (some now) =
      (validCredentialAttrs (Text.ofWord v) none && (isSafeInteger now && decide ((0 : ℤ) ≤ now) &&
        decide ((fieldsOf v).issuedAt ≤ now) && decide ((now : ℤ) < (fieldsOf v).expiry))) := by
    simp only [validCredentialAttrs, Text.toWord_ofWord, Option.all_some, Option.all_none,
      Bool.and_true]
    rw [if_neg (by simp), if_neg (by simp)]
  have hsafe : isSafeInteger now = true := by
    rw [isSafeInteger, Bool.and_eq_true, decide_eq_true_eq, decide_eq_true_eq]
    omega
  have hissued : (fieldsOf v).issuedAt ≤ now ↔ (MarkAttrs.issuedAt v).toNat ≤ now := Nat.cast_le
  have hexpiry : (now : ℤ) < (fieldsOf v).expiry ↔ now < (MarkAttrs.expiry v).toNat := Nat.cast_lt
  rw [hsplit, validCredentialAttrs_ofWord, hsafe, MarkAttrs.validAtIssuance]
  simp [hissued, hexpiry, Bool.and_assoc]

/-! ### Packing -/

theorem checkField_natCast {value : ℕ} (max : ℕ) (h : value ≤ max) (hmax : max ≤ 0xffffffffff) :
    checkField value max = .ok () := by
  have hsafe : isSafeInteger value = true := by
    rw [isSafeInteger, Bool.and_eq_true, decide_eq_true_eq, decide_eq_true_eq]
    omega
  rw [checkField, hsafe]
  simp only [Bool.not_true, Bool.false_eq_true, if_false]
  rw [if_neg (by omega)]
  rfl

/-- **Packing fields in range is packing the machine fields.** -/
theorem packAttrs_eq (kind assurance : Uint 8) (regime jurisdiction : Uint 16) (methods : Uint 32)
    (issuedAt expiry : Uint 40) (epoch : Uint 32) :
    packAttrs ⟨kind.toNat, assurance.toNat, regime.toNat, jurisdiction.toNat, methods.toNat,
      issuedAt.toNat, expiry.toNat, epoch.toNat⟩ =
      .ok (Text.ofWord (MarkAttrs.pack kind assurance regime jurisdiction methods issuedAt expiry
        epoch)) := by
  have hle {N : ℕ} (w : Uint N) : w.toNat ≤ 2 ^ N - 1 := by
    have h := w.isLt
    omega
  have hfield {N : ℕ} (w : Uint N) : BitVec.ofInt 256 (w.toNat : ℤ) = w.setWidth 256 := by
    rw [BitVec.ofInt_natCast, BitVec.ofNat_toNat]
  have hword : MarkAttrsInput.word ⟨kind.toNat, assurance.toNat, regime.toNat, jurisdiction.toNat,
      methods.toNat, issuedAt.toNat, expiry.toNat, epoch.toNat⟩ =
      MarkAttrs.pack kind assurance regime jurisdiction methods issuedAt expiry epoch := by
    simp only [MarkAttrsInput.word, MarkAttrs.pack, hfield]
  rw [packAttrs, hword]
  have h8 (w : Uint 8) : checkField w.toNat 0xff = .ok () :=
    checkField_natCast 0xff (hle w) (by norm_num)
  have h16 (w : Uint 16) : checkField w.toNat 0xffff = .ok () :=
    checkField_natCast 0xffff (hle w) (by norm_num)
  have h32 (w : Uint 32) : checkField w.toNat 0xffffffff = .ok () :=
    checkField_natCast 0xffffffff (hle w) (by norm_num)
  have h40 (w : Uint 40) : checkField w.toNat 0xffffffffff = .ok () :=
    checkField_natCast 0xffffffffff (hle w) (by norm_num)
  simp only [h8, h16, h32, h40]
  rfl

/-- The word without its reserved bits. -/
def repack (v : Bytes32) : Bytes32 :=
  MarkAttrs.pack (MarkAttrs.kind v) (MarkAttrs.assurance v) (MarkAttrs.regime v)
    (MarkAttrs.jurisdiction v) (MarkAttrs.methods v) (MarkAttrs.issuedAt v) (MarkAttrs.expiry v)
    (MarkAttrs.epoch v)

theorem packAttrs_fieldsOf (v : Bytes32) : packAttrs (fieldsOf v) = .ok (Text.ofWord (repack v)) :=
  packAttrs_eq _ _ _ _ _ _ _ _

theorem getLsbD_repack (v : Bytes32) {i : ℕ} (hi : i < 256) :
    (repack v).getLsbD i = (decide (64 ≤ i) && v.getLsbD i) := by
  simp only [repack, MarkAttrs.pack, MarkAttrs.kind, MarkAttrs.assurance, MarkAttrs.regime,
    MarkAttrs.jurisdiction, MarkAttrs.methods, MarkAttrs.issuedAt, MarkAttrs.expiry,
    MarkAttrs.epoch, BitVec.getLsbD_or, MarkAttrs.getLsbD_field v 248 8 hi,
    MarkAttrs.getLsbD_field v 240 8 hi, MarkAttrs.getLsbD_field v 224 16 hi,
    MarkAttrs.getLsbD_field v 208 16 hi, MarkAttrs.getLsbD_field v 176 32 hi,
    MarkAttrs.getLsbD_field v 136 40 hi, MarkAttrs.getLsbD_field v 96 40 hi,
    MarkAttrs.getLsbD_field v 64 32 hi]
  -- the eight fields tile the bits from 64 up
  cases v.getLsbD i with
  | false => simp
  | true =>
    rw [Bool.eq_iff_iff]
    simp only [Bool.and_true, Bool.or_eq_true, decide_eq_true_eq]
    omega

end Proofmark.Pipeline
