import Mathlib.Data.BitVec
import Mathlib.Tactic.NormNum

/-!
# UTF-8

A strict decoder in one pass, with what it has read of the character it is in, and the round trip
with the encoder of the standard library (`decode_encode`).
-/

namespace Utf8

/-- The bytes of a text. -/
def encode (t : List Char) : List (BitVec 8) :=
  t.flatMap fun c ↦ (String.utf8EncodeChar c).map UInt8.toBitVec

/-- The rest of a text: `needed` bytes are missing of a character that starts with the bits of
`point` and is no less than `least`. -/
def decodeFrom : ℕ → ℕ → ℕ → List (BitVec 8) → Option (List Char)
  | 0, _, _, [] => some []
  | _ + 1, _, _, [] => none
  | 0, _, _, b :: bs =>
    if b.toNat < 0x80 then (decodeFrom 0 0 0 bs).map (Char.ofNat b.toNat :: ·)
    else if b.toNat < 0xc0 then none
    else if b.toNat < 0xe0 then decodeFrom 1 (b.toNat - 0xc0) 0x80 bs
    else if b.toNat < 0xf0 then decodeFrom 2 (b.toNat - 0xe0) 0x800 bs
    else if b.toNat < 0xf8 then decodeFrom 3 (b.toNat - 0xf0) 0x10000 bs
    else none
  | needed + 1, point, least, b :: bs =>
    if 0x80 ≤ b.toNat ∧ b.toNat < 0xc0 then
      let point := point * 64 + (b.toNat - 0x80)
      if needed ≠ 0 then decodeFrom needed point least bs
      else if least ≤ point ∧ point.isValidChar then
        (decodeFrom 0 0 0 bs).map (Char.ofNat point :: ·)
      else none
    else none

/-- The text of well-formed UTF-8. -/
def decode (bs : List (BitVec 8)) : Option (List Char) :=
  decodeFrom 0 0 0 bs

attribute [local grind =] decodeFrom

section Bytes

variable {n : ℕ} (bs : List (BitVec 8))

theorem toNat_byte (h : n < 256) : (UInt8.ofNat n).toBitVec.toNat = n := by
  rw [UInt8.toNat_toBitVec, UInt8.toNat_ofNat', Nat.mod_eq_of_lt h]

theorem decodeFrom_single (h : n < 0x80) :
    decodeFrom 0 0 0 ((UInt8.ofNat n).toBitVec :: bs) =
      (decodeFrom 0 0 0 bs).map (Char.ofNat n :: ·) := by
  rw [decodeFrom, toNat_byte (by omega), if_pos h]

theorem decodeFrom_two (h : n < 0x20) :
    decodeFrom 0 0 0 ((UInt8.ofNat (n + 0xc0)).toBitVec :: bs) = decodeFrom 1 n 0x80 bs := by
  rw [decodeFrom, toNat_byte (by omega), if_neg (by omega), if_neg (by omega), if_pos (by omega),
    Nat.add_sub_cancel]

theorem decodeFrom_three (h : n < 0x10) :
    decodeFrom 0 0 0 ((UInt8.ofNat (n + 0xe0)).toBitVec :: bs) = decodeFrom 2 n 0x800 bs := by
  rw [decodeFrom, toNat_byte (by omega), if_neg (by omega), if_neg (by omega), if_neg (by omega),
    if_pos (by omega), Nat.add_sub_cancel]

theorem decodeFrom_four (h : n < 8) :
    decodeFrom 0 0 0 ((UInt8.ofNat (n + 0xf0)).toBitVec :: bs) = decodeFrom 3 n 0x10000 bs := by
  rw [decodeFrom, toNat_byte (by omega), if_neg (by omega), if_neg (by omega), if_neg (by omega),
    if_neg (by omega), if_pos (by omega), Nat.add_sub_cancel]

theorem decodeFrom_more {needed point least : ℕ} (h : n < 0x40) :
    decodeFrom (needed + 2) point least ((UInt8.ofNat (n + 0x80)).toBitVec :: bs) =
      decodeFrom (needed + 1) (point * 64 + n) least bs := by
  rw [decodeFrom, toNat_byte (by omega), if_pos (by omega), if_pos (by omega), Nat.add_sub_cancel]

theorem decodeFrom_last {point least : ℕ} {c : Char} (h : n < 0x40) (hc : point * 64 + n = c.toNat)
    (hleast : least ≤ c.toNat) :
    decodeFrom 1 point least ((UInt8.ofNat (n + 0x80)).toBitVec :: bs) =
      (decodeFrom 0 0 0 bs).map (c :: ·) := by
  rw [decodeFrom, toNat_byte (by omega), if_pos (by omega), if_neg (by omega), Nat.add_sub_cancel,
    hc, if_pos ⟨hleast, c.valid⟩, Char.ofNat_toNat]

end Bytes

/-- One character is read. -/
theorem decodeFrom_encodeChar (c : Char) (bs : List (BitVec 8)) :
    decodeFrom 0 0 0 ((String.utf8EncodeChar c).map UInt8.toBitVec ++ bs) =
      (decodeFrom 0 0 0 bs).map (c :: ·) := by
  have hlt : c.toNat < 0x110000 := by
    rcases c.valid with h | h
    · exact h.trans (by norm_num)
    · exact h.2
  have hval : c.val.toNat = c.toNat := rfl
  unfold String.utf8EncodeChar
  simp only [hval]
  split_ifs with h₁ h₂ h₃ <;> simp only [List.map_cons, List.map_nil, List.cons_append,
    List.nil_append]
  · rw [decodeFrom_single _ (by omega), Char.ofNat_toNat]
  · rw [decodeFrom_two _ (by omega), decodeFrom_last _ (c := c) (by omega) (by omega) (by omega)]
  · rw [decodeFrom_three _ (by omega), decodeFrom_more _ (by omega),
      decodeFrom_last _ (c := c) (by omega) (by omega) (by omega)]
  · rw [decodeFrom_four _ (by omega), decodeFrom_more _ (by omega), decodeFrom_more _ (by omega),
      decodeFrom_last _ (c := c) (by omega) (by omega) (by omega)]

/-- **A text is known from its bytes.** -/
theorem decode_encode (t : List Char) : decode (encode t) = some t := by
  rw [decode]
  induction t with
  | nil => rfl
  | cons c t ih => rw [encode, List.flatMap_cons, decodeFrom_encodeChar, ← encode, ih]; rfl

/-- A character takes at most four bytes. -/
theorem length_encode_le (t : List Char) : (encode t).length ≤ 4 * t.length := by
  induction t with
  | nil => exact le_refl _
  | cons c t ih =>
    have hchar : ((String.utf8EncodeChar c).map UInt8.toBitVec).length ≤ 4 := by
      rw [List.length_map, String.utf8EncodeChar]
      split_ifs <;> simp
    show (((String.utf8EncodeChar c).map UInt8.toBitVec) ++ encode t).length ≤ _
    rw [List.length_append, List.length_cons]
    omega

theorem encode_injective : Function.Injective encode := by
  intro s t h
  rw [← Option.some.injEq, ← decode_encode s, h, decode_encode]

end Utf8
