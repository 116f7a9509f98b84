import Mathlib.Data.Nat.Log
import Proofmark.Evm.Bytes

/-!
# The recursive length prefix

Byte strings and lists of such items, nested, as bytes (`encode`). An item is known from its bytes,
whatever follows them (`encode_append_inj`), as long as no length needs more than eight bytes.
-/

open Evm

namespace Rlp

inductive Item
  | bytes (bs : Bytes)
  | list (items : List Item)

/-- The bytes of a number, without leading zeros. -/
def minimal (n : ℕ) : Bytes :=
  toBytes (if n = 0 then 0 else Nat.log 256 n + 1) n

/-- What comes before a payload. -/
def header (offset length : ℕ) : Bytes :=
  if length < 56 then [BitVec.ofNat 8 (offset + length)]
  else BitVec.ofNat 8 (offset + 55 + (minimal length).length) :: minimal length

/-- A byte string; a small byte stands for itself. -/
def encodeBytes : Bytes → Bytes
  | [b] => if b.toNat < 0x80 then [b] else header 0x80 1 ++ [b]
  | bs => header 0x80 bs.length ++ bs

mutual

def encode : Item → Bytes
  | .bytes bs => encodeBytes bs
  | .list items => header 0xc0 (encodeAll items).length ++ encodeAll items

def encodeAll : List Item → Bytes
  | [] => []
  | item :: items => encode item ++ encodeAll items

end

attribute [local grind =] encodeBytes encode encodeAll

/-! ### Numbers -/

@[simp]
theorem ofBytes_minimal (n : ℕ) : ofBytes (minimal n) = n := by
  rw [minimal, ofBytes_toBytes]
  split
  case isTrue h => rw [h, Nat.zero_mod]
  case isFalse => exact Nat.mod_eq_of_lt (Nat.lt_pow_succ_log_self (by norm_num) n)

theorem minimal_injective : Function.Injective minimal := fun m n h ↦ by
  rw [← ofBytes_minimal m, h, ofBytes_minimal]

theorem length_minimal_le {n k : ℕ} (h : n < 256 ^ k) : (minimal n).length ≤ k := by
  rw [minimal, length_toBytes]
  split
  case isTrue => exact Nat.zero_le k
  case isFalse hn => exact Nat.log_lt_of_lt_pow hn h

theorem length_minimal_pos {n : ℕ} (h : n ≠ 0) : 0 < (minimal n).length := by
  rw [minimal, length_toBytes, if_neg h]
  exact Nat.succ_pos _

/-! ### Headers -/

/-- A header is a byte above its offset, and what that byte announces. -/
theorem exists_header (offset : ℕ) {n : ℕ} (hn : n < 2 ^ 64) :
    ∃ k < 64, ∃ rest, header offset n = BitVec.ofNat 8 (offset + k) :: rest ∧
      ((k = n ∧ n < 56 ∧ rest = []) ∨ (k = 55 + rest.length ∧ rest = minimal n ∧ 56 ≤ n)) := by
  rw [header]
  split
  case isTrue h => exact ⟨n, by omega, [], rfl, .inl ⟨rfl, h, rfl⟩⟩
  case isFalse h =>
    have hle : (minimal n).length ≤ 8 := length_minimal_le (hn.trans_eq (by decide))
    exact ⟨55 + (minimal n).length, by omega, minimal n, by rw [Nat.add_assoc],
      .inr ⟨rfl, rfl, Nat.le_of_not_lt h⟩⟩

theorem header_append_inj {offset offset' n n' : ℕ} {s t : Bytes}
    (ho : offset = 0x80 ∨ offset = 0xc0) (ho' : offset' = 0x80 ∨ offset' = 0xc0) (hn : n < 2 ^ 64)
    (hn' : n' < 2 ^ 64) (h : header offset n ++ s = header offset' n' ++ t) :
    offset = offset' ∧ n = n' ∧ s = t := by
  obtain ⟨k, hk, rest, hheader, hcase⟩ := exists_header offset hn
  obtain ⟨k', hk', rest', hheader', hcase'⟩ := exists_header offset' hn'
  rw [hheader, hheader', List.cons_append, List.cons_append] at h
  obtain ⟨hbyte, hrest⟩ := List.cons.inj h
  have hnat := congrArg BitVec.toNat hbyte
  rw [BitVec.toNat_ofNat, BitVec.toNat_ofNat] at hnat
  have hoffset : offset = offset' ∧ k = k' := by omega
  obtain ⟨rfl, rfl⟩ := hoffset
  rcases hcase with ⟨rfl, hlt, rfl⟩ | ⟨hlen, rfl, hge⟩ <;>
    rcases hcase' with ⟨rfl, hlt', rfl⟩ | ⟨hlen', rfl, hge'⟩
  · exact ⟨rfl, rfl, hrest⟩
  · have := length_minimal_pos (n := n') (by omega)
    omega
  · have := length_minimal_pos (n := n) (by omega)
    omega
  · obtain ⟨heq, hst⟩ := List.append_inj hrest (by omega)
    exact ⟨rfl, minimal_injective heq, hst⟩

/-- A small byte is no header. -/
theorem cons_ne_header {b : Byte} {offset n : ℕ} {s t : Bytes} (hb : b.toNat < 0x80)
    (ho : offset = 0x80 ∨ offset = 0xc0) (hn : n < 2 ^ 64) : b :: s ≠ header offset n ++ t := by
  obtain ⟨k, hk, rest, hheader, -⟩ := exists_header offset hn
  rw [hheader, List.cons_append]
  intro h
  have hnat := congrArg BitVec.toNat (List.cons.inj h).1
  rw [BitVec.toNat_ofNat] at hnat
  omega

theorem header_ne_nil (offset n : ℕ) : header offset n ≠ [] := by
  rw [header]
  split <;> exact List.cons_ne_nil _ _

/-! ### Byte strings -/

/-- A byte string is a small byte or has a header. -/
theorem encodeBytes_cases (bs : Bytes) :
    (∃ b, bs = [b] ∧ b.toNat < 0x80 ∧ encodeBytes bs = [b]) ∨
      encodeBytes bs = header 0x80 bs.length ++ bs := by
  rcases bs with - | ⟨b, - | ⟨c, bs⟩⟩
  · exact .inr rfl
  · by_cases hb : b.toNat < 0x80
    · exact .inl ⟨b, rfl, hb, if_pos hb⟩
    · exact .inr (if_neg hb)
  · exact .inr rfl

theorem length_le_encodeBytes (bs : Bytes) : bs.length ≤ (encodeBytes bs).length := by
  rcases encodeBytes_cases bs with ⟨b, rfl, -, h⟩ | h
  · rw [h]
  · rw [h, List.length_append]
    exact Nat.le_add_left _ _

theorem encodeBytes_append_inj {as bs s t : Bytes} (ha : as.length < 2 ^ 64)
    (hb : bs.length < 2 ^ 64) (h : encodeBytes as ++ s = encodeBytes bs ++ t) :
    as = bs ∧ s = t := by
  rcases encodeBytes_cases as with ⟨a, rfl, hsmall, ha'⟩ | ha' <;>
    rcases encodeBytes_cases bs with ⟨b, rfl, hsmall', hb'⟩ | hb' <;>
    rw [ha', hb'] at h
  · obtain ⟨rfl, rfl⟩ := List.cons.inj h
    exact ⟨rfl, rfl⟩
  · rw [List.append_assoc] at h
    exact absurd h (cons_ne_header hsmall (.inl rfl) hb)
  · rw [List.append_assoc] at h
    exact absurd h.symm (cons_ne_header hsmall' (.inl rfl) ha)
  · rw [List.append_assoc, List.append_assoc] at h
    obtain ⟨-, hlength, hrest⟩ := header_append_inj (.inl rfl) (.inl rfl) ha hb h
    exact List.append_inj hrest hlength

theorem encodeBytes_ne_header {bs s t : Bytes} {n : ℕ} (hb : bs.length < 2 ^ 64)
    (hn : n < 2 ^ 64) : encodeBytes bs ++ s ≠ header 0xc0 n ++ t := by
  intro h
  rcases encodeBytes_cases bs with ⟨b, rfl, hsmall, hb'⟩ | hb' <;> rw [hb'] at h
  · exact cons_ne_header hsmall (.inr rfl) hn h
  · rw [List.append_assoc] at h
    obtain ⟨hoffset, -⟩ := header_append_inj (.inl rfl) (.inr rfl) hb hn h
    cases hoffset

/-! ### Items -/

theorem encode_ne_nil (item : Item) : encode item ≠ [] := by
  cases item with
  | bytes bs =>
    rw [encode]
    rcases encodeBytes_cases bs with ⟨b, -, -, h⟩ | h <;> rw [h]
    · exact List.cons_ne_nil _ _
    · exact fun h ↦ header_ne_nil _ _ (List.append_eq_nil_iff.1 h).1
  | list items =>
    rw [encode]
    exact fun h ↦ header_ne_nil _ _ (List.append_eq_nil_iff.1 h).1

theorem length_encodeAll_le (items : List Item) :
    (encodeAll items).length ≤ (encode (.list items)).length := by
  rw [encode, List.length_append]
  exact Nat.le_add_left _ _

mutual

/-- **An item is known from its bytes**, whatever follows them. -/
theorem encode_append_inj (a b : Item) (s t : Bytes) (ha : (encode a).length < 2 ^ 64)
    (hb : (encode b).length < 2 ^ 64) (h : encode a ++ s = encode b ++ t) : a = b ∧ s = t := by
  cases a with
  | bytes as =>
    cases b with
    | bytes bs =>
      rw [encode] at ha hb
      rw [encode, encode] at h
      obtain ⟨rfl, hst⟩ := encodeBytes_append_inj ((length_le_encodeBytes as).trans_lt ha)
        ((length_le_encodeBytes bs).trans_lt hb) h
      exact ⟨rfl, hst⟩
    | list bs =>
      have hlen := (length_encodeAll_le bs).trans_lt hb
      rw [encode] at ha
      rw [encode, encode, List.append_assoc] at h
      exact absurd h (encodeBytes_ne_header ((length_le_encodeBytes as).trans_lt ha) hlen)
  | list as =>
    have hlen := (length_encodeAll_le as).trans_lt ha
    cases b with
    | bytes bs =>
      rw [encode] at hb
      rw [encode, encode, List.append_assoc] at h
      exact absurd h.symm (encodeBytes_ne_header ((length_le_encodeBytes bs).trans_lt hb) hlen)
    | list bs =>
      have hlen' := (length_encodeAll_le bs).trans_lt hb
      rw [encode, encode, List.append_assoc, List.append_assoc] at h
      obtain ⟨-, hlength, hrest⟩ := header_append_inj (.inr rfl) (.inr rfl) hlen hlen' h
      obtain ⟨hall, hst⟩ := List.append_inj hrest hlength
      exact ⟨congrArg Item.list (encodeAll_inj as bs hlen hlen' hall), hst⟩

theorem encodeAll_inj (as bs : List Item) (ha : (encodeAll as).length < 2 ^ 64)
    (hb : (encodeAll bs).length < 2 ^ 64) (h : encodeAll as = encodeAll bs) : as = bs := by
  cases as with
  | nil =>
    cases bs with
    | nil => rfl
    | cons b bs =>
      rw [encodeAll, encodeAll] at h
      exact absurd (List.append_eq_nil_iff.1 h.symm).1 (encode_ne_nil b)
  | cons a as =>
    cases bs with
    | nil =>
      rw [encodeAll, encodeAll] at h
      exact absurd (List.append_eq_nil_iff.1 h).1 (encode_ne_nil a)
    | cons b bs =>
      rw [encodeAll, List.length_append] at ha hb
      rw [encodeAll, encodeAll] at h
      obtain ⟨rfl, hrest⟩ := encode_append_inj a b _ _ (by omega) (by omega) h
      rw [encodeAll_inj as bs (by omega) (by omega) hrest]

end

theorem encode_inj {a b : Item} (ha : (encode a).length < 2 ^ 64) (hb : (encode b).length < 2 ^ 64)
    (h : encode a = encode b) : a = b :=
  (encode_append_inj a b [] [] ha hb (by rw [h])).1

end Rlp
