import Mathlib.Data.List.Basic
import Mathlib.Data.List.Induction
import Mathlib.Data.Set.Function
import Mathlib.Order.Defs.LinearOrder
import Mathlib.Tactic.Ring

/-!
# Machine words and byte strings

The EVM's value types and the static part of its ABI. An `N`-bit unsigned integer is a
`BitVec N`, so truncating casts, shifts and masks are the ones of the machine; a comparison of
two widths is written on `toNat`, as the compiler widens the smaller operand.

Byte strings are lists of bytes in big-endian order. `toBytes` and `ofBytes` convert a number to
and from a fixed number of bytes, and the whole ABI layer rests on one round trip
(`ofBytes_toBytes`) and the injectivity it gives (`toBytes_inj`).

`CollisionFree` is the only form in which a hash function is ever assumed injective here: on a
named set of preimages. An injective function from byte strings to 256-bit words does not exist,
so the unrestricted assumption would prove everything.
-/

namespace Evm

abbrev Byte := BitVec 8
abbrev Bytes := List Byte

/-- Solidity's `uintN`. -/
abbrev Uint (N : ℕ) := BitVec N

abbrev Address := BitVec 160
abbrev Bytes32 := BitVec 256

/-- The bytes of an ASCII text, as the compiler stores a string literal. -/
def ascii (text : String) : Bytes :=
  text.toList.map fun c ↦ BitVec.ofNat 8 c.toNat

/-! ### Big-endian numbers -/

/-- The last `n` bytes of `v`, most significant first. -/
def toBytes : ℕ → ℕ → Bytes
  | 0, _ => []
  | n + 1, v => toBytes n (v / 256) ++ [BitVec.ofNat 8 v]

/-- The number a byte string spells, most significant byte first. -/
def ofBytes (bs : Bytes) : ℕ :=
  bs.foldl (fun acc b ↦ acc * 256 + b.toNat) 0

@[simp]
theorem length_toBytes (n v : ℕ) : (toBytes n v).length = n := by
  induction n generalizing v with
  | zero => rfl
  | succ n ih => simp [toBytes, ih]

theorem ofBytes_concat (bs : Bytes) (b : Byte) :
    ofBytes (bs ++ [b]) = ofBytes bs * 256 + b.toNat := by
  simp [ofBytes]

/-- Writing `n` bytes and reading them back loses exactly what does not fit. -/
theorem ofBytes_toBytes (n v : ℕ) : ofBytes (toBytes n v) = v % 256 ^ n := by
  induction n generalizing v with
  | zero => simp [toBytes, ofBytes, Nat.mod_one]
  | succ n ih =>
    have hsplit : v % 256 ^ (n + 1) = v % 256 + 256 * (v / 256 % 256 ^ n) := by
      rw [Nat.pow_succ, Nat.mul_comm (256 ^ n), Nat.mod_mul]
    rw [toBytes, ofBytes_concat, ih, BitVec.toNat_ofNat, hsplit]
    ring

theorem toBytes_inj {n v w : ℕ} (hv : v < 256 ^ n) (hw : w < 256 ^ n)
    (h : toBytes n v = toBytes n w) : v = w := by
  have hread := congrArg ofBytes h
  rwa [ofBytes_toBytes, ofBytes_toBytes, Nat.mod_eq_of_lt hv, Nat.mod_eq_of_lt hw] at hread

/-- Bytes of a given number are its big-endian bytes. -/
theorem toBytes_ofBytes (bs : Bytes) : toBytes bs.length (ofBytes bs) = bs := by
  induction bs using List.reverseRecOn with
  | nil => rfl
  | append_singleton bs b ih =>
    have hdiv : (ofBytes bs * 256 + b.toNat) / 256 = ofBytes bs := by
      have hlt := b.isLt
      omega
    have hlast : BitVec.ofNat 8 (ofBytes bs * 256 + b.toNat) = b := by
      apply BitVec.eq_of_toNat_eq
      rw [BitVec.toNat_ofNat]
      have hlt := b.isLt
      omega
    rw [List.length_append, List.length_singleton, ofBytes_concat, toBytes, hdiv, hlast, ih]

/-- Leading zeros do not change a number. -/
theorem ofBytes_replicate_zero_append (k : ℕ) (bs : Bytes) :
    ofBytes (List.replicate k 0 ++ bs) = ofBytes bs := by
  induction bs using List.reverseRecOn with
  | nil =>
    induction k with
    | zero => rfl
    | succ k ih =>
      rw [List.append_nil] at ih ⊢
      rw [List.replicate_succ', ofBytes_concat, ih]
      rfl
  | append_singleton bs b ih => rw [← List.append_assoc, ofBytes_concat, ofBytes_concat, ih]

/-- The leading bytes of a number are those of its leading part. -/
theorem take_toBytes (n k v : ℕ) : (toBytes (n + k) v).take n = toBytes n (v / 256 ^ k) := by
  induction k generalizing v with
  | zero => simpa using List.take_of_length_le (length_toBytes n v).le
  | succ k ih =>
    rw [← Nat.add_assoc, toBytes, List.take_append_of_le_length (by simp), ih, Nat.div_div_eq_div_mul,
      Nat.pow_succ, Nat.mul_comm]

/-! ### Words of the ABI -/

/-- A word as the ABI writes it: 32 bytes. -/
def wordBytes (w : Bytes32) : Bytes :=
  toBytes 32 w.toNat

@[simp]
theorem length_wordBytes (w : Bytes32) : (wordBytes w).length = 32 :=
  length_toBytes _ _

theorem ofBytes_wordBytes (w : Bytes32) : ofBytes (wordBytes w) = w.toNat := by
  rw [wordBytes, ofBytes_toBytes]
  exact Nat.mod_eq_of_lt (w.isLt.trans_le (by norm_num))

theorem wordBytes_injective : Function.Injective wordBytes := by
  intro v w h
  have hread := congrArg ofBytes h
  rw [ofBytes_wordBytes, ofBytes_wordBytes] at hread
  exact BitVec.eq_of_toNat_eq hread

/-- Two byte strings that start with a word agree exactly when the words and the rests do. -/
theorem wordBytes_append_inj {v w : Bytes32} {as bs : Bytes}
    (h : wordBytes v ++ as = wordBytes w ++ bs) : v = w ∧ as = bs := by
  obtain ⟨hword, hrest⟩ := List.append_inj h (by simp)
  exact ⟨wordBytes_injective hword, hrest⟩

/-- `abi.encode` of static values, each already widened to a word. -/
def abiEncode (words : List Bytes32) : Bytes :=
  words.flatMap wordBytes

/-- The `i`-th word of ABI data. Reading past the end gives zero bytes; every caller checks the
length first, as the decoder does. -/
def abiWord (data : Bytes) (i : ℕ) : Bytes32 :=
  BitVec.ofNat 256 (ofBytes ((data.drop (32 * i)).take 32))

@[simp]
theorem length_abiEncode (words : List Bytes32) :
    (abiEncode words).length = 32 * words.length := by
  induction words with
  | nil => rfl
  | cons w words ih =>
    rw [abiEncode, List.flatMap_cons, List.length_append, length_wordBytes, ← abiEncode, ih,
      List.length_cons]
    ring

theorem drop_abiEncode (words : List Bytes32) (i : ℕ) :
    (abiEncode words).drop (32 * i) = abiEncode (words.drop i) := by
  induction words generalizing i with
  | nil => simp [abiEncode]
  | cons w words ih =>
    cases i with
    | zero => rfl
    | succ i =>
      have hskip : 32 * (i + 1) = (wordBytes w).length + 32 * i := by
        rw [length_wordBytes]
        omega
      rw [abiEncode, List.flatMap_cons, ← abiEncode, List.drop_succ_cons, ← ih, hskip,
        List.drop_length_add_append]

/-- **Round trip of the static ABI**: a word written is the word read. -/
@[simp]
theorem abiWord_abiEncode {words : List Bytes32} {i : ℕ} (hi : i < words.length) :
    abiWord (abiEncode words) i = words[i] := by
  have hdrop : words.drop i = words[i] :: words.drop (i + 1) :=
    List.drop_eq_getElem_cons hi
  rw [abiWord, drop_abiEncode, hdrop, abiEncode, List.flatMap_cons,
    List.take_left' (length_wordBytes _), ofBytes_wordBytes, BitVec.ofNat_toNat,
    BitVec.setWidth_eq]

/-- The decoder's range check: a word is a valid `uintN` only when it fits. -/
def fitsUint (N : ℕ) (w : Bytes32) : Bool :=
  decide (w.toNat < 2 ^ N)

theorem fitsUint_setWidth {N : ℕ} (hN : N ≤ 256) (v : Uint N) :
    fitsUint N (v.setWidth 256) = true := by
  rw [fitsUint, decide_eq_true_eq, BitVec.toNat_setWidth_of_le hN]
  exact v.isLt

/-- A word in range is the widening of its truncation. -/
theorem setWidth_setWidth_of_fits {N : ℕ} (hN : N ≤ 256) {w : Bytes32}
    (h : fitsUint N w = true) : (w.setWidth N).setWidth 256 = w := by
  rw [fitsUint, decide_eq_true_eq] at h
  apply BitVec.eq_of_toNat_eq
  rw [BitVec.toNat_setWidth_of_le hN, BitVec.toNat_setWidth, Nat.mod_eq_of_lt h]

theorem setWidth_setWidth_self {N : ℕ} (hN : N ≤ 256) (v : Uint N) :
    (v.setWidth 256).setWidth N = v := by
  apply BitVec.eq_of_toNat_eq
  rw [BitVec.toNat_setWidth, BitVec.toNat_setWidth_of_le hN, Nat.mod_eq_of_lt v.isLt]

/-- Widening loses nothing. -/
theorem setWidth_inj {N : ℕ} (hN : N ≤ 256) {v w : Uint N}
    (h : v.setWidth 256 = w.setWidth 256) : v = w := by
  rw [← setWidth_setWidth_self hN v, h, setWidth_setWidth_self hN w]

/-! ### The order of words -/

/-- Words are ordered as the numbers they are. -/
instance {N : ℕ} : LinearOrder (Uint N) where
  le_refl := BitVec.le_refl
  le_trans _ _ _ := BitVec.le_trans
  lt_iff_le_not_ge a b := by
    rw [BitVec.not_le]
    exact ⟨fun h ↦ ⟨BitVec.le_of_lt h, h⟩, And.right⟩
  le_antisymm _ _ := BitVec.le_antisymm
  le_total a b := Nat.le_total a.toNat b.toNat
  toDecidableLE := inferInstance
  toDecidableLT := inferInstance
  toDecidableEq := inferInstance

/-! ### Checked counters -/

/-- A counter short of its maximum counts on to a greater number. -/
theorem counter_lt_next {N : ℕ} {v : Uint N} (h : v ≠ BitVec.allOnes N) : v < v + 1 := by
  have hmax : v.toNat + 1 ≠ 2 ^ N := fun heq ↦
    h (BitVec.eq_of_toNat_eq (by rw [BitVec.toNat_allOnes, ← heq, Nat.add_sub_cancel]))
  have hlt : v.toNat + 1 < 2 ^ N := lt_of_le_of_ne v.isLt hmax
  have hone : (1 : BitVec N).toNat = 1 := by
    rw [BitVec.ofNat_eq_ofNat, BitVec.toNat_ofNat, Nat.mod_eq_of_lt]
    exact (Nat.le_add_left 1 _).trans_lt hlt
  rw [BitVec.lt_def, BitVec.toNat_add, hone, Nat.mod_eq_of_lt hlt]
  exact Nat.lt_succ_self _

/-- It is never zero again. -/
theorem counter_next_ne_zero {N : ℕ} {v : Uint N} (h : v ≠ BitVec.allOnes N) : v + 1 ≠ 0 := by
  intro hzero
  have hlt := counter_lt_next h
  rw [hzero] at hlt
  exact BitVec.not_lt_zero hlt

/-! ### Collision freedom on a set -/

/-- No two different preimages of `S` hash to one word. -/
def CollisionFree (hash : Bytes → Bytes32) (S : Set Bytes) : Prop :=
  Set.InjOn hash S

theorem CollisionFree.eq {hash : Bytes → Bytes32} {S : Set Bytes} (h : CollisionFree hash S)
    {a b : Bytes} (ha : a ∈ S) (hb : b ∈ S) (hab : hash a = hash b) : a = b :=
  h ha hb hab

theorem CollisionFree.mono {hash : Bytes → Bytes32} {S T : Set Bytes} (h : CollisionFree hash T)
    (hST : S ⊆ T) : CollisionFree hash S :=
  Set.InjOn.mono hST h

end Evm
