import Proofmark.Evm.Bytes

/-!
# Memory

Byte-addressed memory, as an assembly block sees it. A read of consecutive bytes is cut into pieces
(`load_append`); a piece that a write covers from its start reads the written bytes
(`load_store_take`), and one that it misses reads what was there (`load_store_of_disjoint`). That is
all it takes to read back overlapping writes.
-/

namespace Evm

abbrev Memory := ℕ → Byte

namespace Memory

/-- Write bytes from an address on. -/
def store (m : Memory) (p : ℕ) (bs : Bytes) : Memory :=
  fun a ↦ if p ≤ a then (bs[a - p]?).getD (m a) else m a

/-- Read `n` bytes from an address on. -/
def load (m : Memory) (p n : ℕ) : Bytes :=
  (List.range n).map fun i ↦ m (p + i)

/-- `mstore`. -/
def mstore (m : Memory) (p : ℕ) (w : Bytes32) : Memory :=
  m.store p (wordBytes w)

/-- `mload`. -/
def mload (m : Memory) (p : ℕ) : Bytes32 :=
  BitVec.ofNat 256 (ofBytes (m.load p 32))

variable {m : Memory} {p q n : ℕ} {bs : Bytes}

theorem load_append (m : Memory) (p a b : ℕ) :
    m.load p (a + b) = m.load p a ++ m.load (p + a) b := by
  simp [load, List.range_add, Nat.add_assoc]

/-- A read that starts where a write starts and ends inside it. -/
theorem load_store_take (h : n ≤ bs.length) : (m.store p bs).load p n = bs.take n := by
  refine List.ext_getElem (by simp [load, h]) fun i hi hi' ↦ ?_
  have hlt : i < bs.length := (List.length_take_le' _ _).trans_lt' hi'
  simp [load, store, hlt]

/-- A read of what was written. -/
theorem load_store_self (m : Memory) (p : ℕ) (bs : Bytes) :
    (m.store p bs).load p bs.length = bs := by
  rw [load_store_take le_rfl, List.take_length]

/-- A read that a write misses. -/
theorem load_store_of_disjoint (h : q + n ≤ p ∨ p + bs.length ≤ q) :
    (m.store p bs).load q n = m.load q n := by
  refine List.map_congr_left fun i hi ↦ ?_
  have hlt := List.mem_range.1 hi
  rw [store]
  split
  · have hpast : bs[q + i - p]? = none := List.getElem?_eq_none (by omega)
    rw [hpast, Option.getD_none]
  · rfl

end Memory

end Evm
