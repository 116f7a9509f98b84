import Proofmark.Contracts.ProofmarkASC
import Proofmark.Evm.Memory

/-!
# The identity of a query

The replay key of a source transaction, computed twice: by the assembly block of
`_queryCoordinates` in `ASCBaseX.sol`, with three stores of which each overwrites the end of the one
before, and by `computeQueryId` of `worker/proof.ts`, which packs padded hex strings. Both hash the
72 bytes of `queryLayout` (`queryAssembly_eq`, `computeQueryId_eq`), and those tell coordinates
apart (`queryLayout_inj`).

`toBeHex` and `zeroPadValue` come from a package and are parameters; a hex string stands for its
bytes.
-/

open Evm

namespace Proofmark

/-- The coordinates of a source transaction: chain key, height and index. -/
structure QueryCoordinates where
  chainKey : Uint 64
  blockHeight : Uint 64
  txIndex : Uint 64
  deriving DecidableEq

namespace QueryCoordinates

/-- The bytes a query id is the hash of. -/
def layout (c : QueryCoordinates) : Bytes :=
  wordBytes (c.chainKey.setWidth 256) ++ toBytes 8 c.blockHeight.toNat
    ++ wordBytes (c.txIndex.setWidth 256)

/-- The replay key of the contract. -/
def queryId (c : QueryCoordinates) : Bytes32 :=
  ProofmarkASC.computeQueryId c.chainKey c.blockHeight c.txIndex

theorem queryId_eq (c : QueryCoordinates) : c.queryId = keccak256 c.layout :=
  rfl

/-- **Different coordinates have different layouts.** -/
theorem layout_injective : Function.Injective layout := by
  intro c d h
  obtain ⟨hfront, htx⟩ := List.append_inj h (by simp)
  obtain ⟨hchain, hheight⟩ := wordBytes_append_inj hfront
  have hheight' := toBytes_inj (c.blockHeight.isLt.trans_le (by norm_num))
    (d.blockHeight.isLt.trans_le (by norm_num)) hheight
  cases c
  cases d
  simp only [QueryCoordinates.mk.injEq]
  exact ⟨setWidth_inj (by decide) hchain, BitVec.eq_of_toNat_eq hheight',
    setWidth_inj (by decide) (wordBytes_injective htx)⟩

/-- Distinct coordinates have distinct ids where the hash has no collision. -/
theorem queryId_injOn {S : Set QueryCoordinates} (h : CollisionFree keccak256 (layout '' S)) :
    Set.InjOn queryId S := by
  intro c hc d hd hcd
  exact layout_injective (h.eq (Set.mem_image_of_mem _ hc) (Set.mem_image_of_mem _ hd) hcd)

end QueryCoordinates

/-! ### The contract -/

/-- The assembly block of `_queryCoordinates`, on the words of its three variables. -/
def queryAssembly (memory : Memory) (chainKey blockHeight txIndex : Bytes32) : Bytes32 :=
  let ptr := (memory.mload 0x40).toNat
  let memory := memory.mstore ptr chainKey
  let memory := memory.mstore (ptr + 32) (blockHeight <<< 192)
  let memory := memory.mstore (ptr + 40) txIndex
  keccak256 (memory.load ptr 72)

/-- The leading eight bytes of a height shifted to the top of a word. -/
theorem take_wordBytes_shl (height : Uint 64) :
    (wordBytes (height.setWidth 256 <<< 192)).take 8 = toBytes 8 height.toNat := by
  have hshift : (height.setWidth 256 <<< 192).toNat = height.toNat * 256 ^ 24 := by
    rw [BitVec.toNat_shiftLeft, BitVec.toNat_setWidth_of_le (by decide), Nat.shiftLeft_eq]
    have hlt := height.isLt
    exact Nat.mod_eq_of_lt (by omega)
  have hdiv : height.toNat * 256 ^ 24 / 256 ^ 24 = height.toNat :=
    Nat.mul_div_cancel _ (by norm_num)
  rw [wordBytes, show (32 : ℕ) = 8 + 24 from rfl, take_toBytes, hshift, hdiv]

/-- Three stores of which each overwrites the end of the one before: what is in front of a store
stays. -/
theorem load_overlapping (memory : Memory) (ptr : ℕ) (a b c : Bytes32) :
    (((memory.mstore ptr a).mstore (ptr + 32) b).mstore (ptr + 40) c).load ptr (32 + 8 + 32) =
      wordBytes a ++ (wordBytes b).take 8 ++ wordBytes c := by
  have hwhole : ∀ (m : Memory) (p : ℕ) (w : Bytes32), (m.mstore p w).load p 32 = wordBytes w :=
    fun m p w ↦ by
      have hread := Memory.load_store_self m p (wordBytes w)
      rwa [length_wordBytes] at hread
  have hkept : ∀ (m : Memory) (p q n : ℕ) (w : Bytes32), q + n ≤ p →
      (m.mstore p w).load q n = m.load q n :=
    fun m p q n w h ↦ Memory.load_store_of_disjoint (.inl h)
  have hmiddle : ∀ (m : Memory) (p : ℕ) (w : Bytes32),
      (m.mstore p w).load p 8 = (wordBytes w).take 8 :=
    fun m p w ↦ Memory.load_store_take (by simp)
  rw [Memory.load_append, Memory.load_append, hkept _ _ _ _ _ (by omega),
    hkept _ _ _ _ _ le_rfl, hwhole, hkept _ _ _ _ _ (by omega), hmiddle, ← Nat.add_assoc, hwhole]

/-- **The assembly hashes the layout**, whatever memory it starts from. -/
theorem queryAssembly_eq (memory : Memory) (c : QueryCoordinates) :
    queryAssembly memory (c.chainKey.setWidth 256) (c.blockHeight.setWidth 256)
      (c.txIndex.setWidth 256) = c.queryId := by
  rw [QueryCoordinates.queryId_eq, queryAssembly, show (72 : ℕ) = 32 + 8 + 32 from rfl,
    load_overlapping, take_wordBytes_shl]
  rfl

/-! ### The worker -/

/-- The functions of the package the worker packs a query with; `none` throws. -/
structure Ethers where
  toBeHex : ℕ → Bytes
  zeroPadValue : Bytes → ℕ → Option Bytes

/-- What the package documents: `toBeHex` writes a number in the least number of bytes, at least one,
and `zeroPadValue` pads with zeros on the left. -/
structure Ethers.Documented (E : Ethers) : Prop where
  value : ∀ v, ofBytes (E.toBeHex v) = v
  length_le : ∀ v n, 0 < n → v < 256 ^ n → (E.toBeHex v).length ≤ n
  pad : ∀ bs n, bs.length ≤ n →
    E.zeroPadValue bs n = some (List.replicate (n - bs.length) 0 ++ bs)

namespace Worker

/-- `computeQueryId`. -/
def computeQueryId (E : Ethers) (chainKey blockHeight txIndex : ℕ) : Option Bytes32 := do
  let chainKey ← E.zeroPadValue (E.toBeHex chainKey) 32
  let blockHeight ← E.zeroPadValue (E.toBeHex blockHeight) 8
  let txIndex ← E.zeroPadValue (E.toBeHex txIndex) 32
  return keccak256 (chainKey ++ blockHeight ++ txIndex)

/-- A number that fits is padded to its big-endian bytes. -/
theorem zeroPadValue_toBeHex {E : Ethers} (hE : E.Documented) {v n : ℕ} (hn : 0 < n)
    (hv : v < 256 ^ n) : E.zeroPadValue (E.toBeHex v) n = some (toBytes n v) := by
  have hlength := hE.length_le v n hn hv
  rw [hE.pad _ _ hlength, Option.some_inj]
  set padded := List.replicate (n - (E.toBeHex v).length) 0 ++ E.toBeHex v with hpadded
  have hvalue : ofBytes padded = v := by
    rw [hpadded, ofBytes_replicate_zero_append, hE.value]
  have hwidth : padded.length = n := by
    rw [hpadded, List.length_append, List.length_replicate]
    omega
  calc padded = toBytes padded.length (ofBytes padded) := (toBytes_ofBytes padded).symm
    _ = toBytes n v := by rw [hvalue, hwidth]

/-- **The worker computes the contract's id.** -/
theorem computeQueryId_eq {E : Ethers} (hE : E.Documented) (c : QueryCoordinates) :
    computeQueryId E c.chainKey.toNat c.blockHeight.toNat c.txIndex.toNat = some c.queryId := by
  have hword : ∀ v : Uint 64, E.zeroPadValue (E.toBeHex v.toNat) 32 =
      some (wordBytes (v.setWidth 256)) := fun v ↦ by
    rw [zeroPadValue_toBeHex hE (by decide) (v.isLt.trans_le (by decide)), wordBytes,
      BitVec.toNat_setWidth_of_le (by decide)]
  have hheight : E.zeroPadValue (E.toBeHex c.blockHeight.toNat) 8 =
      some (toBytes 8 c.blockHeight.toNat) :=
    zeroPadValue_toBeHex hE (by decide) (c.blockHeight.isLt.trans_le (by norm_num))
  rw [computeQueryId, hword, hheight, hword]
  rfl

end Worker

end Proofmark
