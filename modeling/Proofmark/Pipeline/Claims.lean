import Proofmark.Merkle.Commutative
import Proofmark.Pipeline.Canonical

/-!
# The evidence chain and the claim commitments

`evidence.ts`, `merkle.ts` and `claims.ts`. A digest is a word; as a text it is lower-case hex, so
sorting digests as texts is sorting them as numbers.

The proof of a leaf leads to the root (`foldl_merkleProof`), and a claim is known from its leaf
(`Claim.encode_inj`).
-/

open Evm JsonText

namespace Proofmark.Pipeline

variable {N : Type}

/-! ### `evidence.ts` -/

/-- `EvidenceChain.append`, on the head. -/
def appendStep (J : JsNumbers N) (head : Bytes32) (step : Value N) : Bytes32 :=
  keccak256 (wordBytes head ++ Text.utf8 (canonicalJson J step))

/-- `EvidenceChain.recompute` -/
def recompute (J : JsNumbers N) (steps : List (Value N)) : Bytes32 :=
  steps.foldl (appendStep J) 0

/-! ### `merkle.ts` -/

def hashPair (a b : Bytes32) : Bytes32 :=
  if a ≤ b then keccak256 (wordBytes a ++ wordBytes b) else keccak256 (wordBytes b ++ wordBytes a)

/-- `[...leaves].sort()` -/
def sortedLeaves (leaves : List Bytes32) : List Bytes32 :=
  leaves.insertionSort (· ≤ ·)

def merkleRoot (leaves : List Bytes32) : Bytes32 :=
  (Commutative.climb hashPair leaves.length (sortedLeaves leaves)).headD 0

local instance lawfulLeaf : LawfulBEq Bytes32 :=
  inferInstance

/-- Proof path for one leaf, used by selective disclosure. -/
def merkleProof (leaves : List Bytes32) (leaf : Bytes32) : Option (List Bytes32) :=
  if leaf ∈ leaves then
    some (Commutative.path hashPair leaves.length (sortedLeaves leaves)
      ((sortedLeaves leaves).idxOf leaf))
  else none

def verifyProof (root : Text) (leaf : Bytes32) (proof : List Bytes32) : Bool :=
  Text.ofWord (proof.foldl hashPair leaf) = root.lower

theorem hashPair_comm (a b : Bytes32) : hashPair a b = hashPair b a := by
  unfold hashPair
  rcases lt_trichotomy a b with h | rfl | h
  · rw [if_pos (BitVec.le_of_lt h), if_neg (BitVec.not_le.2 h)]
  · rfl
  · rw [if_neg (BitVec.not_le.2 h), if_pos (BitVec.le_of_lt h)]

/-- **The proof of a leaf leads to the root.** -/
theorem foldl_merkleProof {leaves proof : List Bytes32} {leaf : Bytes32}
    (h : merkleProof leaves leaf = some proof) : proof.foldl hashPair leaf = merkleRoot leaves := by
  unfold merkleProof at h
  split at h
  case isFalse => cases h
  case isTrue hmem =>
    obtain rfl := Option.some.inj h
    have hperm := List.perm_insertionSort (· ≤ ·) leaves
    have hget : (sortedLeaves leaves)[(sortedLeaves leaves).idxOf leaf]? = some leaf :=
      List.getElem?_idxOf (hperm.mem_iff.2 hmem)
    have hlength : (sortedLeaves leaves).length ≤ leaves.length + 1 := by
      rw [sortedLeaves, hperm.length_eq]
      omega
    rw [merkleRoot, Commutative.foldl_path hashPair_comm hlength hget]
    rfl

/-! ### `claims.ts` -/

structure Claim where
  key : Text
  value : Text
  salt : Text
  deriving DecidableEq

/-- A string as the ABI writes it: its length, and its bytes in whole words. -/
def abiString (t : Text) : Bytes :=
  let bytes := Text.utf8 t
  wordBytes (BitVec.ofNat 256 bytes.length) ++ bytes ++
    List.replicate ((32 - bytes.length % 32) % 32) 0

/-- `abi.encode(key, value, salt)` -/
def Claim.encode (c : Claim) : Bytes :=
  let key := abiString c.key
  wordBytes 96 ++ wordBytes (BitVec.ofNat 256 (96 + key.length)) ++ wordBytes (Text.toWord c.salt) ++
    key ++ abiString c.value

/-- A claim as the language holds it: no string is longer than `2 ^ 53 - 1`. -/
structure Claim.Held (c : Claim) : Prop where
  key : c.key.length < 2 ^ 53
  value : c.value.length < 2 ^ 53

/-- `claimLeaf`, where the salt is 32 bytes -/
def claimLeaf (c : Claim) : Option Bytes32 :=
  if Text.isHexString c.salt 32 then some (keccak256 c.encode) else none

def claimsRoot (claims : List Claim) : Option Bytes32 :=
  (claims.mapM claimLeaf).map merkleRoot

/-- Selective disclosure: reveal one claim and keep the rest hidden. -/
def discloseClaim (claims : List Claim) (key : Text) : Option (Claim × List Bytes32) := do
  let claim ← claims.find? fun c ↦ c.key = key
  let leaves ← claims.mapM claimLeaf
  let proof ← merkleProof leaves (← claimLeaf claim)
  return (claim, proof)

def verifyDisclosure (root : Text) (claim : Claim) (proof : List Bytes32) : Bool :=
  (claimLeaf claim).any fun leaf ↦ verifyProof root leaf proof

/-! ### A claim is known from its bytes -/

theorem length_utf8_lt {t : Text} (h : t.length < 2 ^ 53) : (Text.utf8 t).length < 2 ^ 256 := by
  have hle : (Text.utf8 t).length ≤ 4 * t.length := by
    clear h
    induction t with
    | nil => rfl
    | cons c t ih =>
      rw [Text.utf8, List.flatMap_cons, List.length_append, List.length_map,
        String.length_utf8EncodeChar, List.length_cons]
      have hchar := c.utf8Size_le_four
      rw [Text.utf8] at ih
      omega
  omega

/-- A string is known from the bytes that start with it. -/
theorem abiString_append_inj {s t : Text} {as bs : Bytes} (hs : s.length < 2 ^ 53)
    (ht : t.length < 2 ^ 53) (h : abiString s ++ as = abiString t ++ bs) : s = t ∧ as = bs := by
  simp only [abiString, List.append_assoc] at h
  obtain ⟨hlength, hrest⟩ := wordBytes_append_inj h
  have hsize : (Text.utf8 s).length = (Text.utf8 t).length := by
    have hnat := congrArg BitVec.toNat hlength
    rwa [BitVec.toNat_ofNat, BitVec.toNat_ofNat, Nat.mod_eq_of_lt (length_utf8_lt hs),
      Nat.mod_eq_of_lt (length_utf8_lt ht)] at hnat
  obtain ⟨hbytes, hpadded⟩ := List.append_inj hrest hsize
  rw [hsize] at hpadded
  exact ⟨Text.utf8_injective hbytes, List.append_cancel_left hpadded⟩

/-- **A claim is known from its leaf's preimage**, its salt as 32 bytes. -/
theorem Claim.encode_inj {c d : Claim} (hc : c.Held) (hd : d.Held) (h : c.encode = d.encode) :
    c.key = d.key ∧ c.value = d.value ∧ Text.toWord c.salt = Text.toWord d.salt := by
  simp only [Claim.encode, List.append_assoc] at h
  obtain ⟨-, h⟩ := wordBytes_append_inj h
  obtain ⟨-, h⟩ := wordBytes_append_inj h
  obtain ⟨hsalt, h⟩ := wordBytes_append_inj h
  obtain ⟨hkey, h⟩ := abiString_append_inj hc.key hd.key h
  have hvalue : abiString c.value ++ [] = abiString d.value ++ [] := by
    rw [List.append_nil, List.append_nil, h]
  exact ⟨hkey, (abiString_append_inj hc.value hd.value hvalue).1, hsalt⟩

/-- It is longer than what is hashed for a node. -/
theorem Claim.length_encode (c : Claim) : 64 < c.encode.length := by
  simp only [Claim.encode, List.length_append, length_wordBytes]
  omega

end Proofmark.Pipeline
