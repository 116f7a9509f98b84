import Proofmark.Evm.Keccak

/-!
# Roster proofs on chain

`RosterProof.sol`: hashing of roster leaves and nodes, and the checks of membership and
non-membership. The loop of `verifyInclusion` runs on numbers; index and width only shrink from
two words, so nothing wraps.
-/

open Evm

namespace Proofmark

namespace RosterProof

def FORMAT_VERSION : ℕ := 2

/-- Membership of a leaf: its position, the number of leaves with both sentinels, the siblings. -/
structure Inclusion where
  index : Uint 256
  leafCount : Uint 256
  siblings : List Bytes32
  deriving DecidableEq

/-- Non-membership: the gap between two adjacent leaves. -/
structure NonInclusion where
  left : Inclusion
  leftKey : Bytes32
  leftMark : Bytes32
  right : Inclusion
  rightKey : Bytes32
  rightMark : Bytes32

/-- `abi.encode` of a string of at most 32 bytes and an address. -/
def encodeSubject (namespace_ : String) (subject : Address) : Bytes :=
  let text := ascii namespace_
  abiEncode [0x40, subject.setWidth 256, BitVec.ofNat 256 text.length]
    ++ text ++ List.replicate (32 - text.length) 0

def subjectKey (namespace_ : String) (subject : Address) : Bytes32 :=
  keccak256 (encodeSubject namespace_ subject)

def markHash (attrs claimsRoot evidenceHash : Bytes32) (issuer : Address) : Bytes32 :=
  keccak256 (abiEncode [attrs, claimsRoot, evidenceHash, issuer.setWidth 256])

/-- The preimage of a leaf. -/
def leafBytes (key mark : Bytes32) : Bytes :=
  0x00 :: (wordBytes key ++ wordBytes mark)

def leafOf (key mark : Bytes32) : Bytes32 :=
  keccak256 (leafBytes key mark)

/-- The preimage of an inner node. -/
def nodeBytes (l r : Bytes32) : Bytes :=
  0x01 :: (wordBytes l ++ wordBytes r)

/-- `_node`: positional, left and right are not sorted. -/
def node (l r : Bytes32) : Bytes32 :=
  keccak256 (nodeBytes l r)

/-- The preimage of a published root. -/
def rootBytes (treeRoot : Bytes32) (leafCount : Uint 256) : Bytes :=
  0x02 :: (wordBytes leafCount ++ wordBytes treeRoot)

/-- The published commitment binds tree shape as well as leaf contents. -/
def rootOf (treeRoot : Bytes32) (leafCount : Uint 256) : Bytes32 :=
  keccak256 (rootBytes treeRoot leafCount)

/-- The loop of `verifyInclusion`; `none` where it returns `false`. -/
def climb : List Bytes32 → Bytes32 → ℕ → ℕ → Option (Bytes32 × ℕ × ℕ)
  | [], acc, idx, width => some (acc, idx, width)
  | sibling :: siblings, acc, idx, width =>
    if width ≤ 1 then none
    -- odd tails are duplicated by the builder; no invented padding leaf is allowed
    else if idx ^^^ 1 ≥ width ∧ sibling ≠ acc then none
    else climb siblings (if idx % 2 = 0 then node acc sibling else node sibling acc) (idx / 2)
      (width / 2 + width % 2)

def verifyInclusion (root leaf : Bytes32) (p : Inclusion) : Bool :=
  if p.leafCount < 2 ∨ p.index ≥ p.leafCount ∨ p.siblings.length > 256 then false
  else
    match climb p.siblings leaf p.index.toNat p.leafCount.toNat with
    | none => false
    | some (acc, idx, width) => width == 1 && idx == 0 && rootOf acc p.leafCount == root

/-- Absence of a key: it falls strictly between the keys of two consecutive leaves. -/
def verifyNonInclusion (root targetKey : Bytes32) (p : NonInclusion) : Bool :=
  if ¬(p.leftKey < targetKey ∧ targetKey < p.rightKey) then false
  else if p.left.index = BitVec.allOnes 256 ∨ p.right.index ≠ p.left.index + 1 then false
  else if p.left.leafCount ≠ p.right.leafCount
      ∨ p.left.siblings.length ≠ p.right.siblings.length then false
  else
    verifyInclusion root (leafOf p.leftKey p.leftMark) p.left
      && verifyInclusion root (leafOf p.rightKey p.rightMark) p.right

end RosterProof

end Proofmark
