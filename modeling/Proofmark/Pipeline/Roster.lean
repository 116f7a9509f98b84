import Mathlib.Data.List.Sort
import Proofmark.Contracts.RosterProof
import Proofmark.Evm.Execution
import Proofmark.Merkle.Positional

/-!
# The epoch roster off chain

`pipeline/roster.ts`: the tree over the sorted subject keys, proofs of inclusion and of absence, and
their verification. A 32-byte hex string stands for its word: `solidityPacked` reads its value and
every comparison lowercases both sides. Hashes of keys, marks, leaves and nodes are the ones of
`RosterProof`, which the source keeps byte-identical.

An index or a count is a JavaScript number, of which the code asks whether it is a safe integer.
-/

open Evm

namespace Proofmark

namespace Pipeline

/-- A number. What is no integer (`NaN`, an infinity, a fraction) no function here accepts. -/
inductive JsNumber
  | integer (z : ℤ)
  | other
  deriving DecidableEq

namespace JsNumber

/-- `Number.isSafeInteger`. -/
def isSafeInteger : JsNumber → Bool
  | integer z => decide (|z| ≤ 2 ^ 53 - 1)
  | other => false

/-- `n === m + 1`. A number that is no integer is refused later in any case. -/
def isSuccessor : JsNumber → JsNumber → Bool
  | integer n, integer m => n == m + 1
  | _, _ => false

end JsNumber

structure RosterEntry where
  subject : Address
  attrs : Bytes32
  claimsRoot : Bytes32
  evidenceHash : Bytes32
  issuer : Address
  deriving DecidableEq

structure RosterTree where
  formatVersion : ℕ
  /-- Real entries sorted by key, sentinels excluded. -/
  entries : List RosterEntry
  /-- All keys including sentinels. -/
  keys : List Bytes32
  /-- Mark hashes aligned with keys; sentinel marks are zero. -/
  marks : List Bytes32
  leaves : List Bytes32
  /-- The first layer is the leaves. -/
  layers : List (List Bytes32)
  root : Bytes32
  deriving DecidableEq

/-- What the functions throw. -/
inductive RosterError
  | invalidLeafCount
  | duplicateSubject (subject : Address)
  | sentinelKey (subject : Address)
  | indexOutOfRange
  | targetInRoster
  | outsideSentinels
  | invalidProofSubject
  deriving DecidableEq

/-- Tree index of an entry. The sentinel shifts it by one. -/
def leafIndexOf (i : ℕ) : ℕ :=
  i + 1

def EVM_NAMESPACE : String := "eip155"

def ROSTER_FORMAT_VERSION : ℕ := 2

def subjectKey (subject : Address) (namespace_ : String) : Bytes32 :=
  RosterProof.subjectKey namespace_ subject

def markHash (e : RosterEntry) : Bytes32 :=
  RosterProof.markHash e.attrs e.claimsRoot e.evidenceHash e.issuer

def leafOf (key mark : Bytes32) : Bytes32 :=
  RosterProof.leafOf key mark

def rosterLeaf (e : RosterEntry) (namespace_ : String) : Bytes32 :=
  leafOf (subjectKey e.subject namespace_) (markHash e)

/-- Positional internal node. Left and right are not sorted. -/
def hashNode (left right : Bytes32) : Bytes32 :=
  RosterProof.node left right

def rosterRoot (treeRoot : Bytes32) (leafCount : JsNumber) : Except RosterError Bytes32 :=
  match leafCount with
  | .integer n =>
    if !leafCount.isSafeInteger || decide (n < 2) then .error .invalidLeafCount
    else .ok (RosterProof.rootOf treeRoot (BitVec.ofInt 256 n))
  | .other => .error .invalidLeafCount

def MIN_KEY : Bytes32 := 0

def MAX_KEY : Bytes32 := BitVec.allOnes 256

def SENTINEL_MARK : Bytes32 := 0

/-! ### The tree -/

/-- The entries with their keys, sorted by key. -/
def sortedByKey (entries : List RosterEntry) (namespace_ : String) :
    List (RosterEntry × Bytes32) :=
  (entries.map fun e ↦ (e, subjectKey e.subject namespace_)).insertionSort fun a b ↦ a.2 ≤ b.2

/-- Two neighbours with one key. -/
def checkDuplicates : List (RosterEntry × Bytes32) → Except RosterError Unit
  | a :: b :: l => do
    revertIf (b.2 == a.2) (.duplicateSubject b.1.subject)
    checkDuplicates (b :: l)
  | _ => .ok ()

/-- A key that collides with a sentinel. -/
def checkSentinels : List (RosterEntry × Bytes32) → Except RosterError Unit
  | a :: l => do
    revertIf (a.2 == MIN_KEY || a.2 == MAX_KEY) (.sentinelKey a.1.subject)
    checkSentinels l
  | [] => .ok ()

def buildRoster (entries : List RosterEntry) (namespace_ : String) :
    Except RosterError RosterTree := do
  let withKeys := sortedByKey entries namespace_
  checkDuplicates withKeys
  checkSentinels withKeys
  let sorted := withKeys.map Prod.fst
  let keys := MIN_KEY :: (withKeys.map Prod.snd ++ [MAX_KEY])
  let marks := SENTINEL_MARK :: (sorted.map markHash ++ [SENTINEL_MARK])
  let leaves := List.zipWith leafOf keys marks
  -- every layer but the last has two elements or more, so there are fewer layers than leaves
  let layers := Positional.layers hashNode leaves.length leaves
  let root ← rosterRoot ((Positional.top layers).getD 0) (.integer leaves.length)
  return ⟨ROSTER_FORMAT_VERSION, sorted, keys, marks, leaves, layers, root⟩

/-! ### Inclusion -/

structure InclusionProof where
  index : JsNumber
  leafCount : JsNumber
  siblings : List Bytes32
  deriving DecidableEq

def inclusionProof (tree : RosterTree) (index : JsNumber) : Except RosterError InclusionProof :=
  match index with
  | .integer i =>
    if !index.isSafeInteger || decide (i < 0) || decide (i ≥ tree.leaves.length) then
      .error .indexOutOfRange
    else
      .ok ⟨index, .integer tree.leaves.length, Positional.path tree.layers i.toNat⟩
  | .other => .error .indexOutOfRange

/-- The loop of `verifyInclusion`; `none` where it returns `false`. -/
def climb : List Bytes32 → Bytes32 → ℕ → ℕ → Option (Bytes32 × ℕ × ℕ)
  | [], acc, idx, width => some (acc, idx, width)
  | s :: siblings, acc, idx, width =>
    if width ≤ 1 then none
    else
      let pair := if idx % 2 = 0 then idx + 1 else idx - 1
      if pair ≥ width ∧ s ≠ acc then none
      else climb siblings (if idx % 2 = 0 then hashNode acc s else hashNode s acc) (idx / 2)
        ((width + 1) / 2)

def verifyInclusion (root leaf : Bytes32) (proof : InclusionProof) : Bool :=
  match proof.index, proof.leafCount with
  | .integer index, .integer leafCount =>
    if !proof.index.isSafeInteger || !proof.leafCount.isSafeInteger || decide (leafCount < 2)
      || decide (index < 0) || decide (index ≥ leafCount) || decide (proof.siblings.length > 256) then
      false
    else
      match climb proof.siblings leaf index.toNat leafCount.toNat with
      | none => false
      | some (acc, idx, width) =>
        width == 1 && idx == 0 && (rosterRoot acc proof.leafCount).toOption == some root
  | _, _ => false

/-! ### Absence -/

structure NonInclusionProof where
  left : InclusionProof
  leftKey : Bytes32
  leftMark : Bytes32
  right : InclusionProof
  rightKey : Bytes32
  rightMark : Bytes32
  deriving DecidableEq

/-- The gap before index `hi`. -/
def gapProof (tree : RosterTree) (hi : ℕ) : Except RosterError NonInclusionProof := do
  let lo := hi - 1
  let left ← inclusionProof tree (.integer lo)
  let right ← inclusionProof tree (.integer hi)
  return ⟨left, tree.keys.getD lo 0, tree.marks.getD lo 0,
    right, tree.keys.getD hi 0, tree.marks.getD hi 0⟩

local instance lawfulRoot : LawfulBEq Bytes32 :=
  inferInstance

def nonInclusionProof (tree : RosterTree) (target : Address) (namespace_ : String) :
    Except RosterError NonInclusionProof := do
  let tk := subjectKey target namespace_
  revertIf (decide (tk ∈ tree.keys)) .targetInRoster
  -- `findIndex` is -1 where no key is greater
  match tree.keys.findIdx? fun k ↦ decide (tk < k) with
  | none => .error .outsideSentinels
  | some hi =>
    revertIf (hi == 0) .outsideSentinels
    gapProof tree hi

def verifyNonInclusion (root : Bytes32) (target : Address) (proof : NonInclusionProof)
    (namespace_ : String) : Bool :=
  let tk := subjectKey target namespace_
  if !(decide (proof.leftKey < tk) && decide (tk < proof.rightKey)) then false
  else if !proof.right.index.isSuccessor proof.left.index then false
  else if proof.left.leafCount != proof.right.leafCount
      || proof.left.siblings.length != proof.right.siblings.length then false
  else
    verifyInclusion root (leafOf proof.leftKey proof.leftMark) proof.left
      && verifyInclusion root (leafOf proof.rightKey proof.rightMark) proof.right

/-! ### Encoding for the chain -/

/-- A number as a `uint256`. The encoder takes safe integers that are not negative. -/
def JsNumber.encode (n : JsNumber) : Option (Uint 256) :=
  match n with
  | .integer z => if n.isSafeInteger && decide (0 ≤ z) then some (BitVec.ofInt 256 z) else none
  | .other => none

def InclusionProof.encode (p : InclusionProof) : Option RosterProof.Inclusion := do
  return ⟨← p.index.encode, ← p.leafCount.encode, p.siblings⟩

def NonInclusionProof.encode (p : NonInclusionProof) : Option RosterProof.NonInclusion := do
  return ⟨← p.left.encode, p.leftKey, p.leftMark, ← p.right.encode, p.rightKey, p.rightMark⟩

end Pipeline

end Proofmark
