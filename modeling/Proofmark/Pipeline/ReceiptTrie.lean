import Proofmark.Merkle.Patricia
import Proofmark.Pipeline.Addresses
import Proofmark.Pipeline.Roster

/-!
# The receipts of a block

`computeReceiptsRoot` of `roster-source.ts`: the root of the trie of a block's receipts, rebuilt from
what the node of the roster reported.

A log that was normalized has one text for each value, so its values stand for it. A receipt has the
fields its encoding reads.
-/

open Evm Rlp

namespace Proofmark.Pipeline

namespace ReceiptTrie

inductive ReceiptError
  | negativeInteger
  | fieldsUnavailable
  | invalidLog
  deriving DecidableEq

/-! ### The trie -/

/-- An entry of the trie. -/
structure TrieItem where
  key : List (Fin 16)
  value : Bytes
  deriving DecidableEq

/-- `item.key.slice(n)` -/
def TrieItem.slice (item : TrieItem) (n : ℕ) : TrieItem :=
  { item with key := item.key.drop n }

def nibbles (bs : Bytes) : List (Fin 16) :=
  bs.flatMap fun b ↦ [Fin.ofNat 16 (b.toNat / 16), Fin.ofNat 16 b.toNat]

/-- Two nibbles a byte. -/
def packBytes : List (Fin 16) → Bytes
  | a :: b :: path => BitVec.ofNat 8 (16 * a.val + b.val) :: packBytes path
  | _ => []

def compactPath (path : List (Fin 16)) (leaf : Bool) : Bytes :=
  packBytes (if path.length % 2 = 1 then (if leaf then 3 else 1) :: path
    else (if leaf then 2 else 0) :: 0 :: path)

def nodeRef (node : List Item) : Item :=
  let encoded := encode (.list node)
  if encoded.length < 32 then .list node else .bytes (wordBytes (keccak256 encoded))

/-- `items.every(item => item.key.length > common && item.key[common] === items[0].key[common])` -/
def agree (first : TrieItem) (rest : List TrieItem) (common : ℕ) : Bool :=
  (first :: rest).all fun item ↦
    decide (common < item.key.length) && decide (item.key[common]? = first.key[common]?)

/-- `while (agree) common++` -/
def commonFrom (first : TrieItem) (rest : List TrieItem) (common : ℕ) : ℕ :=
  if h : agree first rest common then commonFrom first rest (common + 1) else common
termination_by first.key.length - common
decreasing_by
  rw [agree, List.all_cons, Bool.and_eq_true, Bool.and_eq_true, decide_eq_true_eq] at h
  omega

/-- The items below a nibble. -/
def group (nibble : Fin 16) (items : List TrieItem) : List TrieItem :=
  (items.filter fun item ↦ item.key.head? = some nibble).map fun item ↦ item.slice 1

/-- The value of the item whose key has ended. -/
def terminal (items : List TrieItem) : Bytes :=
  match items.find? fun item ↦ item.key.length == 0 with
  | some item => item.value
  | none => []

/-! ### It ends -/

def weight (items : List TrieItem) : ℕ :=
  (items.map fun item ↦ item.key.length).sum

theorem le_commonFrom (first : TrieItem) (rest : List TrieItem) (common : ℕ) :
    common ≤ commonFrom first rest common := by
  fun_induction commonFrom first rest common with
  | case1 common h ih => exact (Nat.le_succ common).trans ih
  | case2 common h => exact le_rfl

/-- Below the common length the items agree, and there they do not. -/
theorem commonFrom_spec (first : TrieItem) (rest : List TrieItem) (common : ℕ) :
    (∀ i, common ≤ i → i < commonFrom first rest common → agree first rest i = true) ∧
      agree first rest (commonFrom first rest common) = false := by
  fun_induction commonFrom first rest common with
  | case1 common h ih =>
    refine ⟨fun i hle hlt ↦ ?_, ih.2⟩
    rcases Nat.eq_or_lt_of_le hle with rfl | hlt'
    · exact h
    · exact ih.1 i hlt' hlt
  | case2 common h => exact ⟨fun i hle hlt ↦ absurd hlt (Nat.not_lt.2 hle), Bool.eq_false_iff.2 h⟩

theorem agree_iff {first : TrieItem} {rest : List TrieItem} {common : ℕ} :
    agree first rest common = true ↔ ∀ item ∈ first :: rest, common < item.key.length ∧
      item.key[common]? = first.key[common]? := by
  simp only [agree, List.all_eq_true, Bool.and_eq_true, decide_eq_true_eq]

theorem commonFrom_le {first : TrieItem} {rest : List TrieItem} {item : TrieItem}
    (h : item ∈ first :: rest) : commonFrom first rest 0 ≤ item.key.length := by
  by_contra hlt
  have hagree := (commonFrom_spec first rest 0).1 item.key.length (Nat.zero_le _) (Nat.not_le.1 hlt)
  exact lt_irrefl _ (agree_iff.1 hagree item h).1

theorem weight_cons (item : TrieItem) (items : List TrieItem) :
    weight (item :: items) = item.key.length + weight items := by
  rw [weight, List.map_cons, List.sum_cons]
  rfl

theorem weight_slice_le (items : List TrieItem) (n : ℕ) :
    weight (items.map fun item ↦ item.slice n) ≤ weight items := by
  induction items with
  | nil => exact le_rfl
  | cons item items ih =>
    rw [List.map_cons, weight_cons, weight_cons, TrieItem.slice, List.length_drop]
    omega

theorem weight_slice_lt {first : TrieItem} {n : ℕ} (rest : List TrieItem) (hn : 0 < n)
    (hle : n ≤ first.key.length) :
    weight (first.slice n :: rest.map fun item ↦ item.slice n) < weight (first :: rest) := by
  have hrest := weight_slice_le rest n
  rw [weight_cons, weight_cons, TrieItem.slice, List.length_drop]
  omega

theorem weight_group (nibble : Fin 16) (items : List TrieItem) :
    weight (group nibble items) + (group nibble items).length ≤ weight items := by
  induction items with
  | nil => exact le_rfl
  | cons item items ih =>
    rw [group] at ih ⊢
    rw [List.filter_cons]
    split
    case isTrue h =>
      have hpos : 0 < item.key.length := by
        refine List.length_pos_iff.2 fun hnil ↦ ?_
        rw [hnil] at h
        cases of_decide_eq_true h
      rw [List.map_cons, weight_cons, weight_cons, List.length_cons, TrieItem.slice,
        List.length_drop]
      omega
    case isFalse =>
      rw [weight_cons]
      omega

/-- The node of one item or more. -/
def trieNode (first : TrieItem) (rest : List TrieItem) : List Item :=
  match rest with
  | [] => [.bytes (compactPath first.key true), .bytes first.value]
  | second :: rest =>
    let common := commonFrom first (second :: rest) 0
    if hcommon : 0 < common then
      [.bytes (compactPath (first.key.take common) false),
        nodeRef (trieNode (first.slice common) ((second :: rest).map fun item ↦ item.slice common))]
    else
      (List.ofFn fun nibble ↦
        match _hgroup : group nibble (first :: second :: rest) with
        | [] => .bytes []
        | first' :: rest' => nodeRef (trieNode first' rest')) ++
        [.bytes (terminal (first :: second :: rest))]
termination_by weight (first :: rest)
decreasing_by
  · exact weight_slice_lt (second :: rest) hcommon (commonFrom_le List.mem_cons_self)
  · have hle := weight_group nibble (first :: second :: rest)
    rw [_hgroup, List.length_cons] at hle
    omega

/-! ### Receipts -/

structure SnapshotReceipt where
  type : JsNumber
  status : Option JsNumber
  /-- unless it is no `bigint` -/
  cumulativeGasUsed : Option ℤ
  logsBloom : Text
  root : Option Text

structure SnapshotLog where
  address : Text
  blockNumber : JsNumber
  blockHash : Text
  transactionHash : Text
  transactionIndex : JsNumber
  index : JsNumber
  topics : List Text
  data : Text
  removed : Option Bool

structure NormalizedLog where
  address : Address
  blockNumber : ℤ
  blockHash : Bytes32
  transactionHash : Bytes32
  transactionIndex : ℤ
  index : ℤ
  topics : List Bytes32
  data : Bytes
  deriving DecidableEq

structure BlockReceipt where
  index : ℤ
  /-- a position in a block -/
  index_lt : index < 2 ^ 53
  receipt : SnapshotReceipt
  logs : List NormalizedLog

def minimalInteger (value : ℤ) : Except ReceiptError Bytes := do
  revertIf (decide (value < 0)) .negativeInteger
  return minimal value.toNat

/-- The bytes that hex digits spell. -/
def digitBytes : Text → Bytes
  | a :: b :: t => BitVec.ofNat 8 (16 * Text.hexValue a + Text.hexValue b) :: digitBytes t
  | _ => []

/-- `ethers.getBytes` of a hex text. -/
def hexBytes (t : Text) : Bytes :=
  digitBytes (t.drop 2)

/-- `ethers.isHexString(t, true)` -/
def isHexData (t : Text) : Bool :=
  t.take 2 == ['0', 'x'] && t.length % 2 == 0 && (t.drop 2).all Text.isHexDigit

/-- A number for which `integer` holds. -/
def integer : JsNumber → Option ℤ
  | .integer z => if isSafeInteger z && decide (0 ≤ z) then some z else none
  | .other => none

def normalizedLog (E : Addresses) (log : SnapshotLog) (fromReceipt : Bool) :
    Except ReceiptError NormalizedLog := do
  revertIf (!E.isAddress log.address || !Text.isHexString log.blockHash 32
    || !Text.isHexString log.transactionHash 32
    || !(log.removed == some false || (fromReceipt && log.removed.isNone))
    || log.topics.any (fun t ↦ !Text.isHexString t 32) || !isHexData log.data) .invalidLog
  -- the address library takes other notations too, of which no bytes can be read later
  revertIf (!Text.isHexString log.address 20) .invalidLog
  return {
    address := BitVec.ofNat 160 (Text.hexNat (log.address.drop 2))
    blockNumber := ← getOrRevert (integer log.blockNumber) .invalidLog
    blockHash := Text.toWord log.blockHash
    transactionHash := Text.toWord log.transactionHash
    transactionIndex := ← getOrRevert (integer log.transactionIndex) .invalidLog
    index := ← getOrRevert (integer log.index) .invalidLog
    topics := log.topics.map Text.toWord
    data := hexBytes log.data }

def NormalizedLog.item (log : NormalizedLog) : Item :=
  .list [.bytes (toBytes 20 log.address.toNat), .list (log.topics.map fun t ↦ .bytes (wordBytes t)),
    .bytes log.data]

/-- The type and the status of a receipt whose fields are there. -/
def receiptFields (receipt : SnapshotReceipt) : Option (ℤ × ℤ × ℤ) :=
  match receipt.type, receipt.status, receipt.cumulativeGasUsed with
  | JsNumber.integer type, some (JsNumber.integer status), some gas =>
    if isSafeInteger type && decide (0 ≤ type) && decide (type ≤ 0x7f) && decide (0 ≤ gas)
        && Text.isHexString receipt.logsBloom 256 && (status == 0 || status == 1)
        && receipt.root.isNone then
      some (type, status, gas)
    else none
  | _, _, _ => none

def encodedReceipt (receipt : SnapshotReceipt) (logs : List NormalizedLog) :
    Except ReceiptError Bytes := do
  let (type, status, gas) ← getOrRevert (receiptFields receipt) .fieldsUnavailable
  let payload := encode (.list [.bytes (← minimalInteger status), .bytes (← minimalInteger gas),
    .bytes (hexBytes receipt.logsBloom), .list (logs.map NormalizedLog.item)])
  return if type = 0 then payload else BitVec.ofInt 8 type :: payload

def EMPTY_TRIE_ROOT : Bytes32 :=
  keccak256 (encode (.bytes []))

/-- The entry of a receipt. -/
def receiptItem (r : BlockReceipt) : Except ReceiptError TrieItem := do
  return {
    key := nibbles (encode (.bytes (← minimalInteger r.index)))
    value := ← encodedReceipt r.receipt r.logs }

def computeReceiptsRoot (receipts : List BlockReceipt) : Except ReceiptError Bytes32 := do
  match ← receipts.mapM receiptItem with
  | [] => return EMPTY_TRIE_ROOT
  | first :: rest => return keccak256 (encode (.list (trieNode first rest)))

end ReceiptTrie

end Proofmark.Pipeline
