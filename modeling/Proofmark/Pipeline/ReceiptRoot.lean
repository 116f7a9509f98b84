import Proofmark.Pipeline.ReceiptTrie

/-!
# The root of a block's receipts

`computeReceiptsRoot` is the root of the specification for the map from the index of a receipt to
its bytes (`root_computeReceiptsRoot`), does not depend on the order of the list, and without
collisions is the root of no other receipts (`receipts_of_root`).
-/

open Evm Rlp

namespace Proofmark.Pipeline.ReceiptTrie

/-! ### The node of a list of items -/

/-- The pairs of a list of items. -/
def pairs (items : List TrieItem) : Set Patricia.Pair :=
  {q | ∃ item ∈ items, q = (item.key, item.value)}

theorem packBytes_eq (path : List (Fin 16)) : packBytes path = Patricia.pack path := by
  fun_induction packBytes path with
  | case1 a b path ih => rw [Patricia.pack, ih]
  | case2 path h =>
    rcases path with - | ⟨a, - | ⟨b, path⟩⟩
    · rfl
    · rfl
    · exact absurd rfl (h a b path)

theorem compactPath_eq (path : List (Fin 16)) (leaf : Bool) :
    compactPath path leaf = Patricia.hexPrefix path leaf := by
  rw [compactPath, Patricia.hexPrefix, packBytes_eq]
  cases leaf <;> split <;> rfl

theorem nodeRef_eq (node : List Item) : nodeRef node = Patricia.reference keccak256 node :=
  rfl

theorem nontrivial_pairs {first second : TrieItem} {rest : List TrieItem}
    (h : ((first :: second :: rest).map TrieItem.key).Nodup) :
    (pairs (first :: second :: rest)).Nontrivial := by
  refine ⟨_, ⟨first, List.mem_cons_self, rfl⟩, _,
    ⟨second, List.mem_cons_of_mem _ List.mem_cons_self, rfl⟩, fun heq ↦ ?_⟩
  rw [List.map_cons, List.map_cons, List.nodup_cons] at h
  exact h.1 (List.mem_cons.2 (.inl (Prod.mk.inj heq).1))

/-- Up to the common length all keys are the first one. -/
theorem take_commonFrom {first : TrieItem} {rest : List TrieItem} {item : TrieItem}
    (h : item ∈ first :: rest) :
    item.key.take (commonFrom first rest 0) = first.key.take (commonFrom first rest 0) := by
  refine List.ext_getElem? fun i ↦ ?_
  rw [List.getElem?_take, List.getElem?_take]
  split
  case isTrue hlt =>
    exact (agree_iff.1 ((commonFrom_spec first rest 0).1 i (Nat.zero_le i) hlt) item h).2
  case isFalse => rfl

/-- The common length is the longest. -/
theorem exists_not_common (first : TrieItem) (rest : List TrieItem) (x : Fin 16) :
    ∃ q ∈ pairs (first :: rest),
      ¬first.key.take (commonFrom first rest 0) ++ [x] <+: q.1 := by
  by_contra hall
  have hstarts : ∀ item ∈ first :: rest,
      first.key.take (commonFrom first rest 0) ++ [x] <+: item.key := fun item hitem ↦ by
    by_contra hnot
    exact hall ⟨_, ⟨item, hitem, rfl⟩, hnot⟩
  have hlength : (first.key.take (commonFrom first rest 0)).length = commonFrom first rest 0 :=
    List.length_take_of_le (commonFrom_le List.mem_cons_self)
  have hnext : ∀ item ∈ first :: rest, commonFrom first rest 0 < item.key.length ∧
      item.key[commonFrom first rest 0]? = some x := fun item hitem ↦ by
    obtain ⟨t, ht⟩ := hstarts item hitem
    have hget : item.key[commonFrom first rest 0]? = some x := by
      rw [← ht, List.append_assoc, List.getElem?_append_right (le_of_eq hlength), hlength,
        Nat.sub_self]
      rfl
    exact ⟨(List.getElem?_eq_some_iff.1 hget).1, hget⟩
  have hagree : agree first rest (commonFrom first rest 0) = true := agree_iff.2 fun item hitem ↦
    ⟨(hnext item hitem).1, (hnext item hitem).2.trans (hnext first List.mem_cons_self).2.symm⟩
  rw [(commonFrom_spec first rest 0).2] at hagree
  cases hagree

/-- The items below a common path. -/
theorem under_pairs {items : List TrieItem} {path : List (Fin 16)}
    (h : ∀ item ∈ items, item.key.take path.length = path) :
    Patricia.under path (pairs items) = pairs (items.map fun item ↦ item.slice path.length) := by
  ext ⟨key, value⟩
  constructor
  · rintro ⟨item, hitem, heq⟩
    obtain ⟨hkey, hvalue⟩ := Prod.mk.inj heq
    refine ⟨_, List.mem_map_of_mem hitem, ?_⟩
    simp only at hkey hvalue
    rw [TrieItem.slice, ← hkey, List.drop_left, hvalue]
  · rintro ⟨item', hitem', heq⟩
    obtain ⟨item, hitem, rfl⟩ := List.mem_map.1 hitem'
    obtain ⟨rfl, rfl⟩ := Prod.mk.inj heq
    refine ⟨item, hitem, ?_⟩
    have happend := List.take_append_drop path.length item.key
    rw [h item hitem] at happend
    exact Prod.ext happend rfl

/-- The items below a nibble. -/
theorem under_nibble (x : Fin 16) (items : List TrieItem) :
    Patricia.under [x] (pairs items) = pairs (group x items) := by
  have hfilter : Patricia.under [x] (pairs items) =
      Patricia.under [x] (pairs (items.filter fun item ↦ item.key.head? = some x)) := by
    ext ⟨key, value⟩
    constructor
    · rintro ⟨item, hitem, heq⟩
      refine ⟨item, List.mem_filter.2 ⟨hitem, decide_eq_true ?_⟩, heq⟩
      rw [← (Prod.mk.inj heq).1]
      rfl
    · rintro ⟨item, hitem, heq⟩
      exact ⟨item, (List.mem_filter.1 hitem).1, heq⟩
  rw [hfilter, under_pairs fun item hitem ↦ ?_]
  · rfl
  · have hhead := of_decide_eq_true (List.mem_filter.1 hitem).2
    cases hkey : item.key with
    | nil => rw [hkey] at hhead; cases hhead
    | cons y key =>
      rw [hkey] at hhead
      rw [Option.some.inj hhead]
      rfl

theorem pairs_nil : pairs [] = ∅ :=
  Set.eq_empty_of_forall_notMem fun _ ⟨_, h, _⟩ ↦ List.not_mem_nil h

/-- Keys stay distinct below a common path. -/
theorem nodup_slice {items : List TrieItem} {path : List (Fin 16)}
    (h : ∀ item ∈ items, item.key.take path.length = path) (hnodup : (items.map TrieItem.key).Nodup) :
    ((items.map fun item ↦ item.slice path.length).map TrieItem.key).Nodup := by
  rw [List.map_map]
  refine List.Nodup.map_on (fun a ha b hb heq ↦ ?_) hnodup.of_map
  refine List.inj_on_of_nodup_map hnodup ha hb ?_
  rw [← List.take_append_drop path.length a.key, ← List.take_append_drop path.length b.key, h a ha,
    h b hb]
  exact congrArg _ heq

theorem nodup_group {items : List TrieItem} (x : Fin 16) (h : (items.map TrieItem.key).Nodup) :
    ((group x items).map TrieItem.key).Nodup := by
  refine @nodup_slice _ [x] (fun item hitem ↦ ?_) (h.sublist (List.filter_sublist.map _))
  have hhead := of_decide_eq_true (List.mem_filter.1 hitem).2
  cases hkey : item.key with
  | nil => rw [hkey] at hhead; cases hhead
  | cons y key =>
    rw [hkey] at hhead
    rw [Option.some.inj hhead]
    rfl

theorem isTerminal_terminal {items : List TrieItem} (h : (items.map TrieItem.key).Nodup) :
    Patricia.IsTerminal (pairs items) (terminal items) where
  of_mem v := by
    rintro ⟨item, hitem, heq⟩
    obtain ⟨hkey, rfl⟩ := Prod.mk.inj heq
    rw [terminal]
    cases hfind : items.find? fun item ↦ item.key.length == 0 with
    | none =>
      have hnone := List.find?_eq_none.1 hfind item hitem
      rw [← hkey] at hnone
      exact absurd rfl hnone
    | some item' =>
      have hempty := List.find?_some hfind
      have hkey' : item'.key = [] := List.eq_nil_of_length_eq_zero (beq_iff_eq.1 hempty)
      show item'.value = item.value
      rw [List.inj_on_of_nodup_map h (List.mem_of_find?_eq_some hfind) hitem (hkey'.trans hkey)]
  of_not_mem hnone := by
    rw [terminal]
    cases hfind : items.find? fun item ↦ item.key.length == 0 with
    | none => rfl
    | some item =>
      have hempty := List.find?_some hfind
      have hkey : item.key = [] := List.eq_nil_of_length_eq_zero (beq_iff_eq.1 hempty)
      exact absurd ⟨item, List.mem_of_find?_eq_some hfind, by rw [hkey]⟩ (hnone item.value)

/-- The node of a group, empty for none. -/
def groupNode : List TrieItem → List Item
  | [] => []
  | first :: rest => trieNode first rest

/-- **The trie of a list is the one of its pairs.** -/
theorem node_trieNode {first : TrieItem} {rest : List TrieItem}
    (h : ((first :: rest).map TrieItem.key).Nodup) :
    Patricia.Node keccak256 (pairs (first :: rest)) (trieNode first rest) := by
  fun_induction trieNode first rest with
  | case1 first =>
    have hpairs : pairs [first] = {(first.key, first.value)} := by
      ext q
      constructor
      · rintro ⟨item, hitem, rfl⟩
        rw [List.mem_singleton.1 hitem]
        rfl
      · rintro rfl
        exact ⟨first, List.mem_cons_self, rfl⟩
    rw [hpairs, compactPath_eq]
    exact .leaf _ _
  | case2 first second rest common hcommon ih =>
    have hlength : (first.key.take common).length = common :=
      List.length_take_of_le (commonFrom_le List.mem_cons_self)
    have htake : ∀ item ∈ first :: second :: rest,
        item.key.take (first.key.take common).length = first.key.take common := fun item hitem ↦ by
      rw [hlength]
      exact take_commonFrom hitem
    have hnodup := nodup_slice htake h
    have hunder := under_pairs htake
    rw [hlength] at hnodup hunder
    rw [compactPath_eq, nodeRef_eq]
    refine .extension (nontrivial_pairs h) ?_ ?_ (exists_not_common first _) ?_
    · refine List.ne_nil_of_length_pos ?_
      rw [hlength]
      exact hcommon
    · rintro q ⟨item, hitem, rfl⟩
      rw [← take_commonFrom hitem]
      exact List.take_prefix _ _
    · rw [hunder]
      exact ih hnodup
  | case3 first second rest common hcommon ih =>
    have hzero : commonFrom first (second :: rest) 0 = 0 := Nat.eq_zero_of_not_pos hcommon
    have hmax : ∀ x, ∃ q ∈ pairs (first :: second :: rest), ¬[x] <+: q.1 := fun x ↦ by
      have hx := exists_not_common first (second :: rest) x
      rw [hzero] at hx
      exact hx
    have hgroup : ∀ x, (Patricia.under [x] (pairs (first :: second :: rest))).Nonempty →
        ∃ first' rest', group x (first :: second :: rest) = first' :: rest' := fun x hx ↦ by
      rw [under_nibble] at hx
      obtain ⟨-, item, hitem, -⟩ := hx
      exact List.exists_cons_of_ne_nil (List.ne_nil_of_mem hitem)
    refine @Patricia.Node.branch _ _ (fun x ↦ groupNode (group x (first :: second :: rest))) _ _
      (nontrivial_pairs h) hmax ?_ ?_ ?_ (isTerminal_terminal h)
    · intro x hx
      obtain ⟨first', rest', heq⟩ := hgroup x hx
      have hnodup := nodup_group x h
      rw [under_nibble, heq]
      rw [heq] at hnodup
      exact ih x first' rest' heq hnodup
    · intro x hx
      obtain ⟨first', rest', heq⟩ := hgroup x hx
      split
      next heq' => rw [heq] at heq'; cases heq'
      next heq' =>
        rw [heq', nodeRef_eq]
        rfl
    · intro x hx
      rw [under_nibble] at hx
      split
      next => rfl
      next first' rest' heq =>
        rw [heq] at hx
        exact absurd hx (Set.Nonempty.ne_empty ⟨_, first', List.mem_cons_self, rfl⟩)

/-! ### Items of receipts -/

theorem minimalInteger_eq_ok {value : ℤ} {bs : Bytes} :
    minimalInteger value = .ok bs ↔ 0 ≤ value ∧ bs = minimal value.toNat := by
  rw [minimalInteger, revertIf_bind_eq_ok, decide_eq_false_iff_not, not_lt]
  exact and_congr_right fun _ ↦ ⟨fun h ↦ (Except.ok.inj h).symm, fun h ↦ by rw [h]; rfl⟩

/-- The key of a receipt. -/
def indexKey (index : ℤ) : List (Fin 16) :=
  nibbles (encode (.bytes (minimal index.toNat)))

theorem nibbles_injective : Function.Injective nibbles := by
  intro as bs h
  induction as generalizing bs with
  | nil =>
    cases bs with
    | nil => rfl
    | cons b bs => cases h
  | cons a as ih =>
    cases bs with
    | nil => cases h
    | cons b bs =>
      rw [nibbles, nibbles, List.flatMap_cons, List.flatMap_cons] at h
      obtain ⟨hhigh, hrest⟩ := List.cons.inj h
      obtain ⟨hlow, hrest⟩ := List.cons.inj hrest
      have hhigh' := congrArg Fin.val hhigh
      have hlow' := congrArg Fin.val hlow
      have ha := a.isLt
      have hb := b.isLt
      simp only [Fin.ofNat] at hhigh' hlow'
      have hab : a = b := BitVec.eq_of_toNat_eq (by omega)
      rw [hab, ih hrest]

theorem length_nibbles (bs : Bytes) : (nibbles bs).length = 2 * bs.length := by
  induction bs with
  | nil => rfl
  | cons b bs ih =>
    rw [nibbles] at ih ⊢
    rw [List.flatMap_cons, List.length_append, ih, List.length_cons]
    show 2 + 2 * bs.length = 2 * (bs.length + 1)
    omega

theorem receiptItem_eq_ok {r : BlockReceipt} {item : TrieItem} : receiptItem r = .ok item ↔
    0 ≤ r.index ∧ ∃ v, encodedReceipt r.receipt r.logs = .ok v ∧ item = ⟨indexKey r.index, v⟩ := by
  rw [receiptItem, bind_eq_ok]
  simp only [minimalInteger_eq_ok, bind_eq_ok]
  constructor
  · rintro ⟨bs, ⟨hpos, rfl⟩, v, hv, h⟩
    exact ⟨hpos, v, hv, (Except.ok.inj h).symm⟩
  · rintro ⟨hpos, v, hv, rfl⟩
    exact ⟨_, ⟨hpos, rfl⟩, v, hv, rfl⟩

/-- The map from the index of a receipt to its bytes. -/
def receiptMap (receipts : List BlockReceipt) : Set Patricia.Pair :=
  {q | ∃ r ∈ receipts, ∃ v, encodedReceipt r.receipt r.logs = .ok v ∧ q = (indexKey r.index, v)}

/-- The root of a list of items. -/
def itemsRoot : List TrieItem → Bytes32
  | [] => EMPTY_TRIE_ROOT
  | first :: rest => keccak256 (encode (.list (trieNode first rest)))

theorem computeReceiptsRoot_eq_ok {receipts : List BlockReceipt} {root : Bytes32} :
    computeReceiptsRoot receipts = .ok root ↔
      ∃ items, List.Forall₂ (fun r item ↦ receiptItem r = .ok item) receipts items ∧
        root = itemsRoot items := by
  rw [computeReceiptsRoot, bind_eq_ok]
  refine exists_congr fun items ↦ and_congr mapM_eq_ok ?_
  cases items with
  | nil => exact ⟨fun h ↦ (Except.ok.inj h).symm, fun h ↦ by rw [h]; rfl⟩
  | cons first rest => exact ⟨fun h ↦ (Except.ok.inj h).symm, fun h ↦ by rw [h]; rfl⟩

theorem pairs_of_forall₂ {receipts : List BlockReceipt} {items : List TrieItem}
    (h : List.Forall₂ (fun r item ↦ receiptItem r = .ok item) receipts items) :
    pairs items = receiptMap receipts := by
  have hcons : ∀ (item : TrieItem) (items : List TrieItem),
      pairs (item :: items) = insert (item.key, item.value) (pairs items) := by
    intro item items
    ext q
    constructor
    · rintro ⟨item', h', rfl⟩
      rcases List.mem_cons.1 h' with rfl | h'
      · exact .inl rfl
      · exact .inr ⟨item', h', rfl⟩
    · rintro (rfl | ⟨item', h', rfl⟩)
      · exact ⟨item, List.mem_cons_self, rfl⟩
      · exact ⟨item', List.mem_cons_of_mem _ h', rfl⟩
  induction h with
  | nil =>
    rw [pairs_nil]
    refine (Set.eq_empty_of_forall_notMem ?_).symm
    rintro q ⟨r, h, -⟩
    exact List.not_mem_nil h
  | @cons r item receipts items hitem _ ih =>
    obtain ⟨-, v, hv, rfl⟩ := receiptItem_eq_ok.1 hitem
    rw [hcons, ih]
    ext q
    constructor
    · rintro (rfl | ⟨r', hr', hq⟩)
      · exact ⟨r, List.mem_cons_self, v, hv, rfl⟩
      · exact ⟨r', List.mem_cons_of_mem _ hr', hq⟩
    · rintro ⟨r', hr', v', hv', rfl⟩
      rcases List.mem_cons.1 hr' with rfl | hr'
      · rw [hv] at hv'
        exact .inl (by rw [Except.ok.inj hv'])
      · exact .inr ⟨r', hr', v', hv', rfl⟩

theorem indexKey_inj {i j : ℤ} (hi : 0 ≤ i) (hj : 0 ≤ j) (hi' : i < 2 ^ 53) (hj' : j < 2 ^ 53)
    (h : indexKey i = indexKey j) : i = j := by
  have hfits : ∀ {i : ℤ}, 0 ≤ i → i < 2 ^ 53 →
      (encode (.bytes (minimal i.toNat))).length < 2 ^ 64 := by
    intro i hi hi'
    have hlength : (minimal i.toNat).length ≤ 7 :=
      length_minimal_le (lt_of_lt_of_le ((Int.toNat_lt hi).2 hi') (by decide))
    rw [encode]
    exact (Patricia.length_encodeBytes_le (by omega)).trans_lt (by omega)
  have hbytes := encode_inj (hfits hi hi') (hfits hj hj') (nibbles_injective h)
  have hnat := minimal_injective (Item.bytes.inj hbytes)
  omega

/-! ### The root -/

/-- A receipt whose fields are there, at a position in a block. -/
def Accepted (r : BlockReceipt) : Prop :=
  ∃ item, receiptItem r = .ok item

theorem exists_items {receipts : List BlockReceipt} (h : ∀ r ∈ receipts, Accepted r) :
    ∃ items, List.Forall₂ (fun r item ↦ receiptItem r = .ok item) receipts items := by
  induction receipts with
  | nil => exact ⟨[], .nil⟩
  | cons r receipts ih =>
    obtain ⟨⟨item, hitem⟩, hrest⟩ := List.forall_mem_cons.1 h
    obtain ⟨items, hitems⟩ := ih hrest
    exact ⟨item :: items, .cons hitem hitems⟩

theorem accepted_of_forall₂ {receipts : List BlockReceipt} {items : List TrieItem}
    (h : List.Forall₂ (fun r item ↦ receiptItem r = .ok item) receipts items) :
    ∀ r ∈ receipts, Accepted r := by
  induction h with
  | nil => exact fun _ h ↦ absurd h List.not_mem_nil
  | cons hitem _ ih => exact List.forall_mem_cons.2 ⟨⟨_, hitem⟩, ih⟩

/-- Distinct positions have distinct keys. -/
theorem nodup_keys {receipts : List BlockReceipt} {items : List TrieItem}
    (h : List.Forall₂ (fun r item ↦ receiptItem r = .ok item) receipts items)
    (hdistinct : (receipts.map BlockReceipt.index).Nodup) : (items.map TrieItem.key).Nodup := by
  have hkeys : items.map TrieItem.key = (receipts.map BlockReceipt.index).map indexKey := by
    clear hdistinct
    induction h with
    | nil => rfl
    | cons hitem _ ih =>
      obtain ⟨-, v, -, rfl⟩ := receiptItem_eq_ok.1 hitem
      rw [List.map_cons, ih, List.map_cons, List.map_cons]
  have hpos : ∀ i ∈ receipts.map BlockReceipt.index, 0 ≤ i ∧ i < 2 ^ 53 := by
    rw [List.forall_mem_map]
    intro r hr
    obtain ⟨item, hitem⟩ := accepted_of_forall₂ h r hr
    exact ⟨(receiptItem_eq_ok.1 hitem).1, r.index_lt⟩
  rw [hkeys]
  exact hdistinct.map_on fun i hi j hj heq ↦
    indexKey_inj (hpos i hi).1 (hpos j hj).1 (hpos i hi).2 (hpos j hj).2 heq

/-- **The root is the one of the specification** for the map from positions to receipts. -/
theorem root_computeReceiptsRoot {receipts : List BlockReceipt} {root : Bytes32}
    (hdistinct : (receipts.map BlockReceipt.index).Nodup)
    (h : computeReceiptsRoot receipts = .ok root) :
    Patricia.Root keccak256 (receiptMap receipts) root := by
  obtain ⟨items, hitems, rfl⟩ := computeReceiptsRoot_eq_ok.1 h
  have hkeys := nodup_keys hitems hdistinct
  rw [← pairs_of_forall₂ hitems]
  cases items with
  | nil =>
    rw [pairs_nil]
    exact .empty
  | cons first rest => exact .node (node_trieNode hkeys)

theorem exists_computeReceiptsRoot {receipts : List BlockReceipt}
    (h : ∀ r ∈ receipts, Accepted r) : ∃ root, computeReceiptsRoot receipts = .ok root := by
  obtain ⟨items, hitems⟩ := exists_items h
  exact ⟨_, computeReceiptsRoot_eq_ok.2 ⟨items, hitems, rfl⟩⟩

/-- **The order of the list does not matter.** -/
theorem computeReceiptsRoot_perm {receipts receipts' : List BlockReceipt} {root : Bytes32}
    (hdistinct : (receipts.map BlockReceipt.index).Nodup) (hperm : receipts.Perm receipts')
    (h : computeReceiptsRoot receipts = .ok root) : computeReceiptsRoot receipts' = .ok root := by
  obtain ⟨items, hitems, -⟩ := computeReceiptsRoot_eq_ok.1 h
  obtain ⟨root', h'⟩ : ∃ root', computeReceiptsRoot receipts' = .ok root' :=
    exists_computeReceiptsRoot fun r hr ↦ accepted_of_forall₂ hitems r (hperm.mem_iff.2 hr)
  have hmap : receiptMap receipts = receiptMap receipts' := by
    ext q
    simp only [receiptMap, Set.mem_ofPred_eq, hperm.mem_iff]
  have hroot := root_computeReceiptsRoot hdistinct h
  rw [hmap] at hroot
  rw [h', hroot.unique (root_computeReceiptsRoot ((hperm.map _).nodup hdistinct) h')]

/-! ### Receipts from their bytes -/

/-- What the bytes of a receipt say of a log. -/
structure LogContent where
  address : Address
  topics : List Bytes32
  data : Bytes
  deriving DecidableEq

def NormalizedLog.content (log : NormalizedLog) : LogContent :=
  ⟨log.address, log.topics, log.data⟩

def LogContent.item (log : LogContent) : Item :=
  .list [.bytes (toBytes 20 log.address.toNat), .list (log.topics.map fun t ↦ .bytes (wordBytes t)),
    .bytes log.data]

theorem LogContent.item_injective : Function.Injective LogContent.item := by
  rintro ⟨address, topics, data⟩ ⟨address', topics', data'⟩ h
  obtain ⟨haddress, hrest⟩ := List.cons.inj (Item.list.inj h)
  obtain ⟨htopics, hrest⟩ := List.cons.inj hrest
  have hnat := toBytes_inj address.isLt address'.isLt (Item.bytes.inj haddress)
  have hwords : Function.Injective fun t : Bytes32 ↦ Item.bytes (wordBytes t) := fun t t' h ↦
    wordBytes_injective (Item.bytes.inj h)
  have haddress' : address = address' := BitVec.eq_of_toNat_eq hnat
  have htopics' : topics = topics' := List.map_injective_iff.2 hwords (Item.list.inj htopics)
  have hdata : data = data' := Item.bytes.inj (List.cons.inj hrest).1
  rw [haddress', htopics', hdata]

/-- What the bytes of a receipt say. -/
structure ReceiptContent where
  type : ℤ
  status : ℤ
  cumulativeGasUsed : ℤ
  logsBloom : Bytes
  logs : List LogContent
  deriving DecidableEq

/-- The fields of a receipt that is accepted. -/
def ReceiptContent.Valid (c : ReceiptContent) : Prop :=
  0 ≤ c.type ∧ c.type ≤ 0x7f ∧ 0 ≤ c.status ∧ 0 ≤ c.cumulativeGasUsed

def ReceiptContent.payload (c : ReceiptContent) : Item :=
  .list [.bytes (minimal c.status.toNat), .bytes (minimal c.cumulativeGasUsed.toNat),
    .bytes c.logsBloom, .list (c.logs.map LogContent.item)]

def ReceiptContent.bytes (c : ReceiptContent) : Bytes :=
  if c.type = 0 then encode c.payload else BitVec.ofInt 8 c.type :: encode c.payload

/-- What a receipt says, with its logs. -/
def contentOf (receipt : SnapshotReceipt) (logs : List NormalizedLog) : Option ReceiptContent :=
  (receiptFields receipt).map fun (type, status, gas) ↦
    ⟨type, status, gas, hexBytes receipt.logsBloom, logs.map NormalizedLog.content⟩

theorem receiptFields_nonneg {receipt : SnapshotReceipt} {type status gas : ℤ}
    (h : receiptFields receipt = some (type, status, gas)) :
    0 ≤ type ∧ type ≤ 0x7f ∧ 0 ≤ status ∧ 0 ≤ gas := by
  rw [receiptFields] at h
  split at h
  next type' status' gas' _ _ _ =>
    split at h
    next hvalid =>
      simp only [Bool.and_eq_true, Bool.or_eq_true, beq_iff_eq, decide_eq_true_eq] at hvalid
      simp only [Option.some.injEq, Prod.mk.injEq] at h
      obtain ⟨rfl, rfl, rfl⟩ := h
      obtain ⟨⟨⟨⟨⟨⟨-, h0⟩, hmax⟩, hgas⟩, -⟩, hstatus⟩, -⟩ := hvalid
      exact ⟨h0, hmax, by omega, hgas⟩
    next => cases h
  next => cases h

/-- **The bytes of a receipt are those of what it says.** -/
theorem encodedReceipt_eq_ok {receipt : SnapshotReceipt} {logs : List NormalizedLog} {v : Bytes} :
    encodedReceipt receipt logs = .ok v ↔
      ∃ c, contentOf receipt logs = some c ∧ c.Valid ∧ v = c.bytes := by
  rw [encodedReceipt, contentOf, bind_eq_ok]
  constructor
  · rintro ⟨⟨type, status, gas⟩, hfields, h⟩
    rw [getOrRevert_eq_ok] at hfields
    obtain ⟨h0, hmax, hstatus, hgas⟩ := receiptFields_nonneg hfields
    simp only [bind_eq_ok, minimalInteger_eq_ok] at h
    obtain ⟨-, ⟨-, rfl⟩, -, ⟨-, rfl⟩, h⟩ := h
    refine ⟨_, by rw [hfields]; rfl, ⟨h0, hmax, hstatus, hgas⟩, ?_⟩
    rw [← Except.ok.inj h, ReceiptContent.bytes, ReceiptContent.payload, List.map_map]
    rfl
  · rintro ⟨c, hc, ⟨h0, hmax, hstatus, hgas⟩, rfl⟩
    obtain ⟨⟨type, status, gas⟩, hfields, rfl⟩ := Option.map_eq_some_iff.1 hc
    refine ⟨(type, status, gas), getOrRevert_eq_ok.2 hfields, ?_⟩
    simp only [bind_eq_ok, minimalInteger_eq_ok]
    refine ⟨_, ⟨hstatus, rfl⟩, _, ⟨hgas, rfl⟩, ?_⟩
    rw [ReceiptContent.bytes, ReceiptContent.payload, List.map_map]
    rfl

theorem length_payload_le (c : ReceiptContent) : (encode c.payload).length ≤ c.bytes.length := by
  rw [ReceiptContent.bytes]
  split
  · exact le_rfl
  · exact Nat.le_succ _

/-- **A receipt is known from its bytes.** -/
theorem ReceiptContent.bytes_inj {c c' : ReceiptContent} (hc : c.Valid) (hc' : c'.Valid)
    (hlen : c.bytes.length < 2 ^ 64) (hlen' : c'.bytes.length < 2 ^ 64) (h : c.bytes = c'.bytes) :
    c = c' := by
  obtain ⟨h0, hmax, hstatus, hgas⟩ := hc
  obtain ⟨h0', hmax', hstatus', hgas'⟩ := hc'
  have hfits := (length_payload_le c).trans_lt hlen
  have hfits' := (length_payload_le c').trans_lt hlen'
  have htype : ∀ {t : ℤ}, 0 ≤ t → t ≤ 0x7f → (BitVec.ofInt 8 t).toNat = t.toNat := by
    intro t ht ht'
    rw [BitVec.toNat_ofInt]
    omega
  have hlist : ∀ {b : Byte} {c : ReceiptContent} {bs : Bytes}, b.toNat < 0x80 →
      (encode c.payload).length < 2 ^ 64 → b :: bs ≠ encode c.payload := by
    intro b c bs hb hfits
    rw [ReceiptContent.payload, encode]
    rw [ReceiptContent.payload] at hfits
    exact cons_ne_header hb (.inr rfl) ((length_encodeAll_le _).trans_lt hfits)
  have hboth : c.type = c'.type ∧ encode c.payload = encode c'.payload := by
    rw [ReceiptContent.bytes, ReceiptContent.bytes] at h
    split at h <;> split at h
    next hz hz' => exact ⟨hz.trans hz'.symm, h⟩
    next => exact absurd h.symm (hlist (by rw [htype h0' hmax']; omega) hfits)
    next => exact absurd h (hlist (by rw [htype h0 hmax]; omega) hfits')
    next =>
      obtain ⟨hbyte, hrest⟩ := List.cons.inj h
      have hnat := congrArg BitVec.toNat hbyte
      rw [htype h0 hmax, htype h0' hmax'] at hnat
      exact ⟨by omega, hrest⟩
  obtain ⟨heq, hpayload⟩ := hboth
  have hitems := Item.list.inj (encode_inj hfits hfits' hpayload)
  obtain ⟨hs, hrest⟩ := List.cons.inj hitems
  obtain ⟨hg, hrest⟩ := List.cons.inj hrest
  obtain ⟨hb, hrest⟩ := List.cons.inj hrest
  have hstatusNat := minimal_injective (Item.bytes.inj hs)
  have hgasNat := minimal_injective (Item.bytes.inj hg)
  have hlogs : c.logs = c'.logs := List.map_injective_iff.2 LogContent.item_injective
    (Item.list.inj (List.cons.inj hrest).1)
  have hbloom : c.logsBloom = c'.logsBloom := Item.bytes.inj hb
  obtain ⟨type, status, gas, bloom, logs⟩ := c
  obtain ⟨type', status', gas', bloom', logs'⟩ := c'
  simp only at heq hstatus hstatus' hgas hgas' hstatusNat hgasNat hlogs hbloom
  obtain rfl : status = status' := by omega
  obtain rfl : gas = gas' := by omega
  rw [heq, hlogs, hbloom]

/-! ### The receipts of a root -/

/-- A receipt at its position. -/
def BlockReceipt.content (r : BlockReceipt) : ℤ × Option ReceiptContent :=
  (r.index, contentOf r.receipt r.logs)

/-- The bytes of a receipt are no longer than a text of the language. -/
def Short (r : BlockReceipt) : Prop :=
  ∀ v, encodedReceipt r.receipt r.logs = .ok v → v.length ≤ 2 ^ 53

/-- What is hashed for a list of receipts. -/
def preimages (receipts : List BlockReceipt) : Set Bytes :=
  insert (encode (.bytes [])) (Patricia.encodings keccak256 (receiptMap receipts))

theorem bounded_receiptMap {receipts : List BlockReceipt} (haccepted : ∀ r ∈ receipts, Accepted r)
    (hshort : ∀ r ∈ receipts, Short r) : Patricia.Bounded (receiptMap receipts) where
  path q hq := by
    obtain ⟨r, hr, v, -, rfl⟩ := hq
    obtain ⟨item, hitem⟩ := haccepted r hr
    have hpos := (receiptItem_eq_ok.1 hitem).1
    have hlength : (minimal r.index.toNat).length ≤ 7 :=
      length_minimal_le (lt_of_lt_of_le ((Int.toNat_lt hpos).2 r.index_lt) (by decide))
    have hbytes := Patricia.length_encodeBytes_le (lt_of_le_of_lt hlength (by decide))
    show (indexKey r.index).length ≤ _
    rw [indexKey, length_nibbles, encode]
    omega
  value q hq := by
    obtain ⟨r, hr, v, hv, rfl⟩ := hq
    exact hshort r hr v hv
  ne_nil q hq := by
    obtain ⟨r, hr, v, hv, rfl⟩ := hq
    obtain ⟨c, -, -, rfl⟩ := encodedReceipt_eq_ok.1 hv
    rw [ReceiptContent.bytes]
    split
    · exact encode_ne_nil _
    · exact List.cons_ne_nil _ _

/-- A receipt of one list is in the other, if the maps are the same. -/
theorem content_mem {receipts receipts' : List BlockReceipt}
    (haccepted : ∀ r ∈ receipts, Accepted r) (haccepted' : ∀ r ∈ receipts', Accepted r)
    (hshort : ∀ r ∈ receipts, Short r) (hmap : receiptMap receipts = receiptMap receipts') :
    ∀ x ∈ receipts.map BlockReceipt.content, x ∈ receipts'.map BlockReceipt.content := by
  rw [List.forall_mem_map]
  intro r hr
  obtain ⟨item, hitem⟩ := haccepted r hr
  obtain ⟨hpos, v, hv, -⟩ := receiptItem_eq_ok.1 hitem
  have hmem : (indexKey r.index, v) ∈ receiptMap receipts' := hmap ▸ ⟨r, hr, v, hv, rfl⟩
  obtain ⟨r', hr', v', hv', heq⟩ := hmem
  obtain ⟨hkey, rfl⟩ := Prod.mk.inj heq
  obtain ⟨item', hitem'⟩ := haccepted' r' hr'
  have hindex := indexKey_inj hpos (receiptItem_eq_ok.1 hitem').1 r.index_lt r'.index_lt hkey
  obtain ⟨c, hc, hvalid, hbytes⟩ := encodedReceipt_eq_ok.1 hv
  obtain ⟨c', hc', hvalid', hbytes'⟩ := encodedReceipt_eq_ok.1 hv'
  have hlen : v.length < 2 ^ 64 := (hshort r hr v hv).trans_lt (by decide)
  have hcontent := ReceiptContent.bytes_inj hvalid hvalid' (hbytes ▸ hlen) (hbytes' ▸ hlen)
    (hbytes.symm.trans hbytes')
  refine List.mem_map.2 ⟨r', hr', ?_⟩
  rw [BlockReceipt.content, BlockReceipt.content, hindex, hc, hc', hcontent]

theorem nodup_content {receipts : List BlockReceipt}
    (h : (receipts.map BlockReceipt.index).Nodup) : (receipts.map BlockReceipt.content).Nodup := by
  refine List.Nodup.of_map Prod.fst ?_
  rwa [List.map_map]

/-- **Without collisions a root belongs to one block of receipts**: none is left out, added or
altered. -/
theorem receipts_of_root {receipts receipts' : List BlockReceipt} {root : Bytes32}
    (h : computeReceiptsRoot receipts = .ok root) (h' : computeReceiptsRoot receipts' = .ok root)
    (hdistinct : (receipts.map BlockReceipt.index).Nodup)
    (hdistinct' : (receipts'.map BlockReceipt.index).Nodup)
    (hshort : ∀ r ∈ receipts, Short r) (hshort' : ∀ r ∈ receipts', Short r)
    (hfree : CollisionFree keccak256 (preimages receipts ∪ preimages receipts')) :
    (receipts.map BlockReceipt.content).Perm (receipts'.map BlockReceipt.content) := by
  obtain ⟨items, hitems, -⟩ := computeReceiptsRoot_eq_ok.1 h
  obtain ⟨items', hitems', -⟩ := computeReceiptsRoot_eq_ok.1 h'
  have haccepted := accepted_of_forall₂ hitems
  have haccepted' := accepted_of_forall₂ hitems'
  have hmap : receiptMap receipts = receiptMap receipts' :=
    (root_computeReceiptsRoot hdistinct h).injective (root_computeReceiptsRoot hdistinct' h')
      (bounded_receiptMap haccepted hshort) (bounded_receiptMap haccepted' hshort') hfree
      (.inl (.inl rfl)) (fun _ hb ↦ .inl (.inr hb)) (fun _ hb ↦ .inr (.inr hb))
  refine (List.perm_ext_iff_of_nodup (nodup_content hdistinct) (nodup_content hdistinct')).2
    fun x ↦ ⟨?_, ?_⟩
  · exact content_mem haccepted haccepted' hshort hmap x
  · exact content_mem haccepted' haccepted hshort' hmap.symm x

/-- Receipts at all positions of a block. -/
def Covers (receipts : List BlockReceipt) : Prop :=
  ∃ n : ℕ, (receipts.map BlockReceipt.index).Perm ((List.range n).map Int.ofNat)

theorem Covers.nodup {receipts : List BlockReceipt} (h : Covers receipts) :
    (receipts.map BlockReceipt.index).Nodup := by
  obtain ⟨n, hn⟩ := h
  exact hn.nodup_iff.2 (List.nodup_range.map Int.ofNat_injective)

/-- What holds of the root of a list of receipts. -/
structure RootLaws (receipts : List BlockReceipt) (root : Bytes32) : Prop where
  /-- it is the root of the specification, for the map from positions to receipts -/
  specified : Patricia.Root keccak256 (receiptMap receipts) root
  /-- of which there is one only -/
  only (root' : Bytes32) (h : Patricia.Root keccak256 (receiptMap receipts) root') : root' = root
  /-- the order of the list does not matter -/
  order (receipts' : List BlockReceipt) (h : receipts.Perm receipts') :
    computeReceiptsRoot receipts' = .ok root
  /-- no other block has the root -/
  binding (receipts' : List BlockReceipt) (hcovers : Covers receipts) (hcovers' : Covers receipts')
    (h' : computeReceiptsRoot receipts' = .ok root) (hshort : ∀ r ∈ receipts, Short r)
    (hshort' : ∀ r ∈ receipts', Short r)
    (hfree : CollisionFree keccak256 (preimages receipts ∪ preimages receipts')) :
    (receipts.map BlockReceipt.content).Perm (receipts'.map BlockReceipt.content)

/-- **The root of the receipts of a block.** -/
theorem computeReceiptsRoot_laws {receipts : List BlockReceipt}
    (hdistinct : (receipts.map BlockReceipt.index).Nodup) (haccepted : ∀ r ∈ receipts, Accepted r) :
    ∃ root, computeReceiptsRoot receipts = .ok root ∧ RootLaws receipts root := by
  obtain ⟨root, hroot⟩ := exists_computeReceiptsRoot haccepted
  have hspec := root_computeReceiptsRoot hdistinct hroot
  exact ⟨root, hroot, {
    specified := hspec
    only := fun _ h ↦ h.unique hspec
    order := fun _ hperm ↦ computeReceiptsRoot_perm hdistinct hperm hroot
    binding := fun _ hcovers hcovers' h' hshort hshort' hfree ↦
      receipts_of_root hroot h' hcovers.nodup hcovers'.nodup hshort hshort' hfree }⟩

/-- A block with one receipt of each kind. -/
def sampleReceipts : List BlockReceipt :=
  [⟨1, by decide, ⟨.integer 2, some (.integer 1), some 42000,
      '0' :: 'x' :: List.replicate 512 '0', none⟩, []⟩,
    ⟨0, by decide, ⟨.integer 0, some (.integer 1), some 21000,
      '0' :: 'x' :: List.replicate 512 '0', none⟩,
      [⟨1, 7, 2, 3, 0, 0, [4, 5], [6]⟩]⟩]

theorem accepted_of_fields {r : BlockReceipt} (hpos : 0 ≤ r.index)
    (h : (receiptFields r.receipt).isSome = true) : Accepted r := by
  obtain ⟨⟨type, status, gas⟩, hfields⟩ := Option.isSome_iff_exists.1 h
  have hcontent : contentOf r.receipt r.logs = some ⟨type, status, gas,
      hexBytes r.receipt.logsBloom, r.logs.map NormalizedLog.content⟩ := by
    rw [contentOf, hfields]
    rfl
  exact ⟨_, receiptItem_eq_ok.2 ⟨hpos, _, encodedReceipt_eq_ok.2 ⟨_, hcontent,
    receiptFields_nonneg hfields, rfl⟩, rfl⟩⟩

theorem computeReceiptsRoot_laws_sample :
    ∃ root, computeReceiptsRoot sampleReceipts = .ok root ∧ RootLaws sampleReceipts root := by
  refine computeReceiptsRoot_laws (by decide) ?_
  rw [sampleReceipts, List.forall_mem_cons, List.forall_mem_singleton]
  exact ⟨accepted_of_fields (by decide) (by decide +kernel),
    accepted_of_fields (by decide) (by decide +kernel)⟩

end Proofmark.Pipeline.ReceiptTrie
