import Mathlib.Data.List.OfFn
import Mathlib.Data.Set.Subsingleton
import Proofmark.Format.Rlp

/-!
# Merkle–Patricia tries

The node of a set of keys with their values, as the specification of the chain has it: a leaf, an
extension by the longest common path, or a branch (`Node`), and the root of a set (`Root`). A set
has one node (`Node.unique`), and without collisions among the hashed nodes a root belongs to one
set (`Root.injective`).
-/

open Evm Rlp

namespace Patricia

abbrev Nibble := Fin 16

abbrev Path := List Nibble

instance nibble_neZero : NeZero (15 + 1) :=
  ⟨by decide⟩

/-- A key with its value. -/
abbrev Pair := Path × Bytes

variable {hash : Bytes → Bytes32} {J K : Set Pair}

/-! ### Paths as bytes -/

/-- Two nibbles a byte. -/
def pack : Path → Bytes
  | a :: b :: path => BitVec.ofNat 8 (16 * a.val + b.val) :: pack path
  | _ => []

/-- The nibble that marks a leaf, and an odd path. -/
def flag (leaf odd : Bool) : Nibble :=
  match leaf, odd with
  | false, false => 0
  | false, true => 1
  | true, false => 2
  | true, true => 3

/-- A path with its kind, in whole bytes. -/
def hexPrefix (path : Path) (leaf : Bool) : Bytes :=
  if path.length % 2 = 1 then pack (flag leaf true :: path) else pack (flag leaf false :: 0 :: path)

theorem pack_inj : ∀ {p q : Path}, p.length % 2 = 0 → q.length % 2 = 0 → pack p = pack q → p = q
  | [], [], _, _, _ => rfl
  | [], _ :: _ :: _, _, _, h => by cases h
  | _ :: _ :: _, [], _, _, h => by cases h
  | [_], _, hp, _, _ => by cases hp
  | _, [_], _, hq, _ => by cases hq
  | a :: b :: p, c :: d :: q, hp, hq, h => by
    rw [pack, pack] at h
    obtain ⟨hbyte, hrest⟩ := List.cons.inj h
    have hnat := congrArg BitVec.toNat hbyte
    rw [BitVec.toNat_ofNat, BitVec.toNat_ofNat] at hnat
    rw [List.length_cons, List.length_cons] at hp hq
    have hac : a = c := Fin.ext (by omega)
    have hbd : b = d := Fin.ext (by omega)
    rw [hac, hbd, pack_inj (by omega) (by omega) hrest]

/-- **A path and its kind are known from their bytes.** -/
theorem hexPrefix_inj {p q : Path} {l l' : Bool} (h : hexPrefix p l = hexPrefix q l') :
    p = q ∧ l = l' := by
  have hflag : ∀ {l l' o o' : Bool}, flag l o = flag l' o' → l = l' ∧ o = o' := by decide
  rw [hexPrefix, hexPrefix] at h
  split at h <;> split at h
  · obtain ⟨hf, rfl⟩ := List.cons.inj (pack_inj (by rw [List.length_cons]; omega)
      (by rw [List.length_cons]; omega) h)
    exact ⟨rfl, (hflag hf).1⟩
  · have heq := pack_inj (by rw [List.length_cons]; omega)
      (by rw [List.length_cons, List.length_cons]; omega) h
    exact absurd (hflag (List.cons.inj heq).1).2 (by decide)
  · have heq := pack_inj (by rw [List.length_cons, List.length_cons]; omega)
      (by rw [List.length_cons]; omega) h
    exact absurd (hflag (List.cons.inj heq).1).2 (by decide)
  · obtain ⟨hf, heq⟩ := List.cons.inj (pack_inj (by rw [List.length_cons, List.length_cons]; omega)
      (by rw [List.length_cons, List.length_cons]; omega) h)
    exact ⟨(List.cons.inj heq).2, (hflag hf).1⟩

theorem length_pack_le (p : Path) : (pack p).length ≤ p.length := by
  fun_induction pack p with
  | case1 a b path ih =>
    rw [List.length_cons, List.length_cons, List.length_cons]
    omega
  | case2 => exact Nat.zero_le _

theorem length_hexPrefix_le (p : Path) (leaf : Bool) : (hexPrefix p leaf).length ≤ p.length + 2 := by
  rw [hexPrefix]
  split
  · exact (length_pack_le _).trans (Nat.le_succ _)
  · exact length_pack_le _

/-! ### Nodes -/

/-- The pairs below a path. -/
def under (path : Path) (J : Set Pair) : Set Pair :=
  {q | (path ++ q.1, q.2) ∈ J}

/-- A node in its parent: itself if it is short, its hash otherwise. -/
def reference (hash : Bytes → Bytes32) (node : List Item) : Item :=
  if (encode (.list node)).length < 32 then .list node
  else .bytes (wordBytes (hash (encode (.list node))))

/-- The value at the end of the path, if there is one. -/
structure IsTerminal (J : Set Pair) (value : Bytes) : Prop where
  of_mem (v : Bytes) (h : ([], v) ∈ J) : value = v
  of_not_mem (h : ∀ v, ([], v) ∉ J) : value = []

/-- The node of a set of pairs. -/
inductive Node (hash : Bytes → Bytes32) : Set Pair → List Item → Prop
  | leaf (path : Path) (value : Bytes) :
    Node hash {(path, value)} [.bytes (hexPrefix path true), .bytes value]
  | extension {J : Set Pair} {path : Path} {node : List Item} (hmany : J.Nontrivial)
    (hpath : path ≠ []) (hall : ∀ q ∈ J, path <+: q.1) (hmax : ∀ x, ∃ q ∈ J, ¬path ++ [x] <+: q.1)
    (h : Node hash (under path J) node) :
    Node hash J [.bytes (hexPrefix path false), reference hash node]
  | branch {J : Set Pair} {nodes : Nibble → List Item} {children : Nibble → Item} {value : Bytes}
    (hmany : J.Nontrivial) (hmax : ∀ x, ∃ q ∈ J, ¬[x] <+: q.1)
    (h : ∀ x, (under [x] J).Nonempty → Node hash (under [x] J) (nodes x))
    (hchild : ∀ x, (under [x] J).Nonempty → children x = reference hash (nodes x))
    (hnone : ∀ x, under [x] J = ∅ → children x = .bytes [])
    (hvalue : IsTerminal J value) :
    Node hash J (List.ofFn children ++ [.bytes value])

/-- The root of a set of pairs. -/
inductive Root (hash : Bytes → Bytes32) : Set Pair → Bytes32 → Prop
  | empty : Root hash ∅ (hash (encode (.bytes [])))
  | node {J : Set Pair} {node : List Item} (h : Node hash J node) :
    Root hash J (hash (encode (.list node)))

/-! ### Pairs below a path -/

theorem mem_under {path : Path} {q : Pair} : q ∈ under path J ↔ (path ++ q.1, q.2) ∈ J :=
  Iff.rfl

theorem under_under (path path' : Path) : under path' (under path J) = under (path ++ path') J := by
  ext q
  rw [mem_under, mem_under, mem_under, List.append_assoc]

/-- Pairs that all lie below a path are known from what is below it. -/
theorem eq_of_under_eq {path : Path} (hJ : ∀ q ∈ J, path <+: q.1) (hK : ∀ q ∈ K, path <+: q.1)
    (h : under path J = under path K) : J = K := by
  have hle : ∀ {J K : Set Pair}, (∀ q ∈ J, path <+: q.1) → under path J = under path K →
      ∀ q ∈ J, q ∈ K := by
    intro J K hJ h q hq
    obtain ⟨key, value⟩ := q
    obtain ⟨rest, rfl⟩ := hJ _ hq
    have hmem : (rest, value) ∈ under path J := hq
    rw [h] at hmem
    exact hmem
  exact Set.ext fun q ↦ ⟨hle hJ h q, hle hK h.symm q⟩

theorem Node.nonempty {node : List Item} (h : Node hash J node) : J.Nonempty := by
  cases h with
  | leaf path value => exact ⟨_, rfl⟩
  | extension hmany => exact hmany.nonempty
  | branch hmany => exact hmany.nonempty

/-! ### A set has one node -/

/-- Two longest common paths are the same. -/
theorem path_unique {p p' : Path} (hne : J.Nonempty) (hall : ∀ q ∈ J, p <+: q.1)
    (hmax : ∀ x, ∃ q ∈ J, ¬p ++ [x] <+: q.1) (hall' : ∀ q ∈ J, p' <+: q.1)
    (hmax' : ∀ x, ∃ q ∈ J, ¬p' ++ [x] <+: q.1) : p = p' := by
  have hle : ∀ {p p' : Path}, p <+: p' → (∀ q ∈ J, p' <+: q.1) →
      (∀ x, ∃ q ∈ J, ¬p ++ [x] <+: q.1) → p = p' := by
    rintro p p' ⟨rest, rfl⟩ hall' hmax
    cases rest with
    | nil => rw [List.append_nil]
    | cons x rest =>
      obtain ⟨q, hq, hnot⟩ := hmax x
      refine absurd (List.IsPrefix.trans ?_ (hall' q hq)) hnot
      exact ⟨rest, by rw [List.append_assoc]; rfl⟩
  obtain ⟨q, hq⟩ := hne
  rcases List.prefix_or_prefix_of_prefix (hall q hq) (hall' q hq) with h | h
  · exact hle h hall' hmax
  · exact (hle h hall hmax').symm

theorem IsTerminal.unique {v w : Bytes} (hv : IsTerminal J v) (hw : IsTerminal J w) : v = w := by
  by_cases h : ∃ u, ([], u) ∈ J
  · obtain ⟨u, hu⟩ := h
    rw [hv.of_mem u hu, hw.of_mem u hu]
  · rw [not_exists] at h
    rw [hv.of_not_mem h, hw.of_not_mem h]

/-- **A set has one node.** -/
theorem Node.unique {node node' : List Item} (h : Node hash J node) (h' : Node hash J node') :
    node = node' := by
  induction h generalizing node' with
  | leaf path value =>
    generalize hJ : ({(path, value)} : Set Pair) = J at h'
    cases h' with
    | leaf path' value' =>
      obtain ⟨rfl, rfl⟩ := Prod.mk.inj (Set.singleton_eq_singleton_iff.1 hJ)
      rfl
    | extension hmany => exact absurd (hJ ▸ hmany) Set.not_nontrivial_singleton
    | branch hmany => exact absurd (hJ ▸ hmany) Set.not_nontrivial_singleton
  | @extension J path node hmany hpath hall hmax h ih =>
    cases h' with
    | leaf => exact absurd hmany Set.not_nontrivial_singleton
    | @extension _ path' node' _ _ hall' hmax' h' =>
      obtain rfl := path_unique hmany.nonempty hall hmax hall' hmax'
      rw [ih h']
    | branch _ hmax' =>
      exact absurd (path_unique hmany.nonempty hall hmax (fun _ _ ↦ List.nil_prefix) hmax') hpath
  | @branch J nodes children value hmany hmax h hchild hnone hvalue ih =>
    cases h' with
    | leaf => exact absurd hmany Set.not_nontrivial_singleton
    | extension _ hpath hall' hmax' =>
      exact absurd (path_unique hmany.nonempty hall' hmax' (fun _ _ ↦ List.nil_prefix) hmax) hpath
    | branch _ _ h' hchild' hnone' hvalue' =>
      rw [hvalue.unique hvalue']
      congr 2
      funext x
      rcases Set.eq_empty_or_nonempty (under [x] J) with hempty | hne
      · rw [hnone x hempty, hnone' x hempty]
      · rw [hchild x hne, hchild' x hne, ih x hne (h' x hne)]

theorem Root.unique {r r' : Bytes32} (h : Root hash J r) (h' : Root hash J r') : r = r' := by
  cases h with
  | empty =>
    cases h' with
    | empty => rfl
    | node h' => exact absurd h'.nonempty Set.not_nonempty_empty
  | node h =>
    cases h' with
    | empty => exact absurd h.nonempty Set.not_nonempty_empty
    | node h' => rw [h.unique h']

/-! ### Sizes -/

/-- Pairs with short keys, and with values that are short but not empty. -/
structure Bounded (J : Set Pair) : Prop where
  path (q : Pair) (h : q ∈ J) : q.1.length ≤ 2 ^ 53
  value (q : Pair) (h : q ∈ J) : q.2.length ≤ 2 ^ 53
  ne_nil (q : Pair) (h : q ∈ J) : q.2 ≠ []

theorem Bounded.under (h : Bounded J) (path : Path) : Bounded (under path J) where
  path q hq := by
    have hle := h.path _ hq
    rw [List.length_append] at hle
    omega
  value q hq := h.value (path ++ q.1, q.2) hq
  ne_nil q hq := h.ne_nil (path ++ q.1, q.2) hq

theorem length_header_le (offset : ℕ) {n : ℕ} (hn : n < 2 ^ 64) : (header offset n).length ≤ 9 := by
  rw [header]
  split
  · exact (by decide : 1 ≤ 9)
  · exact Nat.succ_le_succ (length_minimal_le (k := 8) (hn.trans_eq (by decide)))

theorem length_encodeBytes_le {bs : Bytes} (h : bs.length < 2 ^ 64) :
    (encodeBytes bs).length ≤ bs.length + 9 := by
  rcases encodeBytes_cases bs with ⟨b, rfl, -, heq⟩ | heq
  · rw [heq]
    exact Nat.le_add_right _ _
  · have hle := length_header_le 0x80 h
    rw [heq, List.length_append]
    omega

theorem length_encodeAll_le_mul {items : List Item} {n : ℕ}
    (h : ∀ item ∈ items, (encode item).length ≤ n) :
    (encodeAll items).length ≤ items.length * n := by
  induction items with
  | nil => exact Nat.zero_le _
  | cons item items ih =>
    obtain ⟨hitem, hitems⟩ := List.forall_mem_cons.1 h
    have hrest := ih hitems
    rw [encodeAll, List.length_append, List.length_cons, Nat.succ_mul]
    omega

theorem length_reference_le (node : List Item) : (encode (reference hash node)).length ≤ 41 := by
  rw [reference]
  split
  case isTrue h => omega
  case isFalse =>
    have hshort : (wordBytes (hash (encode (.list node)))).length < 2 ^ 64 := by
      rw [length_wordBytes]
      decide
    have hle := length_encodeBytes_le hshort
    rwa [length_wordBytes] at hle

theorem length_bytes_le {bs : Bytes} (h : bs.length ≤ 2 ^ 53 + 2) :
    (encode (.bytes bs)).length ≤ 2 ^ 53 + 41 := by
  rw [encode]
  exact (length_encodeBytes_le (by omega)).trans (by omega)

/-- The items of a node are short. -/
theorem Node.length_item_le {node : List Item} (h : Node hash J node) (hJ : Bounded J) :
    ∀ item ∈ node, (encode item).length ≤ 2 ^ 53 + 41 := by
  have hstarts : ∀ {path : Path} (leaf : Bool), path.length ≤ 2 ^ 53 →
      (hexPrefix path leaf).length ≤ 2 ^ 53 + 2 := fun leaf h ↦
    (length_hexPrefix_le _ leaf).trans (Nat.add_le_add_right h 2)
  have href : ∀ node : List Item, (encode (reference hash node)).length ≤ 2 ^ 53 + 41 := fun node ↦
    (length_reference_le node).trans (by omega)
  cases h with
  | leaf path value =>
    rw [List.forall_mem_cons, List.forall_mem_singleton]
    exact ⟨length_bytes_le (hstarts true (hJ.path _ rfl)),
      length_bytes_le ((hJ.value _ rfl).trans (Nat.le_add_right _ _))⟩
  | extension hmany hpath hall =>
    obtain ⟨q, hq⟩ := hmany.nonempty
    rw [List.forall_mem_cons, List.forall_mem_singleton]
    exact ⟨length_bytes_le (hstarts false ((hall q hq).length_le.trans (hJ.path q hq))), href _⟩
  | branch hmany hmax h hchild hnone hvalue =>
    rw [List.forall_mem_append, List.forall_mem_singleton]
    constructor
    · intro item hitem
      obtain ⟨x, rfl⟩ := List.mem_ofFn.1 hitem
      rcases Set.eq_empty_or_nonempty (Patricia.under [x] J) with hempty | hne
      · rw [hnone x hempty]
        exact length_bytes_le (Nat.zero_le _)
      · rw [hchild x hne]
        exact href _
    · refine length_bytes_le ?_
      by_cases hterm : ∃ v, ([], v) ∈ J
      · obtain ⟨v, hv⟩ := hterm
        rw [hvalue.of_mem v hv]
        exact (hJ.value _ hv).trans (Nat.le_add_right _ _)
      · rw [hvalue.of_not_mem (not_exists.1 hterm)]
        exact Nat.zero_le _

theorem Node.length_le {node : List Item} (h : Node hash J node) : node.length ≤ 17 := by
  cases h with
  | leaf => exact (by decide : 2 ≤ 17)
  | extension => exact (by decide : 2 ≤ 17)
  | branch =>
    rw [List.length_append, List.length_ofFn]
    exact le_rfl

theorem Node.fits {node : List Item} (h : Node hash J node) (hJ : Bounded J) :
    (encode (.list node)).length < 2 ^ 64 := by
  have hall := length_encodeAll_le_mul (h.length_item_le hJ)
  have hle : (encodeAll node).length ≤ 17 * (2 ^ 53 + 41) :=
    hall.trans (Nat.mul_le_mul_right _ h.length_le)
  have hheader := length_header_le 0xc0 (hle.trans_lt (by decide))
  rw [encode, List.length_append]
  omega

/-! ### A root belongs to one set -/

/-- What is hashed for the nodes of a set. -/
def encodings (hash : Bytes → Bytes32) (J : Set Pair) : Set Bytes :=
  {bs | ∃ path node, Node hash (under path J) node ∧ bs = encode (.list node)}

theorem encodings_under (path : Path) : encodings hash (under path J) ⊆ encodings hash J := by
  rintro bs ⟨path', node, h, rfl⟩
  rw [under_under] at h
  exact ⟨path ++ path', node, h, rfl⟩

theorem mem_encodings {node : List Item} {path : Path} (h : Node hash (under path J) node) :
    encode (.list node) ∈ encodings hash J :=
  ⟨path, node, h, rfl⟩

theorem reference_inj {n n' : List Item} (hn : (encode (.list n)).length < 2 ^ 64)
    (hn' : (encode (.list n')).length < 2 ^ 64) {S : Set Bytes} (hfree : CollisionFree hash S)
    (hmem : encode (.list n) ∈ S) (hmem' : encode (.list n') ∈ S)
    (h : reference hash n = reference hash n') : n = n' := by
  rw [reference, reference] at h
  split at h <;> split at h
  · exact Item.list.inj h
  · cases h
  · cases h
  · have hword := wordBytes_injective (Item.bytes.inj h)
    exact Item.list.inj (encode_inj hn hn' (hfree.eq hmem hmem' hword))

/-- A reference is no empty string. -/
theorem reference_ne_empty (node : List Item) : reference hash node ≠ .bytes [] := by
  rw [reference]
  split
  · exact nofun
  · intro h
    have hlength := congrArg List.length (Item.bytes.inj h)
    rw [length_wordBytes] at hlength
    cases hlength

/-- The same value ends the path in two sets, if any does. -/
theorem IsTerminal.mem_iff {v w : Bytes} (hJ : IsTerminal J v) (hK : IsTerminal K v)
    (hval : ∀ q ∈ J, q.2 ≠ []) (hmem : ([], w) ∈ J) : ([], w) ∈ K := by
  by_cases hK' : ∃ u, ([], u) ∈ K
  · obtain ⟨u, hu⟩ := hK'
    have hvw := hJ.of_mem w hmem
    have hvu := hK.of_mem u hu
    rwa [← hvw, hvu]
  · have hv := hK.of_not_mem (not_exists.1 hK')
    exact absurd ((hJ.of_mem w hmem).symm.trans hv) (hval _ hmem)

/-- Sets that agree at the end of the path and below every nibble are the same. -/
theorem eq_of_children (hnil : ∀ w, ([], w) ∈ J ↔ ([], w) ∈ K)
    (hcons : ∀ x, under [x] J = under [x] K) : J = K := by
  ext ⟨path, value⟩
  cases path with
  | nil => exact hnil value
  | cons x path =>
    have hx : ((path, value) : Pair) ∈ under [x] J ↔ (path, value) ∈ under [x] K := by rw [hcons x]
    exact hx

/-- **Without collisions a node belongs to one set.** -/
theorem Node.injective {node node' : List Item} (h : Node hash J node) (h' : Node hash K node')
    (hnode : node = node') (hJ : Bounded J) (hK : Bounded K) {S : Set Bytes}
    (hfree : CollisionFree hash S) (hSJ : encodings hash J ⊆ S) (hSK : encodings hash K ⊆ S) :
    J = K := by
  have hlength : ∀ {children : Nibble → Item} {value : Bytes} {a b : Item},
      [a, b] ≠ List.ofFn children ++ [.bytes value] := by
    intro children value a b h
    have hlength := congrArg List.length h
    rw [List.length_append, List.length_ofFn] at hlength
    cases hlength
  induction h generalizing K node' with
  | leaf path value =>
    cases h' with
    | leaf path' value' =>
      obtain ⟨hpath, hrest⟩ := List.cons.inj hnode
      obtain ⟨rfl, -⟩ := hexPrefix_inj (Item.bytes.inj hpath)
      rw [Item.bytes.inj (List.cons.inj hrest).1]
    | extension =>
      have hflag := (hexPrefix_inj (Item.bytes.inj (List.cons.inj hnode).1)).2
      cases hflag
    | branch => exact absurd hnode hlength
  | @extension J path node hmany hpath hall hmax h ih =>
    cases h' with
    | leaf =>
      have hflag := (hexPrefix_inj (Item.bytes.inj (List.cons.inj hnode).1)).2
      cases hflag
    | @extension _ path' node' hmany' hpath' hall' hmax' h' =>
      obtain ⟨hp, hrest⟩ := List.cons.inj hnode
      obtain ⟨rfl, -⟩ := hexPrefix_inj (Item.bytes.inj hp)
      have href := (List.cons.inj hrest).1
      have hbelow := reference_inj (h.fits (hJ.under path)) (h'.fits (hK.under path)) hfree
        (hSJ (mem_encodings h)) (hSK (mem_encodings h')) href
      exact eq_of_under_eq hall hall' (ih h' hbelow (hJ.under path) (hK.under path)
        ((encodings_under path).trans hSJ) ((encodings_under path).trans hSK))
    | branch => exact absurd hnode hlength
  | @branch J nodes children value hmany hmax h hchild hnone hvalue ih =>
    cases h' with
    | leaf => exact absurd hnode.symm hlength
    | extension => exact absurd hnode.symm hlength
    | @branch _ nodes' children' value' _ _ h' hchild' hnone' hvalue' =>
      obtain ⟨hofFn, hlast⟩ := List.append_inj' hnode rfl
      obtain rfl := List.ofFn_injective hofFn
      obtain rfl := Item.bytes.inj (List.cons.inj hlast).1
      refine eq_of_children (fun w ↦ ⟨fun hw ↦ hvalue.mem_iff hvalue' hJ.ne_nil hw,
        fun hw ↦ hvalue'.mem_iff hvalue hK.ne_nil hw⟩) fun x ↦ ?_
      rcases Set.eq_empty_or_nonempty (under [x] J) with hempty | hne <;>
        rcases Set.eq_empty_or_nonempty (under [x] K) with hempty' | hne'
      · rw [hempty, hempty']
      · exact absurd ((hchild' x hne').symm.trans (hnone x hempty)) (reference_ne_empty _)
      · exact absurd ((hchild x hne).symm.trans (hnone' x hempty')) (reference_ne_empty _)
      · have href := (hchild x hne).symm.trans (hchild' x hne')
        have hbelow := reference_inj ((h x hne).fits (hJ.under [x]))
          ((h' x hne').fits (hK.under [x])) hfree (hSJ (mem_encodings (h x hne)))
          (hSK (mem_encodings (h' x hne'))) href
        exact ih x hne (h' x hne') hbelow (hJ.under [x]) (hK.under [x])
          ((encodings_under [x]).trans hSJ) ((encodings_under [x]).trans hSK)

/-- **Without collisions a root belongs to one set.** -/
theorem Root.injective {r : Bytes32} (h : Root hash J r) (h' : Root hash K r) (hJ : Bounded J)
    (hK : Bounded K) {S : Set Bytes} (hfree : CollisionFree hash S)
    (hempty : encode (.bytes []) ∈ S) (hSJ : encodings hash J ⊆ S) (hSK : encodings hash K ⊆ S) :
    J = K := by
  have hself : ∀ {J : Set Pair} {node : List Item}, Node hash J node →
      encode (.list node) ∈ encodings hash J := fun h ↦ ⟨[], _, h, rfl⟩
  have hne : ∀ {J : Set Pair} {node : List Item}, Node hash J node → Bounded J →
      encode (.bytes []) ≠ encode (.list node) := fun h hJ heq ↦ by
    cases encode_inj (by decide) (h.fits hJ) heq
  generalize hr : r = r' at h'
  cases h with
  | empty =>
    cases h' with
    | empty => rfl
    | node h' => exact absurd (hfree.eq hempty (hSK (hself h')) hr) (hne h' hK)
  | node h =>
    cases h' with
    | empty => exact absurd (hfree.eq (hSJ (hself h)) hempty hr).symm (hne h hJ)
    | node h' =>
      have heq := encode_inj (h.fits hJ) (h'.fits hK)
        (hfree.eq (hSJ (hself h)) (hSK (hself h')) hr)
      exact h.injective h' (Item.list.inj heq) hJ hK hfree hSJ hSK

end Patricia
