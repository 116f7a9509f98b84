import Mathlib.Data.List.Chain
import Proofmark.Pipeline.Inclusion
import Proofmark.Pipeline.RosterBundle

/-!
# Absence from a roster

The keys of a built roster are strictly sorted between the two sentinels, so a key is missing exactly
when it lies in a gap. The two provers of `pipeline` look for the gap in two ways, by the first
greater key and by bisection, and find the same; the two verifiers accept what they find. Under
collision freedom of the hash on the preimages of the tree and of the proof, an accepted proof shows a
gap.
-/

open Evm

namespace Proofmark

namespace Pipeline

variable {es : List RosterEntry} {ns : String} {tree : RosterTree}

/-! ### The keys are sorted -/

/-- What is sorted and has no two equal neighbours is strictly sorted. -/
theorem checkDuplicates_eq_ok {l : List (RosterEntry × Bytes32)}
    (hl : l.Pairwise fun a b ↦ a.2 ≤ b.2) (h : checkDuplicates l = .ok ()) :
    l.IsChain fun a b ↦ a.2 < b.2 := by
  fun_induction checkDuplicates l with
  | case1 a b l ih =>
    obtain ⟨hne, hrest⟩ := revertIf_bind_eq_ok.1 h
    obtain ⟨hhead, htail⟩ := List.pairwise_cons.1 hl
    have hneq : a.2 ≠ b.2 := fun heq ↦ by simp [heq] at hne
    exact (ih htail hrest).cons_cons (lt_of_le_of_ne (hhead b List.mem_cons_self) hneq)
  | case2 l hshort =>
    match l with
    | [] => exact .nil
    | [a] => exact .singleton a
    | a :: b :: l => exact (hshort a b l rfl).elim

theorem checkSentinels_eq_ok {l : List (RosterEntry × Bytes32)} (h : checkSentinels l = .ok ()) :
    ∀ a ∈ l, a.2 ≠ MIN_KEY ∧ a.2 ≠ MAX_KEY := by
  induction l with
  | nil => simp
  | cons a l ih =>
    obtain ⟨hne, hrest⟩ := revertIf_bind_eq_ok.1 h
    exact List.forall_mem_cons.2 ⟨by simpa using hne, ih hrest⟩

theorem mem_map_snd_sortedByKey {k : Bytes32} :
    k ∈ (sortedByKey es ns).map Prod.snd ↔ ∃ e ∈ es, subjectKey e.subject ns = k := by
  simp [sortedByKey, List.mem_insertionSort]

theorem Built.pairwise_sorted (hb : Built es ns tree) :
    ((sortedByKey es ns).map Prod.snd).Pairwise (· < ·) := by
  have hle : (sortedByKey es ns).Pairwise fun a b ↦ a.2 ≤ b.2 :=
    List.pairwise_insertionSort _ _
  exact List.isChain_iff_pairwise.1
    ((List.isChain_map _).2 (checkDuplicates_eq_ok hle hb.duplicates))

theorem minKey_lt {k : Bytes32} (h : k ≠ MIN_KEY) : MIN_KEY < k := by
  rw [← not_le]
  exact fun hle ↦ h (BitVec.le_zero_iff.1 hle)

theorem lt_maxKey {k : Bytes32} (h : k ≠ MAX_KEY) : k < MAX_KEY :=
  lt_of_le_of_ne (Nat.le_sub_one_of_lt k.isLt) h

/-- **The keys of a built roster are strictly sorted.** -/
theorem Built.pairwise_keys (hb : Built es ns tree) : tree.keys.Pairwise (· < ·) := by
  have hinner : ∀ k ∈ (sortedByKey es ns).map Prod.snd, MIN_KEY < k ∧ k < MAX_KEY := by
    intro k hk
    obtain ⟨a, ha, rfl⟩ := List.mem_map.1 hk
    obtain ⟨hmin, hmax⟩ := checkSentinels_eq_ok hb.sentinels a ha
    exact ⟨minKey_lt hmin, lt_maxKey hmax⟩
  have hends : MIN_KEY < MAX_KEY := by decide
  rw [hb.keys, List.pairwise_cons, List.pairwise_append]
  refine ⟨fun k hk ↦ ?_, hb.pairwise_sorted, List.pairwise_singleton _ _, fun k hk m hm ↦ ?_⟩
  · rcases List.mem_append.1 hk with hk | hk
    · exact (hinner k hk).1
    · rwa [List.mem_singleton.1 hk]
  · rw [List.mem_singleton.1 hm]
    exact (hinner k hk).2

/-- The keys are the sentinels and those of the entries. -/
theorem Built.mem_keys (hb : Built es ns tree) {k : Bytes32} :
    k ∈ tree.keys ↔ k = MIN_KEY ∨ k = MAX_KEY ∨ ∃ e ∈ es, subjectKey e.subject ns = k := by
  rw [hb.keys, List.mem_cons, List.mem_append, mem_map_snd_sortedByKey, List.mem_singleton,
    or_comm (a := ∃ e ∈ es, subjectKey e.subject ns = k)]

theorem Built.length_keys (hb : Built es ns tree) : tree.keys.length = tree.leaves.length := by
  rw [hb.leaves, List.length_zipWith, hb.keys, hb.marks, hb.entries]
  simp

/-! ### The two verifiers -/

theorem encode_eq_some {n : JsNumber} {v : Uint 256} :
    n.encode = some v ↔ ∃ m : ℕ, n = .integer m ∧ m ≤ 2 ^ 53 - 1 ∧ v.toNat = m := by
  cases n with
  | other => simp [JsNumber.encode]
  | integer z =>
    rw [JsNumber.encode]
    constructor
    · intro h
      split at h
      case isFalse => simp at h
      case isTrue hbounds =>
        rw [Bool.and_eq_true, JsNumber.isSafeInteger_integer, decide_eq_true_eq] at hbounds
        obtain ⟨m, rfl⟩ := Int.eq_ofNat_of_zero_le hbounds.2
        obtain rfl := Option.some.inj h
        refine ⟨m, rfl, by omega, ?_⟩
        rw [BitVec.ofInt_natCast, BitVec.toNat_ofNat, Nat.mod_eq_of_lt (by omega)]
    · rintro ⟨m, hm, hle, hv⟩
      obtain rfl := JsNumber.integer.inj hm
      rw [if_pos, BitVec.ofInt_natCast, ← hv, BitVec.ofNat_toNat, BitVec.setWidth_eq]
      rw [Bool.and_eq_true, JsNumber.isSafeInteger_integer, decide_eq_true_eq]
      omega

theorem inclusion_encode_eq_some {p : InclusionProof} {q : RosterProof.Inclusion} :
    p.encode = some q ↔ p.index.encode = some q.index ∧ p.leafCount.encode = some q.leafCount ∧
      p.siblings = q.siblings := by
  obtain ⟨index, leafCount, siblings⟩ := q
  simp only [InclusionProof.encode, Option.bind_eq_bind, Option.bind_eq_some_iff, Option.pure_def,
    Option.some.injEq, RosterProof.Inclusion.mk.injEq]
  constructor
  · rintro ⟨i, hi, n, hn, rfl, rfl, hs⟩
    exact ⟨hi, hn, hs⟩
  · rintro ⟨hi, hn, hs⟩
    exact ⟨_, hi, _, hn, rfl, rfl, hs⟩

/-- **A proof is accepted off chain exactly when it is accepted on chain, once encoded.** -/
theorem verifyInclusion_iff_encode {root leaf : Bytes32} {p : InclusionProof} :
    verifyInclusion root leaf p = true ↔
      ∃ q, p.encode = some q ∧ RosterProof.verifyInclusion root leaf q = true := by
  rw [verifyInclusion_iff_accepts]
  constructor
  · rintro ⟨i, n, hi, hn, hle, haccepts⟩
    have hlt := haccepts.index_lt
    refine ⟨⟨BitVec.ofNat 256 i, BitVec.ofNat 256 n, p.siblings⟩, inclusion_encode_eq_some.2
      ⟨encode_eq_some.2 ⟨i, hi, by omega, ?_⟩, encode_eq_some.2 ⟨n, hn, hle, ?_⟩, rfl⟩,
      rosterProof_verifyInclusion_iff.2 ?_⟩
    · exact BitVec.toNat_ofNat .. |>.trans (Nat.mod_eq_of_lt (by omega))
    · exact BitVec.toNat_ofNat .. |>.trans (Nat.mod_eq_of_lt (by omega))
    · rwa [BitVec.toNat_ofNat, BitVec.toNat_ofNat, Nat.mod_eq_of_lt (by omega),
        Nat.mod_eq_of_lt (by omega)]
  · rintro ⟨q, hq, haccepts⟩
    obtain ⟨hi, hn, hs⟩ := inclusion_encode_eq_some.1 hq
    obtain ⟨i, hi, -, hiv⟩ := encode_eq_some.1 hi
    obtain ⟨n, hn, hle, hnv⟩ := encode_eq_some.1 hn
    have haccepts := rosterProof_verifyInclusion_iff.1 haccepts
    rw [hiv, hnv, ← hs] at haccepts
    exact ⟨i, n, hi, hn, hle, haccepts⟩

theorem nonInclusion_encode_eq_some {p : NonInclusionProof} {q : RosterProof.NonInclusion} :
    p.encode = some q ↔ p.left.encode = some q.left ∧ p.right.encode = some q.right ∧
      p.leftKey = q.leftKey ∧ p.leftMark = q.leftMark ∧ p.rightKey = q.rightKey ∧
      p.rightMark = q.rightMark := by
  obtain ⟨left, leftKey, leftMark, right, rightKey, rightMark⟩ := q
  simp only [NonInclusionProof.encode, Option.bind_eq_bind, Option.bind_eq_some_iff,
    Option.pure_def, Option.some.injEq, RosterProof.NonInclusion.mk.injEq]
  constructor
  · rintro ⟨l, hl, r, hr, rfl, hlk, hlm, rfl, hrk, hrm⟩
    exact ⟨hl, hr, hlk, hlm, hrk, hrm⟩
  · rintro ⟨hl, hr, hlk, hlm, hrk, hrm⟩
    exact ⟨_, hl, _, hr, rfl, hlk, hlm, rfl, hrk, hrm⟩

/-- The index after another, without overflow. -/
theorem next_index_iff {v w : Uint 256} :
    ¬(v = BitVec.allOnes 256 ∨ w ≠ v + 1) ↔ w.toNat = v.toNat + 1 := by
  rw [not_or, not_not]
  constructor
  · rintro ⟨hmax, rfl⟩
    have hv := v.isLt
    have hne : v.toNat ≠ 2 ^ 256 - 1 := fun h ↦
      hmax (BitVec.eq_of_toNat_eq (by rw [h, BitVec.toNat_allOnes]))
    rw [BitVec.toNat_add, show (1 : Uint 256).toNat = 1 from rfl, Nat.mod_eq_of_lt (by omega)]
  · intro hnext
    have hw := w.isLt
    have hmax : v ≠ BitVec.allOnes 256 := by
      rintro rfl
      rw [BitVec.toNat_allOnes] at hnext
      omega
    refine ⟨hmax, BitVec.eq_of_toNat_eq ?_⟩
    rw [BitVec.toNat_add, hnext, show (1 : Uint 256).toNat = 1 from rfl,
      Nat.mod_eq_of_lt (by omega)]

/-- What the verifier on chain checks of a gap. -/
theorem rosterProof_verifyNonInclusion_iff {root k : Bytes32} {q : RosterProof.NonInclusion} :
    RosterProof.verifyNonInclusion root k q = true ↔ (q.leftKey < k ∧ k < q.rightKey) ∧
      q.right.index.toNat = q.left.index.toNat + 1 ∧ q.left.leafCount = q.right.leafCount ∧
      q.left.siblings.length = q.right.siblings.length ∧
      RosterProof.verifyInclusion root (leafOf q.leftKey q.leftMark) q.left = true ∧
      RosterProof.verifyInclusion root (leafOf q.rightKey q.rightMark) q.right = true := by
  rw [RosterProof.verifyNonInclusion, ← next_index_iff]
  constructor
  · intro h
    split at h
    · simp at h
    case isFalse hkeys =>
      split at h
      · simp at h
      case isFalse hindex =>
        split at h
        · simp at h
        case isFalse hshape =>
          rw [not_or, not_not, not_not] at hshape
          rw [Bool.and_eq_true] at h
          exact ⟨not_not.1 hkeys, hindex, hshape.1, hshape.2, h.1, h.2⟩
  · rintro ⟨hkeys, hindex, hcount, hlength, hleft, hright⟩
    rw [if_neg (not_not.2 hkeys), if_neg hindex, if_neg (by simp [hcount, hlength]),
      Bool.and_eq_true]
    exact ⟨hleft, hright⟩

/-- What the verifier off chain checks of a gap. -/
theorem verifyNonInclusion_iff {root : Bytes32} {subject : Address} {p : NonInclusionProof} :
    verifyNonInclusion root subject p ns = true ↔
      (p.leftKey < subjectKey subject ns ∧ subjectKey subject ns < p.rightKey) ∧
      p.right.index.isSuccessor p.left.index = true ∧ p.left.leafCount = p.right.leafCount ∧
      p.left.siblings.length = p.right.siblings.length ∧
      verifyInclusion root (leafOf p.leftKey p.leftMark) p.left = true ∧
      verifyInclusion root (leafOf p.rightKey p.rightMark) p.right = true := by
  simp only [verifyNonInclusion]
  constructor
  · intro h
    split at h
    · simp at h
    case isFalse hkeys =>
      split at h
      · simp at h
      case isFalse hindex =>
        split at h
        · simp at h
        case isFalse hshape =>
          simp only [Bool.or_eq_true, bne_iff_ne, ne_eq, not_or, not_not] at hshape
          rw [Bool.and_eq_true] at h
          refine ⟨by simpa using hkeys, by simpa using hindex, hshape.1, hshape.2, h.1, h.2⟩
  · rintro ⟨hkeys, hindex, hcount, hlength, hleft, hright⟩
    rw [if_neg (by simpa using hkeys), if_neg (by simpa using hindex),
      if_neg (by simp [hcount, hlength]), Bool.and_eq_true]
    exact ⟨hleft, hright⟩

/-- **A gap is accepted off chain exactly when it is accepted on chain, once encoded.** -/
theorem verifyNonInclusion_iff_encode {root : Bytes32} {subject : Address} {p : NonInclusionProof} :
    verifyNonInclusion root subject p ns = true ↔ ∃ q, p.encode = some q ∧
      RosterProof.verifyNonInclusion root (subjectKey subject ns) q = true := by
  rw [verifyNonInclusion_iff]
  constructor
  · rintro ⟨hkeys, hindex, hcount, hlength, hleft, hright⟩
    obtain ⟨l, hl, hleft⟩ := verifyInclusion_iff_encode.1 hleft
    obtain ⟨r, hr, hright⟩ := verifyInclusion_iff_encode.1 hright
    refine ⟨⟨l, p.leftKey, p.leftMark, r, p.rightKey, p.rightMark⟩,
      nonInclusion_encode_eq_some.2 ⟨hl, hr, rfl, rfl, rfl, rfl⟩,
      rosterProof_verifyNonInclusion_iff.2 ⟨hkeys, ?_, ?_, ?_, hleft, hright⟩⟩
    · obtain ⟨i, hi, -, hiv⟩ := encode_eq_some.1 (inclusion_encode_eq_some.1 hl).1
      obtain ⟨j, hj, -, hjv⟩ := encode_eq_some.1 (inclusion_encode_eq_some.1 hr).1
      rw [hi, hj, JsNumber.isSuccessor, beq_iff_eq] at hindex
      show r.index.toNat = l.index.toNat + 1
      omega
    · have hln := (inclusion_encode_eq_some.1 hl).2.1
      rw [hcount, (inclusion_encode_eq_some.1 hr).2.1] at hln
      exact (Option.some.inj hln).symm
    · show l.siblings.length = r.siblings.length
      rwa [← (inclusion_encode_eq_some.1 hl).2.2, ← (inclusion_encode_eq_some.1 hr).2.2]
  · rintro ⟨q, hq, haccepted⟩
    obtain ⟨hl, hr, hlk, hlm, hrk, hrm⟩ := nonInclusion_encode_eq_some.1 hq
    obtain ⟨hkeys, hindex, hcount, hlength, hleft, hright⟩ :=
      rosterProof_verifyNonInclusion_iff.1 haccepted
    obtain ⟨hli, hln, hls⟩ := inclusion_encode_eq_some.1 hl
    obtain ⟨hri, hrn, hrs⟩ := inclusion_encode_eq_some.1 hr
    rw [hlk, hlm, hrk, hrm]
    refine ⟨hkeys, ?_, ?_, ?_, verifyInclusion_iff_encode.2 ⟨_, hl, hleft⟩,
      verifyInclusion_iff_encode.2 ⟨_, hr, hright⟩⟩
    · obtain ⟨i, hi, -, hiv⟩ := encode_eq_some.1 hli
      obtain ⟨j, hj, -, hjv⟩ := encode_eq_some.1 hri
      rw [hi, hj, JsNumber.isSuccessor, beq_iff_eq]
      omega
    · obtain ⟨m, hm, -, hmv⟩ := encode_eq_some.1 hln
      obtain ⟨n, hn, -, hnv⟩ := encode_eq_some.1 hrn
      rw [hm, hn, ← hmv, ← hnv, hcount]
    · rwa [hls, hrs]

/-! ### What is hashed -/

/-- What is hashed for a tree: the leaves and what is above. -/
def RosterTree.allPreimages (tree : RosterTree) : Set Bytes :=
  {b | ∃ i < tree.keys.length, b = RosterProof.leafBytes (tree.keys.getD i 0)
    (tree.marks.getD i 0)} ∪ tree.preimages

/-- What is hashed to verify a key with its mark. -/
def memberPreimages (key mark : Bytes32) (p : RosterProof.Inclusion) : Set Bytes :=
  {RosterProof.leafBytes key mark} ∪
    climbPreimages (leafOf key mark) p.index.toNat p.leafCount.toNat p.siblings

/-- What is hashed to verify a gap. -/
def gapPreimages (q : RosterProof.NonInclusion) : Set Bytes :=
  memberPreimages q.leftKey q.leftMark q.left ∪ memberPreimages q.rightKey q.rightMark q.right

theorem leafBytes_inj {a b c d : Bytes32}
    (h : RosterProof.leafBytes a b = RosterProof.leafBytes c d) : a = c ∧ b = d := by
  obtain ⟨hkey, hmark⟩ := wordBytes_append_inj (List.cons.inj h).2
  exact ⟨hkey, wordBytes_injective hmark⟩

/-- A leaf hashes its key and its mark. -/
theorem Built.getElem?_leaves (hb : Built es ns tree) {i : ℕ} (hi : i < tree.keys.length) :
    tree.leaves[i]? = some (leafOf (tree.keys.getD i 0) (tree.marks.getD i 0)) := by
  have hmarks : tree.marks.length = tree.keys.length := by
    rw [hb.marks, hb.keys, hb.entries]
    simp
  rw [hb.leaves, List.getElem?_zipWith, List.getElem?_eq_getElem hi,
    List.getElem?_eq_getElem (hmarks ▸ hi), List.getD_eq_getElem _ _ hi,
    List.getD_eq_getElem _ _ (hmarks ▸ hi)]

/-! ### Soundness -/

/-- An accepted proof of a key with some mark is at the index of the key. -/
theorem Built.key_of_verifyInclusion (hb : Built es ns tree) {key mark : Bytes32}
    {p : RosterProof.Inclusion}
    (hfree : CollisionFree keccak256 (tree.allPreimages ∪ memberPreimages key mark p))
    (h : RosterProof.verifyInclusion tree.root (leafOf key mark) p = true) :
    tree.keys[p.index.toNat]? = some key := by
  have hclimb : CollisionFree keccak256 (tree.preimages ∪
      climbPreimages (leafOf key mark) p.index.toNat p.leafCount.toNat p.siblings) :=
    hfree.mono (Set.union_subset_union Set.subset_union_right Set.subset_union_right)
  obtain ⟨-, hleaf, -⟩ :=
    (rosterProof_verifyInclusion_iff.1 h).eq_path hb p.leafCount.isLt hclimb
  have hi : p.index.toNat < tree.keys.length :=
    hb.length_keys ▸ (List.getElem?_eq_some_iff.1 hleaf).1
  rw [hb.getElem?_leaves hi] at hleaf
  obtain ⟨hkey, -⟩ := leafBytes_inj (hfree.eq (.inl (.inl ⟨_, hi, rfl⟩)) (.inr (.inl rfl))
    (Option.some.inj hleaf))
  rw [← hkey, List.getD_eq_getElem _ _ hi, List.getElem?_eq_getElem hi]

/-- **An accepted proof of absence shows a gap.** -/
theorem Built.gap_of_verifyNonInclusion (hb : Built es ns tree) {k : Bytes32}
    {q : RosterProof.NonInclusion}
    (hfree : CollisionFree keccak256 (tree.allPreimages ∪ gapPreimages q))
    (h : RosterProof.verifyNonInclusion tree.root k q = true) :
    SortedGap.Gap tree.keys k q.left.index.toNat := by
  obtain ⟨⟨hlt, hgt⟩, hindex, -, -, hleft, hright⟩ := rosterProof_verifyNonInclusion_iff.1 h
  refine ⟨q.leftKey, q.rightKey, hb.key_of_verifyInclusion (hfree.mono ?_) hleft, ?_, hlt, hgt⟩
  · exact Set.union_subset_union_right _ Set.subset_union_left
  · rw [← hindex]
    exact hb.key_of_verifyInclusion
      (hfree.mono (Set.union_subset_union_right _ Set.subset_union_right)) hright

/-! ### Completeness -/

/-- The path of a leaf hashes what the tree hashes. -/
theorem Built.memberPreimages_subset (hb : Built es ns tree) {i : ℕ} (hi : i < tree.keys.length)
    {p : RosterProof.Inclusion} (hindex : p.index.toNat = i)
    (hcount : p.leafCount.toNat = tree.leaves.length)
    (hsiblings : p.siblings = Positional.path tree.layers i) :
    memberPreimages (tree.keys.getD i 0) (tree.marks.getD i 0) p ⊆ tree.allPreimages := by
  have hleaf := hb.getElem?_leaves hi
  rw [memberPreimages, hindex, hcount, hsiblings]
  rintro b (rfl | ⟨pair, hpair, rfl⟩ | rfl)
  · exact .inl ⟨i, hi, rfl⟩
  · rw [hb.layers] at hpair
    exact .inr (.inl ⟨pair, Positional.climbPairs_path_subset hleaf hpair, rfl⟩)
  · obtain ⟨top, htop, hclimb⟩ : ∃ r, Positional.top (Positional.layers hashNode _ _) = some r ∧
        Positional.climb hashNode _ _ _ _ = some (r, 0, 1) :=
      Positional.climb_path (Nat.le_succ _) hleaf
    rw [← hb.layers] at htop hclimb
    exact .inr (.inr ⟨top, htop, by rw [Positional.climbEnd_of_climb hclimb]⟩)

/-- An index in range is proved, encoded and accepted. -/
theorem Built.inclusionProof_accepted (hb : Built es ns tree) {i : ℕ} (hi : i < tree.keys.length) :
    ∃ p q, inclusionProof tree (.integer i) = .ok p ∧ p.encode = some q ∧ q.index.toNat = i ∧
      q.leafCount.toNat = tree.leaves.length ∧ q.siblings = Positional.path tree.layers i ∧
      RosterProof.verifyInclusion tree.root
        (leafOf (tree.keys.getD i 0) (tree.marks.getD i 0)) q = true := by
  have haccepts := accepts_path hb (hb.getElem?_leaves hi)
  have hproof := (inclusionProof_eq_ok hb.count_le).2 ⟨i, rfl, haccepts.index_lt, rfl⟩
  obtain ⟨q, hq, haccepted⟩ := verifyInclusion_iff_encode.1
    ((verifyInclusion_iff_accepts (p := ⟨.integer i, .integer tree.leaves.length, _⟩)).2
      ⟨i, tree.leaves.length, rfl, rfl, hb.count_le, haccepts⟩)
  obtain ⟨hindex, hcount, hsiblings⟩ := inclusion_encode_eq_some.1 hq
  obtain ⟨j, hj, -, hjv⟩ := encode_eq_some.1 hindex
  obtain ⟨n, hn, -, hnv⟩ := encode_eq_some.1 hcount
  have hji : (i : ℤ) = j := JsNumber.integer.inj hj
  have hnn : (tree.leaves.length : ℤ) = n := JsNumber.integer.inj hn
  exact ⟨_, q, hproof, hq, by omega, by omega, hsiblings.symm, haccepted⟩

/-- **The proof built from a gap is accepted.** -/
theorem Built.gapProof_accepted (hb : Built es ns tree) {k : Bytes32} {i : ℕ}
    (hgap : SortedGap.Gap tree.keys k i) : ∃ p q, gapProof tree (i + 1) = .ok p ∧
      p.encode = some q ∧ gapPreimages q ⊆ tree.allPreimages ∧
      RosterProof.verifyNonInclusion tree.root k q = true := by
  obtain ⟨a, b, ha, hb', hak, hkb⟩ := hgap
  obtain ⟨hi, rfl⟩ := List.getElem?_eq_some_iff.1 ha
  obtain ⟨hi', rfl⟩ := List.getElem?_eq_some_iff.1 hb'
  obtain ⟨pl, ql, hpl, hql, hli, hln, hls, hleft⟩ := hb.inclusionProof_accepted hi
  obtain ⟨pr, qr, hpr, hqr, hri, hrn, hrs, hright⟩ := hb.inclusionProof_accepted hi'
  refine ⟨⟨pl, tree.keys.getD i 0, tree.marks.getD i 0, pr, tree.keys.getD (i + 1) 0,
      tree.marks.getD (i + 1) 0⟩, ⟨ql, tree.keys.getD i 0, tree.marks.getD i 0, qr,
      tree.keys.getD (i + 1) 0, tree.marks.getD (i + 1) 0⟩, ?_,
    nonInclusion_encode_eq_some.2 ⟨hql, hqr, rfl, rfl, rfl, rfl⟩,
    Set.union_subset (hb.memberPreimages_subset hi hli hln hls)
      (hb.memberPreimages_subset hi' hri hrn hrs),
    rosterProof_verifyNonInclusion_iff.2 ⟨⟨?_, ?_⟩, ?_, ?_, ?_, hleft, hright⟩⟩
  · exact bind_eq_ok.2 ⟨pl, hpl, bind_eq_ok.2 ⟨pr, hpr, rfl⟩⟩
  · rwa [List.getD_eq_getElem _ _ hi]
  · rwa [List.getD_eq_getElem _ _ hi']
  · show qr.index.toNat = ql.index.toNat + 1
    rw [hri, hli]
  · exact BitVec.eq_of_toNat_eq (hln.trans hrn.symm)
  · show ql.siblings.length = qr.siblings.length
    -- all paths of the tree have the length of its layers
    have hpath : ∀ j, j < tree.keys.length →
        (Positional.path tree.layers j).length + 1 = tree.layers.length := fun j hj ↦ by
      rw [hb.layers]
      exact Positional.length_path hashNode _ (hb.length_keys ▸ hj)
    have hleftLength := hpath i hi
    have hrightLength := hpath (i + 1) hi'
    rw [hls, hrs]
    omega

/-! ### The provers -/

/-- A key that is missing is in the gap the linear search finds. -/
theorem Built.nonInclusionProof_eq (hb : Built es ns tree) {subject : Address}
    (hmax : subjectKey subject ns ≠ MAX_KEY) (hk : subjectKey subject ns ∉ tree.keys) :
    ∃ i, SortedGap.Gap tree.keys (subjectKey subject ns) i ∧
      nonInclusionProof tree subject ns = gapProof tree (i + 1) := by
  have hmem : MAX_KEY ∈ tree.keys := hb.mem_keys.2 (.inr (.inl rfl))
  have habsent : revertIf (decide (subjectKey subject ns ∈ tree.keys)) RosterError.targetInRoster =
      .ok () := revertIf_eq_ok.2 (decide_eq_false hk)
  cases hfirst : tree.keys.findIdx? fun k ↦ decide (subjectKey subject ns < k) with
  | none =>
    have hnone := List.findIdx?_eq_none_iff.1 hfirst MAX_KEY hmem
    exact absurd (lt_maxKey hmax) (of_decide_eq_false hnone)
  | some hi =>
    cases hi with
    | zero =>
      -- nothing is below the lower sentinel
      obtain ⟨hlt, habove, -⟩ := List.findIdx?_eq_some_iff_getElem.1 hfirst
      have hbelow := of_decide_eq_true habove
      simp only [hb.keys, List.getElem_cons_zero] at hbelow
      exact absurd hbelow BitVec.not_lt_zero
    | succ i =>
      refine ⟨i, SortedGap.gap_of_findIdx? hfirst hk, ?_⟩
      rw [nonInclusionProof, habsent, hfirst]
      rfl

/-- And in the gap the bisection finds. -/
theorem Built.lookup_eq (hb : Built es ns tree) {k : Bytes32} (hmin : k ≠ MIN_KEY)
    (hmax : k ≠ MAX_KEY) (hk : k ∉ tree.keys) :
    ∃ i, lookup tree k = i + 1 ∧ SortedGap.Gap tree.keys k i := by
  have hlength : tree.keys.length = (sortedByKey es ns).length + 2 := by
    rw [hb.keys]
    simp
  refine SortedGap.gap_of_lowerBound hk (by omega) (by omega) ?_ ?_
  · rw [hb.keys]
    exact minKey_lt hmin
  · rw [hlength, hb.keys]
    simpa using lt_maxKey hmax

/-- The bundle finds the gap and builds the same proof. -/
theorem Built.bundleProof_eq (hb : Built es EVM_NAMESPACE tree) {subject : Address}
    (hzero : subject ≠ 0) (hmin : subjectKey subject EVM_NAMESPACE ≠ MIN_KEY)
    (hmax : subjectKey subject EVM_NAMESPACE ≠ MAX_KEY)
    (hk : subjectKey subject EVM_NAMESPACE ∉ tree.keys) {i : ℕ}
    (hgap : SortedGap.Gap tree.keys (subjectKey subject EVM_NAMESPACE) i) {p : NonInclusionProof}
    (hp : gapProof tree (i + 1) = .ok p) : bundleProof tree subject = .ok (.nonInclusion p) := by
  obtain ⟨j, hlookup, hgap'⟩ := hb.lookup_eq hmin hmax hk
  obtain rfl := hgap'.unique hb.pairwise_keys hgap
  obtain ⟨-, b, -, hb', -, -⟩ := hgap
  obtain ⟨hi, -⟩ := List.getElem?_eq_some_iff.1 hb'
  have hother : tree.keys.getD (j + 1) 0 ≠ subjectKey subject EVM_NAMESPACE := fun heq ↦ by
    rw [List.getD_eq_getElem _ _ hi] at heq
    exact hk (heq ▸ List.getElem_mem hi)
  rw [bundleProof, revertIf_bind_eq_ok]
  refine ⟨by simpa using hzero, ?_⟩
  simp only [hlookup]
  rw [if_pos hother, hp]
  rfl

/-- The preimages of the keys of the entries and of one more subject. -/
def subjectPreimages (es : List RosterEntry) (ns : String) (subject : Address) : Set Bytes :=
  {b | b = RosterProof.encodeSubject ns subject ∨
    ∃ e ∈ es, b = RosterProof.encodeSubject ns e.subject}

theorem encodeSubject_inj {a b : Address}
    (h : RosterProof.encodeSubject ns a = RosterProof.encodeSubject ns b) : a = b := by
  rw [RosterProof.encodeSubject, RosterProof.encodeSubject, List.append_left_inj,
    List.append_left_inj] at h
  simp only [abiEncode, List.flatMap_cons, List.flatMap_nil] at h
  exact setWidth_inj (by decide) (wordBytes_append_inj (List.append_cancel_left h)).1

/-- A subject that no entry has is not listed, if its key does not collide with one that is. -/
theorem subjectKey_ne {subject : Address} (hs : ∀ e ∈ es, e.subject ≠ subject)
    (hfree : CollisionFree keccak256 (subjectPreimages es ns subject)) :
    ∀ e ∈ es, subjectKey e.subject ns ≠ subjectKey subject ns := fun e he heq ↦
  hs e he (encodeSubject_inj (hfree.eq (.inr ⟨e, he, rfl⟩) (.inl rfl) heq))

/-- **Absence is sound and complete.** A key other than the sentinels is provably absent exactly when
no entry has it, on chain and off chain; presence and absence are never both accepted; and for a
subject that is not listed both provers build one and the same proof, which both verifiers accept. -/
theorem absence_accepted_iff (hbuild : buildRoster es ns = .ok tree)
    (hfree : CollisionFree keccak256 tree.allPreimages) {k : Bytes32} (hmin : k ≠ MIN_KEY)
    (hmax : k ≠ MAX_KEY) :
    ((∃ q, CollisionFree keccak256 (tree.allPreimages ∪ gapPreimages q) ∧
        RosterProof.verifyNonInclusion tree.root k q = true) ↔
      ∀ e ∈ es, subjectKey e.subject ns ≠ k) ∧
    (∀ q mark p, CollisionFree keccak256
        (tree.allPreimages ∪ (gapPreimages q ∪ memberPreimages k mark p)) →
      ¬(RosterProof.verifyNonInclusion tree.root k q = true ∧
        RosterProof.verifyInclusion tree.root (leafOf k mark) p = true)) ∧
    ∀ subject, subjectKey subject ns = k →
      ((∃ (p : NonInclusionProof) (q : RosterProof.NonInclusion), p.encode = some q ∧
          CollisionFree keccak256 (tree.allPreimages ∪ gapPreimages q) ∧
          verifyNonInclusion tree.root subject p ns = true) ↔
        ∀ e ∈ es, subjectKey e.subject ns ≠ k) ∧
      ((∀ e ∈ es, e.subject ≠ subject) →
        CollisionFree keccak256 (subjectPreimages es ns subject) →
        ∃ p q, nonInclusionProof tree subject ns = .ok p ∧ p.encode = some q ∧
          verifyNonInclusion tree.root subject p ns = true ∧
          RosterProof.verifyNonInclusion tree.root k q = true ∧
          (ns = EVM_NAMESPACE → subject ≠ 0 →
            bundleProof tree subject = .ok (.nonInclusion p))) := by
  have hb := buildRoster_eq_ok hbuild
  have habsent : (∀ e ∈ es, subjectKey e.subject ns ≠ k) ↔ k ∉ tree.keys := by
    simp [hb.mem_keys, hmin, hmax]
  have hsound : ∀ q, CollisionFree keccak256 (tree.allPreimages ∪ gapPreimages q) →
      RosterProof.verifyNonInclusion tree.root k q = true → k ∉ tree.keys := fun q hq h ↦
    (hb.gap_of_verifyNonInclusion hq h).not_mem hb.pairwise_keys
  have hcomplete : k ∉ tree.keys → ∃ (p : NonInclusionProof) (q : RosterProof.NonInclusion),
      p.encode = some q ∧
      CollisionFree keccak256 (tree.allPreimages ∪ gapPreimages q) ∧
      RosterProof.verifyNonInclusion tree.root k q = true := fun hk ↦ by
    obtain ⟨i, -, hgap⟩ := hb.lookup_eq hmin hmax hk
    obtain ⟨p, q, -, hq, hsubset, haccepted⟩ := hb.gapProof_accepted hgap
    exact ⟨p, q, hq, by rwa [Set.union_eq_self_of_subset_right hsubset], haccepted⟩
  refine ⟨?_, ?_, ?_⟩
  · rw [habsent]
    constructor
    · rintro ⟨q, hq, h⟩
      exact hsound q hq h
    · intro hk
      obtain ⟨-, q, -, hq, haccepted⟩ := hcomplete hk
      exact ⟨q, hq, haccepted⟩
  · rintro q mark p hfree ⟨hgap, hmember⟩
    refine hsound q (hfree.mono (Set.union_subset_union_right _ Set.subset_union_left)) hgap ?_
    exact List.mem_of_getElem? (hb.key_of_verifyInclusion
      (hfree.mono (Set.union_subset_union_right _ Set.subset_union_right)) hmember)
  · rintro subject rfl
    refine ⟨?_, fun hs hcollision ↦ ?_⟩
    · rw [habsent]
      constructor
      · rintro ⟨p, q, hq, hfree, h⟩
        obtain ⟨q', hq', haccepted⟩ := verifyNonInclusion_iff_encode.1 h
        obtain rfl := Option.some.inj (hq.symm.trans hq')
        exact hsound q hfree haccepted
      · intro hk
        obtain ⟨p, q, hq, hfree, haccepted⟩ := hcomplete hk
        exact ⟨p, q, hq, hfree, verifyNonInclusion_iff_encode.2 ⟨q, hq, haccepted⟩⟩
    · have hk := habsent.1 (subjectKey_ne hs hcollision)
      obtain ⟨i, hgap, hproof⟩ := hb.nonInclusionProof_eq hmax hk
      obtain ⟨p, q, hp, hq, -, haccepted⟩ := hb.gapProof_accepted hgap
      refine ⟨p, q, hproof.trans hp, hq, verifyNonInclusion_iff_encode.2 ⟨q, hq, haccepted⟩,
        haccepted, ?_⟩
      rintro rfl hzero
      exact hb.bundleProof_eq hzero hmin hmax hk hgap hp

/-! ### Absence from a roster of one subject -/

/-- What is hashed for the tree of `oneEntry`. -/
def oneEntryAllPreimages : List Bytes :=
  List.zipWith RosterProof.leafBytes oneEntryTree.keys oneEntryTree.marks ++ oneEntryPreimages

theorem collisionFree_allPreimages_oneEntry :
    CollisionFree keccak256 oneEntryTree.allPreimages := by
  obtain ⟨⟨hl₀, hl₁, hl₂⟩, ⟨hn₀, hn₁, htop⟩, hpublished⟩ := digests_oneEntryTree
  have hnodup : (oneEntryAllPreimages.map keccak256).Nodup := by
    show [leafOf MIN_KEY SENTINEL_MARK, leafOf (oneEntryTree.keys.getD 1 0)
        (oneEntryTree.marks.getD 1 0), leafOf MAX_KEY SENTINEL_MARK,
      hashNode (oneEntryTree.leaves.getD 0 0) (oneEntryTree.leaves.getD 1 0),
      hashNode (oneEntryTree.leaves.getD 2 0) (oneEntryTree.leaves.getD 2 0),
      hashNode 0x7d16393d420f32fda5ab550c2a6390b248a1fdd53a642c3f096c5aa3df2c63fd
        0x6bdebc48add0843090eff238c07744471faeca1d7c8569be7ed005f1f12b4244,
      RosterProof.rootOf 0x48f25673f258d28a8dec4322a27045160e08a26047eb1007352612c3386dc30b
        3].Nodup
    rw [hl₀, hl₁, hl₂, hn₀, hn₁, htop, hpublished]
    decide
  have hleaves : ∀ i < 3, RosterProof.leafBytes (oneEntryTree.keys.getD i 0)
      (oneEntryTree.marks.getD i 0) ∈ oneEntryAllPreimages := by decide +kernel
  have hsubset : oneEntryTree.allPreimages ⊆ {b | b ∈ oneEntryAllPreimages} := by
    rintro b (⟨i, hi, rfl⟩ | hb)
    · exact hleaves i hi
    · exact List.mem_append_right _ (preimages_oneEntryTree hb)
  exact CollisionFree.mono (fun a ha b hb hab ↦ List.inj_on_of_nodup_map hnodup ha hb hab) hsubset

/-- A key that is not listed is provably absent, the one that is listed is not. -/
theorem absence_accepted_oneEntry :
    (∃ q, RosterProof.verifyNonInclusion oneEntryTree.root 1 q = true) ∧
    ¬∃ q, CollisionFree keccak256 (oneEntryTree.allPreimages ∪ gapPreimages q) ∧
      RosterProof.verifyNonInclusion oneEntryTree.root (oneEntryTree.keys.getD 1 0) q = true := by
  have hkey : subjectKey 0xb0b EVM_NAMESPACE = oneEntryTree.keys.getD 1 0 := by decide +kernel
  have habsent : ∀ e ∈ oneEntry, subjectKey e.subject EVM_NAMESPACE ≠ 1 := by
    intro e he
    rw [List.mem_singleton.1 he, hkey]
    decide
  constructor
  · obtain ⟨q, -, haccepted⟩ := (absence_accepted_iff buildRoster_oneEntry
      collisionFree_allPreimages_oneEntry (by decide) (by decide)).1.2 habsent
    exact ⟨q, haccepted⟩
  · intro hq
    exact (absence_accepted_iff buildRoster_oneEntry collisionFree_allPreimages_oneEntry
      (by decide) (by decide)).1.1 hq _ List.mem_cons_self hkey

end Pipeline

end Proofmark
