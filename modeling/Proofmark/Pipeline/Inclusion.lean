import Mathlib.Algebra.Order.Group.Abs
import Proofmark.Pipeline.Roster

/-!
# Inclusion in a roster

`buildRoster` commits to a positional tree and to its number of leaves. Both verifiers, the one on
chain and the one off chain, run the climb of `Positional`; what they check around it differs only
in the type of their numbers (`Accepts`). Under collision freedom of the hash on the preimages of
the tree and of the proof, each accepts exactly the path of a leaf.
-/

open Evm

namespace Proofmark

namespace Pipeline

/-! ### Both verifiers climb -/

theorem climb_eq (siblings : List Bytes32) (acc : Bytes32) (idx width : ℕ) :
    climb siblings acc idx width = Positional.climb hashNode siblings acc idx width := by
  induction siblings generalizing acc idx width with
  | nil => rfl
  | cons s siblings ih =>
    rw [climb, Positional.climb, ih, show (width + 1) / 2 = width / 2 + width % 2 by omega]
    rfl

theorem rosterProof_climb_eq (siblings : List Bytes32) (acc : Bytes32) (idx width : ℕ) :
    RosterProof.climb siblings acc idx width =
      Positional.climb hashNode siblings acc idx width := by
  induction siblings generalizing acc idx width with
  | nil => rfl
  | cons s siblings ih =>
    rw [RosterProof.climb, Positional.climb, ih, Positional.xor_one_eq_partner]
    rfl

/-- What both verifiers check, in natural numbers. -/
structure Accepts (root leaf : Bytes32) (index leafCount : ℕ) (siblings : List Bytes32) :
    Prop where
  count : 2 ≤ leafCount
  index_lt : index < leafCount
  length_le : siblings.length ≤ 256
  climb : ∃ acc, Positional.climb hashNode siblings leaf index leafCount = some (acc, 0, 1) ∧
    RosterProof.rootOf acc (BitVec.ofNat 256 leafCount) = root

/-- The checks on chain are `Accepts`. -/
theorem rosterProof_verifyInclusion_iff {root leaf : Bytes32} {p : RosterProof.Inclusion} :
    RosterProof.verifyInclusion root leaf p = true ↔
      Accepts root leaf p.index.toNat p.leafCount.toNat p.siblings := by
  have htwo : p.leafCount < 2 ↔ p.leafCount.toNat < 2 := BitVec.lt_def
  have hindex : p.index ≥ p.leafCount ↔ p.index.toNat ≥ p.leafCount.toNat := BitVec.le_def
  simp only [RosterProof.verifyInclusion, htwo, hindex, rosterProof_climb_eq]
  constructor
  · intro h
    split at h
    · simp at h
    case isFalse hbounds =>
      split at h
      · simp at h
      case h_2 acc idx width hclimb =>
        simp only [Bool.and_eq_true, beq_iff_eq] at h
        obtain ⟨⟨rfl, rfl⟩, hroot⟩ := h
        refine ⟨by omega, by omega, by omega, acc, hclimb, ?_⟩
        rwa [BitVec.ofNat_toNat, BitVec.setWidth_eq]
  · rintro ⟨hcount, hlt, hlength, acc, hclimb, hroot⟩
    rw [if_neg (by omega), hclimb]
    rw [BitVec.ofNat_toNat, BitVec.setWidth_eq] at hroot
    simp [hroot]

@[simp]
theorem JsNumber.isSafeInteger_integer {z : ℤ} :
    (JsNumber.integer z).isSafeInteger = true ↔ -(2 ^ 53 - 1) ≤ z ∧ z ≤ 2 ^ 53 - 1 := by
  rw [JsNumber.isSafeInteger, decide_eq_true_eq, abs_le]

theorem rosterRoot_eq_ok {treeRoot root : Bytes32} {n : ℕ} :
    rosterRoot treeRoot (.integer n) = .ok root ↔
      2 ≤ n ∧ n ≤ 2 ^ 53 - 1 ∧ RosterProof.rootOf treeRoot (BitVec.ofNat 256 n) = root := by
  rw [rosterRoot, BitVec.ofInt_natCast]
  constructor
  · intro h
    split at h
    · simp at h
    case isFalse hbounds =>
      simp only [Bool.or_eq_true, Bool.not_eq_true', Bool.eq_false_iff, decide_eq_true_eq, not_or,
        not_not, JsNumber.isSafeInteger_integer, ne_eq] at hbounds
      exact ⟨by omega, by omega, Except.ok.inj h⟩
  · rintro ⟨hge, hle, hroot⟩
    rw [if_neg, hroot]
    simp only [Bool.or_eq_true, Bool.not_eq_true', Bool.eq_false_iff, decide_eq_true_eq, not_or,
      not_not, JsNumber.isSafeInteger_integer, ne_eq]
    omega

/-- The checks off chain are `Accepts`, on safe integers. -/
theorem verifyInclusion_iff_accepts {root leaf : Bytes32} {p : InclusionProof} :
    verifyInclusion root leaf p = true ↔ ∃ index leafCount : ℕ, p.index = .integer index ∧
      p.leafCount = .integer leafCount ∧ leafCount ≤ 2 ^ 53 - 1 ∧
      Accepts root leaf index leafCount p.siblings := by
  obtain ⟨index, leafCount, siblings⟩ := p
  constructor
  · intro h
    rw [verifyInclusion] at h
    split at h
    case h_2 => simp at h
    case h_1 i n hi hn =>
      obtain rfl : index = .integer i := hi
      obtain rfl : leafCount = .integer n := hn
      split at h
      · simp at h
      case isFalse hbounds =>
        simp only [Bool.or_eq_true, Bool.not_eq_true', Bool.eq_false_iff, decide_eq_true_eq,
          not_or, not_not, JsNumber.isSafeInteger_integer, ne_eq] at hbounds
        obtain ⟨i, rfl⟩ := Int.eq_ofNat_of_zero_le (show 0 ≤ i by omega)
        obtain ⟨n, rfl⟩ := Int.eq_ofNat_of_zero_le (show 0 ≤ n by omega)
        split at h
        · simp at h
        case h_2 acc idx width hclimb =>
          simp only [Bool.and_eq_true, beq_iff_eq, toOption_eq_some] at h
          obtain ⟨⟨rfl, rfl⟩, hroot⟩ := h
          obtain ⟨hge, hle, hroot⟩ := rosterRoot_eq_ok.1 hroot
          rw [climb_eq] at hclimb
          refine ⟨i, n, rfl, rfl, hle, hge, by omega, ?_, acc, hclimb, hroot⟩
          show siblings.length ≤ 256
          omega
  · rintro ⟨i, n, hi, hn, hle, hcount, hlt, hlength, acc, hclimb, hroot⟩
    obtain rfl : index = .integer i := hi
    obtain rfl : leafCount = .integer n := hn
    have hroot := toOption_eq_some.2 (rosterRoot_eq_ok.2 ⟨hcount, hle, hroot⟩)
    show (if _ then false else _) = true
    rw [if_neg, climb_eq]
    · simp only [Int.toNat_natCast, hclimb, hroot, beq_self_eq_true, Bool.and_true]
    · replace hlength : siblings.length ≤ 256 := hlength
      simp only [Bool.or_eq_true, Bool.not_eq_true', Bool.eq_false_iff, decide_eq_true_eq,
        not_or, not_not, JsNumber.isSafeInteger_integer, ne_eq]
      omega

/-! ### A built roster -/

/-- What `buildRoster` returns. -/
structure Built (es : List RosterEntry) (ns : String) (tree : RosterTree) : Prop where
  entries : tree.entries = (sortedByKey es ns).map Prod.fst
  keys : tree.keys = MIN_KEY :: ((sortedByKey es ns).map Prod.snd ++ [MAX_KEY])
  marks : tree.marks = SENTINEL_MARK :: (tree.entries.map markHash ++ [SENTINEL_MARK])
  leaves : tree.leaves = List.zipWith leafOf tree.keys tree.marks
  layers : tree.layers = Positional.layers hashNode tree.leaves.length tree.leaves
  root : ∃ top, Positional.top tree.layers = some top ∧
    tree.root = RosterProof.rootOf top (BitVec.ofNat 256 tree.leaves.length)
  count_ge : 2 ≤ tree.leaves.length
  count_le : tree.leaves.length ≤ 2 ^ 53 - 1
  duplicates : checkDuplicates (sortedByKey es ns) = .ok ()
  sentinels : checkSentinels (sortedByKey es ns) = .ok ()

theorem buildRoster_eq_ok {es : List RosterEntry} {ns : String} {tree : RosterTree}
    (h : buildRoster es ns = .ok tree) : Built es ns tree := by
  rw [buildRoster] at h
  obtain ⟨u, hduplicates, h⟩ := bind_eq_ok.1 h
  obtain ⟨v, hsentinels, h⟩ := bind_eq_ok.1 h
  obtain ⟨root, hroot, h⟩ := bind_eq_ok.1 h
  obtain rfl := Except.ok.inj h
  obtain ⟨hge, hle, hroot⟩ := rosterRoot_eq_ok.1 hroot
  refine ⟨rfl, rfl, rfl, rfl, rfl, ?_, hge, hle, hduplicates, hsentinels⟩
  obtain ⟨x, hx⟩ : ∃ x, (List.zipWith leafOf (MIN_KEY :: ((sortedByKey es ns).map Prod.snd ++
      [MAX_KEY])) (SENTINEL_MARK :: (((sortedByKey es ns).map Prod.fst).map markHash ++
      [SENTINEL_MARK])))[0]? = some x := ⟨_, rfl⟩
  obtain ⟨top, htop, -⟩ : ∃ r, Positional.top (Positional.layers hashNode _ _) = some r ∧
      Positional.climb hashNode _ _ _ _ = some (r, 0, 1) := Positional.climb_path (Nat.le_succ _) hx
  refine ⟨top, htop, ?_⟩
  rw [← hroot, htop]
  rfl

/-! ### What is hashed -/

/-- What is hashed above the leaves of a tree. -/
def RosterTree.preimages (tree : RosterTree) : Set Bytes :=
  {b | (∃ p ∈ Positional.layerPairs hashNode tree.leaves.length tree.leaves,
      b = RosterProof.nodeBytes p.1 p.2) ∨
    ∃ top, Positional.top tree.layers = some top ∧
      b = RosterProof.rootBytes top (BitVec.ofNat 256 tree.leaves.length)}

/-- What a verifier hashes on its climb from a leaf value. -/
def climbPreimages (leaf : Bytes32) (index leafCount : ℕ) (siblings : List Bytes32) : Set Bytes :=
  {b | (∃ p ∈ Positional.climbPairs hashNode siblings leaf index,
      b = RosterProof.nodeBytes p.1 p.2) ∨
    b = RosterProof.rootBytes (Positional.climbEnd hashNode siblings leaf index)
      (BitVec.ofNat 256 leafCount)}

/-- A climb from a proof in numbers, if it is one. -/
def InclusionProof.preimages (leaf : Bytes32) (p : InclusionProof) : Set Bytes :=
  match p.index, p.leafCount with
  | .integer index, .integer leafCount =>
    climbPreimages leaf index.toNat leafCount.toNat p.siblings
  | _, _ => ∅

theorem nodeBytes_inj {a b c d : Bytes32}
    (h : RosterProof.nodeBytes a b = RosterProof.nodeBytes c d) : a = c ∧ b = d := by
  obtain ⟨hleft, hright⟩ := wordBytes_append_inj (List.cons.inj h).2
  exact ⟨hleft, wordBytes_injective hright⟩

theorem rootBytes_inj {a b : Bytes32} {m n : Uint 256}
    (h : RosterProof.rootBytes a m = RosterProof.rootBytes b n) : a = b ∧ m = n := by
  obtain ⟨hcount, hroot⟩ := wordBytes_append_inj (List.cons.inj h).2
  exact ⟨wordBytes_injective hroot, hcount⟩

/-- The path of a leaf is accepted. -/
theorem accepts_path {es : List RosterEntry} {ns : String} {tree : RosterTree}
    (hb : Built es ns tree) {leaf : Bytes32} {index : ℕ} (hleaf : tree.leaves[index]? = some leaf) :
    Accepts tree.root leaf index tree.leaves.length (Positional.path tree.layers index) := by
  have hle := hb.count_le
  obtain ⟨top, htop, hroot⟩ := hb.root
  obtain ⟨r, hr, hclimb⟩ : ∃ r, Positional.top (Positional.layers hashNode _ _) = some r ∧
      Positional.climb hashNode _ _ _ _ = some (r, 0, 1) :=
    Positional.climb_path (Nat.le_succ _) hleaf
  rw [← hb.layers, htop] at hr
  obtain rfl := Option.some.inj hr
  have hlength : (Positional.path (Positional.layers hashNode tree.leaves.length tree.leaves)
      index).length ≤ 53 :=
    Positional.length_path_le hashNode (show tree.leaves.length ≤ 2 ^ 53 by omega) index
  rw [← hb.layers] at hclimb hlength
  exact ⟨hb.count_ge, (List.getElem?_eq_some_iff.1 hleaf).1, by omega, top, hclimb, hroot.symm⟩

/-- Nothing else is accepted, if the hash does not collide on the tree and the proof. -/
theorem Accepts.eq_path {es : List RosterEntry} {ns : String} {tree : RosterTree}
    (hb : Built es ns tree) {leaf : Bytes32} {index leafCount : ℕ} {siblings : List Bytes32}
    (hcount : leafCount < 2 ^ 256) (hfree : CollisionFree keccak256
      (tree.preimages ∪ climbPreimages leaf index leafCount siblings))
    (h : Accepts tree.root leaf index leafCount siblings) : leafCount = tree.leaves.length ∧
      tree.leaves[index]? = some leaf ∧ siblings = Positional.path tree.layers index := by
  have hle := hb.count_le
  obtain ⟨top, htop, hroot⟩ := hb.root
  obtain ⟨-, hlt, -, acc, hclimb, hacc⟩ := h
  -- the committed count and top are the ones climbed to
  obtain rfl := Positional.climbEnd_of_climb hclimb
  obtain ⟨hend, hcounts⟩ := rootBytes_inj
    (hfree.eq (.inr (.inr rfl)) (.inl (.inr ⟨top, htop, rfl⟩)) (hacc.trans hroot))
  obtain rfl : leafCount = tree.leaves.length := by
    have hnat := congrArg BitVec.toNat hcounts
    rwa [BitVec.toNat_ofNat, BitVec.toNat_ofNat, Nat.mod_eq_of_lt hcount,
      Nat.mod_eq_of_lt (by omega)] at hnat
  rw [hend] at hclimb
  have hinj : Set.InjOn (fun p : Bytes32 × Bytes32 ↦ hashNode p.1 p.2)
      {p | p ∈ Positional.layerPairs hashNode tree.leaves.length tree.leaves ∨
        p ∈ Positional.climbPairs hashNode siblings leaf index} := by
    have hpreimage : ∀ p : Bytes32 × Bytes32,
        (p ∈ Positional.layerPairs hashNode tree.leaves.length tree.leaves ∨
          p ∈ Positional.climbPairs hashNode siblings leaf index) →
        RosterProof.nodeBytes p.1 p.2 ∈
          tree.preimages ∪ climbPreimages leaf index tree.leaves.length siblings :=
      fun p hp ↦ hp.imp (fun h ↦ .inl ⟨p, h, rfl⟩) (fun h ↦ .inl ⟨p, h, rfl⟩)
    intro p hp q hq hpq
    obtain ⟨hleft, hright⟩ := nodeBytes_inj (hfree.eq (hpreimage p hp) (hpreimage q hq) hpq)
    exact Prod.ext hleft hright
  rw [hb.layers] at htop ⊢
  exact ⟨rfl, Positional.climb_sound (Nat.le_succ _) hlt hinj htop hclimb⟩

/-- **A proof is accepted exactly when it is the path of the leaf it is for.** -/
theorem accepts_iff {es : List RosterEntry} {ns : String} {tree : RosterTree}
    (hb : Built es ns tree) {leaf : Bytes32} {index leafCount : ℕ} {siblings : List Bytes32}
    (hcount : leafCount < 2 ^ 256) (hfree : CollisionFree keccak256
      (tree.preimages ∪ climbPreimages leaf index leafCount siblings)) :
    Accepts tree.root leaf index leafCount siblings ↔ leafCount = tree.leaves.length ∧
      tree.leaves[index]? = some leaf ∧ siblings = Positional.path tree.layers index := by
  refine ⟨fun h ↦ h.eq_path hb hcount hfree, ?_⟩
  rintro ⟨rfl, hleaf, rfl⟩
  exact accepts_path hb hleaf

/-- What `inclusionProof` returns. -/
theorem inclusionProof_eq_ok {tree : RosterTree} (hle : tree.leaves.length ≤ 2 ^ 53 - 1)
    {index : JsNumber} {p : InclusionProof} : inclusionProof tree index = .ok p ↔
      ∃ i : ℕ, index = .integer i ∧ i < tree.leaves.length ∧
        p = ⟨index, .integer tree.leaves.length, Positional.path tree.layers i⟩ := by
  constructor
  · intro h
    cases index with
    | other => simp [inclusionProof] at h
    | integer z =>
      rw [inclusionProof] at h
      split at h
      · simp at h
      case isFalse hbounds =>
        simp only [Bool.or_eq_true, Bool.not_eq_true', Bool.eq_false_iff, decide_eq_true_eq,
          not_or, not_not, JsNumber.isSafeInteger_integer, ne_eq] at hbounds
        obtain ⟨i, rfl⟩ := Int.eq_ofNat_of_zero_le (show 0 ≤ z by omega)
        exact ⟨i, rfl, by omega, (Except.ok.inj h).symm⟩
  · rintro ⟨i, rfl, hlt, rfl⟩
    rw [inclusionProof, if_neg, Int.toNat_natCast]
    simp only [Bool.or_eq_true, Bool.not_eq_true', Bool.eq_false_iff, decide_eq_true_eq,
      not_or, not_not, JsNumber.isSafeInteger_integer, ne_eq]
    omega

/-- The siblings of an inclusion proof are the path. -/
theorem siblings_inclusionProof {tree : RosterTree} (hle : tree.leaves.length ≤ 2 ^ 53 - 1) {i : ℕ}
    (hlt : i < tree.leaves.length) :
    (inclusionProof tree (.integer i)).map InclusionProof.siblings =
      .ok (Positional.path tree.layers i) := by
  rw [(inclusionProof_eq_ok hle).2 ⟨i, rfl, hlt, rfl⟩]
  rfl

/-- `leaf` is the leaf of a tree at an index, and the other arguments are what `inclusionProof` says
of that index. -/
def RosterTree.Includes (tree : RosterTree) (leaf : Bytes32) (index leafCount : ℕ)
    (siblings : List Bytes32) : Prop :=
  leafCount = tree.leaves.length ∧ index < tree.leaves.length ∧
    tree.leaves[index]? = some leaf ∧
    (inclusionProof tree (.integer index)).map InclusionProof.siblings = .ok siblings

theorem accepts_iff_includes {es : List RosterEntry} {ns : String} {tree : RosterTree}
    (hb : Built es ns tree) {leaf : Bytes32} {index leafCount : ℕ} {siblings : List Bytes32}
    (hcount : leafCount < 2 ^ 256) (hfree : CollisionFree keccak256
      (tree.preimages ∪ climbPreimages leaf index leafCount siblings)) :
    Accepts tree.root leaf index leafCount siblings ↔
      tree.Includes leaf index leafCount siblings := by
  rw [accepts_iff hb hcount hfree]
  constructor
  · rintro ⟨hlength, hleaf, rfl⟩
    have hlt := (List.getElem?_eq_some_iff.1 hleaf).1
    exact ⟨hlength, hlt, hleaf, siblings_inclusionProof hb.count_le hlt⟩
  · rintro ⟨hlength, hlt, hleaf, hsiblings⟩
    rw [siblings_inclusionProof hb.count_le hlt] at hsiblings
    exact ⟨hlength, hleaf, (Except.ok.inj hsiblings).symm⟩

/-- **Inclusion is sound and complete.** Each verifier accepts a proof of a leaf value exactly when
the value is the leaf at its index, its leaf count is the one committed to and its siblings are those
of `inclusionProof`; and the two verifiers agree. -/
theorem inclusion_accepted_iff {es : List RosterEntry} {ns : String} {tree : RosterTree}
    (hbuild : buildRoster es ns = .ok tree) (leaf : Bytes32) (p : InclusionProof)
    (hp : CollisionFree keccak256 (tree.preimages ∪ p.preimages leaf)) (q : RosterProof.Inclusion)
    (hq : CollisionFree keccak256 (tree.preimages ∪
      climbPreimages leaf q.index.toNat q.leafCount.toNat q.siblings)) :
    (verifyInclusion tree.root leaf p = true ↔ ∃ index leafCount : ℕ, p.index = .integer index ∧
      p.leafCount = .integer leafCount ∧ tree.Includes leaf index leafCount p.siblings) ∧
    (RosterProof.verifyInclusion tree.root leaf q = true ↔
      tree.Includes leaf q.index.toNat q.leafCount.toNat q.siblings) ∧
    verifyInclusion tree.root leaf ⟨.integer q.index.toNat, .integer q.leafCount.toNat, q.siblings⟩ =
      RosterProof.verifyInclusion tree.root leaf q := by
  have hb := buildRoster_eq_ok hbuild
  have hsol : RosterProof.verifyInclusion tree.root leaf q = true ↔
      tree.Includes leaf q.index.toNat q.leafCount.toNat q.siblings :=
    rosterProof_verifyInclusion_iff.trans (accepts_iff_includes hb q.leafCount.isLt hq)
  refine ⟨?_, hsol, ?_⟩
  · rw [verifyInclusion_iff_accepts]
    obtain ⟨pindex, pcount, psiblings⟩ := p
    refine exists_congr fun i ↦ exists_congr fun n ↦ and_congr_right fun hi ↦
      and_congr_right fun hn ↦ ?_
    obtain rfl : pindex = .integer i := hi
    obtain rfl : pcount = .integer n := hn
    constructor
    · rintro ⟨hle, haccepts⟩
      exact (accepts_iff_includes hb (by omega) hp).1 haccepts
    · intro hincludes
      have hle : n ≤ 2 ^ 53 - 1 := hincludes.1 ▸ hb.count_le
      exact ⟨hle, (accepts_iff_includes hb (by omega) hp).2 hincludes⟩
  · rw [Bool.eq_iff_iff, verifyInclusion_iff_accepts, hsol]
    constructor
    · rintro ⟨i, n, hi, hn, -, haccepts⟩
      obtain rfl : q.index.toNat = i := by simpa using hi
      obtain rfl : q.leafCount.toNat = n := by simpa using hn
      exact (accepts_iff_includes hb q.leafCount.isLt hq).1 haccepts
    · intro hincludes
      exact ⟨_, _, rfl, rfl, hincludes.1 ▸ hb.count_le,
        (accepts_iff_includes hb q.leafCount.isLt hq).2 hincludes⟩

/-! ### A roster of one subject -/

def oneEntry : List RosterEntry := [⟨0xb0b, 1, 2, 3, 4⟩]

/-- Three leaves: the layer above pairs the last one with itself. -/
def oneEntryTree : RosterTree :=
  let l₀ : Bytes32 := 0xae61b77b3e4cbac1353bfa4c59274e3ae531285c24e3cf57c11771ecbf72d9bf
  let l₁ : Bytes32 := 0xa4e9e5d5086f1fcdbd58f013f8773fb7c6df0d18571373105a23914250e003bc
  let l₂ : Bytes32 := 0x9c1ee289e03d80d15a778d11d4159ca8444fbb86ddb1433b09a069e81c6179d8
  { formatVersion := 2
    entries := oneEntry
    keys := [MIN_KEY, 0xe29baf539755a44c8f91c3dbb3b004872a2cfdef0e5af36b4d0eabaaa4a8e43b, MAX_KEY]
    marks := [SENTINEL_MARK, 0x392791df626408017a264f53fde61065d5a93a32b60171df9d8a46afdf82992d,
      SENTINEL_MARK]
    leaves := [l₀, l₁, l₂]
    layers := [[l₀, l₁, l₂], [0x7d16393d420f32fda5ab550c2a6390b248a1fdd53a642c3f096c5aa3df2c63fd,
        0x6bdebc48add0843090eff238c07744471faeca1d7c8569be7ed005f1f12b4244],
      [0x48f25673f258d28a8dec4322a27045160e08a26047eb1007352612c3386dc30b]]
    root := 0x0dbbfac05b98b1851c1782c458cfe79131855080ed941bc28c6629609814a6aa }

/-- The digests of the tree: its leaves, its inner nodes and its root. -/
theorem digests_oneEntryTree :
    (leafOf MIN_KEY SENTINEL_MARK = oneEntryTree.leaves.getD 0 0 ∧
      leafOf (oneEntryTree.keys.getD 1 0) (oneEntryTree.marks.getD 1 0) =
        oneEntryTree.leaves.getD 1 0 ∧
      leafOf MAX_KEY SENTINEL_MARK = oneEntryTree.leaves.getD 2 0) ∧
    (hashNode (oneEntryTree.leaves.getD 0 0) (oneEntryTree.leaves.getD 1 0) =
        0x7d16393d420f32fda5ab550c2a6390b248a1fdd53a642c3f096c5aa3df2c63fd ∧
      hashNode (oneEntryTree.leaves.getD 2 0) (oneEntryTree.leaves.getD 2 0) =
        0x6bdebc48add0843090eff238c07744471faeca1d7c8569be7ed005f1f12b4244 ∧
      hashNode 0x7d16393d420f32fda5ab550c2a6390b248a1fdd53a642c3f096c5aa3df2c63fd
          0x6bdebc48add0843090eff238c07744471faeca1d7c8569be7ed005f1f12b4244 =
        0x48f25673f258d28a8dec4322a27045160e08a26047eb1007352612c3386dc30b) ∧
    RosterProof.rootOf 0x48f25673f258d28a8dec4322a27045160e08a26047eb1007352612c3386dc30b 3 =
      oneEntryTree.root :=
  ⟨⟨by decide +kernel, by decide +kernel, by decide +kernel⟩,
    ⟨by decide +kernel, by decide +kernel, by decide +kernel⟩, by decide +kernel⟩

theorem buildRoster_oneEntry : buildRoster oneEntry EVM_NAMESPACE = .ok oneEntryTree := by
  obtain ⟨⟨hl₀, hl₁, hl₂⟩, ⟨hn₀, hn₁, htop⟩, hpublished⟩ := digests_oneEntryTree
  have hkeys : sortedByKey oneEntry EVM_NAMESPACE =
      oneEntry.map fun e ↦ (e, oneEntryTree.keys.getD 1 0) := by decide +kernel
  have hmarks : oneEntry.map markHash = [oneEntryTree.marks.getD 1 0] := by decide +kernel
  have hleaves : List.zipWith leafOf oneEntryTree.keys oneEntryTree.marks =
      oneEntryTree.leaves := by
    show [leafOf MIN_KEY SENTINEL_MARK, leafOf (oneEntryTree.keys.getD 1 0)
      (oneEntryTree.marks.getD 1 0), leafOf MAX_KEY SENTINEL_MARK] = _
    rw [hl₀, hl₁, hl₂]
    rfl
  have hlayers : Positional.layers hashNode 3 oneEntryTree.leaves = oneEntryTree.layers := by
    show [oneEntryTree.leaves, [hashNode (oneEntryTree.leaves.getD 0 0)
      (oneEntryTree.leaves.getD 1 0), hashNode (oneEntryTree.leaves.getD 2 0)
        (oneEntryTree.leaves.getD 2 0)],
      [hashNode (hashNode (oneEntryTree.leaves.getD 0 0) (oneEntryTree.leaves.getD 1 0))
        (hashNode (oneEntryTree.leaves.getD 2 0) (oneEntryTree.leaves.getD 2 0))]] = _
    rw [hn₀, hn₁, htop]
    rfl
  have hroot : rosterRoot ((Positional.top oneEntryTree.layers).getD 0) (.integer 3) =
      .ok oneEntryTree.root := congrArg Except.ok hpublished
  simp only [buildRoster, hkeys]
  show (do
    let layers := Positional.layers hashNode (List.zipWith leafOf oneEntryTree.keys
      (SENTINEL_MARK :: (oneEntry.map markHash ++ [SENTINEL_MARK]))).length
      (List.zipWith leafOf oneEntryTree.keys
        (SENTINEL_MARK :: (oneEntry.map markHash ++ [SENTINEL_MARK])))
    let root ← rosterRoot ((Positional.top layers).getD 0) (.integer (List.zipWith leafOf
      oneEntryTree.keys (SENTINEL_MARK :: (oneEntry.map markHash ++ [SENTINEL_MARK]))).length)
    return (⟨ROSTER_FORMAT_VERSION, oneEntry, oneEntryTree.keys,
      SENTINEL_MARK :: (oneEntry.map markHash ++ [SENTINEL_MARK]),
      List.zipWith leafOf oneEntryTree.keys
        (SENTINEL_MARK :: (oneEntry.map markHash ++ [SENTINEL_MARK])), layers, root⟩ :
        RosterTree)) = _
  have hall : SENTINEL_MARK :: (oneEntry.map markHash ++ [SENTINEL_MARK]) = oneEntryTree.marks := by
    rw [hmarks]
    rfl
  rw [hall, hleaves, show oneEntryTree.leaves.length = 3 from rfl, hlayers]
  show (do
    let root ← rosterRoot ((Positional.top oneEntryTree.layers).getD 0) (.integer 3)
    return _) = _
  rw [hroot]
  rfl

/-- What is hashed above its leaves. -/
def oneEntryPreimages : List Bytes :=
  [RosterProof.nodeBytes (oneEntryTree.leaves.getD 0 0) (oneEntryTree.leaves.getD 1 0),
    RosterProof.nodeBytes (oneEntryTree.leaves.getD 2 0) (oneEntryTree.leaves.getD 2 0),
    RosterProof.nodeBytes 0x7d16393d420f32fda5ab550c2a6390b248a1fdd53a642c3f096c5aa3df2c63fd
      0x6bdebc48add0843090eff238c07744471faeca1d7c8569be7ed005f1f12b4244,
    RosterProof.rootBytes 0x48f25673f258d28a8dec4322a27045160e08a26047eb1007352612c3386dc30b 3]

theorem collisionFree_oneEntry : CollisionFree keccak256 {b | b ∈ oneEntryPreimages} := by
  obtain ⟨-, ⟨hn₀, hn₁, htop⟩, hpublished⟩ := digests_oneEntryTree
  have hnodup : (oneEntryPreimages.map keccak256).Nodup := by
    show [hashNode (oneEntryTree.leaves.getD 0 0) (oneEntryTree.leaves.getD 1 0),
      hashNode (oneEntryTree.leaves.getD 2 0) (oneEntryTree.leaves.getD 2 0),
      hashNode 0x7d16393d420f32fda5ab550c2a6390b248a1fdd53a642c3f096c5aa3df2c63fd
        0x6bdebc48add0843090eff238c07744471faeca1d7c8569be7ed005f1f12b4244,
      RosterProof.rootOf 0x48f25673f258d28a8dec4322a27045160e08a26047eb1007352612c3386dc30b
        3].Nodup
    rw [hn₀, hn₁, htop, hpublished]
    decide
  exact fun a ha b hb hab ↦ List.inj_on_of_nodup_map hnodup ha hb hab

theorem preimages_oneEntryTree : oneEntryTree.preimages ⊆ {b | b ∈ oneEntryPreimages} := by
  have hpairs : ((Positional.layerPairs hashNode 3 oneEntryTree.leaves).all fun p ↦
      decide (RosterProof.nodeBytes p.1 p.2 ∈ oneEntryPreimages)) = true := by decide +kernel
  rintro b (⟨p, hp, rfl⟩ | ⟨top, htop, rfl⟩)
  · have h := List.all_eq_true.1 hpairs p hp
    rwa [decide_eq_true_eq] at h
  · obtain rfl : _ = top := Option.some.inj htop
    decide +kernel

/-- The proof of the last leaf, the sibling of itself. -/
def oneEntryProof : RosterProof.Inclusion :=
  ⟨2, 3, [oneEntryTree.leaves.getD 2 0,
    0x7d16393d420f32fda5ab550c2a6390b248a1fdd53a642c3f096c5aa3df2c63fd]⟩

theorem climbPreimages_oneEntryProof :
    climbPreimages (oneEntryTree.leaves.getD 2 0) 2 3 oneEntryProof.siblings ⊆
      {b | b ∈ oneEntryPreimages} := by
  have hpairs : ((Positional.climbPairs hashNode oneEntryProof.siblings
      (oneEntryTree.leaves.getD 2 0) 2).all fun p ↦
        decide (RosterProof.nodeBytes p.1 p.2 ∈ oneEntryPreimages)) = true := by decide +kernel
  have hend : RosterProof.rootBytes (Positional.climbEnd hashNode oneEntryProof.siblings
      (oneEntryTree.leaves.getD 2 0) 2) (BitVec.ofNat 256 3) ∈ oneEntryPreimages := by
    decide +kernel
  rintro b (⟨p, hp, rfl⟩ | rfl)
  · have h := List.all_eq_true.1 hpairs p hp
    rwa [decide_eq_true_eq] at h
  · exact hend

/-- The odd tail is included, and both verifiers say so. -/
theorem inclusion_accepted_oneEntry :
    verifyInclusion oneEntryTree.root (oneEntryTree.leaves.getD 2 0)
      ⟨.integer 2, .integer 3, oneEntryProof.siblings⟩ = true ∧
    RosterProof.verifyInclusion oneEntryTree.root (oneEntryTree.leaves.getD 2 0) oneEntryProof =
      true := by
  have hfree := CollisionFree.mono collisionFree_oneEntry
    (Set.union_subset preimages_oneEntryTree climbPreimages_oneEntryProof)
  have hincludes : oneEntryTree.Includes (oneEntryTree.leaves.getD 2 0) 2 3
      oneEntryProof.siblings := ⟨rfl, by decide, rfl, by decide +kernel⟩
  obtain ⟨hoff, hon, -⟩ := inclusion_accepted_iff buildRoster_oneEntry
    (oneEntryTree.leaves.getD 2 0) ⟨.integer 2, .integer 3, oneEntryProof.siblings⟩ hfree
    oneEntryProof hfree
  exact ⟨hoff.2 ⟨2, 3, rfl, rfl, hincludes⟩, hon.2 hincludes⟩

end Pipeline

end Proofmark
