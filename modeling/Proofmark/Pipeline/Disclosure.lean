import Proofmark.Pipeline.Claims

/-!
# Selective disclosure

A claim is disclosed with the siblings of its leaf. Leaves are sorted, pairs are sorted again when
they are hashed, an odd tail goes up as it is, and a proof has neither a length nor positions; what
tells a leaf from a node is that its preimage is longer.

`disclosure_sound_complete`: every claim of a list opens against the root of the list, and nothing
else does.
-/

open Evm

namespace Proofmark.Pipeline

/-! ### What is hashed -/

/-- What `hashPair` hashes. -/
def pairBytes (p : Bytes32 × Bytes32) : Bytes :=
  if p.1 ≤ p.2 then wordBytes p.1 ++ wordBytes p.2 else wordBytes p.2 ++ wordBytes p.1

/-- What is hashed to build the tree of some claims. -/
def treePreimages (claims : List Claim) : Set Bytes :=
  {b | (∃ c ∈ claims, b = c.encode) ∨ ∃ leaves, claims.mapM claimLeaf = some leaves ∧
    ∃ p ∈ Commutative.layerPairs hashPair leaves.length (sortedLeaves leaves), b = pairBytes p}

/-- What is hashed to verify a disclosure. -/
def proofPreimages (c : Claim) (proof : List Bytes32) : Set Bytes :=
  {b | b = c.encode ∨ ∃ leaf, claimLeaf c = some leaf ∧
    ∃ p ∈ Commutative.foldPairs hashPair proof leaf, b = pairBytes p}

theorem hashPair_eq (a b : Bytes32) : hashPair a b = keccak256 (pairBytes (a, b)) := by
  unfold hashPair pairBytes
  split <;> rfl

theorem length_pairBytes (p : Bytes32 × Bytes32) : (pairBytes p).length = 64 := by
  unfold pairBytes
  split <;> simp [length_wordBytes]

/-- A pair is known from what is hashed of it, up to its order. -/
theorem fst_of_pairBytes {p q : Bytes32 × Bytes32} (h : pairBytes p = pairBytes q) :
    p.1 = q.1 ∨ p.1 = q.2 := by
  unfold pairBytes at h
  split at h <;> split at h
  · exact .inl (wordBytes_append_inj h).1
  · exact .inr (wordBytes_append_inj h).1
  · exact .inr (wordBytes_injective (wordBytes_append_inj h).2)
  · exact .inl (wordBytes_injective (wordBytes_append_inj h).2)

theorem claimLeaf_eq_some {c : Claim} {leaf : Bytes32} (h : claimLeaf c = some leaf) :
    leaf = keccak256 c.encode := by
  unfold claimLeaf at h
  split at h
  · exact (Option.some.inj h).symm
  · cases h

theorem mem_mapM {claims : List Claim} {leaves : List Bytes32} {leaf : Bytes32}
    (h : claims.mapM claimLeaf = some leaves) :
    leaf ∈ leaves ↔ ∃ c ∈ claims, claimLeaf c = some leaf := by
  induction claims generalizing leaves with
  | nil =>
    obtain rfl : [] = leaves := Option.some.inj h
    simp
  | cons c claims ih =>
    rw [List.mapM_cons] at h
    obtain ⟨first, hfirst, h⟩ := Option.bind_eq_some_iff.1 h
    obtain ⟨rest, hrest, h⟩ := Option.bind_eq_some_iff.1 h
    obtain rfl := Option.some.inj h
    rw [List.mem_cons, ih hrest, List.exists_mem_cons_iff, hfirst, Option.some.injEq, eq_comm]

/-- Every claim has a leaf, where the leaves of all are computed. -/
theorem exists_leaf {claims : List Claim} {leaves : List Bytes32}
    (h : claims.mapM claimLeaf = some leaves) {c : Claim} (hc : c ∈ claims) :
    ∃ leaf ∈ leaves, claimLeaf c = some leaf := by
  cases hleaf : claimLeaf c with
  | some leaf => exact ⟨leaf, (mem_mapM h).2 ⟨c, hc, hleaf⟩, rfl⟩
  | none =>
    have hnone : claims.mapM claimLeaf = none := by
      clear h
      induction claims with
      | nil => exact absurd hc List.not_mem_nil
      | cons d claims ih =>
        rw [List.mapM_cons]
        rcases List.mem_cons.1 hc with rfl | hc
        · rw [hleaf]
          rfl
        · rw [ih hc]
          cases claimLeaf d <;> rfl
    rw [hnone] at h
    cases h

theorem mem_sortedLeaves {leaves : List Bytes32} {leaf : Bytes32} :
    leaf ∈ sortedLeaves leaves ↔ leaf ∈ leaves :=
  (List.perm_insertionSort (· ≤ ·) leaves).mem_iff

/-! ### Soundness -/

/-- The root is the top of the tree. -/
theorem climb_sortedLeaves {leaves : List Bytes32} (h : leaves ≠ []) :
    Commutative.climb hashPair leaves.length (sortedLeaves leaves) = [merkleRoot leaves] := by
  have hperm := List.perm_insertionSort (· ≤ ·) leaves
  obtain ⟨leaf, hleaf⟩ := List.exists_mem_of_ne_nil _ h
  have hget : (sortedLeaves leaves)[(sortedLeaves leaves).idxOf leaf]? = some leaf :=
    List.getElem?_idxOf (mem_sortedLeaves.2 hleaf)
  have hlength : (sortedLeaves leaves).length ≤ leaves.length + 1 := by
    rw [sortedLeaves, hperm.length_eq]
    omega
  rw [merkleRoot, Commutative.foldl_path hashPair_comm hlength hget]
  rfl

/-- **Whatever leads to the root is the leaf of a claim.** -/
theorem exists_claim_of_foldl {claims : List Claim} {leaves proof : List Bytes32} {c : Claim}
    {leaf : Bytes32} (hleaves : claims.mapM claimLeaf = some leaves) (hne : leaves ≠ [])
    (hleaf : claimLeaf c = some leaf)
    (hfree : CollisionFree keccak256 (treePreimages claims ∪ proofPreimages c proof))
    (h : proof.foldl hashPair leaf = merkleRoot leaves) : ∃ d ∈ claims, claimLeaf d = some leaf := by
  have hencode : c.encode ∈ treePreimages claims ∪ proofPreimages c proof := .inr (.inl rfl)
  have htree : ∀ q ∈ Commutative.layerPairs hashPair leaves.length (sortedLeaves leaves),
      pairBytes q ∈ treePreimages claims ∪ proofPreimages c proof :=
    fun q hq ↦ .inl (.inr ⟨leaves, hleaves, q, hq, rfl⟩)
  have hproof : ∀ p ∈ Commutative.foldPairs hashPair proof leaf,
      pairBytes p ∈ treePreimages claims ∪ proofPreimages c proof :=
    fun p hp ↦ .inr (.inr ⟨leaf, hleaf, p, hp, rfl⟩)
  -- a claim's preimage is longer than a pair's
  have hapart : ∀ (d : Claim) (p : Bytes32 × Bytes32),
      d.encode ∈ treePreimages claims ∪ proofPreimages c proof →
      pairBytes p ∈ treePreimages claims ∪ proofPreimages c proof →
      keccak256 d.encode ≠ keccak256 (pairBytes p) := by
    intro d p hd hp heq
    have hlength := d.length_encode
    rw [hfree.eq hd hp heq, length_pairBytes] at hlength
    exact lt_irrefl _ hlength
  have hclimb : proof.foldl hashPair leaf ∈
      Commutative.climb hashPair leaves.length (sortedLeaves leaves) := by
    rw [climb_sortedLeaves hne, h]
    exact List.mem_cons_self
  have hmem : leaf ∈ sortedLeaves leaves := by
    refine Commutative.mem_of_foldl ?_ ?_ ?_ hclimb
    · intro p hp q hq heq
      rw [hashPair_eq, hashPair_eq] at heq
      exact fst_of_pairBytes (hfree.eq (hproof p hp) (htree q hq) heq)
    · intro p hp hmem
      obtain ⟨d, hd, hdleaf⟩ := (mem_mapM hleaves).1 (mem_sortedLeaves.1 hmem)
      refine hapart d p (.inl (.inl ⟨d, hd, rfl⟩)) (hproof p hp) ?_
      rw [← claimLeaf_eq_some hdleaf, hashPair_eq]
    · intro q hq heq
      refine hapart c q hencode (htree q hq) ?_
      rw [← claimLeaf_eq_some hleaf, heq, hashPair_eq]
  exact (mem_mapM hleaves).1 (mem_sortedLeaves.1 hmem)

/-! ### The roots as texts -/

theorem ofWord_injective : Function.Injective Text.ofWord := fun v w h ↦ by
  rw [← Text.toWord_ofWord v, h, Text.toWord_ofWord]

theorem verifyProof_ofWord {root leaf : Bytes32} {proof : List Bytes32} :
    verifyProof (Text.ofWord root) leaf proof = true ↔ proof.foldl hashPair leaf = root := by
  have hlower : Text.lower (Text.ofWord root) = Text.ofWord root := Text.lower_ofBytes _
  rw [verifyProof, hlower, decide_eq_true_eq, ofWord_injective.eq_iff]

theorem verifyDisclosure_eq_true {root : Bytes32} {c : Claim} {proof : List Bytes32} :
    verifyDisclosure (Text.ofWord root) c proof = true ↔
      ∃ leaf, claimLeaf c = some leaf ∧ proof.foldl hashPair leaf = root := by
  rw [verifyDisclosure, Option.any_eq_true]
  simp only [verifyProof_ofWord]

/-! ### The claim's root and its openings -/

/-- What a root is to its claims. -/
structure Disclosure (claims : List Claim) (root : Bytes32) : Prop where
  /-- every key opens, to the first claim of that name -/
  complete (key : Text) (h : ∃ c ∈ claims, c.key = key) :
    ∃ c proof, discloseClaim claims key = some (c, proof) ∧ c ∈ claims ∧ c.key = key ∧
      verifyDisclosure (Text.ofWord root) c proof = true
  /-- whatever opens is a claim of the list -/
  sound (c : Claim) (hc : c.Held) (proof : List Bytes32)
    (hfree : CollisionFree keccak256 (treePreimages claims ∪ proofPreimages c proof))
    (h : verifyDisclosure (Text.ofWord root) c proof = true) :
    ∃ d ∈ claims, claimLeaf d = claimLeaf c ∧ d.key = c.key ∧ d.value = c.value ∧
      Text.toWord d.salt = Text.toWord c.salt

/-- **Disclosure is sound and complete.** -/
theorem disclosure_sound_complete {claims : List Claim} {root : Bytes32} (hne : claims ≠ [])
    (hheld : ∀ c ∈ claims, c.Held) (hroot : claimsRoot claims = some root) :
    Disclosure claims root := by
  obtain ⟨leaves, hleaves, rfl⟩ := Option.map_eq_some_iff.1 hroot
  refine ⟨fun key hkey ↦ ?_, fun c hc proof hfree h ↦ ?_⟩
  · obtain ⟨c, hfind⟩ : ∃ c, claims.find? (fun c ↦ c.key = key) = some c := by
      rw [← Option.isSome_iff_exists, List.find?_isSome]
      simpa using hkey
    have hmem : c ∈ claims := List.mem_of_find?_eq_some hfind
    have hname : c.key = key := by simpa using List.find?_some hfind
    obtain ⟨leaf, hin, hcleaf⟩ := exists_leaf hleaves hmem
    obtain ⟨proof, hproof⟩ : ∃ proof, merkleProof leaves leaf = some proof := ⟨_, if_pos hin⟩
    refine ⟨c, proof, ?_, hmem, hname, verifyDisclosure_eq_true.2 ⟨leaf, hcleaf,
      foldl_merkleProof hproof⟩⟩
    simp only [discloseClaim, hfind, hleaves, hcleaf, hproof, Option.bind_eq_bind,
      Option.bind_some]
    rfl
  · obtain ⟨leaf, hcleaf, hfold⟩ := verifyDisclosure_eq_true.1 h
    have hleavesne : leaves ≠ [] := by
      obtain ⟨d, hd⟩ := List.exists_mem_of_ne_nil _ hne
      obtain ⟨leaf', hin, -⟩ := exists_leaf hleaves hd
      exact List.ne_nil_of_mem hin
    obtain ⟨d, hd, hdleaf⟩ := exists_claim_of_foldl hleaves hleavesne hcleaf hfree hfold
    have hencode : d.encode = c.encode := by
      refine hfree.eq (.inl (.inl ⟨d, hd, rfl⟩)) (.inr (.inl rfl)) ?_
      rw [← claimLeaf_eq_some hdleaf, ← claimLeaf_eq_some hcleaf]
    exact ⟨d, hd, hdleaf.trans hcleaf.symm, Claim.encode_inj (hheld d hd) hc hencode⟩

/-- Two claims, one of them twice. -/
def sampleClaims : List Claim :=
  [⟨"dob".toList, "1990-01-01".toList, Text.ofWord 1⟩, ⟨"name".toList, "Kim".toList, Text.ofWord 2⟩,
    ⟨"dob".toList, "1990-01-01".toList, Text.ofWord 1⟩]

/-- The claims open. -/
theorem disclosure_sound_complete_sampleClaims :
    Disclosure sampleClaims (merkleRoot (sampleClaims.map fun c ↦ keccak256 c.encode)) := by
  have hheld : ∀ c ∈ sampleClaims, c.key.length < 2 ^ 53 ∧ c.value.length < 2 ^ 53 := by decide
  have hsalts : ∀ c ∈ sampleClaims, Text.isHexString c.salt 32 = true := by decide +kernel
  have hleaves : sampleClaims.mapM claimLeaf =
      some (sampleClaims.map fun c ↦ keccak256 c.encode) := by
    simp only [sampleClaims, List.forall_mem_cons] at hsalts
    simp only [sampleClaims, List.mapM_cons, List.mapM_nil, claimLeaf, hsalts.1, hsalts.2.1,
      if_true]
    rfl
  refine disclosure_sound_complete (List.cons_ne_nil _ _)
    (fun c hc ↦ ⟨(hheld c hc).1, (hheld c hc).2⟩) ?_
  rw [claimsRoot, hleaves, Option.map_some]

end Proofmark.Pipeline
