import Mathlib.Tactic.NormNum.Prime
import Proofmark.Circuit.Circomlib
import Proofmark.Numeric.Lucas
import Proofmark.Zk.PolicyGate

/-!
# The eligibility circuit

`kyc_policy.circom`. The circuit's assignments are records of its signals, those of its components
included, over the scalar field of the curve; its constraints are the lines of the template.
Poseidon is a function of its inputs and nothing is assumed of it.

The circuit checks an opening of a credential and computes with it: the comparisons of days and
times are made on field elements and mean the order of the numbers only because every compared
signal is decomposed as well. `satisfied_iff` says that nothing is lost and nothing is added: an
assignment of the statement's signals extends to a satisfying assignment exactly when the numbers
are what the policy asks for.
-/

open Circom

namespace Proofmark

/-! ### The field -/

/-- **The scalar field is a field.** Its order is certified from the large prime factors of its
predecessor, each of them certified the same way. -/
theorem prime_SNARK_SCALAR_FIELD : Nat.Prime SNARK_SCALAR_FIELD := by
  have h₁ : Nat.Prime 12048837557 :=
    Numeric.prime_of_certificate 34 2 [2, 2, 7, 7, 661, 93001] (by norm_num) (by decide +kernel)
      (by norm_num)
  have h₂ : Nat.Prime 5156902474397 :=
    Numeric.prime_of_certificate 43 2 ([2, 2, 107] ++ [12048837557])
      (List.forall_mem_append.2 ⟨by norm_num, List.forall_mem_singleton.2 h₁⟩)
      (by decide +kernel) (by norm_num)
  have h₃ : Nat.Prime 1670836401704629 :=
    Numeric.prime_of_certificate 51 2 ([2, 2, 3, 3, 3, 3] ++ [5156902474397])
      (List.forall_mem_append.2 ⟨by norm_num, List.forall_mem_singleton.2 h₂⟩)
      (by decide +kernel) (by norm_num)
  have h₄ : Nat.Prime 639533339 :=
    Numeric.prime_of_certificate 30 2 [2, 229, 853, 1637] (by norm_num) (by decide +kernel)
      (by norm_num)
  have h₅ : Nat.Prime 65865678001877903 :=
    Numeric.prime_of_certificate 56 5 ([2, 83, 379, 1637] ++ [639533339])
      (List.forall_mem_append.2 ⟨by norm_num, List.forall_mem_singleton.2 h₄⟩)
      (by decide +kernel) (by norm_num)
  have h₆ : Nat.Prime 13818364434197438864469338081 :=
    Numeric.prime_of_certificate 94 3 ([2, 2, 2, 2, 2, 5, 823, 1593227] ++ [65865678001877903])
      (List.forall_mem_append.2 ⟨by norm_num, List.forall_mem_singleton.2 h₅⟩)
      (by decide +kernel) (by norm_num)
  have h₇ : Nat.Prime 405928799 :=
    Numeric.prime_of_certificate 29 22 [2, 11, 3691, 4999] (by norm_num) (by decide +kernel)
      (by norm_num)
  refine Numeric.prime_of_certificate 254 5 (List.replicate 28 2 ++
    ([3, 3, 13, 29, 983, 11003, 237073] ++
      [405928799, 1670836401704629, 13818364434197438864469338081])) ?_ (by decide +kernel)
    (by norm_num [SNARK_SCALAR_FIELD])
  refine List.forall_mem_append.2 ⟨fun q hq ↦ ?_, List.forall_mem_append.2 ⟨by norm_num, ?_⟩⟩
  · rw [List.eq_of_mem_replicate hq]
    exact Nat.prime_two
  · exact List.forall_mem_cons.2 ⟨h₇, List.forall_mem_cons.2
      ⟨h₃, List.forall_mem_singleton.2 h₆⟩⟩

instance : Fact (Nat.Prime SNARK_SCALAR_FIELD) :=
  ⟨prime_SNARK_SCALAR_FIELD⟩

/-- An element of the scalar field; its `val` is the canonical integer. -/
abbrev Scalar := ZMod SNARK_SCALAR_FIELD

/-! ### The template -/

/-- The signals of `Poseidon(n)` seen from outside. -/
structure Poseidon (n : ℕ) where
  inputs : Fin n → Scalar
  out : Scalar

/-- The output is the hash of the inputs. -/
def Poseidon.Satisfied (hash : List Scalar → Scalar) {n : ℕ} (c : Poseidon n) : Prop :=
  c.out = hash (List.ofFn c.inputs)

/-- The inputs and the output of the template. -/
structure KycSignals where
  -- public policy and presentation context
  root : Scalar
  policyId : Scalar
  allowedCountryA : Scalar
  allowedCountryB : Scalar
  maxBirthDay : Scalar
  holder : Scalar
  applicationId : Scalar
  epoch : Scalar
  deadline : Scalar
  -- private credential opening and membership witness
  secret : Scalar
  country : Scalar
  birthDay : Scalar
  credentialExpiry : Scalar
  credentialId : Scalar
  siblings : Fin 2 → Scalar
  pathIndices : Fin 2 → Scalar
  nullifier : Scalar

/-- An assignment of all signals, those of the components included. -/
structure KycPolicy extends KycSignals where
  leafHash : Poseidon 6
  merkleNodes : Fin 3 → Scalar
  levelHashers : Fin 2 → Poseidon 2
  left : Fin 2 → Scalar
  right : Fin 2 → Scalar
  countryA : IsEqual SNARK_SCALAR_FIELD
  countryB : IsEqual SNARK_SCALAR_FIELD
  ageCutoff : LessEqThan SNARK_SCALAR_FIELD 32
  credentialFresh : LessEqThan SNARK_SCALAR_FIELD 64
  holderBits : Num2Bits SNARK_SCALAR_FIELD 160
  policyBits : Num2Bits SNARK_SCALAR_FIELD 64
  countryABits : Num2Bits SNARK_SCALAR_FIELD 16
  countryBBits : Num2Bits SNARK_SCALAR_FIELD 16
  countryBits : Num2Bits SNARK_SCALAR_FIELD 16
  birthBits : Num2Bits SNARK_SCALAR_FIELD 32
  cutoffBits : Num2Bits SNARK_SCALAR_FIELD 32
  credentialExpiryBits : Num2Bits SNARK_SCALAR_FIELD 64
  credentialIdBits : Num2Bits SNARK_SCALAR_FIELD 64
  epochBits : Num2Bits SNARK_SCALAR_FIELD 64
  deadlineBits : Num2Bits SNARK_SCALAR_FIELD 64
  contextHash : Poseidon 5
  nullifierHash : Poseidon 2

namespace KycPolicy

/-- A decomposition of a signal of the template. -/
structure Decomposes {n : ℕ} (c : Num2Bits SNARK_SCALAR_FIELD n) (v : Scalar) : Prop where
  satisfied : c.Satisfied
  input : c.input = v

/-- One pass of the loop over the levels of the tree. -/
structure Level (hash : List Scalar → Scalar) (w : KycPolicy) (i : Fin 2) : Prop where
  pathIndex : w.pathIndices i * (w.pathIndices i - 1) = 0
  left : w.left i = w.merkleNodes i.castSucc +
    w.pathIndices i * (w.siblings i - w.merkleNodes i.castSucc)
  right : w.right i = w.siblings i +
    w.pathIndices i * (w.merkleNodes i.castSucc - w.siblings i)
  hasher : (w.levelHashers i).Satisfied hash
  inputs : (w.levelHashers i).inputs = ![w.left i, w.right i]
  node : w.merkleNodes i.succ = (w.levelHashers i).out

/-- The constraints of the template, line by line. -/
structure Satisfied (hash : List Scalar → Scalar) (w : KycPolicy) : Prop where
  leafHash : w.leafHash.Satisfied hash
  leafInputs : w.leafHash.inputs =
    ![w.secret, w.holder, w.country, w.birthDay, w.credentialExpiry, w.credentialId]
  leafNode : w.merkleNodes 0 = w.leafHash.out
  level : ∀ i, Level hash w i
  root : w.merkleNodes 2 = w.root
  countryA : w.countryA.Satisfied
  countryAIn0 : w.countryA.in0 = w.country
  countryAIn1 : w.countryA.in1 = w.allowedCountryA
  countryB : w.countryB.Satisfied
  countryBIn0 : w.countryB.in0 = w.country
  countryBIn1 : w.countryB.in1 = w.allowedCountryB
  countryAllowed : w.countryA.out + w.countryB.out - w.countryA.out * w.countryB.out = 1
  ageCutoff : w.ageCutoff.Satisfied
  ageIn0 : w.ageCutoff.in0 = w.birthDay
  ageIn1 : w.ageCutoff.in1 = w.maxBirthDay
  ageOut : w.ageCutoff.out = 1
  credentialFresh : w.credentialFresh.Satisfied
  freshIn0 : w.credentialFresh.in0 = w.deadline
  freshIn1 : w.credentialFresh.in1 = w.credentialExpiry
  freshOut : w.credentialFresh.out = 1
  holderBits : Decomposes w.holderBits w.holder
  policyBits : Decomposes w.policyBits w.policyId
  countryABits : Decomposes w.countryABits w.allowedCountryA
  countryBBits : Decomposes w.countryBBits w.allowedCountryB
  countryBits : Decomposes w.countryBits w.country
  birthBits : Decomposes w.birthBits w.birthDay
  cutoffBits : Decomposes w.cutoffBits w.maxBirthDay
  credentialExpiryBits : Decomposes w.credentialExpiryBits w.credentialExpiry
  credentialIdBits : Decomposes w.credentialIdBits w.credentialId
  epochBits : Decomposes w.epochBits w.epoch
  deadlineBits : Decomposes w.deadlineBits w.deadline
  contextHash : w.contextHash.Satisfied hash
  contextInputs : w.contextHash.inputs =
    ![w.holder, w.applicationId, w.policyId, w.epoch, w.deadline]
  nullifierHash : w.nullifierHash.Satisfied hash
  nullifierInputs : w.nullifierHash.inputs = ![w.secret, w.contextHash.out]
  nullifier : w.nullifier = w.nullifierHash.out

end KycPolicy

/-! ### The statement -/

namespace KycSignals

variable (hash : List Scalar → Scalar) (x : KycSignals)

/-- The credential as the tree holds it. -/
def leaf : Scalar :=
  hash [x.secret, x.holder, x.country, x.birthDay, x.credentialExpiry, x.credentialId]

/-- The node above `node` at level `i`; the direction bit says on which side the sibling is. -/
def parent (i : Fin 2) (node : Scalar) : Scalar :=
  if x.pathIndices i = 0 then hash [node, x.siblings i] else hash [x.siblings i, node]

/-- The context a nullifier is for. -/
def context : Scalar :=
  hash [x.holder, x.applicationId, x.policyId, x.epoch, x.deadline]

/-- **The statement of the circuit**, about canonical integers. -/
structure Eligible : Prop where
  country : x.country.val = x.allowedCountryA.val ∨ x.country.val = x.allowedCountryB.val
  birthDay_le : x.birthDay.val ≤ x.maxBirthDay.val
  maxBirthDay_lt : x.maxBirthDay.val < 2 ^ 32
  deadline_le : x.deadline.val ≤ x.credentialExpiry.val
  credentialExpiry_lt : x.credentialExpiry.val < 2 ^ 64
  holder_lt : x.holder.val < 2 ^ 160
  policyId_lt : x.policyId.val < 2 ^ 64
  epoch_lt : x.epoch.val < 2 ^ 64
  credentialId_lt : x.credentialId.val < 2 ^ 64
  country_lt : x.country.val < 2 ^ 16
  allowedCountryA_lt : x.allowedCountryA.val < 2 ^ 16
  allowedCountryB_lt : x.allowedCountryB.val < 2 ^ 16
  pathIndices : ∀ i, x.pathIndices i = 0 ∨ x.pathIndices i = 1
  root : x.parent hash 1 (x.parent hash 0 (x.leaf hash)) = x.root
  nullifier : x.nullifier = hash [x.secret, x.context hash]

end KycSignals

namespace KycPolicy

variable {hash : List Scalar → Scalar}

/-! ### Soundness -/

/-- The widths the circuit uses fit the field. -/
theorem two_pow_le {n : ℕ} (hn : n ≤ 253) : 2 ^ n ≤ SNARK_SCALAR_FIELD :=
  (Nat.pow_le_pow_right (by norm_num) hn).trans (by norm_num [SNARK_SCALAR_FIELD])

theorem Decomposes.val_lt {n : ℕ} {c : Num2Bits SNARK_SCALAR_FIELD n} {v : Scalar}
    (h : Decomposes c v) (hn : n ≤ 253) : v.val < 2 ^ n := by
  rw [← h.input]
  exact Num2Bits.val_lt (two_pow_le hn) h.satisfied

/-- A boolean direction bit puts the node on its side. -/
theorem Level.node_eq {w : KycPolicy} {i : Fin 2} (h : Level hash w i) :
    w.merkleNodes i.succ = w.parent hash i (w.merkleNodes i.castSucc) := by
  have hnode : w.merkleNodes i.succ = hash [w.left i, w.right i] := by
    rw [h.node, h.hasher, h.inputs]
    rfl
  rw [hnode, h.left, h.right, KycSignals.parent]
  rcases isBit_iff.1 h.pathIndex with hbit | hbit
  · simp [hbit]
  · simp [hbit]

/-- The disjunction of two bits, as the circuit writes it. -/
theorem or_bits {p : ℕ} [Fact p.Prime] (a b : Prop) [Decidable a] [Decidable b] :
    (if a then 1 else 0) + (if b then 1 else 0) - (if a then 1 else 0) * (if b then 1 else 0) =
      (1 : ZMod p) ↔ a ∨ b := by
  by_cases ha : a <;> by_cases hb : b <;> simp [ha, hb]

/-- **Soundness**: a satisfying assignment is eligible. -/
theorem Satisfied.eligible {w : KycPolicy} (h : w.Satisfied hash) : w.Eligible hash := by
  have hbirth := h.birthBits.val_lt (by norm_num)
  have hcutoff := h.cutoffBits.val_lt (by norm_num)
  have hdeadline := h.deadlineBits.val_lt (by norm_num)
  have hexpiry := h.credentialExpiryBits.val_lt (by norm_num)
  refine ⟨?_, ?_, hcutoff, ?_, hexpiry, h.holderBits.val_lt (by norm_num),
    h.policyBits.val_lt (by norm_num), h.epochBits.val_lt (by norm_num),
    h.credentialIdBits.val_lt (by norm_num), h.countryBits.val_lt (by norm_num),
    h.countryABits.val_lt (by norm_num), h.countryBBits.val_lt (by norm_num),
    fun i ↦ isBit_iff.1 (h.level i).pathIndex, ?_, ?_⟩
  · have hallowed := h.countryAllowed
    rw [IsEqual.out_eq h.countryA, IsEqual.out_eq h.countryB, h.countryAIn0, h.countryAIn1,
      h.countryBIn0, h.countryBIn1, or_bits] at hallowed
    exact hallowed.imp (congrArg ZMod.val) (congrArg ZMod.val)
  · have hout := LessEqThan.out_eq h.ageCutoff (two_pow_le (by norm_num)) (by rwa [h.ageIn0])
      (by rwa [h.ageIn1])
    rw [h.ageOut, h.ageIn0, h.ageIn1] at hout
    by_contra hgt
    rw [if_neg hgt] at hout
    exact one_ne_zero hout
  · have hout := LessEqThan.out_eq h.credentialFresh (two_pow_le (by norm_num))
      (by rwa [h.freshIn0]) (by rwa [h.freshIn1])
    rw [h.freshOut, h.freshIn0, h.freshIn1] at hout
    by_contra hgt
    rw [if_neg hgt] at hout
    exact one_ne_zero hout
  · have hleaf : w.merkleNodes 0 = w.leaf hash := by
      rw [h.leafNode, h.leafHash, h.leafInputs]
      rfl
    calc w.parent hash 1 (w.parent hash 0 (w.leaf hash))
        = w.parent hash 1 (w.parent hash 0 (w.merkleNodes 0)) := by rw [hleaf]
      _ = w.parent hash 1 (w.merkleNodes 1) := congrArg _ (h.level 0).node_eq.symm
      _ = w.merkleNodes 2 := (h.level 1).node_eq.symm
      _ = w.root := h.root
  · have hcontext : w.contextHash.out = w.context hash := by
      rw [h.contextHash, h.contextInputs]
      rfl
    rw [h.nullifier, h.nullifierHash, h.nullifierInputs, ← hcontext]
    rfl

/-! ### Completeness -/

/-- The nodes on the path, from the leaf up. -/
def nodes (hash : List Scalar → Scalar) (x : KycSignals) : Fin 3 → Scalar :=
  ![x.leaf hash, x.parent hash 0 (x.leaf hash),
    x.parent hash 1 (x.parent hash 0 (x.leaf hash))]

/-- The children of the node above level `i`, as the circuit selects them. -/
def leftOf (hash : List Scalar → Scalar) (x : KycSignals) (i : Fin 2) : Scalar :=
  nodes hash x i.castSucc + x.pathIndices i * (x.siblings i - nodes hash x i.castSucc)

def rightOf (hash : List Scalar → Scalar) (x : KycSignals) (i : Fin 2) : Scalar :=
  x.siblings i + x.pathIndices i * (nodes hash x i.castSucc - x.siblings i)

/-- The assignment the prover computes. -/
def assign (hash : List Scalar → Scalar) (x : KycSignals) : KycPolicy where
  toKycSignals := x
  leafHash := ⟨![x.secret, x.holder, x.country, x.birthDay, x.credentialExpiry, x.credentialId],
    x.leaf hash⟩
  merkleNodes := nodes hash x
  levelHashers i := ⟨![leftOf hash x i, rightOf hash x i], nodes hash x i.succ⟩
  left := leftOf hash x
  right := rightOf hash x
  countryA := .of x.country x.allowedCountryA
  countryB := .of x.country x.allowedCountryB
  ageCutoff := .of 32 x.birthDay x.maxBirthDay
  credentialFresh := .of 64 x.deadline x.credentialExpiry
  holderBits := .of 160 x.holder
  policyBits := .of 64 x.policyId
  countryABits := .of 16 x.allowedCountryA
  countryBBits := .of 16 x.allowedCountryB
  countryBits := .of 16 x.country
  birthBits := .of 32 x.birthDay
  cutoffBits := .of 32 x.maxBirthDay
  credentialExpiryBits := .of 64 x.credentialExpiry
  credentialIdBits := .of 64 x.credentialId
  epochBits := .of 64 x.epoch
  deadlineBits := .of 64 x.deadline
  contextHash := ⟨![x.holder, x.applicationId, x.policyId, x.epoch, x.deadline], x.context hash⟩
  nullifierHash := ⟨![x.secret, x.context hash], hash [x.secret, x.context hash]⟩

theorem decomposes_of {n : ℕ} {v : Scalar} (h : v.val < 2 ^ n) :
    Decomposes (Num2Bits.of n v) v :=
  ⟨Num2Bits.satisfied_of h, rfl⟩

theorem level_assign {x : KycSignals} (h : x.Eligible hash) (i : Fin 2) :
    Level hash (assign hash x) i := by
  have hparent : nodes hash x i.succ = x.parent hash i (nodes hash x i.castSucc) := by
    fin_cases i <;> rfl
  refine ⟨isBit_iff.2 (h.pathIndices i), rfl, rfl, ?_, rfl, rfl⟩
  show nodes hash x i.succ = hash [leftOf hash x i, rightOf hash x i]
  rw [hparent, KycSignals.parent, leftOf, rightOf]
  rcases h.pathIndices i with hbit | hbit
  · simp [hbit]
  · simp [hbit]

/-- **Completeness**: an eligible opening has a satisfying assignment. -/
theorem satisfied_assign {x : KycSignals} (h : x.Eligible hash) :
    (assign hash x).Satisfied hash := by
  have hbirth : x.birthDay.val < 2 ^ 32 := h.birthDay_le.trans_lt h.maxBirthDay_lt
  have hdeadline : x.deadline.val < 2 ^ 64 := h.deadline_le.trans_lt h.credentialExpiry_lt
  have hage := LessEqThan.satisfied_of (two_pow_le (n := 33) (by norm_num)) hbirth h.maxBirthDay_lt
  have hfresh := LessEqThan.satisfied_of (two_pow_le (n := 65) (by norm_num)) hdeadline
    h.credentialExpiry_lt
  exact {
    leafHash := rfl
    leafInputs := rfl
    leafNode := rfl
    level := level_assign h
    root := h.root
    countryA := IsEqual.satisfied_of _ _
    countryAIn0 := rfl
    countryAIn1 := rfl
    countryB := IsEqual.satisfied_of _ _
    countryBIn0 := rfl
    countryBIn1 := rfl
    countryAllowed := by
      have hA := IsEqual.out_eq (IsEqual.satisfied_of x.country x.allowedCountryA)
      have hB := IsEqual.out_eq (IsEqual.satisfied_of x.country x.allowedCountryB)
      show (IsEqual.of x.country x.allowedCountryA).out +
        (IsEqual.of x.country x.allowedCountryB).out -
          (IsEqual.of x.country x.allowedCountryA).out *
            (IsEqual.of x.country x.allowedCountryB).out = 1
      rw [hA, hB]
      exact (or_bits _ _).2 (h.country.imp (ZMod.val_injective _ ·) (ZMod.val_injective _ ·))
    ageCutoff := hage
    ageIn0 := rfl
    ageIn1 := rfl
    ageOut := (LessEqThan.out_eq hage (two_pow_le (by norm_num)) hbirth h.maxBirthDay_lt).trans
      (if_pos h.birthDay_le)
    credentialFresh := hfresh
    freshIn0 := rfl
    freshIn1 := rfl
    freshOut := (LessEqThan.out_eq hfresh (two_pow_le (by norm_num)) hdeadline
      h.credentialExpiry_lt).trans (if_pos h.deadline_le)
    holderBits := decomposes_of h.holder_lt
    policyBits := decomposes_of h.policyId_lt
    countryABits := decomposes_of h.allowedCountryA_lt
    countryBBits := decomposes_of h.allowedCountryB_lt
    countryBits := decomposes_of h.country_lt
    birthBits := decomposes_of hbirth
    cutoffBits := decomposes_of h.maxBirthDay_lt
    credentialExpiryBits := decomposes_of h.credentialExpiry_lt
    credentialIdBits := decomposes_of h.credentialId_lt
    epochBits := decomposes_of h.epoch_lt
    deadlineBits := decomposes_of hdeadline
    contextHash := rfl
    contextInputs := rfl
    nullifierHash := rfl
    nullifierInputs := rfl
    nullifier := h.nullifier }

/-- **The circuit says what the statement says.** Whatever Poseidon computes, the signals of the
statement extend to a satisfying assignment exactly when they are eligible. -/
theorem satisfied_iff (hash : List Scalar → Scalar) (x : KycSignals) :
    (∃ w : KycPolicy, w.toKycSignals = x ∧ w.Satisfied hash) ↔ x.Eligible hash := by
  constructor
  · rintro ⟨w, rfl, h⟩
    exact h.eligible
  · intro h
    exact ⟨assign hash x, rfl, satisfied_assign h⟩

end KycPolicy

end Proofmark
