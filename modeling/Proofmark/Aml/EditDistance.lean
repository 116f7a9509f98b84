import Proofmark.Aml.Normalize
import Proofmark.Edit.Distance
import Proofmark.Numeric.Double

/-!
# Edit distance of tokens

`edit-distance.ts`. Tokens are compared by the code points of their composed form. Short tokens are
exact only and those of four or five points allow a single edit.

Two tokens within the supported edits are found through a shared signature: a deletion key for one
edit (`exists_deletionKey`), a boundary bigram for two (`exists_editGram`).
-/

open Edit (osa deletions neighbours)

namespace Proofmark.Aml

def minEditToken : ℕ := 4

def minTwoEditToken : ℕ := 6

def maxEditToken : ℕ := 64

namespace Unicode

variable (U : Unicode)

def codePoints (token : Str) : List Str :=
  points (U.nfc token)

/-- The token and the token without one of its code points; none for a token out of bounds. -/
def deletionKeys (token : Str) : List Str :=
  let chars := U.codePoints token
  if chars.length < minEditToken ∨ maxEditToken < chars.length then []
  else ((deletions chars).map List.flatten).eraseDups

def supportedEditLimit (token : Str) : ℕ :=
  let length := (U.codePoints token).length
  if length < minEditToken ∨ maxEditToken < length then 0
  else if length < minTwoEditToken then 1
  else 2

/-- The exit inside the source's loop is left out: past the first test, no row is that far beyond
the shorter token. -/
def boundedEditDistance (left right : Str) (maxDistance : ℕ) : ℕ :=
  let a := U.codePoints left
  let b := U.codePoints right
  if maxDistance < (a.length - b.length) + (b.length - a.length) then maxDistance + 1
  else min (osa a b a.length b.length) (maxDistance + 1)

/-- Boundary bigrams, between `^` and `$`. -/
def editGrams (token : Str) : List Str :=
  if U.supportedEditLimit token < 2 then []
  else ((neighbours [0x5E] (U.codePoints token ++ [[0x24]])).map fun p ↦ p.1 ++ p.2).eraseDups

def withinOneEdit (left right : Str) : Bool :=
  U.nfc left = U.nfc right ||
    (1 ≤ U.supportedEditLimit left && 1 ≤ U.supportedEditLimit right &&
      U.boundedEditDistance left right 1 ≤ 1)

def withinSupportedEdits (left right : Str) : Bool :=
  let limit := min (U.supportedEditLimit left) (U.supportedEditLimit right)
  U.nfc left = U.nfc right || (0 < limit && U.boundedEditDistance left right limit ≤ limit)

/-! ### Scores -/

/-- How alike two tokens are. -/
def tokenScore (x y : Str) : ℚ :=
  Numeric.sub 1 (Numeric.div (U.boundedEditDistance x y 2)
    (max (U.codePoints x).length (U.codePoints y).length : ℕ))

/-- A pair of tokens of two names, with its score. -/
structure TokenPair where
  left : Str
  right : Str
  score : ℚ

/-- The order in which pairs are used: the strongest first, then by their tokens. -/
def TokenPair.before (x y : TokenPair) : Bool :=
  y.score < x.score ||
    (x.score = y.score && (x.left < y.left || (x.left = y.left && x.right ≤ y.right)))

/-- Use a pair whose tokens are both unused. -/
def usePair (used : List TokenPair × ℚ) (pair : TokenPair) : List TokenPair × ℚ :=
  if used.1.any fun p ↦ p.left = pair.left || p.right = pair.right then used
  else (pair :: used.1, Numeric.add used.2 pair.score)

/-- Exact token pairs first, then the strongest unused pairs within the supported edits. -/
def editNameScore (left right : List Str) : ℚ :=
  let a := left.eraseDups
  let b := right.eraseDups
  if a = [] ∨ b = [] then 0
  else
    let exact := a.filter fun x ↦ x ∈ b
    let pairs := (a.filter fun x ↦ x ∉ b).flatMap fun x ↦
      ((b.filter fun y ↦ y ∉ a).filter fun y ↦ U.withinSupportedEdits x y).map fun y ↦
        ⟨x, y, U.tokenScore x y⟩
    let used := (pairs.mergeSort TokenPair.before).foldl usePair ([], (exact.length : ℚ))
    Numeric.div used.2 (max a.length b.length : ℕ)

/-- The unused token of `large` that is most like a token, the first of them. -/
def bestToken (token : Str) (large used : List Str) : Option (Str × ℚ) :=
  (large.filter fun y ↦ y ∉ used && U.withinSupportedEdits token y).foldl
    (fun best y ↦
      match best with
      | none => some (y, U.tokenScore token y)
      | some (x, score) =>
        if score < U.tokenScore token y then some (y, U.tokenScore token y) else some (x, score))
    none

/-- The similarity of the tokens of `small` to distinct tokens of `large`, if each has one. -/
def missingSimilarity (large : List Str) : List Str → List Str → ℚ → Option ℚ
  | [], _, similarity => some similarity
  | token :: small, used, similarity =>
    match U.bestToken token large used with
    | none => none
    | some (y, score) => missingSimilarity large small (y :: used) (Numeric.add similarity score)

/-- One missing part among names of at least two parts. -/
def missingTokenNameScore (left right : List Str) : ℚ :=
  let a := left.eraseDups
  let b := right.eraseDups
  if (a.length - b.length) + (b.length - a.length) ≠ 1 ∨ min a.length b.length < 2 then 0
  else
    let small := if a.length < b.length then a else b
    let large := if a.length < b.length then b else a
    match U.missingSimilarity large small [] 0 with
    | none => 0
    | some similarity =>
      Numeric.mul (Numeric.nearest (82 / 100)) (Numeric.div similarity small.length)

/-! ### Signatures -/

section Signatures

variable {U} {x y : Str}

theorem boundedEditDistance_comm (n : ℕ) :
    U.boundedEditDistance x y n = U.boundedEditDistance y x n := by
  simp only [boundedEditDistance]
  rw [Edit.osa_comm le_rfl le_rfl, Nat.add_comm ((U.codePoints x).length - _)]

theorem withinSupportedEdits_comm : U.withinSupportedEdits x y = U.withinSupportedEdits y x := by
  simp only [withinSupportedEdits, boundedEditDistance_comm (x := x), eq_comm (a := U.nfc x),
    min_comm (U.supportedEditLimit x)]

/-- The table's last entry is within the bound. -/
theorem boundedEditDistance_le {n : ℕ} :
    U.boundedEditDistance x y n ≤ n ↔
      osa (U.codePoints x) (U.codePoints y) (U.codePoints x).length (U.codePoints y).length ≤
        n := by
  have hedits := Edit.edits_osa (a := U.codePoints x) (b := U.codePoints y) le_rfl le_rfl
  rw [List.take_length, List.take_length] at hedits
  have hlength := hedits.length_le
  simp only [boundedEditDistance]
  split <;> omega

/-- The code points of tokens at a bounded distance are aligned at that cost. -/
theorem exists_edits {n : ℕ} (h : U.boundedEditDistance x y n ≤ n) :
    ∃ d ≤ n, Edit.Edits d (U.codePoints x) (U.codePoints y) := by
  have hedits := Edit.edits_osa (a := U.codePoints x) (b := U.codePoints y) le_rfl le_rfl
  rw [List.take_length, List.take_length] at hedits
  exact ⟨_, boundedEditDistance_le.1 h, hedits⟩

theorem supportedEditLimit_pos :
    1 ≤ U.supportedEditLimit x ↔
      minEditToken ≤ (U.codePoints x).length ∧ (U.codePoints x).length ≤ maxEditToken := by
  simp only [supportedEditLimit]
  split_ifs <;> omega

theorem supportedEditLimit_le : U.supportedEditLimit x ≤ 2 := by
  simp only [supportedEditLimit]
  split_ifs <;> omega

theorem supportedEditLimit_two (h : 2 ≤ U.supportedEditLimit x) :
    minTwoEditToken ≤ (U.codePoints x).length := by
  simp only [supportedEditLimit] at h
  split_ifs at h <;> omega

theorem mem_deletionKeys {key : Str} :
    key ∈ U.deletionKeys x ↔
      1 ≤ U.supportedEditLimit x ∧ ∃ k ∈ deletions (U.codePoints x), k.flatten = key := by
  rw [supportedEditLimit_pos]
  simp only [deletionKeys]
  split
  case isTrue h => simp only [List.not_mem_nil, false_iff]; omega
  case isFalse h =>
    rw [List.mem_eraseDups, List.mem_map]
    exact ⟨fun hk ↦ ⟨by omega, hk⟩, And.right⟩

theorem mem_editGrams {gram : Str} :
    gram ∈ U.editGrams x ↔ 2 ≤ U.supportedEditLimit x ∧
      ∃ p ∈ neighbours [0x5E] (U.codePoints x ++ [[0x24]]), p.1 ++ p.2 = gram := by
  simp only [editGrams]
  split
  case isTrue h => simp only [List.not_mem_nil, false_iff]; omega
  case isFalse h =>
    rw [List.mem_eraseDups, List.mem_map]
    exact ⟨fun hg ↦ ⟨by omega, hg⟩, And.right⟩

/-- The index finds a token from another by a signature that both have. -/
def Signed (U : Unicode) (x y : Str) : Prop :=
  ((∃ key ∈ U.deletionKeys x, key ∈ U.deletionKeys y) ∧ U.withinOneEdit x y = true) ∨
    (∃ gram ∈ U.editGrams x, gram ∈ U.editGrams y) ∧ U.withinSupportedEdits x y = true

theorem withinSupportedEdits_of_withinOneEdit (h : U.withinOneEdit x y = true) :
    U.withinSupportedEdits x y = true := by
  simp only [withinOneEdit, withinSupportedEdits, Bool.or_eq_true, Bool.and_eq_true,
    decide_eq_true_eq] at h ⊢
  refine h.imp_right fun ⟨⟨hx, hy⟩, hone⟩ ↦ ⟨by omega, ?_⟩
  exact boundedEditDistance_le.2 ((boundedEditDistance_le.1 hone).trans (by omega))

/-- **The signatures miss nothing**: within the supported edits of a token whose length is in
bounds, every token is found. -/
theorem signed_iff :
    Signed U x y ↔ 1 ≤ U.supportedEditLimit x ∧ U.withinSupportedEdits x y = true := by
  constructor
  · intro h
    rcases h with ⟨⟨key, hx, -⟩, hone⟩ | ⟨⟨gram, hx, -⟩, hwithin⟩
    · exact ⟨(mem_deletionKeys.1 hx).1, withinSupportedEdits_of_withinOneEdit hone⟩
    · exact ⟨one_le_two.trans (mem_editGrams.1 hx).1, hwithin⟩
  · intro ⟨hx, hwithin⟩
    have h := hwithin
    simp only [withinSupportedEdits, Bool.or_eq_true, Bool.and_eq_true, decide_eq_true_eq] at h
    rcases h with heq | ⟨hlimit, hdistance⟩
    · -- one composed form: the tokens have the same keys
      have hpoints : U.codePoints x = U.codePoints y := congrArg points heq
      have hkey : (U.codePoints x).flatten ∈ U.deletionKeys x :=
        mem_deletionKeys.2 ⟨hx, _, Edit.mem_deletions_self _, rfl⟩
      refine .inl ⟨⟨_, hkey, ?_⟩, by simp [withinOneEdit, heq]⟩
      rwa [deletionKeys, ← hpoints, ← deletionKeys]
    · have hy : 1 ≤ U.supportedEditLimit y := by omega
      rcases le_or_gt (U.boundedEditDistance x y 1) 1 with hone | htwo
      · obtain ⟨d, hd, hedits⟩ := exists_edits hone
        obtain ⟨k, hkx, hky⟩ := hedits.exists_shared_deletion hd
        refine .inl ⟨⟨_, mem_deletionKeys.2 ⟨hx, k, hkx, rfl⟩,
          mem_deletionKeys.2 ⟨hy, k, hky, rfl⟩⟩, ?_⟩
        simp [withinOneEdit, hx, hy, hone]
      · have hlimits : 2 ≤ U.supportedEditLimit x ∧ 2 ≤ U.supportedEditLimit y := by
          by_contra hnot
          have hmin : min (U.supportedEditLimit x) (U.supportedEditLimit y) = 1 := by omega
          rw [hmin] at hdistance
          omega
        obtain ⟨d, hd, hedits⟩ := exists_edits hdistance
        have hx' := supportedEditLimit_two hlimits.1
        have htop := supportedEditLimit_le (U := U) (x := x)
        simp only [minTwoEditToken] at hx'
        obtain ⟨p, hpx, hpy⟩ := hedits.exists_shared_pair (s := [0x5E]) (by omega) [0x24]
        exact .inr ⟨⟨_, mem_editGrams.2 ⟨hlimits.1, p, hpx, rfl⟩,
          mem_editGrams.2 ⟨hlimits.2, p, hpy, rfl⟩⟩, hwithin⟩

end Signatures

end Unicode

end Proofmark.Aml
