import Mathlib.Data.List.GetD
import Mathlib.Data.Option.Basic
import Mathlib.Order.Basic

/-!
# Merkle trees over a commutative node function

A layer is a list; the next layer pairs neighbours and carries an odd tail up as it is. Where the
node function does not depend on the order of its arguments, a proof needs no positions: the
siblings on the way from an element to the top, folded onto the element, give the top
(`foldl_path`).

Conversely, whatever is folded onto an element to give something of the tree, the element was in
the tree, as long as the node function tells the pairs that were hashed apart, up to their order,
and gives no leaf (`mem_of_foldl`). Proofs have no length to check: the only thing that ends the
descent is an element that is no node.
-/

namespace Commutative

variable {α : Type*} (node : α → α → α)

/-- The layer above. -/
def pairUp : List α → List α
  | a :: b :: l => node a b :: pairUp l
  | [a] => [a]
  | [] => []

/-- The last layer. `fuel` bounds the number of layers above. -/
def climb : ℕ → List α → List α
  | 0, l => l
  | fuel + 1, l => if l.length ≤ 1 then l else climb fuel (pairUp node l)

/-- The index of the other element of the pair an index belongs to. -/
def partner (i : ℕ) : ℕ :=
  if i % 2 = 0 then i + 1 else i - 1

/-- The siblings on the way from an index to the top. An odd tail has none. -/
def path : ℕ → List α → ℕ → List α
  | 0, _, _ => []
  | fuel + 1, l, i =>
    if l.length ≤ 1 then [] else l[partner i]?.toList ++ path fuel (pairUp node l) (i / 2)

theorem length_pairUp : ∀ l : List α, (pairUp node l).length = (l.length + 1) / 2
  | a :: b :: l => by
    rw [pairUp, List.length_cons, length_pairUp l, List.length_cons, List.length_cons]
    omega
  | [_] => by simp [pairUp]
  | [] => by simp [pairUp]

/-- A pair goes up as its node, an odd tail as itself. -/
theorem getElem?_pairUp : ∀ (l : List α) (i : ℕ), (pairUp node l)[i]? =
    l[2 * i]?.map fun a ↦ (l[2 * i + 1]?.map (node a)).getD a
  | a :: b :: l, 0 => rfl
  | a :: b :: l, i + 1 => by
    rw [pairUp, List.getElem?_cons_succ, getElem?_pairUp l i]
    rfl
  | [a], 0 => rfl
  | [a], i + 1 => by simp [pairUp, Nat.mul_succ]
  | [], i => by simp [pairUp]

variable {node}

/-- An element with its sibling folded onto it is the element above. -/
theorem getElem?_pairUp_half (hcomm : ∀ a b, node a b = node b a) {l : List α} {i : ℕ} {x : α}
    (hx : l[i]? = some x) :
    (pairUp node l)[i / 2]? = some (l[partner i]?.toList.foldl node x) := by
  rw [getElem?_pairUp]
  rcases Nat.mod_two_eq_zero_or_one i with heven | hodd
  · have hi : 2 * (i / 2) = i := by omega
    rw [hi, hx, partner, if_pos heven]
    cases l[i + 1]? <;> rfl
  · have hi : 2 * (i / 2) = i - 1 := by omega
    have hlt : i < l.length := (List.getElem?_eq_some_iff.1 hx).1
    have hprev : l[i - 1]? = some l[i - 1] := List.getElem?_eq_getElem (by omega)
    rw [hi, Nat.sub_add_cancel (by omega), hx, hprev, partner, if_neg (by omega), hprev]
    show some (node l[i - 1] x) = some (node x l[i - 1])
    rw [hcomm]

theorem eq_singleton {l : List α} {i : ℕ} {x : α} (hle : l.length ≤ 1) (hx : l[i]? = some x) :
    l = [x] := by
  have hlt := (List.getElem?_eq_some_iff.1 hx).1
  obtain ⟨a, rfl⟩ := List.length_eq_one_iff.1 (show l.length = 1 by omega)
  obtain rfl : i = 0 := by simpa using hlt
  rw [List.getElem?_cons_zero] at hx
  rw [Option.some.inj hx]

/-- **The siblings of an element lead to the top.** -/
theorem foldl_path (hcomm : ∀ a b, node a b = node b a) {fuel : ℕ} {l : List α} {i : ℕ} {x : α}
    (hfuel : l.length ≤ fuel + 1) (hx : l[i]? = some x) :
    climb node fuel l = [(path node fuel l i).foldl node x] := by
  induction fuel generalizing l i x with
  | zero => exact eq_singleton hfuel hx
  | succ fuel ih =>
    rw [climb, path]
    split
    case isTrue hle => exact eq_singleton hle hx
    case isFalse =>
      rw [List.foldl_append]
      refine ih ?_ (getElem?_pairUp_half hcomm hx)
      rw [length_pairUp]
      omega

/-! ### Descent -/

variable (node)

/-- The neighbours that are paired. -/
def pairs : List α → List (α × α)
  | a :: b :: l => (a, b) :: pairs l
  | _ => []

/-- The pairs of all layers. -/
def layerPairs : ℕ → List α → List (α × α)
  | 0, _ => []
  | fuel + 1, l => if l.length ≤ 1 then [] else pairs l ++ layerPairs fuel (pairUp node l)

/-- The pairs on the way of a proof. -/
def foldPairs : List α → α → List (α × α)
  | [], _ => []
  | y :: proof, x => (x, y) :: foldPairs proof (node x y)

/-- Of the first layer, or a node above it. -/
def InTree (fuel : ℕ) (l : List α) (x : α) : Prop :=
  x ∈ l ∨ ∃ p ∈ layerPairs node fuel l, x = node p.1 p.2

theorem mem_of_mem_pairs {p : α × α} : ∀ {l : List α}, p ∈ pairs l → p.1 ∈ l ∧ p.2 ∈ l
  | a :: b :: l, h => by
    rcases List.mem_cons.1 h with rfl | h
    · exact ⟨List.mem_cons_self, List.mem_cons_of_mem _ List.mem_cons_self⟩
    · obtain ⟨h₁, h₂⟩ := mem_of_mem_pairs h
      exact ⟨List.mem_cons_of_mem _ (List.mem_cons_of_mem _ h₁),
        List.mem_cons_of_mem _ (List.mem_cons_of_mem _ h₂)⟩

theorem mem_pairUp {x : α} : ∀ {l : List α}, x ∈ pairUp node l →
    x ∈ l ∨ ∃ p ∈ pairs l, x = node p.1 p.2
  | a :: b :: l, h => by
    rcases List.mem_cons.1 h with rfl | h
    · exact .inr ⟨(a, b), List.mem_cons_self, rfl⟩
    · rcases mem_pairUp h with h | ⟨p, hp, hx⟩
      · exact .inl (List.mem_cons_of_mem _ (List.mem_cons_of_mem _ h))
      · exact .inr ⟨p, List.mem_cons_of_mem _ hp, hx⟩
  | [_], h => .inl h

variable {node}

theorem InTree.of_pairUp {fuel : ℕ} {l : List α} {x : α} (hlength : ¬l.length ≤ 1)
    (h : InTree node fuel (pairUp node l) x) : InTree node (fuel + 1) l x := by
  have hpairs : layerPairs node (fuel + 1) l = pairs l ++ layerPairs node fuel (pairUp node l) :=
    if_neg hlength
  unfold InTree
  rw [hpairs]
  rcases h with h | ⟨p, hp, hx⟩
  · exact (mem_pairUp node h).imp_right fun ⟨p, hp, hx⟩ ↦ ⟨p, List.mem_append_left _ hp, hx⟩
  · exact .inr ⟨p, List.mem_append_right _ hp, hx⟩

theorem InTree.of_mem_climb {fuel : ℕ} {l : List α} {x : α} (h : x ∈ climb node fuel l) :
    InTree node fuel l x := by
  induction fuel generalizing l with
  | zero => exact .inl h
  | succ fuel ih =>
    rw [climb] at h
    split at h
    case isTrue => exact .inl h
    case isFalse hlength => exact .of_pairUp hlength (ih h)

/-- What is hashed in the tree is in the tree. -/
theorem InTree.of_mem_layerPairs {fuel : ℕ} {l : List α} {p : α × α}
    (h : p ∈ layerPairs node fuel l) : InTree node fuel l p.1 ∧ InTree node fuel l p.2 := by
  induction fuel generalizing l with
  | zero => exact absurd h List.not_mem_nil
  | succ fuel ih =>
    rw [layerPairs] at h
    split at h
    case isTrue => exact absurd h List.not_mem_nil
    case isFalse hlength =>
      rcases List.mem_append.1 h with h | h
      · exact (mem_of_mem_pairs h).imp .inl .inl
      · exact (ih h).imp (.of_pairUp hlength) (.of_pairUp hlength)

/-- **Descent.** What leads to an element of the tree is in the tree. -/
theorem InTree.of_foldl {fuel : ℕ} {l proof : List α} {x : α}
    (hnode : ∀ p ∈ foldPairs node proof x, ∀ q ∈ layerPairs node fuel l,
      node p.1 p.2 = node q.1 q.2 → p.1 = q.1 ∨ p.1 = q.2)
    (hleaf : ∀ p ∈ foldPairs node proof x, node p.1 p.2 ∉ l)
    (h : InTree node fuel l (proof.foldl node x)) : InTree node fuel l x := by
  induction proof generalizing x with
  | nil => exact h
  | cons y proof ih =>
    have habove : InTree node fuel l (node x y) :=
      ih (fun p hp ↦ hnode p (List.mem_cons_of_mem _ hp))
        (fun p hp ↦ hleaf p (List.mem_cons_of_mem _ hp)) h
    rcases habove with hmem | ⟨q, hq, heq⟩
    · exact absurd hmem (hleaf (x, y) List.mem_cons_self)
    · obtain ⟨h₁, h₂⟩ := InTree.of_mem_layerPairs hq
      rcases hnode (x, y) List.mem_cons_self q hq heq with rfl | rfl
      · exact h₁
      · exact h₂

/-- **An element that is no node is a leaf**, if a proof leads from it to the top. -/
theorem mem_of_foldl {fuel : ℕ} {l proof : List α} {x : α}
    (hnode : ∀ p ∈ foldPairs node proof x, ∀ q ∈ layerPairs node fuel l,
      node p.1 p.2 = node q.1 q.2 → p.1 = q.1 ∨ p.1 = q.2)
    (hleaf : ∀ p ∈ foldPairs node proof x, node p.1 p.2 ∉ l)
    (hx : ∀ q ∈ layerPairs node fuel l, x ≠ node q.1 q.2)
    (h : proof.foldl node x ∈ climb node fuel l) : x ∈ l := by
  rcases InTree.of_foldl hnode hleaf (.of_mem_climb h) with hmem | ⟨q, hq, heq⟩
  · exact hmem
  · exact absurd heq (hx q hq)

end Commutative
