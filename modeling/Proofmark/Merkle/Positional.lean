import Mathlib.Data.List.GetD
import Mathlib.Data.Nat.Bitwise
import Mathlib.Data.Set.Function

/-!
# Positional Merkle trees

A layer is a list; the next layer pairs neighbours and an odd tail with itself. Positions are kept,
so an element's path upwards is determined by its index: at index `i` the partner is at `i ± 1` and
the parent at `i / 2`. The verifier climbs with a list of siblings and follows index and width.

Nothing is assumed of the node function but that it tells apart the pairs that occur in the one tree
and the one proof at hand (`Set.InjOn`). `climb_path` and `climb_sound` then say that exactly one element
climbs from an index to the top, with exactly one path.
-/

namespace Positional

variable {α : Type*}

/-! ### Layers -/

/-- Neighbours in pairs, an odd tail with itself. -/
def pairs : List α → List (α × α)
  | a :: b :: l => (a, b) :: pairs l
  | [a] => [(a, a)]
  | [] => []

/-- The layer above. -/
def pairUp (node : α → α → α) (l : List α) : List α :=
  (pairs l).map fun p ↦ node p.1 p.2

@[simp]
theorem length_pairs : ∀ l : List α, (pairs l).length = (l.length + 1) / 2
  | a :: b :: l => by
    rw [pairs, List.length_cons, length_pairs l, List.length_cons, List.length_cons]
    omega
  | [_] => by simp [pairs]
  | [] => by simp [pairs]

@[simp]
theorem length_pairUp (node : α → α → α) (l : List α) :
    (pairUp node l).length = (l.length + 1) / 2 := by
  rw [pairUp, List.length_map, length_pairs]

/-- The pair at a position starts at twice the position. -/
theorem getElem?_pairs : ∀ (l : List α) (i : ℕ),
    (pairs l)[i]? = l[2 * i]?.map fun a ↦ (a, l[2 * i + 1]?.getD a)
  | a :: b :: l, 0 => rfl
  | a :: b :: l, i + 1 => by
    rw [pairs, List.getElem?_cons_succ, getElem?_pairs l i]
    rfl
  | [a], 0 => rfl
  | [a], i + 1 => by simp [pairs, Nat.mul_succ]
  | [], i => by simp [pairs]

/-- All layers, from the leaves to the top. `fuel` bounds the number of layers above. -/
def layers (node : α → α → α) : ℕ → List α → List (List α)
  | 0, l => [l]
  | fuel + 1, l => if l.length ≤ 1 then [l] else l :: layers node fuel (pairUp node l)

/-- The pairs hashed on the way to the top. -/
def layerPairs (node : α → α → α) : ℕ → List α → List (α × α)
  | 0, _ => []
  | fuel + 1, l => if l.length ≤ 1 then [] else pairs l ++ layerPairs node fuel (pairUp node l)

/-- The first element of the last layer. -/
def top (layers : List (List α)) : Option α :=
  layers.getLast?.bind List.head?

theorem layers_of_le_one (node : α → α → α) (fuel : ℕ) {l : List α} (h : l.length ≤ 1) :
    layers node fuel l = [l] := by
  cases fuel with
  | zero => rfl
  | succ fuel => rw [layers, if_pos h]

theorem layers_succ (node : α → α → α) (fuel : ℕ) {l : List α} (h : 1 < l.length) :
    layers node (fuel + 1) l = l :: layers node fuel (pairUp node l) := by
  rw [layers, if_neg (by omega)]

theorem layers_ne_nil (node : α → α → α) (fuel : ℕ) (l : List α) : layers node fuel l ≠ [] := by
  cases fuel with
  | zero => simp [layers]
  | succ fuel =>
    rw [layers]
    split <;> simp

/-- The top of more than one element is the top of the layer above. -/
theorem top_layers_succ (node : α → α → α) {fuel : ℕ} {l : List α} (h : 1 < l.length) :
    top (layers node (fuel + 1) l) = top (layers node fuel (pairUp node l)) := by
  have hne := layers_ne_nil node fuel (pairUp node l)
  rw [layers_succ node fuel h, top, top, List.getLast?_cons, List.getLast?_eq_some_getLast hne]
  rfl

/-! ### Paths -/

/-- The index of the other element of the pair an index belongs to. -/
def partner (i : ℕ) : ℕ :=
  if i % 2 = 0 then i + 1 else i - 1

/-- The partner is the index with its last bit flipped. -/
theorem xor_one_eq_partner (i : ℕ) : i ^^^ 1 = partner i := by
  rw [partner]
  split
  case isTrue h => exact Nat.xor_one_of_even (Nat.even_iff.2 h)
  case isFalse h => exact Nat.xor_one_of_odd (Nat.odd_iff.2 (by omega))

/-- The element paired with the one at an index: its partner, or itself at an odd tail. -/
def sibling? (l : List α) (i : ℕ) : Option α :=
  l[partner i]?.or l[i]?

/-- The siblings on the way from an index to the top. -/
def path : List (List α) → ℕ → List α
  | l :: l' :: ls, i => (sibling? l i).toList ++ path (l' :: ls) (i / 2)
  | _, _ => []

theorem path_layers_succ (node : α → α → α) {fuel : ℕ} {l : List α} (h : 1 < l.length) {i : ℕ}
    {s : α} (hs : sibling? l i = some s) : path (layers node (fuel + 1) l) i =
      s :: path (layers node fuel (pairUp node l)) (i / 2) := by
  rw [layers_succ node fuel h]
  obtain ⟨l', ls, hlayers⟩ := List.exists_cons_of_ne_nil (layers_ne_nil node fuel (pairUp node l))
  rw [hlayers, path, hs]
  rfl

/-- An element and its sibling, in order of position. -/
def ordered (i : ℕ) (x s : α) : α × α :=
  if i % 2 = 0 then (x, s) else (s, x)

theorem node_ordered (node : α → α → α) (i : ℕ) (x s : α) :
    node (ordered i x s).1 (ordered i x s).2 = if i % 2 = 0 then node x s else node s x := by
  rw [ordered]
  split <;> rfl

theorem ordered_inj {i : ℕ} {x y s t : α} (h : ordered i x s = ordered i y t) : x = y ∧ s = t := by
  rw [ordered, ordered] at h
  split at h
  · exact Prod.mk.inj h
  · exact (Prod.mk.inj h).symm

/-- The element at an index and its sibling are the pair at half the index. -/
theorem getElem?_pairs_half {l : List α} {i : ℕ} {x s : α} (hx : l[i]? = some x)
    (hs : sibling? l i = some s) : (pairs l)[i / 2]? = some (ordered i x s) := by
  rw [getElem?_pairs, ordered]
  rw [sibling?, partner] at hs
  split at hs
  case isTrue heven =>
    rw [if_pos heven, show 2 * (i / 2) = i by omega, hx, Option.map_some]
    cases hnext : l[i + 1]? with
    | none => simp_all
    | some b => simp_all
  case isFalse hodd =>
    have hle : i < l.length := (List.getElem?_eq_some_iff.1 hx).1
    have hprev : l[i - 1]? = some l[i - 1] := List.getElem?_eq_getElem (by omega)
    rw [if_neg hodd, show 2 * (i / 2) = i - 1 by omega, show i - 1 + 1 = i by omega, hprev, hx]
    rw [hprev, Option.some_or] at hs
    rw [Option.map_some, Option.getD_some, Option.some.inj hs]

theorem exists_sibling {l : List α} {i : ℕ} (hi : i < l.length) : ∃ s, sibling? l i = some s := by
  rw [sibling?, List.getElem?_eq_getElem hi]
  cases l[partner i]? with
  | none => exact ⟨_, rfl⟩
  | some s => exact ⟨s, rfl⟩

/-- A path has at most as many siblings as it takes halvings to come down to one element. -/
theorem length_path_le (node : α → α → α) {fuel k : ℕ} {l : List α} (h : l.length ≤ 2 ^ k)
    (i : ℕ) : (path (layers node fuel l) i).length ≤ k := by
  induction fuel generalizing l k i with
  | zero => simp [layers, path]
  | succ fuel ih =>
    rcases Nat.lt_or_ge 1 l.length with hlength | hlength
    · obtain ⟨k, rfl⟩ : ∃ m, k = m + 1 := by
        cases k with
        | zero => simp at h; omega
        | succ k => exact ⟨k, rfl⟩
      have habove := ih (l := pairUp node l) (k := k)
        (by rw [length_pairUp]; rw [Nat.pow_succ] at h; omega) (i / 2)
      have hsibling : (sibling? l i).toList.length ≤ 1 := by
        cases sibling? l i <;> simp
      rw [layers_succ node fuel hlength]
      obtain ⟨l', ls, hls⟩ := List.exists_cons_of_ne_nil (layers_ne_nil node fuel (pairUp node l))
      rw [hls] at habove ⊢
      rw [path, List.length_append]
      omega
    · rw [layers_of_le_one node (fuel + 1) hlength]
      exact Nat.zero_le k

/-- All paths of one tree are of one length. -/
theorem length_path (node : α → α → α) (fuel : ℕ) {l : List α} {i : ℕ} (hi : i < l.length) :
    (path (layers node fuel l) i).length + 1 = (layers node fuel l).length := by
  induction fuel generalizing l i with
  | zero => simp [layers, path]
  | succ fuel ih =>
    rcases Nat.lt_or_ge 1 l.length with hlength | hlength
    · obtain ⟨s, hs⟩ := exists_sibling hi
      rw [path_layers_succ node hlength hs, layers_succ node fuel hlength, List.length_cons,
        List.length_cons, ih (by rw [length_pairUp]; omega)]
    · rw [layers_of_le_one node (fuel + 1) hlength]
      rfl

/-! ### Climbing -/

section Climb

variable [DecidableEq α] (node : α → α → α)

/-- Climb from `x` at an index of a layer of some width. `none` is a sibling too many, or one that
pads an odd tail with something else than the tail. -/
def climb : List α → α → ℕ → ℕ → Option (α × ℕ × ℕ)
  | [], x, i, width => some (x, i, width)
  | s :: ss, x, i, width =>
    if width ≤ 1 then none
    else if partner i ≥ width ∧ s ≠ x then none
    else climb ss (if i % 2 = 0 then node x s else node s x) (i / 2) (width / 2 + width % 2)

/-- The pairs hashed on the way. -/
def climbPairs : List α → α → ℕ → List (α × α)
  | [], _, _ => []
  | s :: ss, x, i =>
    ordered i x s :: climbPairs ss (node (ordered i x s).1 (ordered i x s).2) (i / 2)

/-- Where a climb ends. -/
def climbEnd : List α → α → ℕ → α
  | [], x, _ => x
  | s :: ss, x, i => climbEnd ss (node (ordered i x s).1 (ordered i x s).2) (i / 2)

variable {node}

/-- The step of a climb, on a layer and the one above. -/
theorem climb_cons {l : List α} (h : 1 < l.length) {s x : α} {ss : List α} {i : ℕ}
    (hpad : partner i ≥ l.length → s = x) : climb node (s :: ss) x i l.length =
      climb node ss (node (ordered i x s).1 (ordered i x s).2) (i / 2)
        (pairUp node l).length := by
  have hwidth : (pairUp node l).length = l.length / 2 + l.length % 2 := by
    rw [length_pairUp]
    omega
  rw [climb, if_neg (by omega), if_neg (fun hbad ↦ hbad.2 (hpad hbad.1)), hwidth, node_ordered node]

/-- One element is its own top. -/
theorem climb_path_of_le_one (fuel : ℕ) {l : List α} {i : ℕ} {x : α} (h : l.length ≤ 1)
    (hx : l[i]? = some x) : ∃ r, top (layers node fuel l) = some r ∧
      climb node (path (layers node fuel l) i) x i l.length = some (r, 0, 1) := by
  have hi := (List.getElem?_eq_some_iff.1 hx).1
  obtain ⟨y, rfl⟩ := List.length_eq_one_iff.1 (show l.length = 1 by omega)
  obtain rfl : i = 0 := by simpa using hi
  obtain rfl : y = x := by simpa using hx
  rw [layers_of_le_one node fuel h]
  exact ⟨y, rfl, rfl⟩

/-- **The path of an element climbs to the top.** -/
theorem climb_path {fuel : ℕ} {l : List α} {i : ℕ} {x : α} (hfuel : l.length ≤ fuel + 1)
    (hx : l[i]? = some x) : ∃ r, top (layers node fuel l) = some r ∧
      climb node (path (layers node fuel l) i) x i l.length = some (r, 0, 1) := by
  induction fuel generalizing l i x with
  | zero => exact climb_path_of_le_one 0 hfuel hx
  | succ fuel ih =>
    rcases Nat.lt_or_ge 1 l.length with h | h
    · obtain ⟨s, hs⟩ := exists_sibling (List.getElem?_eq_some_iff.1 hx).1
      have hpad : partner i ≥ l.length → s = x := fun hge ↦ by
        rw [sibling?, List.getElem?_eq_none hge, Option.none_or, hx] at hs
        exact (Option.some.inj hs).symm
      have hnext : (pairUp node l)[i / 2]? = some (node (ordered i x s).1 (ordered i x s).2) := by
        rw [pairUp, List.getElem?_map, getElem?_pairs_half hx hs, Option.map_some]
      obtain ⟨r, htop, hclimb⟩ := ih (by rw [length_pairUp]; omega) hnext
      refine ⟨r, (top_layers_succ node h).trans htop, ?_⟩
      rw [path_layers_succ node h hs, climb_cons h hpad, hclimb]
    · exact climb_path_of_le_one (fuel + 1) h hx

/-- A finished climb ends where `climbEnd` says. -/
theorem climbEnd_of_climb {ss : List α} {x y : α} {i width j w : ℕ}
    (h : climb node ss x i width = some (y, j, w)) : climbEnd node ss x i = y := by
  induction ss generalizing x i width with
  | nil =>
    rw [climb, Option.some.injEq, Prod.mk.injEq] at h
    exact h.1
  | cons s ss ih =>
    rw [climb] at h
    split at h
    · simp at h
    split at h
    · simp at h
    rw [climbEnd, node_ordered node]
    exact ih h

/-- A path is climbed through pairs of the tree. -/
theorem climbPairs_path_subset {fuel : ℕ} {l : List α} {i : ℕ} {x : α} (hx : l[i]? = some x) :
    climbPairs node (path (layers node fuel l) i) x i ⊆ layerPairs node fuel l := by
  induction fuel generalizing l i x with
  | zero => exact List.nil_subset _
  | succ fuel ih =>
    rcases Nat.lt_or_ge 1 l.length with h | h
    · obtain ⟨s, hs⟩ := exists_sibling (List.getElem?_eq_some_iff.1 hx).1
      have hpair := getElem?_pairs_half hx hs
      have hnext : (pairUp node l)[i / 2]? = some (node (ordered i x s).1 (ordered i x s).2) := by
        rw [pairUp, List.getElem?_map, hpair, Option.map_some]
      rw [path_layers_succ node h hs, climbPairs, layerPairs, if_neg (by omega)]
      exact List.cons_subset.2 ⟨List.mem_append_left _ (List.mem_of_getElem? hpair),
        List.subset_append_of_subset_right _ (ih hnext)⟩
    · rw [layers_of_le_one node (fuel + 1) h]
      exact List.nil_subset _

/-- A climb that ends at the top goes through the layer above. -/
theorem climb_cons_of_eq_some {l : List α} {s x r : α} {ss : List α} {i : ℕ}
    (h : climb node (s :: ss) x i l.length = some (r, 0, 1)) : 1 < l.length ∧
      climb node ss (node (ordered i x s).1 (ordered i x s).2) (i / 2)
        (pairUp node l).length = some (r, 0, 1) := by
  have hlength : 1 < l.length := by
    by_contra hle
    rw [climb, if_pos (by omega)] at h
    simp at h
  have hpad : partner i ≥ l.length → s = x := fun hge ↦ by
    by_contra hne
    rw [climb, if_neg (by omega), if_pos ⟨hge, hne⟩] at h
    simp at h
  exact ⟨hlength, climb_cons hlength hpad ▸ h⟩

/-- **Only the element at the index climbs to the top, and only with its path**, if the node function
tells apart the pairs of the tree and of the proof. -/
theorem climb_sound {fuel : ℕ} {l : List α} {ss : List α} {i : ℕ} {x r : α}
    (hfuel : l.length ≤ fuel + 1) (hi : i < l.length)
    (hinj : Set.InjOn (fun p : α × α ↦ node p.1 p.2)
      {p | p ∈ layerPairs node fuel l ∨ p ∈ climbPairs node ss x i})
    (htop : top (layers node fuel l) = some r)
    (h : climb node ss x i l.length = some (r, 0, 1)) :
    l[i]? = some x ∧ ss = path (layers node fuel l) i := by
  induction ss generalizing fuel l i x with
  | nil =>
    -- no sibling: the layer is the top
    obtain ⟨rfl, rfl, hlength⟩ : x = r ∧ i = 0 ∧ l.length = 1 := by simpa [climb] using h
    obtain ⟨y, rfl⟩ := List.length_eq_one_iff.1 hlength
    rw [layers_of_le_one node fuel hlength.le] at htop ⊢
    obtain rfl : y = x := by simpa [top] using htop
    exact ⟨rfl, rfl⟩
  | cons s ss ih =>
    obtain ⟨hlength, hclimb⟩ := climb_cons_of_eq_some h
    obtain ⟨fuel, rfl⟩ : ∃ f, fuel = f + 1 := ⟨fuel - 1, by omega⟩
    obtain ⟨t, ht⟩ := exists_sibling hi
    have hx : l[i]? = some l[i] := List.getElem?_eq_getElem hi
    have hpair := getElem?_pairs_half hx ht
    have hnext : (pairUp node l)[i / 2]? =
        some (node (ordered i l[i] t).1 (ordered i l[i] t).2) := by
      rw [pairUp, List.getElem?_map, hpair, Option.map_some]
    have hlayer : layerPairs node (fuel + 1) l =
        pairs l ++ layerPairs node fuel (pairUp node l) := by
      rw [layerPairs, if_neg (by omega)]
    have habove : Set.InjOn (fun p : α × α ↦ node p.1 p.2)
        {p | p ∈ layerPairs node fuel (pairUp node l) ∨
          p ∈ climbPairs node ss (node (ordered i x s).1 (ordered i x s).2) (i / 2)} := by
      refine hinj.mono fun p hp ↦ ?_
      rw [Set.mem_ofPred_eq, hlayer]
      exact hp.imp (List.mem_append_right _) (List.mem_cons_of_mem _)
    obtain ⟨helement, hpath⟩ := ih (by rw [length_pairUp]; omega) (by rw [length_pairUp]; omega)
      habove ((top_layers_succ node hlength).symm.trans htop) hclimb
    -- the two pairs below one node are one pair
    have hordered : ordered i l[i] t = ordered i x s := by
      refine hinj (.inl ?_) (.inr List.mem_cons_self) (Option.some.inj (hnext.symm.trans helement))
      rw [hlayer]
      exact List.mem_append_left _ (List.mem_of_getElem? hpair)
    obtain ⟨rfl, rfl⟩ := ordered_inj hordered
    exact ⟨hx, by rw [path_layers_succ node hlength ht, hpath]⟩

end Climb

end Positional
