import Mathlib.Data.List.Induction
import Mathlib.Data.List.Sort

/-!
# Last-writer registers over stamped entries

Entries carry a stamp from a linear order, arrive in any order, and the entry with the greatest
stamp is the one that counts. `latest` reads it off a list by a single pass, so that appending one
arrival is one comparison (`latest_concat`); under distinct stamps it depends on the entries only
and not on their arrival order (`latest_perm`).

`replay` is the other reading of the same history: put the entries in stamp order and let every
one overwrite the last. It keeps a second register for the entries of one kind, which is how a
history with a decision that outranks ordinary writes is summarised. `replay_inOrder` says the two
readings agree.
-/

namespace LastWriter

variable {κ ε : Type*} [LinearOrder κ]

/-! ### The entry with the greatest stamp -/

/-- Keep the entry with the later stamp; the one found first wins a tie. -/
def later (best : Option (κ × ε)) (x : κ × ε) : Option (κ × ε) :=
  match best with
  | none => some x
  | some y => if y.1 < x.1 then some x else some y

/-- The entry with the greatest stamp. -/
def latest (l : List (κ × ε)) : Option (κ × ε) :=
  l.foldl later none

@[simp]
theorem latest_nil : latest ([] : List (κ × ε)) = none :=
  rfl

theorem latest_concat (l : List (κ × ε)) (x : κ × ε) :
    latest (l ++ [x]) = later (latest l) x := by
  simp [latest]

theorem latest_eq_none {l : List (κ × ε)} : latest l = none ↔ l = [] := by
  induction l using List.reverseRecOn with
  | nil => simp
  | append_singleton l x _ =>
    rw [latest_concat]
    rcases latest l with - | y
    · simp [later]
    · by_cases h : y.1 < x.1 <;> simp [later, h]

/-- The latest entry is one of the entries, and none has a later stamp. -/
theorem latest_spec {l : List (κ × ε)} {x : κ × ε} (h : latest l = some x) :
    x ∈ l ∧ ∀ y ∈ l, y.1 ≤ x.1 := by
  induction l using List.reverseRecOn generalizing x with
  | nil => simp at h
  | append_singleton l z ih =>
    rw [latest_concat] at h
    rcases hl : latest l with - | w
    · rw [hl] at h
      obtain rfl : z = x := Option.some_inj.1 h
      obtain rfl := latest_eq_none.1 hl
      simp
    · obtain ⟨hw, hmax⟩ := ih hl
      rw [hl, later] at h
      split at h
      · obtain rfl : z = x := Option.some_inj.1 h
        refine ⟨by simp, fun y hy ↦ ?_⟩
        rcases List.mem_append.1 hy with hy | hy
        · exact (hmax y hy).trans (le_of_lt ‹_›)
        · rw [List.mem_singleton.1 hy]
      · obtain rfl : w = x := Option.some_inj.1 h
        refine ⟨List.mem_append_left _ hw, fun y hy ↦ ?_⟩
        rcases List.mem_append.1 hy with hy | hy
        · exact hmax y hy
        · rw [List.mem_singleton.1 hy]
          exact not_lt.1 ‹_›

theorem mem_of_latest {l : List (κ × ε)} {x : κ × ε} (h : latest l = some x) : x ∈ l :=
  (latest_spec h).1

theorem le_of_latest {l : List (κ × ε)} {x y : κ × ε} (h : latest l = some x) (hy : y ∈ l) :
    y.1 ≤ x.1 :=
  (latest_spec h).2 y hy

omit [LinearOrder κ] in
/-- Under distinct stamps an entry is known by its stamp. -/
theorem eq_of_stamp_eq {l : List (κ × ε)} (hnd : (l.map Prod.fst).Nodup) {x y : κ × ε}
    (hx : x ∈ l) (hy : y ∈ l) (h : x.1 = y.1) : x = y :=
  List.inj_on_of_nodup_map hnd hx hy h

/-- Under distinct stamps the latest entry is the one none exceeds. -/
theorem latest_eq_some_iff {l : List (κ × ε)} (hnd : (l.map Prod.fst).Nodup) {x : κ × ε} :
    latest l = some x ↔ x ∈ l ∧ ∀ y ∈ l, y.1 ≤ x.1 := by
  refine ⟨latest_spec, fun ⟨hx, hmax⟩ ↦ ?_⟩
  rcases hl : latest l with - | w
  · rw [latest_eq_none.1 hl] at hx
    simp at hx
  · have hwx : w.1 = x.1 :=
      le_antisymm (hmax w (mem_of_latest hl)) (le_of_latest hl hx)
    rw [eq_of_stamp_eq hnd (mem_of_latest hl) hx hwx]

/-- **Arrival order does not matter.** -/
theorem latest_perm {l l' : List (κ × ε)} (hnd : (l.map Prod.fst).Nodup) (h : l.Perm l') :
    latest l = latest l' := by
  have hnd' : (l'.map Prod.fst).Nodup := (h.map Prod.fst).nodup_iff.1 hnd
  ext x
  rw [latest_eq_some_iff hnd, latest_eq_some_iff hnd']
  simp only [h.mem_iff]

/-- An arrival stamped after everything before it is the latest. -/
theorem latest_concat_of_forall_lt {l : List (κ × ε)} {x : κ × ε} (h : ∀ y ∈ l, y.1 < x.1) :
    latest (l ++ [x]) = some x := by
  rw [latest_concat]
  rcases hl : latest l with - | y
  · rfl
  · rw [later, if_pos (h y (mem_of_latest hl))]

/-! ### Replay in stamp order -/

/-- Two registers: the last entry written, and the last entry of the kind `p`. -/
structure Registers (κ ε : Type*) where
  last : Option (κ × ε)
  marked : Option (κ × ε)

/-- Nothing written yet. -/
def Registers.empty : Registers κ ε :=
  ⟨none, none⟩

/-- Every write overwrites the last entry, and an entry of the kind also the second register. -/
def Registers.write (p : ε → Bool) (r : Registers κ ε) (x : κ × ε) : Registers κ ε :=
  ⟨some x, if p x.2 then some x else r.marked⟩

/-- Let the entries of a list overwrite one another in list order. -/
def replay (p : ε → Bool) (l : List (κ × ε)) : Registers κ ε :=
  l.foldl (Registers.write p) Registers.empty

omit [LinearOrder κ] in
theorem replay_concat (p : ε → Bool) (l : List (κ × ε)) (x : κ × ε) :
    replay p (l ++ [x]) = (replay p l).write p x := by
  simp [replay]

/-- The entries in stamp order. -/
def inOrder (l : List (κ × ε)) : List (κ × ε) :=
  l.insertionSort fun x y ↦ x.1 ≤ y.1

theorem inOrder_perm (l : List (κ × ε)) : (inOrder l).Perm l :=
  List.perm_insertionSort _ _

/-- Distinct stamps put in order increase strictly. -/
theorem inOrder_pairwise {l : List (κ × ε)} (hnd : (l.map Prod.fst).Nodup) :
    (inOrder l).Pairwise fun x y ↦ x.1 < y.1 := by
  have hle : (inOrder l).Pairwise fun x y ↦ x.1 ≤ y.1 := by
    have : Std.Total fun x y : κ × ε ↦ x.1 ≤ y.1 := ⟨fun x y ↦ le_total x.1 y.1⟩
    have : IsTrans (κ × ε) fun x y ↦ x.1 ≤ y.1 := ⟨fun _ _ _ ↦ le_trans⟩
    exact List.pairwise_insertionSort _ _
  have hne : (inOrder l).Pairwise fun x y ↦ x.1 ≠ y.1 :=
    List.pairwise_map.1 (((inOrder_perm l).map Prod.fst).nodup_iff.2 hnd)
  exact (hle.and hne).imp fun ⟨hxy, hne⟩ ↦ lt_of_le_of_ne hxy hne

/-- A strictly increasing history replayed leaves its latest entries in the registers. -/
theorem replay_eq_of_pairwise (p : ε → Bool) {l : List (κ × ε)}
    (h : l.Pairwise fun x y ↦ x.1 < y.1) :
    replay p l = ⟨latest l, latest (l.filter fun x ↦ p x.2)⟩ := by
  induction l using List.reverseRecOn with
  | nil => rfl
  | append_singleton l x ih =>
    obtain ⟨hl, -, hlt⟩ := List.pairwise_append.1 h
    have hlast : ∀ y ∈ l, y.1 < x.1 := fun y hy ↦ hlt y hy x List.mem_cons_self
    rw [replay_concat, ih hl, latest_concat_of_forall_lt hlast, List.filter_append]
    by_cases hp : p x.2
    · have hmarked : ∀ y ∈ l.filter fun x ↦ p x.2, y.1 < x.1 := fun y hy ↦
        hlast y (List.mem_of_mem_filter hy)
      simp [Registers.write, hp, latest_concat_of_forall_lt hmarked]
    · simp [Registers.write, hp]

/-- **The two readings agree**: replaying the entries in stamp order leaves the entries with the
greatest stamps, whatever order they arrived in. -/
theorem replay_inOrder (p : ε → Bool) {l : List (κ × ε)} (hnd : (l.map Prod.fst).Nodup) :
    replay p (inOrder l) = ⟨latest l, latest (l.filter fun x ↦ p x.2)⟩ := by
  have hperm := inOrder_perm l
  have hnd' : ((inOrder l).map Prod.fst).Nodup := (hperm.map Prod.fst).nodup_iff.2 hnd
  have hfilter : (((inOrder l).filter fun x ↦ p x.2).map Prod.fst).Nodup :=
    hnd'.sublist (List.filter_sublist.map Prod.fst)
  rw [replay_eq_of_pairwise p (inOrder_pairwise hnd), latest_perm hnd' hperm,
    latest_perm hfilter (hperm.filter _)]

end LastWriter
