import Proofmark.Collection.Table

/-!
# Multimaps in insertion order

A map from keys to lists, in the order the keys were first written, as a program builds it that
pushes to the list of a key and starts an empty one for a new key.
-/

namespace Table

variable {κ β : Type}

/-- A row for each key, with its list. -/
abbrev Multimap (κ β : Type) := Table (Prod.fst : κ × List β → κ)

namespace Multimap

variable (m : Multimap κ β)

def keys : List κ :=
  m.rows.map Prod.fst

variable [DecidableEq κ]

/-- The list of a key; a key that is not there has none. -/
def values (k : κ) : List β :=
  ((m.get k).map Prod.snd).getD []

/-- Push a value to the list of a key. -/
def push (k : κ) (v : β) : Multimap κ β :=
  m.set (k, m.values k ++ [v])

variable {m} {k k' : κ} {v : β}

@[simp]
theorem values_empty : values (empty : Multimap κ β) k = [] :=
  rfl

theorem values_push : (m.push k v).values k' =
    if k = k' then m.values k ++ [v] else m.values k' := by
  rw [values, push, get_set]
  split
  case isTrue => rfl
  case isFalse => rfl

theorem mem_values_push {w : β} :
    w ∈ (m.push k v).values k' ↔ w ∈ m.values k' ∨ k = k' ∧ w = v := by
  rw [values_push]
  split
  case isTrue h => simp [h]
  case isFalse h => simp [h]

theorem mem_keys : k ∈ m.keys ↔ ∃ l, (k, l) ∈ m.rows := by
  simp [keys]

theorem mem_keys_push : k' ∈ (m.push k v).keys ↔ k' = k ∨ k' ∈ m.keys := by
  simp only [mem_keys, push, mem_set, Prod.mk.injEq]
  constructor
  · rintro ⟨l, ⟨rfl, -⟩ | ⟨h, -⟩⟩
    · exact .inl rfl
    · exact .inr ⟨l, h⟩
  · intro h
    by_cases hk : k' = k
    · exact ⟨_, .inl ⟨hk, rfl⟩⟩
    · obtain ⟨l, hl⟩ := h.resolve_left hk
      exact ⟨l, .inr ⟨hl, hk⟩⟩

/-- A key is there once it has a value. -/
theorem mem_keys_of_mem_values (h : v ∈ m.values k) : k ∈ m.keys := by
  unfold values at h
  cases hget : m.get k with
  | none => simp [hget] at h
  | some row =>
    obtain ⟨hrow, rfl⟩ := get_eq_some.1 hget
    exact List.mem_map_of_mem hrow

/-- Push a value to the lists of several keys. -/
theorem mem_values_foldl_push {w : β} {l : List κ} :
    w ∈ (l.foldl (fun m k ↦ push m k v) m).values k' ↔ w ∈ m.values k' ∨ k' ∈ l ∧ w = v := by
  induction l generalizing m with
  | nil => simp
  | cons k l ih =>
    rw [List.foldl_cons, ih, mem_values_push, List.mem_cons]
    constructor
    · rintro ((h | ⟨rfl, rfl⟩) | ⟨h, rfl⟩)
      · exact .inl h
      · exact .inr ⟨.inl rfl, rfl⟩
      · exact .inr ⟨.inr h, rfl⟩
    · rintro (h | ⟨rfl | h, rfl⟩)
      · exact .inl (.inl h)
      · exact .inl (.inr ⟨rfl, rfl⟩)
      · exact .inr ⟨h, rfl⟩

end Multimap

end Table
