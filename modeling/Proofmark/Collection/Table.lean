import Mathlib.Data.List.Nodup
import Mathlib.Data.List.Perm.Basic

/-!
# Tables in insertion order

Rows that carry their own key, at most one for each key, in the order their keys were first
written. Writing a row whose key is there replaces the old row in its place; any other row goes to
the end. This is how a JavaScript `Map`, or an object used as a dictionary, behaves.

A table is known by its rows (`get_eq_some`, `mem_set`) and, where multiplicities matter, up to the
order of the rows (`perm_set`).
-/

/-- Rows with distinct keys. -/
structure Table {α κ : Type} (key : α → κ) where
  rows : List α
  nodup : (rows.map key).Nodup

namespace Table

variable {α κ : Type} {key : α → κ}

instance [DecidableEq α] : DecidableEq (Table key) :=
  fun s t ↦ decidable_of_iff (s.rows = t.rows) ⟨fun h ↦ by cases s; cases t; cases h; rfl,
    congrArg rows⟩

/-- A table without rows. -/
def empty : Table key :=
  ⟨[], List.nodup_nil⟩

/-- The rows that pass a test. -/
def filter (t : Table key) (p : α → Bool) : Table key :=
  ⟨t.rows.filter p, t.nodup.sublist (List.filter_sublist.map key)⟩

theorem eq_of_key {t : Table key} {a b : α} (ha : a ∈ t.rows) (hb : b ∈ t.rows)
    (h : key a = key b) : a = b :=
  List.inj_on_of_nodup_map t.nodup ha hb h

@[simp]
theorem mem_filter {t : Table key} {a : α} {p : α → Bool} :
    a ∈ (t.filter p).rows ↔ a ∈ t.rows ∧ p a = true :=
  List.mem_filter

variable [DecidableEq κ]

/-- The row of a key. -/
def get (t : Table key) (k : κ) : Option α :=
  t.rows.find? fun a ↦ decide (key a = k)

/-- The rows after a row is written. -/
def written (key : α → κ) (rows : List α) (a : α) : List α :=
  if key a ∈ rows.map key then rows.map fun b ↦ if key b = key a then a else b
  else rows ++ [a]

theorem map_key_written (rows : List α) (a : α) :
    (written key rows a).map key =
      if key a ∈ rows.map key then rows.map key else rows.map key ++ [key a] := by
  unfold written
  split
  · rw [List.map_map]
    refine List.map_congr_left fun b _ ↦ ?_
    simp only [Function.comp_apply]
    split
    case isTrue hb => exact hb.symm
    case isFalse => rfl
  · simp

/-- Write a row. -/
def set (t : Table key) (a : α) : Table key where
  rows := written key t.rows a
  nodup := by
    rw [map_key_written]
    split
    case isTrue => exact t.nodup
    case isFalse h => exact List.concat_eq_append ▸ t.nodup.concat h

/-- Delete the row of a key. -/
def erase (t : Table key) (k : κ) : Table key :=
  t.filter fun a ↦ decide (key a ≠ k)

/-! ### The rows by their keys -/

variable {t : Table key} {a b : α} {k : κ}

theorem get_eq_some : t.get k = some a ↔ a ∈ t.rows ∧ key a = k := by
  constructor
  · intro h
    exact ⟨List.mem_of_find?_eq_some h, by simpa using List.find?_some h⟩
  · rintro ⟨ha, rfl⟩
    rcases hget : t.get (key a) with - | b
    · have hnone := List.find?_eq_none.1 hget a ha
      simp at hnone
    · have hb : key b = key a := by simpa using List.find?_some hget
      rw [eq_of_key (List.mem_of_find?_eq_some hget) ha hb]

theorem get_eq_none : t.get k = none ↔ ∀ a ∈ t.rows, key a ≠ k := by
  simp [get]

@[simp]
theorem get_empty : (empty : Table key).get k = none :=
  rfl

theorem mem_set : b ∈ (t.set a).rows ↔ b = a ∨ b ∈ t.rows ∧ key b ≠ key a := by
  change b ∈ written key t.rows a ↔ _
  unfold written
  split
  case isTrue hmem =>
    rw [List.mem_map]
    constructor
    · rintro ⟨c, hc, rfl⟩
      split
      · exact .inl rfl
      · exact .inr ⟨hc, by assumption⟩
    · rintro (rfl | ⟨hb, hne⟩)
      · obtain ⟨c, hc, hkey⟩ := List.mem_map.1 hmem
        exact ⟨c, hc, if_pos hkey⟩
      · exact ⟨b, hb, if_neg hne⟩
  case isFalse hmem =>
    rw [List.mem_append, List.mem_singleton]
    constructor
    · rintro (hb | rfl)
      · exact .inr ⟨hb, fun h ↦ hmem (h ▸ List.mem_map_of_mem hb)⟩
      · exact .inl rfl
    · rintro (rfl | ⟨hb, -⟩)
      · exact .inr rfl
      · exact .inl hb

theorem get_set : (t.set a).get k = if key a = k then some a else t.get k := by
  refine Option.ext fun b ↦ ?_
  rw [get_eq_some, mem_set]
  split
  case isTrue hk =>
    subst hk
    constructor
    · rintro ⟨rfl | ⟨-, hne⟩, hb⟩
      · rfl
      · exact absurd hb hne
    · intro h
      obtain rfl := Option.some.inj h
      exact ⟨.inl rfl, rfl⟩
  case isFalse hk =>
    rw [get_eq_some]
    constructor
    · rintro ⟨rfl | ⟨hb, -⟩, hkb⟩
      · exact absurd hkb hk
      · exact ⟨hb, hkb⟩
    · rintro ⟨hb, rfl⟩
      exact ⟨.inr ⟨hb, fun h ↦ hk h.symm⟩, rfl⟩

@[simp]
theorem get_set_self : (t.set a).get (key a) = some a := by
  rw [get_set, if_pos rfl]

theorem get_set_of_ne (h : key a ≠ k) : (t.set a).get k = t.get k := by
  rw [get_set, if_neg h]

theorem get_filter {p : α → Bool} : (t.filter p).get k = (t.get k).filter p := by
  refine Option.ext fun b ↦ ?_
  rw [get_eq_some, mem_filter, Option.filter_eq_some_iff, get_eq_some]
  exact and_right_comm

theorem get_erase {k' : κ} : (t.erase k).get k' = if k = k' then none else t.get k' := by
  rw [erase, get_filter]
  split
  case isTrue hk =>
    subst hk
    rw [Option.filter_eq_none_iff]
    intro b hb
    simpa using (get_eq_some.1 hb).2
  case isFalse hk =>
    rcases hget : t.get k' with - | b
    · rfl
    · have hb : key b ≠ k := (get_eq_some.1 hget).2 ▸ Ne.symm hk
      simp [hb]

/-! ### Rows that are mapped, with their keys -/

section Map

variable {β : Type} {key' : β → κ} {g : α → β}

theorem written_map (hkey : ∀ a, key' (g a) = key a) (rows : List α) (a : α) :
    written key' (rows.map g) (g a) = (written key rows a).map g := by
  have hkeys : (rows.map g).map key' = rows.map key := by
    rw [List.map_map]
    exact List.map_congr_left fun b _ ↦ hkey b
  rw [written, written, hkeys, hkey]
  split
  · rw [List.map_map, List.map_map]
    refine List.map_congr_left fun b _ ↦ ?_
    simp only [Function.comp_apply, hkey]
    split <;> rfl
  · rw [List.map_append]
    rfl

theorem get_of_map (hkey : ∀ a, key' (g a) = key a) {t' : Table key'}
    (hrows : t'.rows = t.rows.map g) : t'.get k = (t.get k).map g := by
  rw [get, hrows, List.find?_map]
  exact congrArg (Option.map g) (congrArg (fun p ↦ List.find? p t.rows)
    (funext fun a ↦ by rw [Function.comp_apply, hkey]))

end Map

/-! ### The rows up to order -/

/-- Writing a row changes the row of its key and no other. -/
theorem perm_set (t : Table key) (a : α) :
    ∃ rest, t.rows.Perm ((t.get (key a)).toList ++ rest) ∧ (t.set a).rows.Perm (a :: rest) := by
  rcases hget : t.get (key a) with - | b
  · refine ⟨t.rows, .refl _, ?_⟩
    have hnot : key a ∉ t.rows.map key := fun hmem ↦ by
      obtain ⟨c, hc, hkey⟩ := List.mem_map.1 hmem
      exact get_eq_none.1 hget c hc hkey
    change (written key t.rows a).Perm _
    rw [written, if_neg hnot]
    exact List.perm_append_singleton a t.rows
  · obtain ⟨hb, hkey⟩ := get_eq_some.1 hget
    obtain ⟨before, after, hrows⟩ := List.append_of_mem hb
    refine ⟨before ++ after, ?_, ?_⟩
    · rw [hrows]
      exact List.perm_middle
    · change (written key t.rows a).Perm _
      have hnodup := t.nodup
      rw [hrows, List.map_append, List.map_cons, List.nodup_middle, List.nodup_cons,
        ← List.map_append] at hnodup
      have hother : ∀ c ∈ before ++ after, (if key c = key a then a else c) = c := fun c hc ↦
        if_neg fun h ↦ hnodup.1 (by rw [hkey, ← h]; exact List.mem_map_of_mem hc)
      rw [written, if_pos (hkey ▸ List.mem_map_of_mem hb), hrows, List.map_append, List.map_cons,
        if_pos hkey]
      refine List.perm_middle.trans (.cons a (.of_eq ?_))
      rw [← List.map_append]
      exact (List.map_congr_left hother).trans (List.map_id _)

end Table
