import Proofmark.Pipeline.Attrs

/-!
# Addresses as texts

`ethers.getAddress` and `ethers.isAddress`. What other code relies on is in `Addresses`: a text is
an address in one way only, whatever the case of its letters, and its checksummed form is hex that
is accepted again. `eip55` is the library on hex texts; its other notation is left out.
-/

open Evm

namespace Proofmark.Pipeline

structure Addresses where
  /-- `getAddress`, unless it raises -/
  getAddress : Text → Option Text
  isHexString_of_getAddress : ∀ {t x}, getAddress t = some x → Text.isHexString x 20 = true
  /-- the case of letters does not matter to what an accepted text means -/
  getAddress_unique : ∀ {t t' x x'}, t.lower = t'.lower → getAddress t = some x →
    getAddress t' = some x' → x = x'
  /-- a hex text without capitals is accepted -/
  getAddress_lower : ∀ {t}, Text.isHexString t 20 = true →
    ∃ x, getAddress t.lower = some x ∧ x.lower = t.lower
  getAddress_self : ∀ {t x}, getAddress t = some x → getAddress x = some x

theorem toLower_toLower (c : Char) : c.toLower.toLower = c.toLower := by
  have h : ∀ c : Char, ¬(c.val ≥ 'A'.val ∧ c.val ≤ 'Z'.val) → c.toLower = c := fun c hc ↦ dif_neg hc
  by_cases hc : c.val ≥ 'A'.val ∧ c.val ≤ 'Z'.val
  · refine h c.toLower fun hlower ↦ ?_
    have hval : c.toLower.val = c.val + ('a'.val - 'A'.val) := congrArg Char.val (dif_pos hc)
    rw [hval] at hlower
    obtain ⟨hA, hZ⟩ := hc
    obtain ⟨-, hZ'⟩ := hlower
    have hA' : 65 ≤ c.val.toNat := hA
    have hle : c.val.toNat ≤ 90 := hZ
    have hlower' : (c.val + ('a'.val - 'A'.val)).toNat ≤ 90 := hZ'
    rw [UInt32.toNat_add, show ('a'.val - 'A'.val).toNat = 32 from rfl] at hlower'
    omega
  · rw [h c hc, h c hc]

@[simp]
theorem Text.lower_lower (t : Text) : t.lower.lower = t.lower := by
  rw [Text.lower, Text.lower, List.map_map]
  exact List.map_congr_left fun c _ ↦ toLower_toLower c

namespace Addresses

variable (E : Addresses)

def isAddress (t : Text) : Bool :=
  (E.getAddress t).isSome

end Addresses

/-- `same` -/
def same (a b : Text) : Bool :=
  a.lower = b.lower

/-! ### Checksums -/

namespace Eip55

/-- A capital for every letter whose digit of the hash is 8 or more. -/
def capitalize : Text → Text → Text
  | c :: t, d :: hash => (if 8 ≤ Text.hexValue d then c.toUpper else c) :: capitalize t hash
  | t, _ => t

/-- The checksummed form of a lower-case text. -/
def checksum (t : Text) : Text :=
  '0' :: 'x' :: capitalize (t.drop 2) ((Text.ofWord (keccak256 (Text.utf8 (t.drop 2)))).drop 2)

/-- Letters of both cases. -/
def isMixed (t : Text) : Bool :=
  t.any Char.isUpper && (t.drop 2).any Char.isLower

/-- The text with its prefix. -/
def prefixed (t : Text) : Text :=
  if Text.isHexString ('0' :: 'x' :: t) 20 then '0' :: 'x' :: t else t

def getAddress (t : Text) : Option Text :=
  if Text.isHexString (prefixed t) 20 then
    let x := checksum (prefixed t).lower
    if isMixed (prefixed t) && decide (x ≠ prefixed t) then none else some x
  else none

/-! ### Letters and digits -/

theorem exists_of_isHexDigit {c : Char} (h : Text.isHexDigit c = true) :
    ∃ n < 128, c = Char.ofNat n := by
  have hle : ∀ {d : Char}, c ≤ d → c.toNat ≤ d.toNat := fun h ↦ UInt32.le_iff_toNat_le.1 h
  refine ⟨c.toNat, ?_, c.ofNat_toNat.symm⟩
  simp only [Text.isHexDigit, Char.isDigit, Bool.or_eq_true, Bool.and_eq_true,
    decide_eq_true_eq] at h
  rcases h with (⟨-, h⟩ | ⟨-, h⟩) | ⟨-, h⟩
  · exact (hle (d := '9') h).trans_lt (by decide)
  · exact (hle h).trans_lt (by decide)
  · exact (hle h).trans_lt (by decide)

/-- A property of all hex digits, in either case. -/
theorem hexDigit_cases {p : Char → Prop}
    (h : ∀ n < 128, Text.isHexDigit (Char.ofNat n) = true → p (Char.ofNat n)) {c : Char}
    (hc : Text.isHexDigit c = true) : p c := by
  obtain ⟨n, hn, rfl⟩ := exists_of_isHexDigit hc
  exact h n hn hc

theorem toLower_toUpper {c : Char} (h : Text.isHexDigit c = true) :
    c.toUpper.toLower = c.toLower :=
  hexDigit_cases (p := fun c ↦ c.toUpper.toLower = c.toLower) (by decide) h

theorem isHexDigit_toUpper {c : Char} (h : Text.isHexDigit c = true) :
    Text.isHexDigit c.toUpper = true :=
  hexDigit_cases (p := fun c ↦ Text.isHexDigit c.toUpper = true) (by decide) h

theorem isHexDigit_toLower {c : Char} (h : Text.isHexDigit c = true) :
    Text.isHexDigit c.toLower = true :=
  hexDigit_cases (p := fun c ↦ Text.isHexDigit c.toLower = true) (by decide) h

theorem isUpper_toLower {c : Char} (h : Text.isHexDigit c = true) : c.toLower.isUpper = false :=
  hexDigit_cases (p := fun c ↦ c.toLower.isUpper = false) (by decide) h

/-- A hex text is its prefix and digits. -/
theorem isHexString_iff {t : Text} {width : ℕ} : Text.isHexString t width = true ↔
    ∃ ds : Text, t = '0' :: 'x' :: ds ∧ ds.length = 2 * width ∧
      ∀ c ∈ ds, Text.isHexDigit c = true := by
  rw [Text.isHexString, Bool.and_eq_true, Bool.and_eq_true, beq_iff_eq, beq_iff_eq,
    List.all_eq_true]
  constructor
  · rintro ⟨⟨hlength, hstarts⟩, hdigits⟩
    refine ⟨t.drop 2, ?_, by rw [List.length_drop]; omega, hdigits⟩
    have happend := List.take_append_drop 2 t
    rw [hstarts] at happend
    exact happend.symm
  · rintro ⟨ds, rfl, hlength, hdigits⟩
    exact ⟨⟨by rw [List.length_cons, List.length_cons, hlength]; omega, rfl⟩, hdigits⟩

theorem hexValue_toLower {c : Char} (h : Text.isHexDigit c = true) :
    Text.hexValue c.toLower = Text.hexValue c :=
  hexDigit_cases (p := fun c ↦ Text.hexValue c.toLower = Text.hexValue c) (by decide) h

theorem isHexDigit_of_toLower {c : Char} (h : Text.isHexDigit c.toLower = true) :
    Text.isHexDigit c = true := by
  by_cases hc : c.val ≥ 'A'.val ∧ c.val ≤ 'Z'.val
  · have hlt : c.toNat < 128 := (UInt32.le_iff_toNat_le.1 hc.2).trans_lt (by decide)
    have hall : ∀ n < 128, Text.isHexDigit (Char.ofNat n).toLower = true →
        Text.isHexDigit (Char.ofNat n) = true := by decide
    rw [← c.ofNat_toNat] at h ⊢
    exact hall c.toNat hlt h
  · rwa [show c.toLower = c from dif_neg hc] at h

/-- The case of its letters does not matter to the number a hex text spells. -/
theorem hexNat_lower {t : Text} (h : ∀ c ∈ t, Text.isHexDigit c = true) :
    Text.hexNat t.lower = Text.hexNat t := by
  induction t using List.reverseRecOn with
  | nil => rfl
  | append_singleton t c ih =>
    obtain ⟨ht, hc⟩ := List.forall_mem_append.1 h
    have hlower : Text.lower (t ++ [c]) = Text.lower t ++ [c.toLower] := List.map_append
    rw [hlower, Text.hexNat_concat, Text.hexNat_concat, ih ht,
      hexValue_toLower (hc c (List.mem_singleton.2 rfl))]

/-- Any text that is the same as that of an address spells the address. -/
theorem hexNat_of_same {a : Address} {t : Text} (h : same (Text.ofAddress a) t = true) :
    Text.hexNat (t.drop 2) = a.toNat := by
  have hlower : Text.ofAddress a = t.lower := by
    rw [same, decide_eq_true_eq, Text.ofAddress, Text.lower_ofBytes] at h
    exact h
  have hdrop : (Text.ofAddress a).drop 2 = Text.lower (t.drop 2) := by
    rw [hlower, Text.lower, Text.lower, List.map_drop]
  obtain ⟨ds, hds, -, hdigits⟩ := isHexString_iff.1 (Text.isHexString_ofAddress a)
  have hall : ∀ c ∈ t.drop 2, Text.isHexDigit c = true := by
    refine fun c hc ↦ isHexDigit_of_toLower (hdigits _ ?_)
    have hmem := List.mem_map_of_mem (f := Char.toLower) hc
    rw [← Text.lower, ← hdrop, hds] at hmem
    exact hmem
  rw [← hexNat_lower hall, ← hdrop, Text.ofAddress, Text.drop_two_ofBytes, Text.hexNat_flatMap,
    ofBytes_toBytes]
  exact Nat.mod_eq_of_lt a.isLt

/-! ### Checksummed texts -/

theorem length_capitalize (t hash : Text) : (capitalize t hash).length = t.length := by
  induction t generalizing hash with
  | nil => cases hash <;> rfl
  | cons c t ih =>
    cases hash with
    | nil => rfl
    | cons d hash => rw [capitalize, List.length_cons, ih, List.length_cons]

theorem isHexDigit_of_mem_capitalize {t : Text} (h : ∀ c ∈ t, Text.isHexDigit c = true)
    (hash : Text) : ∀ c ∈ capitalize t hash, Text.isHexDigit c = true := by
  induction t generalizing hash with
  | nil => cases hash <;> exact h
  | cons c t ih =>
    obtain ⟨hc, ht⟩ := List.forall_mem_cons.1 h
    cases hash with
    | nil => exact h
    | cons d hash =>
      rw [capitalize, List.forall_mem_cons]
      refine ⟨?_, ih ht hash⟩
      split
      · exact isHexDigit_toUpper hc
      · exact hc

/-- Capitals do not change the text but for the case of its letters. -/
theorem lower_capitalize {t : Text} (h : ∀ c ∈ t, Text.isHexDigit c = true) (hash : Text) :
    (capitalize t hash).lower = t.lower := by
  induction t generalizing hash with
  | nil => cases hash <;> rfl
  | cons c t ih =>
    obtain ⟨hc, ht⟩ := List.forall_mem_cons.1 h
    cases hash with
    | nil => rfl
    | cons d hash =>
      have hrest := ih ht hash
      rw [Text.lower] at hrest ⊢
      rw [capitalize, List.map_cons, hrest]
      show _ = c.toLower :: t.map Char.toLower
      split
      · rw [toLower_toUpper hc]
        rfl
      · rfl

/-- The checksummed form of a hex text, from its digits. -/
theorem getAddress_eq {ds : Text} (hlength : ds.length = 40)
    (hdigits : ∀ c ∈ ds, Text.isHexDigit c = true) {t : Text} (ht : prefixed t = '0' :: 'x' :: ds) :
    getAddress t =
      if isMixed ('0' :: 'x' :: ds) && decide (checksum ('0' :: 'x' :: ds.lower) ≠ '0' :: 'x' :: ds)
        then none else some (checksum ('0' :: 'x' :: ds.lower)) := by
  rw [getAddress, ht, if_pos (isHexString_iff.2 ⟨ds, rfl, hlength, hdigits⟩)]
  rfl

theorem prefixed_of_isHexString {t : Text} (h : Text.isHexString t 20 = true) :
    prefixed t = t := by
  rw [prefixed, if_neg]
  intro h'
  obtain ⟨ds, rfl, hlength, -⟩ := isHexString_iff.1 h
  obtain ⟨ds', heq, hlength', -⟩ := isHexString_iff.1 h'
  obtain rfl := (List.cons.inj (List.cons.inj heq).2).2
  simp only [List.length_cons] at hlength'
  omega

/-- An accepted text, its digits and its checksummed form. -/
theorem getAddress_eq_some {t x : Text} (h : getAddress t = some x) :
    ∃ ds : Text, prefixed t = '0' :: 'x' :: ds ∧ ds.length = 40 ∧
      (∀ c ∈ ds, Text.isHexDigit c = true) ∧ x = checksum ('0' :: 'x' :: ds.lower) := by
  by_cases hhex : Text.isHexString (prefixed t) 20
  · obtain ⟨ds, hds, hlength, hdigits⟩ := isHexString_iff.1 hhex
    refine ⟨ds, hds, hlength, hdigits, ?_⟩
    rw [getAddress_eq hlength hdigits hds] at h
    split at h
    · cases h
    · exact (Option.some.inj h).symm
  · rw [getAddress, if_neg hhex] at h
    cases h

section Digits

variable {ds : Text} (hlength : ds.length = 40) (hdigits : ∀ c ∈ ds, Text.isHexDigit c = true)

include hdigits

theorem isHexDigit_of_mem_lower : ∀ c ∈ ds.lower, Text.isHexDigit c = true := by
  rw [Text.lower, List.forall_mem_map]
  exact fun c hc ↦ isHexDigit_toLower (hdigits c hc)

theorem lower_checksum : (checksum ('0' :: 'x' :: ds.lower)).lower = '0' :: 'x' :: ds.lower := by
  show '0' :: 'x' :: (capitalize ds.lower _).lower = _
  rw [lower_capitalize (isHexDigit_of_mem_lower hdigits), Text.lower_lower]

include hlength

theorem isHexString_checksum : Text.isHexString (checksum ('0' :: 'x' :: ds.lower)) 20 = true := by
  refine isHexString_iff.2 ⟨_, rfl, ?_, ?_⟩
  · show (capitalize ds.lower _).length = 40
    rw [length_capitalize, Text.lower, List.length_map, hlength]
  · exact isHexDigit_of_mem_capitalize (isHexDigit_of_mem_lower hdigits) _

/-- A text without capitals is accepted. -/
theorem getAddress_lower : getAddress ('0' :: 'x' :: ds.lower) =
    some (checksum ('0' :: 'x' :: ds.lower)) := by
  have hlower : ds.lower.length = 40 := by rw [Text.lower, List.length_map, hlength]
  have hmixed : isMixed ('0' :: 'x' :: ds.lower) = false := by
    have hany : ds.lower.any Char.isUpper = false := by
      rw [List.any_eq_false, Text.lower, List.forall_mem_map]
      exact fun c hc ↦ by rw [isUpper_toLower (hdigits c hc)]; exact Bool.false_ne_true
    show (ds.lower.any Char.isUpper && _) = false
    rw [hany, Bool.false_and]
  have hhex : Text.isHexString ('0' :: 'x' :: ds.lower) 20 = true :=
    isHexString_iff.2 ⟨ds.lower, rfl, hlower, isHexDigit_of_mem_lower hdigits⟩
  rw [getAddress_eq hlower (isHexDigit_of_mem_lower hdigits) (prefixed_of_isHexString hhex),
    hmixed, Bool.false_and, if_neg Bool.false_ne_true, Text.lower_lower]

end Digits

theorem getAddress_unique {t t' x x' : Text} (hlower : t.lower = t'.lower)
    (h : getAddress t = some x) (h' : getAddress t' = some x') : x = x' := by
  obtain ⟨ds, hds, hlength, hdigits, rfl⟩ := getAddress_eq_some h
  obtain ⟨ds', hds', hlength', hdigits', rfl⟩ := getAddress_eq_some h'
  have hsame : t.length = t'.length := by
    have hlengths := congrArg List.length hlower
    rwa [Text.lower, Text.lower, List.length_map, List.length_map] at hlengths
  have hds_lower : ds.lower = ds'.lower := by
    unfold prefixed at hds hds'
    split at hds <;> split at hds'
    · rw [← (List.cons.inj (List.cons.inj hds).2).2, ← (List.cons.inj (List.cons.inj hds').2).2,
        hlower]
    · subst hds'
      rw [← (List.cons.inj (List.cons.inj hds).2).2] at hlength
      simp only [List.length_cons] at hsame
      omega
    · subst hds
      rw [← (List.cons.inj (List.cons.inj hds').2).2] at hlength'
      simp only [List.length_cons] at hsame
      omega
    · subst hds hds'
      exact (List.cons.inj (List.cons.inj hlower).2).2
  rw [hds_lower]

end Eip55

open Eip55 in
/-- Addresses in hex, with the capitals of their hash. -/
def eip55 : Addresses where
  getAddress := getAddress
  isHexString_of_getAddress h := by
    obtain ⟨ds, -, hlength, hdigits, rfl⟩ := getAddress_eq_some h
    exact isHexString_checksum hlength hdigits
  getAddress_unique := getAddress_unique
  getAddress_lower h := by
    obtain ⟨ds, rfl, hlength, hdigits⟩ := isHexString_iff.1 h
    exact ⟨_, getAddress_lower hlength hdigits, lower_checksum hdigits⟩
  getAddress_self h := by
    obtain ⟨ds, -, hlength, hdigits, rfl⟩ := getAddress_eq_some h
    have hhex := isHexString_checksum hlength hdigits
    obtain ⟨cs, hcs, hlength', hdigits'⟩ := isHexString_iff.1 hhex
    have hlower : '0' :: 'x' :: cs.lower = '0' :: 'x' :: ds.lower := by
      rw [← lower_checksum hdigits, hcs]
      rfl
    rw [getAddress_eq hlength' hdigits' ((prefixed_of_isHexString hhex).trans hcs), hlower, ← hcs,
      decide_eq_false (not_not.2 rfl), Bool.and_false, if_neg Bool.false_ne_true]

end Proofmark.Pipeline
