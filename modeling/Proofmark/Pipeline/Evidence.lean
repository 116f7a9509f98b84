import Proofmark.Merkle.Chain
import Proofmark.Pipeline.Claims

/-!
# What the evidence hash binds

`EvidenceChain` of `evidence.ts`, over the canonical JSON of `canonical.ts`. Two lists of steps have
one hash if and only if they are equal up to the order of keys, *apart from fields named
`__proto__`*: the canonical form rebuilds every object by assignment, and assigning to that name
makes no property. `evidence_bound_iff` says so; where no such field is all that differs, the hash
binds the evidence.
-/

open Evm JsonText

namespace Proofmark.Pipeline

variable {N : Type}

/-! ### Equality up to the order of keys -/

mutual

/-- Two values are equal up to the order of keys, apart from fields whose keys are ignored. -/
def SameBut (ignored : Text → Bool) : Value N → Value N → Prop
  | .array items, .array items' => SameItems ignored items items'
  | .object fields, .object fields' =>
    (fields.filter fun p ↦ !ignored p.1).length = (fields'.filter fun p ↦ !ignored p.1).length ∧
      SameFields ignored fields fields'
  | .null, .null => True
  | .bool b, .bool b' => b = b'
  | .number n, .number n' => n = n'
  | .string t, .string t' => t = t'
  | _, _ => False

def SameItems (ignored : Text → Bool) : List (Value N) → List (Value N) → Prop
  | [], [] => True
  | v :: items, w :: items' => SameBut ignored v w ∧ SameItems ignored items items'
  | _, _ => False

/-- Every field is a field of the other object. -/
def SameFields (ignored : Text → Bool) :
    List (Text × Value N) → List (Text × Value N) → Prop
  | [], _ => True
  | (k, v) :: fields, fields' =>
    (ignored k = false → ∃ w, (k, w) ∈ fields' ∧ SameBut ignored v w) ∧
      SameFields ignored fields fields'

end

/-- Equal JSON values, up to the order of object keys. -/
def Same (v w : Value N) : Prop :=
  SameBut (fun _ ↦ false) v w

/-- Equal as far as the canonical form shows. -/
def SameShown (v w : Value N) : Prop :=
  SameBut isProto v w

/-! ### The canonical form shows that and no more -/

theorem sortDeepFields_eq (fields : List (Text × Value N)) :
    sortDeepFields fields = fields.map fun p ↦ (p.1, sortDeep p.2) := by
  induction fields with
  | nil => rfl
  | cons p fields ih => rw [sortDeepFields, ih]; rfl

theorem map_fst_sortDeepFields (fields : List (Text × Value N)) :
    (sortDeepFields fields).map Prod.fst = fields.map Prod.fst := by
  rw [sortDeepFields_eq, List.map_map]
  rfl

/-- What is assigned of some fields. -/
def shown (fields : List (Text × Value N)) : List (Text × Value N) :=
  fields.filter fun p ↦ !isProto p.1

theorem pairwise_sortedFields (fields : List (Text × Value N)) :
    (sortedFields fields).Pairwise fun p q ↦ textLe p.1 q.1 = true := by
  have htotal : Std.Total fun p q : Text × Value N ↦ textLe p.1 q.1 = true :=
    ⟨fun p q ↦ lexLe_total _ _⟩
  have htrans : IsTrans (Text × Value N) fun p q ↦ textLe p.1 q.1 = true :=
    ⟨fun p q r ↦ lexLe_trans⟩
  exact List.pairwise_insertionSort _ fields

/-- The order of the keys does not show. -/
theorem assigned_sortedFields_iff {fields fields' : List (Text × Value N)}
    (h : (fields.map Prod.fst).Nodup) (h' : (fields'.map Prod.fst).Nodup) :
    assigned (sortedFields fields) = assigned (sortedFields fields') ↔
      (shown fields).Perm (shown fields') := by
  have hperm : ∀ l : List (Text × Value N), (sortedFields l).Perm l :=
    List.perm_insertionSort _
  have hnodup : ∀ {l : List (Text × Value N)}, (l.map Prod.fst).Nodup →
      (((sortedFields l).filter fun p ↦ !isProto p.1).map Prod.fst).Nodup := fun {l} hl ↦
    (((hperm l).filter _).map _).nodup_iff.2 (hl.sublist (List.filter_sublist.map _))
  have hassigned : ∀ {l : List (Text × Value N)}, (l.map Prod.fst).Nodup →
      (assigned (sortedFields l)).Perm (shown l) := fun {l} hl ↦
    (perm_properties (hnodup hl)).trans ((hperm l).filter _)
  constructor
  · intro heq
    exact (hassigned h).symm.trans (heq ▸ hassigned h')
  · intro hshown
    have hfilter : (sortedFields fields).filter (fun p ↦ !isProto p.1) =
        (sortedFields fields').filter fun p ↦ !isProto p.1 := by
      refine @List.Perm.eq_of_pairwise _ (fun p q ↦ textLe p.1 q.1 = true) _ _ ?_
        ((pairwise_sortedFields fields).filter _) ((pairwise_sortedFields fields').filter _)
        (((hperm fields).filter _).trans (hshown.trans ((hperm fields').filter _).symm))
      intro p q hp hq hle hge
      have hkey : p.1 = q.1 := textLe_antisymm hle hge
      have hp' : p ∈ shown fields' := hshown.mem_iff.1 (((hperm fields).filter _).mem_iff.1 hp)
      have hq' : q ∈ shown fields' := ((hperm fields').filter _).mem_iff.1 hq
      exact List.inj_on_of_nodup_map h' (List.mem_filter.1 hp').1 (List.mem_filter.1 hq').1 hkey
    rw [assigned, assigned, hfilter]

/-- Two lists of fields with distinct keys are permutations of each other if one has as many as the
other and all of them. -/
theorem perm_iff_of_nodup {fields fields' : List (Text × Value N)}
    (h : (fields.map Prod.fst).Nodup) :
    fields.Perm fields' ↔ fields.length = fields'.length ∧ ∀ p ∈ fields, p ∈ fields' := by
  constructor
  · exact fun hperm ↦ ⟨hperm.length_eq, fun p hp ↦ hperm.mem_iff.1 hp⟩
  · rintro ⟨hlength, hsubset⟩
    exact (List.subperm_of_subset h.of_map hsubset).perm_of_length_le hlength.ge

mutual

/-- **The canonical form shows a value up to the order of keys**, but for `__proto__`. -/
theorem sortDeep_eq_iff : ∀ {v w : Value N}, normalize v = v → normalize w = w →
    (sortDeep v = sortDeep w ↔ SameShown v w)
  | .array items, w, hv, hw => by
    cases w with
    | array items' =>
      rw [sortDeep, sortDeep, Value.array.injEq]
      exact sortDeepItems_eq_iff (normalize_items hv) (normalize_items hw)
    | _ => simp [sortDeep, SameShown, SameBut]
  | .object fields, w, hv, hw => by
    cases w with
    | object fields' =>
      obtain ⟨hnodup, hvalues⟩ := normalize_fields hv
      obtain ⟨hnodup', hvalues'⟩ := normalize_fields hw
      rw [← map_fst_sortDeepFields] at hnodup hnodup'
      rw [sortDeep, sortDeep, Value.object.injEq, assigned_sortedFields_iff hnodup hnodup',
        @perm_iff_of_nodup _ (shown _) _ (hnodup.sublist (List.filter_sublist.map _))]
      have hshown : ∀ l : List (Text × Value N), shown (sortDeepFields l) =
          (shown l).map fun p ↦ (p.1, sortDeep p.2) := fun l ↦ by
        rw [sortDeepFields_eq, shown, List.filter_map]
        rfl
      have hfields := sameFields_iff hvalues hvalues'
      show _ ↔ (shown fields).length = (shown fields').length ∧ SameFields isProto fields fields'
      rw [hshown, hshown, List.length_map, List.length_map, hfields]
      refine and_congr_right fun _ ↦ ?_
      rw [List.forall_mem_map]
      simp only [shown, List.mem_filter, Bool.not_eq_true']
      constructor
      · intro h p hp hkept
        obtain ⟨q, hq, heq⟩ := List.mem_map.1 (h p ⟨hp, hkept⟩)
        obtain ⟨hkey, hvalue⟩ := Prod.mk.inj heq
        exact ⟨q.2, by rw [← hkey]; exact (List.mem_filter.1 hq).1, hvalue.symm⟩
      · rintro h p ⟨hp, hkept⟩
        obtain ⟨w, hw, hvalue⟩ := h p hp hkept
        exact List.mem_map.2 ⟨(p.1, w), List.mem_filter.2 ⟨hw, by rw [hkept]; rfl⟩,
          by rw [hvalue]⟩
    | _ => simp [sortDeep, SameShown, SameBut]
  | .null, w, _, _ => by cases w <;> simp [sortDeep, SameShown, SameBut]
  | .bool _, w, _, _ => by cases w <;> simp [sortDeep, SameShown, SameBut]
  | .number _, w, _, _ => by cases w <;> simp [sortDeep, SameShown, SameBut]
  | .string _, w, _, _ => by cases w <;> simp [sortDeep, SameShown, SameBut]

theorem sortDeepItems_eq_iff : ∀ {items items' : List (Value N)},
    (∀ v ∈ items, normalize v = v) → (∀ w ∈ items', normalize w = w) →
    (sortDeepItems items = sortDeepItems items' ↔ SameItems isProto items items')
  | [], [], _, _ => iff_of_true rfl trivial
  | [], _ :: _, _, _ => iff_of_false (by rw [sortDeepItems, sortDeepItems]; exact nofun) id
  | _ :: _, [], _, _ => iff_of_false (by rw [sortDeepItems, sortDeepItems]; exact nofun) id
  | v :: items, w :: items', hv, hw => by
    rw [sortDeepItems, sortDeepItems, List.cons.injEq]
    exact and_congr (sortDeep_eq_iff (hv v List.mem_cons_self) (hw w List.mem_cons_self))
      (sortDeepItems_eq_iff (fun x hx ↦ hv x (List.mem_cons_of_mem _ hx))
        fun x hx ↦ hw x (List.mem_cons_of_mem _ hx))

theorem sameFields_iff : ∀ {fields fields' : List (Text × Value N)},
    (∀ p ∈ fields, normalize p.2 = p.2) → (∀ q ∈ fields', normalize q.2 = q.2) →
    (SameFields isProto fields fields' ↔ ∀ p ∈ fields, isProto p.1 = false →
      ∃ w, (p.1, w) ∈ fields' ∧ sortDeep p.2 = sortDeep w)
  | [], _, _, _ => iff_of_true trivial fun _ h ↦ absurd h List.not_mem_nil
  | (k, v) :: fields, fields', hv, hw => by
    rw [SameFields, List.forall_mem_cons]
    refine and_congr (imp_congr_right fun _ ↦ exists_congr fun w ↦ and_congr_right fun hmem ↦ ?_)
      (sameFields_iff (fun p hp ↦ hv p (List.mem_cons_of_mem _ hp)) hw)
    exact (sortDeep_eq_iff (hv (k, v) List.mem_cons_self) (hw (k, w) hmem)).symm

end

/-! ### What is equal shows nothing else -/

/-- A property of the fields that are not ignored. -/
theorem forall_of_sameFields {ignored : Text → Bool} : ∀ {fields fields' : List (Text × Value N)},
    SameFields ignored fields fields' → ∀ p ∈ fields, ignored p.1 = false →
      ∃ w, (p.1, w) ∈ fields' ∧ SameBut ignored p.2 w
  | [], _, _, _, hp, _ => absurd hp List.not_mem_nil
  | (k, v) :: fields, fields', h, p, hp, hkept => by
    rw [SameFields] at h
    rcases List.mem_cons.1 hp with rfl | hp
    · exact h.1 hkept
    · exact forall_of_sameFields h.2 p hp hkept

theorem length_shown_eq {fields fields' : List (Text × Value N)}
    (h : (fields.map Prod.fst).Nodup) (hlength : fields.length = fields'.length)
    (hkeys : ∀ p ∈ fields, p.1 ∈ fields'.map Prod.fst) :
    (shown fields).length = (shown fields').length := by
  have hperm : (fields.map Prod.fst).Perm (fields'.map Prod.fst) := by
    refine (List.subperm_of_subset h fun k hk ↦ ?_).perm_of_length_le (by simp [hlength])
    obtain ⟨p, hp, rfl⟩ := List.mem_map.1 hk
    exact hkeys p hp
  have hcount : ∀ l : List (Text × Value N),
      (shown l).length = ((l.map Prod.fst).filter fun k ↦ !isProto k).length := fun l ↦ by
    rw [List.filter_map, List.length_map]
    rfl
  rw [hcount, hcount, (hperm.filter _).length_eq]

mutual

theorem sameShown_of_same : ∀ {v w : Value N}, normalize v = v → normalize w = w → Same v w →
    SameShown v w
  | .array _, w, hv, hw, h => by
    cases w with
    | array _ => exact sameShown_items (normalize_items hv) (normalize_items hw) h
    | _ => exact h
  | .object fields, w, hv, hw, h => by
    cases w with
    | object fields' =>
      obtain ⟨hnodup, hvalues⟩ := normalize_fields hv
      obtain ⟨-, hvalues'⟩ := normalize_fields hw
      obtain ⟨hlength, hfields⟩ := h
      simp only [Bool.not_false, List.filter_true] at hlength
      refine ⟨length_shown_eq hnodup hlength fun p hp ↦ ?_,
        sameShown_fields hvalues hvalues' hfields⟩
      obtain ⟨w, hw, -⟩ := forall_of_sameFields hfields p hp rfl
      exact List.mem_map.2 ⟨(p.1, w), hw, rfl⟩
    | _ => exact h
  | .null, w, _, _, h => by cases w <;> exact h
  | .bool _, w, _, _, h => by cases w <;> exact h
  | .number _, w, _, _, h => by cases w <;> exact h
  | .string _, w, _, _, h => by cases w <;> exact h

theorem sameShown_items : ∀ {items items' : List (Value N)}, (∀ v ∈ items, normalize v = v) →
    (∀ w ∈ items', normalize w = w) → SameItems (fun _ ↦ false) items items' →
    SameItems isProto items items'
  | [], [], _, _, h => h
  | [], _ :: _, _, _, h => h
  | _ :: _, [], _, _, h => h
  | v :: _, w :: _, hv, hw, h =>
    ⟨sameShown_of_same (hv v List.mem_cons_self) (hw w List.mem_cons_self) h.1,
      sameShown_items (fun x hx ↦ hv x (List.mem_cons_of_mem _ hx))
        (fun x hx ↦ hw x (List.mem_cons_of_mem _ hx)) h.2⟩

theorem sameShown_fields : ∀ {fields fields' : List (Text × Value N)},
    (∀ p ∈ fields, normalize p.2 = p.2) → (∀ q ∈ fields', normalize q.2 = q.2) →
    SameFields (fun _ ↦ false) fields fields' → SameFields isProto fields fields'
  | [], _, _, _, _ => trivial
  | (k, v) :: fields, fields', hv, hw, h => by
    rw [SameFields] at h ⊢
    refine ⟨fun _ ↦ ?_, sameShown_fields (fun p hp ↦ hv p (List.mem_cons_of_mem _ hp)) hw h.2⟩
    obtain ⟨w, hmem, hsame⟩ := h.1 rfl
    exact ⟨w, hmem, sameShown_of_same (hv (k, v) List.mem_cons_self) (hw (k, w) hmem) hsame⟩

end

/-! ### The chain -/

/-- `EvidenceChain` -/
structure EvidenceChain (N : Type) where
  steps : List (Value N)
  head : Bytes32

/-- A chain without steps. -/
def EvidenceChain.empty : EvidenceChain N :=
  ⟨[], 0⟩

/-- `append` -/
def EvidenceChain.append (J : JsNumbers N) (c : EvidenceChain N) (step : Value N) :
    EvidenceChain N :=
  ⟨c.steps ++ [step], appendStep J c.head step⟩

/-- `export` -/
def EvidenceChain.export_ (c : EvidenceChain N) : List (Value N) :=
  c.steps

/-- `append` of some steps, one after another. -/
def EvidenceChain.of (J : JsNumbers N) (steps : List (Value N)) : EvidenceChain N :=
  steps.foldl (EvidenceChain.append J) .empty

/-- `recompute` of steps that were serialised as JSON and read again. -/
def recomputeText (J : JsNumbers N) (t : Text) : Option Bytes32 :=
  match parse J.numerals t with
  | some (.array steps) => some (recompute J steps)
  | _ => none

/-- What is hashed for the hash of some steps. -/
def evidencePreimages (J : JsNumbers N) (steps : List (Value N)) : Set Bytes :=
  {b | ∃ p ∈ Chain.links (appendStep J) 0 steps,
    b = wordBytes p.1 ++ Text.utf8 (canonicalJson J p.2)}

/-- No two preimages hash to one word, and none to the zero word a chain starts with. -/
structure NoCollision (S : Set Bytes) : Prop where
  free : CollisionFree keccak256 S
  nonzero : ∀ b ∈ S, keccak256 b ≠ 0

theorem export_of (J : JsNumbers N) (steps : List (Value N)) :
    (EvidenceChain.of J steps).export_ = steps ∧
      (EvidenceChain.of J steps).head = recompute J steps := by
  induction steps using List.reverseRecOn with
  | nil => exact ⟨rfl, rfl⟩
  | append_singleton steps step ih =>
    have hof : EvidenceChain.of J (steps ++ [step]) = (EvidenceChain.of J steps).append J step :=
      List.foldl_append ..
    have hrecompute : recompute J (steps ++ [step]) = appendStep J (recompute J steps) step :=
      List.foldl_append ..
    rw [hof, hrecompute, ← ih.2]
    exact ⟨congrArg (· ++ [step]) ih.1, rfl⟩

/-- The hash of a chain is that of its steps, also after a round trip. -/
theorem hash_export (J : JsNumbers N) {steps : List (Value N)}
    (h : ∀ s ∈ steps, normalize s = s) :
    (EvidenceChain.of J steps).head = recompute J (EvidenceChain.of J steps).export_ ∧
      recomputeText J (print J.numerals (.array (EvidenceChain.of J steps).export_)) =
        some (EvidenceChain.of J steps).head := by
  obtain ⟨hexport, hhead⟩ := export_of J steps
  rw [hexport, hhead, recomputeText, parse_print J.numerals (normalize_array h)]
  exact ⟨rfl, rfl⟩

/-- `append`, on a step in canonical form. -/
def link (J : JsNumbers N) (head : Bytes32) (step : Value N) : Bytes32 :=
  keccak256 (wordBytes head ++ Text.utf8 (print J.numerals step))

theorem appendStep_eq (J : JsNumbers N) (head : Bytes32) (step : Value N) :
    appendStep J head step = link J head (sortDeep step) := by
  rw [appendStep, link, canonicalJson]

theorem recompute_eq (J : JsNumbers N) (steps : List (Value N)) :
    recompute J steps = (steps.map sortDeep).foldl (link J) 0 := by
  rw [List.foldl_map, recompute, show appendStep J = fun head step ↦ link J head (sortDeep step)
    from funext₂ (appendStep_eq J)]

theorem links_map_sortDeep (J : JsNumbers N) (head : Bytes32) (steps : List (Value N)) :
    Chain.links (link J) head (steps.map sortDeep) =
      (Chain.links (appendStep J) head steps).map fun p ↦ (p.1, sortDeep p.2) := by
  induction steps generalizing head with
  | nil => rfl
  | cons step steps ih =>
    rw [List.map_cons, Chain.links, Chain.links, List.map_cons, ih, appendStep_eq]

/-- **The hash tells what the canonical forms tell.** -/
theorem map_sortDeep_of_recompute (J : JsNumbers N) {a b : List (Value N)}
    (hfree : NoCollision (evidencePreimages J a ∪ evidencePreimages J b))
    (h : recompute J a = recompute J b) : a.map sortDeep = b.map sortDeep := by
  have hmem : ∀ {steps : List (Value N)}, ∀ p ∈ Chain.links (link J) 0 (steps.map sortDeep),
      wordBytes p.1 ++ Text.utf8 (print J.numerals p.2) ∈ evidencePreimages J steps := by
    intro steps p hp
    rw [links_map_sortDeep] at hp
    obtain ⟨q, hq, rfl⟩ := List.mem_map.1 hp
    exact ⟨q, hq, rfl⟩
  rw [recompute_eq, recompute_eq] at h
  refine Chain.eq_of_foldl_eq ?_ ?_ ?_ h
  · intro p hp q hq heq
    rw [link, link] at heq
    obtain ⟨hhead, hbytes⟩ :=
      wordBytes_append_inj (hfree.free.eq (.inl (hmem p hp)) (.inr (hmem q hq)) heq)
    exact Prod.ext hhead (print_injective J.numerals (Text.utf8_injective hbytes))
  · intro p hp
    rw [link]
    exact hfree.nonzero _ (.inl (hmem p hp))
  · intro q hq
    rw [link]
    exact hfree.nonzero _ (.inr (hmem q hq))

/-! ### What is bound -/

/-- The hash of evidence binds it. -/
structure Bound (J : JsNumbers N) (a b : List (Value N)) : Prop where
  /-- two lists of steps have one hash if and only if they are equal -/
  hash : recompute J a = recompute J b ↔ List.Forall₂ Same a b
  /-- the hash of a chain is that of its steps, also after a round trip -/
  chain (steps : List (Value N)) (h : ∀ s ∈ steps, normalize s = s) :
    (EvidenceChain.of J steps).head = recompute J (EvidenceChain.of J steps).export_ ∧
      recomputeText J (print J.numerals (.array (EvidenceChain.of J steps).export_)) =
        some (EvidenceChain.of J steps).head

theorem forall₂_sameShown_iff {a b : List (Value N)} (ha : ∀ s ∈ a, normalize s = s)
    (hb : ∀ s ∈ b, normalize s = s) :
    a.map sortDeep = b.map sortDeep ↔ List.Forall₂ SameShown a b := by
  induction a generalizing b with
  | nil =>
    cases b with
    | nil => simp
    | cons w b => simp
  | cons v a ih =>
    cases b with
    | nil => simp
    | cons w b =>
      rw [List.map_cons, List.map_cons, List.cons.injEq, List.forall₂_cons,
        sortDeep_eq_iff (ha v List.mem_cons_self) (hb w List.mem_cons_self),
        ih (fun x hx ↦ ha x (List.mem_cons_of_mem _ hx)) fun x hx ↦ hb x (List.mem_cons_of_mem _ hx)]

/-- **The hash binds evidence, unless steps differ in fields named `__proto__` alone.** -/
theorem evidence_bound_iff (J : JsNumbers N) {a b : List (Value N)}
    (ha : ∀ s ∈ a, normalize s = s) (hb : ∀ s ∈ b, normalize s = s)
    (hfree : NoCollision (evidencePreimages J a ∪ evidencePreimages J b)) :
    Bound J a b ↔ (List.Forall₂ SameShown a b → List.Forall₂ Same a b) := by
  have hhash : recompute J a = recompute J b ↔ List.Forall₂ SameShown a b := by
    rw [← forall₂_sameShown_iff ha hb]
    refine ⟨map_sortDeep_of_recompute J hfree, fun h ↦ ?_⟩
    rw [recompute_eq, recompute_eq, h]
  have hsame : List.Forall₂ Same a b → List.Forall₂ SameShown a b := by
    intro h
    rw [List.forall₂_iff_get] at h ⊢
    exact ⟨h.1, fun i hi hi' ↦ sameShown_of_same (ha _ (List.get_mem _ _)) (hb _ (List.get_mem _ _))
      (h.2 i hi hi')⟩
  constructor
  · exact fun h hshown ↦ h.hash.1 (hhash.2 hshown)
  · exact fun h ↦ ⟨hhash.trans ⟨h, hsame⟩, fun steps hsteps ↦ hash_export J hsteps⟩

/-- A step with its keys in an order of its own. -/
def sampleStep (payload : List (Text × Value ℤ)) : Value ℤ :=
  .object [("step".toList, .string "aml".toList), ("at".toList, .number 0),
    ("payload".toList, .object payload)]

/-- The same step with its keys in another order. -/
def sampleStep' (payload : List (Text × Value ℤ)) : Value ℤ :=
  .object [("at".toList, .number 0), ("payload".toList, .object payload),
    ("step".toList, .string "aml".toList)]

/-- A payload whose only field is named `__proto__`. -/
def protoPayload : List (Text × Value ℤ) :=
  [("__proto__".toList, .object [("hits".toList, .number 1)])]

/-- What all of these steps show. -/
def sampleCanonical : Text :=
  "\x7b\"at\":0,\"payload\":\x7b\x7d,\"step\":\"aml\"\x7d".toList

theorem eq_of_mem_evidencePreimages {v : Value ℤ} {b : Bytes}
    (h : b ∈ evidencePreimages wholeNumbers [v]) :
    b = wordBytes 0 ++ Text.utf8 (canonicalJson wholeNumbers v) := by
  obtain ⟨p, hp, hb⟩ := h
  rw [Chain.links, Chain.links] at hp
  rw [hb, List.mem_singleton.1 hp]

theorem noCollision_sampleCanonical {v w : Value ℤ}
    (hv : canonicalJson wholeNumbers v = sampleCanonical)
    (hw : canonicalJson wholeNumbers w = sampleCanonical) :
    NoCollision (evidencePreimages wholeNumbers [v] ∪ evidencePreimages wholeNumbers [w]) := by
  have hnonzero : keccak256 (wordBytes 0 ++ Text.utf8 sampleCanonical) ≠ 0 := by decide +kernel
  have hall : ∀ b ∈ evidencePreimages wholeNumbers [v] ∪ evidencePreimages wholeNumbers [w],
      b = wordBytes 0 ++ Text.utf8 sampleCanonical := by
    intro b hb
    rcases Set.mem_union _ _ _ |>.1 hb with hb | hb
    · rw [eq_of_mem_evidencePreimages hb, hv]
    · rw [eq_of_mem_evidencePreimages hb, hw]
  exact ⟨fun a ha b hb _ ↦ (hall a ha).trans (hall b hb).symm, fun b hb ↦ hall b hb ▸ hnonzero⟩

theorem eq_of_print {v w : Value ℤ} (h : print integers v = print integers w) : v = w :=
  print_injective integers h

theorem normalize_sampleSteps : (∀ s ∈ [sampleStep []], normalize s = s) ∧
    (∀ s ∈ [sampleStep' []], normalize s = s) ∧
    ∀ s ∈ [sampleStep protoPayload], normalize s = s := by
  simp only [List.forall_mem_singleton]
  exact ⟨eq_of_print (by decide +kernel), eq_of_print (by decide +kernel),
    eq_of_print (by decide +kernel)⟩

theorem same_sampleSteps : Same (sampleStep []) (sampleStep' []) := by
  refine ⟨rfl, fun _ ↦ ⟨_, .tail _ (.tail _ (.head _)), rfl⟩,
    fun _ ↦ ⟨_, .head _, rfl⟩, fun _ ↦ ⟨_, .tail _ (.head _), rfl, trivial⟩, trivial⟩

/-- The order of the keys is not bound, the rest is. -/
theorem evidence_bound_sampleStep : Bound wholeNumbers [sampleStep []] [sampleStep' []] :=
  (evidence_bound_iff wholeNumbers normalize_sampleSteps.1 normalize_sampleSteps.2.1
    (noCollision_sampleCanonical (by decide +kernel) (by decide +kernel))).2 fun _ ↦
      .cons same_sampleSteps .nil

/-- Evidence under `__proto__` can be left out without a trace. -/
theorem evidence_unbound_proto : ¬∀ a b : List (Value ℤ), (∀ s ∈ a, normalize s = s) →
    (∀ s ∈ b, normalize s = s) →
    NoCollision (evidencePreimages wholeNumbers a ∪ evidencePreimages wholeNumbers b) →
    Bound wholeNumbers a b := by
  intro h
  have hbound := h [sampleStep protoPayload] [sampleStep []] normalize_sampleSteps.2.2
    normalize_sampleSteps.1
    (noCollision_sampleCanonical (by decide +kernel) (by decide +kernel))
  have hsort : sortDeep (sampleStep protoPayload) = sortDeep (sampleStep []) :=
    eq_of_print (by decide +kernel)
  have hhash : recompute wholeNumbers [sampleStep protoPayload] =
      recompute wholeNumbers [sampleStep []] := by
    rw [recompute_eq, recompute_eq, List.map_singleton, hsort, List.map_singleton]
  obtain ⟨hstep, -⟩ := List.forall₂_cons.1 (hbound.hash.1 hhash)
  obtain ⟨w, hw, hpayload⟩ := forall_of_sameFields hstep.2
    ("payload".toList, .object protoPayload) (.tail _ (.tail _ (.head _))) rfl
  rcases hw with _ | ⟨_, _ | ⟨_, _ | ⟨_, hw⟩⟩⟩
  · exact absurd hpayload.1 (by decide)
  · exact absurd hw List.not_mem_nil

end Proofmark.Pipeline
