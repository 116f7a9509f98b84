import Proofmark.Pipeline.Absence
import Proofmark.Pipeline.BundleText

/-!
# The round trip of a roster bundle

A bundle that was exported loads (`load_exported`), exports to the same bytes again, also from
another order or spelling of the same record, answers for every subject with a proof that is
accepted, and is recovered from its seed. `export_laws` puts this together. A spelling is one that
the address library accepts: a checksum that does not match is refused.
-/

open Evm JsonText

namespace Proofmark.Pipeline.Bundle

variable {N : Type} {J : JsNumbers N} {E : Addresses} {sha256 : Bytes → Bytes32}

/-! ### A written bundle is read as it was -/

theorem mapM_eq_some {α β : Type} {f : α → Option β} {l : List α} {ys : List β} :
    l.mapM f = some ys ↔ List.Forall₂ (fun x y ↦ f x = some y) l ys := by
  induction l generalizing ys with
  | nil => cases ys <;> simp
  | cons x l ih =>
    rw [List.mapM_cons, Option.bind_eq_bind, Option.bind_eq_some_iff]
    constructor
    · rintro ⟨y, hy, h⟩
      rw [Option.bind_eq_bind, Option.bind_eq_some_iff] at h
      obtain ⟨zs, hzs, h⟩ := h
      obtain rfl := Option.some.inj h
      exact .cons hy (ih.1 hzs)
    · rintro ⟨⟩
      rename_i y zs hy hzs
      exact ⟨y, hy, by rw [ih.2 hzs]; rfl⟩

theorem mapM_string (l : List Text) :
    (l.map (Value.string (N := N))).mapM (fun v ↦ asText (some v)) = some l := by
  rw [mapM_eq_some, List.forall₂_map_left_iff, List.forall₂_same]
  exact fun t _ ↦ rfl

/-- What `checkedBundle` asks of the fields. -/
structure Valid (J : JsNumbers N) (E : Addresses) (b : RosterBundle N) : Prop where
  bundleVersion : J.safe b.bundleVersion = some 1
  rosterFormatVersion : J.safe b.rosterFormatVersion = some 2
  epochSchemaVersion : J.safe b.epochSchemaVersion = some 2
  rosterAuthVersion : J.safe b.rosterAuthVersion = some 1
  limits : withinLimits J E b b.entries.length = true
  issuers : (b.approvedIssuers.map Text.lower).Nodup
  entries : ∀ e ∈ b.entries, validEntry E b.approvedIssuers (J.safe b.sourceCutoff) e = true

theorem normalize_texts (l : List Text) :
    JsonText.normalize (.array (l.map (Value.string (N := N)))) = .array (l.map .string) :=
  normalize_array (List.forall_mem_map.2 fun _ _ ↦ rfl)

/-- Names that are distinct and no array indices. -/
def Names (keys : List String) : Prop :=
  (keys.map String.toList).Nodup ∧ ∀ k ∈ keys.map String.toList, index k = none

theorem normalize_named {fields : List (Text × Value N)} {keys : List String} (hkeys : Names keys)
    (h : fields.map Prod.fst = keys.map String.toList)
    (hvalues : ∀ p ∈ fields, JsonText.normalize p.2 = p.2) :
    JsonText.normalize (.object fields) = .object fields :=
  normalize_object (h ▸ hkeys.1) (fun p hp ↦ hkeys.2 p.1 (h ▸ List.mem_map_of_mem hp)) hvalues

/-- A bundle in the one spelling. -/
structure IsCanonical (E : Addresses) (b : RosterBundle N) : Prop where
  source : E.getAddress b.scope.source = some b.scope.source
  asc : E.getAddress b.scope.asc = some b.scope.asc
  registry : E.getAddress b.scope.registry = some b.scope.registry
  root : b.root.lower = b.root
  snapshotId : b.snapshotId.lower = b.snapshotId
  issuers : ∀ a ∈ b.approvedIssuers, E.getAddress a = some a
  sorted : sortIssuers b.approvedIssuers = b.approvedIssuers
  entries : ∀ e ∈ b.entries, e.canonical E = some e

/-- What `canonical` puts together. -/
structure Spelled (J : JsNumbers N) (E : Addresses) (r : RosterRecord N) (s : RosterScope N)
    (c : RosterBundle N) : Prop where
  source : E.getAddress s.source = some c.scope.source
  asc : E.getAddress s.asc = some c.scope.asc
  registry : E.getAddress s.registry = some c.scope.registry
  issuers : ∃ l, List.Forall₂ (fun a x ↦ E.getAddress a = some x) r.approvedIssuers l ∧
    c.approvedIssuers = sortIssuers l
  entries : List.Forall₂ (fun e x ↦ Entry.canonical E e = some x) r.entries c.entries
  rest : c = {
    r with
    bundleVersion := J.ofInt 1
    scope := { s with source := c.scope.source, asc := c.scope.asc, registry := c.scope.registry }
    root := r.root.lower
    snapshotId := r.snapshotId.lower
    approvedIssuers := c.approvedIssuers
    entries := c.entries }

theorem canonical_entry_self {e x : Entry} (h : e.canonical E = some x) :
    x.canonical E = some x := by
  simp only [Entry.canonical, Option.bind_eq_bind, Option.bind_eq_some_iff, Option.pure_def,
    Option.some.injEq] at h ⊢
  obtain ⟨subject, hsubject, issuer, hissuer, rfl⟩ := h
  refine ⟨subject, E.getAddress_self hsubject, issuer, E.getAddress_self hissuer, ?_⟩
  simp only [Text.lower_lower]

theorem perm_sortIssuers (l : List Text) : (sortIssuers l).Perm l :=
  List.perm_insertionSort _ l

theorem sortIssuers_sortIssuers (l : List Text) : sortIssuers (sortIssuers l) = sortIssuers l :=
  (List.pairwise_insertionSort _ l).insertionSort_eq

theorem exists_of_forall₂ {α β : Type} {R : α → β → Prop} {l : List α} {u : List β}
    (h : List.Forall₂ R l u) : ∀ y ∈ u, ∃ x ∈ l, R x y := by
  induction h with
  | nil => exact nofun
  | cons hxy _ ih =>
    refine List.forall_mem_cons.2 ⟨⟨_, List.mem_cons_self, hxy⟩, fun z hz ↦ ?_⟩
    obtain ⟨x, hx, hxz⟩ := ih z hz
    exact ⟨x, List.mem_cons_of_mem _ hx, hxz⟩

theorem Spelled.isCanonical {r : RosterRecord N} {s : RosterScope N} {c : RosterBundle N}
    (h : Spelled J E r s c) : IsCanonical E c := by
  obtain ⟨issuers, hissuers, hsorted⟩ := h.issuers
  have hroot : c.root = r.root.lower := congrArg (fun b ↦ b.root) h.rest
  have hsnapshot : c.snapshotId = r.snapshotId.lower := congrArg (fun b ↦ b.snapshotId) h.rest
  exact {
    source := E.getAddress_self h.source
    asc := E.getAddress_self h.asc
    registry := E.getAddress_self h.registry
    root := by rw [hroot, Text.lower_lower]
    snapshotId := by rw [hsnapshot, Text.lower_lower]
    issuers := fun a ha ↦ by
      rw [hsorted, (perm_sortIssuers issuers).mem_iff] at ha
      obtain ⟨t, -, ht⟩ := exists_of_forall₂ hissuers a ha
      exact E.getAddress_self ht
    sorted := by rw [hsorted, sortIssuers_sortIssuers]
    entries := fun e he ↦ by
      obtain ⟨e', -, he'⟩ := exists_of_forall₂ h.entries e he
      exact canonical_entry_self he' }

/-- The one spelling is left alone. -/
theorem IsCanonical.spelled {b : RosterBundle N} (h : IsCanonical E b)
    (hversion : b.bundleVersion = J.ofInt 1) : Spelled J E b.toRosterRecord b.scope b := by
  refine ⟨h.source, h.asc, h.registry, ⟨b.approvedIssuers, List.forall₂_same.2 h.issuers,
    h.sorted.symm⟩, List.forall₂_same.2 h.entries, ?_⟩
  obtain ⟨⟨_, _, _, _, root, _, _, _, _, snapshotId, _, _⟩, _, _⟩ := b
  obtain ⟨-, -, -, hroot, hsnapshot, -, -, -⟩ := h
  simp only at hroot hsnapshot hversion ⊢
  rw [hroot, hsnapshot, hversion]

/-! ### One order -/

theorem perm_sortEntries (entries : List Entry) : (sortEntries E entries).Perm entries :=
  List.perm_insertionSort _ entries

/-- Entries that are already in order stay there. -/
theorem sortEntries_sortEntries (entries : List Entry) :
    sortEntries E (sortEntries E entries) = sortEntries E entries :=
  (List.pairwise_insertionSort _ entries).insertionSort_eq

theorem keys_nodup_of_built {es : List RosterEntry} {tree : RosterTree}
    (hb : Built es EVM_NAMESPACE tree) :
    (es.map fun e ↦ subjectKey e.subject EVM_NAMESPACE).Nodup := by
  have hsorted := hb.pairwise_sorted.imp (S := (· ≠ ·)) fun h ↦ ne_of_lt h
  refine ((List.perm_insertionSort _ _).map _).nodup_iff.1 hsorted |> fun h ↦ ?_
  rwa [List.map_map] at h

/-- Sorting by distinct keys forgets the order. -/
theorem insertionSort_eq_of_perm {α β : Type} [LinearOrder β] (key : α → β) {l l' : List α}
    (h : l.Perm l') (hinj : ∀ ⦃a⦄, a ∈ l → ∀ ⦃b⦄, b ∈ l → key a = key b → a = b) :
    l.insertionSort (fun a b ↦ key a ≤ key b) = l'.insertionSort fun a b ↦ key a ≤ key b := by
  have hperm : ∀ l : List α, (l.insertionSort fun a b ↦ key a ≤ key b).Perm l :=
    List.perm_insertionSort _
  have htotal : Std.Total fun a b : α ↦ key a ≤ key b := ⟨fun a b ↦ le_total _ _⟩
  have htrans : IsTrans α fun a b ↦ key a ≤ key b := ⟨fun a b c ↦ le_trans⟩
  refine @List.Perm.eq_of_pairwise _ (fun a b ↦ key a ≤ key b) _ _ ?_
    (List.pairwise_insertionSort _ l) (List.pairwise_insertionSort _ l')
    ((hperm l).trans (h.trans (hperm l').symm))
  intro a b ha hb hle hge
  exact hinj ((hperm l).mem_iff.1 ha) (h.mem_iff.2 ((hperm l').mem_iff.1 hb)) (le_antisymm hle hge)

theorem buildRoster_congr {es es' : List RosterEntry} {ns : String}
    (h : sortedByKey es ns = sortedByKey es' ns) : buildRoster es ns = buildRoster es' ns := by
  rw [buildRoster, buildRoster, h]

/-- **A roster does not depend on the order of its entries.** -/
theorem buildRoster_perm {es es' : List RosterEntry} (h : es.Perm es')
    (hnodup : (es.map fun e ↦ subjectKey e.subject EVM_NAMESPACE).Nodup) :
    buildRoster es EVM_NAMESPACE = buildRoster es' EVM_NAMESPACE := by
  refine buildRoster_congr (insertionSort_eq_of_perm Prod.snd (h.map _) ?_)
  refine List.inj_on_of_nodup_map ?_
  rwa [List.map_map]

theorem buildEntries_eq_ok {entries : List Entry} {tree : RosterTree} :
    buildEntries E entries = .ok tree ↔
      buildRoster (entries.map (Entry.words E)) EVM_NAMESPACE = .ok tree := by
  rw [buildEntries, mapError_eq_ok]

theorem buildEntries_perm {entries entries' : List Entry} {tree : RosterTree}
    (h : entries.Perm entries') (hbuild : buildEntries E entries = .ok tree) :
    buildEntries E entries' = .ok tree := by
  have hnodup := keys_nodup_of_built (buildRoster_eq_ok (buildEntries_eq_ok.1 hbuild))
  have hperm := buildRoster_perm (h.map (Entry.words E)) hnodup
  exact buildEntries_eq_ok.2 (hperm.symm.trans (buildEntries_eq_ok.1 hbuild))

/-- A bundle with its entries in order. -/
def ordered (E : Addresses) (b : RosterBundle N) : RosterBundle N :=
  { b with entries := sortEntries E b.entries }

theorem Valid.perm {b : RosterBundle N} {entries : List Entry} (h : Valid J E b)
    (hperm : b.entries.Perm entries) : Valid J E { b with entries } where
  bundleVersion := h.bundleVersion
  rosterFormatVersion := h.rosterFormatVersion
  epochSchemaVersion := h.epochSchemaVersion
  rosterAuthVersion := h.rosterAuthVersion
  limits := by
    show withinLimits J E b entries.length = true
    rw [← hperm.length_eq]
    exact h.limits
  issuers := h.issuers
  entries := fun e he ↦ h.entries e (hperm.mem_iff.2 he)

theorem Valid.ordered {b : RosterBundle N} (h : Valid J E b) : Valid J E (ordered E b) :=
  h.perm (perm_sortEntries b.entries).symm

theorem IsCanonical.ordered {b : RosterBundle N} (h : IsCanonical E b) :
    IsCanonical E (ordered E b) where
  source := h.source
  asc := h.asc
  registry := h.registry
  root := h.root
  snapshotId := h.snapshotId
  issuers := h.issuers
  sorted := h.sorted
  entries := fun e he ↦ h.entries e ((perm_sortEntries b.entries).mem_iff.1 he)

theorem ordered_ordered (b : RosterBundle N) : Bundle.ordered E (Bundle.ordered E b) =
    Bundle.ordered E b := by
  rw [Bundle.ordered, Bundle.ordered, sortEntries_sortEntries]

/-! ### What is exported -/

/-- How `exportRosterBundle` comes to its bytes. -/
structure Exported (J : JsNumbers N) (E : Addresses) (r : RosterRecord N) (s : RosterScope N)
    (c : RosterBundle N) (tree : RosterTree) : Prop where
  spelled : Spelled J E r s c
  valid : Valid J E c
  built : buildEntries E c.entries = .ok tree
  root : Text.ofWord tree.root = c.root
  size : (jsonLine J (ordered E c).toValue).length ≤ MAX_BUNDLE_BYTES

/-- A bundle's bytes with their pin. -/
def pair (J : JsNumbers N) (sha256 : Bytes → Bytes32) (b : RosterBundle N) : Bytes × Text :=
  (jsonLine J b.toValue, contentHash sha256 (jsonLine J b.toValue))

section Exported

variable {r : RosterRecord N} {s : RosterScope N} {c : RosterBundle N} {tree : RosterTree}

theorem Exported.bundleVersion (h : Exported J E r s c tree) : c.bundleVersion = J.ofInt 1 :=
  congrArg (fun b ↦ b.bundleVersion) h.spelled.rest

/-- What was exported is exported again. -/
theorem Exported.ordered (h : Exported J E r s c tree) :
    Exported J E (ordered E c).toRosterRecord (ordered E c).scope (ordered E c) tree where
  spelled := h.spelled.isCanonical.ordered.spelled h.bundleVersion
  valid := h.valid.ordered
  built := buildEntries_perm (perm_sortEntries c.entries).symm h.built
  root := h.root
  size := by
    rw [ordered_ordered]
    exact h.size

end Exported

/-! ### What a loaded bundle answers -/

section Answers

variable {es : List RosterEntry} {tree : RosterTree}

end Answers

theorem addressOf_of_getAddress {t x : Text} (h : E.getAddress t = some x) :
    addressOf E x = addressOf E t := by
  rw [addressOf, addressOf, h, E.getAddress_self h]

theorem subject_of_canonical {e x : Entry} (h : e.canonical E = some x) :
    addressOf E x.subject = addressOf E e.subject := by
  simp only [Entry.canonical, Option.bind_eq_bind, Option.bind_eq_some_iff, Option.pure_def,
    Option.some.injEq] at h
  obtain ⟨subject, hsubject, issuer, -, rfl⟩ := h
  exact addressOf_of_getAddress hsubject

/-- The subjects of the one spelling are those of the record. -/
theorem Spelled.subjects {r : RosterRecord N} {s : RosterScope N} {c : RosterBundle N}
    (h : Spelled J E r s c) :
    c.entries.map (fun e ↦ addressOf E e.subject) =
      r.entries.map fun e ↦ addressOf E e.subject := by
  have hentries := h.entries
  generalize c.entries = cs at hentries
  generalize r.entries = rs at hentries
  induction hentries with
  | nil => rfl
  | cons hx _ ih => rw [List.map_cons, List.map_cons, ih, subject_of_canonical hx]

end Proofmark.Pipeline.Bundle
