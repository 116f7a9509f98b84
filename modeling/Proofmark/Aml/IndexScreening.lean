import Proofmark.Aml.IndexFormat
import Proofmark.Aml.SlimScreening
import Proofmark.Evm.Sha256
import Proofmark.Pipeline.Disclosure

/-!
# The compiled index screens like its sources

An index that was built reads as the entries it was built from, without what screening does not
read (`entries_of_buildIndex`). What the reader accepts is what its hash binds, without a repeated
key, and agrees with its provenance (`Accepted`).
-/

open Evm JsonText Proofmark.Pipeline
open Proofmark.Pipeline.Bundle (fieldArray mapM_string mapM_eq_some Names normalize_named)

namespace Proofmark.Aml

variable {N : Type}

/-- What the index keeps of an entry. -/
def ListedEntry.slim (e : ListedEntry) : ListedEntry :=
  { e with
    programs := []
    cryptoAddresses := e.cryptoAddresses.filter isWallet
    type := if e.type = .vessel then .unknown else e.type }

theorem screening_slim (e : ListedEntry) : e.slim.screening = e.screening.slim := by
  have haddresses : (e.cryptoAddresses.filter isWallet).map units =
      (e.cryptoAddresses.map units).filter isLowerAddress := by
    rw [List.filter_map]
    rfl
  rw [ListedEntry.slim, ListedEntry.screening, SanctionEntry.slim]
  exact congrArg _ haddresses

theorem ListedEntry.Lowered.screening {e : ListedEntry} (h : e.Lowered) : e.screening.Lowered := by
  intro a ha
  obtain ⟨t, ht, rfl⟩ := List.mem_map.1 ha
  exact h t ht

/-! ### The loop over the entries -/

/-- How many entries a list has, where it has any. -/
def tally (entries : List ListedEntry) (list : ListId) : Option ℤ :=
  let count := entries.countP fun e ↦ e.listId = list
  if count = 0 then none else some count

theorem getD_tally (entries : List ListedEntry) (list : ListId) :
    (tally entries list).getD 0 = (entries.countP fun e ↦ e.listId = list : ℕ) := by
  rw [tally]
  split
  case isTrue h => rw [h]; rfl
  case isFalse => rfl

theorem tally_concat (entries : List ListedEntry) (e : ListedEntry) :
    tally (entries ++ [e]) =
      Function.update (tally entries) e.listId (some ((tally entries e.listId).getD 0 + 1)) := by
  funext list
  rw [Function.update_apply, getD_tally]
  split
  case isTrue h =>
    subst h
    simp only [tally, List.countP_append, List.countP_singleton, decide_true, if_true]
    exact if_neg (by omega)
  case isFalse h =>
    simp only [tally, List.countP_append, List.countP_singleton, Ne.symm h, decide_false,
      Bool.false_eq_true, if_false, Nat.add_zero]

/-- The keys and the counts are those of the entries, and no key is repeated. -/
structure Reading.Tallied (s : Reading) : Prop where
  seen : s.seen = s.entries.map ListedEntry.key
  nodup : s.seen.Nodup
  counts : s.counts = tally s.entries

theorem Reading.tallied_start : Reading.start.Tallied :=
  ⟨rfl, List.nodup_nil, rfl⟩

namespace Runtime

section Slim

variable {R : Runtime N}

/-! ### A slim entry -/

theorem stringsOf_texts {v : Value N} {name : String} {l : List Text}
    (h : v.get name.toList = some (texts l)) : stringsOf v name = some l := by
  rw [stringsOf, fieldArray, h]
  exact mapM_string l

theorem safe_ofInt_lt {k : ℕ} (h : k < 2 ^ 32) :
    R.numbers.safe (R.numbers.ofInt k) = some (k : ℤ) :=
  R.numbers.safe_ofInt _ (by
    simp only [Pipeline.isSafeInteger, Bool.and_eq_true, decide_eq_true_eq]
    omega)

/-- **What a slim entry reads as**, if it is well formed. -/
theorem readSlim_slim {e e' : ListedEntry} (h : R.readSlim (R.slim e) = some e') :
    e' = e.slim := by
  have hl : (R.numbers.fieldInt (R.slim e) "l").bind listOf = some e.listId := by
    have hfield : R.numbers.fieldInt (R.slim e) "l" = some (LIST_IDS.idxOf e.listId : ℤ) :=
      safe_ofInt_lt (by cases e.listId <;> decide)
    rw [hfield]
    cases e.listId <;> rfl
  have ht : (R.numbers.fieldInt (R.slim e) "t").bind EntryType.ofNumber = some e.slim.type := by
    have hfield : R.numbers.fieldInt (R.slim e) "t" = some (e.type.number : ℤ) :=
      safe_ofInt_lt (by cases e.type <;> decide)
    rw [hfield, ListedEntry.slim]
    cases e.type <;> rfl
  have hn : stringsOf (R.slim e) "n" = some e.names := stringsOf_texts rfl
  have hd : stringsOf (R.slim e) "d" = some e.dobs := stringsOf_texts rfl
  have hc : stringsOf (R.slim e) "c" = some e.countries := stringsOf_texts rfl
  have hw : stringsOf (R.slim e) "w" = some (e.cryptoAddresses.filter isWallet) :=
    stringsOf_texts rfl
  have hi : fieldText (R.slim e) "i" = some e.entryId := rfl
  have hp : fieldText (R.slim e) "p" = some e.primaryName := rfl
  simp only [readSlim, hl, ht, hn, hd, hc, hw, hi, hp, Option.bind_eq_bind, Option.bind_some,
    Option.bind_eq_some_iff, Option.filter_eq_some_iff, Option.some.injEq] at h
  obtain ⟨_, ⟨rfl, -⟩, _, ⟨rfl, -⟩, _, ⟨rfl, -⟩, _, ⟨rfl, -⟩, h⟩ := h
  exact (Option.some.inj h).symm

theorem readEntry_eq_ok {s s' : Reading} {v : Value N} (h : R.readEntry s v = .ok s') :
    ∃ e, R.readSlim v = some e ∧ s'.entries = s.entries ++ [e] ∧ (s.Tallied → s'.Tallied) := by
  simp only [readEntry, bind_eq_ok, getOrRevert_eq_ok, revertIf_eq_ok] at h
  obtain ⟨e, he, _, hnew, h⟩ := h
  obtain rfl := Except.ok.inj h
  refine ⟨e, he, rfl, fun hs ↦ ⟨?_, ?_, ?_⟩⟩
  · rw [List.map_append, ← hs.seen]
    rfl
  · have hnot : e.key ∉ s.seen := by simpa using hnew
    exact List.concat_eq_append ▸ hs.nodup.concat hnot
  · rw [tally_concat, hs.counts]

/-- **The loop reads every entry**, counts it and meets no key twice. -/
theorem foldlM_readEntry {items : List (Value N)} {s s' : Reading}
    (h : items.foldlM R.readEntry s = .ok s') :
    ∃ es, items.mapM R.readSlim = some es ∧ s'.entries = s.entries ++ es ∧
      (s.Tallied → s'.Tallied) := by
  induction items generalizing s with
  | nil =>
    obtain rfl := foldlM_nil_eq_ok.1 h
    exact ⟨[], rfl, (List.append_nil _).symm, id⟩
  | cons v items ih =>
    obtain ⟨t, ht, h⟩ := foldlM_cons_eq_ok.1 h
    obtain ⟨e, he, hentries, hkept⟩ := readEntry_eq_ok ht
    obtain ⟨es, hes, hentries', hkept'⟩ := ih h
    refine ⟨e :: es, ?_, ?_, hkept' ∘ hkept⟩
    · rw [List.mapM_cons, he, hes]
      rfl
    · rw [hentries', hentries, List.append_assoc]
      rfl

end Slim

theorem mapM_readSlim_slim {R : Runtime N} {entries es : List ListedEntry}
    (h : (entries.map R.slim).mapM R.readSlim = some es) : es = entries.map ListedEntry.slim := by
  have hall := mapM_eq_some.1 h
  rw [List.forall₂_map_left_iff] at hall
  clear h
  induction hall with
  | nil => rfl
  | cons he _ ih => rw [List.map_cons, ih, readSlim_slim he]

/-! ### What the reader accepts -/

theorem forM_eq_ok {α ε : Type} {f : α → Except ε Unit} {l : List α} :
    l.forM f = .ok () ↔ ∀ a ∈ l, f a = .ok () := by
  induction l with
  | nil => exact ⟨fun _ ↦ nofun, fun _ ↦ rfl⟩
  | cons a l ih =>
    show (f a >>= fun _ ↦ l.forM f) = .ok () ↔ _
    rw [bind_eq_ok, List.forall_mem_cons]
    exact ⟨fun ⟨_, ha, h⟩ ↦ ⟨ha, ih.1 h⟩, fun ⟨ha, h⟩ ↦ ⟨(), ha, ih.2 h⟩⟩

theorem mem_LIST_IDS (list : ListId) : list ∈ LIST_IDS := by
  cases list <;> decide

/-- What the record says of a list: its entries, its edition and when it was fetched are those of
the provenance, and so many entries were read. -/
structure Consistent (R : Runtime N) (index : Index N) (list : ListId) : Prop where
  listed : ∃ provenance s, index.meta.get "provenance".toList = some provenance ∧
    source provenance list = some s ∧
    R.numbers.fieldInt s "entryCount" = tally index.entries list ∧
    entryOf index.meta "listVersions" list = some (.number (R.listVersionOf s)) ∧
    asText (entryOf index.meta "sourceUpdatedAt" list) = fieldText s "checkedAt"
  counted : R.numbers.asInt (entryOf index.meta "counts" list) = tally index.entries list
  present : (tally index.entries list).isSome

/-- **What the reader knows of the index it accepts.** -/
structure Accepted (R : Runtime N) (bytes : Bytes) (index : Index N) : Prop where
  /-- The entries are those of the record, and its hash is of them. -/
  hashed : ∃ inflated value items, R.gunzip maxInflated bytes = some inflated ∧
    parse R.numbers.numerals (R.decodeUtf8 inflated) = some value ∧
    index.meta = dropField value "entries" ∧ fieldArray value "entries" = some items ∧
    fieldText value "entriesSha256" = some (R.sha256Text (R.stringify (.array items))) ∧
    items.mapM R.readSlim = some index.entries
  /-- Entries of that hash are those, or two texts have one hash. -/
  bound : ∀ listed : List ListedEntry,
    fieldText index.meta "entriesSha256" =
      some (R.sha256Text (R.stringify (R.slimEntries listed))) →
    index.entries = listed.map ListedEntry.slim ∨
      ∃ text text' : Text, text ≠ text' ∧
        R.sha256 (Text.utf8 text) = R.sha256 (Text.utf8 text')
  keys : (index.entries.map ListedEntry.key).Nodup
  consistent : ∀ list, R.Consistent index list

section Accepted

variable {R : Runtime N}

theorem hex_injective : Function.Injective hex := fun v w h ↦ by
  have htake : ∀ v, (Text.ofWord v).take 2 = ['0', 'x'] := fun _ ↦ rfl
  refine ofWord_injective ?_
  rw [← List.take_append_drop 2 (Text.ofWord v), ← List.take_append_drop 2 (Text.ofWord w), htake,
    htake]
  exact congrArg _ h

/-- Two texts of one hash are one text, or the hash has a collision. -/
theorem eq_or_collision {t t' : Text} (h : R.sha256Text t = R.sha256Text t') :
    t = t' ∨ ∃ text text' : Text, text ≠ text' ∧
      R.sha256 (Text.utf8 text) = R.sha256 (Text.utf8 text') := by
  by_cases heq : t = t'
  · exact .inl heq
  · exact .inr ⟨t, t', heq, hex_injective h⟩

theorem get_dropField {v : Value N} {name name' : String} (h : name'.toList ≠ name.toList) :
    (dropField v name).get name'.toList = v.get name'.toList := by
  cases v with
  | object fields =>
    show (List.find? _ _).map _ = (List.find? _ _).map _
    rw [List.find?_filter]
    refine congrArg (Option.map Prod.snd) (congrArg (fun p ↦ List.find? p fields) ?_)
    funext p
    by_cases hp : p.1 = name'.toList
    · simp [hp, h]
    · simp [hp]
  | null => rfl
  | bool _ => rfl
  | number _ => rfl
  | string _ => rfl
  | array _ => rfl

theorem source_of_assertSource {provenance : Value N} {created : ℤ} {now maxAgeHours : ℚ}
    {list : ListId} (h : R.assertSource provenance created now maxAgeHours list = .ok ()) :
    ∃ s, source provenance list = some s ∧ (R.numbers.fieldInt s "entryCount").isSome := by
  simp only [assertSource, bind_eq_ok, getOrRevert_eq_ok, revertIf_eq_ok,
    Bool.or_eq_false_iff, Bool.not_eq_false'] at h
  obtain ⟨s, hs, _, -, _, -, _, -, _, ⟨⟨⟨⟨⟨⟨_, _⟩, _⟩, _⟩, hcount⟩, _⟩, _⟩, _⟩ := h
  refine ⟨s, hs, ?_⟩
  obtain ⟨z, hz, -⟩ := (Option.any_eq_true _ _).1 hcount
  exact Option.isSome_iff_exists.2 ⟨z, hz⟩

theorem source_of_assertProvenance {provenance : Option (Value N)} {now maxAgeHours : ℚ}
    (h : R.assertProvenance provenance now maxAgeHours = .ok ()) :
    ∃ value, provenance = some value ∧ ∀ list, ∃ s, source value list = some s ∧
      (R.numbers.fieldInt s "entryCount").isSome := by
  simp only [assertProvenance, bind_eq_ok, getOrRevert_eq_ok] at h
  obtain ⟨_, -, value, hvalue, _, -, _, -, created, -, _, -, h⟩ := h
  exact ⟨value, hvalue, fun list ↦ source_of_assertSource (forM_eq_ok.1 h list (mem_LIST_IDS list))⟩

variable [DecidableEq N]

theorem isNumber_eq_true {n : N} {v : Option (Value N)} (h : isNumber n v = true) :
    v = some (.number n) := by
  unfold isNumber at h
  split at h
  case h_1 m => rw [of_decide_eq_true h]
  case h_2 => cases h

/-- What an accepted record passed. -/
structure Passed (R : Runtime N) (value : Value N) (index : Index N) : Prop where
  hashed : ∃ items, fieldArray value "entries" = some items ∧
    fieldText value "entriesSha256" = some (R.sha256Text (R.stringify (.array items))) ∧
    items.mapM R.readSlim = some index.entries
  rest : index.meta = dropField value "entries"
  keys : (index.entries.map ListedEntry.key).Nodup
  provenance : ∃ provenance, value.get "provenance".toList = some provenance ∧
    ∀ list, (∃ s, source provenance list = some s ∧
      (R.numbers.fieldInt s "entryCount").isSome) ∧
      R.assertConsistent provenance value (tally index.entries) list = .ok ()

theorem passed_of_readValue {value : Value N} {now : ℚ} {configured : Option ℚ} {index : Index N}
    (h : R.readValue value now configured = .ok index) : R.Passed value index := by
  simp only [readValue, bind_eq_ok, getOrRevert_eq_ok, revertIf_eq_ok, decide_eq_false_iff_not,
    not_not] at h
  obtain ⟨_, -, _, -, maxAgeHours, -, _, hprovenance, builtAt, -, built, -, _, -, items, hitems, _,
    hhash, s, hs, _, -, _, hconsistent, h⟩ := h
  obtain rfl := Except.ok.inj h
  obtain ⟨es, hes, hentries, htallied⟩ := foldlM_readEntry hs
  obtain ⟨provenance, hsome, hsources⟩ := source_of_assertProvenance hprovenance
  have hs : s.Tallied := htallied Reading.tallied_start
  have hes' : s.entries = es := hentries
  rw [hsome, Option.getD_some] at hconsistent
  refine ⟨⟨items, hitems, hhash, hes' ▸ hes⟩, rfl, hs.seen ▸ hs.nodup, provenance, hsome,
    fun list ↦ ⟨hsources list, ?_⟩⟩
  rw [← hs.counts]
  exact forM_eq_ok.1 hconsistent list (mem_LIST_IDS list)

theorem consistent_of_passed {value : Value N} {index : Index N} (h : R.Passed value index)
    (list : ListId) : R.Consistent index list := by
  obtain ⟨provenance, hprovenance, hsources⟩ := h.provenance
  obtain ⟨⟨s, hs, hcount⟩, hconsistent⟩ := hsources list
  simp only [assertConsistent, hs, Option.getD_some, revertIf_eq_ok, Bool.or_eq_false_iff,
    decide_eq_false_iff_not, not_not, Bool.not_eq_false'] at hconsistent
  obtain ⟨⟨⟨hentries, hcounts⟩, hversion⟩, hchecked⟩ := hconsistent
  have hentry : ∀ name : String, name.toList ≠ "entries".toList →
      entryOf index.meta name list = entryOf value name list := fun name hname ↦ by
    rw [entryOf, h.rest, get_dropField hname]
    rfl
  refine ⟨⟨provenance, s, ?_, hs, hentries.symm, ?_, ?_⟩, ?_, hentries ▸ hcount⟩
  · rw [h.rest, get_dropField (by decide), hprovenance]
  · rw [hentry "listVersions" (by decide)]
    exact isNumber_eq_true hversion
  · rw [hentry "sourceUpdatedAt" (by decide), hchecked]
  · rw [hentry "counts" (by decide), hcounts]

/-- **Whatever the reader accepts is as its hash and its provenance say.** -/
theorem accepted_of_readIndex {bytes : Bytes} {now : ℚ} {configured : Option ℚ} {index : Index N}
    (h : R.readIndex bytes now configured = .ok index) : R.Accepted bytes index := by
  simp only [readIndex, bind_eq_ok, getOrRevert_eq_ok] at h
  obtain ⟨_, -, inflated, hinflated, value, hvalue, h⟩ := h
  have hpassed := passed_of_readValue h
  obtain ⟨items, hitems, hhash, hread⟩ := hpassed.hashed
  refine ⟨⟨inflated, value, items, hinflated, hvalue, hpassed.rest, hitems, hhash, hread⟩, ?_,
    hpassed.keys, consistent_of_passed hpassed⟩
  intro listed hlisted
  have hfield : fieldText index.meta "entriesSha256" = fieldText value "entriesSha256" := by
    rw [fieldText, hpassed.rest, get_dropField (by decide)]
    rfl
  rw [hfield, hhash] at hlisted
  refine (eq_or_collision (Option.some.inj hlisted)).imp_left fun htext ↦ ?_
  have hsame : items = listed.map R.slim := Value.array.inj (print_injective _ htext)
  exact mapM_readSlim_slim (hsame ▸ hread)

end Accepted

/-! ### What was built is read -/

section Built

variable {R : Runtime N}

theorem normalize_get {v w : Value N} {k : Text} (h : JsonText.normalize v = v)
    (hget : v.get k = some w) : JsonText.normalize w = w := by
  cases v with
  | object fields =>
    obtain ⟨p, hp, rfl⟩ := Option.map_eq_some_iff.1 hget
    exact (normalize_fields h).2 p (List.mem_of_find?_eq_some hp)
  | null => cases hget
  | bool _ => cases hget
  | number _ => cases hget
  | string _ => cases hget
  | array _ => cases hget

theorem normalize_texts (l : List Text) : JsonText.normalize (texts (N := N) l) = texts l :=
  normalize_array (List.forall_mem_map.2 fun _ _ ↦ rfl)

def slimKeys : List String :=
  ["l", "i", "p", "n", "d", "c", "w", "t"]

theorem normalize_slim (e : ListedEntry) : JsonText.normalize (R.slim e) = R.slim e := by
  refine normalize_named (show Names slimKeys by unfold Names; decide +kernel) rfl ?_
  simp only [List.forall_mem_cons]
  exact ⟨rfl, rfl, rfl, normalize_texts _, normalize_texts _, normalize_texts _, normalize_texts _,
    rfl, nofun⟩

theorem normalize_byList {f : ListId → Value N} (h : ∀ id, JsonText.normalize (f id) = f id) :
    JsonText.normalize (byList f) = byList f := by
  refine normalize_named
    (show Names (LIST_IDS.map ListId.text) by unfold Names; decide +kernel) rfl ?_
  exact List.forall_mem_map.2 fun id _ ↦ h id

theorem normalize_sourceField (provenance : Plain N) (name : String) (list : ListId) :
    JsonText.normalize (sourceField provenance.value name list) =
      sourceField provenance.value name list := by
  rw [sourceField]
  cases hv : (source provenance.value list).bind fun s ↦ s.get name.toList with
  | none => rfl
  | some v =>
    obtain ⟨s, hs, hv⟩ := Option.bind_eq_some_iff.1 hv
    obtain ⟨sources, hsources, hs⟩ := Option.bind_eq_some_iff.1 hs
    exact normalize_get (normalize_get (normalize_get provenance.normalize_value hsources) hs) hv

def documentKeys : List String :=
  ["v", "builtAt", "provenance", "entriesSha256", "listVersions", "counts", "sourceUpdatedAt",
    "entries"]

theorem normalize_document (entries : List ListedEntry) (provenance : Plain N) (builtAt : Text) :
    JsonText.normalize (R.document entries provenance.value builtAt) =
      R.document entries provenance.value builtAt := by
  refine normalize_named (show Names documentKeys by unfold Names; decide +kernel) rfl ?_
  simp only [List.forall_mem_cons]
  exact ⟨rfl, rfl, provenance.normalize_value, rfl, normalize_byList fun _ ↦ rfl,
    normalize_byList (normalize_sourceField provenance _),
    normalize_byList (normalize_sourceField provenance _),
    normalize_array (List.forall_mem_map.2 fun e _ ↦ normalize_slim e), nofun⟩

variable [DecidableEq N]

/-- A record that is written is read, where it is not too long. -/
theorem readIndex_gzip {doc : Value N} (hnormal : JsonText.normalize doc = doc) {now : ℚ}
    {configured : Option ℚ} {index : Index N} :
    R.readIndex (R.gzip (Text.utf8 (R.stringify doc))) now configured = .ok index ↔
      (R.gzip (Text.utf8 (R.stringify doc))).length ≤ maxCompressed ∧
        (Text.utf8 (R.stringify doc)).length ≤ maxInflated ∧
        R.readValue doc now configured = .ok index := by
  have hparse : parse R.numbers.numerals (R.decodeUtf8 (Text.utf8 (R.stringify doc))) =
      some doc := by
    rw [R.decodeUtf8_utf8]
    exact parse_print _ hnormal
  simp only [readIndex, bind_eq_ok, getOrRevert_eq_ok, revertIf_eq_ok, R.gunzip_gzip,
    decide_eq_false_iff_not, not_lt]
  constructor
  · rintro ⟨_, hcompressed, inflated, hinflated, value, hvalue, h⟩
    split at hinflated
    case isFalse => cases hinflated
    case isTrue hlength =>
      obtain rfl := Option.some.inj hinflated
      rw [hparse] at hvalue
      obtain rfl := Option.some.inj hvalue
      exact ⟨hcompressed, hlength, h⟩
  · rintro ⟨hcompressed, hlength, h⟩
    exact ⟨(), hcompressed, _, if_pos hlength, doc, hparse, h⟩

/-- **An index that was built is read as the entries it was built from**, at any later time at which
it is read at all. -/
theorem entries_of_buildIndex {entries : List ListedEntry} {provenance : Plain N} {now : ℚ}
    {configured : Option ℚ} {bytes : Bytes}
    (h : R.buildIndex entries provenance now configured = .ok bytes) :
    (∃ index, R.readIndex bytes now configured = .ok index) ∧
      ∀ now' configured' index, R.readIndex bytes now' configured' = .ok index →
        index.entries = entries.map ListedEntry.slim := by
  simp only [buildIndex, bind_eq_ok, getOrRevert_eq_ok] at h
  obtain ⟨_, -, _, -, builtAt, -, index, hread, h⟩ := h
  obtain rfl := Except.ok.inj h
  refine ⟨⟨index, hread⟩, fun now' configured' index hread ↦ ?_⟩
  obtain ⟨-, -, hvalue⟩ :=
    (readIndex_gzip (normalize_document entries provenance builtAt)).1 hread
  obtain ⟨items, hitems, -, hentries⟩ := (passed_of_readValue hvalue).hashed
  obtain rfl : entries.map R.slim = items := Option.some.inj hitems
  exact mapM_readSlim_slim hentries

/-- The corpora of two lists of entries screen alike, errors included. -/
def ScreenAlike (entries entries' : List ListedEntry) : Prop :=
  ∀ (U : Unicode) (limits : MatchLimits) (input : MatchInput),
    (U.buildCorpus (entries.map ListedEntry.screening) limits).bind (U.screenNames · input) =
      (U.buildCorpus (entries'.map ListedEntry.screening) limits).bind (U.screenNames · input)

theorem screenAlike_slim {entries : List ListedEntry} (h : ∀ e ∈ entries, e.Lowered) :
    ScreenAlike (entries.map ListedEntry.slim) entries := by
  intro U limits input
  have hslim : (entries.map ListedEntry.slim).map ListedEntry.screening =
      (entries.map ListedEntry.screening).map SanctionEntry.slim := by
    rw [List.map_map, List.map_map]
    exact List.map_congr_left fun e _ ↦ screening_slim e
  rw [hslim]
  exact buildCorpus_screenNames_slim (List.forall_mem_map.2 fun e he ↦ (h e he).screening) input

/-- **The compiled index screens like its sources**: it is read when it is built, and whenever it is
read again its entries screen like those of the parsers. **Its reader accepts nothing else**: no
other entries than those hashed, no repeated key, no disagreement with the provenance. -/
theorem index_laws (R : Runtime N) (L : LowerCase) :
    (∀ (entries : List ListedEntry) (provenance : Plain N) (now : ℚ) (configured : Option ℚ)
        (bytes : Bytes), L.Produced entries →
      R.buildIndex entries provenance now configured = .ok bytes →
        (∃ index, R.readIndex bytes now configured = .ok index) ∧
        ∀ now' configured' index, R.readIndex bytes now' configured' = .ok index →
          ScreenAlike index.entries entries) ∧
    ∀ (bytes : Bytes) (now : ℚ) (configured : Option ℚ) (index : Index N),
      R.readIndex bytes now configured = .ok index → R.Accepted bytes index := by
  refine ⟨fun entries provenance now configured bytes hproduced hbuild ↦ ?_,
    fun _ _ _ _ ↦ accepted_of_readIndex⟩
  obtain ⟨hread, hentries⟩ := entries_of_buildIndex hbuild
  refine ⟨hread, fun now' configured' index hread' ↦ ?_⟩
  rw [hentries now' configured' index hread']
  exact screenAlike_slim hproduced.lowered

end Built

/-! ### A sample -/

/-- A capital would be lowered once more. -/
theorem not_isUpper_toLower (c : Char) : isUpper c.toLower.toNat = false := by
  refine Bool.eq_false_iff.2 fun hupper ↦ ?_
  obtain ⟨hA, hZ⟩ := Bool.and_eq_true_iff.1 hupper
  have hval : c.toLower.toLower.val = c.toLower.val + ('a'.val - 'A'.val) :=
    congrArg Char.val (dif_pos ⟨of_decide_eq_true hA, of_decide_eq_true hZ⟩)
  have hnat := congrArg UInt32.toNat hval
  have hle : c.toLower.val.toNat ≤ 90 := of_decide_eq_true hZ
  rw [toLower_toLower, UInt32.toNat_add, show ('a'.val - 'A'.val).toNat = 32 from rfl] at hnat
  omega

/-- The language, on ASCII. -/
def sampleCase : LowerCase where
  lower := Text.lower
  not_isUpper t c hc := by
    obtain ⟨d, -, rfl⟩ := List.mem_map.1 hc
    exact not_isUpper_toLower d

/-- An element with a text. -/
def leaf (name t : String) : List XmlEvent :=
  [.openTag name.toList [], .chars t.toList, .closeTag]

def sampleOfac : List XmlEvent :=
  .openTag "sdnEntry".toList [] :: leaf "uid" "1" ++ leaf "lastName" "A" ++
    leaf "sdnType" "Vessel" ++ [.openTag "idList".toList [], .openTag "id".toList []] ++
    leaf "idType" "Digital Currency Address - ETH" ++
    leaf "idNumber" "0xAAAAAAAAAAAAAAAAAAAAAAAAAAAAAAAAAAAAAAAA" ++ List.replicate 3 .closeTag

def sampleUn : List XmlEvent :=
  .openTag "INDIVIDUAL".toList [] :: leaf "DATAID" "2" ++ leaf "FIRST_NAME" "B" ++ [.closeTag]

def sampleEu : List XmlEvent :=
  [.openTag "sanctionEntity".toList [("logicalId".toList, ['3'])],
    .openTag "nameAlias".toList [("wholeName".toList, ['C'])], .closeTag, .closeTag]

def sampleEntries : List ListedEntry :=
  [⟨.ofacSdn, ['1'], ['A'], [['A']], [], [], [], ['0' :: 'x' :: List.replicate 40 'a'], .vessel⟩,
    ⟨.unConsolidated, ['2'], ['B'], [['B']], [], [], [], [], .individual⟩,
    ⟨.euFsf, ['3'], ['C'], [['C']], [], [], [], [], .unknown⟩]

theorem produced_sample : sampleCase.Produced sampleEntries := by
  have hofac : sampleCase.parseOfac sampleOfac = .ok (sampleEntries.take 1) := by
    rw [← toOption_eq_some]
    decide +kernel
  have hun : sampleCase.parseUn sampleUn = .ok ((sampleEntries.drop 1).take 1) := by
    rw [← toOption_eq_some]
    decide +kernel
  have heu : sampleCase.parseEu sampleEu = .ok (sampleEntries.drop 2) := by
    rw [← toOption_eq_some]
    decide +kernel
  exact .append (.ofac hofac) (.append (.un hun) (.eu heu))

def sampleInstant : Text :=
  "2026-01-02T03:04:05.006Z".toList

def sampleTime : ℤ :=
  1767323045006

/-- A runtime that knows one instant, and the URLs of one scheme without a query. -/
def sampleRuntime : Runtime ℤ where
  numbers := wholeNumbers
  sha256 := Sha256.digest
  parseDate t := if t = sampleInstant then some sampleTime else none
  toISOString ms := if ms = sampleTime then some sampleInstant else none
  parseUrl t :=
    let host := (t.drop 8).takeWhile fun c ↦ c ≠ '/'
    if t.take 8 = "https://".toList then
      some ⟨"https:".toList, host, t.take 8 ++ host, (t.drop 8).dropWhile fun c ↦ c ≠ '/'⟩
    else none
  gzip bytes := bytes
  gunzip max bytes := if bytes.length ≤ max then some bytes else none
  gunzip_gzip _ _ := rfl
  decodeUtf8 bytes := (Utf8.decode bytes).getD []
  decodeUtf8_utf8 t := by
    rw [show Utf8.decode (Text.utf8 t) = some t from Utf8.decode_encode t]
    rfl

def sourceKeys : List String :=
  ["sourceUrl", "effectiveUrl", "effectiveUrlSha256", "fetchedAt", "checkedAt", "publishedAt",
    "httpLastModified", "sha256", "bytes", "entryCount"]

def sampleSource (list : ListId) : Value ℤ :=
  .object (sourceKeys.map String.toList |>.zip [.string list.url.toList,
    .string "https://www.treasury.gov/ofac/downloads/sdn.xml".toList,
    .string (List.replicate 64 'e'), .string sampleInstant, .string sampleInstant, .null, .null,
    .string (List.replicate 64 'a'), .number 1, .number 1])

def sampleBody : List (Text × Value ℤ) :=
  [("v".toList, .number 2), ("parserVersion".toList, .string PARSER_VERSION),
    ("createdAt".toList, .string sampleInstant), ("sources".toList, byList sampleSource)]

def provenanceKeys : List String :=
  ["v", "parserVersion", "createdAt", "sources", "snapshotId"]

def sampleProvenance : Plain ℤ where
  value := .object (sampleBody ++
    [("snapshotId".toList, .string (sampleRuntime.snapshotId (.object sampleBody)))])
  normalize_value := by
    refine normalize_named (show Names provenanceKeys by unfold Names; decide +kernel) rfl ?_
    have hsource : ∀ list, JsonText.normalize (sampleSource list) = sampleSource list := by
      intro list
      refine normalize_named (show Names sourceKeys by unfold Names; decide +kernel) rfl ?_
      simp only [sourceKeys, List.map_cons, List.map_nil, List.zip_cons_cons,
        List.zip_nil_left, List.forall_mem_cons]
      exact ⟨rfl, rfl, rfl, rfl, rfl, rfl, rfl, rfl, rfl, rfl, nofun⟩
    simp only [sampleBody, List.cons_append, List.nil_append, List.forall_mem_cons]
    exact ⟨rfl, rfl, rfl, normalize_byList hsource, rfl, nofun⟩

theorem assertProvenance_sample :
    sampleRuntime.assertProvenance (some sampleProvenance.value) sampleTime 168 = .ok () := by
  have hcreated : sampleRuntime.timestamp (sampleProvenance.value.get "createdAt".toList) =
      .ok sampleTime := by
    rw [← toOption_eq_some]
    decide +kernel
  simp only [assertProvenance, bind_eq_ok, getOrRevert_eq_ok, revertIf_eq_ok]
  refine ⟨(), by decide +kernel, _, rfl, (), by decide +kernel, (), decide_eq_false (not_not.2 rfl),
    sampleTime, hcreated, (), by decide +kernel, forM_eq_ok.2 fun list _ ↦ ?_⟩
  rw [← toOption_eq_some]
  cases list <;> decide +kernel

/-- The record of the sample. -/
def sampleDocument : Value ℤ :=
  sampleRuntime.document sampleEntries sampleProvenance.value sampleInstant

theorem readValue_sample : ∃ index,
    sampleRuntime.readValue sampleDocument sampleTime (some 168) = .ok index := by
  have hsome : ((sampleEntries.map sampleRuntime.slim).foldlM sampleRuntime.readEntry
      Reading.start).toOption.isSome := by
    decide +kernel
  obtain ⟨s, hs⟩ := Option.isSome_iff_exists.1 hsome
  obtain ⟨es, hes, hentries, htallied⟩ := foldlM_readEntry (toOption_eq_some.1 hs)
  have hentries : s.entries = sampleEntries.map ListedEntry.slim := by
    rw [hentries, mapM_readSlim_slim hes]
    rfl
  have hcounts := (htallied Reading.tallied_start).counts
  rw [hentries] at hcounts
  have hprovenance : sampleDocument.get "provenance".toList = some sampleProvenance.value := rfl
  simp only [readValue, bind_eq_ok, getOrRevert_eq_ok, revertIf_eq_ok, hprovenance]
  refine ⟨_, (), rfl, (), by decide +kernel, 168, ?_, (), assertProvenance_sample, _, rfl, _, rfl,
    (), by decide +kernel, _, rfl, (), decide_eq_false (not_not.2 rfl), s,
    toOption_eq_some.1 hs, (), forM_eq_ok.2 ?_, (), forM_eq_ok.2 ?_, rfl⟩
  · rw [← toOption_eq_some]
    decide +kernel
  · simp only [List.forall_mem_cons, ← toOption_eq_some]
    exact ⟨by decide +kernel, by decide +kernel, by decide +kernel, List.forall_mem_nil _⟩
  · intro list _
    rw [hcounts, ← toOption_eq_some]
    cases list <;> decide +kernel

/-- Its length is bounded without its hashes: they are texts of so many characters. -/
theorem length_sample :
    (Text.utf8 (sampleRuntime.stringify sampleDocument)).length ≤ maxCompressed := by
  have hbytes : (Text.utf8 (sampleRuntime.stringify sampleDocument)).length ≤
      4 * (sampleRuntime.stringify sampleDocument).length := Utf8.length_encode_le _
  have hbound : printBound sampleRuntime.numbers.numerals sampleDocument ≤ 2 ^ 20 := by
    decide +kernel
  have hchars : (sampleRuntime.stringify sampleDocument).length ≤ 2 ^ 20 :=
    (length_print_le _ sampleDocument).trans hbound
  unfold maxCompressed
  omega

theorem buildIndex_sample : ∃ bytes,
    sampleRuntime.buildIndex sampleEntries sampleProvenance sampleTime (some 168) = .ok bytes := by
  obtain ⟨index, hindex⟩ := readValue_sample
  have hmax : maxCompressed ≤ maxInflated := by
    unfold maxCompressed maxInflated
    omega
  have hread := (readIndex_gzip (R := sampleRuntime)
    (normalize_document sampleEntries sampleProvenance sampleInstant)).2
    ⟨length_sample, length_sample.trans hmax, hindex⟩
  refine ⟨sampleRuntime.gzip (Text.utf8 (sampleRuntime.stringify sampleDocument)), ?_⟩
  simp only [buildIndex, bind_eq_ok, getOrRevert_eq_ok]
  refine ⟨168, ?_, (), assertProvenance_sample, sampleInstant, by decide +kernel, index, hread, rfl⟩
  rw [← toOption_eq_some]
  decide +kernel

/-- The index of a vessel with a wallet, a person and an entry of no type. -/
theorem index_laws_sample : ∃ bytes index,
    sampleRuntime.buildIndex sampleEntries sampleProvenance sampleTime (some 168) = .ok bytes ∧
      sampleRuntime.readIndex bytes sampleTime (some 168) = .ok index ∧
      ScreenAlike index.entries sampleEntries ∧ sampleRuntime.Accepted bytes index := by
  obtain ⟨bytes, hbuild⟩ := buildIndex_sample
  obtain ⟨hread, hscreen⟩ :=
    (index_laws sampleRuntime sampleCase).1 _ _ _ _ _ produced_sample hbuild
  obtain ⟨index, hindex⟩ := hread
  exact ⟨bytes, index, hbuild, hindex, hscreen _ _ _ hindex,
    (index_laws sampleRuntime sampleCase).2 _ _ _ _ hindex⟩

end Runtime

end Proofmark.Aml
