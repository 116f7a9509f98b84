import Proofmark.Aml.Blocking
import Proofmark.Aml.Screen
import Proofmark.Pipeline.Canonical

/-!
# The sanctions lists as entries

`parse.ts` and the elements of `saxlite.ts`: the three lists, each with a schema of its own, in one
shape. The XML parser is a library; a document is here the events it delivers, and a text is a list
of characters, since no document holds a lone surrogate. `toLowerCase` is the language's
(`LowerCase`).

A country is looked up in an object of the language, which also has `constructor` and `__proto__`.
The source would keep what it finds there, and the reader of its own index would then refuse it;
here the entry is refused already.
-/

open Evm Proofmark.Pipeline

namespace Proofmark.Aml

/-! ### Elements -/

/-- What the XML parser delivers; `chars` is a text or a `CDATA` section. -/
inductive XmlEvent
  | openTag (name : Text) (attributes : List (Text × Text))
  | chars (t : Text)
  | closeTag

structure El where
  tag : Text
  attrs : List (Text × Text)
  kids : List El
  text : Text

/-- `trim` -/
def trimText (t : Text) : Text :=
  (t.dropWhile fun c ↦ isSpace c.toNat).rdropWhile fun c ↦ isSpace c.toNat

/-- The open elements, the innermost first, and the selected ones. -/
structure Streaming where
  stack : List El
  found : List El

/-- An element of the wanted tag is kept with all that is in it. The source puts a child into its
parent when it opens and fills it there; here it is put there when it is complete. -/
def streamStep (tag : Text) (s : Streaming) : XmlEvent → Streaming
  | .openTag name attributes =>
    match s.stack with
    | [] => if name = tag then { s with stack := [⟨name, attributes, [], []⟩] } else s
    | stack => { s with stack := ⟨name, attributes, [], []⟩ :: stack }
  | .chars t =>
    match s.stack with
    | [] => s
    | el :: stack => { s with stack := { el with text := el.text ++ t } :: stack }
  | .closeTag =>
    match s.stack with
    | [] => s
    | [el] => ⟨[], s.found ++ [{ el with text := trimText el.text }]⟩
    | el :: parent :: stack =>
      { s with stack :=
          { parent with kids := parent.kids ++ [{ el with text := trimText el.text }] } :: stack }

/-- The outermost elements with the tag. -/
def streamElements (events : List XmlEvent) (tag : String) : List El :=
  (events.foldl (streamStep tag.toList) ⟨[], []⟩).found

namespace El

variable (el : El)

def attr (name : String) : Text :=
  (el.attrs.reverse.lookup name.toList).getD []

def direct (tag : String) : List El :=
  el.kids.filter fun k ↦ k.tag = tag.toList

/-- `text(el, tag)`: the text of the first child with this tag. -/
def textOf (tag : String) : Text :=
  ((el.direct tag).head?.map El.text).getD []

/-- `el > parentTag > childTag` -/
def children (parentTag childTag : String) : List El :=
  (el.direct parentTag).flatMap fun p ↦ p.direct childTag

end El

/-! ### Entries -/

inductive EntryType
  | individual | entity | vessel | unknown
  deriving DecidableEq

/-- `SanctionEntry` of `parse.ts`, in texts and with all its fields. -/
structure ListedEntry where
  listId : ListId
  entryId : Text
  primaryName : Text
  names : List Text
  dobs : List Text
  countries : List Text
  programs : List Text
  cryptoAddresses : List Text
  type : EntryType
  deriving DecidableEq

/-- The UTF-16 code units of a text. -/
def units (t : Text) : Str :=
  t.flatMap codeUnits

/-- What screening reads of an entry. -/
def ListedEntry.screening (e : ListedEntry) : SanctionEntry where
  listId := e.listId
  entryId := units e.entryId
  primaryName := units e.primaryName
  names := e.names.map units
  dobs := e.dobs.map units
  countries := e.countries.map units
  cryptoAddresses := e.cryptoAddresses.map units

/-- `toLowerCase`, which leaves no ASCII capital. -/
structure LowerCase where
  lower : Text → Text
  not_isUpper : ∀ t, ∀ c ∈ lower t, isUpper c.toNat = false

inductive ParseError
  | missingId (listId : ListId)
  | notACountry
  deriving DecidableEq

/-- The items of a set, in insertion order. -/
def distinct (l : List Text) : List Text :=
  l.foldl insertNew []

/-- `filter(Boolean)` -/
def present (l : List Text) : List Text :=
  l.filter fun t ↦ t ≠ []

/-- `[…].filter(Boolean).join(' ').trim()` -/
def joinedName (parts : List Text) : Text :=
  trimText ([' '].intercalate (present parts))

/-- `normalizeDob`, on texts: a date is digits and hyphens. -/
def dateOf (t : Text) : Option Text :=
  (normalizeDob (units t)).map fun date ↦ date.map Char.ofNat

section Dates

variable {s d : Str}

theorem all_isDigit_of_isYear (h : isYear s = true) : ∀ u ∈ s, isDigit u = true :=
  List.all_eq_true.1 (Bool.and_eq_true_iff.1 h).2

theorem isDigit_of_firstYear (h : firstYear s = some d) : ∀ u ∈ d, isDigit u = true := by
  induction s with
  | nil => cases h
  | cons u rest ih =>
    rw [firstYear] at h
    split at h
    case isTrue hyear =>
      rw [← Option.some.inj h]
      exact all_isDigit_of_isYear hyear
    case isFalse => exact ih h

theorem ascii_of_isDate (h : isDate s = true) : ∀ u ∈ s, isDigit u = true ∨ u = 0x2D := by
  simp only [isDate, Bool.and_eq_true, decide_eq_true_eq, List.all_eq_true] at h
  obtain ⟨⟨⟨⟨⟨hlength, hyear⟩, h₄⟩, hmonth⟩, h₇⟩, hday⟩ := h
  have hs : s = s.take 4 ++ s[4]?.toList ++ (s.drop 5).take 2 ++ s[7]?.toList ++ s.drop 8 := by
    match s, hlength with
    | [_, _, _, _, _, _, _, _, _, _], _ => rfl
  rw [hs, h₄, h₇]
  simp only [List.mem_append, Option.mem_toList, Option.some.injEq]
  rintro u ((((hu | hu) | hu) | hu) | hu)
  · exact .inl (hyear u hu)
  · exact .inr hu.symm
  · exact .inl (hmonth u hu)
  · exact .inr hu.symm
  · exact .inl (hday u hu)

theorem isDigit_twoDigits {n : ℕ} (h : n < 100) : ∀ u ∈ twoDigits n, isDigit u = true := by
  simp only [twoDigits, isDigit, List.forall_mem_cons, Bool.and_eq_true, decide_eq_true_eq]
  exact ⟨by omega, by omega, nofun⟩

/-- A normal date is digits and hyphens. -/
theorem ascii_of_normalizeDob (h : normalizeDob s = some d) :
    ∀ u ∈ d, isDigit u = true ∨ u = 0x2D := by
  unfold normalizeDob at h
  split at h
  · cases h
  · simp only at h
    split at h
    case isTrue hdate =>
      rw [← Option.some.inj h]
      exact ascii_of_isDate hdate
    case isFalse =>
      split at h
      case h_1 day month year hwritten =>
        split at h
        case isTrue hmonth =>
          rw [← Option.some.inj h]
          simp only [writtenDate] at hwritten
          split at hwritten
          case isFalse => cases hwritten
          case isTrue hshape =>
            obtain ⟨-, -, -, -, -, hyear⟩ := hshape
            simp only [Option.some.injEq, Prod.mk.injEq] at hwritten
            obtain ⟨rfl, rfl, rfl⟩ := hwritten
            have hindex := isDigit_twoDigits (n := months.idxOf _ + 1) (lt_of_lt_of_le
              (Nat.succ_lt_succ (List.idxOf_lt_length_of_mem hmonth)) (by decide))
            have hday : ∀ u ∈ (trim s).takeWhile isDigit, isDigit u = true := fun u hu ↦
              List.mem_takeWhile_imp hu
            have hpadded : ∀ u ∈ (if ((trim s).takeWhile isDigit).length = 1 then
                0x30 :: (trim s).takeWhile isDigit else (trim s).takeWhile isDigit),
                isDigit u = true := by
              split
              · exact List.forall_mem_cons.2 ⟨rfl, hday⟩
              · exact hday
            simp only [List.forall_mem_append, List.forall_mem_singleton]
            exact ⟨⟨⟨⟨fun u hu ↦ .inl (all_isDigit_of_isYear hyear u hu), .inr trivial⟩,
              fun u hu ↦ .inl (hindex u hu)⟩, .inr trivial⟩, fun u hu ↦ .inl (hpadded u hu)⟩
        case isFalse => exact fun u hu ↦ .inl (isDigit_of_firstYear h u hu)
      case h_2 => exact fun u hu ↦ .inl (isDigit_of_firstYear h u hu)

/-- The text of a date has the date's units. -/
theorem units_dateOf {t date : Text} (h : dateOf t = some date) :
    normalizeDob (units t) = some (units date) := by
  obtain ⟨d, hd, rfl⟩ := Option.map_eq_some_iff.1 h
  have hunits : ∀ u ∈ d, (codeUnits ∘ Char.ofNat) u = [u] := fun u hu ↦ by
    have hlt : u < 128 := by
      rcases ascii_of_normalizeDob hd u hu with hdigit | rfl
      · have hle := of_decide_eq_true (Bool.and_eq_true_iff.1 hdigit).2
        omega
      · decide
    have hchar : (Char.ofNat u).toNat = u := by
      rw [Char.ofNat, dif_pos (Or.inl (by omega) : u.isValidChar)]
      rfl
    rw [Function.comp_apply, codeUnits, hchar, if_pos (by omega)]
  have hdate : units (d.map Char.ofNat) = d := by
    rw [units, List.flatMap_map, ← Function.comp_def, List.flatMap_congr hunits,
      List.flatMap_singleton']
  rw [hd, hdate]

end Dates

/-- `COUNTRY` -/
def countryTable : List (String × String) :=
  [("korea, north", "KP"), ("north korea", "KP"), ("democratic people's republic of korea", "KP"),
    ("dprk", "KP"), ("korea, south", "KR"), ("south korea", "KR"), ("republic of korea", "KR"),
    ("korea", "KR"), ("iran", "IR"), ("islamic republic of iran", "IR"), ("syria", "SY"),
    ("syrian arab republic", "SY"), ("cuba", "CU"), ("russia", "RU"), ("russian federation", "RU"),
    ("belarus", "BY"), ("venezuela", "VE"), ("myanmar", "MM"), ("burma", "MM"),
    ("afghanistan", "AF"), ("iraq", "IQ"), ("libya", "LY"), ("somalia", "SO"), ("sudan", "SD"),
    ("south sudan", "SS"), ("yemen", "YE"), ("zimbabwe", "ZW"), ("lebanon", "LB"), ("china", "CN"),
    ("japan", "JP"), ("united states", "US"), ("united kingdom", "GB"), ("germany", "DE"),
    ("france", "FR"), ("ukraine", "UA"), ("turkey", "TR"), ("tuerkiye", "TR"), ("pakistan", "PK"),
    ("india", "IN"), ("nicaragua", "NI"), ("mali", "ML"), ("haiti", "HT"),
    ("central african republic", "CF"), ("congo, democratic republic of the", "CD"),
    ("bosnia and herzegowina", "BA"), ("bosnia and herzegovina", "BA"),
    ("moldova, republic of", "MD"), ("macedonia", "MK"), ("north macedonia", "MK"),
    ("serbia", "RS"), ("montenegro", "ME"), ("cote d'ivoire", "CI"), ("cote d ivoire", "CI"),
    ("eritrea", "ER"), ("guinea", "GN"), ("guinea-bissau", "GW"), ("burundi", "BI"),
    ("nigeria", "NG"), ("tunisia", "TN"), ("egypt", "EG"), ("israel", "IL"), ("palestine", "PS")]

/-- `/^[A-Za-z]{2}$/` -/
def isTwoLetters (t : Text) : Bool :=
  t.length = 2 && t.all fun c ↦ isLetter c.toNat

/-- `CRYPTO_PREFIX` -/
def cryptoPrefix : Text :=
  "digital currency address".toList

namespace LowerCase

variable (L : LowerCase)

def toIso2 (v : Text) : Except ParseError Text :=
  let s := trimText v
  if s = [] then .ok []
  else if isTwoLetters s then .ok (s.map Char.toUpper)
  else if L.lower s ∈ ["constructor".toList, "__proto__".toList] then .error .notACountry
  else .ok (((countryTable.find? fun row ↦ row.1.toList = L.lower s).map (·.2.toList)).getD [])

/-- The countries of some texts, as a set. -/
def countriesOf (l : List Text) : Except ParseError (List Text) := do
  return distinct (present (← l.mapM L.toIso2))

/-! ### The three lists -/

/-- An `sdnEntry`. -/
def ofacEntry (el : El) : Except ParseError ListedEntry := do
  let uid := el.textOf "uid"
  revertIf (uid = []) (.missingId .ofacSdn)
  let name (el : El) := joinedName [el.textOf "firstName", el.textOf "lastName"]
  let primary := name el
  let names := distinct (present (primary :: (el.children "akaList" "aka").map name))
  let dobs := distinct ((el.children "dateOfBirthList" "dateOfBirthItem").filterMap fun d ↦
    dateOf (d.textOf "dateOfBirth"))
  let countries ← L.countriesOf
    ((el.children "nationalityList" "nationality" ++
      el.children "citizenshipList" "citizenship").map fun n ↦ n.textOf "country")
  let crypto := (el.children "idList" "id").filter fun id ↦
    cryptoPrefix.isPrefixOf (L.lower (id.textOf "idType"))
  let addresses := present (crypto.map fun id ↦ trimText (id.textOf "idNumber"))
  let st := L.lower (el.textOf "sdnType")
  return {
    listId := .ofacSdn
    entryId := uid
    primaryName := if primary = [] then names.headD [] else primary
    names := names
    dobs := dobs
    countries := countries
    programs := present ((el.children "programList" "program").map El.text)
    cryptoAddresses := distinct (addresses.map L.lower)
    type := if st = "individual".toList then .individual else if st = "vessel".toList then .vessel
      else if st = "entity".toList then .entity else .unknown }

def parseOfac (events : List XmlEvent) : Except ParseError (List ListedEntry) :=
  (streamElements events "sdnEntry").mapM L.ofacEntry

/-- `handle(kind)`, for individuals and entities. -/
def unEntry (kind : EntryType) (el : El) : Except ParseError ListedEntry := do
  let id := el.textOf "DATAID"
  revertIf (id = []) (.missingId .unConsolidated)
  let primary := joinedName
    (["FIRST_NAME", "SECOND_NAME", "THIRD_NAME", "FOURTH_NAME"].map el.textOf)
  let aliasTag := if kind = .individual then "INDIVIDUAL_ALIAS" else "ENTITY_ALIAS"
  let names := distinct (present
    (primary :: (el.direct aliasTag).map fun a ↦ trimText (a.textOf "ALIAS_NAME")))
  let dobs := distinct ((el.direct "INDIVIDUAL_DATE_OF_BIRTH").flatMap fun d ↦
    ["DATE", "YEAR", "FROM_YEAR", "TO_YEAR"].filterMap fun t ↦ dateOf (d.textOf t))
  let countries ← L.countriesOf ((el.direct "NATIONALITY").map fun n ↦ n.textOf "VALUE")
  return {
    listId := .unConsolidated
    entryId := id
    primaryName := primary
    names := names
    dobs := dobs
    countries := countries
    programs := present [el.textOf "UN_LIST_TYPE"]
    cryptoAddresses := []
    type := kind }

def parseUn (events : List XmlEvent) : Except ParseError (List ListedEntry) := do
  let individuals ← (streamElements events "INDIVIDUAL").mapM (L.unEntry .individual)
  let entities ← (streamElements events "ENTITY").mapM (L.unEntry .entity)
  return individuals ++ entities

/-- `a || b` -/
def orElse (a b : Text) : Text :=
  if a = [] then b else a

/-- A `sanctionEntity`. -/
def euEntry (el : El) : Except ParseError ListedEntry := do
  let id := orElse (el.attr "logicalId") (el.attr "euReferenceNumber")
  revertIf (id = []) (.missingId .euFsf)
  let names := distinct (present ((el.direct "nameAlias").map fun a ↦
    orElse (trimText (a.attr "wholeName"))
      (joinedName [a.attr "firstName", a.attr "middleName", a.attr "lastName"])))
  let dobs := distinct ((el.direct "birthdate").flatMap fun b ↦
    ["birthdate", "year"].filterMap fun k ↦ dateOf (b.attr k))
  let countries ← L.countriesOf ((el.direct "citizenship").map fun c ↦
    orElse (c.attr "countryIso2Code") (c.attr "countryDescription"))
  let code := ((el.direct "subjectType").head?.map fun st ↦ L.lower (st.attr "code")).getD []
  return {
    listId := .euFsf
    entryId := id
    primaryName := names.headD []
    names := names
    dobs := dobs
    countries := countries
    programs := []
    cryptoAddresses := []
    type := if code = "person".toList then .individual
      else if code = "enterprise".toList then .entity else .unknown }

def parseEu (events : List XmlEvent) : Except ParseError (List ListedEntry) :=
  (streamElements events "sanctionEntity").mapM L.euEntry

end LowerCase

/-! ### What the entries have in common -/

theorem mem_distinct {l : List Text} {t : Text} : t ∈ distinct l ↔ t ∈ l := by
  rw [distinct, mem_foldl_insertNew]
  simp

/-- A unit that is no capital letter and a hex digit is a lower-case one. -/
theorem isLowerAddress_of_isAddress {s : Str} (h : isAddress s = true)
    (hlower : ∀ u ∈ s, isUpper u = false) : isLowerAddress s = true := by
  simp only [isAddress, Bool.and_eq_true, List.all_eq_true] at h
  simp only [isLowerAddress, Bool.and_eq_true, List.all_eq_true]
  refine ⟨h.1, fun u hu ↦ ?_⟩
  rw [isLowerHexDigit, h.2 u hu, hlower u (List.mem_of_mem_drop hu)]
  rfl

/-- The units of a text without capitals are no capitals: a surrogate is none. -/
theorem isUpper_of_mem_units {t : Text} (h : ∀ c ∈ t, isUpper c.toNat = false) {u : ℕ}
    (hu : u ∈ units t) : isUpper u = false := by
  obtain ⟨c, hc, hu⟩ := List.mem_flatMap.1 hu
  unfold codeUnits at hu
  split at hu
  case isTrue => rw [List.mem_singleton.1 hu, h c hc]
  case isFalse =>
    rw [isUpper, Bool.and_eq_false_iff, decide_eq_false_iff_not, decide_eq_false_iff_not]
    simp only [List.mem_cons, List.not_mem_nil, or_false] at hu
    omega

/-- The listed addresses are in lower case. -/
def ListedEntry.Lowered (e : ListedEntry) : Prop :=
  ∀ a ∈ e.cryptoAddresses, isAddress (units a) = true → isLowerAddress (units a) = true

section Parsed

variable {L : LowerCase} {el : El} {e : ListedEntry}

theorem lowered_of_ofacEntry (h : L.ofacEntry el = .ok e) : e.Lowered := by
  simp only [LowerCase.ofacEntry, bind_eq_ok] at h
  obtain ⟨_, -, countries, -, h⟩ := h
  obtain rfl := Except.ok.inj h
  intro a ha haddress
  obtain ⟨t, -, rfl⟩ := List.mem_map.1 (mem_distinct.1 ha)
  exact isLowerAddress_of_isAddress haddress fun u hu ↦ isUpper_of_mem_units (L.not_isUpper t) hu

theorem lowered_of_unEntry {kind : EntryType} (h : L.unEntry kind el = .ok e) : e.Lowered := by
  simp only [LowerCase.unEntry, bind_eq_ok] at h
  obtain ⟨_, -, countries, -, h⟩ := h
  obtain rfl := Except.ok.inj h
  exact nofun

theorem lowered_of_euEntry (h : L.euEntry el = .ok e) : e.Lowered := by
  simp only [LowerCase.euEntry, bind_eq_ok] at h
  obtain ⟨_, -, countries, -, h⟩ := h
  obtain rfl := Except.ok.inj h
  exact nofun

/-- What every parsed element has, every entry of the list has. -/
theorem forall_of_mapM {parse : El → Except ParseError ListedEntry} {P : ListedEntry → Prop}
    (hparse : ∀ el e, parse el = .ok e → P e) {els : List El} {entries : List ListedEntry}
    (h : els.mapM parse = .ok entries) : ∀ e ∈ entries, P e := by
  have hall := mapM_eq_ok.1 h
  clear h
  induction hall with
  | nil => exact nofun
  | cons he _ ih => exact List.forall_mem_cons.2 ⟨hparse _ _ he, ih⟩

end Parsed

/-- Entries as the three parsers produce them, in any order. -/
inductive LowerCase.Produced (L : LowerCase) : List ListedEntry → Prop
  | ofac {events entries} : L.parseOfac events = .ok entries → Produced L entries
  | un {events entries} : L.parseUn events = .ok entries → Produced L entries
  | eu {events entries} : L.parseEu events = .ok entries → Produced L entries
  | append {entries entries'} : Produced L entries → Produced L entries' →
      Produced L (entries ++ entries')

/-- **The addresses of parsed lists are in lower case.** -/
theorem LowerCase.Produced.lowered {L : LowerCase} {entries : List ListedEntry}
    (h : L.Produced entries) : ∀ e ∈ entries, e.Lowered := by
  induction h with
  | ofac h => exact forall_of_mapM (fun _ _ ↦ lowered_of_ofacEntry) h
  | un h =>
    simp only [LowerCase.parseUn, bind_eq_ok] at h
    obtain ⟨individuals, hindividuals, entities, hentities, h⟩ := h
    obtain rfl := Except.ok.inj h
    exact List.forall_mem_append.2 ⟨forall_of_mapM (fun _ _ ↦ lowered_of_unEntry) hindividuals,
      forall_of_mapM (fun _ _ ↦ lowered_of_unEntry) hentities⟩
  | eu h => exact forall_of_mapM (fun _ _ ↦ lowered_of_euEntry) h
  | append _ _ ih ih' => exact List.forall_mem_append.2 ⟨ih, ih'⟩

end Proofmark.Aml
