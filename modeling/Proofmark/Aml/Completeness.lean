import Proofmark.Aml.Blocking

/-!
# What the blocking index loses

A name that is not related to a query scores nothing (`matchScore_eq_zero`), so a query that found
every related name would find all that the plain formula finds. What it finds are the linked names
(`candidatesFor_spec`), and the two differ by tokens out of bounds that have one composed form and
are not equal.

`candidatesFor_complete_iff` is the exact condition. A string with unpaired surrogates can yield
such a token: removing a mark between them makes them one character, after the decomposition
(`index_loses`).
-/

namespace Proofmark.Aml

variable {U : Unicode}

/-! ### Names that score -/

/-- A name with a token equal to one of the query's, or within the supported edits of one. -/
def Related (U : Unicode) (matchType : MatchType) (tokens name : List Str) : Prop :=
  ∃ t ∈ tokens, ∃ u ∈ name,
    u = t ∨ (matchType ≠ .romanized ∧ U.withinSupportedEdits t u = true)

section Scores

variable {matchType : MatchType} {tokens name : List Str}

theorem nameScore_eq_zero (h : ∀ t ∈ tokens, t ∉ name) : nameScore tokens name = 0 := by
  have hinter : (tokens.eraseDups.filter fun t ↦ t ∈ name.eraseDups) = [] := by
    refine List.filter_eq_nil_iff.2 fun t ht ↦ ?_
    simpa [List.mem_eraseDups] using h t (List.mem_eraseDups.1 ht)
  simp only [nameScore, hinter, List.length_nil, if_true]

theorem editNameScore_eq_zero
    (h : ∀ t ∈ tokens, ∀ u ∈ name, u ≠ t ∧ U.withinSupportedEdits t u = false) :
    U.editNameScore tokens name = 0 := by
  have hexact : (tokens.eraseDups.filter fun t ↦ t ∈ name.eraseDups) = [] := by
    refine List.filter_eq_nil_iff.2 fun t ht ↦ ?_
    have hnot : t ∉ name := fun hmem ↦ (h t (List.mem_eraseDups.1 ht) t hmem).1 rfl
    simpa [List.mem_eraseDups] using hnot
  have hpairs : ((tokens.eraseDups.filter fun t ↦ t ∉ name.eraseDups).flatMap fun t ↦
      ((name.eraseDups.filter fun u ↦ u ∉ tokens.eraseDups).filter fun u ↦
        U.withinSupportedEdits t u).map fun u ↦
          (⟨t, u, U.tokenScore t u⟩ : Unicode.TokenPair)) = [] := by
    refine List.flatMap_eq_nil_iff.2 fun t ht ↦ ?_
    rw [List.map_eq_nil_iff, List.filter_eq_nil_iff]
    intro u hu
    have ht' := List.mem_eraseDups.1 (List.mem_filter.1 ht).1
    have hu' := List.mem_eraseDups.1 (List.mem_filter.1 hu).1
    simp [(h t ht' u hu').2]
  simp only [Unicode.editNameScore, hexact, hpairs]
  split <;> simp

theorem bestToken_eq_none {token : Str} {large used : List Str}
    (h : ∀ u ∈ large, U.withinSupportedEdits token u = false) :
    U.bestToken token large used = none := by
  have hnone : (large.filter fun y ↦ y ∉ used && U.withinSupportedEdits token y) = [] :=
    List.filter_eq_nil_iff.2 fun u hu ↦ by simp [h u hu]
  simp only [Unicode.bestToken, hnone, List.foldl_nil]

theorem missingTokenNameScore_eq_zero
    (h : ∀ t ∈ tokens, ∀ u ∈ name, U.withinSupportedEdits t u = false) :
    U.missingTokenNameScore tokens name = 0 := by
  simp only [Unicode.missingTokenNameScore]
  split
  case isTrue => rfl
  case isFalse hsizes =>
    -- the first token of the smaller name has none in the larger
    have hnone : ∀ small large : List Str, 0 < small.length →
        (∀ t ∈ small, ∀ u ∈ large, U.withinSupportedEdits t u = false) →
        U.missingSimilarity large small [] 0 = none := by
      intro small large hsmall hfar
      obtain ⟨token, rest, rfl⟩ := List.exists_cons_of_length_pos hsmall
      rw [Unicode.missingSimilarity, bestToken_eq_none (hfar token List.mem_cons_self)]
    rw [hnone]
    · split <;> omega
    · intro t ht u hu
      split at ht
      case isTrue hlt =>
        rw [if_pos hlt] at hu
        exact h t (List.mem_eraseDups.1 ht) u (List.mem_eraseDups.1 hu)
      case isFalse hlt =>
        rw [if_neg hlt] at hu
        rw [Unicode.withinSupportedEdits_comm]
        exact h u (List.mem_eraseDups.1 hu) t (List.mem_eraseDups.1 ht)

/-- **A name that is not related scores nothing.** -/
theorem matchScore_eq_zero (h : ¬Related U matchType tokens name) :
    U.matchScore matchType tokens name = 0 := by
  simp only [Related, not_exists, not_and, not_or] at h
  have hname : nameScore tokens name = 0 :=
    nameScore_eq_zero fun t ht hmem ↦ (h t ht t hmem).1 rfl
  unfold Unicode.matchScore
  rw [hname]
  split
  case isTrue => simp
  case isFalse htype =>
    have hfar : ∀ t ∈ tokens, ∀ u ∈ name, u ≠ t ∧ U.withinSupportedEdits t u = false :=
      fun t ht u hu ↦ ⟨(h t ht u hu).1, by simpa using (h t ht u hu).2 htype⟩
    rw [editNameScore_eq_zero hfar,
      missingTokenNameScore_eq_zero fun t ht u hu ↦ (hfar t ht u hu).2]
    simp

theorem related_of_matchScore_pos (h : 0 < U.matchScore matchType tokens name) :
    Related U matchType tokens name := by
  by_contra hnot
  exact h.ne' (matchScore_eq_zero hnot)

theorem Linked.related (h : Linked U matchType tokens name) : Related U matchType tokens name := by
  obtain ⟨t, ht, u, hu, heq | ⟨htype, -, hwithin⟩⟩ := h
  · exact ⟨t, ht, u, hu, .inl heq⟩
  · exact ⟨t, ht, u, hu, .inr ⟨htype, hwithin⟩⟩

end Scores

/-! ### The plain formula -/

/-- What the plain formula finds: each entry for which a name reaches the minimum, with the best
score of its names. -/
def Unicode.plainMatches (U : Unicode) (entries : List SanctionEntry) (tokens : List Str)
    (matchType : MatchType) (minScore : ℚ) : List (SanctionEntry × ℚ) :=
  entries.zipIdx.filterMap fun e ↦
    (((((U.indexedNames entries).filter fun n ↦ n.entryIdx = e.2).map fun n ↦
      U.matchScore matchType tokens n.tokens).filter fun s ↦ minScore ≤ s).max?).map fun s ↦
        (e.1, s)

section Plain

variable {entries : List SanctionEntry} {n : IndexedName} {tokens : List Str}
  {matchType : MatchType} {minScore : ℚ}

/-- Equal entries have the same names. -/
theorem exists_indexedName_of_eq {ej : ℕ} {e : SanctionEntry} (hn : n ∈ U.indexedNames entries)
    (he : entries[n.entryIdx]? = some e) (hej : entries[ej]? = some e) :
    ∃ m ∈ U.indexedNames entries, m.entryIdx = ej ∧ m.tokens = n.tokens := by
  obtain ⟨e', he', raw, ni, hraw, hindexed⟩ := mem_indexedNames.1 hn
  obtain rfl := Option.some.inj (he.symm.trans he')
  refine ⟨{ n with entryIdx := ej }, mem_indexedNames.2 ⟨e, hej, raw, ni, hraw, ?_⟩, rfl, rfl⟩
  simp only [Unicode.indexedName] at hindexed ⊢
  split_ifs at hindexed ⊢
  rw [← Option.some.inj hindexed]

/-- The best score of an entry's names, where one reaches the minimum. -/
def Unicode.IsBest (U : Unicode) (entries : List SanctionEntry) (tokens : List Str)
    (matchType : MatchType) (minScore : ℚ) (ei : ℕ) (s : ℚ) : Prop :=
  (∃ n ∈ U.indexedNames entries, n.entryIdx = ei ∧ minScore ≤ s ∧
    s = U.matchScore matchType tokens n.tokens) ∧
  ∀ n ∈ U.indexedNames entries, n.entryIdx = ei →
    minScore ≤ U.matchScore matchType tokens n.tokens → U.matchScore matchType tokens n.tokens ≤ s

theorem max?_eq_some {ei : ℕ} {s : ℚ} :
    ((((U.indexedNames entries).filter fun n ↦ n.entryIdx = ei).map fun n ↦
      U.matchScore matchType tokens n.tokens).filter fun s ↦ minScore ≤ s).max? = some s ↔
      U.IsBest entries tokens matchType minScore ei s := by
  rw [List.max?_eq_some_iff, Unicode.IsBest]
  simp only [List.mem_filter, List.mem_map, decide_eq_true_eq, and_imp, forall_exists_index]
  constructor
  · rintro ⟨⟨⟨n, ⟨hn, hidx⟩, rfl⟩, hmin⟩, hmax⟩
    exact ⟨⟨n, hn, hidx, hmin, rfl⟩, fun m hm hidx' hle ↦ hmax _ m hm hidx' rfl hle⟩
  · rintro ⟨⟨n, hn, hidx, hmin, rfl⟩, hmax⟩
    refine ⟨⟨⟨n, ⟨hn, hidx⟩, rfl⟩, hmin⟩, ?_⟩
    rintro b m hm hidx' rfl hle
    exact hmax m hm hidx' hle

theorem mem_plainMatches {e : SanctionEntry} {s : ℚ} :
    (e, s) ∈ U.plainMatches entries tokens matchType minScore ↔ ∃ ei, entries[ei]? = some e ∧
      U.IsBest entries tokens matchType minScore ei s := by
  simp only [Unicode.plainMatches, List.mem_filterMap, Option.map_eq_some_iff, Prod.exists,
    List.mk_mem_zipIdx_iff_getElem?, max?_eq_some, Prod.mk.injEq]
  constructor
  · rintro ⟨e', ei, he, s', hs, rfl, rfl⟩
    exact ⟨ei, he, hs⟩
  · rintro ⟨ei, he, hs⟩
    exact ⟨e, ei, he, s, hs, rfl, rfl⟩

/-- Best candidates that are the best names are, up to order, what the plain formula finds. -/
theorem perm_plainMatches {best : Best}
    (hentry : ∀ ei candidate, (ei, candidate) ∈ best.rows → entries[ei]? = some candidate.entry)
    (hbest : ∀ ei s, (∃ candidate, (ei, candidate) ∈ best.rows ∧ candidate.score = s) ↔
      U.IsBest entries tokens matchType minScore ei s) :
    ((best.rows.map Prod.snd).map fun candidate ↦ (candidate.entry, candidate.score)).Perm
      (U.plainMatches entries tokens matchType minScore) := by
  -- both lists with their entry indices, which are distinct
  let found := best.rows.map fun row ↦ (row.1, row.2.entry, row.2.score)
  let plain := entries.zipIdx.filterMap fun e ↦
    (((((U.indexedNames entries).filter fun n ↦ n.entryIdx = e.2).map fun n ↦
      U.matchScore matchType tokens n.tokens).filter fun s ↦ minScore ≤ s).max?).map fun s ↦
        (e.2, e.1, s)
  have hfound : found.Nodup := by
    refine List.Nodup.of_map Prod.fst ?_
    rw [List.map_map]
    exact best.nodup
  have hplain : plain.Nodup := by
    refine List.Nodup.filterMap ?_ (List.Nodup.of_map Prod.snd ?_)
    · intro e e' p hp hp'
      obtain ⟨s, -, rfl⟩ := Option.map_eq_some_iff.1 hp
      obtain ⟨s', -, heq⟩ := Option.map_eq_some_iff.1 hp'
      simp only [Prod.mk.injEq] at heq
      exact Prod.ext heq.2.1.symm heq.1.symm
    · rw [List.zipIdx_map_snd]
      exact List.nodup_range'
  have hmem : ∀ p, p ∈ found ↔ p ∈ plain := by
    intro ⟨ei, e, s⟩
    simp only [found, plain, List.mem_map, List.mem_filterMap, Option.map_eq_some_iff,
      Prod.mk.injEq, Prod.exists, List.mk_mem_zipIdx_iff_getElem?, max?_eq_some]
    constructor
    · rintro ⟨ei, candidate, hrow, rfl, rfl, rfl⟩
      exact ⟨_, ei, hentry ei candidate hrow, _, (hbest ei _).1 ⟨candidate, hrow, rfl⟩, rfl, rfl,
        rfl⟩
    · rintro ⟨e, ei, he, s, hs, rfl, rfl, rfl⟩
      obtain ⟨candidate, hrow, rfl⟩ := (hbest ei s).2 hs
      have heq := (hentry ei candidate hrow).symm.trans he
      exact ⟨ei, candidate, hrow, rfl, Option.some.inj heq, rfl⟩
  have hperm := ((List.perm_ext_iff_of_nodup hfound hplain).2 hmem).map Prod.snd
  rw [List.map_map, List.map_filterMap] at hperm
  simp only [Option.map_map, Function.comp_def] at hperm
  rw [List.map_map]
  exact hperm

theorem exists_isBest {n : IndexedName} (hn : n ∈ U.indexedNames entries)
    (hle : minScore ≤ U.matchScore matchType tokens n.tokens) :
    ∃ s, U.IsBest entries tokens matchType minScore n.entryIdx s := by
  have hne : ((((U.indexedNames entries).filter fun m ↦ m.entryIdx = n.entryIdx).map fun m ↦
      U.matchScore matchType tokens m.tokens).filter fun s ↦ minScore ≤ s) ≠ [] :=
    List.ne_nil_of_mem
      (List.mem_filter.2 ⟨List.mem_map.2 ⟨n, by simp [hn], rfl⟩, by simpa using hle⟩)
  obtain ⟨s, hs⟩ := Option.isSome_iff_exists.1 (List.isSome_max?_iff.2 hne)
  exact ⟨s, max?_eq_some.1 hs⟩

theorem isBest_unique {ei : ℕ} {s s' : ℚ} (h : U.IsBest entries tokens matchType minScore ei s)
    (h' : U.IsBest entries tokens matchType minScore ei s') : s = s' := by
  obtain ⟨⟨n, hn, hidx, hmin, rfl⟩, hmax⟩ := h
  obtain ⟨⟨n', hn', hidx', hmin', rfl⟩, hmax'⟩ := h'
  exact le_antisymm (hmax' n hn hidx hmin) (hmax n' hn' hidx' hmin')

section Complete

variable {c : Corpus} {best : Best}

/-- The entry of a best candidate is the one of its index. -/
theorem Best.Of.entry_eq (hc : c.Indexed U entries) {names : IndexedName → Prop}
    (h : best.Of U c tokens matchType minScore names) {ei : ℕ} {candidate : Candidate}
    (hrow : (ei, candidate) ∈ best.rows) : entries[ei]? = some candidate.entry := by
  obtain ⟨n, hn, -, rfl, -, -, hentry, -⟩ := h.sound ei candidate hrow
  rw [hc.names_eq] at hn
  obtain ⟨e, he, -⟩ := mem_indexedNames.1 hn
  rw [hentry, hc.entries_eq, List.getD_eq_getElem?_getD, he, Option.getD_some]

/-- Where the linked names carry every score, the best candidates are the best names. -/
theorem Best.Of.isBest_iff (hc : c.Indexed U entries)
    (h : best.Of U c tokens matchType minScore fun n ↦ Linked U matchType tokens n.tokens)
    (hlinked : ∀ n ∈ U.indexedNames entries, minScore ≤ U.matchScore matchType tokens n.tokens →
      ∃ m ∈ U.indexedNames entries, m.entryIdx = n.entryIdx ∧
        U.matchScore matchType tokens n.tokens ≤ U.matchScore matchType tokens m.tokens ∧
        Linked U matchType tokens m.tokens) (ei : ℕ) (s : ℚ) :
    (∃ candidate, (ei, candidate) ∈ best.rows ∧ candidate.score = s) ↔
      U.IsBest entries tokens matchType minScore ei s := by
  have hsound : ∀ candidate, (ei, candidate) ∈ best.rows →
      U.IsBest entries tokens matchType minScore ei candidate.score := by
    intro candidate hrow
    obtain ⟨n, hn, -, hidx, hmin, hscore, -⟩ := h.sound ei candidate hrow
    refine ⟨⟨n, hc.names_eq ▸ hn, hidx, hmin, hscore⟩, fun m hm hidx' hle ↦ ?_⟩
    obtain ⟨m', hm', hidx'', hscore', hlink⟩ := hlinked m hm hle
    obtain ⟨candidate', hrow', hscore''⟩ :=
      h.best m' (hc.names_eq ▸ hm') hlink (hle.trans hscore')
    rw [hidx'', hidx'] at hrow'
    obtain ⟨-, rfl⟩ := Prod.mk.inj (Table.eq_of_key hrow hrow' rfl)
    exact hscore'.trans hscore''
  constructor
  · rintro ⟨candidate, hrow, rfl⟩
    exact hsound candidate hrow
  · intro hs
    obtain ⟨n, hn, rfl, hmin, hscore⟩ := hs.1
    obtain ⟨m, hm, hidx, hle, hlink⟩ := hlinked n hn (hscore ▸ hmin)
    obtain ⟨candidate, hrow, -⟩ :=
      h.best m (hc.names_eq ▸ hm) hlink ((hscore ▸ hmin).trans hle)
    rw [hidx] at hrow
    exact ⟨candidate, hrow, isBest_unique (hsound candidate hrow) hs⟩

end Complete

/-- The index loses nothing where the linked names carry every score. -/
theorem candidatesFor_perm_of_linked {limits : MatchLimits} {c : Corpus} {result : List Candidate}
    (hcorpus : U.buildCorpus entries limits = .ok c)
    (hresult : U.candidatesFor c tokens matchType minScore = .ok result)
    (hlinked : ∀ n ∈ U.indexedNames entries, minScore ≤ U.matchScore matchType tokens n.tokens →
      ∃ m ∈ U.indexedNames entries, m.entryIdx = n.entryIdx ∧
        U.matchScore matchType tokens n.tokens ≤ U.matchScore matchType tokens m.tokens ∧
        Linked U matchType tokens m.tokens) :
    (result.map fun candidate ↦ (candidate.entry, candidate.score)).Perm
      (U.plainMatches entries tokens matchType minScore) := by
  have hc := buildCorpus_indexed hcorpus
  obtain ⟨best, hperm, hbest⟩ := candidatesFor_spec hc hresult
  have hrows := perm_plainMatches (fun ei candidate hrow ↦ hbest.entry_eq hc hrow)
    (hbest.isBest_iff hc hlinked)
  exact (hperm.map _).trans hrows

/-- **When the index loses nothing**: exactly when every name that reaches the minimum has, for the
same entry, a name that scores no less and is linked to the query. -/
theorem candidatesFor_complete_iff {limits : MatchLimits} {c : Corpus} {result : List Candidate}
    (hcorpus : U.buildCorpus entries limits = .ok c)
    (hresult : U.candidatesFor c tokens matchType minScore = .ok result) :
    (result.map fun candidate ↦ (candidate.entry, candidate.score)).Perm
        (U.plainMatches entries tokens matchType minScore) ↔
      ∀ n ∈ U.indexedNames entries, minScore ≤ U.matchScore matchType tokens n.tokens →
        ∃ m ∈ U.indexedNames entries, m.entryIdx = n.entryIdx ∧
          U.matchScore matchType tokens n.tokens ≤ U.matchScore matchType tokens m.tokens ∧
          Linked U matchType tokens m.tokens := by
  constructor
  · intro hplain n hn hle
    have hc := buildCorpus_indexed hcorpus
    obtain ⟨best, hperm, hbest⟩ := candidatesFor_spec hc hresult
    obtain ⟨s, hs⟩ := exists_isBest hn hle
    obtain ⟨e, he, -⟩ := mem_indexedNames.1 hn
    have hmem := hplain.mem_iff.2 (mem_plainMatches.2 ⟨n.entryIdx, he, hs⟩)
    obtain ⟨candidate, hcandidate, heq⟩ := List.mem_map.1 hmem
    obtain ⟨⟨ej, candidate'⟩, hrow, rfl⟩ := List.mem_map.1 (hperm.mem_iff.1 hcandidate)
    obtain ⟨hentry, hscore⟩ := Prod.mk.inj heq
    -- the same name of the entry at its other index
    obtain ⟨m, hm, hlink, rfl, -, hscore', -⟩ := hbest.sound ej candidate' hrow
    have hej := hbest.entry_eq hc hrow
    rw [hc.names_eq] at hm
    obtain ⟨m', hm', hidx, htokens⟩ := exists_indexedName_of_eq hm (hentry ▸ hej) he
    refine ⟨m', hm', hidx, ?_, htokens ▸ hlink⟩
    rw [htokens, ← hscore', hscore]
    exact hs.2 n hn rfl hle
  · exact candidatesFor_perm_of_linked hcorpus hresult

end Plain

/-! ### Tokens of one composed form -/

section Composed

variable {entries : List SanctionEntry} {tokens name : List Str} {matchType : MatchType}
  {minScore : ℚ}

/-- A related name is linked, where the tokens of one composed form are equal. -/
theorem Related.linked (h : Related U matchType tokens name)
    (hforms : ∀ t ∈ tokens, ∀ u ∈ name, U.nfc t = U.nfc u → u = t) :
    Linked U matchType tokens name := by
  obtain ⟨t, ht, u, hu, heq | ⟨htype, hwithin⟩⟩ := h
  · exact ⟨t, ht, u, hu, .inl heq⟩
  · by_cases heq : U.nfc t = U.nfc u
    · exact ⟨t, ht, u, hu, .inl (hforms t ht u hu heq)⟩
    · have hlimit : 0 < min (U.supportedEditLimit t) (U.supportedEditLimit u) := by
        simp only [Unicode.withinSupportedEdits, heq, decide_false, Bool.false_or,
          Bool.and_eq_true, decide_eq_true_eq] at hwithin
        exact hwithin.1
      exact ⟨t, ht, u, hu, .inr ⟨htype, by omega, hwithin⟩⟩

/-- **Names of well-formed strings are never lost**: where tokens of one composed form are equal,
the candidates are all that the plain formula finds. -/
theorem candidatesFor_complete {limits : MatchLimits} {c : Corpus} {result : List Candidate}
    (hcorpus : U.buildCorpus entries limits = .ok c)
    (hresult : U.candidatesFor c tokens matchType minScore = .ok result) (hmin : 0 < minScore)
    (hforms : ∀ n ∈ U.indexedNames entries, ∀ t ∈ tokens, ∀ u ∈ n.tokens,
      U.nfc t = U.nfc u → u = t) :
    (result.map fun candidate ↦ (candidate.entry, candidate.score)).Perm
      (U.plainMatches entries tokens matchType minScore) := by
  refine candidatesFor_perm_of_linked hcorpus hresult fun n hn hle ↦ ⟨n, hn, rfl, le_rfl, ?_⟩
  exact (related_of_matchScore_pos (hmin.trans_le hle)).linked (hforms n hn)

end Composed

/-! ### A name that is lost

Two unpaired surrogates with a mark between them are no character, so the decomposition leaves them
alone. Removing the mark makes them one, which is composed to another. -/

/-- The Unicode data of `U+4E3D` and of `U+2F800`, whose composed form it is. -/
def sampleUnicode : Unicode where
  toLowerCase s := s
  toUpperCase s := s
  nfd s := (points s).flatMap fun point ↦ if point = [0xD87E, 0xDC00] then [0x4E3D] else point
  nfc s := (points s).flatMap fun point ↦ if point = [0xD87E, 0xDC00] then [0x4E3D] else point
  isLetterOrNumber point := point = [0x4E3D] || point = [0xD87E, 0xDC00]

def sampleEntry : SanctionEntry :=
  ⟨.ofacSdn, ascii ['1'], [0x4E3D], [[0x4E3D]], [], [], []⟩

/-- The two surrogates of `U+2F800` and a mark between them. -/
def sampleQuery : Str :=
  [0xD87E, 0x301, 0xDC00]

theorem candidatesFor_complete_iff_sample : ∃ c result,
    sampleUnicode.buildCorpus [sampleEntry] defaultMatchLimits = .ok c ∧
    sampleUnicode.candidatesFor c (sampleUnicode.nameTokens [0x4E3D]) .fuzzy
      (Numeric.nearest (72 / 100)) = .ok result ∧
    ((result.map fun candidate ↦ (candidate.entry, candidate.score)).Perm
        (sampleUnicode.plainMatches [sampleEntry] (sampleUnicode.nameTokens [0x4E3D]) .fuzzy
          (Numeric.nearest (72 / 100))) ↔
      ∀ n ∈ sampleUnicode.indexedNames [sampleEntry], Numeric.nearest (72 / 100) ≤
          sampleUnicode.matchScore .fuzzy (sampleUnicode.nameTokens [0x4E3D]) n.tokens →
        ∃ m ∈ sampleUnicode.indexedNames [sampleEntry], m.entryIdx = n.entryIdx ∧
          sampleUnicode.matchScore .fuzzy (sampleUnicode.nameTokens [0x4E3D]) n.tokens ≤
            sampleUnicode.matchScore .fuzzy (sampleUnicode.nameTokens [0x4E3D]) m.tokens ∧
          Linked sampleUnicode .fuzzy (sampleUnicode.nameTokens [0x4E3D]) m.tokens) := by
  have h : ((do
      let c ← sampleUnicode.buildCorpus [sampleEntry] defaultMatchLimits
      sampleUnicode.candidatesFor c (sampleUnicode.nameTokens [0x4E3D]) .fuzzy
        (Numeric.nearest (72 / 100))) : Except AmlError (List Candidate)) =
      .ok [⟨sampleEntry, [0x4E3D], 1, .fuzzy⟩] := by decide +kernel
  obtain ⟨c, hc, hresult⟩ := Evm.bind_eq_ok.1 h
  exact ⟨c, _, hc, hresult, candidatesFor_complete_iff hc hresult⟩

/-- **A listed name is lost**: it is the composed form of the query's only token. -/
theorem index_loses : ∃ c result,
    sampleUnicode.buildCorpus [sampleEntry] defaultMatchLimits = .ok c ∧
    sampleUnicode.candidatesFor c (sampleUnicode.nameTokens sampleQuery) .fuzzy
      (Numeric.nearest (72 / 100)) = .ok result ∧
    ¬(result.map fun candidate ↦ (candidate.entry, candidate.score)).Perm
      (sampleUnicode.plainMatches [sampleEntry] (sampleUnicode.nameTokens sampleQuery) .fuzzy
        (Numeric.nearest (72 / 100))) := by
  have h : ((do
      let c ← sampleUnicode.buildCorpus [sampleEntry] defaultMatchLimits
      sampleUnicode.candidatesFor c (sampleUnicode.nameTokens sampleQuery) .fuzzy
        (Numeric.nearest (72 / 100))) : Except AmlError (List Candidate)) = .ok [] := by
    decide +kernel
  have hplain : sampleUnicode.plainMatches [sampleEntry] (sampleUnicode.nameTokens sampleQuery)
      .fuzzy (Numeric.nearest (72 / 100)) = [(sampleEntry, 1)] := by decide +kernel
  obtain ⟨c, hc, hresult⟩ := Evm.bind_eq_ok.1 h
  refine ⟨c, [], hc, hresult, ?_⟩
  rw [hplain]
  exact fun hperm ↦ nomatch hperm.symm.eq_nil

end Proofmark.Aml
