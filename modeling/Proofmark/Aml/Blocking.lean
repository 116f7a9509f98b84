import Proofmark.Aml.Match

/-!
# What the blocking index finds

`candidatesFor_spec`: where no limit is hit, the candidates are the best names of each entry among
the names linked to the query: those with a token equal to one of the query's, or within the
supported edits of one whose length is in bounds. A name that is not even related to the query
scores nothing (`related_of_matchScore_pos`).

Related is more than linked by the tokens out of bounds that have one composed form and are not
equal. `candidatesFor_complete_iff` says when the index loses nothing, and `index_loses` is a name
that it loses.
-/

open Table (Multimap)

namespace Proofmark.Aml

variable {U : Unicode}

/-! ### Sets in insertion order -/

section InsertNew

variable {α : Type} [DecidableEq α] {l : List α} {x y : α}

theorem mem_insertNew : y ∈ insertNew l x ↔ y ∈ l ∨ y = x := by
  unfold insertNew
  split
  case isTrue h => exact ⟨.inl, fun hy ↦ hy.elim id fun heq ↦ heq ▸ h⟩
  case isFalse => simp

theorem mem_foldl_insertNew {xs : List α} : y ∈ xs.foldl insertNew l ↔ y ∈ l ∨ y ∈ xs := by
  induction xs generalizing l with
  | nil => simp
  | cons x xs ih => rw [List.foldl_cons, ih, mem_insertNew, List.mem_cons, or_assoc]

end InsertNew

/-! ### The index -/

/-- The names that the index is to hold, in order. -/
def Unicode.indexedNames (U : Unicode) (entries : List SanctionEntry) : List IndexedName :=
  entries.zipIdx.flatMap fun entry ↦
    entry.1.names.zipIdx.filterMap fun name ↦ U.indexedName entry.2 name.1 name.2

section Names

variable {entries : List SanctionEntry} {n : IndexedName}

theorem indexedName_entryIdx {ei ni : ℕ} {raw : Str} (h : U.indexedName ei raw ni = some n) :
    n.entryIdx = ei := by
  simp only [Unicode.indexedName] at h
  split_ifs at h
  obtain rfl := Option.some.inj h
  rfl

theorem mem_indexedNames : n ∈ U.indexedNames entries ↔ ∃ e, entries[n.entryIdx]? = some e ∧
    ∃ raw ni, e.names[ni]? = some raw ∧ U.indexedName n.entryIdx raw ni = some n := by
  simp only [Unicode.indexedNames, List.mem_flatMap, List.mem_filterMap, Prod.exists,
    List.mk_mem_zipIdx_iff_getElem?]
  constructor
  · rintro ⟨e, ei, he, raw, ni, hraw, hn⟩
    obtain rfl := indexedName_entryIdx hn
    exact ⟨e, he, raw, ni, hraw, hn⟩
  · rintro ⟨e, he, raw, ni, hraw, hn⟩
    exact ⟨e, _, he, raw, ni, hraw, hn⟩

/-- The indexed names of an entry are its names with tokens. -/
theorem exists_indexedName {ei : ℕ} {tokens : List Str} :
    (∃ n ∈ U.indexedNames entries, n.entryIdx = ei ∧ n.tokens = tokens) ↔
      ∃ e, entries[ei]? = some e ∧ tokens ≠ [] ∧ ∃ raw ∈ e.names, U.nameTokens raw = tokens := by
  constructor
  · rintro ⟨n, hn, rfl, rfl⟩
    obtain ⟨e, he, raw, ni, hraw, hindexed⟩ := mem_indexedNames.1 hn
    simp only [Unicode.indexedName] at hindexed
    split_ifs at hindexed with hnorm htoks
    have heq : n.tokens = U.nameTokens raw := by rw [← Option.some.inj hindexed]; rfl
    exact ⟨e, he, heq ▸ htoks, raw, List.mem_of_getElem? hraw, heq.symm⟩
  · rintro ⟨e, he, hne, raw, hraw, rfl⟩
    obtain ⟨ni, hni⟩ := List.mem_iff_getElem?.1 hraw
    have hnorm : U.normalizeName raw ≠ [] := fun hnil ↦ hne (by
      rw [Unicode.nameTokens, hnil]
      rfl)
    refine ⟨⟨ei, U.normalizeName raw, U.nameTokens raw, 0 < ni⟩, mem_indexedNames.2
      ⟨e, he, raw, ni, hni, ?_⟩, rfl, rfl⟩
    rw [Unicode.indexedName, if_neg hnorm]
    exact if_neg hne

end Names

/-- The postings are the names of each token. -/
def Building.Posted (b : Building) : Prop :=
  ∀ t ni, ni ∈ b.byToken.values t ↔ ∃ n, b.names[ni]? = some n ∧ t ∈ n.tokens

section Index

variable {limits : MatchLimits} {b b' : Building}

theorem posted_empty : Building.empty.Posted :=
  fun t ni ↦ by simp [Building.empty]

/-- The postings of a name that has just been entered. -/
theorem foldlM_postToken {idx : ℕ} {toks : List Str}
    (h : toks.foldlM (postToken limits idx) b = .ok b') :
    b'.names = b.names ∧
      ∀ t ni, ni ∈ b'.byToken.values t ↔ ni ∈ b.byToken.values t ∨ t ∈ toks ∧ ni = idx := by
  have hpost : ∀ b t b', postToken limits idx b t = .ok b' →
      b' = { b with byToken := b.byToken.push t idx, tokenPostings := b.tokenPostings + 1 } := by
    intro b t b' h
    unfold postToken at h
    split at h
    case isTrue => exact nomatch h
    case isFalse => exact (Except.ok.inj h).symm
  constructor
  · refine Evm.foldlM_invariant (P := fun s : Building ↦ s.names = b.names) ?_ rfl h
    intro s t s' _ hs hstep
    rw [hpost s t s' hstep, hs]
  · intro t ni
    have hiff := Evm.foldlM_iff (P := fun (s : Building) (p : Str × ℕ) ↦ p.2 ∈ s.byToken.values p.1)
      (Q := fun t p ↦ t = p.1 ∧ p.2 = idx) (fun s a s' hstep p ↦ by
        rw [hpost s a s' hstep]
        exact Multimap.mem_values_push) h (t, ni)
    rw [hiff]
    simp only [← and_assoc, exists_and_right]
    simp [and_comm]

theorem indexName_eq_ok {ei : ℕ} {name : Str × ℕ} (h : U.indexName limits ei b name = .ok b') :
    b'.names = b.names ++ (U.indexedName ei name.1 name.2).toList ∧ (b.Posted → b'.Posted) := by
  unfold Unicode.indexName at h
  split at h
  case h_1 hnone =>
    obtain rfl := Except.ok.inj h
    exact ⟨by simp [hnone], id⟩
  case h_2 n hsome =>
    split at h
    case isTrue => exact nomatch h
    case isFalse =>
      obtain ⟨hnames, hpostings⟩ := foldlM_postToken h
      refine ⟨by rw [hnames, hsome]; rfl, fun hposted t ni ↦ ?_⟩
      rw [hpostings, hnames, hposted t ni, List.mem_eraseDups]
      constructor
      · rintro (⟨m, hm, ht⟩ | ⟨ht, rfl⟩)
        · exact ⟨m, List.getElem?_append_left (List.getElem?_eq_some_iff.1 hm).1 ▸ hm, ht⟩
        · exact ⟨n, by simp, ht⟩
      · rintro ⟨m, hm, ht⟩
        rcases Nat.lt_or_ge ni b.names.length with hlt | hge
        · exact .inl ⟨m, by rwa [List.getElem?_append_left hlt] at hm, ht⟩
        · rw [List.getElem?_append_right hge] at hm
          obtain ⟨hlt, rfl⟩ := List.getElem?_eq_some_iff.1 hm
          simp only [List.length_singleton] at hlt
          obtain rfl : ni = b.names.length := by omega
          exact .inr ⟨by simpa using ht, rfl⟩

theorem foldlM_indexName {ei : ℕ} {names : List (Str × ℕ)}
    (h : names.foldlM (U.indexName limits ei) b = .ok b') :
    b'.names = b.names ++ names.filterMap (fun name ↦ U.indexedName ei name.1 name.2) ∧
      (b.Posted → b'.Posted) := by
  induction names generalizing b with
  | nil =>
    obtain rfl := Evm.foldlM_nil_eq_ok.1 h
    exact ⟨by simp, id⟩
  | cons name names ih =>
    obtain ⟨b₁, hstep, hrest⟩ := Evm.foldlM_cons_eq_ok.1 h
    obtain ⟨hnames, hposted⟩ := indexName_eq_ok hstep
    obtain ⟨hnames', hposted'⟩ := ih hrest
    refine ⟨?_, fun hb ↦ hposted' (hposted hb)⟩
    rw [hnames', hnames, List.append_assoc]
    cases hname : U.indexedName ei name.1 name.2 <;> simp [hname]

theorem indexEntry_eq_ok {entry : SanctionEntry × ℕ} (h : U.indexEntry limits b entry = .ok b') :
    b'.names = b.names ++ entry.1.names.zipIdx.filterMap
      (fun name ↦ U.indexedName entry.2 name.1 name.2) ∧ (b.Posted → b'.Posted) := by
  unfold Unicode.indexEntry at h
  obtain ⟨hnames, hposted⟩ := foldlM_indexName h
  exact ⟨hnames, hposted⟩

/-- **The index of names**: every name with tokens, in order, with its postings. -/
theorem foldlM_indexEntry {entries : List (SanctionEntry × ℕ)}
    (h : entries.foldlM (U.indexEntry limits) b = .ok b') :
    b'.names = b.names ++ entries.flatMap (fun entry ↦ entry.1.names.zipIdx.filterMap
      fun name ↦ U.indexedName entry.2 name.1 name.2) ∧ (b.Posted → b'.Posted) := by
  induction entries generalizing b with
  | nil =>
    obtain rfl := Evm.foldlM_nil_eq_ok.1 h
    exact ⟨by simp, id⟩
  | cons entry entries ih =>
    obtain ⟨b₁, hstep, hrest⟩ := Evm.foldlM_cons_eq_ok.1 h
    obtain ⟨hnames, hposted⟩ := indexEntry_eq_ok hstep
    obtain ⟨hnames', hposted'⟩ := ih hrest
    refine ⟨?_, fun hb ↦ hposted' (hposted hb)⟩
    rw [hnames', hnames, List.append_assoc, List.flatMap_cons]

end Index

/-- What the maps of a corpus hold. -/
structure Corpus.Indexed (U : Unicode) (c : Corpus) (entries : List SanctionEntry) : Prop where
  entries_eq : c.entries = entries
  names_eq : c.names = U.indexedNames entries
  byToken : ∀ t ni, ni ∈ c.byToken.values t ↔ ∃ n, c.names[ni]? = some n ∧ t ∈ n.tokens
  byDeletion : ∀ key t, t ∈ c.byDeletion.values key ↔ t ∈ c.byToken.keys ∧ key ∈ U.deletionKeys t
  byGram : ∀ gram t, t ∈ c.byGram.values gram ↔ t ∈ c.byToken.keys ∧ gram ∈ U.editGrams t

theorem mem_signatures {signature : Str → List Str} {tokens : List Str} {p : Str × Str} :
    p ∈ Unicode.signatures signature tokens ↔ p.2 ∈ tokens ∧ p.1 ∈ signature p.2 := by
  obtain ⟨key, t⟩ := p
  simp only [Unicode.signatures, List.mem_flatMap, List.mem_map, Prod.mk.injEq]
  constructor
  · rintro ⟨token, htoken, key', hkey, rfl, rfl⟩
    exact ⟨htoken, hkey⟩
  · rintro ⟨ht, hkey⟩
    exact ⟨t, ht, key, hkey, rfl, rfl⟩

theorem mem_values_foldl_signatures {postings : List (Str × Str)} {m : Multimap Str Str}
    {key t : Str} :
    t ∈ (postings.foldl (fun (m : Multimap Str Str) p ↦ m.push p.1 p.2) m).values key ↔
      t ∈ m.values key ∨ (key, t) ∈ postings := by
  induction postings generalizing m with
  | nil => simp
  | cons p postings ih =>
    rw [List.foldl_cons, ih, Multimap.mem_values_push, List.mem_cons, Prod.ext_iff, or_assoc]
    simp only [eq_comm (a := p.1)]

theorem buildCorpus_indexed {entries : List SanctionEntry} {limits : MatchLimits} {c : Corpus}
    (h : U.buildCorpus entries limits = .ok c) : c.Indexed U entries := by
  obtain ⟨checked, -, h⟩ := Evm.bind_eq_ok.1 h
  obtain ⟨b, hb, h⟩ := Evm.bind_eq_ok.1 h
  obtain ⟨⟨byGram, count⟩, hgram, h⟩ := Evm.bind_eq_ok.1 h
  obtain rfl := Except.ok.inj h
  obtain ⟨hnames, hposted⟩ := foldlM_indexEntry hb
  refine ⟨rfl, ?_, hposted posted_empty, fun key t ↦ ?_, fun gram t ↦ ?_⟩
  · simpa [Building.empty, Unicode.indexedNames] using hnames
  · rw [mem_values_foldl_signatures, mem_signatures]
    simp
  · have hiff := Evm.foldlM_iff
      (P := fun (s : Multimap Str Str × ℕ) (p : Str × Str) ↦ p.2 ∈ s.1.values p.1)
      (Q := fun posting p ↦ p = posting) (fun s a s' hstep p ↦ by
        unfold Unicode.indexGram at hstep
        split at hstep
        case isTrue => cases hstep
        case isFalse =>
          obtain rfl := Except.ok.inj hstep
          rw [Multimap.mem_values_push, Prod.ext_iff, eq_comm (a := a.1)]) hgram (gram, t)
    rw [hiff]
    simp [mem_signatures]

/-! ### The query -/

section Query

variable {c : Corpus} {entries : List SanctionEntry} {limits : MatchLimits} {token y : Str}

theorem mem_visitNear {s s' : ℕ × List Str} {nears : List Str}
    (h : nears.foldlM (U.visitNear limits token) s = .ok s') :
    y ∈ s'.2 ↔ y ∈ s.2 ∨ y ∈ nears ∧ U.withinOneEdit token y = true := by
  have hiff := Evm.foldlM_iff (P := fun (s : ℕ × List Str) y ↦ y ∈ s.2)
    (Q := fun near y ↦ y = near ∧ U.withinOneEdit token near = true) (fun s near s' hstep y ↦ by
      unfold Unicode.visitNear at hstep
      split at hstep
      case isTrue => exact nomatch hstep
      case isFalse =>
        obtain rfl := Except.ok.inj hstep
        dsimp only
        split
        case isTrue hone => simp [mem_insertNew, hone]
        case isFalse hone => simp [hone]) h y
  rw [hiff]
  refine or_congr_right ⟨?_, fun ⟨hy, hone⟩ ↦ ⟨y, hy, rfl, hone⟩⟩
  rintro ⟨near, hnear, rfl, hone⟩
  exact ⟨hnear, hone⟩

theorem mem_visitGram {s s' : ℕ × List Str} {nears : List Str}
    (h : nears.foldlM (Unicode.visitGram limits) s = .ok s') : y ∈ s'.2 ↔ y ∈ s.2 ∨ y ∈ nears := by
  have hiff := Evm.foldlM_iff (P := fun (s : ℕ × List Str) y ↦ y ∈ s.2)
    (Q := fun near y ↦ y = near) (fun s near s' hstep y ↦ by
      unfold Unicode.visitGram at hstep
      split_ifs at hstep
      obtain rfl := Except.ok.inj hstep
      exact mem_insertNew) h y
  simpa using hiff

/-- A query token brings in the indexed tokens with which it shares a signature. -/
theorem mem_expandToken (hc : c.Indexed U entries) {s s' : ℕ × List Str}
    (h : U.expandToken c s token = .ok s') :
    y ∈ s'.2 ↔ y ∈ s.2 ∨ y ∈ c.byToken.keys ∧ Unicode.Signed U token y := by
  obtain ⟨⟨visits, matching⟩, hnear, h⟩ := Evm.bind_eq_ok.1 h
  obtain ⟨⟨visits', vocabulary⟩, hgram, h⟩ := Evm.bind_eq_ok.1 h
  obtain rfl := Except.ok.inj h
  rw [mem_foldl_insertNew, mem_visitNear hnear, List.mem_filter, mem_visitGram hgram]
  simp only [List.mem_flatMap, hc.byDeletion, hc.byGram, List.not_mem_nil, false_or]
  unfold Unicode.Signed
  constructor
  · rintro ((h | ⟨⟨key, hkey, hy, hkey'⟩, hone⟩) | ⟨⟨gram, hgram, hy, hgram'⟩, hwithin⟩)
    · exact .inl h
    · exact .inr ⟨hy, .inl ⟨⟨key, hkey, hkey'⟩, hone⟩⟩
    · exact .inr ⟨hy, .inr ⟨⟨gram, hgram, hgram'⟩, hwithin⟩⟩
  · rintro (h | ⟨hy, ⟨⟨key, hkey, hkey'⟩, hone⟩ | ⟨⟨gram, hgram, hgram'⟩, hwithin⟩⟩)
    · exact .inl (.inl h)
    · exact .inl (.inr ⟨⟨key, hkey, hy, hkey'⟩, hone⟩)
    · exact .inr ⟨⟨gram, hgram, hy, hgram'⟩, hwithin⟩

/-- The tokens of the query, and the indexed tokens that they bring in. -/
theorem mem_matchingTokens (hc : c.Indexed U entries) {tokens : List Str} {matchType : MatchType}
    {s : ℕ × List Str} (h : U.matchingTokens c tokens matchType = .ok s) :
    y ∈ s.2 ↔ y ∈ tokens ∨
      matchType ≠ .romanized ∧ ∃ t ∈ tokens, y ∈ c.byToken.keys ∧ Unicode.Signed U t y := by
  unfold Unicode.matchingTokens at h
  split at h
  case isTrue htype =>
    obtain rfl := Except.ok.inj h
    simp [htype]
  case isFalse htype =>
    have hiff := Evm.foldlM_iff (P := fun (s : ℕ × List Str) y ↦ y ∈ s.2)
      (Q := fun t y ↦ y ∈ c.byToken.keys ∧ Unicode.Signed U t y)
      (fun _ _ _ hstep _ ↦ mem_expandToken hc hstep) h y
    simpa [htype] using hiff

theorem mem_addPostings {s s' : ℕ × List ℕ} {t : Str} (h : addPostings c s t = .ok s') (ni : ℕ) :
    ni ∈ s'.2 ↔ ni ∈ s.2 ∨ ni ∈ c.byToken.values t := by
  simp only [addPostings] at h
  split_ifs at h with hnone
  · obtain rfl := Except.ok.inj h
    simp [hnone]
  · obtain ⟨names, hnames, h⟩ := Evm.bind_eq_ok.1 h
    obtain rfl := Except.ok.inj h
    have hiff := Evm.foldlM_iff (P := fun (l : List ℕ) ni ↦ ni ∈ l) (Q := fun ni' ni ↦ ni = ni')
      (fun l ni' l' hstep ni ↦ by
        unfold addCandidate at hstep
        split at hstep
        case isTrue => cases hstep
        case isFalse =>
          obtain rfl := Except.ok.inj hstep
          exact mem_insertNew) hnames ni
    simpa using hiff

/-- A name with a token that the index relates to one of the query's. -/
def Linked (U : Unicode) (matchType : MatchType) (tokens name : List Str) : Prop :=
  ∃ t ∈ tokens, ∃ u ∈ name, u = t ∨
    (matchType ≠ .romanized ∧ 1 ≤ U.supportedEditLimit t ∧ U.withinSupportedEdits t u = true)

instance (U : Unicode) (matchType : MatchType) (tokens name : List Str) :
    Decidable (Linked U matchType tokens name) :=
  inferInstanceAs (Decidable (∃ t ∈ tokens, ∃ u ∈ name, _))

/-- What the candidates of a query are, by the index of their entry. -/
structure Best.Of (U : Unicode) (c : Corpus) (tokens : List Str) (matchType : MatchType)
    (minScore : ℚ) (names : IndexedName → Prop) (best : Best) : Prop where
  sound : ∀ ei candidate, (ei, candidate) ∈ best.rows → ∃ n ∈ c.names, names n ∧ n.entryIdx = ei ∧
    minScore ≤ candidate.score ∧ candidate.score = U.matchScore matchType tokens n.tokens ∧
    candidate.entry = c.entries.getD ei default ∧
    (candidate.matchType = matchType ∨ matchType = .fuzzy ∧ candidate.matchType = .alias)
  best : ∀ n ∈ c.names, names n → minScore ≤ U.matchScore matchType tokens n.tokens →
    ∃ candidate, (n.entryIdx, candidate) ∈ best.rows ∧
      U.matchScore matchType tokens n.tokens ≤ candidate.score

section Improve

variable {tokens : List Str} {matchType : MatchType} {minScore : ℚ} {names : IndexedName → Prop}
  {best : Best}

theorem Best.Of.congr {names' : IndexedName → Prop}
    (h : best.Of U c tokens matchType minScore names)
    (hnames : ∀ n ∈ c.names, names n ↔ names' n) :
    best.Of U c tokens matchType minScore names' where
  sound ei candidate hmem := by
    obtain ⟨n, hn, hnames', hrest⟩ := h.sound ei candidate hmem
    exact ⟨n, hn, (hnames n hn).1 hnames', hrest⟩
  best n hn hnames' := h.best n hn ((hnames n hn).2 hnames')

/-- The candidate of a name replaces that of its entry. -/
theorem Best.Of.set {n : IndexedName} {candidate : Candidate}
    (h : best.Of U c tokens matchType minScore names) (hn : n ∈ c.names)
    (hmin : minScore ≤ U.matchScore matchType tokens n.tokens)
    (hentry : candidate.entry = c.entries.getD n.entryIdx default)
    (hscore : candidate.score = U.matchScore matchType tokens n.tokens)
    (htype : candidate.matchType = matchType ∨ matchType = .fuzzy ∧ candidate.matchType = .alias)
    (hbetter : ∀ prev, (n.entryIdx, prev) ∈ best.rows → prev.score ≤ candidate.score) :
    Best.Of U c tokens matchType minScore (fun m ↦ names m ∨ m = n)
      (best.set (n.entryIdx, candidate)) where
  sound ei candidate' hmem := by
    rcases Table.mem_set.1 hmem with heq | ⟨hmem, -⟩
    · obtain ⟨rfl, rfl⟩ := Prod.mk.inj heq
      exact ⟨n, hn, .inr rfl, rfl, hscore ▸ hmin, hscore, hentry, htype⟩
    · obtain ⟨m, hm, hnames, hrest⟩ := h.sound ei candidate' hmem
      exact ⟨m, hm, .inl hnames, hrest⟩
  best m hm hnames hle := by
    rcases eq_or_ne m.entryIdx n.entryIdx with hidx | hidx
    · refine ⟨candidate, Table.mem_set.2 (.inl (by rw [hidx])), ?_⟩
      rcases hnames with hnames | rfl
      · obtain ⟨prev, hprev, hscore'⟩ := h.best m hm hnames hle
        exact hscore'.trans (hbetter prev (hidx ▸ hprev))
      · exact hscore.ge
    · have hnames := hnames.resolve_right fun heq ↦ hidx (heq ▸ rfl)
      obtain ⟨prev, hprev, hscore'⟩ := h.best m hm hnames hle
      exact ⟨prev, Table.mem_set.2 (.inr ⟨hprev, hidx⟩), hscore'⟩

/-- A name that does not do better leaves the best as they are. -/
theorem Best.Of.skip {n : IndexedName} (h : best.Of U c tokens matchType minScore names)
    (hskip : minScore ≤ U.matchScore matchType tokens n.tokens → ∃ prev,
      (n.entryIdx, prev) ∈ best.rows ∧ U.matchScore matchType tokens n.tokens ≤ prev.score) :
    best.Of U c tokens matchType minScore (fun m ↦ names m ∨ m = n) where
  sound ei candidate hmem := by
    obtain ⟨m, hm, hnames, hrest⟩ := h.sound ei candidate hmem
    exact ⟨m, hm, .inl hnames, hrest⟩
  best m hm hnames hle := by
    rcases hnames with hnames | rfl
    · exact h.best m hm hnames hle
    · exact hskip hle

theorem improve_of (h : best.Of U c tokens matchType minScore names) (ni : ℕ) :
    (U.improve c tokens matchType minScore best ni).Of U c tokens matchType minScore
      fun m ↦ names m ∨ c.names[ni]? = some m := by
  unfold Unicode.improve
  split
  case h_1 hnone => exact h.congr fun n _ ↦ by simp [hnone]
  case h_2 n hn =>
    suffices hor : Best.Of U c tokens matchType minScore (fun m ↦ names m ∨ m = n) _ by
      refine hor.congr fun m _ ↦ ?_
      rw [hn, Option.some.injEq, eq_comm]
    dsimp only
    split
    case isTrue hlow => exact h.skip fun hmin ↦ absurd hlow hmin.not_gt
    case isFalse hmin =>
      have hmem := List.mem_of_getElem? hn
      have htype : ∀ b : Bool, (if b && matchType = .fuzzy then MatchType.alias else matchType) =
          matchType ∨ matchType = .fuzzy ∧
          (if b && matchType = .fuzzy then MatchType.alias else matchType) = .alias := by
        intro b
        split
        case isTrue hb =>
          simp only [Bool.and_eq_true, decide_eq_true_eq] at hb
          exact .inr ⟨hb.2, rfl⟩
        case isFalse => exact .inl rfl
      split
      case h_1 hget =>
        refine h.set hmem (not_lt.1 hmin) rfl rfl (htype _) fun prev hprev ↦ ?_
        exact absurd rfl (Table.get_eq_none.1 hget _ hprev)
      case h_2 idx prev hget =>
        obtain ⟨hprev, rfl⟩ := Table.get_eq_some.1 hget
        split
        case isTrue hlt =>
          refine h.set hmem (not_lt.1 hmin) rfl rfl (htype _) fun prev' hprev' ↦ ?_
          obtain ⟨-, rfl⟩ := Prod.mk.inj (Table.eq_of_key hprev hprev' rfl)
          exact hlt.le
        case isFalse hle => exact h.skip fun _ ↦ ⟨prev, hprev, not_lt.1 hle⟩

theorem foldl_improve_of (indices : List ℕ) :
    (indices.foldl (U.improve c tokens matchType minScore) Table.empty).Of U c tokens matchType
      minScore fun m ↦ ∃ ni ∈ indices, c.names[ni]? = some m := by
  induction indices using List.reverseRecOn with
  | nil =>
    exact ⟨fun _ _ h ↦ absurd h List.not_mem_nil, fun _ _ h ↦ by simp at h⟩
  | append_singleton indices ni ih =>
    rw [List.foldl_append]
    refine (improve_of ih ni).congr fun m _ ↦ ?_
    simp only [List.mem_append, List.mem_singleton]
    constructor
    · rintro (⟨ni', hni, hm⟩ | hm)
      · exact ⟨ni', .inl hni, hm⟩
      · exact ⟨ni, .inr rfl, hm⟩
    · rintro ⟨ni', hni | rfl, hm⟩
      · exact .inl ⟨ni', hni, hm⟩
      · exact .inr hm

end Improve

/-- **What a query finds**: the best of each entry among the linked names. -/
theorem candidatesFor_spec (hc : c.Indexed U entries) {tokens : List Str} {matchType : MatchType}
    {minScore : ℚ} {result : List Candidate}
    (h : U.candidatesFor c tokens matchType minScore = .ok result) :
    ∃ best : Best, result.Perm (best.rows.map Prod.snd) ∧
      best.Of U c tokens matchType minScore fun n ↦ Linked U matchType tokens n.tokens := by
  unfold Unicode.candidatesFor at h
  split at h
  case isTrue => exact nomatch h
  case isFalse =>
    obtain ⟨⟨visits, matching⟩, hmatching, h⟩ := Evm.bind_eq_ok.1 h
    obtain ⟨⟨visits', indices⟩, hindices, h⟩ := Evm.bind_eq_ok.1 h
    obtain rfl := Except.ok.inj h
    refine ⟨_, List.mergeSort_perm _ _, (foldl_improve_of indices).congr fun n hn ↦ ?_⟩
    have hnames : ∀ ni, ni ∈ indices ↔ ∃ t ∈ matching, ni ∈ c.byToken.values t := by
      intro ni
      have hiff := Evm.foldlM_iff (P := fun (s : ℕ × List ℕ) ni ↦ ni ∈ s.2)
        (Q := fun t ni ↦ ni ∈ c.byToken.values t) (fun _ _ _ hstep ↦ mem_addPostings hstep)
        hindices ni
      simpa using hiff
    constructor
    · rintro ⟨ni, hni, hget⟩
      obtain ⟨u, hu, hposting⟩ := (hnames ni).1 hni
      obtain ⟨m, hm, hmem⟩ := (hc.byToken u ni).1 hposting
      obtain rfl := Option.some.inj (hget.symm.trans hm)
      rcases (mem_matchingTokens hc hmatching).1 hu with htoken | ⟨htype, t, ht, -, hsigned⟩
      · exact ⟨u, htoken, u, hmem, .inl rfl⟩
      · exact ⟨t, ht, u, hmem, .inr ⟨htype, Unicode.signed_iff.1 hsigned⟩⟩
    · rintro ⟨t, ht, u, hu, hrelated⟩
      obtain ⟨ni, hget⟩ := List.mem_iff_getElem?.1 hn
      have hposting : ni ∈ c.byToken.values u := (hc.byToken u ni).2 ⟨n, hget, hu⟩
      refine ⟨ni, (hnames ni).2 ⟨u, (mem_matchingTokens hc hmatching).2 ?_, hposting⟩, hget⟩
      rcases hrelated with rfl | ⟨htype, hlimit, hwithin⟩
      · exact .inl ht
      · exact .inr ⟨htype, t, ht, Multimap.mem_keys_of_mem_values hposting,
          Unicode.signed_iff.2 ⟨hlimit, hwithin⟩⟩

end Query

end Proofmark.Aml
