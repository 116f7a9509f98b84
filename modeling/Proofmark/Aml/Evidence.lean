import Proofmark.Aml.Blocking
import Proofmark.Aml.Screen

/-!
# The evidence against an entry

What screening makes of an entry depends on that entry alone: for each query in turn the best score
of its linked names (`evidence`). The hit of an entry is read off this list (`screenNames_spec`),
and so is the level of decision that it asks for: `Reaches` is about scores as they are, `RoundsUp`
about a first score that reaches a threshold only once it is rounded.
-/

namespace Proofmark.Aml

variable {U : Unicode}

/-! ### Scores of an entry -/

/-- The best score of an entry's linked names, where one reaches the minimum. -/
def Unicode.listedScore (U : Unicode) (e : SanctionEntry) (queried : MatchType) (minScore : ℚ)
    (tokens : List Str) : Option ℚ :=
  ((((e.names.map U.nameTokens).filter fun name ↦ Linked U queried tokens name).map
    (U.matchScore queried tokens)).filter fun s ↦ minScore ≤ s).max?

/-- A score that an entry has against a query. -/
def Unicode.Scores (U : Unicode) (e : SanctionEntry) (queried : MatchType) (minScore : ℚ)
    (tokens : List Str) (s : ℚ) : Prop :=
  minScore ≤ s ∧ ∃ raw ∈ e.names, Linked U queried tokens (U.nameTokens raw) ∧
    s = U.matchScore queried tokens (U.nameTokens raw)

section ListedScore

variable {e : SanctionEntry} {queried : MatchType} {minScore : ℚ} {tokens : List Str} {s : ℚ}

theorem mem_scores :
    s ∈ (((e.names.map U.nameTokens).filter fun name ↦ Linked U queried tokens name).map
      (U.matchScore queried tokens)).filter (fun s ↦ minScore ≤ s) ↔
      U.Scores e queried minScore tokens s := by
  simp only [List.mem_filter, List.mem_map, decide_eq_true_eq, Unicode.Scores]
  constructor
  · rintro ⟨⟨name, ⟨⟨raw, hraw, rfl⟩, hlinked⟩, rfl⟩, hmin⟩
    exact ⟨hmin, raw, hraw, hlinked, rfl⟩
  · rintro ⟨hmin, raw, hraw, hlinked, rfl⟩
    exact ⟨⟨_, ⟨⟨raw, hraw, rfl⟩, hlinked⟩, rfl⟩, hmin⟩

theorem listedScore_eq_some :
    U.listedScore e queried minScore tokens = some s ↔
      U.Scores e queried minScore tokens s ∧
        ∀ s', U.Scores e queried minScore tokens s' → s' ≤ s := by
  rw [Unicode.listedScore, List.max?_eq_some_iff]
  simp only [mem_scores]

theorem listedScore_eq_none :
    U.listedScore e queried minScore tokens = none ↔
      ∀ s, ¬U.Scores e queried minScore tokens s := by
  rw [Unicode.listedScore, List.max?_eq_none_iff, List.eq_nil_iff_forall_not_mem]
  simp only [mem_scores]

/-- A score brings in the best score. -/
theorem Unicode.Scores.listedScore (h : U.Scores e queried minScore tokens s) :
    ∃ s', U.listedScore e queried minScore tokens = some s' ∧ s ≤ s' := by
  cases hbest : U.listedScore e queried minScore tokens with
  | none => exact absurd h (listedScore_eq_none.1 hbest s)
  | some s' => exact ⟨s', rfl, (listedScore_eq_some.1 hbest).2 s h⟩

/-- More names score no less. -/
theorem Unicode.Scores.mono {e' : SanctionEntry} (hnames : e.names ⊆ e'.names)
    (h : U.Scores e queried minScore tokens s) : U.Scores e' queried minScore tokens s := by
  obtain ⟨hmin, raw, hraw, hrest⟩ := h
  exact ⟨hmin, raw, hnames hraw, hrest⟩

theorem listedScore_nil : U.listedScore e queried minScore [] = none := by
  refine listedScore_eq_none.2 fun s ↦ ?_
  rintro ⟨-, raw, -, ⟨t, ht, -⟩, -⟩
  exact absurd ht List.not_mem_nil

end ListedScore

/-! ### Candidates of an entry -/

section Candidates

variable {entries : List SanctionEntry} {limits : MatchLimits} {c : Corpus} {queried : MatchType}
  {minScore : ℚ} {tokens : List Str} {result : List Candidate}

theorem key_inj (hkeys : (entries.map SanctionEntry.key).Nodup) {i j : ℕ} {e e' : SanctionEntry}
    (hi : entries[i]? = some e) (hj : entries[j]? = some e') (h : e.key = e'.key) : i = j := by
  have hi' : (entries.map SanctionEntry.key)[i]? = some e.key := by rw [List.getElem?_map, hi]; rfl
  have hj' : (entries.map SanctionEntry.key)[j]? = some e.key := by
    rw [List.getElem?_map, hj, h]
    rfl
  exact (List.getElem?_inj (List.getElem?_eq_some_iff.1 hi').1 hkeys).1 (hi'.trans hj'.symm)

/-- Elements of one key in a list with distinct keys are at most one. -/
theorem filter_key_eq_toList {α β : Type} [DecidableEq β] {l : List α} {f : α → β}
    (hl : (l.map f).Nodup) {k : β} {o : Option α} (hmem : ∀ a, a ∈ l ∧ f a = k ↔ o = some a) :
    l.filter (fun a ↦ f a = k) = o.toList := by
  have hnodup : (l.filter fun a ↦ f a = k).Nodup := (List.Nodup.of_map f hl).filter _
  have hperm : (l.filter fun a ↦ f a = k).Perm o.toList := by
    refine (List.perm_ext_iff_of_nodup hnodup (by cases o <;> simp)).2 fun a ↦ ?_
    rw [List.mem_filter, decide_eq_true_eq, hmem, Option.mem_toList]
  cases o with
  | none => exact hperm.eq_nil
  | some a => exact List.perm_singleton.1 hperm

/-- The candidate of an entry, with its best score. -/
theorem candidatesFor_entry (hcorpus : U.buildCorpus entries limits = .ok c)
    (hkeys : (entries.map SanctionEntry.key).Nodup)
    (hresult : U.candidatesFor c tokens queried minScore = .ok result) {e : SanctionEntry}
    (he : e ∈ entries) :
    ∃ o : Option Candidate, result.filter (fun c ↦ c.entry.key = e.key) = o.toList ∧
      o.map Candidate.score = U.listedScore e queried minScore tokens ∧
      ∀ c ∈ o, c.entry = e ∧ (c.matchType = queried ∨ queried = .fuzzy ∧ c.matchType = .alias) := by
  have hc := buildCorpus_indexed hcorpus
  obtain ⟨best, hperm, hbest⟩ := candidatesFor_spec hc hresult
  obtain ⟨ei, hei⟩ := List.mem_iff_getElem?.1 he
  -- a row's candidate has the entry of the row's index
  have hentry : ∀ ej candidate, (ej, candidate) ∈ best.rows →
      entries[ej]? = some candidate.entry := by
    intro ej candidate hrow
    obtain ⟨n, hn, -, rfl, -, -, heq, -⟩ := hbest.sound ej candidate hrow
    rw [hc.names_eq] at hn
    obtain ⟨e', he', -⟩ := mem_indexedNames.1 hn
    rw [heq, hc.entries_eq, List.getD_eq_getElem?_getD, he', Option.getD_some]
  have hnodup : (result.map fun c ↦ c.entry.key).Nodup := by
    refine (hperm.map _).nodup_iff.2 ?_
    rw [List.map_map]
    refine (List.Nodup.of_map _ best.nodup).map_on fun row hrow row' hrow' heq ↦ ?_
    have hidx := key_inj hkeys (hentry row.1 row.2 hrow) (hentry row'.1 row'.2 hrow') heq
    exact Table.eq_of_key hrow hrow' hidx
  have hmem : ∀ candidate, candidate ∈ result ∧ candidate.entry.key = e.key ↔
      (best.get ei).map Prod.snd = some candidate := by
    intro candidate
    rw [hperm.mem_iff, List.mem_map, Option.map_eq_some_iff]
    constructor
    · rintro ⟨⟨⟨ej, candidate⟩, hrow, rfl⟩, hkey⟩
      obtain rfl := key_inj hkeys hei (hentry ej candidate hrow) hkey.symm
      exact ⟨(ei, candidate), Table.get_eq_some.2 ⟨hrow, rfl⟩, rfl⟩
    · rintro ⟨row, hget, rfl⟩
      obtain ⟨hrow, rfl⟩ := Table.get_eq_some.1 hget
      refine ⟨⟨row, hrow, rfl⟩, ?_⟩
      rw [Option.some.inj (hei.symm.trans (hentry row.1 row.2 hrow))]
  refine ⟨_, filter_key_eq_toList hnodup hmem, ?_, ?_⟩
  · -- the row's score is the best
    cases hget : best.get ei with
    | none =>
      refine (listedScore_eq_none.2 fun s ⟨hmin, raw, hraw, hlinked, hs⟩ ↦ ?_).symm
      subst hs
      have hne : U.nameTokens raw ≠ [] := by
        obtain ⟨-, -, u, hu, -⟩ := hlinked
        exact List.ne_nil_of_mem hu
      obtain ⟨n, hn, rfl, htokens⟩ := exists_indexedName.2 ⟨e, hei, hne, raw, hraw, rfl⟩
      rw [← htokens] at hlinked hmin
      obtain ⟨candidate, hrow, -⟩ := hbest.best n (hc.names_eq ▸ hn) hlinked hmin
      exact Table.get_eq_none.1 hget _ hrow rfl
    | some row =>
      obtain ⟨hrow, rfl⟩ := Table.get_eq_some.1 hget
      symm
      show U.listedScore e queried minScore tokens = some row.2.score
      refine listedScore_eq_some.2 ⟨?_, fun s ⟨hmin, raw, hraw, hlinked, hs⟩ ↦ ?_⟩
      · obtain ⟨n, hn, hlinked, hidx, hmin, hscore, -⟩ := hbest.sound row.1 row.2 hrow
        rw [hc.names_eq] at hn
        obtain ⟨e', he', -, raw, hraw, htokens⟩ := exists_indexedName.1 ⟨n, hn, hidx, rfl⟩
        obtain rfl := Option.some.inj (hei.symm.trans he')
        exact ⟨hmin, raw, hraw, htokens ▸ hlinked, htokens ▸ hscore⟩
      · subst hs
        have hne : U.nameTokens raw ≠ [] := by
          obtain ⟨-, -, u, hu, -⟩ := hlinked
          exact List.ne_nil_of_mem hu
        obtain ⟨n, hn, hidx, htokens⟩ := exists_indexedName.2 ⟨e, hei, hne, raw, hraw, rfl⟩
        rw [← htokens] at hlinked hmin ⊢
        obtain ⟨candidate, hrow', hle⟩ := hbest.best n (hc.names_eq ▸ hn) hlinked hmin
        rw [hidx] at hrow'
        rw [Table.eq_of_key hrow hrow' rfl]
        exact hle
  · intro candidate hcandidate
    obtain ⟨row, hget, rfl⟩ := Option.map_eq_some_iff.1 hcandidate
    obtain ⟨hrow, rfl⟩ := Table.get_eq_some.1 hget
    obtain ⟨n, -, -, -, -, -, -, htype⟩ := hbest.sound row.1 row.2 hrow
    exact ⟨Option.some.inj ((hentry row.1 row.2 hrow).symm.trans hei), htype⟩

theorem entry_mem_of_candidatesFor (hcorpus : U.buildCorpus entries limits = .ok c)
    (hresult : U.candidatesFor c tokens queried minScore = .ok result) {candidate : Candidate}
    (hmem : candidate ∈ result) : candidate.entry ∈ entries := by
  have hc := buildCorpus_indexed hcorpus
  obtain ⟨best, hperm, hbest⟩ := candidatesFor_spec hc hresult
  obtain ⟨⟨ei, candidate⟩, hrow, rfl⟩ := List.mem_map.1 (hperm.mem_iff.1 hmem)
  obtain ⟨n, hn, -, rfl, -, -, heq, -⟩ := hbest.sound ei candidate hrow
  rw [hc.names_eq] at hn
  obtain ⟨e', he', -⟩ := mem_indexedNames.1 hn
  rw [heq, hc.entries_eq, List.getD_eq_getElem?_getD, he', Option.getD_some]
  exact List.mem_of_getElem? he'

end Candidates

/-! ### The hit of an entry -/

/-- The hit of a key. -/
def hitAt (hits : Hits) (k : Str) : Option ScreeningHit :=
  (hits.get k).map Prod.snd

/-- The hit of an entry, after a candidate. -/
def MatchInput.pushed (input : MatchInput) (prev : Option ScreeningHit) (c : Candidate)
    (type : MatchType) : ScreeningHit :=
  match prev with
  | none => input.newHit c type
  | some prev => if prev.matchType = .wallet then prev else prev.merge c type

section Push

variable {input : MatchInput} {hits : Hits} {c : Candidate} {type : MatchType} {k : Str}

theorem hitAt_push :
    hitAt (input.push hits c type) k =
      if c.entry.key = k then some (input.pushed (hitAt hits k) c type) else hitAt hits k := by
  unfold MatchInput.push
  split
  case h_1 hget =>
    simp only [hitAt, Table.get_set]
    split
    case isTrue hk =>
      subst hk
      rw [hget]
      rfl
    case isFalse => rfl
  case h_2 k' prev hget =>
    split
    case isTrue hwallet =>
      split
      case isTrue hk =>
        subst hk
        simp [hitAt, hget, MatchInput.pushed, hwallet]
      case isFalse => rfl
    case isFalse hwallet =>
      simp only [hitAt, Table.get_set]
      split
      case isTrue hk =>
        subst hk
        simp [hget, MatchInput.pushed, hwallet]
      case isFalse => rfl

theorem hitAt_foldl_push {queried : MatchType} {candidates : List Candidate} :
    hitAt (candidates.foldl (fun hits c ↦ input.push hits c (hitType queried c)) hits) k =
      (candidates.filter fun c ↦ c.entry.key = k).foldl
        (fun hit c ↦ some (input.pushed hit c (hitType queried c))) (hitAt hits k) := by
  induction candidates generalizing hits with
  | nil => rfl
  | cons c candidates ih =>
    rw [List.foldl_cons, ih, hitAt_push, List.filter_cons]
    by_cases hk : c.entry.key = k
    · simp [hk]
    · simp [hk]

/-- Wallet support stays. -/
theorem hitAt_push_wallet {h : ScreeningHit} (hhit : hitAt hits k = some h)
    (hwallet : h.matchType = .wallet) : hitAt (input.push hits c type) k = some h := by
  rw [hitAt_push, hhit]
  split
  · simp [MatchInput.pushed, hwallet]
  · rfl

theorem hitAt_foldl_push_wallet {queried : MatchType} {candidates : List Candidate}
    {h : ScreeningHit} (hhit : hitAt hits k = some h) (hwallet : h.matchType = .wallet) :
    hitAt (candidates.foldl (fun hits c ↦ input.push hits c (hitType queried c)) hits) k =
      some h := by
  induction candidates generalizing hits with
  | nil => exact hhit
  | cons c candidates ih => exact ih (hitAt_push_wallet hhit hwallet)

/-- Rows are of entries. -/
def OfEntries (entries : List SanctionEntry) (hits : Hits) : Prop :=
  ∀ row ∈ hits.rows, ∃ e ∈ entries, row.1 = e.key

theorem mem_push {row : Str × ScreeningHit} (h : row ∈ (input.push hits c type).rows) :
    row.1 = c.entry.key ∨ row ∈ hits.rows := by
  unfold MatchInput.push at h
  split at h
  case h_1 =>
    rcases Table.mem_set.1 h with rfl | ⟨h, -⟩
    · exact .inl rfl
    · exact .inr h
  case h_2 =>
    split at h
    case isTrue => exact .inr h
    case isFalse =>
      rcases Table.mem_set.1 h with rfl | ⟨h, -⟩
      · exact .inl rfl
      · exact .inr h

theorem OfEntries.foldl_push {entries : List SanctionEntry} (hrows : OfEntries entries hits)
    {queried : MatchType} {candidates : List Candidate}
    (hentries : ∀ c ∈ candidates, c.entry ∈ entries) :
    OfEntries entries
      (candidates.foldl (fun hits c ↦ input.push hits c (hitType queried c)) hits) := by
  induction candidates generalizing hits with
  | nil => exact hrows
  | cons c candidates ih =>
    refine ih (fun row hrow ↦ ?_) fun c' hc' ↦ hentries c' (List.mem_cons_of_mem _ hc')
    rcases mem_push hrow with hkey | hrow
    · exact ⟨c.entry, hentries c List.mem_cons_self, hkey⟩
    · exact hrows row hrow

end Push

/-- What the hit of an entry says of its evidence: the scores against it in turn, each with the type
of the query. -/
structure MatchInput.HitOf (input : MatchInput) (e : SanctionEntry) (first : MatchType × ℚ)
    (rest : List (MatchType × ℚ)) (h : ScreeningHit) : Prop where
  corroborated_eq : h.corroborated = input.corroborated e
  corroboration_eq : h.corroboration = input.corro e
  comparison_eq : h.identityComparison = some (input.compare e)
  not_wallet : h.matchType ≠ .wallet
  le_score : Numeric.toFixed 3 first.2 ≤ h.score ∧ ∀ p ∈ rest, p.2 ≤ h.score
  /-- the score is the first one rounded or a later one as it is, and the type is the score's -/
  score_eq : (h.score = Numeric.toFixed 3 first.2 ∧
      (h.matchType = .romanized ↔ first.1 = .romanized)) ∨
    ∃ p ∈ rest, h.score = p.2 ∧ Numeric.toFixed 3 first.2 < p.2 ∧
      (h.matchType = .romanized ↔ p.1 = .romanized)
  direct_iff : ∀ θ, 0 < θ → (θ ≤ h.directNameScore.getD 0 ↔
    ∃ p ∈ first :: rest, p.1 ≠ .romanized ∧ θ ≤ p.2)

section HitOf

variable {input : MatchInput} {e : SanctionEntry} {c : Candidate} {queried : MatchType}
  {first : MatchType × ℚ} {rest : List (MatchType × ℚ)} {h : ScreeningHit}

theorem hitType_eq_romanized
    (htype : c.matchType = queried ∨ queried = .fuzzy ∧ c.matchType = .alias) :
    hitType queried c = .romanized ↔ queried = .romanized := by
  unfold hitType
  split_ifs with hqueried hexact
  · simp [hqueried]
  · simp [hqueried]
  · rcases htype with htype | ⟨-, htype⟩
    · rw [htype]
    · simp [htype, hqueried]

theorem hitType_ne_wallet (hqueried : queried ≠ .wallet)
    (htype : c.matchType = queried ∨ queried = .fuzzy ∧ c.matchType = .alias) :
    hitType queried c ≠ .wallet := by
  unfold hitType
  split_ifs
  · exact nofun
  · exact nofun
  · rcases htype with htype | ⟨-, htype⟩
    · rwa [htype]
    · simp [htype]

theorem newHit_of (hentry : c.entry = e) (hqueried : queried ≠ .wallet)
    (htype : c.matchType = queried ∨ queried = .fuzzy ∧ c.matchType = .alias) :
    input.HitOf e (queried, c.score) [] (input.newHit c (hitType queried c)) where
  corroborated_eq := by rw [← hentry]; rfl
  corroboration_eq := by rw [← hentry]; rfl
  comparison_eq := by rw [← hentry]; rfl
  not_wallet := hitType_ne_wallet hqueried htype
  le_score := ⟨le_rfl, fun _ hp ↦ absurd hp List.not_mem_nil⟩
  score_eq := .inl ⟨rfl, hitType_eq_romanized htype⟩
  direct_iff θ hθ := by
    have hdirect : (input.newHit c (hitType queried c)).directNameScore =
        if queried = .romanized then none else some c.score := by
      simp only [MatchInput.newHit, hitType_eq_romanized htype]
    rw [hdirect]
    by_cases hromanized : queried = .romanized
    · simp [hromanized, hθ]
    · simp [hromanized]

/-- What a later candidate changes of a hit. -/
theorem merge_eq {type : MatchType} : h.merge c type = { h with
    score := max h.score c.score
    matchType := if h.score < c.score then type else h.matchType
    matchedName := if h.score < c.score then c.matchedName else h.matchedName
    directNameScore :=
      if type = .romanized then h.directNameScore else highest h.directNameScore c.score
    inferredNameScore :=
      if type = .romanized then highest h.inferredNameScore c.score else h.inferredNameScore } := by
  unfold ScreeningHit.merge
  by_cases hlt : h.score < c.score
  · by_cases hromanized : type = .romanized
    · simp [hromanized, hlt, hlt.le]
    · simp [hromanized, hlt, hlt.le]
  · by_cases hromanized : type = .romanized
    · simp [hromanized, hlt, not_lt.1 hlt]
    · simp [hromanized, hlt, not_lt.1 hlt]

theorem MatchInput.HitOf.merge (hof : input.HitOf e first rest h) (hqueried : queried ≠ .wallet)
    (htype : c.matchType = queried ∨ queried = .fuzzy ∧ c.matchType = .alias) :
    input.HitOf e first (rest ++ [(queried, c.score)]) (h.merge c (hitType queried c)) where
  corroborated_eq := by rw [merge_eq]; exact hof.corroborated_eq
  corroboration_eq := by rw [merge_eq]; exact hof.corroboration_eq
  comparison_eq := by rw [merge_eq]; exact hof.comparison_eq
  not_wallet := by
    rw [merge_eq]
    dsimp only
    split
    · exact hitType_ne_wallet hqueried htype
    · exact hof.not_wallet
  le_score := by
    rw [merge_eq]
    dsimp only
    refine ⟨hof.le_score.1.trans (le_max_left _ _), fun p hp ↦ ?_⟩
    rcases List.mem_append.1 hp with hp | hp
    · exact (hof.le_score.2 p hp).trans (le_max_left _ _)
    · rw [List.mem_singleton.1 hp]
      exact le_max_right _ _
  score_eq := by
    rw [merge_eq]
    dsimp only
    by_cases hlt : h.score < c.score
    · -- the new score replaces score and type
      rw [if_pos hlt, max_eq_right hlt.le]
      exact .inr ⟨_, List.mem_append_right _ List.mem_cons_self, rfl,
        hof.le_score.1.trans_lt hlt, hitType_eq_romanized htype⟩
    · rw [if_neg hlt, max_eq_left (not_lt.1 hlt)]
      rcases hof.score_eq with hfirst | ⟨p, hp, hrest⟩
      · exact .inl hfirst
      · exact .inr ⟨p, List.mem_append_left _ hp, hrest⟩
  direct_iff θ hθ := by
    have hlast : (∃ p ∈ first :: (rest ++ [(queried, c.score)]), p.1 ≠ .romanized ∧ θ ≤ p.2) ↔
        (∃ p ∈ first :: rest, p.1 ≠ .romanized ∧ θ ≤ p.2) ∨ queried ≠ .romanized ∧ θ ≤ c.score := by
      rw [← List.cons_append]
      simp only [List.mem_append, List.mem_singleton, or_and_right, exists_or, exists_eq_left]
    rw [merge_eq, hlast, ← hof.direct_iff θ hθ]
    simp only [hitType_eq_romanized htype]
    by_cases hromanized : queried = .romanized
    · simp [hromanized]
    · simp [hromanized, highest]

/-- The hit that a list of evidence makes. -/
def MatchInput.Shows (input : MatchInput) (e : SanctionEntry) :
    List (MatchType × ℚ) → Option ScreeningHit → Prop
  | [], hit => hit = none
  | first :: rest, hit => ∃ h, hit = some h ∧ input.HitOf e first rest h

/-- A candidate adds its score to the evidence. -/
theorem MatchInput.Shows.pushed {evidence : List (MatchType × ℚ)} {hit : Option ScreeningHit}
    (hshows : input.Shows e evidence hit) (hentry : c.entry = e) (hqueried : queried ≠ .wallet)
    (htype : c.matchType = queried ∨ queried = .fuzzy ∧ c.matchType = .alias) :
    input.Shows e (evidence ++ [(queried, c.score)])
      (some (input.pushed hit c (hitType queried c))) := by
  cases evidence with
  | nil =>
    obtain rfl : hit = none := hshows
    exact ⟨_, rfl, newHit_of hentry hqueried htype⟩
  | cons first rest =>
    obtain ⟨h, rfl, hof⟩ := hshows
    refine ⟨_, rfl, ?_⟩
    rw [MatchInput.pushed, if_neg hof.not_wallet]
    exact hof.merge hqueried htype

end HitOf

/-! ### What screening finds -/

/-- The score of an entry against a name of the subject. -/
def Unicode.scoreOf (U : Unicode) (e : SanctionEntry) (queried : MatchType) (minScore : ℚ)
    (name : Str) : Option (MatchType × ℚ) :=
  (U.listedScore e queried minScore (U.nameTokens name)).map fun s ↦ (queried, s)

/-- The scores of an entry: against the names as written, then the inferred romanizations. -/
def Unicode.evidence (U : Unicode) (input : MatchInput) (e : SanctionEntry) :
    List (MatchType × ℚ) :=
  input.supplied.filterMap (U.scoreOf e .fuzzy minGivenScore) ++
    input.inferred.filterMap (U.scoreOf e .romanized minRomanizedScore)

section Screened

variable {entries : List SanctionEntry} {limits : MatchLimits} {c : Corpus} {input : MatchInput}
  {queried : MatchType} {minScore : ℚ} {hits hits' : Hits} {names : List Str}

theorem screenName_shows (hcorpus : U.buildCorpus entries limits = .ok c)
    (hkeys : (entries.map SanctionEntry.key).Nodup) (hqueried : queried ≠ .wallet)
    {name : Str} (h : U.screenName c input queried minScore hits name = .ok hits')
    {e : SanctionEntry} (he : e ∈ entries) {evidence : List (MatchType × ℚ)}
    (hshows : input.Shows e evidence (hitAt hits e.key)) :
    input.Shows e (evidence ++ (U.scoreOf e queried minScore name).toList)
      (hitAt hits' e.key) := by
  unfold Unicode.screenName at h
  split at h
  case isTrue hnil =>
    obtain rfl := Except.ok.inj h
    simpa [Unicode.scoreOf, hnil, listedScore_nil] using hshows
  case isFalse =>
    obtain ⟨candidates, hcandidates, h⟩ := Evm.bind_eq_ok.1 h
    obtain rfl := Except.ok.inj h
    obtain ⟨o, hfilter, hscore, ho⟩ := candidatesFor_entry hcorpus hkeys hcandidates he
    rw [hitAt_foldl_push, hfilter, Unicode.scoreOf, ← hscore]
    cases o with
    | none => simpa using hshows
    | some candidate =>
      obtain ⟨hentry, htype⟩ := ho candidate rfl
      exact hshows.pushed hentry hqueried htype

theorem screenName_ofEntries (hcorpus : U.buildCorpus entries limits = .ok c) {name : Str}
    (h : U.screenName c input queried minScore hits name = .ok hits')
    (hrows : OfEntries entries hits) : OfEntries entries hits' := by
  unfold Unicode.screenName at h
  split at h
  case isTrue =>
    obtain rfl := Except.ok.inj h
    exact hrows
  case isFalse =>
    obtain ⟨candidates, hcandidates, h⟩ := Evm.bind_eq_ok.1 h
    obtain rfl := Except.ok.inj h
    exact hrows.foldl_push fun candidate hmem ↦
      entry_mem_of_candidatesFor hcorpus hcandidates hmem

/-- Names in turn add their scores to the evidence. -/
theorem foldlM_screenName_shows (hcorpus : U.buildCorpus entries limits = .ok c)
    (hkeys : (entries.map SanctionEntry.key).Nodup) (hqueried : queried ≠ .wallet)
    (h : names.foldlM (U.screenName c input queried minScore) hits = .ok hits')
    {e : SanctionEntry} (he : e ∈ entries) {evidence : List (MatchType × ℚ)}
    (hshows : input.Shows e evidence (hitAt hits e.key)) :
    input.Shows e (evidence ++ names.filterMap (U.scoreOf e queried minScore))
      (hitAt hits' e.key) := by
  refine Evm.foldlM_induction (P := fun done hits ↦
    input.Shows e (evidence ++ done.filterMap (U.scoreOf e queried minScore)) (hitAt hits e.key))
    ?_ ?_ h
  · intro done s name s' _ hdone hstep
    have hnext := screenName_shows hcorpus hkeys hqueried hstep he hdone
    rw [List.append_assoc] at hnext
    rwa [List.filterMap_append, List.filterMap_cons, List.filterMap_nil]
  · simpa using hshows

/-- Wallet support stays through a name. -/
theorem screenName_wallet {k : Str} {h : ScreeningHit} (hwallet : h.matchType = .wallet)
    {name : Str} (hname : U.screenName c input queried minScore hits name = .ok hits')
    (hhit : hitAt hits k = some h) : hitAt hits' k = some h := by
  unfold Unicode.screenName at hname
  split at hname
  case isTrue =>
    obtain rfl := Except.ok.inj hname
    exact hhit
  case isFalse =>
    obtain ⟨candidates, -, hname⟩ := Evm.bind_eq_ok.1 hname
    obtain rfl := Except.ok.inj hname
    exact hitAt_foldl_push_wallet hhit hwallet

/-- **What screening finds** where no listed wallet is involved: for each entry with evidence
against it the hit that the evidence makes, and nothing else. -/
theorem screenNames_spec (hcorpus : U.buildCorpus entries limits = .ok c)
    (hkeys : (entries.map SanctionEntry.key).Nodup) (hwallet : U.listedWallet c input = none)
    {result : List ScreeningHit} (h : U.screenNames c input = .ok result) :
    (∀ hit ∈ result, ∃ e ∈ entries, input.Shows e (U.evidence input e) (some hit)) ∧
      ∀ e ∈ entries, ∃ hit, input.Shows e (U.evidence input e) hit ∧ ∀ h ∈ hit, h ∈ result := by
  obtain ⟨hits₁, hgiven, h⟩ := Evm.bind_eq_ok.1 h
  obtain ⟨hits₂, hinferred, h⟩ := Evm.bind_eq_ok.1 h
  obtain rfl := Except.ok.inj h
  have hempty : U.walletHits c input = Table.empty := by rw [Unicode.walletHits, hwallet]
  rw [hempty] at hgiven
  have hshows : ∀ e ∈ entries, input.Shows e (U.evidence input e) (hitAt hits₂ e.key) := by
    intro e he
    have hnothing : input.Shows e [] (hitAt Table.empty e.key) := rfl
    have h₁ := foldlM_screenName_shows hcorpus hkeys (by exact nofun) hgiven he hnothing
    exact foldlM_screenName_shows hcorpus hkeys (by exact nofun) hinferred he h₁
  have hrows : OfEntries entries hits₂ := by
    have h₁ : OfEntries entries hits₁ := Evm.foldlM_invariant (P := OfEntries entries)
      (fun _ _ _ _ hs hstep ↦ screenName_ofEntries hcorpus hstep hs)
      (fun row hrow ↦ absurd hrow List.not_mem_nil) hgiven
    exact Evm.foldlM_invariant (P := OfEntries entries)
      (fun _ _ _ _ hs hstep ↦ screenName_ofEntries hcorpus hstep hs) h₁ hinferred
  constructor
  · intro hit hmem
    rw [List.mem_mergeSort, List.mem_map] at hmem
    obtain ⟨⟨k, hit⟩, hrow, rfl⟩ := hmem
    obtain ⟨e, he, rfl⟩ := hrows _ hrow
    refine ⟨e, he, ?_⟩
    have hhit : hitAt hits₂ e.key = some hit := by
      rw [hitAt, Table.get_eq_some.2 ⟨hrow, rfl⟩]
      rfl
    exact hhit ▸ hshows e he
  · intro e he
    refine ⟨_, hshows e he, fun h hh ↦ ?_⟩
    obtain ⟨row, hget, rfl⟩ := Option.map_eq_some_iff.1 hh
    rw [List.mem_mergeSort]
    exact List.mem_map_of_mem (Table.get_eq_some.1 hget).1

/-- A listed wallet is a hit. -/
theorem screenNames_wallet {e : SanctionEntry} (hwallet : U.listedWallet c input = some e)
    {result : List ScreeningHit} (h : U.screenNames c input = .ok result) :
    walletHit e ∈ result := by
  obtain ⟨hits₁, hgiven, h⟩ := Evm.bind_eq_ok.1 h
  obtain ⟨hits₂, hinferred, h⟩ := Evm.bind_eq_ok.1 h
  obtain rfl := Except.ok.inj h
  have hstart : hitAt (U.walletHits c input) (walletKey e) = some (walletHit e) := by
    simp [Unicode.walletHits, hwallet, hitAt]
  have h₁ := Evm.foldlM_invariant (P := fun hits ↦ hitAt hits (walletKey e) = some (walletHit e))
    (fun _ _ _ _ hs hstep ↦ screenName_wallet rfl hstep hs) hstart hgiven
  have h₂ := Evm.foldlM_invariant (P := fun hits ↦ hitAt hits (walletKey e) = some (walletHit e))
    (fun _ _ _ _ hs hstep ↦ screenName_wallet rfl hstep hs) h₁ hinferred
  obtain ⟨row, hget, hrow⟩ := Option.map_eq_some_iff.1 h₂
  rw [List.mem_mergeSort, ← hrow]
  exact List.mem_map_of_mem (Table.get_eq_some.1 hget).1

end Screened

/-! ### Listed wallets -/

/-- An entry lists the address of the subject's wallet. -/
def Unicode.Lists (U : Unicode) (input : MatchInput) (e : SanctionEntry) : Prop :=
  ∃ a ∈ e.cryptoAddresses, isAddress a = true ∧ U.toLowerCase a = U.toLowerCase input.walletAddress

section Wallets

variable {limits : MatchLimits} {b b' : Building} {w : Str}

theorem indexName_byWallet {ei : ℕ} {name : Str × ℕ} (h : U.indexName limits ei b name = .ok b') :
    b'.byWallet = b.byWallet := by
  unfold Unicode.indexName at h
  split at h
  case h_1 =>
    obtain rfl := Except.ok.inj h
    rfl
  case h_2 =>
    split at h
    case isTrue => exact nomatch h
    case isFalse =>
      refine Evm.foldlM_invariant (P := fun s : Building ↦ s.byWallet = b.byWallet) ?_ ?_ h
      · intro s t s' _ hs hstep
        unfold postToken at hstep
        split at hstep
        case isTrue => exact nomatch hstep
        case isFalse =>
          obtain rfl := Except.ok.inj hstep
          exact hs
      · rfl

theorem foldl_set_isSome {addresses : List Str} {ei : ℕ} {t : Table (Prod.fst : Str × ℕ → Str)} :
    ((addresses.foldl (fun t address ↦ t.set (U.toLowerCase address, ei)) t).get w).isSome = true ↔
      (t.get w).isSome = true ∨ ∃ a ∈ addresses, U.toLowerCase a = w := by
  induction addresses generalizing t with
  | nil => simp
  | cons a addresses ih =>
    rw [List.foldl_cons, ih, Table.get_set, List.exists_mem_cons_iff, ← or_assoc]
    refine or_congr_left ?_
    dsimp only
    split
    case isTrue ha => simp [ha]
    case isFalse ha => simp [ha]

theorem indexEntry_byWallet {entry : SanctionEntry × ℕ} (h : U.indexEntry limits b entry = .ok b') :
    (b'.byWallet.get w).isSome = true ↔ (b.byWallet.get w).isSome = true ∨
      ∃ a ∈ entry.1.cryptoAddresses, isAddress a = true ∧ U.toLowerCase a = w := by
  unfold Unicode.indexEntry at h
  have heq : b'.byWallet = (entry.1.cryptoAddresses.filter isAddress).foldl
      (fun t address ↦ t.set (U.toLowerCase address, entry.2)) b.byWallet := by
    refine Evm.foldlM_invariant (P := fun s : Building ↦ s.byWallet = _) ?_ ?_ h
    · intro s name s' _ hs hstep
      exact (indexName_byWallet hstep).trans hs
    · rfl
  rw [heq, foldl_set_isSome]
  simp only [List.mem_filter, and_assoc]

/-- The subject's wallet is listed where an entry lists it. -/
theorem listedWallet_isSome {entries : List SanctionEntry} {c : Corpus} (input : MatchInput)
    (hcorpus : U.buildCorpus entries limits = .ok c) :
    (U.listedWallet c input).isSome = true ↔
      isLowerAddress (U.toLowerCase input.walletAddress) = true ∧
        ∃ e ∈ entries, U.Lists input e := by
  obtain ⟨checked, -, h⟩ := Evm.bind_eq_ok.1 hcorpus
  obtain ⟨b, hb, h⟩ := Evm.bind_eq_ok.1 h
  obtain ⟨⟨byGram, count⟩, -, h⟩ := Evm.bind_eq_ok.1 h
  obtain rfl := Except.ok.inj h
  have hiff := Evm.foldlM_iff (P := fun (s : Building) w ↦ (s.byWallet.get w).isSome = true)
    (Q := fun entry w ↦
      ∃ a ∈ entry.1.cryptoAddresses, isAddress a = true ∧ U.toLowerCase a = w)
    (fun _ _ _ hstep _ ↦ indexEntry_byWallet hstep) hb (U.toLowerCase input.walletAddress)
  have hempty :
      (Building.empty.byWallet.get (U.toLowerCase input.walletAddress)).isSome = false := rfl
  rw [hempty] at hiff
  unfold Unicode.listedWallet
  dsimp only
  split
  case isTrue haddress =>
    rw [Option.isSome_map, hiff]
    simp only [Bool.false_eq_true, false_or, haddress, true_and, Prod.exists,
      List.mk_mem_zipIdx_iff_getElem?, Unicode.Lists]
    constructor
    · rintro ⟨e, ei, he, hlists⟩
      exact ⟨e, List.mem_of_getElem? he, hlists⟩
    · rintro ⟨e, he, hlists⟩
      obtain ⟨ei, hei⟩ := List.mem_iff_getElem?.1 he
      exact ⟨e, ei, hei, hlists⟩
  case isFalse haddress => simp [haddress]

end Wallets

end Proofmark.Aml
