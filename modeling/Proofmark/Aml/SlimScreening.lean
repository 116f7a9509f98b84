import Proofmark.Aml.ListParsers

/-!
# Screening without the addresses that match no wallet

An entry's other fields are what names are screened with, and of its addresses only those in the
form of a wallet are looked up. So a corpus of entries without their other addresses
(`SanctionEntry.slim`) finds the same candidates and makes the same hits (`screenNames_slim`).
-/

open Evm

namespace Proofmark.Aml

/-- The addresses that the index keeps. -/
def SanctionEntry.slim (e : SanctionEntry) : SanctionEntry :=
  { e with cryptoAddresses := e.cryptoAddresses.filter isLowerAddress }

/-- The listed addresses are in lower case. -/
def SanctionEntry.Lowered (e : SanctionEntry) : Prop :=
  ∀ a ∈ e.cryptoAddresses, isAddress a = true → isLowerAddress a = true

def Corpus.slim (c : Corpus) : Corpus :=
  { c with entries := c.entries.map SanctionEntry.slim }

def Candidate.slim (c : Candidate) : Candidate :=
  { c with entry := c.entry.slim }

variable {U : Unicode}

/-! ### The corpus -/

theorem isAddress_of_isLowerAddress {s : Str} (h : isLowerAddress s = true) :
    isAddress s = true := by
  simp only [isLowerAddress, isLowerHexDigit, Bool.and_eq_true, List.all_eq_true] at h
  simp only [isAddress, Bool.and_eq_true, List.all_eq_true]
  exact ⟨h.1, fun u hu ↦ (h.2 u hu).1⟩

/-- **No wallet address is lost.** -/
theorem filter_slim {e : SanctionEntry} (h : e.Lowered) :
    e.slim.cryptoAddresses.filter isAddress = e.cryptoAddresses.filter isAddress := by
  rw [SanctionEntry.slim, List.filter_filter]
  refine List.filter_congr fun a ha ↦ ?_
  cases haddress : isAddress a with
  | false => rfl
  | true => rw [h a ha haddress, Bool.and_self]

theorem indexEntry_slim {limits : MatchLimits} {b : Building} {e : SanctionEntry} (h : e.Lowered)
    (i : ℕ) : U.indexEntry limits b (e.slim, i) = U.indexEntry limits b (e, i) := by
  rw [Unicode.indexEntry, Unicode.indexEntry, filter_slim h]
  rfl

theorem foldlM_congr_of_mem {σ α ε : Type} {f g : σ → α → Except ε σ} {l : List α} (s : σ)
    (h : ∀ a ∈ l, ∀ s, f s a = g s a) : l.foldlM f s = l.foldlM g s := by
  induction l generalizing s with
  | nil => rfl
  | cons a l ih =>
    rw [List.foldlM_cons, List.foldlM_cons, h a List.mem_cons_self]
    exact congrArg _ (funext fun t ↦ ih t fun b hb ↦ h b (List.mem_cons_of_mem _ hb))

theorem buildCorpus_slim {entries : List SanctionEntry} {limits : MatchLimits}
    (h : ∀ e ∈ entries, e.Lowered) :
    U.buildCorpus (entries.map SanctionEntry.slim) limits =
      (U.buildCorpus entries limits).map Corpus.slim := by
  have hindex : ∀ limits, (entries.map SanctionEntry.slim).zipIdx.foldlM (U.indexEntry limits)
      Building.empty = entries.zipIdx.foldlM (U.indexEntry limits) Building.empty := by
    intro limits
    rw [List.zipIdx_map, List.foldlM_map]
    refine foldlM_congr_of_mem _ fun entry hentry s ↦ indexEntry_slim (h _ ?_) entry.2
    exact (List.mem_zipIdx' hentry).2 ▸ List.getElem_mem _
  unfold Unicode.buildCorpus
  simp only [hindex]
  cases limitsOf limits with
  | error e => rfl
  | ok limits =>
    cases hb : entries.zipIdx.foldlM (U.indexEntry limits) Building.empty with
    | error e => simp only [bind, Except.bind, hb, Except.map]
    | ok b =>
      simp only [bind, Except.bind, hb]
      cases hg : (Unicode.signatures U.editGrams b.byToken.keys).foldlM (Unicode.indexGram limits)
          (Table.empty, 0) with
      | error e => simp only [Except.map]
      | ok g => rfl

/-! ### The candidates -/

/-- Entry by entry, the same candidates. -/
def Best.Slim (best best' : Best) : Prop :=
  best'.rows = best.rows.map (Prod.map id Candidate.slim)

theorem getD_slim (entries : List SanctionEntry) (i : ℕ) :
    (entries.map SanctionEntry.slim).getD i default = (entries.getD i default).slim := by
  have hdefault : (default : SanctionEntry).slim = default := rfl
  conv_lhs => rw [← hdefault]
  exact List.getD_map _ _ SanctionEntry.slim

theorem Best.Slim.set {best best' : Best} (h : Best.Slim best best') (i : ℕ) (c : Candidate) :
    Best.Slim (best.set (i, c)) (best'.set (i, c.slim)) := by
  show Table.written Prod.fst best'.rows _ = (Table.written Prod.fst best.rows _).map _
  rw [h]
  exact Table.written_map (fun _ ↦ rfl) best.rows (i, c)

theorem Best.Slim.improve {corpus : Corpus} {tokens : List Str} {matchType : MatchType}
    {minScore : ℚ} {best best' : Best} (h : Best.Slim best best') (ni : ℕ) :
    Best.Slim (U.improve corpus tokens matchType minScore best ni)
      (U.improve corpus.slim tokens matchType minScore best' ni) := by
  have hget : ∀ i, best'.get i = (best.get i).map (Prod.map id Candidate.slim) := fun i ↦
    Table.get_of_map (fun _ ↦ rfl) h
  unfold Unicode.improve
  rw [show corpus.slim.names = corpus.names from rfl]
  cases corpus.names[ni]? with
  | none => exact h
  | some n =>
    simp only [Corpus.slim, getD_slim, hget]
    split
    · exact h
    · cases best.get n.entryIdx with
      | none => exact h.set _ _
      | some row =>
        obtain ⟨i, prev⟩ := row
        simp only [Option.map_some, Prod.map_apply, id_eq, Candidate.slim]
        split
        · exact h.set _ _
        · exact h

theorem candidatesFor_slim (corpus : Corpus) (tokens : List Str) (matchType : MatchType)
    (minScore : ℚ) :
    U.candidatesFor corpus.slim tokens matchType minScore =
      (U.candidatesFor corpus tokens matchType minScore).map (List.map Candidate.slim) := by
  have hbest : ∀ (names : List ℕ) (best best' : Best), Best.Slim best best' →
      Best.Slim (names.foldl (U.improve corpus tokens matchType minScore) best)
        (names.foldl (U.improve corpus.slim tokens matchType minScore) best') := by
    intro names
    induction names with
    | nil => exact fun _ _ h ↦ h
    | cons ni names ih => exact fun _ _ h ↦ ih _ _ (h.improve ni)
  have hsort : ∀ best best' : Best, Best.Slim best best' →
      (best'.rows.map Prod.snd).mergeSort (fun x y ↦ y.score ≤ x.score) =
        ((best.rows.map Prod.snd).mergeSort fun x y ↦ y.score ≤ x.score).map Candidate.slim := by
    intro best best' h
    have hrows : best'.rows.map Prod.snd = (best.rows.map Prod.snd).map Candidate.slim := by
      rw [h, List.map_map, List.map_map]
      rfl
    rw [hrows]
    exact (List.map_mergeSort (f := Candidate.slim) fun _ _ _ _ ↦ rfl).symm
  have hmatching : U.matchingTokens corpus.slim tokens matchType =
      U.matchingTokens corpus tokens matchType := rfl
  unfold Unicode.candidatesFor
  rw [hmatching]
  show (if corpus.limits.maxQueryTokens < tokens.length then _ else _) = _
  split
  · rfl
  · cases U.matchingTokens corpus tokens matchType with
    | error e => rfl
    | ok m =>
      obtain ⟨visits, matching⟩ := m
      show (matching.foldlM (addPostings corpus) (visits, []) >>= _) = _
      simp only [bind, Except.bind]
      cases matching.foldlM (addPostings corpus) (visits, []) with
      | error e => rfl
      | ok p => exact congrArg Except.ok (hsort _ _ (hbest p.2 _ _ rfl))

/-! ### The hits -/

theorem listedWallet_slim (corpus : Corpus) (input : MatchInput) :
    U.listedWallet corpus.slim input = (U.listedWallet corpus input).map SanctionEntry.slim := by
  simp only [Unicode.listedWallet, Corpus.slim, getD_slim]
  split
  · rw [Option.map_map]
    rfl
  · rfl

theorem walletHits_slim (corpus : Corpus) (input : MatchInput) :
    U.walletHits corpus.slim input = U.walletHits corpus input := by
  rw [Unicode.walletHits, Unicode.walletHits, listedWallet_slim]
  cases U.listedWallet corpus input <;> rfl

theorem foldl_push_slim {input : MatchInput} {queried : MatchType} (candidates : List Candidate)
    (hits : Hits) :
    (candidates.map Candidate.slim).foldl (fun hits c ↦ input.push hits c (hitType queried c))
        hits =
      candidates.foldl (fun hits c ↦ input.push hits c (hitType queried c)) hits := by
  rw [List.foldl_map]
  rfl

theorem screenName_slim (corpus : Corpus) (input : MatchInput) (queried : MatchType)
    (minScore : ℚ) :
    U.screenName corpus.slim input queried minScore =
      U.screenName corpus input queried minScore := by
  funext hits name
  unfold Unicode.screenName
  split
  · rfl
  · rw [candidatesFor_slim]
    cases U.candidatesFor corpus (U.nameTokens name) queried minScore with
    | error e => rfl
    | ok candidates => exact congrArg Except.ok (foldl_push_slim candidates hits)

/-- **A slim corpus makes the same hits.** -/
theorem screenNames_slim (corpus : Corpus) (input : MatchInput) :
    U.screenNames corpus.slim input = U.screenNames corpus input := by
  rw [Unicode.screenNames, Unicode.screenNames, walletHits_slim, screenName_slim, screenName_slim]

/-- **Slim entries screen like the entries they come from**, errors included. -/
theorem buildCorpus_screenNames_slim {entries : List SanctionEntry} {limits : MatchLimits}
    (h : ∀ e ∈ entries, e.Lowered) (input : MatchInput) :
    (U.buildCorpus (entries.map SanctionEntry.slim) limits).bind (U.screenNames · input) =
      (U.buildCorpus entries limits).bind (U.screenNames · input) := by
  rw [buildCorpus_slim h]
  cases U.buildCorpus entries limits with
  | error e => rfl
  | ok corpus => exact screenNames_slim corpus input

end Proofmark.Aml
