import Proofmark.Aml.Evidence

/-!
# Escalation

A decision is as strict as what asks for it: a listed wallet, the subject's own data, or an entry.
An entry asks for a level by a score that reaches a threshold as it is (`Reaches`), or by its first
score once that is rounded to three digits (`RoundsUp`).

More names, entries, addresses or a romanized name only add scores, so what reaches a threshold
still does (`Extends.carried`). A first score that is only rounded up may cease to be the first, and
is then taken as it is, or a romanized score that counts for less may replace it. Additions never
lower a decision exactly where that does not decide (`screen_monotone_iff`); `screen_softened` is a
decision that an alias lowers.
-/

namespace Proofmark.Aml

variable {U : Unicode}

def Decision.severity : Decision → ℕ
  | allow => 0
  | review => 1
  | block => 2

/-! ### Levels an entry asks for -/

/-- A score reaches the threshold as it is. Without support, a romanized one does not count. -/
def Reaches (θ : ℚ) (supported : Prop) (evidence : List (MatchType × ℚ)) : Prop :=
  ∃ p ∈ evidence, θ ≤ p.2 ∧ (supported ∨ p.1 ≠ .romanized)

/-- The first score reaches the threshold once it is rounded. Without support, it is that of a name
as written and no romanized one is higher. -/
def RoundsUp (θ : ℚ) (supported : Prop) : List (MatchType × ℚ) → Prop
  | [] => False
  | first :: rest => first.2 < θ ∧ θ ≤ Numeric.toFixed 3 first.2 ∧
      (supported ∨ first.1 ≠ .romanized ∧
        ∀ p ∈ rest, p.1 = .romanized → p.2 ≤ Numeric.toFixed 3 first.2)

/-- The level that an entry asks for, by a way of reaching thresholds. -/
def Unicode.AsksFor (U : Unicode) (way : ℚ → Prop → List (MatchType × ℚ) → Prop)
    (input : MatchInput) (e : SanctionEntry) : Decision → Prop
  | .allow => True
  | .review => way reviewScore (input.corro e ≠ []) (U.evidence input e)
  | .block => (input.corroborated e = true ∧ (input.compare e).dob = .match_) ∧
      way blockScore True (U.evidence input e)

section Levels

variable {input : MatchInput} {e : SanctionEntry} {first : MatchType × ℚ}
  {rest : List (MatchType × ℚ)} {h : ScreeningHit} {θ : ℚ}

theorem reviewScore_pos : 0 < reviewScore := by decide +kernel

theorem reviewScore_le_blockScore : reviewScore ≤ blockScore := by decide +kernel

theorem toFixed_reviewScore : Numeric.toFixed 3 reviewScore = reviewScore := by decide +kernel

theorem toFixed_blockScore : Numeric.toFixed 3 blockScore = blockScore := by decide +kernel

/-- A hit of an entry counts at a threshold where its evidence reaches it or is rounded up to it. -/
theorem MatchInput.HitOf.counts_iff (hof : input.HitOf e first rest h) (hpos : 0 < θ)
    (hfixed : Numeric.toFixed 3 θ = θ) (supported : Prop) :
    θ ≤ h.score ∧ (supported ∨ h.matchType ≠ .romanized ∨ θ ≤ h.directNameScore.getD 0) ↔
      Reaches θ supported (first :: rest) ∨ RoundsUp θ supported (first :: rest) := by
  constructor
  · rintro ⟨hscore, hcounts⟩
    by_cases hdirect : θ ≤ h.directNameScore.getD 0
    · obtain ⟨p, hp, htype, hle⟩ := (hof.direct_iff θ hpos).1 hdirect
      exact .inl ⟨p, hp, hle, .inr htype⟩
    · have hcounts : supported ∨ h.matchType ≠ .romanized :=
        hcounts.imp_right fun h ↦ h.resolve_right hdirect
      rcases hof.score_eq with ⟨heq, htype⟩ | ⟨p, hp, heq, -, htype⟩
      · -- the first score, rounded
        have hcounts' : supported ∨ first.1 ≠ .romanized :=
          hcounts.imp_right (not_iff_not.2 htype).1
        by_cases hlow : first.2 < θ
        · refine .inr ⟨hlow, heq ▸ hscore, hcounts'.imp_right fun hfirst ↦ ⟨hfirst, ?_⟩⟩
          exact fun p hp _ ↦ heq ▸ hof.le_score.2 p hp
        · exact .inl ⟨first, List.mem_cons_self, not_lt.1 hlow, hcounts'⟩
      · exact .inl ⟨p, List.mem_cons_of_mem _ hp, heq ▸ hscore,
          hcounts.imp_right (not_iff_not.2 htype).1⟩
  · rintro (⟨p, hp, hle, hcounts⟩ | ⟨-, hround, hcounts⟩)
    · have hscore : θ ≤ h.score := by
        rcases List.mem_cons.1 hp with rfl | hp
        · calc θ = Numeric.toFixed 3 θ := hfixed.symm
            _ ≤ Numeric.toFixed 3 p.2 := Numeric.toFixed_mono 3 hpos.le hle
            _ ≤ h.score := hof.le_score.1
        · exact hle.trans (hof.le_score.2 p hp)
      refine ⟨hscore, hcounts.imp_right fun htype ↦ .inr ?_⟩
      exact (hof.direct_iff θ hpos).2 ⟨p, hp, htype, hle⟩
    · refine ⟨hround.trans hof.le_score.1, hcounts.imp_right fun ⟨hfirst, hhigh⟩ ↦ .inl ?_⟩
      rcases hof.score_eq with ⟨-, htype⟩ | ⟨p, hp, -, hlt, htype⟩
      · exact (not_iff_not.2 htype).2 hfirst
      · exact (not_iff_not.2 htype).2 fun hp' ↦ (hhigh p hp hp').not_gt hlt

theorem MatchInput.HitOf.blocks_iff (hof : input.HitOf e first rest h)
    (hevidence : U.evidence input e = first :: rest) :
    h.blocks = true ↔ U.AsksFor Reaches input e .block ∨ U.AsksFor RoundsUp input e .block := by
  have hcounts := hof.counts_iff (reviewScore_pos.trans_le reviewScore_le_blockScore)
    toFixed_blockScore True
  rw [true_or, and_true] at hcounts
  have hblocks : h.blocks = true ↔
      (input.corroborated e = true ∧ (input.compare e).dob = .match_) ∧ blockScore ≤ h.score := by
    simp only [ScreeningHit.blocks, hof.corroborated_eq, hof.comparison_eq, hof.not_wallet,
      decide_false, Bool.false_or, Bool.and_eq_true, decide_eq_true_eq, Option.any_some]
    exact and_right_comm
  rw [hblocks, hcounts, Unicode.AsksFor, Unicode.AsksFor, hevidence, ← and_or_left]

theorem MatchInput.HitOf.suspicious_iff (hof : input.HitOf e first rest h)
    (hevidence : U.evidence input e = first :: rest) :
    h.blocks = true ∨ h.suspicious = true ↔
      U.AsksFor Reaches input e .review ∨ U.AsksFor RoundsUp input e .review := by
  have hcounts := hof.counts_iff reviewScore_pos toFixed_reviewScore (input.corro e ≠ [])
  have hcorro : input.corroborated e = true → input.corro e ≠ [] := by
    simp only [MatchInput.corroborated, Bool.and_eq_true, decide_eq_true_eq]
    exact fun h ↦ h.1.1
  have hdrives : h.drivesDecision = true ↔ input.corro e ≠ [] ∨ h.matchType ≠ .romanized ∨
      reviewScore ≤ h.directNameScore.getD 0 := by
    simp only [ScreeningHit.drivesDecision, hof.corroborated_eq, hof.corroboration_eq,
      Bool.or_eq_true, decide_eq_true_eq]
    tauto
  rw [Unicode.AsksFor, Unicode.AsksFor, hevidence, ← hcounts, ← hdrives]
  constructor
  · rintro (hblocks | hsuspicious)
    · simp only [ScreeningHit.blocks, hof.not_wallet, decide_false, Bool.false_or,
        Bool.and_eq_true, decide_eq_true_eq, hof.corroborated_eq] at hblocks
      exact ⟨reviewScore_le_blockScore.trans hblocks.1.2, hdrives.2 (.inl (hcorro hblocks.1.1))⟩
    · simp only [ScreeningHit.suspicious, Bool.and_eq_true, decide_eq_true_eq] at hsuspicious
      exact ⟨hsuspicious.1.2, hsuspicious.2⟩
  · rintro ⟨hscore, hdrives⟩
    cases hblocks : h.blocks with
    | true => exact .inl rfl
    | false => exact .inr (by simp [ScreeningHit.suspicious, hblocks, hscore, hdrives])

end Levels

/-! ### The decision -/

/-- An entry lists the subject's wallet. -/
def Unicode.WalletListed (U : Unicode) (entries : List SanctionEntry) (input : MatchInput) : Prop :=
  isLowerAddress (U.toLowerCase input.walletAddress) = true ∧ ∃ e ∈ entries, U.Lists input e

/-- The level that the subject's own data ask for, where names are listed. -/
def Unicode.subjectDecision (U : Unicode) (subject : ScreeningSubject) : Decision :=
  if U.nameTokens subject.fullName = [] ∨ U.jurisdictionApplied subject = false ∨
      U.jurisdictionLevel subject = 2 ∨ normalizeDob subject.dateOfBirth = none then .review
  else .allow

/-- What asks for a level without any rounding. -/
def Unicode.Carried (U : Unicode) (entries : List SanctionEntry) (subject : ScreeningSubject)
    (level : Decision) : Prop :=
  U.WalletListed entries (U.matchInput subject) ∨
    level.severity ≤ (U.subjectDecision subject).severity ∨
    ∃ e ∈ entries, U.AsksFor Reaches (U.matchInput subject) e level

/-- An entry asks for a level by a first score that is rounded up. -/
def Unicode.RoundedUp (U : Unicode) (entries : List SanctionEntry) (subject : ScreeningSubject)
    (level : Decision) : Prop :=
  ∃ e ∈ entries, U.AsksFor RoundsUp (U.matchInput subject) e level

section Screened

variable {entries : List SanctionEntry} {limits : MatchLimits} {c : Corpus}
  {subject : ScreeningSubject} {hits : List ScreeningHit}

theorem decisionOf_eq (hnames : c.names ≠ []) :
    (U.decisionOf c subject hits).1 =
      if hits.any ScreeningHit.blocks then .block
      else if hits.any ScreeningHit.suspicious then .review
      else U.subjectDecision subject := by
  have hsuspicious : hits.filter ScreeningHit.suspicious ≠ [] ↔
      hits.any ScreeningHit.suspicious = true := by
    rw [Ne, List.filter_eq_nil_iff, List.any_eq_true]
    push Not
    rfl
  have hpos : 0 < c.names.length := List.length_pos_iff.2 hnames
  have happlied : (!U.nameApplied c subject || !U.jurisdictionApplied subject) = true ↔
      U.nameTokens subject.fullName = [] ∨ U.jurisdictionApplied subject = false := by
    simp [Unicode.nameApplied, hpos]
  unfold Unicode.decisionOf
  dsimp only
  by_cases hblocks : hits.any ScreeningHit.blocks = true
  · rw [if_pos hblocks, if_pos hblocks]
  rw [if_neg hblocks, if_neg hblocks]
  by_cases hany : hits.any ScreeningHit.suspicious = true
  · rw [if_pos (hsuspicious.2 hany), if_pos hany]
  rw [if_neg (mt hsuspicious.1 hany), if_neg hany, if_neg hpos.ne', Unicode.subjectDecision]
  by_cases hinput : U.nameTokens subject.fullName = [] ∨ U.jurisdictionApplied subject = false
  · rw [if_pos (happlied.2 hinput), if_pos (hinput.elim .inl fun h ↦ .inr (.inl h))]
  rw [if_neg (mt happlied.1 hinput)]
  by_cases hlevel : U.jurisdictionLevel subject = 2
  · rw [if_pos hlevel, if_pos (.inr (.inr (.inl hlevel)))]
  rw [if_neg hlevel]
  by_cases hdob : normalizeDob subject.dateOfBirth = none
  · rw [if_pos hdob, if_pos (.inr (.inr (.inr hdob)))]
  have hallow : ¬(U.nameTokens subject.fullName = [] ∨ U.jurisdictionApplied subject = false ∨
      U.jurisdictionLevel subject = 2 ∨ normalizeDob subject.dateOfBirth = none) :=
    fun h ↦ h.elim (hinput ∘ .inl) fun h ↦ h.elim (hinput ∘ .inr) fun h ↦ h.elim hlevel hdob
  rw [if_neg hdob, if_neg hallow]
  split <;> rfl

/-- Some hit passes a test where some entry does, if the test is read off the evidence. -/
theorem exists_found_iff (hcorpus : U.buildCorpus entries limits = .ok c)
    (hkeys : (entries.map SanctionEntry.key).Nodup) {input : MatchInput}
    (hlisted : U.listedWallet c input = none) (hfound : U.screenNames c input = .ok hits)
    {p : ScreeningHit → Prop} {asks : SanctionEntry → Prop}
    (hiff : ∀ e first rest h, input.HitOf e first rest h → U.evidence input e = first :: rest →
      (p h ↔ asks e))
    (hnil : ∀ e, U.evidence input e = [] → ¬asks e) :
    (∃ h ∈ hits, p h) ↔ ∃ e ∈ entries, asks e := by
  have hspec := screenNames_spec hcorpus hkeys hlisted hfound
  constructor
  · rintro ⟨h, hmem, hp⟩
    obtain ⟨e, he, hshows⟩ := hspec.1 h hmem
    cases hevidence : U.evidence input e with
    | nil =>
      rw [hevidence] at hshows
      exact nomatch hshows
    | cons first rest =>
      rw [hevidence] at hshows
      obtain ⟨h', heq, hof⟩ := hshows
      obtain rfl := Option.some.inj heq
      exact ⟨e, he, (hiff e first rest h hof hevidence).1 hp⟩
  · rintro ⟨e, he, hasks⟩
    obtain ⟨hit, hshows, hmem⟩ := hspec.2 e he
    cases hevidence : U.evidence input e with
    | nil => exact absurd hasks (hnil e hevidence)
    | cons first rest =>
      rw [hevidence] at hshows
      obtain ⟨h, rfl, hof⟩ := hshows
      exact ⟨h, hmem h rfl, (hiff e first rest h hof hevidence).2 hasks⟩

/-- **The decision is what asks for it.** -/
theorem screen_severity {versions : ListId → Option ℕ} {r : ScreeningResult}
    (hcorpus : U.buildCorpus entries limits = .ok c)
    (hkeys : (entries.map SanctionEntry.key).Nodup) (hnames : c.names ≠ [])
    (hr : U.screen c versions subject = .ok r) (level : Decision) :
    level.severity ≤ r.decision.severity ↔
      U.Carried entries subject level ∨ U.RoundedUp entries subject level := by
  obtain ⟨found, hfound, h⟩ := Evm.bind_eq_ok.1 hr
  -- the version of a list does not count
  have hblocks : (found.map fun h ↦
      { h with listVersion := (versions h.listId).getD 0 }).any ScreeningHit.blocks =
      found.any ScreeningHit.blocks := by
    rw [List.any_map]
    rfl
  have hsuspicious : (found.map fun h ↦
      { h with listVersion := (versions h.listId).getD 0 }).any ScreeningHit.suspicious =
      found.any ScreeningHit.suspicious := by
    rw [List.any_map]
    rfl
  have hdecision : r.decision = if found.any ScreeningHit.blocks then .block
      else if found.any ScreeningHit.suspicious then .review
      else U.subjectDecision subject := by
    rw [← hblocks, ← hsuspicious, ← decisionOf_eq hnames]
    dsimp only at h
    generalize U.decisionOf c subject _ = decided at h ⊢
    obtain ⟨decision, reviewReason, riskBand⟩ := decided
    rw [← Except.ok.inj h]
  rw [hdecision]
  have hwallet := listedWallet_isSome (U.matchInput subject) hcorpus
  cases hlisted : U.listedWallet c (U.matchInput subject) with
  | some e =>
    have hany : found.any ScreeningHit.blocks = true :=
      List.any_eq_true.2 ⟨_, screenNames_wallet hlisted hfound, rfl⟩
    rw [hlisted] at hwallet
    rw [if_pos hany]
    refine iff_of_true ?_ (.inl (.inl (hwallet.1 rfl)))
    cases level <;> decide
  | none =>
    rw [hlisted] at hwallet
    have hnot : ¬U.WalletListed entries (U.matchInput subject) := fun h ↦ nomatch hwallet.2 h
    have hnil : ∀ way : ℚ → Prop → List (MatchType × ℚ) → Prop,
        (∀ θ supported, ¬way θ supported []) →
        ∀ e, U.evidence (U.matchInput subject) e = [] →
          ¬U.AsksFor way (U.matchInput subject) e .review ∧
            ¬U.AsksFor way (U.matchInput subject) e .block := by
      intro way hway e hevidence
      simp only [Unicode.AsksFor, hevidence]
      exact ⟨hway _ _, fun h ↦ hway _ _ h.2⟩
    have hreaches := hnil Reaches fun θ supported ⟨p, hp, _⟩ ↦ absurd hp List.not_mem_nil
    have hrounds := hnil RoundsUp fun θ supported h ↦ h
    have hblock := exists_found_iff hcorpus hkeys hlisted hfound
      (p := fun h ↦ h.blocks = true) (fun e first rest h hof hevidence ↦ hof.blocks_iff hevidence)
      fun e hevidence h ↦ h.elim (hreaches e hevidence).2 (hrounds e hevidence).2
    have hreview := exists_found_iff hcorpus hkeys hlisted hfound
      (p := fun h ↦ h.blocks = true ∨ h.suspicious = true)
      (fun e first rest h hof hevidence ↦ hof.suspicious_iff hevidence)
      fun e hevidence h ↦ h.elim (hreaches e hevidence).1 (hrounds e hevidence).1
    have hsubject : (U.subjectDecision subject).severity ≤ 1 := by
      unfold Unicode.subjectDecision
      split <;> decide
    simp only [← List.any_eq_true, and_or_left, exists_or] at hblock hreview
    simp only [Unicode.Carried, Unicode.RoundedUp, hnot, false_or]
    cases level with
    | allow => exact iff_of_true (Nat.zero_le _) (.inl (.inl (Nat.zero_le _)))
    | review =>
      rw [or_assoc, ← hreview]
      split_ifs with hb hs
      · exact iff_of_true (by decide) (.inr (.inl hb))
      · exact iff_of_true le_rfl (.inr (.inr hs))
      · simp only [hb, hs, Bool.false_eq_true, or_false]
    | block =>
      have hno : ¬Decision.block.severity ≤ (U.subjectDecision subject).severity := by
        show ¬2 ≤ _
        omega
      rw [or_assoc, ← hblock]
      split_ifs with hb hs
      · exact iff_of_true le_rfl (.inr hb)
      · exact iff_of_false (by decide) (not_or.2 ⟨hno, hb⟩)
      · exact iff_of_false hno (not_or.2 ⟨hno, hb⟩)

end Screened

/-! ### Additions -/

/-- An addition: an entry, an alias or a wallet address of an entry, or a romanized name. -/
inductive Adds :
    List SanctionEntry → ScreeningSubject → List SanctionEntry → ScreeningSubject → Prop
  | entry (before after : List SanctionEntry) (e : SanctionEntry) (subject : ScreeningSubject) :
    Adds (before ++ after) subject (before ++ e :: after) subject
  | aliasName (before after : List SanctionEntry) (e : SanctionEntry) (names names' : List Str)
    (name : Str) (subject : ScreeningSubject) (h : e.names = names ++ names') :
    Adds (before ++ e :: after) subject
      (before ++ { e with names := names ++ name :: names' } :: after) subject
  | wallet (before after : List SanctionEntry) (e : SanctionEntry) (addresses addresses' : List Str)
    (address : Str) (subject : ScreeningSubject) (h : e.cryptoAddresses = addresses ++ addresses') :
    Adds (before ++ e :: after) subject
      (before ++ { e with cryptoAddresses := addresses ++ address :: addresses' } :: after) subject
  | romanizedName (entries : List SanctionEntry) (name : Str) (subject : ScreeningSubject)
    (h : subject.romanizedName = none) :
    Adds entries subject entries { subject with romanizedName := some name }

/-- An entry with no less listed of it. -/
structure SanctionEntry.Extends (e e' : SanctionEntry) : Prop where
  dobs_eq : e'.dobs = e.dobs
  countries_eq : e'.countries = e.countries
  names_subset : e.names ⊆ e'.names
  addresses_subset : e.cryptoAddresses ⊆ e'.cryptoAddresses

/-- No less is listed, and no less is screened of the subject. -/
structure Extends (entries : List SanctionEntry) (subject : ScreeningSubject)
    (entries' : List SanctionEntry) (subject' : ScreeningSubject) : Prop where
  entries : ∀ e ∈ entries, ∃ e' ∈ entries', e.Extends e'
  subject_eq : { subject' with romanizedName := subject.romanizedName } = subject
  romanizedName : ∀ name ∈ subject.romanizedName, name ∈ subject'.romanizedName

section Additions

variable {entries entries' : List SanctionEntry} {subject subject' : ScreeningSubject}
  {e e' : SanctionEntry}

theorem SanctionEntry.Extends.refl (e : SanctionEntry) : e.Extends e :=
  ⟨rfl, rfl, fun _ h ↦ h, fun _ h ↦ h⟩

theorem subset_insert_middle {α : Type} (l l' : List α) (a : α) : l ++ l' ⊆ l ++ a :: l' := by
  intro b hb
  rcases List.mem_append.1 hb with hb | hb
  · exact List.mem_append_left _ hb
  · exact List.mem_append_right _ (List.mem_cons_of_mem _ hb)

/-- An entry that is replaced by one that extends it. -/
theorem extends_of_replaced {before after : List SanctionEntry} (h : e.Extends e') :
    Extends (before ++ e :: after) subject (before ++ e' :: after) subject where
  entries x hx := by
    rcases List.mem_append.1 hx with hx | hx
    · exact ⟨x, List.mem_append_left _ hx, .refl x⟩
    · rcases List.mem_cons.1 hx with rfl | hx
      · exact ⟨e', List.mem_append_right _ List.mem_cons_self, h⟩
      · exact ⟨x, List.mem_append_right _ (List.mem_cons_of_mem _ hx), .refl x⟩
  subject_eq := rfl
  romanizedName _ h := h

theorem Adds.extends (h : Adds entries subject entries' subject') :
    Extends entries subject entries' subject' := by
  cases h with
  | entry before after e =>
    exact ⟨fun x hx ↦ ⟨x, subset_insert_middle before after e hx, .refl x⟩, rfl, fun _ h ↦ h⟩
  | aliasName before after e names names' name _ h =>
    exact extends_of_replaced ⟨rfl, rfl, h ▸ subset_insert_middle names names' name, fun _ h ↦ h⟩
  | wallet before after e addresses addresses' address _ h =>
    exact extends_of_replaced
      ⟨rfl, rfl, fun _ h ↦ h, h ▸ subset_insert_middle addresses addresses' address⟩
  | romanizedName _ name _ h =>
    exact ⟨fun x hx ↦ ⟨x, hx, .refl x⟩, rfl, fun x hx ↦ by simp [h] at hx⟩

/-! ### What an addition keeps -/

section Kept

variable (h : Extends entries subject entries' subject')

include h

theorem Extends.supplied_subset :
    (U.matchInput subject).supplied ⊆ (U.matchInput subject').supplied := by
  obtain ⟨fullName, romanizedName, dateOfBirth, nationality, residence, walletAddress⟩ := subject
  obtain ⟨fullName', romanizedName', dateOfBirth', nationality', residence', wallet'⟩ := subject'
  obtain ⟨-, hsubject, hromanized⟩ := h
  simp only [ScreeningSubject.mk.injEq] at hsubject
  obtain ⟨rfl, -, rfl, rfl, rfl, rfl⟩ := hsubject
  intro name hname
  simp only [MatchInput.supplied, Unicode.matchInput, List.mem_eraseDups, List.mem_filter,
    List.mem_cons, Option.mem_toList] at hname ⊢
  exact ⟨hname.1.imp_right fun h ↦ hromanized name h, hname.2⟩

theorem Extends.matchInput_eq : { U.matchInput subject' with
    romanizedName := subject.romanizedName } = U.matchInput subject := by
  rw [← h.subject_eq]
  rfl

theorem Extends.inferred_eq :
    (U.matchInput subject').inferred = (U.matchInput subject).inferred := by
  rw [← h.matchInput_eq]
  rfl

theorem Extends.subjectDecision_eq : U.subjectDecision subject' = U.subjectDecision subject := by
  rw [← h.subject_eq]
  rfl

/-- The evidence of an entry stays, with scores that are no lower. -/
theorem Extends.evidence (he : e.Extends e') {p : MatchType × ℚ}
    (hp : p ∈ U.evidence (U.matchInput subject) e) :
    ∃ p' ∈ U.evidence (U.matchInput subject') e', p'.1 = p.1 ∧ p.2 ≤ p'.2 := by
  have hscore : ∀ queried minScore name, U.scoreOf e queried minScore name = some p →
      ∃ p', U.scoreOf e' queried minScore name = some p' ∧ p'.1 = p.1 ∧ p.2 ≤ p'.2 := by
    intro queried minScore name hp
    obtain ⟨s, hs, rfl⟩ := Option.map_eq_some_iff.1 hp
    obtain ⟨s', hs', hle⟩ := ((listedScore_eq_some.1 hs).1.mono he.names_subset).listedScore
    exact ⟨(queried, s'), Option.map_eq_some_iff.2 ⟨s', hs', rfl⟩, rfl, hle⟩
  simp only [Unicode.evidence, List.mem_append, List.mem_filterMap] at hp ⊢
  rcases hp with ⟨name, hname, hp⟩ | ⟨name, hname, hp⟩
  · obtain ⟨p', hp', hrest⟩ := hscore _ _ _ hp
    exact ⟨p', .inl ⟨name, h.supplied_subset hname, hp'⟩, hrest⟩
  · obtain ⟨p', hp', hrest⟩ := hscore _ _ _ hp
    exact ⟨p', .inr ⟨name, h.inferred_eq ▸ hname, hp'⟩, hrest⟩

/-- Identity is compared as before. -/
theorem Extends.compare_eq (he : e.Extends e') :
    (U.matchInput subject').compare e' = (U.matchInput subject).compare e := by
  rw [← h.matchInput_eq, MatchInput.compare, MatchInput.compare, he.dobs_eq, he.countries_eq]

/-- **What reaches a threshold still does.** -/
theorem Extends.carried {level : Decision} (hcarried : U.Carried entries subject level) :
    U.Carried entries' subject' level := by
  have hreaches : ∀ (θ : ℚ) (supported : Prop) {e e' : SanctionEntry}, e.Extends e' →
      Reaches θ supported (U.evidence (U.matchInput subject) e) →
      Reaches θ supported (U.evidence (U.matchInput subject') e') := by
    intro θ supported e e' he ⟨p, hp, hle, hcounts⟩
    obtain ⟨p', hp', htype, hle'⟩ := h.evidence he hp
    exact ⟨p', hp', hle.trans hle', htype ▸ hcounts⟩
  rcases hcarried with ⟨haddress, e, he, a, ha, hlists⟩ | hsubject | ⟨e, he, hasks⟩
  · obtain ⟨e', he', hextends⟩ := h.entries e he
    rw [← h.matchInput_eq] at haddress hlists
    exact .inl ⟨haddress, e', he', a, hextends.addresses_subset ha, hlists⟩
  · rw [← h.subjectDecision_eq] at hsubject
    exact .inr (.inl hsubject)
  · obtain ⟨e', he', hextends⟩ := h.entries e he
    refine .inr (.inr ⟨e', he', ?_⟩)
    have hcompare := h.compare_eq (U := U) hextends
    cases level with
    | allow => trivial
    | review =>
      simp only [Unicode.AsksFor, MatchInput.corro, hcompare] at hasks ⊢
      exact hreaches _ _ hextends hasks
    | block =>
      simp only [Unicode.AsksFor, MatchInput.corroborated, MatchInput.corro, hcompare] at hasks ⊢
      exact ⟨hasks.1, hreaches _ _ hextends hasks.2⟩

theorem Extends.names_ne_nil {limits : MatchLimits} {c c' : Corpus}
    (hcorpus : U.buildCorpus entries limits = .ok c)
    (hcorpus' : U.buildCorpus entries' limits = .ok c') (hnames : c.names ≠ []) :
    c'.names ≠ [] := by
  rw [(buildCorpus_indexed hcorpus).names_eq] at hnames
  rw [(buildCorpus_indexed hcorpus').names_eq]
  obtain ⟨n, hn⟩ := List.exists_mem_of_ne_nil _ hnames
  obtain ⟨e, he, hne, raw, hraw, htokens⟩ := exists_indexedName.1 ⟨n, hn, rfl, rfl⟩
  obtain ⟨e', he', hextends⟩ := h.entries e (List.mem_of_getElem? he)
  obtain ⟨ei, hei⟩ := List.mem_iff_getElem?.1 he'
  obtain ⟨n', hn', -⟩ := exists_indexedName.2
    ⟨e', hei, hne, raw, hextends.names_subset hraw, htokens⟩
  exact List.ne_nil_of_mem hn'

end Kept

end Additions

/-- **When nothing softens a hit**: an addition does not lower the decision exactly if every level
that a rounded up first score asks for before is asked for afterwards, by what is not rounded or by
a first score that is still rounded up. -/
theorem screen_monotone_iff {entries entries' : List SanctionEntry}
    {subject subject' : ScreeningSubject} {limits : MatchLimits} {c c' : Corpus}
    {versions versions' : ListId → Option ℕ} {r r' : ScreeningResult}
    (hadds : Adds entries subject entries' subject')
    (hcorpus : U.buildCorpus entries limits = .ok c)
    (hcorpus' : U.buildCorpus entries' limits = .ok c')
    (hkeys : (entries.map SanctionEntry.key).Nodup)
    (hkeys' : (entries'.map SanctionEntry.key).Nodup) (hnames : c.names ≠ [])
    (hr : U.screen c versions subject = .ok r)
    (hr' : U.screen c' versions' subject' = .ok r') :
    r.decision.severity ≤ r'.decision.severity ↔ ∀ level, U.RoundedUp entries subject level →
      U.Carried entries' subject' level ∨ U.RoundedUp entries' subject' level := by
  have hextends := hadds.extends
  have hbefore := fun level ↦ screen_severity hcorpus hkeys hnames hr level
  have hafter := fun level ↦ screen_severity hcorpus' hkeys'
    (hextends.names_ne_nil hcorpus hcorpus' hnames) hr' level
  constructor
  · intro hle level hrounded
    exact (hafter level).1 (((hbefore level).2 (.inr hrounded)).trans hle)
  · intro hcondition
    rcases (hbefore r.decision).1 le_rfl with hcarried | hrounded
    · exact (hafter r.decision).2 (.inl (hextends.carried hcarried))
    · exact (hafter r.decision).2 (hcondition _ hrounded)

/-! ### A decision that an alias lowers

The romanized name shares thirteen of its fourteen tokens with a listed name of seventeen. That
scores 0.81987, and as the entry's first score it is rounded to 0.82. With an alias that the full
name is like, at 0.75, the first score is another. -/

/-- The Unicode data of the letters and digits of ASCII. -/
def asciiUnicode : Unicode where
  toLowerCase s := s.map lowerLetter
  toUpperCase s := s.map fun u ↦ if 0x61 ≤ u ∧ u ≤ 0x7A then u - 0x20 else u
  nfd s := s
  nfc s := s
  isLetterOrNumber point := point.all fun u ↦ isLetter u || isDigit u

def listedName : Str :=
  ascii ['A', ' ', 'B', ' ', 'C', ' ', 'D', ' ', 'E', ' ', 'F', ' ', 'G', ' ', 'H', ' ', 'I', ' ',
    'J', ' ', 'K', ' ', 'L', ' ', 'M', ' ', 'O', ' ', 'P', ' ', 'Q', ' ', 'R']

def listedEntry : SanctionEntry :=
  ⟨.ofacSdn, ascii ['1'], listedName, [listedName], [], [], []⟩

def applicant : ScreeningSubject where
  fullName := ascii ['O', 'l', 'g', 'a']
  romanizedName := some (ascii ['A', ' ', 'B', ' ', 'C', ' ', 'D', ' ', 'E', ' ', 'F', ' ', 'G',
    ' ', 'H', ' ', 'I', ' ', 'J', ' ', 'K', ' ', 'L', ' ', 'M', ' ', 'N'])
  dateOfBirth := ascii ['1', '9', '9', '0', '-', '0', '1', '-', '0', '2']
  nationality := ascii ['K', 'R']
  residence := ascii ['K', 'R']
  walletAddress := []

/-- The entry with an alias. -/
def aliasedEntry : SanctionEntry :=
  { listedEntry with names := [listedName, ascii ['O', 'l', 'h', 'a']] }

/-- Screen the applicant against one entry: whether a name is indexed, and the decision. -/
def screenedBy (e : SanctionEntry) : Except AmlError (Bool × Decision) := do
  let c ← asciiUnicode.buildCorpus [e] defaultMatchLimits
  let r ← asciiUnicode.screen c (fun _ ↦ none) applicant
  return (decide (c.names ≠ []), r.decision)

theorem screenedBy_eq_ok {e : SanctionEntry} {decision : Decision}
    (h : screenedBy e = .ok (true, decision)) : ∃ c r,
    asciiUnicode.buildCorpus [e] defaultMatchLimits = .ok c ∧ c.names ≠ [] ∧
      asciiUnicode.screen c (fun _ ↦ none) applicant = .ok r ∧ r.decision = decision := by
  obtain ⟨c, hc, h⟩ := Evm.bind_eq_ok.1 h
  obtain ⟨r, hr, h⟩ := Evm.bind_eq_ok.1 h
  obtain ⟨hnames, hdecision⟩ := Prod.mk.inj (Except.ok.inj h)
  exact ⟨c, r, hc, of_decide_eq_true hnames, hr, hdecision⟩

theorem screenedBy_listedEntry : screenedBy listedEntry = .ok (true, .review) := by
  decide +kernel

theorem adds_aliasedEntry : Adds [listedEntry] applicant [aliasedEntry] applicant :=
  .aliasName [] [] listedEntry [listedName] [] (ascii ['O', 'l', 'h', 'a']) applicant rfl

theorem screenedBy_aliasedEntry : screenedBy aliasedEntry = .ok (true, .allow) := by
  decide +kernel

theorem screen_monotone_iff_aliasedEntry : ∃ r r' : ScreeningResult,
    r.decision = .review ∧ r'.decision = .allow ∧
    (r.decision.severity ≤ r'.decision.severity ↔
      ∀ level, asciiUnicode.RoundedUp [listedEntry] applicant level →
        asciiUnicode.Carried [aliasedEntry] applicant level ∨
          asciiUnicode.RoundedUp [aliasedEntry] applicant level) := by
  obtain ⟨c, r, hc, hnames, hr, hreview⟩ := screenedBy_eq_ok screenedBy_listedEntry
  obtain ⟨c', r', hc', -, hr', hallow⟩ := screenedBy_eq_ok screenedBy_aliasedEntry
  exact ⟨r, r', hreview, hallow,
    screen_monotone_iff adds_aliasedEntry hc hc' (by decide) (by decide) hnames hr hr'⟩

/-- **An alias lowers a decision** from a review to none. -/
theorem screen_softened : ∃ entries entries' subject subject' c c' r r',
    Adds entries subject entries' subject' ∧
    asciiUnicode.buildCorpus entries defaultMatchLimits = .ok c ∧
    asciiUnicode.buildCorpus entries' defaultMatchLimits = .ok c' ∧
    (entries.map SanctionEntry.key).Nodup ∧ (entries'.map SanctionEntry.key).Nodup ∧
    c.names ≠ [] ∧ asciiUnicode.screen c (fun _ ↦ none) subject = .ok r ∧
    asciiUnicode.screen c' (fun _ ↦ none) subject' = .ok r' ∧
    ¬r.decision.severity ≤ r'.decision.severity := by
  obtain ⟨c, r, hc, hnames, hr, hreview⟩ := screenedBy_eq_ok screenedBy_listedEntry
  obtain ⟨c', r', hc', -, hr', hallow⟩ := screenedBy_eq_ok screenedBy_aliasedEntry
  refine ⟨_, _, _, _, c, c', r, r', adds_aliasedEntry, hc, hc', by decide, by decide, hnames, hr,
    hr', ?_⟩
  rw [hreview, hallow]
  decide

end Proofmark.Aml
