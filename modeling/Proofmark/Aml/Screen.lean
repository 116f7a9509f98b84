import Proofmark.Aml.Identity
import Proofmark.Aml.Match
import Proofmark.Aml.Romanize

/-!
# Screening and its decision

`screenNames` of `match.ts` and `screen` of `engine.ts`. The candidates of the names as written and
of the inferred romanizations are merged to one hit for each entry. The first of them gives the hit
its score rounded to three digits, and a later one that scores higher replaces score and type. A
listed wallet address is a hit of its own. The decision is the strictest that a hit or the subject's
data ask for.

The evidence that is kept of a screening is left out, and so are the checks of the lists' age.
-/

namespace Proofmark.Aml

inductive Corroboration
  | dob | nationality | wallet
  deriving DecidableEq

structure ScreeningHit where
  listId : ListId
  listVersion : ℕ
  entryId : Str
  matchedName : Str
  score : ℚ
  matchType : MatchType
  corroborated : Bool
  /-- empty where the source leaves it out -/
  corroboration : List Corroboration
  identityComparison : Option IdentityComparison
  directNameScore : Option ℚ
  inferredNameScore : Option ℚ
  deriving DecidableEq

structure MatchInput where
  fullName : Str
  romanizedName : Option Str
  dob : Option Str
  nationality : Str
  walletAddress : Str
  deriving DecidableEq

/-- The least score of a name as written, and of an inferred romanization. -/
def minGivenScore : ℚ :=
  Numeric.nearest (72 / 100)

def minRomanizedScore : ℚ :=
  Numeric.nearest (85 / 100)

def exactScore : ℚ :=
  Numeric.nearest (999 / 1000)

def ListId.name : ListId → Str
  | ofacSdn => ascii ['O', 'F', 'A', 'C', '_', 'S', 'D', 'N']
  | unConsolidated =>
    ascii ['U', 'N', '_', 'C', 'O', 'N', 'S', 'O', 'L', 'I', 'D', 'A', 'T', 'E', 'D']
  | euFsf => ascii ['E', 'U', '_', 'F', 'S', 'F']

/-- `listId:entryId` -/
def SanctionEntry.key (e : SanctionEntry) : Str :=
  e.listId.name ++ [0x3A] ++ e.entryId

/-! ### `push` -/

/-- The hits so far, by their keys, in the order they were added. -/
abbrev Hits := Table (Prod.fst : Str × ScreeningHit → Str)

namespace MatchInput

variable (input : MatchInput)

def compare (e : SanctionEntry) : IdentityComparison :=
  compareIdentity input.dob input.nationality e.dobs e.countries

/-- What of the identity supports a hit. -/
def corro (e : SanctionEntry) : List Corroboration :=
  (if (input.compare e).dob = .match_ ∨ (input.compare e).dob = .yearMatch then [.dob] else []) ++
    if (input.compare e).nationality = .match_ then [.nationality] else []

def corroborated (e : SanctionEntry) : Bool :=
  input.corro e ≠ [] && !identityConflicts (input.compare e) &&
    !identityUnusable (input.compare e)

/-- The hit of an entry's first candidate. -/
def newHit (c : Candidate) (type : MatchType) : ScreeningHit where
  listId := c.entry.listId
  listVersion := 0
  entryId := c.entry.entryId
  matchedName := c.matchedName
  score := Numeric.toFixed 3 c.score
  matchType := type
  corroborated := input.corroborated c.entry
  corroboration := input.corro c.entry
  identityComparison := some (input.compare c.entry)
  directNameScore := if type = .romanized then none else some c.score
  inferredNameScore := if type = .romanized then some c.score else none

end MatchInput

/-- A score of the hit's kind is kept if it is the highest. -/
def highest (prev : Option ℚ) (score : ℚ) : Option ℚ :=
  some (max (prev.getD 0) score)

/-- A later candidate of an entry. -/
def ScreeningHit.merge (prev : ScreeningHit) (c : Candidate) (type : MatchType) : ScreeningHit :=
  let prev :=
    if type = .romanized then
      { prev with inferredNameScore := highest prev.inferredNameScore c.score }
    else { prev with directNameScore := highest prev.directNameScore c.score }
  if prev.score < c.score then
    { prev with score := c.score, matchType := type, matchedName := c.matchedName }
  else prev

/-- Weaker name evidence does not rewrite wallet support. -/
def MatchInput.push (input : MatchInput) (hits : Hits) (c : Candidate) (type : MatchType) : Hits :=
  match hits.get c.entry.key with
  | none => hits.set (c.entry.key, input.newHit c type)
  | some (_, prev) =>
    if prev.matchType = .wallet then hits else hits.set (c.entry.key, prev.merge c type)

/-! ### `screenNames` -/

def isLowerHexDigit (u : ℕ) : Bool :=
  isHexDigit u && !isUpper u

/-- `/^0x[0-9a-f]{40}$/` -/
def isLowerAddress (s : Str) : Bool :=
  s.take 2 = [0x30, 0x78] && s.length = 42 && (s.drop 2).all isLowerHexDigit

/-- `wallet`, after a key -/
def walletKey (e : SanctionEntry) : Str :=
  e.key ++ ascii [':', 'w', 'a', 'l', 'l', 'e', 't']

def walletHit (e : SanctionEntry) : ScreeningHit where
  listId := e.listId
  listVersion := 0
  entryId := e.entryId
  matchedName := e.primaryName
  score := 1
  matchType := .wallet
  corroborated := true
  corroboration := [.wallet]
  identityComparison := none
  directNameScore := none
  inferredNameScore := none

/-- The names as written: the romanized one supplements the full name. -/
def MatchInput.supplied (input : MatchInput) : List Str :=
  ((input.fullName :: input.romanizedName.toList).filter fun name ↦ name ≠ []).eraseDups

/-- The romanizations that are inferred of a Hangul name. -/
def MatchInput.inferred (input : MatchInput) : List Str :=
  if hasHangul input.fullName then romanizeVariants input.fullName else []

/-- The type of the hit that a candidate of a query makes. -/
def hitType (queried : MatchType) (c : Candidate) : MatchType :=
  if queried = .romanized then .romanized
  else if exactScore ≤ c.score then .exact
  else c.matchType

namespace Unicode

variable (U : Unicode)

/-- The listed address of a subject's wallet. -/
def listedWallet (corpus : Corpus) (input : MatchInput) : Option SanctionEntry :=
  let w := U.toLowerCase input.walletAddress
  if isLowerAddress w then (corpus.byWallet.get w).map fun row ↦ corpus.entries.getD row.2 default
  else none

def walletHits (corpus : Corpus) (input : MatchInput) : Hits :=
  match U.listedWallet corpus input with
  | none => Table.empty
  | some e => Table.empty.set (walletKey e, walletHit e)

/-- Add the candidates of a name. -/
def screenName (corpus : Corpus) (input : MatchInput) (queried : MatchType) (minScore : ℚ)
    (hits : Hits) (name : Str) : Except AmlError Hits :=
  if U.nameTokens name = [] then .ok hits
  else do
    let candidates ← U.candidatesFor corpus (U.nameTokens name) queried minScore
    return candidates.foldl (fun hits c ↦ input.push hits c (hitType queried c)) hits

def screenNames (corpus : Corpus) (input : MatchInput) : Except AmlError (List ScreeningHit) := do
  let hits ← input.supplied.foldlM (U.screenName corpus input .fuzzy minGivenScore)
    (U.walletHits corpus input)
  let hits ← input.inferred.foldlM (U.screenName corpus input .romanized minRomanizedScore) hits
  return (hits.rows.map Prod.snd).mergeSort fun a b ↦ b.score ≤ a.score

end Unicode

/-! ### The decision -/

structure ScreeningSubject where
  fullName : Str
  romanizedName : Option Str
  dateOfBirth : Str
  nationality : Str
  residence : Str
  walletAddress : Str
  deriving DecidableEq

inductive Decision
  | allow | review | block
  deriving DecidableEq

inductive ReviewReason
  | nameSimilarity | identityConflict | dobMissing | highRiskJurisdiction | screeningUnavailable
  | screeningInputInvalid
  deriving DecidableEq

structure ScreeningResult where
  decision : Decision
  reviewReason : Option ReviewReason
  riskBand : ℕ
  hits : List ScreeningHit
  /-- the checks that ran: sanctions and jurisdiction -/
  methodsApplied : ℕ
  listVersions : ListId → Option ℕ

def blockScore : ℚ :=
  Numeric.nearest (88 / 100)

def reviewScore : ℚ :=
  Numeric.nearest (82 / 100)

namespace ScreeningHit

variable (h : ScreeningHit)

def blocks : Bool :=
  h.matchType = .wallet || (h.corroborated && blockScore ≤ h.score &&
    h.identityComparison.any fun comparison ↦ comparison.dob = .match_)

/-- An uncorroborated romanized hit does not move the decision. -/
def drivesDecision : Bool :=
  h.matchType ≠ .romanized || reviewScore ≤ h.directNameScore.getD 0 || h.corroborated ||
    h.corroboration ≠ []

def suspicious : Bool :=
  !h.blocks && reviewScore ≤ h.score && h.drivesDecision

def priority : ℕ :=
  if h.blocks then 2 else if h.suspicious then 1 else 0

end ScreeningHit

namespace Unicode

variable (U : Unicode)

def matchInput (subject : ScreeningSubject) : MatchInput where
  fullName := subject.fullName
  romanizedName := subject.romanizedName
  dob := normalizeDob subject.dateOfBirth
  nationality := U.normalizeCountry subject.nationality
  walletAddress := subject.walletAddress

def nameApplied (corpus : Corpus) (subject : ScreeningSubject) : Bool :=
  0 < corpus.names.length && U.nameTokens subject.fullName ≠ []

def jurisdictionApplied (subject : ScreeningSubject) : Bool :=
  isCountry (U.normalizeCountry subject.nationality) &&
    isCountry (U.normalizeCountry subject.residence)

/-- The higher level of the nationality and the residence. -/
def jurisdictionLevel (subject : ScreeningSubject) : ℕ :=
  max (U.jurisdictionRisk (U.normalizeCountry subject.nationality))
    (U.jurisdictionRisk (U.normalizeCountry subject.residence))

/-- The decision, the reason of a review and the risk band. -/
def decisionOf (corpus : Corpus) (subject : ScreeningSubject) (hits : List ScreeningHit) :
    Decision × Option ReviewReason × ℕ :=
  let suspicious := hits.filter ScreeningHit.suspicious
  if hits.any ScreeningHit.blocks then (.block, none, 5)
  else if suspicious ≠ [] then
    (.review, some (if suspicious.any fun h ↦ h.identityComparison.any identityConflicts then
      .identityConflict else .nameSimilarity), 4)
  else if corpus.names.length = 0 then (.review, some .screeningUnavailable, 4)
  else if !U.nameApplied corpus subject || !U.jurisdictionApplied subject then
    (.review, some .screeningInputInvalid, 4)
  else if U.jurisdictionLevel subject = 2 then (.review, some .highRiskJurisdiction, 4)
  else if normalizeDob subject.dateOfBirth = none then (.review, some .dobMissing, 3)
  else if U.jurisdictionLevel subject = 1 then (.allow, none, 3)
  else (.allow, none, if hits = [] then 1 else 2)

/-- `ListBackedAmlEngine.screen` -/
def screen (corpus : Corpus) (versions : ListId → Option ℕ) (subject : ScreeningSubject) :
    Except AmlError ScreeningResult := do
  let hits ← U.screenNames corpus (U.matchInput subject)
  let hits := hits.map fun h ↦ { h with listVersion := (versions h.listId).getD 0 }
  let (decision, reviewReason, riskBand) := U.decisionOf corpus subject hits
  return {
    decision := decision
    reviewReason := reviewReason
    riskBand := riskBand
    -- hits that drive the decision come first
    hits := hits.mergeSort fun a b ↦
      b.priority < a.priority || (b.priority = a.priority && b.score ≤ a.score)
    methodsApplied := (if U.nameApplied corpus subject then 1 <<< 16 else 0) |||
      (if U.jurisdictionApplied subject then 1 <<< 19 else 0)
    listVersions := versions }

end Unicode

end Proofmark.Aml
