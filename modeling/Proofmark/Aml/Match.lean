import Proofmark.Aml.EditDistance
import Proofmark.Collection.Multimap
import Proofmark.Evm.Execution

/-!
# The blocking index and its candidates

`match.ts`, up to the candidates. `buildCorpus` indexes every name by its tokens, and the tokens by
their deletion keys and boundary bigrams. `candidatesFor` collects the tokens that the index relates
to those of a query, scores the names that have one, and keeps the best name of each entry. Every
list is bounded by a limit, past which an error is thrown.
-/

open Edit (osa)
open Table (Multimap)

namespace Proofmark.Aml

inductive ListId
  | ofacSdn | unConsolidated | euFsf
  deriving DecidableEq, Inhabited

/-- A listed entry, with the fields that screening reads. -/
structure SanctionEntry where
  listId : ListId
  entryId : Str
  primaryName : Str
  names : List Str
  dobs : List Str
  countries : List Str
  cryptoAddresses : List Str
  deriving DecidableEq, Inhabited

inductive AmlError
  | capacity (boundary : String)
  | invalidLimit
  deriving DecidableEq

structure MatchLimits where
  maxIndexNames : ℕ
  maxIndexTokenPostings : ℕ
  maxIndexGramPostings : ℕ
  maxQueryTokens : ℕ
  maxQueryTokenPostings : ℕ
  maxVocabularyCandidates : ℕ
  maxCandidateNames : ℕ
  deriving DecidableEq

/-- `DEFAULT_MATCH_LIMITS` -/
def defaultMatchLimits : MatchLimits :=
  ⟨250000, 1500000, 3000000, 64, 300000, 100000, 100000⟩

/-- Every limit is positive. -/
def limitsOf (limits : MatchLimits) : Except AmlError MatchLimits :=
  if 0 < limits.maxIndexNames ∧ 0 < limits.maxIndexTokenPostings ∧ 0 < limits.maxIndexGramPostings ∧
      0 < limits.maxQueryTokens ∧ 0 < limits.maxQueryTokenPostings ∧
      0 < limits.maxVocabularyCandidates ∧ 0 < limits.maxCandidateNames then
    .ok limits
  else .error .invalidLimit

structure IndexedName where
  entryIdx : ℕ
  norm : Str
  tokens : List Str
  isAlias : Bool
  deriving DecidableEq

structure Corpus where
  entries : List SanctionEntry
  names : List IndexedName
  byToken : Multimap Str ℕ
  byDeletion : Multimap Str Str
  byGram : Multimap Str Str
  limits : MatchLimits
  byWallet : Table (Prod.fst : Str × ℕ → Str)

def isHexDigit (u : ℕ) : Bool :=
  (0x30 ≤ u && u ≤ 0x39) || (0x41 ≤ u && u ≤ 0x46) || (0x61 ≤ u && u ≤ 0x66)

/-- `/^0x[0-9a-fA-F]{40}$/` -/
def isAddress (s : Str) : Bool :=
  s.take 2 = [0x30, 0x78] && s.length = 42 && (s.drop 2).all isHexDigit

/-! ### `buildCorpus` -/

/-- The index while the names are entered. -/
structure Building where
  names : List IndexedName
  byToken : Multimap Str ℕ
  tokenPostings : ℕ
  byWallet : Table (Prod.fst : Str × ℕ → Str)

def Building.empty : Building :=
  ⟨[], Table.empty, 0, Table.empty⟩

def postToken (limits : MatchLimits) (idx : ℕ) (b : Building) (t : Str) :
    Except AmlError Building :=
  if limits.maxIndexTokenPostings < b.tokenPostings + 1 then
    .error (.capacity "index token postings")
  else
    .ok { b with byToken := b.byToken.push t idx, tokenPostings := b.tokenPostings + 1 }

namespace Unicode

variable (U : Unicode)

/-- The index's form of the `ni`th name of an entry; a name without tokens has none. -/
def indexedName (ei : ℕ) (raw : Str) (ni : ℕ) : Option IndexedName :=
  let norm := U.normalizeName raw
  if norm = [] then none
  else
    let toks := contentTokens (tokenize norm)
    if toks = [] then none else some ⟨ei, norm, toks, 0 < ni⟩

def indexName (limits : MatchLimits) (ei : ℕ) (b : Building) (name : Str × ℕ) :
    Except AmlError Building :=
  match U.indexedName ei name.1 name.2 with
  | none => .ok b
  | some n =>
    if limits.maxIndexNames < b.names.length + 1 then .error (.capacity "index names")
    else
      n.tokens.eraseDups.foldlM (postToken limits b.names.length)
        { b with names := b.names ++ [n] }

def indexEntry (limits : MatchLimits) (b : Building) (entry : SanctionEntry × ℕ) :
    Except AmlError Building :=
  let wallets := (entry.1.cryptoAddresses.filter isAddress).foldl
    (fun t address ↦ t.set (U.toLowerCase address, entry.2)) b.byWallet
  entry.1.names.zipIdx.foldlM (U.indexName limits entry.2) { b with byWallet := wallets }

def indexGram (limits : MatchLimits) (s : Multimap Str Str × ℕ) (posting : Str × Str) :
    Except AmlError (Multimap Str Str × ℕ) :=
  if limits.maxIndexGramPostings < s.2 + 1 then .error (.capacity "index gram postings")
  else .ok (s.1.push posting.1 posting.2, s.2 + 1)

/-- The signatures of the indexed tokens, each with its token. -/
def signatures (signature : Str → List Str) (tokens : List Str) : List (Str × Str) :=
  tokens.flatMap fun token ↦ (signature token).map fun key ↦ (key, token)

def buildCorpus (entries : List SanctionEntry) (limitOverrides : MatchLimits) :
    Except AmlError Corpus := do
  let limits ← limitsOf limitOverrides
  let b ← entries.zipIdx.foldlM (U.indexEntry limits) Building.empty
  let byDeletion := (signatures U.deletionKeys b.byToken.keys).foldl
    (fun (m : Multimap Str Str) posting ↦ m.push posting.1 posting.2) Table.empty
  let (byGram, _) ←
    (signatures U.editGrams b.byToken.keys).foldlM (indexGram limits) (Table.empty, 0)
  return ⟨entries, b.names, b.byToken, byDeletion, byGram, limits, b.byWallet⟩

end Unicode

/-! ### Scores -/

/-- Jaccard plus a containment bonus. Word order does not matter. -/
def nameScore (a b : List Str) : ℚ :=
  let A := a.eraseDups
  let B := b.eraseDups
  let inter := (A.filter fun t ↦ t ∈ B).length
  if inter = 0 then 0
  else
    let jac := Numeric.div inter (A.length + B.length - inter : ℕ)
    let small := min A.length B.length
    if small < 3 then jac
    else
      let contain := Numeric.mul (Numeric.div inter small) (Numeric.nearest (95 / 100))
      let ratio := Numeric.div small (max A.length B.length : ℕ)
      max jac (Numeric.mul contain (Numeric.add (Numeric.nearest (6 / 10))
        (Numeric.mul (Numeric.nearest (4 / 10)) ratio)))

inductive MatchType
  | exact | fuzzy | alias | romanized | wallet
  deriving DecidableEq, Inhabited

structure Candidate where
  entry : SanctionEntry
  matchedName : Str
  score : ℚ
  matchType : MatchType
  deriving DecidableEq, Inhabited

/-- The score of a name against the tokens of a query. -/
def Unicode.matchScore (U : Unicode) (matchType : MatchType) (tokens name : List Str) : ℚ :=
  max (max (nameScore tokens name)
    (if matchType = .romanized then 0 else U.editNameScore tokens name))
    (if matchType = .romanized then 0 else U.missingTokenNameScore tokens name)

/-! ### `candidatesFor` -/

/-- Add to a set in insertion order. -/
def insertNew {α : Type} [DecidableEq α] (l : List α) (x : α) : List α :=
  if x ∈ l then l else l ++ [x]

namespace Unicode

variable (U : Unicode)

/-- `postingVisits` and `matchingTokens`, after a token of the same deletion key is visited. -/
def visitNear (limits : MatchLimits) (token : Str) (s : ℕ × List Str) (near : Str) :
    Except AmlError (ℕ × List Str) :=
  if limits.maxQueryTokenPostings < s.1 + 1 then .error (.capacity "query token postings")
  else .ok (s.1 + 1, if U.withinOneEdit token near then insertNew s.2 near else s.2)

/-- `postingVisits` and `vocabulary`, after a token of the same bigram is visited. -/
def visitGram (limits : MatchLimits) (s : ℕ × List Str) (near : Str) :
    Except AmlError (ℕ × List Str) :=
  if limits.maxQueryTokenPostings < s.1 + 1 then .error (.capacity "query token postings")
  else if limits.maxVocabularyCandidates < (insertNew s.2 near).length then
    .error (.capacity "query vocabulary candidates")
  else .ok (s.1 + 1, insertNew s.2 near)

/-- The tokens of the index within the supported edits of a query token. -/
def expandToken (corpus : Corpus) (s : ℕ × List Str) (token : Str) :
    Except AmlError (ℕ × List Str) := do
  let (visits, matching) ← ((U.deletionKeys token).flatMap corpus.byDeletion.values).foldlM
    (U.visitNear corpus.limits token) s
  let (visits, vocabulary) ← ((U.editGrams token).flatMap corpus.byGram.values).foldlM
    (visitGram corpus.limits) (visits, [])
  return (visits, (vocabulary.filter fun near ↦ U.withinSupportedEdits token near).foldl insertNew
    matching)

end Unicode

def addCandidate (limits : MatchLimits) (names : List ℕ) (ni : ℕ) : Except AmlError (List ℕ) :=
  if limits.maxCandidateNames < (insertNew names ni).length then
    .error (.capacity "query candidate names")
  else .ok (insertNew names ni)

/-- `postingVisits` and `candidateNames`, after the names of a token are added. -/
def addPostings (corpus : Corpus) (s : ℕ × List ℕ) (t : Str) : Except AmlError (ℕ × List ℕ) :=
  let l := corpus.byToken.values t
  if l = [] then .ok s
  else if corpus.limits.maxQueryTokenPostings < s.1 + l.length then
    .error (.capacity "query token postings")
  else do
    let names ← l.foldlM (addCandidate corpus.limits) s.2
    return (s.1 + l.length, names)

/-- The best candidate of each entry so far, by the entry's index. -/
abbrev Best := Table (Prod.fst : ℕ × Candidate → ℕ)

namespace Unicode

variable (U : Unicode)

/-- Score a name. -/
def improve (corpus : Corpus) (tokens : List Str) (matchType : MatchType) (minScore : ℚ)
    (best : Best) (ni : ℕ) : Best :=
  match corpus.names[ni]? with
  | none => best
  | some n =>
    let s := U.matchScore matchType tokens n.tokens
    if s < minScore then best
    else
      let candidate : Candidate :=
        { entry := corpus.entries.getD n.entryIdx default
          matchedName := n.norm
          score := s
          matchType := if n.isAlias && matchType = .fuzzy then .alias else matchType }
      match best.get n.entryIdx with
      | none => best.set (n.entryIdx, candidate)
      | some (_, prev) => if prev.score < s then best.set (n.entryIdx, candidate) else best

/-- `postingVisits` and `matchingTokens`: inferred romanizations keep to exact tokens. -/
def matchingTokens (corpus : Corpus) (tokens : List Str) (matchType : MatchType) :
    Except AmlError (ℕ × List Str) :=
  if matchType = .romanized then .ok (0, tokens.eraseDups)
  else tokens.eraseDups.foldlM (U.expandToken corpus) (0, tokens.eraseDups)

def candidatesFor (corpus : Corpus) (tokens : List Str) (matchType : MatchType) (minScore : ℚ) :
    Except AmlError (List Candidate) := do
  if corpus.limits.maxQueryTokens < tokens.length then throw (.capacity "query tokens") else
  let (visits, matching) ← U.matchingTokens corpus tokens matchType
  let (_, names) ← matching.foldlM (addPostings corpus) (visits, [])
  let best := names.foldl (U.improve corpus tokens matchType minScore) Table.empty
  return (best.rows.map Prod.snd).mergeSort fun x y ↦ y.score ≤ x.score

end Unicode

end Proofmark.Aml
