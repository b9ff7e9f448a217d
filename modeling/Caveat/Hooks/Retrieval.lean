import Mathlib.Data.List.Dedup
import Caveat.Hooks.PromptTokens

/-!
# The search of a hook in the index

For each token the full-text index is asked for its entries. An entry is shown if enough words of the
prompt meet in it, if one of them is in its symptom, and if one of the rarest is in its topic.
-/

namespace Caveat.Hooks

open Js
open Publish (isSpaceUnit)

/-- `EntryRow`, with the value that `frontmatter_json` is the text of. -/
structure EntryRow where
  rowid : Nat
  id : Units
  source : Units
  title : Units
  body : Units
  frontmatter : Json
  confidence : Units
  visibility : Option Units
  topicalText : Option Units
  symptomText : Option Units

/-- The table of entries and its full-text index, which may reject a query. -/
structure Index where
  entries : List EntryRow
  search : Units → Option (List EntryRow)
  rowids : (entries.map (·.rowid)).Nodup
  found : ∀ query rows, search query = some rows → rows.Nodup ∧ ∀ r ∈ rows, r ∈ entries

variable (uni : Unicode)

def symptomExcerptLength : Nat := 200
def minDistinctTokenMatchesCeiling : Nat := 2
def defaultReminderHitLimit : Nat := 5

/-! ## Results -/

/-- What follows `##\s+Symptom\s*\n` where it matches: behind the last line end of the white space. -/
def symptomStart (s : Units) : Option Units := do
  let rest ← after (units "##") s
  let (_, rest) ← takeSome isSpaceUnit rest
  let rest ← after (units "Symptom") rest
  let blank := rest.takeWhile isSpaceUnit
  if blank.contains (unitOf '\n') then
    some ((blank.reverse.takeWhile (· ≠ unitOf '\n')).reverse ++ rest.dropWhile isSpaceUnit)
  else none

/-- `([\s\S]*?)(?=\n##|\n*$)`: as little as can be. -/
def symptomEnd : Units → Units
  | [] => []
  | u :: s =>
      if (units "\n##").isPrefixOf (u :: s) || (u :: s).all (· = unitOf '\n') then []
      else u :: symptomEnd s

/-- The first place where the symptom begins. -/
def symptomSection : Units → Option Units
  | [] => none
  | u :: s => (symptomStart (u :: s)).map symptomEnd <|> symptomSection s

/-- `fm.environment ?? {}`. -/
def environmentOf (frontmatter : Json) : Json :=
  match frontmatter.member? "environment".toList with
  | some .null => .object []
  | some environment => environment
  | none => .object []

def toSearchResult (row : EntryRow) : SearchResult :=
  { id := row.id
    source := row.source
    title := row.title
    symptomExcerpt :=
      (((symptomSection row.body).map trimUnits).getD row.body).take symptomExcerptLength
    confidence := row.confidence
    visibility := row.visibility.getD (units "private")
    environment := environmentOf row.frontmatter }

/-! ## Gathering the matches -/

/-- `PerEntry`. -/
structure PerEntry where
  groups : List Nat
  symptomTokens : List Units
  topicalTokens : List Units
  symptomLower : Option Units
  topicalLower : Option Units
  row : EntryRow

/-- `set.add(value)`. -/
def addTo {α : Type} [DecidableEq α] (value : α) (set : List α) : List α :=
  if value ∈ set then set else set ++ [value]

/-- The lower case of a text that is there and not empty. -/
def lowerText (text : Option Units) : Option Units :=
  (text.filter (· ≠ [])).map uni.lower

/-- The tokens that count for the symptom: all, or those of the failure. -/
def isEvidence (symptomEvidenceTokens : Option (List Units)) (token : Units) : Bool :=
  symptomEvidenceTokens.all (·.contains token)

def PerEntry.fresh (row : EntryRow) : PerEntry :=
  ⟨[], [], [], lowerText uni row.symptomText, lowerText uni row.topicalText, row⟩

/-- A token of a group is found in an entry. -/
def PerEntry.add (evidence : Option (List Units)) (token : Units) (group : Nat) (e : PerEntry) :
    PerEntry :=
  { e with
    groups := addTo group e.groups
    symptomTokens :=
      if isEvidence evidence token && e.symptomLower.any (tokenAppearsIn uni token) then
        addTo token e.symptomTokens
      else e.symptomTokens
    topicalTokens :=
      if e.topicalLower.any (tokenAppearsIn uni token) then addTo token e.topicalTokens
      else e.topicalTokens }

/-- One row that a token has found: its entry is changed, or put at the end. -/
def addRow (evidence : Option (List Units)) (token : Units) (group : Nat) (row : EntryRow) :
    List PerEntry → List PerEntry
  | [] => [(PerEntry.fresh uni row).add uni evidence token group]
  | e :: es =>
      if e.row.rowid = row.rowid then e.add uni evidence token group :: es
      else e :: addRow evidence token group row es

/-- `perEntry` and `tokenDf`. -/
structure Gathered where
  perEntry : List PerEntry
  tokenDf : List (Units × Nat)

/-- The phrase that the index is asked for. -/
def phrase (token : Units) : Units := unitOf '"' :: token ++ [unitOf '"']

def gatherToken (ix : Index) (evidence : Option (List Units)) (s : Gathered) (c : PromptCandidate) :
    Gathered :=
  let token := uni.lower c.token
  if s.tokenDf.any (·.1 = token) then s
  else
    match ix.search (phrase c.token) with
    | none => { s with tokenDf := s.tokenDf ++ [(token, 0)] }
    | some rows =>
        { tokenDf := s.tokenDf ++ [(token, rows.length)]
          perEntry := rows.foldl (fun es row => addRow uni evidence token c.group row es) s.perEntry }

/-- The least of some numbers, with which `Infinity` is lowered. -/
def minDf (dfs : List Nat) : Option Nat :=
  dfs.foldl (fun m df => if m.all (df < ·) then some df else m) none

def validDfs (tokenDf : List (Units × Nat)) : List (Units × Nat) := tokenDf.filter (0 < ·.2)

def rareTokens (tokenDf : List (Units × Nat)) : List Units :=
  ((validDfs tokenDf).filter (fun t => minDf ((validDfs tokenDf).map Prod.snd) = some t.2)).map
    Prod.fst

/-- The three gates. -/
def passes (minMatches : Nat) (rare : List Units) (e : PerEntry) : Bool :=
  minMatches ≤ e.groups.length && e.symptomTokens ≠ [] && e.topicalTokens.any rare.contains

/-! ## The search -/

/-- The candidates that are no tokens of one's own identity. -/
def searchTokens (prompt : Units) (selfIdentity : List Units) : List PromptCandidate :=
  if selfIdentity ≠ [] then
    (buildPromptCandidates uni prompt).filter (fun c => !selfIdentity.contains (uni.lower c.token))
  else buildPromptCandidates uni prompt

/-- `new Set(filtered.map((c) => c.group)).size`, at most two. -/
def minMatches (filtered : List PromptCandidate) : Nat :=
  min minDistinctTokenMatchesCeiling (filtered.map (·.group)).dedup.length

def findCaveatsForText (ix : Index) (prompt : Units) (limit : Option Nat) (selfIdentity : List Units)
    (symptomEvidenceTokens : Option (List Units)) : List SearchResult :=
  if prompt = [] then []
  else
    let filtered := searchTokens uni prompt selfIdentity
    if filtered = [] then []
    else
      let s := filtered.foldl (gatherToken uni ix symptomEvidenceTokens) ⟨[], []⟩
      if validDfs s.tokenDf = [] then []
      else
        (((s.perEntry.filter (passes (minMatches filtered) (rareTokens s.tokenDf))).mergeSort
          (fun a b => b.groups.length ≤ a.groups.length)).take
            (limit.getD defaultReminderHitLimit)).map (fun e => toSearchResult e.row)

/-- `a || b`. -/
def orText (a b : Units) : Units := if a = [] then b else a

/-- `[topicText, failureText].filter(Boolean).join('\n')`. -/
def bothTexts (input : HookSearchInput) : Units :=
  joinUnits ([input.topicText, input.failureText].filter (· ≠ []))

def findCaveatsForHook (ix : Index) (input : HookSearchInput) (limit : Option Nat)
    (selfIdentity : List Units) : List SearchResult :=
  match input.surface with
  | .userPrompt =>
      findCaveatsForText uni ix (orText input.topicText input.failureText) limit selfIdentity none
  | .stop => findCaveatsForText uni ix input.failureText limit selfIdentity none
  | .toolError =>
      findCaveatsForText uni ix (bothTexts input) limit selfIdentity
        (some ((buildPromptCandidates uni input.failureText).map (fun c => uni.lower c.token)))

end Caveat.Hooks
