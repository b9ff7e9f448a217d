import Caveat.Hooks.TaskEnvironment

/-!
# Tokens of a prompt

A prompt is searched for by its words, and by three characters at a time where it is written without
spaces. All tokens of one word form a group.
-/

namespace Caveat.Hooks

open Js
open Publish (isSpaceUnit)
open Lib (Re Place)

/-- The tables of the JavaScript engine. -/
structure Unicode where
  /-- `\p{L}` or `\p{N}`. -/
  letterOrNumber : Char → Bool
  /-- `String.prototype.toLowerCase`. -/
  lower : Units → Units

variable (uni : Unicode)

/-- Only characters are letters or numbers, lone surrogates are not. -/
def Unicode.isWord : CodePoint → Bool
  | .char c => uni.letterOrNumber c
  | .lone _ => false

def isSpacePoint : CodePoint → Bool
  | .char c => isSpace c
  | .lone _ => false

def promptTokenMinLength : Nat := 3
def promptMaxCandidateTokens : Nat := 50

def inUnits (low high : UInt16) (u : UInt16) : Bool := low ≤ u && u ≤ high

/-- `CJK_CHAR`. -/
def isCjkUnit (u : UInt16) : Bool :=
  inUnits 0x3040 0x309f u || inUnits 0x30a0 0x30ff u || inUnits 0x4e00 0x9fff u ||
    inUnits 0xff66 0xff9f u

def isCjkDominated (token : Units) : Bool := token.any isCjkUnit

/-- `HIRAGANA_ONLY`. -/
def isPureHiragana (token : Units) : Bool := token ≠ [] && token.all (inUnits 0x3040 0x309f)

/-! ## Paths -/

/-- `String.prototype.replace` with a global expression. The replacement is told by the match. -/
def replaceFrom (re : Re UInt16) (replacement : Units → Units) : Nat → Place UInt16 → Units
  | 0, x => x.rest
  | fuel + 1, x =>
      match (re.run x).head? with
      | some y =>
          let n := x.rest.length - y.rest.length
          if n = 0 then
            replacement [] ++
              match x.rest with
              | [] => []
              | c :: rest => c :: replaceFrom re replacement fuel ⟨some c, rest⟩
          else replacement (x.rest.take n) ++ replaceFrom re replacement fuel y
      | none =>
          match x.rest with
          | [] => []
          | c :: rest => c :: replaceFrom re replacement fuel ⟨some c, rest⟩

def replaceRe (re : Re UInt16) (replacement : Units → Units) (s : Units) : Units :=
  replaceFrom re replacement (s.length + 1) ⟨none, s⟩

def isSolidUnit (u : UInt16) : Bool := !isSpaceUnit u

/-- `[\s=>"'(]`. -/
def isPathLead (u : UInt16) : Bool := isSpaceUnit u || Publish.oneOf "=>\"'(" u

/-- `(^|[\s=>"'(])`. -/
def pathLeadRe : Re UInt16 := .alt (.notBehind fun _ => true) (.one isPathLead)

/-- `$1 `: the group is the first character of the match, or empty at the start. -/
def keepLead (raw : Units) : Units := (raw.take 1).filter isPathLead ++ [unitOf ' ']

/-- `/\\\\[^\s]+/g`. -/
def uncPathRe : Re UInt16 :=
  .seq (Publish.literal ['\\', '\\']) (.rep (.one isSolidUnit) 1 none)

/-- `/(^|[\s=>"'(])[A-Za-z]:[\\/][^\s]*/g`. -/
def drivePathRe : Re UInt16 :=
  .seq pathLeadRe (.seq (.one isAsciiLetter) (.seq (.one (· = unitOf ':'))
    (.seq (.one (Publish.oneOf "\\/")) (.rep (.one isSolidUnit) 0 none))))

def isPathPartUnit (u : UInt16) : Bool := isSolidUnit u && u ≠ unitOf '/'

/-- `/(^|[\s=>"'(])\/(?:[^\s/]+\/)+[^\s/]*/g`. -/
def posixPathRe : Re UInt16 :=
  .seq pathLeadRe (.seq (.one (· = unitOf '/'))
    (.seq (.rep (.seq (.rep (.one isPathPartUnit) 1 none) (.one (· = unitOf '/'))) 1 none)
      (.rep (.one isPathPartUnit) 0 none)))

def stripFsPaths (s : Units) : Units :=
  replaceRe posixPathRe keepLead
    (replaceRe drivePathRe keepLead (replaceRe uncPathRe (fun _ => [unitOf ' ']) s))

/-! ## Candidates -/

structure PromptCandidate where
  token : Units
  /-- Which word of the prompt it comes from. -/
  group : Nat
deriving DecidableEq

/-- `token.slice(i, i + 3)` for every `i`. -/
def trigrams (token : Units) : List Units :=
  (List.range (token.length + 1 - promptTokenMinLength)).map fun i =>
    (token.drop i).take promptTokenMinLength

def expandToken (token : Units) (group : Nat) : List PromptCandidate :=
  if isCjkDominated token then
    if token.length < promptTokenMinLength then []
    else ((trigrams token).filter (fun tri => !isPureHiragana tri)).map (⟨·, group⟩)
  else if promptTokenMinLength ≤ token.length then [⟨token, group⟩]
  else []

/-- The first candidate with each token. Their case does not matter. -/
def firstByToken (seen : List Units) : List PromptCandidate → List PromptCandidate
  | [] => []
  | c :: cs =>
      if seen.contains (uni.lower c.token) then firstByToken seen cs
      else c :: firstByToken (uni.lower c.token :: seen) cs

/-- `.replace(/[^\p{L}\p{N}\s]/gu, ' ')`. -/
def blankOthers (s : Units) : Units :=
  (codePoints s).flatMap fun p =>
    if uni.isWord p || isSpacePoint p then p.units else [unitOf ' ']

def rawTokens (prompt : Units) : List Units :=
  ((blankOthers uni (stripFsPaths prompt)).splitOnP isSpaceUnit).filter (· ≠ [])

def buildPromptCandidates (prompt : Units) : List PromptCandidate :=
  (firstByToken uni [] ((rawTokens uni prompt).zipIdx.flatMap fun t => expandToken t.1 t.2)).take
    promptMaxCandidateTokens

/-! ## Tokens in a text -/

/-- A match of `(?:^|[^\p{L}\p{N}])token(?:[^\p{L}\p{N}]|$)`. -/
def standsIn (token : List CodePoint) : Option CodePoint → List CodePoint → Bool
  | before, [] => token = [] && !before.any uni.isWord
  | before, p :: text =>
      (token.isPrefixOf (p :: text) && !before.any uni.isWord &&
        !(((p :: text).drop token.length).head?.any uni.isWord)) || standsIn token (some p) text

/-- `String.prototype.includes`. -/
def includes (part : Units) : Units → Bool
  | [] => part = []
  | u :: s => part.isPrefixOf (u :: s) || includes part s

def tokenAppearsIn (token text : Units) : Bool :=
  if text = [] then false
  else if token.any isCjkUnit then includes token text
  else standsIn uni (codePoints token) none (codePoints text)

end Caveat.Hooks
