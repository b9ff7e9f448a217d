import Caveat.Entry.Sections
import Caveat.Js.Utf
import Caveat.Lib.Regex
import Mathlib.Data.List.Sort

/-!
# The scan before publishing

Every line of every file is matched against the rules. What a rule finds is added once for each
path, line and text, and has a digest by which it can be approved. The hash and the arithmetic of
doubles are parameters.
-/

namespace Caveat.Publish

open Js Lib Entry

/-! ## Rules -/

inductive ScanRule where
  | awsKey | githubPat | slackToken | pemPrivateKey | highEntropy | selfIdentity | pathIdentity
  | privateIp | email
deriving DecidableEq

def ScanRule.text : ScanRule → Text
  | .awsKey => "aws-key".toList
  | .githubPat => "github-pat".toList
  | .slackToken => "slack-token".toList
  | .pemPrivateKey => "pem-private-key".toList
  | .highEntropy => "high-entropy".toList
  | .selfIdentity => "self-identity".toList
  | .pathIdentity => "path-identity".toList
  | .privateIp => "private-ip".toList
  | .email => "email".toList

inductive ScanSeverity where
  | block
  | warn
deriving DecidableEq

/-! ## Patterns -/

/-- `[lo-hi]`. -/
def between (lo hi : Char) (u : UInt16) : Bool := lo.toNat ≤ u.toNat && u.toNat ≤ hi.toNat

/-- One of some characters. -/
def oneOf (chars : String) (u : UInt16) : Bool := chars.toList.any (fun c => u = unitOf c)

def isDigitUnit : UInt16 → Bool := between '0' '9'
def isUpperUnit : UInt16 → Bool := between 'A' 'Z'
def isLowerUnit : UInt16 → Bool := between 'a' 'z'
def isAlnumUnit (u : UInt16) : Bool := isDigitUnit u || isUpperUnit u || isLowerUnit u
def isHexUnit (u : UInt16) : Bool := isDigitUnit u || between 'a' 'f' u || between 'A' 'F' u

/-- `\w`. -/
def isWordUnit (u : UInt16) : Bool := isAlnumUnit u || u = unitOf '_'

/-- `\s`. -/
def isSpaceUnit (u : UInt16) : Bool := isSpace (Char.ofNat u.toNat)

/-- Some characters in a row. -/
def literal : List Char → Re UInt16
  | [] => .rep (.one fun _ => false) 0 (some 0)
  | [c] => .one (fun u => u = unitOf c)
  | c :: cs => .seq (.one (fun u => u = unitOf c)) (literal cs)

/-- `p{least,}`. -/
def atLeast (least : Nat) (p : UInt16 → Bool) : Re UInt16 := .rep (.one p) least none

/-- `p{n}`. -/
def exactly (n : Nat) (p : UInt16 → Bool) : Re UInt16 := .rep (.one p) n (some n)

/-- `BLOCK_RULES`. -/
def blockRules : List (ScanRule × Re UInt16) :=
  [(.awsKey, .seq (literal "AKIA".toList) (exactly 16 (fun u => isDigitUnit u || isUpperUnit u))),
    (.githubPat, .seq (literal "gh".toList) (.seq (.one (oneOf "pousr"))
      (.seq (literal ['_']) (atLeast 36 isAlnumUnit)))),
    (.githubPat, .seq (literal "github_pat_".toList)
      (atLeast 22 (fun u => isAlnumUnit u || u = unitOf '_'))),
    (.slackToken, .seq (literal "xox".toList) (.seq (.one isAsciiLetter)
      (.seq (literal ['-']) (atLeast 10 (fun u => isAlnumUnit u || u = unitOf '-'))))),
    (.pemPrivateKey, .seq (literal "-----BEGIN ".toList)
      (.seq (atLeast 0 (fun u => isUpperUnit u || isDigitUnit u || u = unitOf ' '))
        (literal "PRIVATE KEY-----".toList)))]

/-- `HIGH_ENTROPY_RULES`, the floor as it is written. -/
def highEntropyRules : List (Re UInt16 × Rat) :=
  [(.seq (atLeast 20 (fun u => isAlnumUnit u || oneOf "+/" u))
      (.rep (.one (fun u => u = unitOf '=')) 0 (some 2)), 43 / 10),
    (atLeast 20 (fun u => isAlnumUnit u || oneOf "_-" u), 43 / 10),
    (.seq (.notBehind isHexUnit) (.seq (atLeast 32 isHexUnit) (.notAhead isHexUnit)), 35 / 10)]

/-- ``[^\s"'`<>()]``. -/
def isPosixPathUnit (u : UInt16) : Bool := !(isSpaceUnit u || oneOf "\"'\x60<>()" u)

/-- ``[^\\\s"'`<>()|]``. -/
def isWindowsPathUnit (u : UInt16) : Bool := !(isSpaceUnit u || oneOf "\\\"'\x60<>()|" u)

def posixPath : Re UInt16 :=
  .seq (literal ['/']) (.seq (atLeast 1 isPosixPathUnit)
    (.rep (.seq (literal ['/']) (atLeast 1 isPosixPathUnit)) 1 none))

def winDrivePath : Re UInt16 :=
  .seq (.boundary isWordUnit) (.seq (.one isAsciiLetter) (.seq (literal [':', '\\'])
    (.seq (.rep (.seq (atLeast 1 isWindowsPathUnit) (literal ['\\'])) 1 none)
      (atLeast 1 isWindowsPathUnit))))

def winUncPath : Re UInt16 :=
  .seq (literal ['\\', '\\']) (.seq (atLeast 1 isWindowsPathUnit) (.seq (literal ['\\'])
    (.seq (atLeast 1 isWindowsPathUnit)
      (.rep (.seq (literal ['\\']) (atLeast 1 isWindowsPathUnit)) 1 none))))

/-- `\d{1,3}`. -/
def octet : Re UInt16 := .rep (.one isDigitUnit) 1 (some 3)

/-- A dot and an octet. -/
def dotOctet : Re UInt16 := .seq (literal ['.']) octet

def privateIp : Re UInt16 :=
  .seq (.boundary isWordUnit) (.seq
    (.alt (.seq (literal "10.".toList) (.seq (.rep (.seq octet (literal ['.'])) 2 (some 2)) octet))
      (.alt (.seq (literal "172.".toList) (.seq
          (.alt (.seq (literal ['1']) (.one (between '6' '9')))
            (.alt (.seq (literal ['2']) (.one isDigitUnit)) (.seq (literal ['3']) (.one (oneOf "01")))))
          (.seq dotOctet dotOctet)))
        (.alt (.seq (literal "192.168".toList) (.seq dotOctet dotOctet))
          (.alt (.seq (literal "127".toList) (.seq dotOctet (.seq dotOctet dotOctet)))
            (.seq (literal "169.254".toList) (.seq dotOctet dotOctet))))))
    (.boundary isWordUnit))

def emailAddress : Re UInt16 :=
  .seq (.boundary isWordUnit) (.seq (atLeast 1 (fun u => isAlnumUnit u || oneOf "._%+-" u))
    (.seq (literal ['@']) (.seq (atLeast 1 (fun u => isAlnumUnit u || oneOf ".-" u))
      (.seq (literal ['.']) (.seq (atLeast 2 isAsciiLetter) (.boundary isWordUnit))))))

/-- `UUID_RE`, from the start to the end. -/
def isUuid (raw : Units) : Bool :=
  let dash : Re UInt16 := literal ['-']
  let pattern : Re UInt16 := .seq (exactly 8 isHexUnit) (.seq dash (.seq (exactly 4 isHexUnit) (.seq dash
    (.seq (exactly 4 isHexUnit) (.seq dash (.seq (exactly 4 isHexUnit) (.seq dash
      (exactly 12 isHexUnit))))))))
  (pattern.run ⟨none, raw⟩).any (fun x => x.rest.isEmpty)

/-! ## What is found in a line -/

/-- What a rule finds in a line. -/
structure Found where
  rule : ScanRule
  severity : ScanSeverity
  raw : Units
  index : Nat
deriving DecidableEq

def Found.stop (f : Found) : Nat := f.index + f.raw.length

/-- `addRegexMatches`; an empty match is passed over. -/
def regexFound (rule : ScanRule) (severity : ScanSeverity) (pattern : Re UInt16) (line : Units) :
    List Found :=
  ((pattern.matchAll line).filter (fun m => !m.raw.isEmpty)).map
    (fun m => { rule, severity, raw := m.raw, index := m.index })

/-- `indexOf`, from an index on. -/
def indexOfFrom (line token : Units) (start : Nat) : Option Nat :=
  ((List.range (line.length + 1 - start)).map (· + start)).find?
    (fun i => token.isPrefixOf (line.drop i))

/-- No letter stands beside a token at an index. -/
def standsAlone (s token : Units) (index : Nat) : Bool :=
  let before := if index = 0 then none else s[index - 1]?
  let after := s[index + token.length]?
  !before.any isAsciiLetter && !after.any isAsciiLetter

/-- The occurrences of a token that stand alone, in so many steps. -/
def tokenMatches (line token : Units) : Nat → Nat → List Found
  | 0, _ => []
  | fuel + 1, start =>
      if line.length < start + token.length then []
      else
        match indexOfFrom line token start with
        | none => []
        | some index =>
            let next := tokenMatches line token fuel (index + max 1 token.length)
            if standsAlone line token index then
              { rule := .selfIdentity, severity := .block, raw := token, index } :: next
            else next

/-- `selfIdentityMatches`. -/
def selfIdentityFound (selfIdentity : List Units) (line : Units) : List Found :=
  selfIdentity.flatMap (fun token =>
    if token.length < 3 then [] else tokenMatches line token (line.length + 1) 0)

/-- The arithmetic of doubles. -/
structure Doubles where
  ofDecimal : Rat → Rat
  div : Rat → Rat → Rat
  mul : Rat → Rat → Rat
  sub : Rat → Rat → Rat
  log2 : Rat → Rat

/-- How often each character occurs, in the order of their first occurrences. -/
def countChars (chars : List CodePoint) : List (CodePoint × Nat) :=
  chars.foldl (fun counts c =>
    if counts.any (fun e => e.1 = c) then
      counts.map (fun e => if e.1 = c then (c, e.2 + 1) else e)
    else counts ++ [(c, 1)]) []

section Scan

variable (d : Doubles)

def shannonEntropy (raw : Units) : Rat :=
  let value := raw.rdropWhile (fun u => u = unitOf '=')
  (countChars (codePoints value)).foldl (fun entropy e =>
    let probability := d.div e.2 value.length
    d.sub entropy (d.mul probability (d.log2 probability))) 0

/-- `raw` is long and random enough. -/
def isHighEntropy (raw : Units) (entropyFloor : Rat) : Bool :=
  !raw.isEmpty && !isUuid raw && !(shannonEntropy d raw < d.ofDecimal entropyFloor)

/-- The candidates of all rules that no known secret contains, before they are normalised. -/
def entropyCandidates (known : List Found) (line : Units) : List Found :=
  highEntropyRules.flatMap (fun rule =>
    ((rule.1.matchAll line).filter (fun m => isHighEntropy d m.raw rule.2)).map
      (fun m => { rule := .highEntropy, severity := .block, raw := m.raw, index := m.index })) |>.filter
    (fun f => !known.any (fun span => span.index ≤ f.index && f.stop ≤ span.stop))

/-- The order in which a containing candidate comes first. -/
def startsFirst (a b : Found) : Prop := a.index < b.index ∨ a.index = b.index ∧ b.stop ≤ a.stop

instance (a b : Found) : Decidable (startsFirst a b) := inferInstanceAs (Decidable (_ ∨ _))

/-- Add a candidate, if none contains it. -/
def addCandidate (normalized : List Found) (f : Found) : List Found :=
  if normalized.any (fun e => e.index ≤ f.index && f.stop ≤ e.stop) then normalized
  else normalized ++ [f]

/-- `highEntropyCandidates`. -/
def highEntropyFound (known : List Found) (line : Units) : List Found :=
  ((entropyCandidates d known line).insertionSort startsFirst).foldl addCandidate []

/-- What the fixed patterns find. -/
def knownFound (line : Units) : List Found :=
  blockRules.flatMap (fun rule => regexFound rule.1 .block rule.2 line)

/-- Paths, on a line that tells who wrote it. -/
def pathFound (line : Units) : List Found :=
  [posixPath, winDrivePath, winUncPath].flatMap (fun pattern =>
    regexFound .pathIdentity .block pattern line)

/-- What the block-level rules find in a line. -/
def blockFound (selfIdentity : List Units) (line : Units) : List Found :=
  let known := knownFound line
  let identity := selfIdentityFound selfIdentity line
  known ++ highEntropyFound d known line ++ identity ++
    if identity.isEmpty then [] else pathFound line

/-- What all rules find in a line, in the order in which it is added. -/
def lineFound (selfIdentity : List Units) (line : Units) : List Found :=
  blockFound d selfIdentity line ++ regexFound .privateIp .warn privateIp line ++
    regexFound .email .warn emailAddress line

/-! ## Findings -/

structure PublishFile where
  relPath : Units
  content : Bytes
  showcase : Bool
deriving DecidableEq

structure ScanFinding where
  relPath : Units
  line : Nat
  rule : ScanRule
  severity : ScanSeverity
  excerpt : Units
  matchDigest : Units
deriving DecidableEq

/-- A call of `addFinding`. -/
structure Hit where
  relPath : Units
  lineNumber : Nat
  fileDigest : Units
  found : Found
deriving DecidableEq

def nul : Units := [0]

variable (sha256 : Bytes → Units)

/-- The hash of a string. -/
def hashUnits (s : Units) : Units := sha256 (toUtf8 s)

/-- `findingDigest`. -/
def findingDigest (h : Hit) : Units :=
  let pemContext :=
    if h.found.rule = .pemPrivateKey then
      nul ++ h.fileDigest ++ nul ++ unitsOf (ofNat h.lineNumber) ++ nul ++
        unitsOf (ofNat h.found.index)
    else []
  hashUnits sha256 (unitsOf "v1".toList ++ nul ++ unitsOf h.found.rule.text ++ nul ++ h.relPath ++
    nul ++ h.found.raw ++ pemContext)

def maskRaw (raw : Units) : Units :=
  let stars := unitsOf "****".toList
  if raw.length ≤ 8 then stars else raw.take 4 ++ stars ++ raw.drop (raw.length - 4)

/-- The key under which a finding is added once. -/
def Hit.key (h : Hit) : Units :=
  h.relPath ++ nul ++ unitsOf (ofNat h.lineNumber) ++ nul ++ h.found.raw

def Hit.finding (h : Hit) : ScanFinding :=
  { relPath := h.relPath, line := h.lineNumber, rule := h.found.rule
    severity := h.found.severity, excerpt := maskRaw h.found.raw
    matchDigest := findingDigest sha256 h }

/-- The calls of `addFinding` for a line of a file, by its index. -/
def lineHits (selfIdentity : List Units) (file : PublishFile) (line : Text × Nat) : List Hit :=
  (lineFound d selfIdentity (unitsOf line.1)).map (fun found =>
    { relPath := file.relPath, lineNumber := line.2 + 1, fileDigest := sha256 file.content, found })

/-- The calls of `addFinding` for a file. -/
def fileHits (selfIdentity : List Units) (file : PublishFile) : List Hit :=
  (splitLines (decodeUtf8 file.content)).zipIdx.flatMap (lineHits d sha256 selfIdentity file)

/-- The calls of `addFinding` for all files, in their order. -/
def scanHits (selfIdentity : List Units) (files : List PublishFile) : List Hit :=
  files.flatMap (fileHits d sha256 selfIdentity)

/-- The hits that are added: those whose key was not seen before. -/
def added (seen : List Units) : List Hit → List Hit
  | [] => []
  | h :: hs => if seen.any (fun key => key = h.key) then added seen hs
      else h :: added (h.key :: seen) hs

structure PublishScanResult where
  blocking : List ScanFinding
  warnings : List ScanFinding
deriving DecidableEq

/-- `scanPublishFiles`. -/
def scanPublishFiles (selfIdentity allow : List Units) (files : List PublishFile) :
    PublishScanResult :=
  let findings := (added [] (scanHits d sha256 selfIdentity files)).map (Hit.finding sha256)
  { blocking := (findings.filter (fun f => f.severity = .block)).filter
      (fun f => !allow.any (fun digest => digest = f.matchDigest))
    warnings := findings.filter (fun f => f.severity = .warn) }

end Scan

end Caveat.Publish
