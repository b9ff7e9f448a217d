import Caveat.Hooks.TaskEnvironment
import Caveat.Js.JsonCode
import Mathlib.Data.List.Infix

/-!
# The identity of a project's origin

`projectOrigin` reads the URL of a remote, as a command gave it, into a descriptor, and gives the
digest of that. The hash function is a parameter.
-/

namespace Caveat.PrivateEvidence

open Js
open Hooks (lowerUnit)
open Publish (between oneOf isDigitUnit isAlnumUnit)

/-- What a capture says of itself; `unknown` stands for every other value. -/
inductive CaptureStatus where
  | observed
  | notObserved
  | unverified
  | unknown
deriving DecidableEq

structure AcquiredValue where
  runId : Units
  status : CaptureStatus
  value : Option Units
  /-- `complete === true`. -/
  complete : Bool

inductive OriginStatus where
  | available
  | notObserved
  | unverified
deriving DecidableEq

structure OriginIdentity where
  status : OriginStatus
  algorithm : Option String
  digest : Option Units
  reason : String
deriving DecidableEq

def missing (status : OriginStatus) (reason : String) : OriginIdentity :=
  { status := status, algorithm := none, digest := none, reason := reason }

def ORIGIN_ALGORITHM : String := "origin-descriptor-sha256-v1"

def hasKnownCaptureState (input : AcquiredValue) : Bool :=
  input.complete && (input.status = .observed || input.status = .notObserved ||
    input.status = .unverified)

/-- `/^[0-9a-f]{8}-[0-9a-f]{4}-[0-9a-f]{4}-[0-9a-f]{4}-[0-9a-f]{12}$/`. -/
def isRunId (s : Units) : Bool :=
  s.length = 36 && s.zipIdx.all fun u =>
    if u.2 = 8 || u.2 = 13 || u.2 = 18 || u.2 = 23 then u.1 = unitOf '-'
    else isDigitUnit u.1 || between 'a' 'f' u.1

/-- `replace(/\r?\n$/, '')`. -/
def dropNewline (s : Units) : Units :=
  if s.getLast? = some (unitOf '\n') then
    if s.dropLast.getLast? = some (unitOf '\r') then s.dropLast.dropLast else s.dropLast
  else s

/-- `/[^\x21-\x7e]|[%\\?#]/` finds nothing. -/
def isPlainUnit (u : UInt16) : Bool := between '!' '~' u && !oneOf "%\\?#" u

inductive OriginForm where
  | url
  | scp
deriving DecidableEq

def OriginForm.text : OriginForm → Units
  | .url => unitsOf "url".toList
  | .scp => unitsOf "scp".toList

/-- What is read of a remote; the scheme is in lower case. -/
structure Descriptor where
  form : OriginForm
  scheme : Option Units
  host : Units
  port : Option Units
  path : Units
deriving DecidableEq

/-! ## Reading the URL -/

/-- `[A-Za-z0-9._-]`. -/
def isNameUnit (u : UInt16) : Bool := isAlnumUnit u || oneOf "._-" u

/-- `[^/:@]`. -/
def isHostUnit (u : UInt16) : Bool := !oneOf "/:@" u

def separator : Units := unitsOf "://".toList

/-- `(https?|ssh|git):\/\/` with the flag `i`, and the text behind it. -/
def schemeAndRest (s : Units) : Option (Units × Units) :=
  ["http", "https", "ssh", "git"].findSome? fun name =>
    if (s.take name.length).map lowerUnit = unitsOf name.toList &&
        (s.drop name.length).take 3 = separator then
      some (s.take name.length, s.drop (name.length + 3))
    else none

/-- `(?:[A-Za-z0-9._-]+@)?`. A host has no `@` in it, so that nothing is found by going back. -/
def skipUser (s : Units) : Units :=
  match s.dropWhile isNameUnit with
  | u :: rest => if u = unitOf '@' && !(s.takeWhile isNameUnit).isEmpty then rest else s
  | [] => s

/-- `([^/:@]+)`. -/
def hostAndRest (s : Units) : Option (Units × Units) :=
  if (s.takeWhile isHostUnit).isEmpty then none
  else some (s.takeWhile isHostUnit, s.dropWhile isHostUnit)

/-- `(?::([1-9][0-9]{0,4}))?(\/.*)$` -/
def portAndPath : Units → Option (Option Units × Units)
  | [] => none
  | u :: rest =>
      if u = unitOf ':' then
        if (rest.takeWhile isDigitUnit).head?.any (between '1' '9') &&
            (rest.takeWhile isDigitUnit).length ≤ 5 &&
            (rest.dropWhile isDigitUnit).head? = some (unitOf '/') then
          some (some (rest.takeWhile isDigitUnit), rest.dropWhile isDigitUnit)
        else none
      else if u = unitOf '/' then some (none, u :: rest)
      else none

/-- `Number(port)`. -/
def portNumber (port : Units) : Nat := port.foldl (fun n u => 10 * n + (u.toNat - 48)) 0

/-- `/^[A-Za-z0-9](?:[A-Za-z0-9-]{0,61}[A-Za-z0-9])?$/`. -/
def isLabel (label : Units) : Bool :=
  label.length ≤ 63 && label.head?.any isAlnumUnit && label.getLast?.any isAlnumUnit &&
    label.all fun u => isAlnumUnit u || u = unitOf '-'

def supportedHost (host : Units) : Bool :=
  let labels := host.splitOn (unitOf '.')
  host.length ≤ 253 && !labels.all (fun label => !label.isEmpty && label.all isDigitUnit) &&
    labels.all isLabel

/-- `/^\/[A-Za-z0-9._-]+(?:\/[A-Za-z0-9._-]+)*\/?$/`, without `.` and `..` as a segment. -/
def supportedPath (path : Units) : Bool :=
  match path.splitOn (unitOf '/') with
  | first :: segments =>
      let named := if segments.getLast? = some [] then segments.dropLast else segments
      first.isEmpty && !named.isEmpty &&
        named.all (fun segment => !segment.isEmpty && segment.all isNameUnit) &&
        segments.all fun segment =>
          !(segment = unitsOf ".".toList) && !(segment = unitsOf "..".toList)
  | [] => false

def readUrl (text : Units) : Option Descriptor := do
  let (scheme, rest) ← schemeAndRest text
  let (host, rest) ← hostAndRest (skipUser rest)
  let (port, path) ← portAndPath rest
  (if port.any fun port => 65535 < portNumber port then none
  else some
    { form := .url, scheme := some (scheme.map lowerUnit), host := host, port := port, path := path })

/-- `/^(?:[A-Za-z0-9._-]+@)?([^/:@]+):(.*)$/`, and the path is absolute. -/
def readScp (text : Units) : Except String Descriptor :=
  match hostAndRest (skipUser text) with
  | some (host, u :: path) =>
      if u = unitOf ':' then
        if path.head? = some (unitOf '/') then
          .ok { form := .scp, scheme := none, host := host, port := none, path := path }
        else .error "origin_semantics_ambiguous"
      else .error "origin_syntax_unsupported"
  | _ => .error "origin_syntax_unsupported"

def readRemote (text : Units) : Except String Descriptor :=
  if separator <:+: text then
    match readUrl text with
    | some d => .ok d
    | none => .error "origin_syntax_unsupported"
  else readScp text

/-- The checks of the text, and of the host and the path that are read. -/
def describe (text : Units) : Except String Descriptor :=
  if text.isEmpty || 4096 < text.length || !text.all isPlainUnit then
    .error "origin_syntax_unsupported"
  else
    match readRemote text with
    | .error reason => .error reason
    | .ok d =>
        if supportedHost d.host && supportedPath d.path then .ok d
        else .error "origin_syntax_unsupported"

section Digest

variable (doubles : Doubles) (sha256Hex : Bytes → Units)

def Descriptor.tuple (d : Descriptor) : List (Option Units) :=
  [some (unitsOf "caveat.origin-descriptor.v1".toList), some d.form.text, d.scheme,
    some (d.host.map lowerUnit), d.port, some (unitsOf "absolute".toList), some d.path]

/-- What is hashed: `JSON.stringify(tuple)`, as UTF-8. -/
def Descriptor.bytes (d : Descriptor) : Bytes :=
  encodeUtf8 (stringify doubles (.array (d.tuple.map nullable)))

def projectOrigin (runId : Units) (input : AcquiredValue) : OriginIdentity :=
  if !isRunId runId || input.runId ≠ runId || !hasKnownCaptureState input ||
      input.status = .unverified then
    missing .unverified "origin_capture_unverified"
  else if input.status = .notObserved then missing .notObserved "origin_not_reached"
  else match input.value with
    | none => missing .unverified "origin_capture_unverified"
    | some value =>
        match describe (dropNewline value) with
        | .error reason => missing .unverified reason
        | .ok d =>
            { status := .available, algorithm := some ORIGIN_ALGORITHM
              digest := some (sha256Hex (d.bytes doubles)), reason := "origin_descriptor_observed" }

end Digest

end Caveat.PrivateEvidence
