import Caveat.Js.Text
import Caveat.Lib.Loop
import Mathlib.Data.List.Sort

/-!
# The runtime error store

One JSON file holds a record for each error code that has occurred, the number the next change
will get, and the number up to which changes were acknowledged. Every change of a record gives it
the next number and moves it to the end. Times are the milliseconds of `Date.parse`; the store is
what `JSON.parse` gives when the shape of the file is right.
-/

namespace Caveat.RuntimeErrors

open Js

/-! ## The data -/

def runtimeErrorsSchema : Text := "caveat.runtime_errors.v1".toList
def stateVersion : Text := "1.0".toList
def maxRecords : Nat := 256
def retentionMs : Int := 30 * 86400000

/-- `Number.MAX_SAFE_INTEGER`. -/
def maxSafeInteger : Nat := 2 ^ 53 - 1

structure Definition where
  component : Text
  template : Text

def definitions : List (Text × Definition) :=
  [("CAVEAT.DATABASE_OPEN_FAILED".toList, ⟨"database".toList, "Caveat database open failed".toList⟩),
   ("CAVEAT.INDEX_FAILED".toList, ⟨"index".toList, "Caveat index operation failed".toList⟩),
   ("CAVEAT.SYNC_FAILED".toList, ⟨"sync".toList, "Caveat own sync failed".toList⟩),
   ("CAVEAT.MCP_SERVER_FAILED".toList, ⟨"mcp".toList, "Caveat MCP server failed".toList⟩),
   ("CAVEAT.MCP_TOOL_FAILED".toList, ⟨"mcp_tool".toList, "Caveat MCP tool handler failed".toList⟩),
   ("CAVEAT.CLAUDE_HOOK_FAILED".toList, ⟨"claude_hook".toList, "Caveat Claude hook failed".toList⟩),
   ("CAVEAT.CODEX_HOOK_FAILED".toList, ⟨"codex_hook".toList, "Caveat Codex hook failed".toList⟩),
   ("CAVEAT.CURSOR_HOOK_FAILED".toList, ⟨"cursor_hook".toList, "Caveat Cursor hook failed".toList⟩)]

def definition? (code : Text) : Option Definition := definitions.lookup code

inductive Severity where
  | info | warn | high | fatal
deriving DecidableEq

inductive RuntimeErrorImpact where
  | operationFailed | featureUnavailable | recoveryFailed | dataLost | mutationOutcomeUnverified
deriving DecidableEq

/-- `runtimeErrorSeverity`. -/
def runtimeErrorSeverity : Option RuntimeErrorImpact → Severity
  | some .dataLost => .fatal
  | some .operationFailed => .warn
  | _ => .high

def Severity.rank : Severity → Nat
  | .info => 0
  | .warn => 1
  | .high => 2
  | .fatal => 3

def highestSeverity (previous current : Severity) : Severity :=
  if current.rank ≤ previous.rank then previous else current

inductive Status where
  | open
  | resolved
deriving DecidableEq

structure RecordEntry where
  product : Text
  productVersion : Text
  component : Text
  errorCode : Text
  messageTemplate : Text
  severity : Severity
  fingerprint : Text
  count : Nat
  firstSeen : Int
  lastSeen : Int
  stateSchemaVersion : Text
  os : Text
  arch : Text
  status : Status
  resolvedAt : Option Int
  reasonCode : Option Text
  sequence : Nat
deriving DecidableEq

structure Store where
  schema : Text := runtimeErrorsSchema
  nextSequence : Nat := 1
  acknowledgedThrough : Nat := 0
  records : List RecordEntry := []
deriving DecidableEq

inductive StoreError where
  | stateInvalid
  | unknownRuntimeCode
  | invalidRuntimeMetadata
  | storeOverflow
  | invalidTime
  | invalidCursor
  | invalidLimit
  | invalidFingerprint
  | fingerprintNotFound
deriving DecidableEq

/-! ## Checks on values -/

/-- What a date can hold: at most `8.64e15` milliseconds to either side. -/
def validTime (t : Int) : Bool := -8640000000000000 ≤ t && t ≤ 8640000000000000

/-- What is left after `\d+`. -/
def afterDigits (s : Text) : Option Text :=
  if s.head?.any Char.isDigit then some (s.dropWhile Char.isDigit) else none

/-- What is left after `\.`. -/
def afterDot : Text → Option Text
  | '.' :: rest => some rest
  | _ => none

/-- `/^\d+\.\d+\.\d+(?:[-+][0-9A-Za-z.-]+)?$/`. -/
def validVersion (s : Text) : Bool :=
  match ((((afterDigits s).bind afterDot).bind afterDigits).bind afterDot).bind afterDigits with
  | some [] => true
  | some (c :: rest) => (c = '-' || c = '+') && !rest.isEmpty &&
      rest.all (fun c => c.isAlphanum || c = '.' || c = '-')
  | none => false

def validOs (s : Text) : Bool :=
  ["darwin", "linux", "windows"].any (fun o => o.toList = s)

def validArch (s : Text) : Bool :=
  ["x64", "arm64", "arm", "ia32"].any (fun a => a.toList = s)

def normalizeOs (s : Text) : Text := if s = "win32".toList then "windows".toList else s

/-- `now(options)`; the time is `none` when `new Date` gives an invalid date. -/
def now (time : Option Int) : Except StoreError Int :=
  match time with
  | some t => if validTime t then .ok t else .error .invalidTime
  | none => .error .invalidTime

/-- A digest in hexadecimal, as `/^[0-9a-f]{64}$/` accepts it. -/
def validFingerprint (s : Text) : Bool :=
  s.length = 64 && s.all (fun c => c.isDigit || ('a' ≤ c && c ≤ 'f'))

section Hash

variable (sha256 : Text → Text)

/-- `fingerprint(code)`, for the code's definition. -/
def fingerprint (code : Text) (d : Definition) : Text :=
  sha256 ("caveat".toList ++ [Char.ofNat 0] ++ d.component ++ [Char.ofNat 0] ++ code ++
    [Char.ofNat 0] ++ d.template)

/-! ## Validation -/

/-- The status of a record and what goes with it. -/
def validStatus (r : RecordEntry) : Bool :=
  match r.status with
  | .open => r.resolvedAt.isNone && r.reasonCode.isNone
  | .resolved => r.resolvedAt.any (fun t => validTime t && r.lastSeen ≤ t) &&
      r.reasonCode = some "operator_resolved".toList

/-- The test of one record, but for the records before it. -/
def validRecord (nextSequence : Nat) (r : RecordEntry) : Bool :=
  match definition? r.errorCode with
  | none => false
  | some d => r.product = "caveat".toList && validVersion r.productVersion &&
      r.component = d.component && r.messageTemplate = d.template &&
      r.fingerprint = fingerprint sha256 r.errorCode d &&
      r.count ≤ maxSafeInteger && 1 ≤ r.count &&
      validTime r.firstSeen && validTime r.lastSeen && r.firstSeen ≤ r.lastSeen &&
      r.stateSchemaVersion = stateVersion && validOs r.os && validArch r.arch &&
      r.sequence ≤ maxSafeInteger && r.sequence < nextSequence && validStatus r

/-- The loop of `validate` over the records. -/
def validateRecords (nextSequence : Nat) :
    (seen : List Text) → (previous : Nat) → List RecordEntry → Bool
  | _, _, [] => true
  | seen, previous, r :: rest =>
      validRecord sha256 nextSequence r && !seen.any (fun f => f = r.fingerprint) &&
        previous < r.sequence &&
        validateRecords nextSequence (seen ++ [r.fingerprint]) r.sequence rest

def validate (s : Store) : Bool :=
  s.schema = runtimeErrorsSchema && s.nextSequence ≤ maxSafeInteger && 1 ≤ s.nextSequence &&
    s.acknowledgedThrough < s.nextSequence && s.records.length ≤ maxRecords &&
    validateRecords sha256 s.nextSequence [] 0 s.records

/-- `readStore`: without a file the store is empty. -/
def readStore (disk : Option Store) : Except StoreError Store :=
  match disk with
  | none => .ok {}
  | some s => if validate sha256 s then .ok s else .error .stateInvalid

/-- The check of `writeStore`: what it would put on disk. -/
def checked (s : Store) : Except StoreError Store :=
  if validate sha256 s then .ok s else .error .stateInvalid

/-! ## The operations -/

/-- `store.records.sort((a, b) => a.sequence - b.sequence)`. -/
def sortRecords (records : List RecordEntry) : List RecordEntry :=
  records.insertionSort (fun a b => a.sequence ≤ b.sequence)

/-- Change the record that `find` gives. -/
def updateRecord (key : Text) (f : RecordEntry → RecordEntry) :
    List RecordEntry → List RecordEntry
  | [] => []
  | r :: rest => if r.fingerprint = key then f r :: rest else r :: updateRecord key f rest

structure RecordOptions where
  code : Text
  impact : Option RuntimeErrorImpact := none
  time : Option Int
  version : Text := "0.0.0".toList
  os : Text
  arch : Text

/-- The record of a code that has occurred again. -/
def RecordEntry.again (r : RecordEntry) (o : RecordOptions) (severity : Severity) (time : Int)
    (sequence : Nat) : RecordEntry :=
  { r with
    productVersion := o.version, os := normalizeOs o.os, arch := o.arch, count := r.count + 1
    severity := if r.status = .resolved then severity else highestSeverity r.severity severity
    lastSeen := time, sequence, status := .open, resolvedAt := none, reasonCode := none }

/-- The record of a code that occurs for the first time. -/
def firstRecord (o : RecordOptions) (d : Definition) (severity : Severity) (time : Int)
    (sequence : Nat) : RecordEntry :=
  { product := "caveat".toList, productVersion := o.version, component := d.component
    errorCode := o.code, messageTemplate := d.template, severity
    fingerprint := fingerprint sha256 o.code d, count := 1, firstSeen := time, lastSeen := time
    stateSchemaVersion := stateVersion, os := normalizeOs o.os, arch := o.arch, status := .open
    resolvedAt := none, reasonCode := none, sequence }

/-- The records with the new occurrence, before they are sorted. -/
def occur (records : List RecordEntry) (o : RecordOptions) (d : Definition) (time : Int)
    (sequence : Nat) : Except StoreError (List RecordEntry) :=
  let key := fingerprint sha256 o.code d
  let severity := runtimeErrorSeverity o.impact
  match records.find? (fun r => r.fingerprint = key) with
  | some _ => .ok (updateRecord key (fun r => r.again o severity time sequence) records)
  | none =>
      if maxRecords ≤ records.length then .error .storeOverflow
      else .ok (records ++ [firstRecord sha256 o d severity time sequence])

/-- `recordRuntimeError`: the store it writes, and the fingerprint and number it returns. -/
def recordRuntimeError (disk : Option Store) (o : RecordOptions) :
    Except StoreError (Store × Text × Nat) := do
  let store ← readStore sha256 disk
  match definition? o.code with
  | none => .error .unknownRuntimeCode
  | some d =>
      let sequence := store.nextSequence
      let time ← now o.time
      if !(validVersion o.version && validOs (normalizeOs o.os) && validArch o.arch) then
        .error .invalidRuntimeMetadata
      else
        let records ← occur sha256 store.records o d time sequence
        let written ← checked sha256 { store with
          nextSequence := sequence + 1, records := sortRecords records }
        return (written, fingerprint sha256 o.code d, sequence)

/-- `requireCursor`. -/
def requireCursor (cursor : Nat) : Except StoreError Unit :=
  if cursor ≤ maxSafeInteger then .ok () else .error .invalidCursor

/-- `acknowledgeRuntimeErrors`: the store it writes. -/
def acknowledgeRuntimeErrors (disk : Option Store) (cursor : Nat) : Except StoreError Store := do
  requireCursor cursor
  let store ← readStore sha256 disk
  if store.nextSequence ≤ cursor then .error .invalidCursor
  else checked sha256 { store with
    acknowledgedThrough := max store.acknowledgedThrough cursor }

/-- The record with another status. -/
def RecordEntry.withStatus (r : RecordEntry) (status : Status) (time : Int) (sequence : Nat) :
    RecordEntry :=
  { r with
    status
    resolvedAt := if status = .resolved then some time else none
    reasonCode := if status = .resolved then some "operator_resolved".toList else none
    sequence }

/-- The clock is only read for a resolution. -/
def statusTime (status : Status) (time : Option Int) : Except StoreError Int :=
  if status = .resolved then now time else .ok 0

/-- `setRuntimeErrorStatus`: the store it writes, or `none` when the status is there already. -/
def setRuntimeErrorStatus (disk : Option Store) (key : Text) (status : Status)
    (time : Option Int) : Except StoreError (Option Store) := do
  if !validFingerprint key then .error .invalidFingerprint
  else
    let store ← readStore sha256 disk
    match store.records.find? (fun r => r.fingerprint = key) with
    | none => .error .fingerprintNotFound
    | some record =>
        if record.status = status then return none
        else
          let at' ← statusTime status time
          let sequence := store.nextSequence
          let written ← checked sha256 { store with
            nextSequence := sequence + 1
            records := sortRecords
              (updateRecord key (fun r => r.withStatus status at' sequence) store.records) }
          return some written

/-- What `compactRuntimeErrors` drops. -/
def compacted (acknowledgedThrough : Nat) (cutoff : Int) (r : RecordEntry) : Bool :=
  r.status = .resolved && r.sequence ≤ acknowledgedThrough && r.resolvedAt.any (· ≤ cutoff)

/-- `compactRuntimeErrors`: the store it writes. -/
def compactRuntimeErrors (disk : Option Store) (time : Option Int) :
    Except StoreError Store := do
  let store ← readStore sha256 disk
  let cutoff := (← now time) - retentionMs
  checked sha256 { store with
    records := store.records.filter (fun r => !compacted store.acknowledgedThrough cutoff r) }

end Hash

end Caveat.RuntimeErrors
