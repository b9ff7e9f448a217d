import Caveat.Js.Decoder
import Caveat.Js.Stringify

/-!
# The journal of global mutations

A journal is a header line and a line for each record. Every record carries its number and the hash
of the line before it, and the records follow a grammar: an intent, its result, the next intent, and
at last a completion. What follows the last line break is a torn record that no reader counts.
-/

namespace Caveat.Managed

open Js

/-! ## Hashes and names -/

def isHexUnit (u : UInt16) : Bool := (48 ≤ u.toNat && u.toNat ≤ 57) || (97 ≤ u.toNat && u.toNat ≤ 102)

/-- `/^[a-f0-9]{64}$/`. -/
def isDigest (s : Units) : Bool := s.length = 64 && s.all isHexUnit

/-- `createHash('sha256').update(bytes).digest('hex')`. -/
structure Sha256 where
  hash : Bytes → Units
  isDigest_hash : ∀ bytes, isDigest (hash bytes) = true

/-- `/^[a-f0-9]{32}$/`. -/
def isRunId (s : Units) : Bool := s.length = 32 && s.all isHexUnit

/-- `/[a-zA-Z0-9._-]/`. -/
def isStepUnit (u : UInt16) : Bool :=
  isAsciiLetter u || (48 ≤ u.toNat && u.toNat ≤ 57) || u = unitOf '.' || u = unitOf '_' ||
    u = unitOf '-'

/-- `/^[a-zA-Z0-9._-]{1,64}$/`. -/
def isStep (s : Units) : Bool := 1 ≤ s.length && s.length ≤ 64 && s.all isStepUnit

def maxJournalBytes : Nat := 16 * 1024 * 1024

def maxJournalLines : Nat := 10000

def maxRecordBytes : Nat := 65535

/-- The parser's refusals. -/
inductive JournalError where
  | totalBound
  | planHashRequired
  | headerIncomplete
  /-- The `TypeError` of a fatal decoder. -/
  | encoding
  | recordCountBound
  | recordBound
  | jsonInvalid
  | objectRequired
  | noncanonicalRecord
  | fieldsInvalid
  | headerInvalid
  | afterTerminal
  | chainInvalid
  | operationInvalid
  | intentInvalid
  | resultInvalid
  | completeInvalid
deriving DecidableEq

/-! ## Records -/

/-- An object by its own properties. -/
abbrev JsObject := List (Units × Json)

/-- `value.name`; `none` is `undefined`. -/
def JsObject.get (v : JsObject) (name : Text) : Option Json :=
  (v.find? (fun p => p.1 = unitsOf name)).map Prod.snd

/-- The property, where it is a string. -/
def JsObject.string (v : JsObject) (name : Text) : Option Units :=
  match v.get name with
  | some (.string s) => some s
  | _ => none

/-- `value.name === n`, for a number. -/
def JsObject.isNat (v : JsObject) (name : Text) (n : Nat) : Bool :=
  match v.get name with
  | some (.number m) => m = .finite n
  | _ => false

/-- `value.name === null`. -/
def JsObject.isNull (v : JsObject) (name : Text) : Bool :=
  match v.get name with
  | some .null => true
  | _ => false

/-- `keys`: the own names are these; sorted, they would be the same list. -/
def JsObject.hasKeys (v : JsObject) (names : List Text) : Bool :=
  (v.map Prod.fst).isPerm (names.map unitsOf)

/-- `digest(value.name)`. -/
def JsObject.hasDigest (v : JsObject) (name : Text) : Bool := (v.string name).any isDigest

/-- `GlobalJournalOperation`. -/
inductive GlobalJournalOperation where
  | retain
  | workingCopy
  | uninstall
  | wrapper
  | restore
  | manifest
deriving DecidableEq

def GlobalJournalOperation.text : GlobalJournalOperation → Text
  | .retain => "retain".toList
  | .workingCopy => "working-copy".toList
  | .uninstall => "uninstall".toList
  | .wrapper => "wrapper".toList
  | .restore => "restore".toList
  | .manifest => "manifest".toList

def operations : List GlobalJournalOperation :=
  [.retain, .workingCopy, .uninstall, .wrapper, .restore, .manifest]

/-- The operation that a string names. -/
def operation? (s : Units) : Option GlobalJournalOperation :=
  operations.find? (fun o => unitsOf o.text = s)

section Parsing

variable (doubles : Doubles) (sha : Sha256)

/-- `JSON.stringify(value) + '\n'`. -/
def lineText (v : JsObject) : Text := stringify doubles (.object v) ++ ['\n']

/-- `line`. -/
def line (v : JsObject) : Bytes := encodeUtf8 (lineText doubles v)

/-- `decode`. -/
def decodeRecord (text : Text) : Except JournalError JsObject :=
  if maxRecordBytes < (encodeUtf8 text).length then .error .recordBound
  else
    match parseJson doubles.round text with
    | none => .error .jsonInvalid
    | some (.object members) =>
        if stringify doubles (.object members) = text then .ok (properties members)
        else .error .noncanonicalRecord
    | some _ => .error .objectRequired

/-- The header's fields. -/
def checkHeader (plan : Units) (header : JsObject) : Except JournalError Unit :=
  if !header.hasKeys ["schema".toList, "planSha256".toList, "runId".toList] then
    .error .fieldsInvalid
  else if header.string "schema".toList = some (unitsOf "caveat.global_journal.v1".toList) &&
      header.string "planSha256".toList = some plan &&
      (header.string "runId".toList).any isRunId then .ok ()
  else .error .headerInvalid

inductive RowKind where
  | intent
  | result
  | other
deriving DecidableEq

/-- What `row.kind` is compared with. -/
def rowKind (row : JsObject) : RowKind :=
  if row.string "kind".toList = some (unitsOf "intent".toList) then .intent
  else if row.string "kind".toList = some (unitsOf "result".toList) then .result
  else .other

def baseKeys : List Text :=
  ["sequence".toList, "previousSha256".toList, "kind".toList, "stateSha256".toList]

/-- The names that a row must have. -/
def rowKeys : RowKind → List Text
  | .intent => baseKeys ++ ["step".toList, "operation".toList]
  | .result => baseKeys ++ ["step".toList, "operation".toList, "outcome".toList]
  | .other => baseKeys

/-- What the parser knows after some records. -/
structure JournalState where
  previousSha256 : Units
  records : List JsObject := []
  pending : Option JsObject := none
  steps : List (Option Units) := []
  unknown : Bool := false
  complete : Bool := false

/-- A step and an operation that may stand in a record. -/
def operationValid (row : JsObject) : Bool :=
  (row.string "step".toList).any isStep && ((row.string "operation".toList).bind operation?).isSome

def outcomeConfirmed : Units := unitsOf "confirmed".toList

def outcomeUnknown : Units := unitsOf "unknown".toList

/-- A state hash that the outcome may have. -/
def outcomeValid (row : JsObject) : Bool :=
  (row.string "outcome".toList = some outcomeConfirmed && row.hasDigest "stateSha256".toList) ||
    (row.string "outcome".toList = some outcomeUnknown &&
      (row.isNull "stateSha256".toList || row.hasDigest "stateSha256".toList))

/-- The result is that of the pending intent. -/
def resultOf (pending : Option JsObject) (row : JsObject) : Bool :=
  pending.any (fun p => row.string "step".toList = p.string "step".toList &&
    row.string "operation".toList = p.string "operation".toList)

/-- The part of a record's check that depends on its kind. -/
def checkKind (st : JournalState) (row : JsObject) : Except JournalError JournalState :=
  match rowKind row with
  | .intent =>
      if st.pending.isNone && !st.steps.contains (row.string "step".toList) &&
          row.hasDigest "stateSha256".toList then .ok { st with pending := some row }
      else .error .intentInvalid
  | .result =>
      if resultOf st.pending row && outcomeValid row then
        .ok { st with
          unknown := row.string "outcome".toList = some outcomeUnknown
          steps := st.steps ++ [row.string "step".toList]
          pending := none }
      else .error .resultInvalid
  | .other =>
      if row.string "kind".toList = some (unitsOf "complete".toList) && st.pending.isNone &&
          row.hasDigest "stateSha256".toList then .ok { st with complete := true }
      else .error .completeInvalid

/-- One turn of the loop over the lines. -/
def readRow (st : JournalState) (text : Text) : Except JournalError JournalState :=
  if st.unknown || st.complete then .error .afterTerminal
  else
    match decodeRecord doubles text with
    | .error e => .error e
    | .ok row =>
        if !row.hasKeys (rowKeys (rowKind row)) then .error .fieldsInvalid
        else if !(row.isNat "sequence".toList (st.records.length + 1) &&
            row.string "previousSha256".toList = some st.previousSha256) then .error .chainInvalid
        else if rowKind row ≠ .other && !operationValid row then .error .operationInvalid
        else
          match checkKind st row with
          | .error e => .error e
          | .ok next => .ok { next with
              records := st.records ++ [row]
              previousSha256 := sha.hash (encodeUtf8 (text ++ ['\n'])) }

inductive JournalStatus where
  | torn
  | unknown
  | complete
  | pending
  | ready
deriving DecidableEq

/-- What `parseGlobalMutationJournal` returns. -/
structure ParsedJournal where
  header : JsObject
  records : List JsObject
  pending : Option JsObject
  lastSha256 : Units
  bytesSha256 : Units
  tornBytes : Nat
  status : JournalStatus

def ParsedJournal.nextSequence (j : ParsedJournal) : Nat := j.records.length + 1

def statusOf (torn : Bytes) (st : JournalState) : JournalStatus :=
  if torn ≠ [] then .torn
  else if st.unknown then .unknown
  else if st.complete then .complete
  else if st.pending.isSome then .pending
  else .ready

/-- The header and the records of the lines. -/
def readLines (plan : Units) : List Text → Except JournalError (JsObject × JournalState)
  | [] => .error .recordCountBound
  | first :: lines =>
      match decodeRecord doubles first with
      | .error e => .error e
      | .ok header =>
          match checkHeader plan header with
          | .error e => .error e
          | .ok () =>
              match lines.foldlM (readRow doubles sha)
                  { previousSha256 := sha.hash (encodeUtf8 (first ++ ['\n'])) } with
              | .error e => .error e
              | .ok st => .ok (header, st)

/-- `parseGlobalMutationJournal`. -/
def parseGlobalMutationJournal (bytes : Bytes) (plan : Units) : Except JournalError ParsedJournal :=
  if bytes = [] || maxJournalBytes < bytes.length then .error .totalBound
  else if !isDigest plan then .error .planHashRequired
  else
    match splitTorn bytes with
    | none => .error .headerIncomplete
    | some (whole, torn) =>
        match decodeFatal whole with
        | none => .error .encoding
        | some text =>
            let lines := (text.splitOn '\n').dropLast
            if maxJournalLines < lines.length then .error .recordCountBound
            else
              match readLines doubles sha plan lines with
              | .error e => .error e
              | .ok (header, st) => .ok
                  { header
                    records := st.records
                    pending := st.pending
                    lastSha256 := st.previousSha256
                    bytesSha256 := sha.hash bytes
                    tornBytes := torn.length
                    status := statusOf torn st }

/-! ## Writing -/

inductive JournalOutcome where
  | confirmed
  | unknown
deriving DecidableEq

def JournalOutcome.units : JournalOutcome → Units
  | .confirmed => outcomeConfirmed
  | .unknown => outcomeUnknown

/-- What `intent`, `result` and `complete` append. -/
inductive JournalEvent where
  | intent (step : Units) (operation : GlobalJournalOperation) (stateSha256 : Units)
  | result (step : Units) (operation : GlobalJournalOperation) (outcome : JournalOutcome)
      (stateSha256 : Option Units)
  | complete (stateSha256 : Units)
deriving DecidableEq

def stringField (name : Text) (value : Text) : Units × Json :=
  (unitsOf name, .string (unitsOf value))

def unitsField (name : Text) (value : Units) : Units × Json := (unitsOf name, .string value)

/-- The fields of an event, as they are written. -/
def JournalEvent.fields : JournalEvent → JsObject
  | .intent step operation stateSha256 =>
      [stringField "kind".toList "intent".toList, unitsField "step".toList step,
        stringField "operation".toList operation.text,
        unitsField "stateSha256".toList stateSha256]
  | .result step operation outcome stateSha256 =>
      [stringField "kind".toList "result".toList, unitsField "step".toList step,
        stringField "operation".toList operation.text,
        unitsField "outcome".toList outcome.units,
        (unitsOf "stateSha256".toList, stateSha256.elim .null .string)]
  | .complete stateSha256 =>
      [stringField "kind".toList "complete".toList, unitsField "stateSha256".toList stateSha256]

/-- `{ sequence, previousSha256, ...event }`. -/
def recordOf (sequence : Nat) (previousSha256 : Units) (event : JournalEvent) : JsObject :=
  (unitsOf "sequence".toList, .number (.finite sequence)) ::
    unitsField "previousSha256".toList previousSha256 :: event.fields

/-- The header that a new journal begins with. -/
def headerOf (plan runId : Units) : JsObject :=
  [stringField "schema".toList "caveat.global_journal.v1".toList,
    unitsField "planSha256".toList plan, unitsField "runId".toList runId]

/-- A journal's file and its token, with the records whose write was begun. -/
structure JournalFile where
  bytes : Bytes
  failed : Bool := false
  attempted : List JsObject := []

/-- Where an append stops. -/
inductive AppendFault where
  | none
  /-- A check of the guard before the write. -/
  | refused
  /-- The write, after so many bytes. -/
  | torn (written : Nat)
  /-- The flush or the look at the file after it. -/
  | unconfirmed
  /-- The read with which the append ends. -/
  | unread
deriving DecidableEq

inductive AppendError where
  | parse (e : JournalError)
  | failedToken
  | recordBound
  | system
deriving DecidableEq

/--
`appendJournal` of the guard, and the read after it, which parses the bytes that were checked
before the write.
-/
def writeRecord (f : JournalFile) (record : Bytes) (next : ParsedJournal) (fault : AppendFault) :
    Except AppendError ParsedJournal × JournalFile :=
  if maxRecordBytes + 1 < record.length || maxJournalBytes < f.bytes.length + record.length then
    (.error .recordBound, f)
  else
    let whole : JournalFile := { bytes := f.bytes ++ record, attempted := next.records }
    match fault with
    | .refused => (.error .system, f)
    | .torn written =>
        (.error .system, { whole with bytes := f.bytes ++ record.take written, failed := true })
    | .unconfirmed => (.error .system, { whole with failed := true })
    | .unread => (.error .system, whole)
    | .none => (.ok next, whole)

/-- `append`. -/
def appendEvent (plan : Units) (f : JournalFile) (event : JournalEvent) (fault : AppendFault) :
    Except AppendError ParsedJournal × JournalFile :=
  if f.failed then (.error .failedToken, f)
  else
    match parseGlobalMutationJournal doubles sha f.bytes plan with
    | .error e => (.error (.parse e), f)
    | .ok current =>
        let record := line doubles (recordOf current.nextSequence current.lastSha256 event)
        match parseGlobalMutationJournal doubles sha (f.bytes ++ record) plan with
        | .error e => (.error (.parse e), f)
        | .ok next => writeRecord f record next fault

/--
What `createGlobalMutationJournal` leaves, where the plan's hash and the guard's bound on a header
admit it: the journal, or a part of the header.
-/
inductive JournalStart (plan : Units) : JournalFile → Prop where
  | created {runId : Units} : isDigest plan = true → isRunId runId = true →
      (line doubles (headerOf plan runId)).length ≤ maxRecordBytes + 1 →
      JournalStart plan { bytes := line doubles (headerOf plan runId) }
  | failed {runId : Units} (written : Nat) : isDigest plan = true → isRunId runId = true →
      (line doubles (headerOf plan runId)).length ≤ maxRecordBytes + 1 →
      JournalStart plan
        { bytes := (line doubles (headerOf plan runId)).take written, failed := true }

def journalStep (plan : Units) (f : JournalFile) (a : JournalEvent × AppendFault) :
    Option JournalFile :=
  some (appendEvent doubles sha plan f a.1 a.2).2

end Parsing

end Caveat.Managed
