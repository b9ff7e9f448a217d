import Caveat.Hooks.Transcript

/-!
# The signals of a Codex transcript

A record holds a call of a function, a search, the output of a call or the end of a command. A call
that fails may be told of by its output and by the end of its command, and counts once.
-/

namespace Caveat.Hooks

open Js
open Publish (isSpaceUnit isDigitUnit)

variable (host : TranscriptHost)

/-! ## Arguments -/

/--
The text of a string in which lone surrogates may stand: they are escaped, which says the same in a
JSON string and is as wrong as they are elsewhere. Behind a backslash there is no text that says it.
-/
def jsonText : Bool → List CodePoint → Option Text
  | _, [] => some []
  | true, .lone _ :: _ => none
  | false, .lone u :: ps => (jsonText false ps).map (unicodeEscape u.toNat ++ ·)
  | escaping, .char c :: ps => (jsonText (c = '\\' && !escaping) ps).map (c :: ·)

/-- `JSON.parse` of a string. -/
def parseUnits (raw : Units) : Option Json :=
  (jsonText false (codePoints raw)).bind (parseJson host.round)

def parseArgs (raw : Option Json) : Json :=
  match raw with
  | some (.object members) => .object members
  | some (.string s) => if s = [] then .object [] else recordOr (parseUnits host s)
  | _ => .object []

/-- The text behind another one. -/
def dropStart? (start s : Units) : Option Units :=
  if start.isPrefixOf s then some (s.drop start.length) else none

/-- `-?\d+` at the start, by its value. -/
def signedNumber (s : Units) : Option Int :=
  let (negative, s) := match dropStart? (units "-") s with
    | some s => (true, s)
    | none => (false, s)
  let digits := s.takeWhile isDigitUnit
  let n := Nat.ofDigitChars 10 (digits.map (fun u => Char.ofNat u.toNat)) 0
  if digits = [] then none else some (if negative then -(n : Int) else n)

/-- `/Process exited with code\s+(-?\d+)/` at the start. -/
def exitCodeAt (s : Units) : Option Int :=
  match dropStart? (units "Process exited with code") s with
  | some rest => if rest.head?.any isSpaceUnit then signedNumber (rest.dropWhile isSpaceUnit) else none
  | none => none

/-- `extractExitCode`: the number of the first match, of which only its being zero is asked. -/
def extractExitCode (output : Units) : Option Int := output.tails.findSome? exitCodeAt

/-- `extractCommand`, with the empty text for none. -/
def extractCommand (name : Units) (args : Json) : Units :=
  if name = units "exec_command" ∨ name = units "Bash" then
    textOr (nullish (args.member? "cmd".toList) (args.member? "command".toList))
  else []

/-- A path in a line of a patch. -/
def patchPath (line : Units) : Option Units :=
  match ([units "Add", units "Update", units "Delete"].findSome? (fun verb =>
      dropStart? (units "*** " ++ verb ++ units " File: ") line)) with
  | some path =>
      if path ≠ [] ∧ !path.any (fun u => isLineTerminator (Char.ofNat u.toNat)) then some path
      else none
  | none => none

def collectPatchPaths (patch : Units) : List Units :=
  (patch.splitOn (unitOf '\n')).filterMap patchPath

def collectSearchQueries (args : Json) : List Units :=
  let rawSearch := match args.member? "search_query".toList with
    | some (.array items) => items.filterMap (fun
        | .object members => textOf? ((Json.object members).member? "q".toList)
        | _ => none)
    | _ => []
  rawSearch ++ (textOf? (args.member? "query".toList)).toList ++
    (textOf? (args.member? "q".toList)).toList

/-! ## Records -/

structure ToolCallInfo where
  name : Units
  args : Json
  command : Units

structure CodexScan extends SignalScan where
  toolCalls : List (Units × ToolCallInfo) := []
  failedCallIds : List Units := []

namespace CodexScan

def stamped (s : CodexScan) (ts : Option Int) : CodexScan :=
  { s with toSignalScan := s.toSignalScan.stamp ts }

/-- The length of an array. -/
def arrayLength : Option Json → Nat
  | some (.array items) => items.length
  | _ => 0

/-- What a call of a function adds to the signals. -/
def callSignals (s : SignalScan) (name : Units) (args : Json) : SignalScan :=
  if name = units "apply_patch" then
    (collectPatchPaths (textOr (args.member? "patch".toList))).foldl SignalScan.addEditPath s
  else if name = units "edit" ∨ name = units "write" ∨ name = units "notebook_edit" then
    s.addEditPath (textOr (nullish (args.member? "path".toList) (args.member? "file_path".toList)))
  else if name = units "web.run" then
    let queries := collectSearchQueries args
    let s := queries.foldl SignalScan.addQuery
      { s with webSearchCount := s.webSearchCount + queries.length }
    { s with webFetchCount := s.webFetchCount + arrayLength (args.member? "open".toList) }
  else s

/-- `function_call`. -/
def functionCall (s : CodexScan) (payload : Json) : CodexScan :=
  let name := textOr (payload.member? "name".toList)
  let args := parseArgs host (payload.member? "arguments".toList)
  let callId := textOr (payload.member? "call_id".toList)
  let command := extractCommand name args
  { s with
    toSignalScan := callSignals (s.toSignalScan.countBash command) name args
    toolCalls :=
      if callId ≠ [] ∧ name ≠ [] then define s.toolCalls (callId, { name, args, command })
      else s.toolCalls }

/-- `web_search_call`. -/
def webSearchCall (s : CodexScan) (payload : Json) : CodexScan :=
  let signals := { s.toSignalScan with webSearchCount := s.webSearchCount + 1 }
  { s with
    toSignalScan := match textOf? (payload.member? "query".toList) with
      | some query => signals.addQuery query
      | none => signals }

/-- `function_call_output`. -/
def functionCallOutput (s : CodexScan) (payload : Json) : CodexScan :=
  let callId := textOr (payload.member? "call_id".toList)
  let output := textOr (payload.member? "output".toList)
  let exit := extractExitCode output
  if callId ≠ [] ∧ exit.any (· ≠ 0) ∧ callId ∉ s.failedCallIds then
    { s with
      toSignalScan := s.toSignalScan.addFailure output
      failedCallIds := s.failedCallIds ++ [callId] }
  else s

/-- `typeof payload.exit_code === 'number' ? payload.exit_code : null`. -/
def exitNumber (payload : Json) : Option JsNumber :=
  match payload.member? "exit_code".toList with
  | some (.number n) => some n
  | _ => none

/-- `exec_command_end`. -/
def execCommandEnd (s : CodexScan) (payload : Json) : CodexScan :=
  let exit := exitNumber payload
  let callId := textOr (payload.member? "call_id".toList)
  if exit.any (· ≠ .finite 0) ∧ (callId = [] ∨ callId ∉ s.failedCallIds) then
    { s with
      toSignalScan := s.toSignalScan.addFailure (textOr (payload.member? "output".toList))
      failedCallIds := if callId = [] then s.failedCallIds else s.failedCallIds ++ [callId] }
  else s

/-- A record with its payload. -/
def payload (s : CodexScan) (type : Option Json) (payload : Json) : CodexScan :=
  let kind := payload.member? "type".toList
  if isText type "response_item" && isText kind "function_call" then s.functionCall host payload
  else if isText type "response_item" && isText kind "web_search_call" then s.webSearchCall payload
  else if isText type "response_item" && isText kind "function_call_output" then
    s.functionCallOutput payload
  else if isText type "event_msg" && isText kind "exec_command_end" then s.execCommandEnd payload
  else s

/-- The commands of the calls count at least once. -/
def bashSeen (s : CodexScan) : SignalScan :=
  s.toolCalls.foldl (fun acc call =>
    if call.2.command = [] ∨ acc.bashCounts.any (fun e => e.1 = call.2.command) then acc
    else { acc with bashCounts := define acc.bashCounts (call.2.command, 1) }) s.toSignalScan

end CodexScan

/-- The body of the loop over the lines of a Codex transcript. -/
def codexRecord (s : CodexScan) (parsed : Json) : Except ScriptError CodexScan := do
  let s := s.stamped (parseTimestamp host (← property parsed "timestamp".toList))
  match ← property parsed "payload".toList with
  | some (.object members) => return s.payload host (← property parsed "type".toList) (.object members)
  | _ => return s

/-- `readCodexSessionSignals` of a file, or of none that can be read. -/
def readCodexSessionSignals (file : Option Bytes) :
    Except ScriptError (Option TranscriptSignals) :=
  match file with
  | none => .ok none
  | some bytes => do
      let s ← readLines host.round (codexRecord host) {} (decodeUtf8 bytes)
      return some (s.bashSeen.signals host)

/-- What the record of a value other than `null` does. -/
def CodexScan.next (s : CodexScan) (v : Json) : CodexScan :=
  let s := s.stamped (parseTimestamp host (v.member? "timestamp".toList))
  match v.member? "payload".toList with
  | some (.object members) => s.payload host (v.member? "type".toList) (.object members)
  | _ => s

theorem CodexScan.next_of_record (s : CodexScan) {v : Json} {members : List (Units × Json)}
    (h : v.member? "payload".toList = some (.object members)) :
    s.next host v = (s.stamped (parseTimestamp host (v.member? "timestamp".toList))).payload host
      (v.member? "type".toList) (.object members) := by
  simp only [CodexScan.next, h]

theorem CodexScan.next_of_no_record (s : CodexScan) {v : Json}
    (h : ∀ members, v.member? "payload".toList ≠ some (.object members)) :
    s.next host v = s.stamped (parseTimestamp host (v.member? "timestamp".toList)) := by
  rw [CodexScan.next]
  split
  · rename_i members heq
    exact absurd heq (h members)
  · rfl

theorem codexRecord_of_ne_null (s : CodexScan) {v : Json} (h : v ≠ .null) :
    codexRecord host s v = .ok (s.next host v) := by
  simp only [codexRecord, property_of_ne_null h, CodexScan.next]
  cases v.member? "payload".toList with
  | none => rfl
  | some p => cases p <;> rfl

theorem codexRecord_reads : ReadsRecords (codexRecord host) where
  record s members := ⟨_, codexRecord_of_ne_null host s (by simp)⟩
  other s v hnull hobject := by
    simp only [codexRecord_of_ne_null host s hnull, CodexScan.next, member?_of_not_object hobject]
    rfl
  null s := ⟨_, rfl⟩

end Caveat.Hooks
