import Caveat.Entry.Sections
import Caveat.Hooks.Transcript
import Mathlib.Data.List.Count

/-!
# What a trial printed

A trial runs a command line agent that reports, one JSON object on a line, what it does. Both
protocols are read in a single pass over the events, with flags for what was seen: a tool used, an
event that may not be there. The flags are never taken back, so a trial counts as completed only
where every event was one that a trial without tools may print.
-/

namespace Caveat.Proposal

open Js
open Hooks (units textOf?)
open Entry (splitLines)

inductive ExecutionStatus where
  | completed
  | protocolError
  | toolAttempted
deriving DecidableEq

inductive ModelProvenance where
  | providerReported
  | requestedOnly
deriving DecidableEq

/-- `ParsedProposalExecutionOutput`. -/
structure ParsedOutput where
  status : ExecutionStatus
  providerRunId : Option Units
  reportedModel : Option Units
  modelProvenance : ModelProvenance
  output : Option Units
deriving DecidableEq

/-- `protocolError()`. -/
def protocolError : ParsedOutput := ⟨.protocolError, none, none, .requestedOnly, none⟩

/-! ## Records -/

/-- `record(value)`: an object that is no array. -/
def recordOf? : Option Json → Option Json
  | some (.object members) => some (.object members)
  | _ => none

/-- A property that is a string. -/
def textAt (value : Json) (key : String) : Option Units := textOf? (value.member? key.toList)

/-- A property that is a string, and not an empty one. -/
def filledAt (value : Json) (key : String) : Option Units := (textAt value key).filter (· ≠ [])

/-- A property that is a plain object. -/
def recordAt (value : Json) (key : String) : Option Json := recordOf? (value.member? key.toList)

/-- A property that is an array. -/
def itemsAt (value : Json) (key : String) : Option (List Json) :=
  match value.member? key.toList with
  | some (.array items) => some items
  | _ => none

/-- `value.type`, where it is a string. -/
def typeOf (value : Json) : Option Units := textAt value "type"

def isType (value : Json) (type : String) : Bool := typeOf value = some (units type)

variable (round : Rat → JsNumber)

/-- The lines of an output, without the empty one behind the last line break. -/
def protocolTexts (source : Text) : List Text :=
  let lines := splitLines source
  if lines.getLast? = some [] then lines.dropLast else lines

/-- One line; `none` where it is blank, no JSON or no object. -/
def protocolRecord (line : Text) : Option Json :=
  if (trim line).isEmpty then none else recordOf? (parseJson round line)

/-- `protocolLines`; `none` where it throws. -/
def protocolLines (source : Text) : Option (List Json) :=
  if protocolTexts source = [] then none else (protocolTexts source).mapM (protocolRecord round)

/-! ## Codex -/

def toolTypes : List Units :=
  [units "command_execution", units "file_change", units "mcp_tool_call",
    units "collab_tool_call", units "web_search"]

def passiveTypes : List Units := [units "agent_message", units "reasoning", units "todo_list"]

/-- The variables of the pass. -/
structure CodexScan where
  providerRunId : Option Units := none
  turnStarted : Nat := 0
  turnCompleted : Nat := 0
  toolAttempted : Bool := false
  invalid : Bool := false
  output : Option Units := none

/-- An event that tells of an item. -/
def CodexScan.item (s : CodexScan) (event : Json) : CodexScan :=
  match recordAt event "item" with
  | none => { s with invalid := true }
  | some item =>
      match typeOf item with
      | none => { s with invalid := true }
      | some itemType =>
          if itemType ∈ toolTypes then { s with toolAttempted := true }
          else if itemType = units "error" ∨ itemType ∉ passiveTypes then { s with invalid := true }
          else if isType event "item.completed" ∧ itemType = units "agent_message" then
            match filledAt item "text" with
            | none => { s with invalid := true }
            | some text => { s with output := some text }
          else s

/-- The body of the loop. -/
def CodexScan.next (s : CodexScan) (event : Json) (index : Nat) : CodexScan :=
  if isType event "thread.started" then
    match filledAt event "thread_id" with
    | none => { s with invalid := true }
    | some id =>
        if index ≠ 0 ∨ s.providerRunId ≠ none then { s with invalid := true }
        else { s with providerRunId := some id }
  else if s.providerRunId = none ∨ 0 < s.turnCompleted then { s with invalid := true }
  else if isType event "turn.started" then { s with turnStarted := s.turnStarted + 1 }
  else if isType event "turn.completed" then { s with turnCompleted := s.turnCompleted + 1 }
  else if isType event "turn.failed" ∨ isType event "error" then { s with invalid := true }
  else if ¬ (isType event "item.started" ∨ isType event "item.updated" ∨
      isType event "item.completed") then { s with invalid := true }
  else s.item event

def codexScan (events : List Json) : CodexScan :=
  events.zipIdx.foldl (fun s e => s.next e.1 e.2) {}

/-- What is made of the variables after the pass. -/
def CodexScan.finish (s : CodexScan) : ParsedOutput :=
  if s.toolAttempted then ⟨.toolAttempted, s.providerRunId, none, .requestedOnly, none⟩
  else if s.invalid ∨ s.providerRunId = none ∨ s.turnStarted ≠ 1 ∨ s.turnCompleted ≠ 1 ∨
      s.output = none then protocolError
  else ⟨.completed, s.providerRunId, none, .requestedOnly, s.output⟩

/-- `parseCodexProposalExecutionJsonl`. -/
def parseCodexProposalExecutionJsonl (source : Text) : ParsedOutput :=
  match protocolLines round source with
  | none => protocolError
  | some events => (codexScan events).finish

/-! ## Claude -/

structure ClaudeScan where
  providerRunId : Option Units := none
  initModel : Option Units := none
  terminalResult : Option Json := none
  resultSeen : Bool := false
  toolAttempted : Bool := false
  invalid : Bool := false
  assistantModels : List Units := []

/-- A number that counts tokens: a safe integer that is not negative. -/
def isTokenCount : Option Json → Bool
  | some (.number (.finite q)) => q.den = 1 ∧ 0 ≤ q.num ∧ q.num ≤ 9007199254740991
  | _ => false

/-- A block of a message. -/
def ClaudeScan.block (s : ClaudeScan) (block : Json) : ClaudeScan :=
  match (recordOf? (some block)).bind typeOf with
  | none => { s with invalid := true }
  | some type =>
      if type = units "tool_use" ∨ type = units "server_tool_use" then { s with toolAttempted := true }
      else if type ∉ [units "text", units "thinking", units "redacted_thinking"] then
        { s with invalid := true }
      else s

/-- `assistantModels.add(model)`. -/
def ClaudeScan.addModel (s : ClaudeScan) (model : Units) : ClaudeScan :=
  if model ∈ s.assistantModels then s
  else { s with assistantModels := s.assistantModels ++ [model] }

def ClaudeScan.assistant (s : ClaudeScan) (event : Json) : ClaudeScan :=
  match recordAt event "message" with
  | none => { s with invalid := true }
  | some message =>
      match textAt message "model", itemsAt message "content" with
      | some model, some content => content.foldl ClaudeScan.block (s.addModel model)
      | _, _ => { s with invalid := true }

def isInit (event : Json) : Bool :=
  isType event "system" && textAt event "subtype" = some (units "init")

def isThinking (event : Json) : Bool :=
  isType event "system" && textAt event "subtype" = some (units "thinking_tokens")

/-- The body of the loop, behind the check of the session. -/
def ClaudeScan.dispatch (s : ClaudeScan) (event : Json) (index : Nat) : ClaudeScan :=
  if isInit event then
    match filledAt event "model" with
    | none => { s with invalid := true }
    | some model =>
        if index ≠ 0 ∨ s.initModel ≠ none then { s with invalid := true }
        else { s with initModel := some model }
  else if isThinking event then
    if s.initModel = none ∨ s.resultSeen ∨
        ¬ isTokenCount (event.member? "estimated_tokens".toList) ∨
        ¬ isTokenCount (event.member? "estimated_tokens_delta".toList) then { s with invalid := true }
    else s
  else if s.initModel = none ∨ s.resultSeen then { s with invalid := true }
  else if isType event "assistant" then s.assistant event
  else if isType event "rate_limit_event" then
    if recordAt event "rate_limit_info" = none then { s with invalid := true } else s
  else if isType event "result" then { s with terminalResult := some event, resultSeen := true }
  else { s with invalid := true }

/-- The body of the loop. -/
def ClaudeScan.next (s : ClaudeScan) (event : Json) (index : Nat) : ClaudeScan :=
  match filledAt event "session_id" with
  | none => { s with invalid := true }
  | some id =>
      if s.providerRunId ≠ none ∧ s.providerRunId ≠ some id then { s with invalid := true }
      else { s with providerRunId := some id }.dispatch event index

def claudeScan (events : List Json) : ClaudeScan :=
  events.zipIdx.foldl (fun s e => s.next e.1 e.2) {}

/-- `Object.keys(value).includes(key)`. -/
def hasKey (value : Json) (key : Units) : Bool :=
  match value with
  | .object members => members.any (fun m => m.1 = key)
  | _ => false

/-- What the last event says, where it may be the result of a completed trial. -/
def successText (result : Json) (expectedModel : Units) : Option Units :=
  if textAt result "subtype" = some (units "success") then
    match result.member? "is_error".toList, filledAt result "result", recordAt result "modelUsage" with
    | some (.bool false), some text, some usage => if hasKey usage expectedModel then some text else none
    | _, _, _ => none
  else none

/-- `permission_denials` is an array with an item. -/
def denied (result : Json) : Bool :=
  match itemsAt result "permission_denials" with
  | some (_ :: _) => true
  | _ => false

/-- What is made of the variables after the pass. -/
def ClaudeScan.finish (s : ClaudeScan) (expectedModel : Units) : ParsedOutput :=
  match s.terminalResult with
  | none => protocolError
  | some result =>
      if s.toolAttempted ∨ denied result then
        ⟨.toolAttempted, s.providerRunId, none, .requestedOnly, none⟩
      else if s.invalid ∨ s.providerRunId = none ∨ s.initModel = none then protocolError
      else
        match successText result expectedModel with
        | none => protocolError
        | some text =>
            if s.assistantModels.length ≠ 1 ∨ expectedModel ∉ s.assistantModels ∨
                s.initModel ≠ some expectedModel then protocolError
            else ⟨.completed, s.providerRunId, some expectedModel, .providerReported, some text⟩

/-- `parseClaudeProposalExecutionJsonl`. -/
def parseClaudeProposalExecutionJsonl (source : Text) (expectedModel : Units) : ParsedOutput :=
  match protocolLines round source with
  | none => protocolError
  | some events => (claudeScan events).finish expectedModel

end Caveat.Proposal
