import Caveat.Hooks.Transcript

/-!
# The signals of a Claude transcript

A record of the assistant or of the user holds the uses and the results of tools. What a record lacks,
or has with another type, is passed over.
-/

namespace Caveat.Hooks

open Js

variable (host : TranscriptHost)

/-- The text parts of a result, joined with a blank. -/
def extractResultText (content : Option Json) : Units :=
  match content with
  | some (.string s) => s
  | some (.array items) => (units " ").intercalate (items.filterMap (fun
      | .object members => textOf? ((Json.object members).member? "text".toList)
      | _ => none))
  | _ => []

/-- A use of a tool. -/
def toolUse (s : SignalScan) (item : Json) : SignalScan :=
  let name := item.member? "name".toList
  let input := recordOr (item.member? "input".toList)
  if isText name "Edit" || isText name "Write" || isText name "NotebookEdit" then
    s.addEditPath (textOr (input.member? "file_path".toList))
  else if isText name "WebSearch" then
    let s := { s with webSearchCount := s.webSearchCount + 1 }
    match textOf? (input.member? "query".toList) with
    | some query => s.addQuery query
    | none => s
  else if isText name "WebFetch" then { s with webFetchCount := s.webFetchCount + 1 }
  else if isText name "Bash" then s.countBash (textOr (input.member? "command".toList))
  else s

/-- The result of a tool. -/
def toolResult (s : SignalScan) (item : Json) : SignalScan :=
  match item.member? "is_error".toList with
  | some (.bool true) => s.addFailure (extractResultText (item.member? "content".toList))
  | _ => s

/-- The body of the loop over the content of a record. -/
def contentItem (s : SignalScan) (item : Json) : SignalScan :=
  match item with
  | .object members =>
      let type := (Json.object members).member? "type".toList
      if isText type "tool_use" then toolUse s (.object members)
      else if isText type "tool_result" then toolResult s (.object members)
      else s
  | _ => s

/-- `parsed.message?.content`, if it is an array. -/
def messageContent (message : Option Json) : List Json :=
  match message.bind (fun m => m.member? "content".toList) with
  | some (.array items) => items
  | _ => []

/-- The body of the loop over the lines of a Claude transcript. -/
def claudeRecord (s : SignalScan) (parsed : Json) : Except ScriptError SignalScan := do
  let s := s.stamp (parseTimestamp host (← property parsed "timestamp".toList))
  let type ← property parsed "type".toList
  if !isText type "assistant" && !isText type "user" then return s
  let message ← property parsed "message".toList
  return (messageContent message).foldl contentItem s

/-- `readSessionSignals` of a file, or of none that can be read. -/
def readSessionSignals (file : Option Bytes) : Except ScriptError (Option TranscriptSignals) :=
  match file with
  | none => .ok none
  | some bytes => do
      let s ← readLines host.round (claudeRecord host) {} (decodeUtf8 bytes)
      return some (s.signals host)

theorem claudeRecord_of_ne_null (s : SignalScan) {v : Json} (h : v ≠ .null) :
    claudeRecord host s v =
      let s := s.stamp (parseTimestamp host (v.member? "timestamp".toList))
      let type := v.member? "type".toList
      if !isText type "assistant" && !isText type "user" then .ok s
      else .ok ((messageContent (v.member? "message".toList)).foldl contentItem s) := by
  simp only [claudeRecord, property_of_ne_null h]
  rfl

theorem claudeRecord_reads : ReadsRecords (claudeRecord host) where
  record s members := by
    rw [claudeRecord_of_ne_null host s (by simp)]
    dsimp only
    split
    · exact ⟨_, rfl⟩
    · exact ⟨_, rfl⟩
  other s v hnull hobject := by
    simp only [claudeRecord_of_ne_null host s hnull, member?_of_not_object hobject]
    rfl
  null s := ⟨_, rfl⟩

end Caveat.Hooks
