import Caveat.Hooks.PromptTokens
import Caveat.Install.ConfigValue
import Caveat.Install.Shared
import Caveat.Lib.Loop

/-!
# Commands of hooks

The command that an agent runs for an event of Caveat's, how an installer recognises one that is
there already, and the detectors that a diagnosis relies on. What the file system says of an asset
is given.
-/

namespace Caveat.Install

open Js
open Publish (isSpaceUnit)
open Hooks (units includes lowerUnit)

/-- The event as the hook is told of it. -/
inductive HookEvent where
  | userPromptSubmit
  | postToolUse
  | stop
deriving DecidableEq

def HookEvent.name : HookEvent → Units
  | .userPromptSubmit => units "user-prompt-submit"
  | .postToolUse => units "post-tool-use"
  | .stop => units "stop"

structure HookPaths where
  nodePath : Units
  cliScriptPath : Units

/-! ## Tokens -/

/-- What `commandTokens` is in the middle of. -/
inductive TokenState where
  | gap
  | word (read : Units)
  | quoted (read : Units)

/-- `commandTokens` from a place on: what is no token must be white space. -/
def tokensFrom : TokenState → Units → Option (List Units)
  | .gap, [] => some []
  | .word read, [] => some [read]
  | .quoted _, [] => none
  | .gap, u :: s =>
      if isSpaceUnit u then tokensFrom .gap s
      else if u = quoteMark then tokensFrom (.quoted []) s
      else tokensFrom (.word [u]) s
  | .word read, u :: s =>
      if isSpaceUnit u then (tokensFrom .gap s).map (read :: ·)
      else if u = quoteMark then (tokensFrom (.quoted []) s).map (read :: ·)
      else tokensFrom (.word (read ++ [u])) s
  | .quoted read, u :: s =>
      if u = quoteMark then (tokensFrom .gap s).map (read :: ·)
      else tokensFrom (.quoted (read ++ [u])) s

def commandTokens (command : Units) : Option (List Units) := tokensFrom .gap command

/-- `commandTokens`, less the call operator of PowerShell. -/
def normalizedTokens (command : Units) : Option (List Units) :=
  (commandTokens command).map fun tokens =>
    if tokens.head? = some (units "&") then tokens.tail else tokens

/-- `left` and `right` are both there and the same. -/
def sameTokens (left right : Option (List Units)) : Bool := left.isSome && left = right

/-! ## Commands -/

def powershellCallPrefix (windows : Bool) : Units := if windows then units "& " else []

/-- `${quoteCommandPath(nodePath)} ${quoteCommandPath(cliScriptPath)} ${verb} ${event}` -/
def pathCommand (verb : Units) (paths : HookPaths) (event : HookEvent) : Units :=
  quoteCommandPath paths.nodePath ++ (units " " ++ (quoteCommandPath paths.cliScriptPath ++
    (units " " ++ (verb ++ (units " " ++ event.name)))))

/-- `lower.includes('caveat') && actual.includes(…)`. No other character than a capital letter of
ASCII is lowered to one of these. -/
def mentionsCaveat (verb : Units) (actual : Units) (event : HookEvent) : Bool :=
  includes (units "caveat") (actual.map lowerUnit) &&
    includes (verb ++ (units " " ++ event.name)) actual

namespace Claude

def hookCommand (paths : HookPaths) (event : HookEvent) : Units :=
  pathCommand (units "hook") paths event

/-- The command itself, or behind what sets its environment. -/
def isSameHookCommand (actual expected : Units) : Bool :=
  actual = expected || (units " " ++ expected).isSuffixOf actual

def isCaveatClaudeHookCommand (actual : Units) (event : HookEvent) : Bool :=
  mentionsCaveat (units "hook") actual event

end Claude

namespace Codex

def hookCommand (windows : Bool) (paths : HookPaths) (event : HookEvent) : Units :=
  powershellCallPrefix windows ++ pathCommand (units "codex-hook") paths event

def isSameHookCommand (actual expected : Units) : Bool :=
  sameTokens (normalizedTokens actual) (normalizedTokens expected)

def isCaveatCodexHookCommand (actual : Units) (event : HookEvent) : Bool :=
  mentionsCaveat (units "codex-hook") actual event

end Codex

namespace Cursor

def hookCommand (paths : HookPaths) (event : HookEvent) : Units :=
  pathCommand (units "cursor-hook") paths event

def isSameCommand (actual expected : Units) : Bool :=
  sameTokens (commandTokens actual) (commandTokens expected)

def isCaveatCursorHookCommand (actual : Units) (event : HookEvent) : Bool :=
  mentionsCaveat (units "cursor-hook") actual event

end Cursor

/-! ## Settings -/

/-- What JSON has beside `null`, strings, arrays and objects. -/
inductive Scalar where
  | bool (b : Bool)
  | number (n : JsNumber)
deriving DecidableEq

/-- Settings as they are read. -/
abbrev Settings := Data Scalar

/-- `value.key`, for any value but `null`. -/
def Data.prop {σ : Type} (value : Data σ) (key : Units) : Option (Data σ) :=
  match value with
  | .object members => own members key
  | _ => none

def truthy : Settings → Bool
  | .null => false
  | .string s => s ≠ []
  | .scalar (.bool b) => b
  | .scalar (.number n) => n ≠ .nan && n ≠ .finite 0
  | .array _ => true
  | .object _ => true

inductive HookError where
  | typeError
  /-- `… は object である必要があります` -/
  | fileInvalid
  /-- `… の hooks は object である必要があります` -/
  | hooksInvalid
deriving DecidableEq

def hooksKey : Units := units "hooks"
def commandKey : Units := units "command"

/-- A string where a command is asked for. -/
def commandOf (hook : Settings) : Option Units :=
  match hook.prop commandKey with
  | some (.string s) => some s
  | _ => none

end Caveat.Install
