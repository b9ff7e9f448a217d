import Caveat.Install.HookRemoval
import Caveat.Lib.Regex
import Caveat.Lib.Scan

/-!
# Installing hooks

For each event an installer looks for a hook of Caveat's that is there. The first one that is
recognised is left or renewed; else a new one is appended. The detectors of a diagnosis say whether
a hook is one that an installer makes.
-/

namespace Caveat.Install

open Js
open Lib (Re Scan)
open Publish (isSpaceUnit isDigitUnit)
open Hooks (units includes inUnits)

/-! ## Assignment -/

/-- `settings.hooks ??= {}` -/
def hooksOrEmpty (settings : Settings) : Settings :=
  match settings.prop hooksKey with
  | none | some .null => .object []
  | some hooks => hooks

/-- `settings.hooks[event] = list`, where the hooks may be missing. -/
def assignEvent (settings : Settings) (event : Units) (list : List Settings) : Settings :=
  settings.setProp hooksKey ((hooksOrEmpty settings).setProp event (.array list))

/-- Assignment to a property of what is no object: an array takes it, but it is not written. -/
def assignNowhere : Settings → Settings → Except HookError (Option Settings)
  | settings, .array _ => .ok (some settings)
  | _, _ => .error .typeError

/-- `settings.hooks[event] ??= []`, and what is to become of the list. -/
def upsertEvent (upsert : List Settings → Except HookError (Option (List Settings)))
    (event : Units) (settings : Settings) : Except HookError (Option Settings) :=
  match settings with
  | .object _ =>
      match hooksOrEmpty settings with
      | .object events =>
          match own events event with
          | none | some .null => (upsert []).map (Option.map (assignEvent settings event))
          | some (.array list) => (upsert list).map (Option.map (assignEvent settings event))
          | some _ => .error .typeError
      | hooks => assignNowhere settings hooks
  | settings => assignNowhere settings settings

/-! ## Entries with hooks of their own -/

/-- The loop over `entry.hooks ?? []`. A string is one over characters, which have no command. -/
def scanEntry (scanHook : Settings → Except HookError (Scan Settings)) (entry : Settings) :
    Except HookError (Scan Settings) :=
  match entry with
  | .null => .error .typeError
  | _ =>
      match entry.prop hooksKey with
      | none | some .null => .ok .absent
      | some (.array hooks) =>
          (Lib.scanList scanHook hooks).map
            (Scan.map fun hooks => entry.setProp hooksKey (.array hooks))
      | some (.string s) => if s = [] then .ok .absent else .error .typeError
      | some _ => .error .typeError

/-- `upsertHook` of Claude and Codex. -/
def upsertEntries (scanHook : Settings → Except HookError (Scan Settings)) (fresh : Settings)
    (event : Units) (settings : Settings) : Except HookError (Option Settings) :=
  upsertEvent (Lib.upsertList (scanEntry scanHook) (.object [(hooksKey, .array [fresh])])) event
    settings

def typeKey : Units := units "type"
def timeoutKey : Units := units "timeout"
def timeoutSecKey : Units := units "timeoutSec"
def asyncKey : Units := units "async"
def statusMessageKey : Units := units "statusMessage"

def commandType : Settings := .string (units "command")

/-- `value === expected`, where a primitive value is expected. -/
def isPrimitive : Option Settings → Settings → Bool
  | some .null, .null => true
  | some (.string s), .string t => s = t
  | some (.scalar a), .scalar b => a = b
  | _, _ => false

namespace Claude

/-- `[A-Z_][A-Z0-9_]*=` -/
def assignmentName : Re UInt16 :=
  let first (u : UInt16) : Bool := inUnits 0x41 0x5a u || u = unitOf '_'
  .seq (.one first) (.seq (.rep (.one fun u => first u || isDigitUnit u) 0 none)
    (.one fun u => u = unitOf '='))

/-- What stands between two quotation marks, and the marks. -/
def quotedBy (mark : UInt16) : Re UInt16 :=
  .seq (.one fun u => u = mark) (.seq (.rep (.one fun u => u ≠ mark) 0 none)
    (.one fun u => u = mark))

/-- `(?:[A-Z_][A-Z0-9_]*=(?:"[^"]*"|'[^']*'|\S+)\s+)+` -/
def envPrefixPattern : Re UInt16 :=
  .rep (.seq assignmentName (.seq
    (.alt (quotedBy quoteMark) (.alt (quotedBy 0x27) (.rep (.one fun u => !isSpaceUnit u) 1 none)))
    (.rep (.one isSpaceUnit) 1 none))) 1 none

/-- What sets the environment before a command. -/
def envPrefix (command : Units) : Units :=
  match (envPrefixPattern.run ⟨none, command⟩).head? with
  | some place => command.take (command.length - place.rest.length)
  | none => []

/-- The event that a command is read to be for. -/
def subcommandOf (command : Units) : Option HookEvent :=
  if includes (units "hook user-prompt-submit") command then some .userPromptSubmit
  else if includes (units "hook post-tool-use") command then some .postToolUse
  else if includes (units "hook stop") command then some .stop
  else none

/-- What the loop of `upsertHook` does with a hook. -/
def scanHook (command : Units) (hook : Settings) : Except HookError (Scan Settings) :=
  match commandOf hook with
  | none => .error .typeError
  | some actual =>
      if isSameHookCommand actual command then .ok .settled
      else if (subcommandOf command).any (isCaveatClaudeHookCommand actual) then
        .ok (.renewed (hook.setProp commandKey (.string (envPrefix actual ++ command))))
      else .ok .absent

def freshHook (command : Units) : Settings :=
  .object [(typeKey, commandType), (commandKey, .string command)]

def upsertHook (command : Units) (event : Units) (settings : Settings) :
    Except HookError (Option Settings) :=
  upsertEntries (scanHook command) (freshHook command) event settings

/-- `hooks.find(h => isSameHookCommand(h.command, command))`, its command. -/
def findHook (command : Units) : List Settings → Except HookError (Option Units)
  | [] => .ok none
  | hook :: hooks =>
      match commandOf hook with
      | none => .error .typeError
      | some actual =>
          if isSameHookCommand actual command then .ok (some actual) else findHook command hooks

/-- `entry.hooks?.find(…)` -/
def findInEntry (command : Units) (entry : Settings) : Except HookError (Option Units) :=
  match entry with
  | .null => .error .typeError
  | _ =>
      match entry.prop hooksKey with
      | none | some .null => .ok none
      | some (.array hooks) => findHook command hooks
      | some _ => .error .typeError

/-- The loop of `findExistingHookCommand`. -/
def findInEntries (command : Units) : List Settings → Except HookError (Option Units)
  | [] => .ok none
  | entry :: entries =>
      match findInEntry command entry with
      | .error e => .error e
      | .ok (some actual) => .ok (some actual)
      | .ok none => findInEntries command entries

def findExistingHookCommand (settings : Settings) (event command : Units) :
    Except HookError (Option Units) :=
  match eventValue settings event with
  | .error e => .error e
  | .ok none => .ok none
  | .ok (some list) =>
      if truthy list then
        match list with
        | .array entries => findInEntries command entries
        -- the characters of a string have no hooks
        | .string _ => .ok none
        | _ => .error .typeError
      else .ok none

/-- The command to install: one for the use of tools that is there counts for its failures too. -/
def installCommand (paths : HookPaths) (found : Option Units) : HookEvent → Units
  | .postToolUse => found.getD (hookCommand paths .postToolUse)
  | event => hookCommand paths event

/-- `installClaudeIntegration`, less the server. -/
def installHooks (paths : HookPaths) (settings : Settings) : Except HookError HookRun :=
  match findExistingHookCommand settings (units "PostToolUse") (hookCommand paths .postToolUse) with
  | .error e => .error e
  | .ok found =>
      runEvents (fun e => upsertHook (installCommand paths found e.event) e.key) managedEvents
        settings

end Claude

namespace Codex

def timeout : Settings := .scalar (.number (.finite 5))
def notAsync : Settings := .scalar (.bool false)

/-- The fields of a hook are as they are installed. -/
def isComplete (hook : Settings) : Bool :=
  isPrimitive (hook.prop typeKey) commandType && isPrimitive (hook.prop timeoutKey) timeout &&
    (hook.prop timeoutSecKey).isNone && isPrimitive (hook.prop asyncKey) notAsync &&
    isPrimitive (hook.prop statusMessageKey) .null

/-- A hook as it is rewritten. -/
def renewHook (command : Units) (hook : Settings) : Settings :=
  (((((hook.setProp commandKey (.string command)).setProp typeKey commandType).setProp timeoutKey
    timeout).deleteProp timeoutSecKey).setProp asyncKey notAsync).setProp statusMessageKey .null

/-- What the loop of `upsertHook` does with a hook. -/
def scanHook (command : Units) (subcommand : HookEvent) (hook : Settings) :
    Except HookError (Scan Settings) :=
  match commandOf hook with
  | none => .error .typeError
  | some actual =>
      if isSameHookCommand actual command && isComplete hook then .ok .settled
      else if isSameHookCommand actual command || isCaveatCodexHookCommand actual subcommand then
        .ok (.renewed (renewHook command hook))
      else .ok .absent

def freshHook (command : Units) : Settings :=
  .object [(typeKey, commandType), (commandKey, .string command), (timeoutKey, timeout),
    (asyncKey, notAsync), (statusMessageKey, .null)]

def upsertHook (command : Units) (subcommand : HookEvent) (event : Units) (settings : Settings) :
    Except HookError (Option Settings) :=
  upsertEntries (scanHook command subcommand) (freshHook command) event settings

/-- `installCodexHooks`, where the feature is enabled. -/
def installHooks (windows : Bool) (paths : HookPaths) (settings : Settings) :
    Except HookError HookRun :=
  runEvents (fun e => upsertHook (hookCommand windows paths e.event) e.event e.key) managedEvents
    settings

end Codex

/-! ## Entries that are hooks -/

namespace Cursor

def timeout : Settings := .scalar (.number (.finite 10))

def renewHook (command : Units) (hook : Settings) : Settings :=
  (hook.setProp commandKey (.string command)).setProp timeoutKey timeout

/-- What the loop of `upsertHook` does with an entry. -/
def scanHook (command : Units) (subcommand : HookEvent) (hook : Settings) :
    Except HookError (Scan Settings) :=
  match hook with
  | .null => .error .typeError
  | _ =>
      match commandOf hook with
      | none => .ok .absent
      | some actual =>
          if isSameCommand actual command && isPrimitive (hook.prop timeoutKey) timeout then
            .ok .settled
          else if isSameCommand actual command || isCaveatCursorHookCommand actual subcommand then
            .ok (.renewed (renewHook command hook))
          else .ok .absent

def freshHook (command : Units) : Settings :=
  .object [(commandKey, .string command), (timeoutKey, timeout)]

def upsertHook (command : Units) (subcommand : HookEvent) (event : Units) (file : Settings) :
    Except HookError (Option Settings) :=
  (Lib.upsertList (scanHook command subcommand) (freshHook command) (listFor file event)).map
    (Option.map (assignEvent file event))

/-- `installCursorHooks`. -/
def installHooks (paths : HookPaths) (file : Settings) : Except HookError HookRun :=
  match readHooks file with
  | .error e => .error e
  | .ok read =>
      (runEvents (fun e => upsertHook (hookCommand paths e.event) e.event e.key) managedEvents
        read).map (persist file)

end Cursor

/-! ## Detectors -/

/-- `path.isAbsolute`. -/
def isAbsolute (windows : Bool) (path : Units) : Bool :=
  let separator (u : UInt16) : Bool := u = unitOf '/' || windows && u = unitOf '\\'
  match path with
  | [] => false
  | u :: rest =>
      separator u || windows &&
        match rest with
        | v :: w :: _ =>
            (inUnits 0x41 0x5a u || inUnits 0x61 0x7a u) && v = unitOf ':' && separator w
        | _ => false

inductive AssetMode where
  | executable
  | readable
deriving DecidableEq

/-- What Node says of itself and of the file system. -/
structure AssetFiles where
  execPath : Units
  /-- A file that may be used so, and is the same as the expected one. -/
  same : AssetMode → Units → Units → Bool

def isCanonicalAsset (windows : Bool) (files : AssetFiles) (mode : AssetMode)
    (path expectedPath : Units) : Bool :=
  path = units "node" && (expectedPath = units "node" || expectedPath = files.execPath) ||
    isAbsolute windows path && isAbsolute windows expectedPath && files.same mode path expectedPath

/-- Tokens that name both assets, and what is run for the event. -/
def canonicalTokens (windows : Bool) (files : AssetFiles) (paths : HookPaths) (verb : Units)
    (event : HookEvent) : List Units → Bool
  | [node, cliScript, actualVerb, actualEvent] =>
      isCanonicalAsset windows files .executable node paths.nodePath &&
        isCanonicalAsset windows files .readable cliScript paths.cliScriptPath &&
        actualVerb = verb && actualEvent = event.name
  | _ => false

/-- Only the spelling that is installed is accepted, with the paths that it has. -/
def Claude.isCanonicalCaveatClaudeHookCommand (windows : Bool) (files : AssetFiles)
    (paths : HookPaths) (event : HookEvent) (actual : Units) : Bool :=
  match commandTokens actual with
  | some [node, cliScript, verb, actualEvent] =>
      canonicalTokens windows files paths (units "hook") event
          [node, cliScript, verb, actualEvent] &&
        actual = hookCommand ⟨node, cliScript⟩ event
  | _ => false

def Codex.isCanonicalCaveatCodexHookEntry (windows : Bool) (files : AssetFiles)
    (paths : HookPaths) (event : HookEvent) (hook : Settings) : Bool :=
  match commandOf hook with
  | some actual =>
      (normalizedTokens actual).any (canonicalTokens windows files paths (units "codex-hook") event) &&
        isComplete hook
  | none => false

def Cursor.isCanonicalCaveatCursorHookEntry (windows : Bool) (files : AssetFiles)
    (paths : HookPaths) (event : HookEvent) (hook : Settings) : Bool :=
  match commandOf hook with
  | some actual =>
      (commandTokens actual).any (canonicalTokens windows files paths (units "cursor-hook") event) &&
        isPrimitive (hook.prop timeoutKey) timeout
  | none => false

end Caveat.Install
