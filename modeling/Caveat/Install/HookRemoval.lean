import Caveat.Install.HookCommand
import Caveat.Lib.Limit
import Caveat.Lib.Parts

/-!
# Removing hooks

Each agent keeps the hooks of an event in a list. Those of Claude and Codex are entries that hold
several hooks each; the entries of Cursor are the hooks. What an uninstall should leave is stated
beside what the installers do.
-/

namespace Caveat.Install

open Js
open Hooks (units)

/-! ## Parts of the settings -/

/-- Assignment to a property of an object. -/
def Data.setProp {σ : Type} (value : Data σ) (key : Units) (v : Data σ) : Data σ :=
  match value with
  | .object members => .object (define members (key, v))
  | _ => value

/-- `delete value[key]`. -/
def Data.deleteProp {σ : Type} (value : Data σ) (key : Units) : Data σ :=
  match value with
  | .object members => .object (members.filter fun m => m.1 ≠ key)
  | _ => value

/-- `settings.hooks?.[event]`, where the settings have properties at all. -/
def eventProp (settings : Settings) (event : Units) : Option Settings :=
  (settings.prop hooksKey).bind fun hooks => hooks.prop event

def eventValue (settings : Settings) (event : Units) : Except HookError (Option Settings) :=
  match settings with
  | .null => .error .typeError
  | _ => .ok (eventProp settings event)

/-- Change `settings.hooks`, if it is there. -/
def updateHooks (settings : Settings) (f : Settings → Settings) : Settings :=
  match settings.prop hooksKey with
  | some hooks => settings.setProp hooksKey (f hooks)
  | none => settings

/-- `settings.hooks[event] = list`. -/
def setEvent (settings : Settings) (event : Units) (list : List Settings) : Settings :=
  updateHooks settings fun hooks => hooks.setProp event (.array list)

/-- `delete settings.hooks[event]`. -/
def deleteEvent (settings : Settings) (event : Units) : Settings :=
  updateHooks settings fun hooks => hooks.deleteProp event

/-- An event as an agent names it, with what the hook is told. -/
structure ManagedEvent where
  key : Units
  event : HookEvent
deriving DecidableEq

/-- Which events a run has changed so far, and the settings. -/
structure HookRun where
  hooks : List Bool
  settings : Settings

/-- Note whether an event has changed. -/
def HookRun.next (run : HookRun) (changed : Option Settings) : HookRun :=
  { hooks := run.hooks ++ [changed.isSome], settings := changed.getD run.settings }

/-- One event after the other. -/
def runEvents (change : ManagedEvent → Settings → Except HookError (Option Settings))
    (events : List ManagedEvent) (settings : Settings) : Except HookError HookRun :=
  events.foldlM (fun run e => (change e run.settings).map run.next) ⟨[], settings⟩

/-! ## Entries with hooks of their own -/

/-- `hooks.some(…)`; the command that is looked at must be a string. -/
def someHook (matched : Units → Bool) : List Settings → Except HookError Bool
  | [] => .ok false
  | hook :: hooks =>
      match commandOf hook with
      | none => .error .typeError
      | some command => if matched command then .ok true else someHook matched hooks

/-- `entry.hooks?.some(…)` -/
def entryMatches (matched : Units → Bool) (entry : Settings) : Except HookError Bool :=
  match entry with
  | .null => .error .typeError
  | _ =>
      match entry.prop hooksKey with
      | none | some .null => .ok false
      | some (.array hooks) => someHook matched hooks
      | some _ => .error .typeError

/-- `list.filter(entry => !entry.hooks?.some(…))`, and the settings if an entry has gone. -/
def filterEvent (matched : Units → Bool) (event : Units) (settings : Settings)
    (entries : List Settings) : Except HookError (Option Settings) :=
  (Lib.filterE (fun entry => (entryMatches matched entry).map not) entries).map fun filtered =>
    if filtered.length = entries.length then none else some (setEvent settings event filtered)

/-- `removeHook` of Claude and Codex. -/
def removeEntries (matched : Units → Bool) (event : Units) (settings : Settings) :
    Except HookError (Option Settings) :=
  match eventValue settings event with
  | .error e => .error e
  | .ok none => .ok none
  | .ok (some list) =>
      if truthy list then
        match list with
        | .array entries => filterEvent matched event settings entries
        | _ => .error .typeError
      else .ok none

namespace Claude

def managedEvents : List ManagedEvent :=
  [⟨units "UserPromptSubmit", .userPromptSubmit⟩, ⟨units "PostToolUse", .postToolUse⟩,
    ⟨units "PostToolUseFailure", .postToolUse⟩, ⟨units "Stop", .stop⟩]

def removeHook (command : Units) (event : Units) (settings : Settings) :
    Except HookError (Option Settings) :=
  removeEntries (fun actual => isSameHookCommand actual command) event settings

/-- `uninstallClaudeIntegration`, less the server. -/
def uninstallHooks (paths : HookPaths) (settings : Settings) : Except HookError HookRun :=
  runEvents (fun e => removeHook (hookCommand paths e.event) e.key) managedEvents settings

end Claude

namespace Codex

def managedEvents : List ManagedEvent :=
  [⟨units "UserPromptSubmit", .userPromptSubmit⟩, ⟨units "PostToolUse", .postToolUse⟩,
    ⟨units "Stop", .stop⟩]

def removeHook (command : Units) (subcommand : HookEvent) (event : Units) (settings : Settings) :
    Except HookError (Option Settings) :=
  removeEntries
    (fun actual => isSameHookCommand actual command || isCaveatCodexHookCommand actual subcommand)
    event settings

/-- `uninstallCodexHooks`. -/
def uninstallHooks (windows : Bool) (paths : HookPaths) (settings : Settings) :
    Except HookError HookRun :=
  runEvents (fun e => removeHook (hookCommand windows paths e.event) e.event e.key) managedEvents
    settings

end Codex

/-! ## Entries that are hooks -/

namespace Cursor

def managedEvents : List ManagedEvent :=
  [⟨units "beforeSubmitPrompt", .userPromptSubmit⟩, ⟨units "postToolUse", .postToolUse⟩,
    ⟨units "postToolUseFailure", .postToolUse⟩, ⟨units "stop", .stop⟩]

def versionKey : Units := units "version"

/-- The only version of the format. -/
def versionOne : Settings := .scalar (.number (.finite 1))

/-- `readHooks`, for a file that is there: `hooks` is an object afterwards. -/
def readHooks (file : Settings) : Except HookError Settings :=
  match file with
  | .object _ =>
      match file.prop hooksKey with
      | none | some .null => .ok (file.setProp hooksKey (.object []))
      | some (.object _) => .ok file
      | some _ => .error .hooksInvalid
  | _ => .error .fileInvalid

/-- What is no list counts as an empty one. -/
def listFor (file : Settings) (event : Units) : List Settings :=
  match eventProp file event with
  | some (.array list) => list
  | _ => []

/-- What `filter` asks of an entry; what has no command that is a string is kept. -/
def keepsEntry (matched : Units → Bool) (entry : Settings) : Except HookError Bool :=
  match entry with
  | .null => .error .typeError
  | _ => .ok (!(commandOf entry).any matched)

/-- `list.filter(…)`, and the file if a hook has gone; a list without hooks goes with its key. -/
def filterList (matched : Units → Bool) (event : Units) (file : Settings) (list : List Settings) :
    Except HookError (Option Settings) :=
  (Lib.filterE (keepsEntry matched) list).map fun kept =>
    if kept.length = list.length then none
    else if kept.length > 0 then some (setEvent file event kept)
    else some (deleteEvent file event)

/-- `removeHook` of Cursor. -/
def removeHook (command : Units) (subcommand : HookEvent) (event : Units) (file : Settings) :
    Except HookError (Option Settings) :=
  let list := listFor file event
  if list.length = 0 then .ok none
  else
    filterList (fun actual =>
        isSameCommand actual command || isCaveatCursorHookCommand actual subcommand)
      event file list

/-- What a run leaves in the file: nothing is written if nothing has changed. -/
def persist (file : Settings) (run : HookRun) : HookRun :=
  if run.hooks.any id then { run with settings := run.settings.setProp versionKey versionOne }
  else { run with settings := file }

/-- `uninstallCursorHooks`. -/
def uninstallHooks (paths : HookPaths) (file : Settings) : Except HookError HookRun :=
  match readHooks file with
  | .error e => .error e
  | .ok read =>
      (runEvents (fun e => removeHook (hookCommand paths e.event) e.event e.key) managedEvents
        read).map (persist file)

end Cursor

/-! ## What is to be left -/

/-- A hook whose command is one of Caveat's. -/
def isOwned (owns : Units → Bool) (hook : Settings) : Bool := (commandOf hook).any owns

def ownedEntry (owns : Units → Bool) (entry : Settings) : Bool :=
  match entry.prop hooksKey with
  | some (.array hooks) => hooks.any (isOwned owns)
  | _ => false

/-- An entry without the hooks of Caveat, with all else in it; one that has no others goes. -/
def foreignEntry (owns : Units → Bool) (entry : Settings) : Option Settings :=
  match entry.prop hooksKey with
  | some (.array hooks) =>
      if hooks.any (isOwned owns) then
        match hooks.filter (fun hook => !isOwned owns hook) with
        | [] => none
        | kept => some (entry.setProp hooksKey (.array kept))
      else some entry
  | _ => some entry

/-- The list of an event without the hooks of Caveat. -/
def foreignEntries (owns : Units → Bool) (entries : List Settings) : List Settings :=
  entries.filterMap (foreignEntry owns)

/-- What is to become of an event of Claude or Codex. -/
def withoutEntries (owns : Units → Bool) (event : Units) (settings : Settings) : Option Settings :=
  match eventProp settings event with
  | some (.array entries) =>
      if entries.any (ownedEntry owns) then
        some (setEvent settings event (foreignEntries owns entries))
      else none
  | _ => none

/-- Each event as it is to become. -/
def prescribed (change : ManagedEvent → Settings → Option Settings) (events : List ManagedEvent)
    (settings : Settings) : HookRun :=
  events.foldl (fun run e => run.next (change e run.settings)) ⟨[], settings⟩

/-- What an uninstall of Claude or Codex is to do. -/
def withoutHooks (owns : HookEvent → Units → Bool) (events : List ManagedEvent)
    (settings : Settings) : HookRun :=
  prescribed (fun e => withoutEntries (owns e.event) e.key) events settings

/-- The commands of Caveat: the one that is installed, and others that run it for the event. -/
def Claude.owns (paths : HookPaths) (event : HookEvent) (actual : Units) : Bool :=
  Claude.isSameHookCommand actual (Claude.hookCommand paths event) ||
    Claude.isCaveatClaudeHookCommand actual event

def Codex.owns (windows : Bool) (paths : HookPaths) (event : HookEvent) (actual : Units) : Bool :=
  Codex.isSameHookCommand actual (Codex.hookCommand windows paths event) ||
    Codex.isCaveatCodexHookCommand actual event

namespace Cursor

def owns (paths : HookPaths) (event : HookEvent) (actual : Units) : Bool :=
  isSameCommand actual (hookCommand paths event) || isCaveatCursorHookCommand actual event

/-- What is to become of an event; without hooks it goes. -/
def withoutList (owns : Units → Bool) (event : Units) (file : Settings) : Option Settings :=
  match eventProp file event with
  | some (.array list) =>
      if list.any (isOwned owns) then
        match list.filter (fun hook => !isOwned owns hook) with
        | [] => some (deleteEvent file event)
        | kept => some (setEvent file event kept)
      else none
  | _ => none

/-- A file that is written has a version, its own one if there is one. -/
def withVersion (file : Settings) : Settings :=
  match file.prop versionKey with
  | none => file.setProp versionKey versionOne
  | some _ => file

/-- What an uninstall of Cursor is to do. -/
def withoutHooks (paths : HookPaths) (file : Settings) : HookRun :=
  let run := prescribed (fun e => withoutList (owns paths e.event) e.key) managedEvents file
  if run.hooks.any id then { run with settings := withVersion run.settings } else run

end Cursor

end Caveat.Install
