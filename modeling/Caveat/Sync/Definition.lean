import Caveat.Hooks.Reminder
import Caveat.Lib.CommandLine
import Caveat.Lib.Markup
import Caveat.Lib.Separated
import Caveat.Managed.Journal
import Caveat.Sync.Schedule

/-!
# Schedule definitions

`nativeSyncSchedule` writes the command of the periodic run into the definition of a job: a unit of
systemd, a property list or a task of Windows. Each has its own way to write words that may hold any
symbol, and each is read here the way its system reads it.
-/

namespace Caveat.Sync.Schedule

open Js Lib
open Hooks (units)
open Managed (Sha256)

/-! ## What is written -/

inductive Platform where
  | linux
  | darwin
  | win32
  | other
deriving DecidableEq

/-- `NativeSyncScheduleOptions`. -/
structure ScheduleOptions where
  caveatHome : Units
  userHome : Units
  nodePath : Units
  cliPath : Units
  platform : Platform
  uid : Option JsNumber
  userId : Option Units

inductive DefinitionError where
  | absolutePathRequired
  | uidRequired
  | userIdRequired
  | platformUnsupported
deriving DecidableEq

def DefinitionError.text : DefinitionError → String
  | .absolutePathRequired => "schedule_absolute_path_required"
  | .uidRequired => "schedule_uid_required"
  | .userIdRequired => "schedule_user_id_required"
  | .platformUnsupported => "schedule_platform_unsupported"

/-- `/[\x00-\x1f]/`. -/
def isControl (u : UInt16) : Bool := u.toNat < 0x20

def isSeparator (u : UInt16) : Bool := u = unitOf '/' || u = unitOf '\\'

def isDeviceRoot (u : UInt16) : Bool :=
  (65 ≤ u.toNat && u.toNat ≤ 90) || (97 ≤ u.toNat && u.toNat ≤ 122)

/-- `isAbsolute` of `path` and `path.win32`. -/
def isAbsolute (platform : Platform) (path : Units) : Bool :=
  match platform, path with
  | _, [] => false
  | .win32, u :: rest =>
      isSeparator u || (isDeviceRoot u && rest.head? = some (unitOf ':') && rest.tail.head?.any isSeparator)
  | _, u :: _ => u = unitOf '/'

/-- `value.replace(/c/g, replacement)` for a single unit. -/
def replaceUnit (c : Char) (replacement : Units) (value : Units) : Units :=
  value.flatMap fun u => if u = unitOf c then replacement else [u]

def xmlEntities : List (UInt16 × Units) :=
  [(unitOf '&', units "amp"), (unitOf '<', units "lt"), (unitOf '>', units "gt"),
    (unitOf '"', units "quot"), (unitOf '\'', units "apos")]

def xml (value : Units) : Units := escapeText (unitOf '&') (unitOf ';') xmlEntities value

def unitArg (value : Units) : Units :=
  unitOf '"' :: replaceUnit '$' (units "$$") (replaceUnit '%' (units "%%")
    (replaceUnit '"' (units "\\\"") (replaceUnit '\\' (units "\\\\") value))) ++ [unitOf '"']

def quoteWindowsArgument (value : Units) : Units := quoteArgument (unitOf '"') (unitOf '\\') value

def joinWords (words : List Units) : Units := [unitOf ' '].intercalate words

def tag (name : String) (text : String) : MarkupPart UInt16 := ⟨units name, units text⟩

def element (name : String) (text : Units) : List (MarkupPart UInt16) :=
  [⟨units name, text⟩, ⟨unitOf '/' :: units name, []⟩]

def writeXml (parts : List (MarkupPart UInt16)) : Units :=
  parts.flatMap (MarkupPart.write (unitOf '<') (unitOf '>'))

/-- What is registered: the definitions, and the command they stand for. -/
structure Definition where
  id : Units
  kind : ScheduleKind
  argv : List Units
  contents : List Units

def serviceLines (argv : List Units) : List Units :=
  [units "[Unit]", units "Description=Caveat private knowledge reception", units "[Service]",
    units "Type=oneshot", units "TimeoutStartSec=10min",
    units "ExecStart=" ++ joinWords (argv.map unitArg), units "SuccessExitStatus=2"]

def timerLines (id : Units) : List Units :=
  [units "[Unit]", units "Description=Caveat reception timer", units "[Timer]",
    units "OnBootSec=60s", units "OnUnitInactiveSec=60s", units "Unit=" ++ id ++ units ".service",
    units "[Install]", units "WantedBy=timers.target"]

/-- Lines, each with its line break. -/
def writeLines (lines : List Units) : Units := lines.flatMap fun line => line ++ [unitOf '\n']

/-- A property list, up to the words of the command. -/
def plistHead (label : Units) : List (MarkupPart UInt16) :=
  [tag "?xml version=\"1.0\" encoding=\"UTF-8\"?" "\n", tag "plist version=\"1.0\"" "", tag "dict" ""] ++
    element "key" (units "Label") ++ element "string" label ++ element "key" (units "ProgramArguments")

def plistParts (label : Units) (argv : List Units) : List (MarkupPart UInt16) :=
  plistHead label ++ [tag "array" ""] ++ argv.flatMap (fun word => element "string" (xml word)) ++
    [tag "/array" ""] ++ element "key" (units "StartInterval") ++ element "integer" (units "60") ++
    [tag "/dict" "", tag "/plist" "\n"]

/-- A task, up to its command. -/
def taskHead (id userId : Units) : List (MarkupPart UInt16) :=
  [tag "?xml version=\"1.0\" encoding=\"UTF-16\"?" "\n",
    tag "Task version=\"1.2\" xmlns=\"http://schemas.microsoft.com/windows/2004/02/mit/task\"" "",
    tag "RegistrationInfo" ""] ++
    element "Description" (units "Caveat private knowledge reception " ++ id) ++
    [tag "/RegistrationInfo" "", tag "Triggers" "", tag "CalendarTrigger" "", tag "Repetition" ""] ++
    element "Interval" (units "PT1M") ++ element "Duration" (units "P1D") ++
    element "StopAtDurationEnd" (units "false") ++ [tag "/Repetition" ""] ++
    element "StartBoundary" (units "2020-01-01T00:00:00") ++ element "Enabled" (units "true") ++
    [tag "ScheduleByDay" ""] ++ element "DaysInterval" (units "1") ++
    [tag "/ScheduleByDay" "", tag "/CalendarTrigger" "", tag "/Triggers" "", tag "Principals" "",
      tag "Principal id=\"CurrentUser\"" ""] ++
    element "UserId" (xml userId) ++ element "LogonType" (units "InteractiveToken") ++
    element "RunLevel" (units "LeastPrivilege") ++
    [tag "/Principal" "", tag "/Principals" "", tag "Settings" ""] ++
    element "MultipleInstancesPolicy" (units "IgnoreNew") ++
    element "DisallowStartIfOnBatteries" (units "false") ++
    element "StopIfGoingOnBatteries" (units "false") ++ element "ExecutionTimeLimit" (units "PT10M") ++
    element "Enabled" (units "true") ++
    [tag "/Settings" "", tag "Actions Context=\"CurrentUser\"" "", tag "Exec" ""]

def taskParts (id userId command arguments : Units) : List (MarkupPart UInt16) :=
  taskHead id userId ++ element "Command" (xml command) ++ element "Arguments" (xml arguments) ++
    [tag "/Exec" "", tag "/Actions" "", tag "/Task" "\n"]

/-- The command of the periodic run. -/
def ScheduleOptions.words (opts : ScheduleOptions) : List Units :=
  [opts.cliPath, units "autosync", units "run", units "--json", units "--caveat-home", opts.caveatHome,
    units "--user-home", opts.userHome]

def ScheduleOptions.argv (opts : ScheduleOptions) : List Units := opts.nodePath :: opts.words

/-- `Number.isInteger(uid) && uid >= 0`. -/
def isUid : Option JsNumber → Bool
  | some (.finite q) => q.den = 1 ∧ 0 ≤ q.num
  | _ => false

variable (sha : Sha256) (toLowerCase : Units → Units)

def normalizePathCase (path : Units) (platform : Platform) : Units :=
  if platform = .win32 then toLowerCase path else path

def scheduleId (opts : ScheduleOptions) : Units :=
  units "caveat-autosync-" ++
    (sha.hash (toUtf8 (normalizePathCase toLowerCase opts.caveatHome opts.platform))).take 16

/-- The definitions of `nativeSyncSchedule`. -/
def nativeSyncSchedule (opts : ScheduleOptions) : Except DefinitionError Definition :=
  if ¬ [opts.caveatHome, opts.userHome, opts.nodePath, opts.cliPath].all
      (fun path => isAbsolute opts.platform path && !path.any isControl) then .error .absolutePathRequired
  else
    let id := scheduleId sha toLowerCase opts
    match opts.platform with
    | .linux =>
        .ok ⟨id, .systemdUser, opts.argv, [writeLines (serviceLines opts.argv), writeLines (timerLines id)]⟩
    | .darwin =>
        if ¬ isUid opts.uid then .error .uidRequired
        else
          let label := units "dev.caveat." ++ id
          .ok ⟨label, .launchdUser, opts.argv, [writeXml (plistParts label opts.argv)]⟩
    | .win32 =>
        match opts.userId.filter (fun id => id ≠ [] && !id.any isControl) with
        | none => .error .userIdRequired
        | some userId =>
            .ok ⟨id, .windowsTask, opts.argv, [writeXml (taskParts id userId opts.nodePath
              (joinWords (opts.words.map quoteWindowsArgument)))]⟩
    | .other => .error .platformUnsupported

/-! ## How it is read -/

/-- `&amp;` and the like are undone. -/
def unescapeXml (text : Units) : Option Units :=
  unescapeText (unitOf '&') (unitOf ';') xmlEntities none text

def isBlank (u : UInt16) : Bool := u = unitOf ' ' || u = unitOf '\t'

/-- A task: its command, and its arguments split as a command line. -/
def readTask (content : Units) : Option (List Units) :=
  match textsOf (unitOf '<') (unitOf '>') (units "Command") content,
      textsOf (unitOf '<') (unitOf '>') (units "Arguments") content with
  | [command], [arguments] =>
      match unescapeXml command, unescapeXml arguments with
      | some command, some arguments =>
          some (command :: splitArguments (unitOf '"') (unitOf '\\') isBlank none arguments)
      | _, _ => none
  | _, _ => none

/-- A property list: the strings of the array. -/
def readPlist (content : Units) : Option (List Units) :=
  let array := ((readParts (unitOf '<') (unitOf '>') none false content).dropWhile
    fun p => p.tag ≠ units "array").takeWhile fun p => p.tag ≠ units "/array"
  (array.filterMap fun p => if p.tag = units "string" then some p.text else none).mapM unescapeXml

/-- A word of a unit that is being read. -/
structure UnitWord where
  /-- The quotation mark that is open. -/
  quote : Option UInt16
  escaped : Bool
  text : Units

def UnitWord.next (w : UnitWord) (u : UInt16) : UnitWord :=
  if w.escaped then { w with escaped := false, text := w.text ++ [u] }
  else if u = unitOf '\\' then { w with escaped := true }
  else if w.quote = some u then { w with quote := none }
  else if w.quote = none ∧ (u = unitOf '"' ∨ u = unitOf '\'') then { w with quote := some u }
  else { w with text := w.text ++ [u] }

/-- The words of a line, where `none` is the place between two of them. -/
def splitUnitWords : Option UnitWord → Units → Option (List Units)
  | none, [] => some []
  | some w, [] => if w.escaped ∨ w.quote ≠ none then none else some [w.text]
  | none, u :: s =>
      if isBlank u then splitUnitWords none s
      else splitUnitWords (some (UnitWord.next ⟨none, false, []⟩ u)) s
  | some w, u :: s =>
      if isBlank u ∧ w.quote = none ∧ w.escaped = false then
        (splitUnitWords none s).map (w.text :: ·)
      else splitUnitWords (some (w.next u)) s

/-- A doubled unit stands for itself, and a single one for something that is not known here. -/
def undouble (c : UInt16) : Units → Option Units
  | [] => some []
  | [u] => if u = c then none else some [u]
  | u :: v :: s =>
      if u = c then if v = c then (undouble c s).map (c :: ·) else none
      else (undouble c (v :: s)).map (u :: ·)

/-- `%%` and `$$` are undone. -/
def unitValue (word : Units) : Option Units :=
  (undouble (unitOf '%') word).bind (undouble (unitOf '$'))

/-- The text of a line behind a key. -/
def behind (key : Units) (line : Units) : Option Units :=
  if key <+: line then some (line.drop key.length) else none

/-- A service: the words of the line that starts it. -/
def readService (content : Units) : Option (List Units) :=
  match (content.splitOn (unitOf '\n')).filterMap (behind (units "ExecStart=")) with
  | [line] => (splitUnitWords none line).bind fun words => words.mapM unitValue
  | _ => none

/-- The command of a definition. -/
def readArgv (definition : Definition) : Option (List Units) :=
  match definition.kind with
  | .systemdUser => definition.contents.head?.bind readService
  | .launchdUser => definition.contents.head?.bind readPlist
  | .windowsTask => definition.contents.head?.bind readTask

end Caveat.Sync.Schedule
