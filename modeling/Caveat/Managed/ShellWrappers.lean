import Caveat.Install.HookQuoting
import Caveat.Lib.Base64
import Caveat.Lib.CommandLine
import Caveat.Lib.Literal
import Caveat.Managed.Journal

/-!
# Shell wrappers

`renderManagedShellWrappers` writes the global command: a script for a POSIX shell, and on Windows a
batch file and a script for PowerShell too. Each writes the paths of Node and of the entry in its own
way, and each is read here the way its interpreter reads it. An interpreter is modelled for the
programs that the wrappers are; it gives up on a text that is another program.
-/

namespace Caveat.Managed.ShellWrappers

open Js Lib
open Hooks (units after)
open Install (isAbsolute unitKind)

/-! ## What is written -/

inductive WrapperError where
  | absolutePathRequired
  | unsupportedWindowsPath
  | unsupportedWindowsNodePath
deriving DecidableEq

def WrapperError.text : WrapperError → String
  | .absolutePathRequired => "managed_shell_absolute_path_required"
  | .unsupportedWindowsPath => "managed_shell_unsupported_windows_path"
  | .unsupportedWindowsNodePath => "managed_shell_unsupported_windows_node_path"

inductive WrapperName where
  | caveat
  | caveatCmd
  | caveatPs1
deriving DecidableEq

def WrapperName.text : WrapperName → String
  | .caveat => "caveat"
  | .caveatCmd => "caveat.cmd"
  | .caveatPs1 => "caveat.ps1"

structure WrapperFile where
  name : WrapperName
  content : Units
  sha256 : Units

/-- `/[\0\r\n]/`. -/
def isLineUnit (u : UInt16) : Bool := u = 0 || u = unitOf '\r' || u = unitOf '\n'

/-- `/["%!^&|<>]/`. -/
def isWindowsSpecial (u : UInt16) : Bool := Publish.oneOf "\"%!^&|<>" u

/-- `/[^\x20-\x7e]/`. -/
def isOutsideAscii (u : UInt16) : Bool := u.toNat < 0x20 || 0x7e < u.toNat

/-- `literal`. -/
def literal (value : Units) (windows : Bool) : Except WrapperError Unit :=
  if value = [] || value.any isLineUnit || !isAbsolute windows value then .error .absolutePathRequired
  else if windows && value.any isWindowsSpecial then .error .unsupportedWindowsPath
  else .ok ()

/-- `quote`. -/
def quote (value : Units) : Units := singleQuote (unitOf '\'') (unitOf '\\') value

def missing : Units :=
  units "Caveat requires Node 22.16+ in the 22.x series or Node 24+. Install a current Node LTS from " ++
    units "https://nodejs.org/en/download, then reopen your AI client."

/-- `value.replaceAll('\\', '/')`, on Windows. -/
def slashes (windows : Bool) (value : Units) : Units :=
  if windows then value.map fun u => if u = unitOf '\\' then unitOf '/' else u else value

def checkNode : Units :=
  units "command -v node >/dev/null 2>&1 || \x7b echo " ++ quote missing ++
    units " >&2; exit 127; \x7d\n"

def caveatContent (node entry : Units) (windows : Bool) : Units :=
  units "#!/bin/sh\n" ++ ((if node = units "node" then checkNode else []) ++ (units "exec " ++
    ((quote (slashes windows node) ++ unitOf ' ' :: quote (slashes windows entry)) ++
      units " \"$@\"\n")))

def bootstrapHead : Units :=
  units "const c=require('node:child_process').spawnSync(process.execPath," ++ units "[Buffer.from('"

def bootstrapTail : Units :=
  units "','base64').toString('utf8'),...process.argv.slice(1)],\x7bstdio:" ++
    (units "'inherit'\x7d);if(c.error)\x7bconsole.error(c.error.message);process" ++
      units ".exit(1)\x7dprocess.exit(c.status===null?1:c.status)")

/-- The program that starts the entry. It is ASCII, so that a batch file cannot change it. -/
def bootstrap (entry : Units) : Units :=
  bootstrapHead ++ ((Base64.encode (toUtf8 entry)).map unitOf ++ bootstrapTail)

def cmdCheckNode : Units :=
  units "where node >nul 2>nul\r\nif errorlevel 1 (echo " ++ missing ++
    units " 1>&2 & exit /b 127)\r\n"

def cmdContent (node entry : Units) : Units :=
  units "@echo off\r\n" ++ ((if node = units "node" then cmdCheckNode else []) ++
    (unitOf '"' :: (node ++ (units "\" -e \"" ++ (bootstrap entry ++ (units "\" -- %*" ++
      units "\r\nexit /b %errorlevel%\r\n"))))))

/-- `psQuote`. -/
def psQuote (value : Units) : Units :=
  unitOf '\'' :: (doubleMarks (unitOf '\'') value ++ [unitOf '\''])

def psCheckNode : Units :=
  units "if (-not (Get-Command node -ErrorAction SilentlyContinue)) \x7b throw " ++ psQuote missing ++
    units " \x7d\r\n"

def psStart : Units :=
  units "$start = New-Object System.Diagnostics.ProcessStartInfo\r\n" ++
    units "$start.UseShellExecute = $false\r\n$start.FileName = "

/-- From the entry to the end: each value is quoted, the process is started, and its code is passed on. -/
def psEnd : Units :=
  units ") + @($args)\r\n$start.Arguments = (($values | ForEach-Object \x7b\r\n" ++
    (units "  $value = [regex]::Replace([string]$_, '(\\\\*)\"', '$1$1\\\"')\r\n" ++
      (units "  '\"' + [regex]::Replace($value, '(\\\\+)$', '$1$1') + '\"'\r\n\x7d) -join ' ')\r\n" ++
        (units "$child = [System.Diagnostics.Process]::Start($start)\r\n$child.WaitForExit()\r\n" ++
          units "$code = $child.ExitCode\r\n$child.Dispose()\r\nexit $code\r\n")))

def ps1Content (node entry : Units) : Units :=
  0xfeff :: (units "$ErrorActionPreference = 'Stop'\r\n" ++
    ((if node = units "node" then psCheckNode else []) ++ (psStart ++ (psQuote node ++
      (units "\r\n$values = @(" ++ (psQuote entry ++ psEnd))))))

def renderManagedShellWrappers (sha : Sha256) (node entry : Units) (windows : Bool) :
    Except WrapperError (List WrapperFile) := do
  let file (name : WrapperName) (content : Units) : WrapperFile :=
    ⟨name, content, sha.hash (toUtf8 content)⟩
  if node ≠ units "node" then literal node windows
  literal entry windows
  if windows then
    if node.any isOutsideAscii then throw .unsupportedWindowsNodePath
    return [file .caveat (caveatContent node entry true), file .caveatCmd (cmdContent node entry),
      file .caveatPs1 (ps1Content node entry)]
  return [file .caveat (caveatContent node entry false)]

/-! ## How it is read -/

/-- The text before an end. -/
def before (part s : Units) : Option Units := (after part.reverse s.reverse).map List.reverse

/-- A POSIX shell, where Node is found: the process that it becomes, and its arguments. -/
def runCaveat (content : Units) (args : List Units) : Option (Units × List Units) := do
  let rest ← after (units "#!/bin/sh\n") content
  let command ← after (units "exec ") ((after checkNode rest).getD rest)
  let line ← before (units " \"$@\"\n") command
  match ← shellWords unitKind .gap line with
  | program :: words => some (program, words ++ args)
  | [] => none

def isBlank (u : UInt16) : Bool := u = unitOf ' ' || u = unitOf '\t'

/-- `CommandLineToArgvW`, for what follows the name of the program. -/
def argumentsOf (line : Units) : List Units :=
  splitArguments (unitOf '"') (unitOf '\\') isBlank none line

/-- The percent signs of a line of a batch file: `%*` is what the caller has written. -/
def expandPercent (tail : Units) : Units → Option Units
  | [] => some []
  | [u] => if u = unitOf '%' then none else some [u]
  | u :: v :: s =>
      if u = unitOf '%' then
        if v = unitOf '*' then (expandPercent tail s).map (tail ++ ·) else none
      else (expandPercent tail (v :: s)).map (u :: ·)

/-- The command interpreter finds an operator outside quotation marks, or a line end. -/
def isOneCommand : Bool → Units → Bool
  | _, [] => true
  | quoted, u :: s =>
      if isLineUnit u then false
      else if u = unitOf '"' then isOneCommand (!quoted) s
      else (quoted || !Publish.oneOf "&|<>^" u) && isOneCommand quoted s

/-- The entry that the program of the batch file starts. -/
def bootstrapEntry (code : Units) : Option Units := do
  let rest ← after bootstrapHead code
  let text := rest.takeWhile (· ≠ unitOf '\'')
  if rest.dropWhile (· ≠ unitOf '\'') = bootstrapTail then
    some (unitsOf (decodeUtf8 (Base64.decode (text.map fun u => Char.ofNat u.toNat))))
  else none

/-- A command line: the quoted name of a program, and what follows it. -/
def programOf : Units → Option (Units × Units)
  | [] => none
  | u :: s =>
      if u = unitOf '"' then
        some (s.takeWhile (· ≠ unitOf '"'), (s.dropWhile (· ≠ unitOf '"')).drop 1)
      else none

/-- Node with `-e`, as the batch file calls it. -/
def runBootstrap (node : Units) : List Units → Option (Units × List Units)
  | flag :: code :: separator :: args =>
      if flag = units "-e" ∧ separator = units "--" then
        (bootstrapEntry code).map fun entry => (node, entry :: args)
      else none
  | _ => none

/-- The command interpreter of Windows, where Node is found. The caller's arguments are `tail`. -/
def runCmd (content tail : Units) : Option (Units × List Units) := do
  let rest ← after (units "@echo off\r\n") content
  let call := ((after cmdCheckNode rest).getD rest).takeWhile (· ≠ unitOf '\r')
  let line ← expandPercent tail call
  if isOneCommand false line then
    let (program, rest) ← programOf line
    runBootstrap program (argumentsOf rest)
  else none

/-- The marks of a literal of PowerShell. -/
def isPsMark (u : UInt16) : Bool :=
  u = unitOf '\'' || u = 0x2018 || u = 0x2019 || u = 0x201a || u = 0x201b

/-- A literal of PowerShell and what follows it. -/
def psLiteral : Units → Option (Units × Units)
  | [] => none
  | u :: s => if isPsMark u then readLiteral isPsMark s else none

/-- `[regex]::Replace($value, '(\\+)$', '$1$1')`: a line break at the end comes after `$`. -/
def doubleAtEnd (s : Units) : Units :=
  if s.getLast? = some (unitOf '\n') then doubleLast (unitOf '\\') s.dropLast ++ [unitOf '\n']
  else doubleLast (unitOf '\\') s

/-- The value between quotation marks, with both replacements. -/
def psArgument (value : Units) : Units :=
  unitOf '"' :: doubleAtEnd (escapeMarks (unitOf '"') (unitOf '\\') 0 value) ++ [unitOf '"']

/-- PowerShell, where Node is found. The process is given its arguments as one string. -/
def runPs1 (content : Units) (args : List Units) : Option (Units × List Units) := do
  let rest ← after (0xfeff :: units "$ErrorActionPreference = 'Stop'\r\n") content
  let start ← after psStart ((after psCheckNode rest).getD rest)
  let (node, rest) ← psLiteral start
  let values ← after (units "\r\n$values = @(") rest
  let (entry, rest) ← psLiteral values
  if rest = psEnd then
    some (node, argumentsOf ([unitOf ' '].intercalate ((entry :: args).map psArgument)))
  else none

/-- Two paths of one file. Both separators of Windows are the same. -/
def SamePath (windows : Bool) (path path' : Units) : Prop := slashes windows path = slashes windows path'

/-- A wrapper starts Node with the entry as first argument and the caller's arguments behind it. A
batch file is given the caller's arguments as one string. -/
def Starts (windows : Bool) (node entry : Units) (args : List Units) (tail : Units) (f : WrapperFile) :
    Prop :=
  match f.name with
  | .caveat => ∃ program script, runCaveat f.content args = some (program, script :: args) ∧
      SamePath windows program node ∧ SamePath windows script entry
  | .caveatCmd => runCmd f.content tail = some (node, entry :: argumentsOf tail)
  | .caveatPs1 => runPs1 f.content args = some (node, entry :: args)

end Caveat.Managed.ShellWrappers
