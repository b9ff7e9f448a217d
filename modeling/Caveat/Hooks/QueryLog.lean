import Caveat.Hooks.Reminder
import Caveat.Js.Json
import Caveat.Lib.Transition

/-!
# The log of queries without a hit

A hook whose search finds nothing may log the query. Hooks are processes of their own and several of
them may log at once, so a call is modelled as its system calls, one after the other, and those of
different calls may come in any order. Each of them may fail, and the files may be removed at any time.
A file or a directory that is missing is no failure where the source says so.
-/

namespace Caveat.Hooks.QueryLog

open Js
open Hooks (units)

def hookQueryLogMaxBytes : Nat := 1024 * 1024
def hookQueryLogMaxQueryCodeUnits : Nat := 1000

inductive HookQueryAgent where
  | claude
  | codex
  | cursor

def HookQueryAgent.name : HookQueryAgent → Units
  | .claude => units "claude"
  | .codex => units "codex"
  | .cursor => units "cursor"

inductive HookQuerySurface where
  | userPrompt
  | toolError
  | stop

def HookQuerySurface.name : HookQuerySurface → Units
  | .userPrompt => units "user_prompt"
  | .toolError => units "tool_error"
  | .stop => units "stop"

structure HookQueryMiss where
  agent : HookQueryAgent
  surface : HookQuerySurface
  query : Units

/-- `new Date().toISOString()` -/
structure IsoTime where
  text : Units
  short : text.length ≤ 27

/-- What is logged of a miss. -/
def fields (time : IsoTime) (miss : HookQueryMiss) : List (Units × Units) :=
  [(units "at", time.text), (units "agent", miss.agent.name), (units "surface", miss.surface.name),
    (units "query", miss.query.take hookQueryLogMaxQueryCodeUnits)]

/-- `JSON.stringify({ at, agent, surface, query })` -/
def line (time : IsoTime) (miss : HookQueryMiss) : Text :=
  objectText ((fields time miss).map fun m => (m.1, quote m.2))

/-- The line, and its end. -/
def record (time : IsoTime) (miss : HookQueryMiss) : Bytes := encodeUtf8 (line time miss ++ ['\n'])

/-! ## Files -/

/-- Permission bits, for the owner, the group and others. -/
abbrev Mode := BitVec 9

def ownerOnly : Mode := 0o600
def ownerOnlyDirectory : Mode := 0o700

/-- Neither the group nor others may do anything. -/
def Mode.isPrivate (mode : Mode) : Prop := mode &&& 0o077 = 0

instance (mode : Mode) : Decidable mode.isPrivate := inferInstanceAs (Decidable (_ = _))

structure LogFile where
  mode : Mode
  bytes : Bytes

/-- `chmodSync(path, 0o600)` -/
def LogFile.tighten (file : LogFile) : LogFile := { file with mode := ownerOnly }

/-- The directory `metrics`, and the two files in it. -/
structure Metrics where
  dir : Option Mode := none
  active : Option LogFile := none
  backup : Option LogFile := none

/-- `statSync(activePath).size`; a file that is missing counts as empty. -/
def sizeOf (file : Option LogFile) : Nat := (file.map fun f => f.bytes.length).getD 0

/-- `appendFileSync(activePath, bytes, { mode: 0o600 })`: the mode is for a file that is missing. -/
def appendTo (file : Option LogFile) (umask : Mode) (bytes : Bytes) : LogFile :=
  match file with
  | none => ⟨ownerOnly &&& ~~~umask, bytes⟩
  | some f => { f with bytes := f.bytes ++ bytes }

/-! ## Calls -/

/-- The system call that comes next. -/
inductive Stage where
  | makeDirectory
  | chmodDirectory
  | chmodActive
  | chmodBackup
  | stat
  | unlink
  | rename
  | chmodRotated
  | append
  | chmodAppended
  | chmodKept
  | done
deriving DecidableEq

/-- A call of `logHookQueryMiss`. -/
structure Call where
  time : IsoTime
  miss : HookQueryMiss
  umask : Mode
  stage : Stage := .makeDirectory
  /-- It has thrown. -/
  failed : Bool := false

def Call.record (c : Call) : Bytes := QueryLog.record c.time c.miss

/-- A system call that does what it should, and the one that comes next; nothing comes next where it
throws because of something missing. -/
def Call.perform (c : Call) (m : Metrics) : Metrics × Option Stage :=
  match c.stage with
  | .makeDirectory =>
      ({ m with dir := some (m.dir.getD (ownerOnlyDirectory &&& ~~~c.umask)) }, some .chmodDirectory)
  | .chmodDirectory =>
      match m.dir with
      | none => (m, none)
      | some _ => ({ m with dir := some ownerOnlyDirectory }, some .chmodActive)
  | .chmodActive => ({ m with active := m.active.map LogFile.tighten }, some .chmodBackup)
  | .chmodBackup => ({ m with backup := m.backup.map LogFile.tighten }, some .stat)
  | .stat =>
      if sizeOf m.active + c.record.length > hookQueryLogMaxBytes then (m, some .unlink)
      else (m, some .append)
  | .unlink => ({ m with backup := none }, some .rename)
  | .rename =>
      match m.active with
      -- nothing is rotated, and nothing is left to be made private
      | none => (m, some .append)
      | some file => ({ m with active := none, backup := some file }, some .chmodRotated)
  | .chmodRotated => ({ m with backup := m.backup.map LogFile.tighten }, some .append)
  | .append =>
      match m.dir with
      | none => (m, none)
      | some _ => ({ m with active := some (appendTo m.active c.umask c.record) }, some .chmodAppended)
  | .chmodAppended =>
      match m.active with
      | none => (m, none)
      | some file => ({ m with active := some file.tighten }, some .chmodKept)
  | .chmodKept => ({ m with backup := m.backup.map LogFile.tighten }, some .done)
  | .done => (m, none)

/-- A system call that fails for another reason. An append may have written a part of the record. -/
def Call.fail (c : Call) (written : Nat) (m : Metrics) : Metrics :=
  match c.stage, m.dir with
  | .append, some _ =>
      if 0 < written then { m with active := some (appendTo m.active c.umask (c.record.take written)) }
      else m
  | _, _ => m

/-- The call goes on. -/
def Call.isRunning (c : Call) : Bool := !c.failed && c.stage ≠ .done

def Call.next (c : Call) : Option Stage → Call
  | some stage => { c with stage := stage }
  | none => { c with failed := true }

structure State where
  metrics : Metrics
  calls : List Call := []

inductive Action where
  /-- `logHookQueryMiss`, with the value of `CAVEAT_HOOK_QUERY_LOG`. -/
  | call (env : Option Units) (time : IsoTime) (miss : HookQueryMiss) (umask : Mode)
  /-- The next system call of a call. -/
  | perform (i : Nat)
  | fail (i : Nat) (written : Nat)
  /-- Somebody removes a file, or all of them. -/
  | removeActive
  | removeBackup
  | removeDirectory

def step (s : State) : Action → Option State
  | .call env time miss umask =>
      if env = some (units "on") then some { s with calls := s.calls ++ [⟨time, miss, umask, .makeDirectory, false⟩] }
      else some s
  | .perform i =>
      match s.calls[i]? with
      | none => none
      | some c =>
          if c.isRunning then
            some ⟨(c.perform s.metrics).1, s.calls.set i (c.next (c.perform s.metrics).2)⟩
          else none
  | .fail i written =>
      match s.calls[i]? with
      | none => none
      | some c =>
          if c.isRunning then some ⟨c.fail written s.metrics, s.calls.set i { c with failed := true }⟩
          else none
  | .removeActive => some { s with metrics := { s.metrics with active := none } }
  | .removeBackup => some { s with metrics := { s.metrics with backup := none } }
  | .removeDirectory => some { s with metrics := {} }

/-- No call has begun; files there may be anybody's. -/
structure Initial (s : State) : Prop where
  calls : s.calls = []
  files : s.metrics.dir = none → s.metrics.active = none ∧ s.metrics.backup = none

end Caveat.Hooks.QueryLog
