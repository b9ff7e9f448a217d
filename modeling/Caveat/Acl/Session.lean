import Caveat.Hooks.Reminder
import Caveat.Lib.Trace

/-!
# The session of a Windows permission check

Three parties take part. The main thread calls `run` and `close` and sleeps until the buffer of its
request is filled. The worker thread takes one request after the other and hands it to an interpreter,
which is a process of its own: it reads operations from its input, evaluates a script for each, and
prints the number of the one that passed. Any of them may be late, stop, or say something else.
-/

namespace Caveat.Acl

open Js Lib
open Hooks (units collapseSpace trimUnits)

/-! ## What is sent -/

structure AclOperation where
  sequence : Nat
  path : Units
  directory : Bool
  apply : Bool
deriving DecidableEq

/-- The `operation` of `AclWork`; its buffer is found by its number. -/
inductive AclWork where
  | check (operation : AclOperation)
  | close (sequence : Nat)
deriving DecidableEq

def AclWork.sequence : AclWork → Nat
  | .check o => o.sequence
  | .close n => n

/-- How a process ended. -/
structure ExitStatus where
  code : Option Int
  signal : Option Units
deriving DecidableEq

inductive AclError where
  | sessionClosed
  | workerUnavailable
  | workerFailed (name : Units)
  | workerMissing
  | spawnTimedOut (cleanup : Bool)
  | invalidSequence
  | replyFailed
  | importFailed (code : Units)
  | concurrent
  | spawn (code : Units)
  | spawnThrew (message : Units)
  | invalidResponse
  | exit (status : ExitStatus) (stderr : Units)
deriving DecidableEq

def intText (n : Int) : Units := units (toString n)

/-- `stderr.replace(/\s+/g, ' ').trim().slice(0, 400) || '(empty)'`. -/
def shownStderr (stderr : Units) : Units :=
  match (trimUnits (collapseSpace stderr)).take 400 with
  | [] => units "(empty)"
  | text => text

def AclError.text : AclError → Units
  | .sessionClosed => units "store_unsafe: ACL session closed"
  | .workerUnavailable => units "store_unsafe: ACL worker unavailable"
  | .workerFailed name => units "store_unsafe: ACL worker failed " ++ name
  | .workerMissing => units "store_unsafe: ACL worker missing"
  | .spawnTimedOut cleanup => units "store_unsafe: powershell spawn ETIMEDOUT" ++
      if cleanup then [] else units "; cleanup unconfirmed"
  | .invalidSequence => units "store_unsafe: ACL worker invalid sequence"
  | .replyFailed => units "store_unsafe: ACL worker failed"
  | .importFailed code => units "store_unsafe: ACL worker unavailable " ++ code
  | .concurrent => units "store_unsafe: ACL worker concurrent request"
  | .spawn code => units "store_unsafe: powershell spawn " ++ code
  | .spawnThrew message => message
  | .invalidResponse => units "store_unsafe: powershell invalid response"
  | .exit status stderr => units "store_unsafe: powershell exit=" ++
      (status.code.elim (units "null") intText) ++ units " signal=" ++
      status.signal.getD (units "none") ++ units " stderr=" ++ shownStderr stderr

structure AclReply where
  sequence : Nat
  ok : Bool
  error : Option AclError := none
  terminal : Bool := false
deriving DecidableEq

/-- What the main thread posts to the worker. -/
inductive Message where
  | work (work : AclWork)
  | cancel (sequence : Nat)
deriving DecidableEq

/-- A line an interpreter prints: its answer `{sequence, ok: true}`, or something else. -/
inductive Line where
  | answer (sequence : Nat)
  | other
deriving DecidableEq

/-! ## The state of each party -/

inductive Life where
  | absent
  | running
  /-- The process has ended, and its worker does not know yet. -/
  | exited (status : ExitStatus)
  /-- The `exit` event was handled: `exitCode` or `signalCode` is set. -/
  | noticed (status : ExitStatus)
  /-- The `close` event was handled. -/
  | closed (status : ExitStatus)
deriving DecidableEq

/-- What an interpreter has: its input, what it evaluates, and its output. -/
structure Program where
  stdin : List AclOperation := []
  evaluating : Option AclOperation := none
  stdout : List Line := []

/-- An interpreter, and what `ChildState` records of it. -/
structure Interpreter where
  program : Program := {}
  life : Life := .absent
  /-- `stdin.end()` was called. -/
  ended : Bool := false
  killed : Bool := false
  stderr : Units := []
  stdoutBytes : Nat := 0
  /-- The number of the `pending` operation. -/
  pending : Option Nat := none

/-- The point `perform` has come to. -/
inductive Perform where
  /-- It awaits the end of the process that ran before. -/
  | previous (c : Nat)
  /-- It awaits an answer. -/
  | answer (c : Nat)
  | resolved
  | rejected (error : AclError)
  /-- It awaits the end of the process it has told to stop. -/
  | ending (c : Nat)
  /-- It awaits the end of the process it has killed after an error. -/
  | killing (c : Nat) (error : AclError)
deriving DecidableEq

inductive Worker where
  | absent
  /-- The module is being imported, and the first request is with it. -/
  | loading (initial : AclWork)
  | up
  | stopped
  | crashed
deriving DecidableEq

inductive Main where
  | idle
  | waiting (work : AclWork)
  /-- The request took too long and was cancelled: a last wait for the buffer. -/
  | cancelled (work : AclWork)
deriving DecidableEq

/-- The calls of the main thread. -/
inductive Call where
  | run
  | close
deriving DecidableEq

/-- The variables of `createWindowsAclSession`. -/
structure Session where
  main : Main := .idle
  sequence : Nat := 0
  closed : Bool := false
  failure : Option Units := none
  terminal : Bool := false
  /-- The calls that have ended and what they came to, the latest first. -/
  outcomes : List (Call × Except AclError Unit) := []

structure State where
  session : Session := {}
  /-- What was posted to the worker and is not received yet. -/
  messages : List Message := []
  /-- The buffers, by the number of their request. -/
  replies : Nat → Option AclReply := fun _ => none
  worker : Worker := .absent
  -- the variables of `startAclWorker`
  active : Option (AclWork × Perform) := none
  processState : Option Nat := none
  spawned : Nat := 0
  interpreters : Nat → Interpreter := fun _ => {}

def State.set (s : State) (c : Nat) (i : Interpreter) : State :=
  { s with interpreters := fun d => if d = c then i else s.interpreters d }

def State.modify (s : State) (c : Nat) (f : Interpreter → Interpreter) : State :=
  s.set c (f (s.interpreters c))

def State.setProgram (s : State) (c : Nat) (f : Program → Program) : State :=
  s.modify c (fun i => { i with program := f i.program })

/-! ## The main thread -/

def AclWork.call : AclWork → Call
  | .check _ => .run
  | .close _ => .close

def Session.returns (m : Session) (call : Call) (outcome : Except AclError Unit) : Session :=
  { m with main := .idle, outcomes := (call, outcome) :: m.outcomes }

def State.returns (s : State) (call : Call) (outcome : Except AclError Unit) : State :=
  { s with session := s.session.returns call outcome }

/-- `request`, up to its wait. `missing` says that the file of the worker is not there. -/
def State.request (s : State) (missing : Bool) (work : AclWork) : State :=
  let m := { s.session with sequence := work.sequence }
  match s.worker with
  | .absent =>
      if missing then { s with session := m.returns work.call (.error .workerMissing) }
      else { s with session := { m with main := .waiting work }, worker := .loading work }
  | _ => { s with
      session := { m with main := .waiting work }, messages := s.messages ++ [.work work] }

def State.callRun (s : State) (path : Units) (directory apply missing : Bool) : State :=
  if s.session.closed then s.returns .run (.error .sessionClosed)
  else if s.session.terminal then s.returns .run (.error .workerUnavailable)
  else match s.session.failure with
    | some name => s.returns .run (.error (.workerFailed name))
    | none => s.request missing (.check ⟨s.session.sequence + 1, path, directory, apply⟩)

def State.callClose (s : State) : State :=
  if s.session.closed then s.returns .close (.ok ())
  else
    let s := { s with session := { s.session with closed := true } }
    if s.worker = .absent ∨ s.session.terminal then s.returns .close (.ok ())
    else s.request false (.close (s.session.sequence + 1))

/-- `request`, once its buffer is filled. -/
def State.take (s : State) (work : AclWork) (r : AclReply) : State :=
  if r.sequence ≠ work.sequence then s.returns work.call (.error .invalidSequence)
  else
    let s := { s with session := { s.session with terminal := s.session.terminal || r.terminal } }
    if r.ok then s.returns work.call (.ok ())
    else s.returns work.call (.error (r.error.getD .replyFailed))

/-! ## The worker thread -/

def State.reply (s : State) (work : AclWork) (r : AclReply) : State :=
  { s with replies := fun n => if n = work.sequence then some r else s.replies n }

def Life.isNoticed : Life → Bool
  | .noticed _ | .closed _ => true
  | _ => false

/-- `child.kill()`. When the process dies of it is another matter. -/
def Interpreter.kill (i : Interpreter) : Interpreter :=
  if i.life.isNoticed then i else { i with killed := true }

/-- The answer that is awaited comes, or comes to nothing. -/
def settle (p : Perform) : Option (AclWork × Perform) → Option (AclWork × Perform)
  | some (work, .answer _) => some (work, p)
  | active => active

/-- `pending` is taken away, and resolved or rejected. -/
def State.settlePending (s : State) (c : Nat) (p : Perform) : State :=
  { s.modify c (fun i => { i with pending := none }) with active := settle p s.active }

def State.rejectPending (s : State) (c : Nat) (error : AclError) : State :=
  if (s.interpreters c).pending.isSome then s.settlePending c (.rejected error) else s

def State.fail (s : State) (c : Nat) (error : AclError) : State :=
  (s.rejectPending c error).modify c Interpreter.kill

/-- The end of `perform`. -/
def State.finish (s : State) (work : AclWork) (error : Option AclError) : State :=
  let s := { s with active := none }.reply work
    { sequence := work.sequence, ok := error.isNone, error := error }
  match work with
  | .check _ => s
  | .close _ => { s with worker := .stopped }

/-- The `catch` of `perform`. -/
def State.caught (s : State) (work : AclWork) (error : AclError) : State :=
  match s.processState with
  | none => s.finish work (some error)
  | some c => { s.modify c Interpreter.kill with active := some (work, .killing c error) }

/-- `ensureProcess`, where there is no process. -/
def State.spawn (s : State) : State :=
  { s.set s.spawned { life := .running } with
    processState := some s.spawned, spawned := s.spawned + 1 }

def Interpreter.given (i : Interpreter) (o : AclOperation) : Interpreter :=
  { i with
    stderr := [], stdoutBytes := 0, pending := some o.sequence,
    program := { i.program with stdin := i.program.stdin ++ [o] } }

/-- The operation is written to a process, and its answer awaited. -/
def State.write (s : State) (o : AclOperation) (c : Nat) : State :=
  { s.modify c (fun i => i.given o) with active := some (.check o, .answer c) }

/-- `perform`, from `ensureProcess` to its wait. Where there is no process `spawn` may throw. -/
def State.hand (s : State) (o : AclOperation) (threw : Option Units) : State :=
  match s.processState with
  | some c => s.write o c
  | none =>
      match threw with
      | some message => s.finish (.check o) (some (.spawnThrew message))
      | none => s.spawn.write o s.spawned

def Interpreter.isSpent (i : Interpreter) : Bool := i.killed || i.life.isNoticed

/-- `perform`, up to its first wait. -/
def State.perform (s : State) (work : AclWork) (threw : Option Units) : State :=
  match s.active with
  | some _ => s.reply work { sequence := work.sequence, ok := false, error := some .concurrent }
  | none =>
      match work, s.processState with
      | .close n, none => s.finish (.close n) none
      | .close n, some c => { s.modify c (fun i => { i with ended := true }) with
          active := some (.close n, .ending c) }
      | .check o, none => s.hand o threw
      | .check o, some c =>
          if (s.interpreters c).isSpent then { s with active := some (.check o, .previous c) }
          else s.hand o threw

def State.cancel (s : State) (n : Nat) : State :=
  match s.active, s.processState with
  | some (work, _), some c => if work.sequence = n then s.modify c Interpreter.kill else s
  | _, _ => s

def State.receive (s : State) (threw : Option Units) : Option State :=
  match s.messages with
  | [] => none
  | .work work :: rest => some ({ s with messages := rest }.perform work threw)
  | .cancel n :: rest => some ({ s with messages := rest }.cancel n)

def Interpreter.exitError (i : Interpreter) (status : ExitStatus) : AclError := .exit status i.stderr

/-- `perform` goes on after a wait that is over. -/
def State.resume (s : State) (threw : Option Units) : Option State :=
  match s.active with
  | some (.check o, .previous c) =>
      match (s.interpreters c).life with
      | .closed _ => some (s.hand o threw)
      | _ => none
  | some (work, .resolved) => some (s.finish work none)
  | some (work, .rejected error) => some (s.caught work error)
  | some (work, .ending c) =>
      match (s.interpreters c).life with
      | .closed status =>
          if status.code = some 0 then some (s.finish work none)
          else some (s.caught work ((s.interpreters c).exitError status))
      | _ => none
  | some (work, .killing c error) =>
      match (s.interpreters c).life with
      | .closed _ => some (s.finish work (some error))
      | _ => none
  | _ => none

/-- The timer of a process that was told to stop. -/
def State.closeTimer (s : State) : Option State :=
  match s.active with
  | some (_, .ending c) => some (s.modify c Interpreter.kill)
  | _ => none

/-! ### What the worker hears of a process -/

def BUFFER_LIMIT : Nat := 1024 * 1024

/-- The handler of `line`. -/
def State.line (s : State) (c : Nat) : Option State :=
  match (s.interpreters c).program.stdout with
  | [] => none
  | l :: rest =>
      let s := s.setProgram c (fun p => { p with stdout := rest })
      match (s.interpreters c).pending with
      | none => some (s.fail c .invalidResponse)
      | some n =>
          if l = .answer n then some (s.settlePending c .resolved)
          else some (s.fail c .invalidResponse)

def State.stdoutData (s : State) (c bytes : Nat) : State :=
  let s := s.modify c (fun i => { i with stdoutBytes := i.stdoutBytes + bytes })
  if (s.interpreters c).stdoutBytes > BUFFER_LIMIT then s.fail c (.spawn (units "ENOBUFS")) else s

def State.stderrData (s : State) (c : Nat) (text : Units) : State :=
  if (toUtf8 (s.interpreters c).stderr).length + (toUtf8 text).length > BUFFER_LIMIT then
    s.fail c (.spawn (units "ENOBUFS"))
  else s.modify c (fun i => { i with stderr := i.stderr ++ text })

/-- The handler of `exit` in the runtime. -/
def State.exitEvent (s : State) (c : Nat) : Option State :=
  match (s.interpreters c).life with
  | .exited status => some (s.modify c (fun i => { i with life := .noticed status }))
  | _ => none

/-- The handler of `close`. -/
def State.closeEvent (s : State) (c : Nat) : Option State :=
  match (s.interpreters c).life with
  | .noticed status =>
      let s := s.modify c (fun i => { i with life := .closed status })
      let s := if s.processState = some c then { s with processState := none } else s
      some (s.rejectPending c ((s.interpreters c).exitError status))
  | _ => none

/-! ## The interpreter -/

/-- The next line is read. One with a number below 1 ends the program with 47. -/
def State.read (s : State) (c : Nat) : Option State :=
  match (s.interpreters c).program with
  | ⟨o :: rest, none, out⟩ =>
      if o.sequence < 1 then
        some (s.modify c (fun i => { i with
          program := ⟨rest, none, out⟩, life := .exited ⟨some 47, none⟩ }))
      else some (s.setProgram c (fun _ => ⟨rest, some o, out⟩))
  | _ => none

/-- The script passes, and its answer is printed. -/
def State.pass (s : State) (c : Nat) : Option State :=
  match (s.interpreters c).program with
  | ⟨lines, some o, out⟩ =>
      some (s.setProgram c (fun _ => ⟨lines, none, out ++ [.answer o.sequence]⟩))
  | _ => none

/-- Something else is printed. -/
def State.print (s : State) (c : Nat) : State :=
  s.setProgram c (fun p => { p with stdout := p.stdout ++ [.other] })

/-! ## Steps -/

inductive Action where
  | run (path : Units) (directory apply missing : Bool)
  | close
  | wake
  | timeout
  | giveUp
  | failed (name : Units)
  | loaded (threw : Option Units)
  | importFailed (code : Units)
  | crash
  | receive (threw : Option Units)
  | resume (threw : Option Units)
  | closeTimer
  | line (c : Nat)
  | stdoutData (c bytes : Nat)
  | stderrData (c : Nat) (text : Units)
  | trouble (c : Nat) (code : Units)
  | exitEvent (c : Nat)
  | closeEvent (c : Nat)
  | read (c : Nat)
  | pass (c : Nat)
  | print (c : Nat)
  | exit (c : Nat) (status : ExitStatus)
deriving DecidableEq

def State.isRunning (s : State) (c : Nat) : Bool := (s.interpreters c).life = .running

/-- The process has not closed. -/
def Life.isOpen : Life → Bool
  | .absent | .closed _ => false
  | _ => true

/-- The worker can hear of the process. -/
def State.hears (s : State) (c : Nat) : Bool := s.worker = .up && (s.interpreters c).life.isOpen

def when (p : Bool) (s : Option State) : Option State := if p then s else none

def State.wake (s : State) : Option State :=
  match s.session.main with
  | .waiting work => (s.replies work.sequence).map (s.take work)
  | _ => none

def State.timeout (s : State) : Option State :=
  match s.session.main with
  | .waiting work => some { s with
      session := { s.session with main := .cancelled work }
      messages := s.messages ++ [.cancel work.sequence] }
  | _ => none

def State.giveUp (s : State) : Option State :=
  match s.session.main with
  | .cancelled work => some (s.returns work.call
      (.error (.spawnTimedOut (s.replies work.sequence).isSome)))
  | _ => none

def State.loaded (s : State) (threw : Option Units) : Option State :=
  match s.worker with
  | .loading initial => some ({ s with worker := .up }.perform initial threw)
  | _ => none

/-- The `catch` of `BOOTSTRAP`. -/
def State.importFailed (s : State) (code : Units) : Option State :=
  match s.worker with
  | .loading initial => some ({ s with worker := .stopped }.reply initial
      { sequence := initial.sequence, ok := false, error := some (.importFailed code),
        terminal := true })
  | _ => none

def State.crash (s : State) : Option State :=
  match s.worker with
  | .loading _ | .up => some { s with worker := .crashed }
  | _ => none

def step (s : State) : Action → Option State
  | .run path directory apply missing =>
      when (s.session.main = .idle) (some (s.callRun path directory apply missing))
  | .close => when (s.session.main = .idle) (some s.callClose)
  | .wake => s.wake
  | .timeout => s.timeout
  | .giveUp => s.giveUp
  | .failed name =>
      -- the event of a worker that died waits until the main thread is back in its loop
      when (s.session.main = .idle && s.worker = .crashed)
        (some { s with session := { s.session with failure := some name } })
  | .loaded threw => s.loaded threw
  | .importFailed code => s.importFailed code
  | .crash => s.crash
  | .receive threw => when (s.worker = .up) (s.receive threw)
  | .resume threw => when (s.worker = .up) (s.resume threw)
  | .closeTimer => when (s.worker = .up) s.closeTimer
  | .line c => when (s.hears c) (s.line c)
  | .stdoutData c bytes => when (s.hears c) (some (s.stdoutData c bytes))
  | .stderrData c text => when (s.hears c) (some (s.stderrData c text))
  | .trouble c code => when (s.hears c) (some (s.fail c (.spawn code)))
  | .exitEvent c => when (s.worker = .up) (s.exitEvent c)
  | .closeEvent c => when (s.worker = .up) (s.closeEvent c)
  | .read c => when (s.isRunning c) (s.read c)
  | .pass c => when (s.isRunning c) (s.pass c)
  | .print c => when (s.isRunning c) (some (s.print c))
  | .exit c status => when (s.isRunning c)
      (some (s.modify c (fun i => { i with life := .exited status })))

/-- `createWindowsAclSession`. -/
def Initial (s : State) : Prop := s = {}

end Caveat.Acl
