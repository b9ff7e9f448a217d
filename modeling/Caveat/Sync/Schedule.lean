import Caveat.Js.Utf
import Caveat.Lib.Crash
import Caveat.Lock.FileLock

/-!
# The native schedule

`manageSyncSchedule` keeps a job of the operating system that starts the periodic synchronisation. The job
is defined by files, and a record says which of them the program has written, with their digests. A run
that finds a file other than recorded refuses to touch anything.

Every call of the file system and every command is done, fails, or is the last thing that the process does.
A temporary file of the record is not looked at by anybody.
-/

namespace Caveat.Sync.Schedule

open Js Lib

abbrev Path := Text

inductive ScheduleKind where
  | systemdUser
  | launchdUser
  | windowsTask
deriving DecidableEq

structure ScheduleCommand where
  command : Units
  args : List Units
deriving DecidableEq

/-- A file of a definition; the encoding is UTF-8 unless it is said to be UTF-16. -/
structure ScheduleFile where
  path : Path
  content : Units
  utf16le : Bool
deriving DecidableEq

structure NativeSyncSchedule where
  id : Text
  kind : ScheduleKind
  files : List ScheduleFile
  query : ScheduleCommand
  inspect : ScheduleCommand
  install : List ScheduleCommand
  remove : List ScheduleCommand
  reload : List ScheduleCommand
  paths_nodup : (files.map ScheduleFile.path).Nodup

def unitBytes (u : UInt16) : Bytes := [u.toUInt8, (u >>> 8).toUInt8]

def nativeScheduleFileBytes (file : ScheduleFile) : Bytes :=
  if file.utf16le then [0xff, 0xfe] ++ file.content.flatMap unitBytes else toUtf8 file.content

inductive Operation where
  | installing
  | installed
  | removing
  | uninstalled
  | failed
deriving DecidableEq

inductive ScheduleError where
  | ownerMismatch
  | fileUnmanaged
  | definitionChanged
  | nativeCommandFailed
  | cycleBusy
  | inspectionFailed
  | jobUnmanaged
  | nativeChanged
  | readbackFailed
  /-- Any other error. -/
  | operationFailed
deriving DecidableEq

inductive Action where
  | install
  | status
  | uninstall
deriving DecidableEq

inductive Reason where
  | planned (action : Action)
  | failure (error : ScheduleError)
  | observed
  | removedOwnedSchedule
  | unchanged
  | installedAndReadBack
deriving DecidableEq

inductive Status where
  | success
  | failed
  | planned
  | uninstalled
deriving DecidableEq

structure SyncScheduleResult where
  status : Status
  reason : Reason
  definition : Option NativeSyncSchedule := none
  registered : Option Bool := none
  definitionMatches : Option Bool := none

/-- The record; a digest is the text of a hash, and never empty. -/
structure SyncScheduleState (Digest : Type) where
  id : Text
  kind : ScheduleKind
  fileHashes : List (Path × Digest)
  registered : Bool
  lastOperation : Operation
  lastFailure : Option ScheduleError
  definition : NativeSyncSchedule

/-- What a path names. -/
inductive Node where
  | file (bytes : Bytes)
  /-- A directory or a link. -/
  | other
deriving DecidableEq

structure Disk (Digest : Type) where
  record : Option (SyncScheduleState Digest)
  files : Path → Option Node
  lock : Option Text

/-- What a command gives back. -/
structure Answer where
  status : Int
  stdout : Text

/-- Where a command is run. -/
inductive Place where
  | statusQuery
  | inspect
  | recoverQuery
  | changedQuery
  | unchangedQuery
  | remove
  | reload
  | install
  | readback
deriving DecidableEq

inductive Call where
  | readState
  | verify
  | createLock
  | readLock
  | unlinkLock
  | recreateLock
  | readStateAgain
  | verifyAgain
  | run (place : Place) (command : ScheduleCommand)
  | matchStatus
  | matchRecorded
  | matchPlan
  | unlink (path : Path)
  | saveRemoved (path : Path)
  | saveUninstalled
  | makeDirectory (path : Path)
  | write (path : Path)
  | saveInstalling
  | matchWritten
  | saveInstalled
  | saveFailed
  | removeLock

/-- A call of `manageSyncSchedule`, and what becomes of the calls that it makes. -/
structure Session where
  action : Action
  plan : NativeSyncSchedule
  dryRun : Bool
  pid : Nat
  /-- The processes that `kill(pid, 0)` finds. -/
  alive : Int → Bool
  answer : Place → ScheduleCommand → Answer
  fate : Call → Fate Nat

/-- The disk, and what the function has in its variables. -/
structure Run (Digest : Type) where
  disk : Disk Digest
  old : Option (SyncScheduleState Digest)
  owned : Option (SyncScheduleState Digest)
  lock : Bool

section Checks

variable {Digest : Type} [DecidableEq Digest] (digest : Bytes → Digest)

def SyncScheduleState.hash (s : SyncScheduleState Digest) (path : Path) : Option Digest :=
  s.fileHashes.lookup path

/-- `delete owned.file_hashes[path]`. -/
def SyncScheduleState.forget (s : SyncScheduleState Digest) (path : Path) :
    SyncScheduleState Digest :=
  { s with fileHashes := s.fileHashes.filter (fun entry => entry.1 ≠ path) }

/-- The files that a plan has, one after the other. -/
def verifyFiles (old : SyncScheduleState Digest) (d : Disk Digest) :
    List ScheduleFile → Except ScheduleError Unit
  | [] => .ok ()
  | file :: files =>
      match old.hash file.path, d.files file.path with
      | none, none => verifyFiles old d files
      | none, some _ => .error .fileUnmanaged
      | some expected, some (.file bytes) =>
          if digest bytes ≠ expected then .error .definitionChanged else verifyFiles old d files
      | some _, _ => .error .definitionChanged

def verifyOwned (plan : NativeSyncSchedule) (old : SyncScheduleState Digest) (d : Disk Digest) :
    Except ScheduleError Unit :=
  if old.id ≠ plan.id || old.kind ≠ plan.kind then .error .ownerMismatch
  else if old.fileHashes.any (fun entry => !(plan.files.map ScheduleFile.path).contains entry.1) then
    .error .ownerMismatch
  else verifyFiles digest old d plan.files

/-- The check that every run starts with. -/
def checkOwned (plan : NativeSyncSchedule) (old : Option (SyncScheduleState Digest))
    (d : Disk Digest) : Except ScheduleError Unit :=
  match old with
  | some old => verifyOwned digest plan old d
  | none =>
      if plan.files.any (fun file => (d.files file.path).isSome) then .error .fileUnmanaged else .ok ()

/-- The check under the lock. -/
def checkOwnedAgain (plan : NativeSyncSchedule) (old : Option (SyncScheduleState Digest))
    (d : Disk Digest) : Except ScheduleError Unit :=
  match old with
  | some old => verifyOwned digest plan old d
  | none => .ok ()

def filesMatch (plan : NativeSyncSchedule) (d : Disk Digest) : Bool :=
  plan.files.all (fun file => d.files file.path = some (.file (nativeScheduleFileBytes file)))

/-- `nativeSchedulePresent`. -/
def nativeSchedulePresent (kind : ScheduleKind) (inspection : Answer) : Option Bool :=
  match kind with
  | .systemdUser =>
      if trim inspection.stdout = "loaded".toList then some true
      else if trim inspection.stdout = "not-found".toList then some false
      else none
  | .launchdUser =>
      if inspection.status = 0 then some true
      else if inspection.status = 113 then some false else none
  | .windowsTask =>
      if inspection.status = 0 then some true
      else if inspection.status = 3 then some false else none

end Checks

/-! ## The calls -/

abbrev Managing (Digest : Type) := Process ScheduleError (Run Digest)

section Programs

variable {Digest : Type} [DecidableEq Digest] (digest : Bytes → Digest)
  (taskMatches : NativeSyncSchedule → Text → Bool) (p : Session)

def Session.look (c : Call) (read : Disk Digest → Except ScheduleError α) : Managing Digest α :=
  Lib.look .operationFailed (p.fate c) (fun r => read r.disk)

/-- A call that does all or nothing. -/
def Session.perform (c : Call) (effect : Disk Digest → Option (Disk Digest)) :
    Managing Digest Unit :=
  atomic .operationFailed (p.fate c)
    (fun r => (effect r.disk).map (fun d => { r with disk := d }))

/-- A write, which may leave the start of what is written. -/
def Session.write (c : Call) (leave : Nat → Disk Digest → Disk Digest)
    (effect : Disk Digest → Option (Disk Digest)) : Managing Digest Unit :=
  call .operationFailed (p.fate c) (fun n r => { r with disk := leave n r.disk })
    (fun r => (effect r.disk).map (fun d => { r with disk := d }))

/-- `run(command)`. -/
def Session.run (place : Place) (command : ScheduleCommand) : Managing Digest Answer :=
  p.look (.run place command) (fun _ => .ok (p.answer place command))

/-- `save`. -/
def Session.save (c : Call) (value : SyncScheduleState Digest) : Managing Digest Unit :=
  p.perform c (fun d => some { d with record := some value })

def nativeScheduleReadbackMatches (plan : NativeSyncSchedule) (stdout : Text) : Bool :=
  if plan.kind ≠ .windowsTask then true else taskMatches plan stdout

/-- `nativeReadback`. -/
def nativeReadback (plan : NativeSyncSchedule) (place : Place) (query : ScheduleCommand) :
    Managing Digest Bool := do
  let result ← p.run place query
  return result.status = 0 && nativeScheduleReadbackMatches taskMatches plan result.stdout

def runCommand (place : Place) (command : ScheduleCommand) : Managing Digest Unit := do
  let result ← p.run place command
  throwIf (.threw .nativeCommandFailed) (result.status ≠ 0)

/-- `commands`. -/
def commands (place : Place) (list : List ScheduleCommand) : Managing Digest Unit :=
  forEach (runCommand p place) list

/-! ### The lock -/

/-- `tryCreateLock`. -/
def tryCreateLock (c : Call) : Managing Digest Bool := do
  let r ← get
  if r.disk.lock.isSome then
    p.look c (fun _ => .ok false)
  else do
    p.write c (fun n d => { d with lock := some ((ofNat p.pid).take n) })
      (fun d => some { d with lock := some (ofNat p.pid) })
    return true

/-- A lock of a process that is gone is removed, and created once more. -/
def reclaimLock : Managing Digest Bool := do
  let text ← rescue (p.look .readLock (fun d => .ok d.lock)) (fun _ => pure none)
  match text.bind Lock.parsePid with
  | none => return false
  | some pid =>
      if p.alive pid then return false
      else do
        p.perform .unlinkLock (fun d => some { d with lock := none })
        tryCreateLock p .recreateLock

/-- `acquireFileLock`. -/
def acquireFileLock : Managing Digest Bool := do
  let created ← tryCreateLock p .createLock
  if created then return true else reclaimLock p

/-- `if (lock) releaseFileLock(lock)`. -/
def releaseFileLock : Managing Digest Unit := do
  let r ← get
  doIf (r.lock = true) (p.perform .removeLock (fun d => some { d with lock := none }))

/-! ### The checks -/

def setOld (old : Option (SyncScheduleState Digest)) : Managing Digest Unit :=
  modify (fun r => { r with old := old })

def setOwned (owned : SyncScheduleState Digest) : Managing Digest Unit :=
  modify (fun r => { r with owned := some owned })

def takeLock : Managing Digest Unit := do
  let acquired ← acquireFileLock p
  throwIf (.threw .cycleBusy) (acquired = false)
  modify (fun r => { r with lock := true })

def openState : Managing Digest Unit := do
  let old ← p.look .readState (fun d => .ok d.record)
  setOld old
  p.look .verify (checkOwned digest p.plan old)

/-- Whether a run that was cut short may go on with the job that is there. -/
def canRecover (old : Option (SyncScheduleState Digest)) : Managing Digest Bool :=
  match old with
  | none => return false
  | some old =>
      if (old.lastOperation = .installing || old.lastOperation = .failed) &&
          old.fileHashes.length = p.plan.files.length then do
        let same ← p.look .matchRecorded (fun d => .ok (filesMatch old.definition d))
        if same then
          if old.definition.kind = .systemdUser then return true
          else nativeReadback taskMatches p old.definition .recoverQuery p.plan.query
        else return false
      else return false

def registeredIn (old : Option (SyncScheduleState Digest)) : Bool := old.any (·.registered)

/-- A job that is there is one that the program has made, and as it has made it. -/
def verifyJob (old : Option (SyncScheduleState Digest)) (present : Bool) : Managing Digest Unit := do
  let recoverable ← canRecover taskMatches p old
  throwIf (.threw .jobUnmanaged) (present && !registeredIn old && !recoverable)
  match old with
  | none => return ()
  | some old => doIf (present && old.registered) do
      let same ← nativeReadback taskMatches p old.definition .changedQuery p.plan.query
      throwIf (.threw .nativeChanged) (same = false)

/-- The lock, the checks once more under it, and whether the job is there. -/
def prepare : Managing Digest Bool := do
  takeLock p
  let old ← p.look .readStateAgain (fun d => .ok d.record)
  setOld old
  p.look .verifyAgain (checkOwnedAgain digest p.plan old)
  let inspection ← p.run .inspect p.plan.inspect
  match nativeSchedulePresent p.plan.kind inspection with
  | none => throw (.threw .inspectionFailed)
  | some present => do
      verifyJob taskMatches p old present
      return present

/-! ### Status -/

def isRegistered (old : Option (SyncScheduleState Digest)) : Managing Digest Bool :=
  if registeredIn old then nativeReadback taskMatches p p.plan .statusQuery p.plan.query
  else return false

def statusOf : Managing Digest SyncScheduleResult := do
  let r ← get
  let installed := registeredIn r.old
  let registered ← isRegistered taskMatches p r.old
  let same ← p.look .matchStatus (fun d => .ok (filesMatch p.plan d))
  return {
    status := if registered && same then .success else if installed then .failed else .uninstalled
    reason := if installed && (!registered || !same) then .failure .readbackFailed
      else ((r.old.bind (·.lastFailure)).map .failure).getD .observed
    registered := some registered
    definitionMatches := some same }

/-! ### Uninstalling -/

/-- `unlinkSync`, and the record without the file. -/
def removeFile (file : ScheduleFile) : Managing Digest Unit := do
  let r ← get
  match r.owned with
  | none => return ()
  | some owned => doIf ((owned.hash file.path).isSome = true) do
      p.perform (.unlink file.path) (fun d =>
        if (d.files file.path).isSome then
          some { d with files := Function.update d.files file.path none }
        else none)
      setOwned (owned.forget file.path)
      p.save (.saveRemoved file.path) (owned.forget file.path)

def removeOwned (old : SyncScheduleState Digest) : Managing Digest Unit := do
  setOwned { old with registered := false, lastOperation := .removing }
  forEach (removeFile p) p.plan.files
  commands p .reload p.plan.reload
  let r ← get
  match r.owned with
  | none => return ()
  | some owned => p.save .saveUninstalled { owned with lastOperation := .uninstalled }

def removedResult : SyncScheduleResult :=
  { status := .uninstalled, reason := .removedOwnedSchedule, registered := some false }

/-- The files of the record, if there is one. -/
def removeRecorded : Managing Digest SyncScheduleResult := do
  let r ← get
  match r.old with
  | none => return removedResult
  | some old => do
      removeOwned p old
      return removedResult

def uninstall (present : Bool) : Managing Digest SyncScheduleResult := do
  doIf (present = true) (commands p .remove p.plan.remove)
  removeRecorded p

/-! ### Installing -/

def isUnchanged (old : Option (SyncScheduleState Digest)) : Managing Digest Bool := do
  if registeredIn old then do
    let same ← p.look .matchPlan (fun d => .ok (filesMatch p.plan d))
    if same then nativeReadback taskMatches p p.plan .unchangedQuery p.plan.query else return false
  else return false

/-- Whether anything is left to do; a job that is there is removed then. -/
def beforeWrites (present : Bool) : Managing Digest Bool := do
  let r ← get
  let unchanged ← isUnchanged taskMatches p r.old
  if unchanged then return false
  else do
    doIf (present = true) (commands p .remove p.plan.remove)
    return true

/-- The flag is `w` for a file that is recorded, and `wx` for any other. -/
def writable (old : Option (SyncScheduleState Digest)) (path : Path) (d : Disk Digest) : Bool :=
  (old.bind (·.hash path)).isSome || (d.files path).isNone

def putFile (path : Path) (bytes : Bytes) (d : Disk Digest) : Disk Digest :=
  { d with files := Function.update d.files path (some (.file bytes)) }

def writeFile (file : ScheduleFile) : Managing Digest Unit := do
  let r ← get
  p.perform (.makeDirectory file.path) some
  let bytes := nativeScheduleFileBytes file
  p.write (.write file.path)
    (fun n d => if writable r.old file.path d then putFile file.path (bytes.take n) d else d)
    (fun d => if writable r.old file.path d then some (putFile file.path bytes d) else none)

def ownedState (old : Option (SyncScheduleState Digest)) : SyncScheduleState Digest where
  id := p.plan.id
  kind := p.plan.kind
  fileHashes := p.plan.files.map (fun file => (file.path, digest (nativeScheduleFileBytes file)))
  registered := false
  definition := p.plan
  lastOperation := .installing
  lastFailure := old.bind (·.lastFailure)

/-- The files, the record, and the job. -/
def register : Managing Digest SyncScheduleResult := do
  forEach (writeFile p) p.plan.files
  let r ← get
  let owned := ownedState digest p r.old
  setOwned owned
  p.save .saveInstalling owned
  commands p .install p.plan.install
  let same ← p.look .matchWritten (fun d => .ok (filesMatch p.plan d))
  throwIf (.threw .readbackFailed) (same = false)
  let back ← nativeReadback taskMatches p p.plan .readback p.plan.query
  throwIf (.threw .readbackFailed) (back = false)
  p.save .saveInstalled { owned with registered := true, lastOperation := .installed }
  return { status := .success, reason := .installedAndReadBack, registered := some true,
           definitionMatches := some true }

def unchangedResult : SyncScheduleResult :=
  { status := .success, reason := .unchanged, registered := some true, definitionMatches := some true }

def install (present : Bool) : Managing Digest SyncScheduleResult := do
  let changes ← beforeWrites taskMatches p present
  if changes then register digest taskMatches p else return unchangedResult

/-! ### All of it -/

def manageBody : Managing Digest SyncScheduleResult := do
  openState digest p
  match p.action with
  | .status => statusOf taskMatches p
  | .uninstall => do
      let present ← prepare digest taskMatches p
      uninstall p present
  | .install => do
      let present ← prepare digest taskMatches p
      install digest taskMatches p present

/-- The errors after which the record stays as it is. -/
def keptErrors : List ScheduleError :=
  [.definitionChanged, .ownerMismatch, .jobUnmanaged, .fileUnmanaged, .nativeChanged]

/-- The record of a failure, if that can be saved. -/
def onError (e : ScheduleError) : Managing Digest SyncScheduleResult := do
  let r ← get
  match r.owned <|> r.old with
  | none => return { status := .failed, reason := .failure e }
  | some record => do
      doIf (r.lock && p.action ≠ .status && !keptErrors.contains e)
        (rescue (p.save .saveFailed { record with lastOperation := .failed, lastFailure := some e })
          (fun _ => pure ()))
      return { status := .failed, reason := .failure e }

/-- `manageSyncSchedule`. -/
def manageSyncSchedule : Managing Digest SyncScheduleResult :=
  if p.dryRun then
    return { status := .planned, reason := .planned p.action, definition := some p.plan }
  else finallyDo (rescue (manageBody digest taskMatches p) (onError p)) (releaseFileLock p)

/-- A call starts with nothing in its variables. -/
def start (d : Disk Digest) : Run Digest := { disk := d, old := none, owned := none, lock := false }

/-- The disk that a call leaves. -/
def diskAfter (d : Disk Digest) : Disk Digest :=
  (stateAfter (manageSyncSchedule digest taskMatches p (start d))).disk

end Programs

end Caveat.Sync.Schedule
