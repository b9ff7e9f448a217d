import Caveat.Managed.Journal
import Caveat.Lib.Transition
import Mathlib.Data.Fintype.Basic
import Mathlib.Data.Fintype.Defs
import Mathlib.Logic.Function.Basic

/-!
# The installer's lock, one call of the file system at a time

An installer creates the lock exclusively, writes who it is and when it started, works, and removes
the path. A recovery looks at the lock, reads it, asks for the process that it names, looks at the
lock again and reads it again, and then removes the path. Every call is a step, so that any number
of installers and recoveries can come between two of them.

A file's serial number and its creator are ghosts: no two files have one number, while a file system
gives an inode again.
-/

namespace Caveat.Managed.Installer

open Js

/-- A process's number. -/
abbrev Pid := Fin (2 ^ 32)

structure LockFile (Proc : Type) where
  serial : Nat
  ino : Nat
  bytes : Bytes
  creator : Option Proc

inductive Status where
  | unborn
  | live
  | dead
deriving DecidableEq

/-- Where a process is inside `withInstallerLock` or `recoverManagedInstallerLock`. -/
inductive Pc where
  | idle
  /-- Created the file, about to write into it. -/
  | write (serial : Nat)
  | work
  | release
  | stat
  | read (ino : Nat)
  /-- Read the bytes, about to ask for their process; the number is that of the file read. -/
  | probe (ino : Nat) (bytes : Bytes) (pid : Nat) (serial : Nat)
  | restat (ino : Nat) (bytes : Bytes) (serial : Nat)
  | reread (bytes : Bytes) (serial : Nat)
  | remove (serial : Nat)

/-- Between the exclusive creation and the removal. -/
def Pc.holding : Pc → Bool
  | .write _ | .work | .release => true
  | _ => false

structure ProcState where
  status : Status
  pc : Pc

structure State (Proc : Type) where
  file : Option (LockFile Proc)
  procs : Proc → ProcState
  nextSerial : Nat

/-- The steps of a live process. -/
inductive Call where
  /-- `openSync(paths.lock, 'wx')`; the file system chooses the inode. -/
  | acquire (ino : Nat)
  | write (startedAt : Units)
  /-- `fn` is done, or it threw. -/
  | finish
  | release
  | recover
  | stat
  | read
  | probe
  | restat
  | reread
  | remove
  /-- The pending call fails. -/
  | fail

inductive Action (Proc : Type) where
  | start (p : Proc)
  | die (p : Proc)
  | call (p : Proc) (c : Call)

section Bytes

variable (doubles : Doubles)

def lockNames : List Text := ["schema".toList, "pid".toList, "startedAt".toList]

/-- `{ schema: 1, pid: process.pid, startedAt: .. }`. -/
def installerLock (pid : Pid) (startedAt : Units) : JsObject :=
  [(unitsOf "schema".toList, .number (.finite (1 : Nat))),
    (unitsOf "pid".toList, .number (.finite (pid.val : Nat))),
    unitsField "startedAt".toList startedAt]

/-- What an installer writes into its lock. -/
def lockBytes (pid : Pid) (startedAt : Units) : Bytes := line doubles (installerLock pid startedAt)

/-- `value.pid`, where it is an integer from 1 to 2147483647. -/
def ownerPid (value : JsObject) : Option Nat :=
  match value.get "pid".toList with
  | some (.number (.finite q)) =>
      if q.den = 1 ∧ 1 ≤ q.num ∧ q.num ≤ 2147483647 then some q.num.toNat else none
  | _ => none

/-- The process that a lock names; `none` is `lock_invalid`. -/
def readOwner (isDate : Units → Bool) (bytes : Bytes) : Option Nat :=
  match parseJson doubles.round (decodeUtf8 bytes) with
  | some (.object members) =>
      let value : JsObject := properties members
      if value.hasKeys lockNames && value.isNat "schema".toList 1 &&
          (value.string "startedAt".toList).any isDate then ownerPid value
      else none
  | _ => none

end Bytes

def maxLockBytes : Nat := 1024

variable {Proc : Type} [DecidableEq Proc]

/-- Writing through a descriptor that is open on the file. -/
def LockFile.fill (serial : Nat) (bytes : Bytes) (f : LockFile Proc) : LockFile Proc :=
  if f.serial = serial then { f with bytes } else f

def State.setProc (s : State Proc) (p : Proc) (ps : ProcState) : State Proc :=
  { s with procs := Function.update s.procs p ps }

def State.setPc (s : State Proc) (p : Proc) (pc : Pc) : State Proc :=
  s.setProc p { s.procs p with pc }

@[simp] theorem State.setProc_file (s : State Proc) (p : Proc) (ps : ProcState) :
    (s.setProc p ps).file = s.file := rfl

@[simp] theorem State.setProc_nextSerial (s : State Proc) (p : Proc) (ps : ProcState) :
    (s.setProc p ps).nextSerial = s.nextSerial := rfl

theorem State.setProc_procs (s : State Proc) (p : Proc) (ps : ProcState) (q : Proc) :
    (s.setProc p ps).procs q = if q = p then ps else s.procs q := by
  simp [State.setProc, Function.update_apply]

@[simp] theorem State.setPc_file (s : State Proc) (p : Proc) (pc : Pc) :
    (s.setPc p pc).file = s.file := rfl

@[simp] theorem State.setPc_nextSerial (s : State Proc) (p : Proc) (pc : Pc) :
    (s.setPc p pc).nextSerial = s.nextSerial := rfl

theorem State.setPc_procs (s : State Proc) (p : Proc) (pc : Pc) (q : Proc) :
    (s.setPc p pc).procs q = if q = p then { s.procs p with pc } else s.procs q :=
  s.setProc_procs p _ q

/-- A change of where a process is changes no status. -/
@[simp] theorem State.setPc_status (s : State Proc) (p : Proc) (pc : Pc) (q : Proc) :
    ((s.setPc p pc).procs q).status = (s.procs q).status := by
  rw [State.setPc_procs]
  split
  · rename_i heq
    rw [heq]
  · rfl

variable [Fintype Proc]

/-- `process.kill(pid, 0)` finds a process. -/
def State.alive (pid : Proc → Pid) (s : State Proc) (d : Nat) : Prop :=
  ∃ q : Proc, (s.procs q).status = .live ∧ (pid q).val = d

instance (pid : Proc → Pid) (s : State Proc) (d : Nat) : Decidable (s.alive pid d) :=
  inferInstanceAs (Decidable (∃ _ : Proc, _ ∧ _))

variable (doubles : Doubles) (isDate : Units → Bool) (pid : Proc → Pid)

/-- One step of process `p`, which must be at the matching point of its program. -/
def perform (s : State Proc) (p : Proc) (c : Call) : Option (State Proc) :=
  match c, (s.procs p).pc with
  | .acquire ino, .idle =>
      match s.file with
      | none => some ({ s with
          file := some { serial := s.nextSerial, ino, bytes := [], creator := some p }
          nextSerial := s.nextSerial + 1 }.setPc p (.write s.nextSerial))
      -- `installer_busy`
      | some _ => some s
  | .write startedAt, .write serial => some ({ s with
      file := s.file.map (LockFile.fill serial (lockBytes doubles (pid p) startedAt)) }.setPc p .work)
  | .finish, .work => some (s.setPc p .release)
  | .release, .release => some ({ s with file := none }.setPc p .idle)
  | .recover, .idle => some (s.setPc p (if s.file.isSome then .stat else .idle))
  | .stat, .stat =>
      match s.file with
      | none => some (s.setPc p .idle)
      | some f => some (s.setPc p (if maxLockBytes < f.bytes.length then .idle else .read f.ino))
  | .read, .read ino =>
      match s.file with
      | none => some (s.setPc p .idle)
      | some f =>
          match readOwner doubles isDate f.bytes with
          | none => some (s.setPc p .idle)
          | some d => some (s.setPc p (.probe ino f.bytes d f.serial))
  | .probe, .probe ino bytes d serial =>
      -- only `ESRCH` shows that the process is gone
      some (s.setPc p (if s.alive pid d then .idle else .restat ino bytes serial))
  | .restat, .restat ino bytes serial =>
      some (s.setPc p (if s.file.any (fun f => f.ino = ino) then .reread bytes serial else .idle))
  | .reread, .reread bytes serial =>
      some (s.setPc p (if s.file.any (fun f => f.bytes = bytes) then .remove serial else .idle))
  | .remove, .remove _ => some ({ s with file := none }.setPc p .idle)
  | .fail, .idle => none
  -- the lock is removed in any case, and by its path
  | .fail, .write _ => some (s.setPc p .release)
  | .fail, .work => some (s.setPc p .release)
  | .fail, _ => some (s.setPc p .idle)
  | _, _ => none

def step (s : State Proc) : Action Proc → Option (State Proc)
  | .start p =>
      if (s.procs p).status = .unborn then some (s.setProc p { s.procs p with status := .live })
      else none
  | .die p =>
      if (s.procs p).status = .live then some (s.setProc p { s.procs p with status := .dead })
      else none
  | .call p c => if (s.procs p).status = .live then perform doubles isDate pid s p c else none

/-- A file that an installer left behind holds nothing, or what its creator wrote. -/
structure FileSound (s : State Proc) (f : LockFile Proc) : Prop where
  serial : f.serial < s.nextSerial
  born : ∀ c, f.creator = some c → (s.procs c).status ≠ .unborn
  bytes : ∀ c, f.creator = some c →
    f.bytes = [] ∨ ∃ startedAt, f.bytes = lockBytes doubles (pid c) startedAt

/-- Where a run starts: nobody is inside, and the lock is absent or was left behind. -/
structure Start (s : State Proc) : Prop where
  idle : ∀ p, (s.procs p).pc = .idle
  file : ∀ f, s.file = some f → FileSound doubles pid s f

/-- A live process holds the lock. -/
def State.Holds (s : State Proc) (p : Proc) : Prop :=
  (s.procs p).status = .live ∧ (s.procs p).pc.holding = true

omit [DecidableEq Proc] [Fintype Proc] in
instance (s : State Proc) (p : Proc) : Decidable (s.Holds p) :=
  inferInstanceAs (Decidable (_ ∧ _))

/-! ## Reading a lock -/

omit [DecidableEq Proc] [Fintype Proc]

theorem readOwner_nil : readOwner doubles isDate [] = none := rfl

theorem properties_installerLock (p : Pid) (startedAt : Units) :
    properties (installerLock p startedAt) = installerLock p startedAt :=
  have hnodup : (lockNames.map unitsOf).Nodup := by decide
  have hplain : ∀ key ∈ lockNames.map unitsOf, unitIndex? key = none := by decide
  properties_eq_self hnodup fun _ hm => hplain _ (List.mem_map_of_mem hm)

/-- A lock's record is read with or without the line break behind it. -/
theorem parseJson_installerLock (p : Pid) (startedAt : Units) {space : Text}
    (hspace : skipSpace space = []) :
    parseJson doubles.round (stringify doubles (.object (installerLock p startedAt)) ++ space) =
      some (.object (installerLock p startedAt)) := by
  have hown := properties_installerLock p startedAt
  have hreads : ∀ m ∈ installerLock p startedAt, Reads doubles.round (stringify doubles m.2) m.2 := by
    intro m hm
    simp only [installerLock, List.mem_cons, List.not_mem_nil, or_false] at hm
    rcases hm with rfl | rfl | rfl
    · exact reads_nat (by decide)
    · exact reads_nat (by have := p.isLt; omega)
    · exact reads_string startedAt
  have hparse := @parseJson_stringify_space doubles _ space (by rwa [hown]) hspace
  rwa [hown] at hparse

/-- What is read from a lock is the number of the process that wrote it. -/
theorem readOwner_lockBytes {p : Pid} {startedAt : Units} {d : Nat}
    (h : readOwner doubles isDate (lockBytes doubles p startedAt) = some d) : d = p.val := by
  have hparse := parseJson_installerLock doubles p startedAt (show skipSpace ['\n'] = [] from rfl)
  have hown := properties_installerLock p startedAt
  unfold readOwner lockBytes line lineText at h
  rw [decodeUtf8_encodeUtf8, hparse] at h
  dsimp only at h
  rw [hown] at h
  split at h
  · have hget : (installerLock p startedAt).get "pid".toList =
        some (.number (.finite (p.val : Nat))) := rfl
    rw [ownerPid, hget] at h
    dsimp only at h
    split at h
    · rw [← Option.some.inj h]
      exact Int.toNat_natCast p.val
    · exact absurd h (by simp)
  · exact absurd h (by simp)

end Caveat.Managed.Installer
