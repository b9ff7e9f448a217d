import Caveat.Js.Text
import Caveat.Lib.Transition
import Mathlib.Data.Fintype.Basic
import Mathlib.Data.Fintype.Defs
import Mathlib.Logic.Function.Basic

/-!
# The file lock, one file-system call at a time

`acquireFileLock` and `releaseFileLock` of `autoReindex.ts`. Each call of the operating system
is one step, so that several processes can interleave inside an acquisition:

* `writeFileSync(path, pid, { flag: 'wx' })` is an exclusive create followed by a write; between
  the two the lock file exists and is empty;
* a lock that is already there is read, its pid is probed with `kill(pid, 0)`, and only when no
  such process is left is the path unlinked and the exclusive create tried once more;
* `releaseFileLock` unlinks whatever the path names.

The functions are synchronous, so one process is inside at most one of them at a time. A file
carries its inode, because the path may be unlinked and created again between a read of it and
the step that acts on what was read. Its creator is a ghost that no step looks at.
-/

namespace Caveat.Lock

open Js

/-- What the lock path names. -/
structure LockFile (Proc : Type) where
  ino : Nat
  text : Text
  /-- Ghost: who created the file; `none` for a file older than the run. -/
  creator : Option Proc
deriving DecidableEq

/-- Writing through a descriptor open on `ino`. -/
def LockFile.fill {Proc : Type} (ino : Nat) (text : Text) (f : LockFile Proc) : LockFile Proc :=
  if f.ino = ino then { f with text := text } else f

inductive Status where
  | unborn
  | live
  | dead
deriving DecidableEq

/-- Where a process is inside `acquireFileLock` or `releaseFileLock`. -/
inductive Pc where
  | idle
  /-- About to create exclusively; `retry` is the attempt after a stale or vanished lock. -/
  | create (retry : Bool)
  /-- Created `ino`, about to write the pid into it. -/
  | write (ino : Nat)
  | read
  /-- Read `pid` from the file `ino`, about to probe it. -/
  | probe (pid : Int) (ino : Nat)
  /-- Found the owner recorded in `ino` gone, about to unlink the path. -/
  | unlink (ino : Nat)
  | release
deriving DecidableEq

structure ProcState where
  status : Status
  pc : Pc
  /-- Has a `FileLock` from `acquireFileLock` and has not called `releaseFileLock` since. -/
  holds : Bool
deriving DecidableEq

structure State (Proc : Type) where
  file : Option (LockFile Proc)
  procs : Proc → ProcState
  nextIno : Nat

/-- The steps a live process takes. -/
inductive Call where
  | acquire
  | create
  | write
  | read
  | probe
  | unlink
  | release
  | unlinkOwn
  /-- The pending system call fails with an error the code does not expect: it throws, or
  `acquireFileLock` returns `null`. -/
  | fail
deriving DecidableEq

inductive Action (Proc : Type) where
  | start (p : Proc)
  | die (p : Proc)
  | call (p : Proc) (c : Call)

/-- `Number.parseInt(text.trim(), 10)`, refused unless it is a positive integer. -/
def parsePid (text : Text) : Option Int :=
  match parseInt (trim text) with
  | some n => if 0 < n then some n else none
  | none => none

variable {Proc : Type} [DecidableEq Proc]

def State.setProc (s : State Proc) (p : Proc) (ps : ProcState) : State Proc :=
  { s with procs := Function.update s.procs p ps }

def State.setPc (s : State Proc) (p : Proc) (pc : Pc) : State Proc :=
  s.setProc p { s.procs p with pc := pc }

@[simp] theorem State.setProc_file (s : State Proc) (p : Proc) (ps : ProcState) :
    (s.setProc p ps).file = s.file := rfl

@[simp] theorem State.setProc_nextIno (s : State Proc) (p : Proc) (ps : ProcState) :
    (s.setProc p ps).nextIno = s.nextIno := rfl

theorem State.setProc_procs (s : State Proc) (p : Proc) (ps : ProcState) (q : Proc) :
    (s.setProc p ps).procs q = if q = p then ps else s.procs q := by
  simp [State.setProc, Function.update_apply]

@[simp] theorem State.setPc_file (s : State Proc) (p : Proc) (pc : Pc) :
    (s.setPc p pc).file = s.file := rfl

@[simp] theorem State.setPc_nextIno (s : State Proc) (p : Proc) (pc : Pc) :
    (s.setPc p pc).nextIno = s.nextIno := rfl

theorem State.setPc_procs (s : State Proc) (p : Proc) (pc : Pc) (q : Proc) :
    (s.setPc p pc).procs q = if q = p then { s.procs p with pc := pc } else s.procs q :=
  s.setProc_procs p _ q

variable [Fintype Proc]

/-- `kill(pid, 0)` finds a process. -/
def State.alive (pid : Proc → Nat) (s : State Proc) (d : Int) : Prop :=
  ∃ q : Proc, (s.procs q).status = .live ∧ (pid q : Int) = d

instance (pid : Proc → Nat) (s : State Proc) (d : Int) : Decidable (s.alive pid d) :=
  inferInstanceAs (Decidable (∃ _ : Proc, _ ∧ _))

/-- One step of process `p`, which must be at the matching point of its program. -/
def perform (pid : Proc → Nat) (s : State Proc) (p : Proc) : Call → Option (State Proc)
  | .acquire =>
      match (s.procs p).pc with
      | .idle => some (s.setPc p (.create false))
      | _ => none
  | .create =>
      match (s.procs p).pc with
      | .create retry =>
          match s.file with
          | none =>
              some ({ s with
                file := some { ino := s.nextIno, text := [], creator := some p }
                nextIno := s.nextIno + 1 }.setPc p (.write s.nextIno))
          -- `EEXIST`: the first attempt goes on to read, the second gives up
          | some _ => some (s.setPc p (if retry then .idle else .read))
      | _ => none
  | .write =>
      match (s.procs p).pc with
      | .write ino =>
          -- the descriptor stays valid when the path has been unlinked meanwhile
          some ({ s with file := s.file.map (LockFile.fill ino (ofNat (pid p))) }.setProc p
            { s.procs p with pc := .idle, holds := true })
      | _ => none
  | .read =>
      match (s.procs p).pc with
      | .read =>
          match s.file with
          | none => some (s.setPc p (.create true))
          | some f =>
              match parsePid f.text with
              | some d => some (s.setPc p (.probe d f.ino))
              | none => some (s.setPc p .idle)
      | _ => none
  | .probe =>
      match (s.procs p).pc with
      | .probe d ino => some (s.setPc p (if s.alive pid d then .idle else .unlink ino))
      | _ => none
  | .unlink =>
      match (s.procs p).pc with
      | .unlink _ => some ({ s with file := none }.setPc p (.create true))
      | _ => none
  | .release =>
      match (s.procs p).pc, (s.procs p).holds with
      | .idle, true => some (s.setProc p { s.procs p with pc := .release, holds := false })
      | _, _ => none
  | .unlinkOwn =>
      match (s.procs p).pc with
      | .release => some ({ s with file := none }.setPc p .idle)
      | _ => none
  | .fail => if (s.procs p).pc = .idle then none else some (s.setPc p .idle)

def step (pid : Proc → Nat) (s : State Proc) : Action Proc → Option (State Proc)
  | .start p =>
      if (s.procs p).status = .unborn then some (s.setProc p { s.procs p with status := .live })
      else none
  | .die p =>
      if (s.procs p).status = .live then some (s.setProc p { s.procs p with status := .dead })
      else none
  | .call p c => if (s.procs p).status = .live then perform pid s p c else none

/--
The states a run may start in: nobody is inside the lock functions, and the lock file is absent,
or left behind, or held by a live process that created it.
-/
structure Start (pid : Proc → Nat) (s : State Proc) : Prop where
  idle : ∀ p, (s.procs p).pc = .idle
  holder : ∀ p, (s.procs p).holds = true →
    (s.procs p).status = .live ∧ ∃ f, s.file = some f ∧ f.creator = some p
  born : ∀ f c, s.file = some f → f.creator = some c → (s.procs c).status ≠ .unborn
  text : ∀ f c, s.file = some f → f.creator = some c → f.text = [] ∨ f.text = ofNat (pid c)
  ino : ∀ f, s.file = some f → f.ino < s.nextIno

/-- Two live processes never both hold the lock. -/
def MutualExclusion (s : State Proc) : Prop :=
  ∀ p q, (s.procs p).status = .live → (s.procs p).holds = true →
    (s.procs q).status = .live → (s.procs q).holds = true → p = q

/-! ## Reading a recorded pid -/

theorem parsePid_nil : parsePid [] = none := by decide

theorem parsePid_ofNat {n : Nat} {d : Int} (h : parsePid (ofNat n) = some d) : d = n := by
  have htrim : trim (ofNat n) = ofNat n :=
    trim_eq_self fun c hc => isSpace_eq_false_of_isDigit (isDigit_of_mem_ofNat hc)
  unfold parsePid at h
  rw [htrim, parseInt_ofNat] at h
  dsimp only at h
  split at h
  · exact (Option.some.inj h).symm
  · exact absurd h (by simp)

end Caveat.Lock
