import Caveat.Lib.Transition
import Caveat.Write.RecordProof
import Mathlib.Logic.Function.Basic

/-!
# `recordEntry`, one step at a time

Several processes record entries into one directory and one index. A call looks its id up once per
candidate, opens the file of the first free one for writing, which truncates it, writes it in pieces
at its own offset, reads the file's time and upserts the row. Between any two of these steps the
other calls may take theirs, and each of them may fail.
-/

namespace Caveat.Write

open Js Entry Index Lib.PosixPath

/-- Where a call of `recordEntry` is. -/
inductive Phase where
  /-- About to look up the wanted id, or the one with the given number behind it. -/
  | probing (n : Option Nat)
  | opening (p : Prepared)
  /-- The file is open, and so much of the content is written. -/
  | writing (p : Prepared) (offset : Nat)
  | indexing (p : Prepared) (mtime : Int)
  | returned (p : Prepared) (ref : EntryRef)
  | threw

structure Writer where
  input : RecordInput
  ctx : RecordContext
  phase : Phase

/-- The next step of a call. -/
inductive WriterCall where
  | probe
  | open
  | write (size : Nat)
  | stat (mtime : Int)
  | upsert
  /-- The pending call of the file system or of SQLite fails, or the process ends. -/
  | fail

structure WritersState where
  world : World
  writers : Nat → Option Writer

inductive WritersAction where
  | start (i : Nat) (input : RecordInput) (ctx : RecordContext)
  | step (i : Nat) (call : WriterCall)

/-- The candidate that a call looks up. -/
def Writer.wanted (host : Host) (wr : Writer) : Option Nat → JsValue
  | none => baseId host wr.input wr.ctx
  | some n => .string (candidate host (baseId host wr.input wr.ctx) n)

/-- The number of the candidate after this one. -/
def nextNumber : Option Nat → Nat
  | none => 2
  | some n => n + 1

/-- Look a candidate up: go on with the next one, or with this one when it is free. -/
def Writer.probe (host : Host) (wr : Writer) (t : Table) (n : Option Nat) : Phase :=
  match select host t wr.ctx.source (wr.wanted host n) with
  | .error _ => .threw
  | .ok (some _) => .probing (some (nextNumber n))
  | .ok none =>
      match prepareUnder host wr.input wr.ctx (wr.wanted host n) with
      | .error _ => .threw
      | .ok p => if '\x00' ∈ p.relPath then .threw else .opening p

/-- Writing at an offset; a gap is filled with NUL. -/
def overlay (text : Text) (offset : Nat) (piece : Text) : Text :=
  text.take offset ++ List.replicate (offset - text.length) '\x00' ++ piece ++
    text.drop (offset + piece.length)

/-- `write(fd, piece)` on a file opened at a path. -/
def Disk.writeAt (d : Disk) (path : Path) (offset : Nat) (piece : Text) : Disk :=
  d.write path (overlay (((d path).map DiskFile.text).getD []) offset piece)

/-- What a step of one call does. -/
def Writer.step (host : Host) (root : Path) (w : World) (wr : Writer) :
    WriterCall → Option (World × Phase)
  | .probe =>
      match wr.phase with
      | .probing n => some (w, wr.probe host w.table n)
      | _ => none
  | .open =>
      match wr.phase with
      | .opening p => some ({ w with disk := w.disk.write (join root p.relPath) [] }, .writing p 0)
      | _ => none
  | .write size =>
      match wr.phase with
      | .writing p offset =>
          let piece := (p.content.drop offset).take size
          some ({ w with disk := w.disk.writeAt (join root p.relPath) offset piece },
            .writing p (offset + piece.length))
      | _ => none
  | .stat mtime =>
      match wr.phase with
      | .writing p offset => if offset = p.content.length then some (w, .indexing p mtime) else none
      | _ => none
  | .upsert =>
      match wr.phase with
      | .indexing p mtime =>
          match upsertEntry host w.table (p.row mtime) with
          | .error _ => some (w, .threw)
          | .ok (table, _) =>
              some ({ w with table }, .returned p
                { id := (p.row mtime).id, path := p.relPath, filePath := join root p.relPath })
      | _ => none
  | .fail =>
      match wr.phase with
      | .returned _ _ | .threw => none
      | _ => some (w, .threw)

def writersStep (host : Host) (root : Path) (s : WritersState) :
    WritersAction → Option WritersState
  | .start i input ctx =>
      if (s.writers i).isSome then none
      else some { s with
        writers := Function.update s.writers i (some { input, ctx, phase := .probing none }) }
  | .step i call => do
      let wr ← s.writers i
      let (world, phase) ← wr.step host root s.world call
      return { world, writers := Function.update s.writers i (some { wr with phase }) }

/-- No call has been made yet. -/
def Unstarted (before : Disk) (s : WritersState) : Prop :=
  s.world.disk = before ∧ ∀ i, s.writers i = none

/--
Every file of before has its bytes, and the entry of every call that returned is under the path it
returned.
-/
structure Preserved (host : Host) (root : Path) (before : Disk) (s : WritersState) : Prop where
  kept : ∀ path file, before path = some file → s.world.disk path = some file
  present : ∀ i wr p ref, s.writers i = some wr → wr.phase = .returned p ref →
    ∃ built, buildEntry host (recordFrontmatter wr.input wr.ctx ref.id) (recordSections wr.input) =
        .ok built ∧
      ref.filePath = join root (recordPath host wr.input ref.id) ∧
      (s.world.disk ref.filePath).map DiskFile.text = some built.content

/-- A file is opened for writing only where there is none. -/
def OpensNew (root : Path) (s : WritersState) (a : WritersAction) : Prop :=
  ∀ i, a = .step i .open → ∀ wr p, s.writers i = some wr → wr.phase = .opening p →
    s.world.disk (join root p.relPath) = none

end Caveat.Write
