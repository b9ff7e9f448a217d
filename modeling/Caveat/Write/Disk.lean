import Caveat.Index.Table
import Caveat.Lib.PosixPath

/-!
# The entry files on disk

A file is found by its absolute path. Writing one replaces its text and changes its revision, so
a file that was rewritten with the same text is told from one that was not. `commitEntry` is the
second half of `recordEntry` and of `updateEntry`: write the file, read its time, upsert the row.
-/

namespace Caveat.Write

open Js Entry Index

abbrev Path := List Lib.PosixPath.Component

structure DiskFile where
  text : Text
  /-- How often the file has been written. -/
  revision : Nat
deriving DecidableEq

abbrev Disk := Path → Option DiskFile

/-- `writeFileSync(path, text)`. -/
def Disk.write (d : Disk) (path : Path) (text : Text) : Disk := fun p =>
  if p = path then some { text, revision := ((d path).map DiskFile.revision).getD 0 + 1 } else d p

theorem write_self (d : Disk) (path : Path) (text : Text) :
    ∃ f, d.write path text path = some f ∧ f.text = text :=
  ⟨_, if_pos rfl, rfl⟩

theorem write_of_ne (d : Disk) {path p : Path} (h : p ≠ path) (text : Text) :
    d.write path text p = d p := if_neg h

/-- A write is never without a trace. -/
theorem write_self_ne (d : Disk) (path : Path) (text : Text) : d.write path text path ≠ d path := by
  rw [Disk.write, if_pos rfl]
  cases hd : d path with
  | none => simp
  | some f =>
      intro h
      have := congrArg DiskFile.revision (Option.some.inj h)
      simp only [Option.map_some, Option.getD_some] at this
      omega

theorem write_ne (d : Disk) (path : Path) (text : Text) : d.write path text ≠ d :=
  fun h => write_self_ne d path text (congrFun h path)

/-- What the entries directory and the index hold. -/
structure World where
  disk : Disk
  table : Table

/-- Where the file system or SQLite fails a write, if it does. -/
inductive WriteFault where
  /-- Creating the directory or opening the file: the file is not touched. -/
  | open
  /-- Writing: the file was truncated and holds what got through. -/
  | write (torn : Text)
  | stat
  | database
deriving DecidableEq

inductive WriteError where
  | entry (e : EntryError)
  | db (e : DbError)
  | io
  /-- `community エントリは購読物です; 編集は上流で行ってください`. -/
  | notOwn
  /-- `caveat not found: id=${id} source=${source}`. -/
  | notFound (id : Text)
  /-- `immutable frontmatter key: ${key}`. -/
  | immutableKey (key : Text)
  /-- A property read of `null` or `undefined`. -/
  | typeError
deriving DecidableEq

/-- A call that is about to write: the place, the text, and the row for a given file time. -/
structure Prepared where
  relPath : Text
  content : Text
  row : Int → UpsertRow

structure EntryRef where
  id : JsValue
  path : Text
  filePath : Path

/-- What the outside does to a write: a failure, or the time of the written file. -/
structure Environment where
  entriesRoot : Path
  fault : Option WriteFault := none
  mtime : Int := 0

/-- Read the time of the written file and upsert its row. -/
def indexEntry (host : Host) (env : Environment) (w : World) (p : Prepared) :
    Except WriteError EntryRef × World :=
  match upsertEntry host w.table (p.row env.mtime) with
  | .error e => (.error (.db e), w)
  | .ok (table, _) =>
      (.ok { id := (p.row env.mtime).id, path := p.relPath
             filePath := Lib.PosixPath.join env.entriesRoot p.relPath }, { w with table })

/-- Write the file and index it. A path with a NUL is refused before anything is created. -/
def commitEntry (host : Host) (env : Environment) (w : World) (p : Prepared) :
    Except WriteError EntryRef × World :=
  let filePath := Lib.PosixPath.join env.entriesRoot p.relPath
  if '\x00' ∈ p.relPath then (.error .io, w)
  else
    match env.fault with
    | some .open => (.error .io, w)
    | some (.write torn) => (.error .io, { w with disk := w.disk.write filePath torn })
    | some .stat => (.error .io, { w with disk := w.disk.write filePath p.content })
    | some .database => (.error .io, { w with disk := w.disk.write filePath p.content })
    | none => indexEntry host env { w with disk := w.disk.write filePath p.content } p

end Caveat.Write
