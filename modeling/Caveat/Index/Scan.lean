import Caveat.Index.Table

/-!
# Scanning one source

`scanSource` walks a directory and `scanSealedSource` an unsealed bundle. Both read each file into
a row and upsert it, note its number in the temporary table `touched`, and finally delete the rows
of the source that were not touched. A file over a limit is recorded as a diagnostic and the rows
at its path are touched as they are; any other error ends the scan with the table as far as it got.
-/

namespace Caveat.Index

open Js Entry

structure SourceFile where
  /-- Relative to the source, with `/` between the parts. -/
  path : Text
  mtimeMs : Rat
  size : Nat
  /-- The bytes read as UTF-8. -/
  content : Text

/-- `stat.mtime`: the nearest millisecond. -/
def mtimeOf (mtimeMs : Rat) : Int := (mtimeMs + 1 / 2).floor

/-- Where a failure of the file system or of SQLite may end the handling of a file. -/
inductive FaultPoint where
  | read
  | lookup
  | upsert
  | touch
deriving DecidableEq

/-- A file the walk yields, the clock when it is handled, and the failure that strikes there. -/
structure WalkItem where
  file : SourceFile
  now : Int := 0
  fault : Option FaultPoint := none

inductive ScanError where
  | entry (e : EntryError)
  | db (e : DbError)
  | io
deriving DecidableEq

/-- An exception and the table as the scan left it. -/
structure ScanAbort where
  error : ScanError
  table : Table

/-- `EntryReadDiagnostic`. -/
structure Diagnostic where
  source : Source
  path : Text
  id : Option Text
  observedAt : Int
  constraint : EntryInputConstraintError
  preservedIds : List Text

structure ScanResult where
  added : Nat := 0
  updated : Nat := 0
  deleted : Nat := 0
  diagnostics : List Diagnostic := []

structure ScanState where
  table : Table
  touched : List Nat := []
  added : Nat := 0
  updated : Nat := 0
  diagnostics : List Diagnostic := []

/-- `insertTouched.run(rowid)`. -/
def touch (touched : List Nat) (rowid : Nat) : Except DbError (List Nat) :=
  if rowid ∈ touched then .error .touchedTwice else .ok (touched ++ [rowid])

/-- `buildEntryUpsertRow`. -/
def buildEntryUpsertRow (host : Host) (source : Source) (path content : Text) (fileMtime : Int)
    (indexedAt : Int) : Except EntryError UpsertRow := do
  let parsed ← parseMarkdown host content
  let fm := parsed.frontmatter
  return { id := fm.get "id".toList, source, path, title := fm.get "title".toList
           body := parsed.body, frontmatterJson := fm.stringify
           tags := ((fm.get "tags".toList).orElse (.array [])).stringify
           confidence := fm.get "confidence".toList, visibility := fm.get "visibility".toList
           fileMtime, indexedAt }

/-- What the two scans do differently. -/
structure ScanOptions where
  source : Source
  /-- Leave a row alone whose path and time are the file's. -/
  skipUnchanged : Bool

/-- The row of a file, or why there is none. -/
def readRow (host : Host) (source : Source) (item : WalkItem) : Except EntryError UpsertRow :=
  if markdownLimit < item.file.size then
    .error (.constraint
      { field := "entry_markdown", limit := markdownLimit, actual := item.file.size })
  else buildEntryUpsertRow host source item.file.path item.file.content
    (mtimeOf item.file.mtimeMs) item.now

/-- `existing.file_mtime === mtime && existing.path === rel`. -/
def unchanged (columns : Columns) (item : WalkItem) : Bool :=
  columns.fileMtime = mtimeOf item.file.mtimeMs && columns.path = item.file.path

/-- The rows of the source at a path, which a refused file leaves as they are. -/
def rowsAt (t : Table) (source : Source) (path : Text) : List Row :=
  (t.rowsOf source).filter (fun r => r.value.columns.path = path)

/-- `constraintDiagnostic`. -/
def constraintDiagnostic (t : Table) (source : Source) (item : WalkItem)
    (e : EntryInputConstraintError) : Diagnostic :=
  let ids := (rowsAt t source item.file.path).map (fun r => r.key.2)
  { source, path := item.file.path
    id := match ids with
      | [id] => some id
      | _ => none
    observedAt := item.now, constraint := e, preservedIds := ids }

/-- An error of the database or the entry, with the table it leaves. -/
def orAbort {α : Type} (t : Table) : Except DbError α → Except ScanAbort α
  | .ok a => .ok a
  | .error e => .error { error := .db e, table := t }

/-- The failure that strikes at a point, if it does. -/
def strike (item : WalkItem) (point : FaultPoint) (t : Table) : Except ScanAbort Unit :=
  if item.fault = some point then .error { error := .io, table := t } else .ok ()

/-- `skip`: record the diagnostic and touch the rows at the path. -/
def skipFile (o : ScanOptions) (st : ScanState) (item : WalkItem)
    (e : EntryInputConstraintError) : Except ScanAbort ScanState := do
  strike item .lookup st.table
  strike item .touch st.table
  let touched ← orAbort st.table
    (((rowsAt st.table o.source item.file.path).map Lib.StoredRow.rowid).foldlM touch st.touched)
  return { st with
    touched, diagnostics := st.diagnostics ++ [constraintDiagnostic st.table o.source item e] }

/-- Leave the row of an unchanged file as it is. -/
def keepRow (st : ScanState) (item : WalkItem) (existing : Row) : Except ScanAbort ScanState := do
  strike item .touch st.table
  let touched ← orAbort st.table (touch st.touched existing.rowid)
  return { st with touched }

/-- Write the row of a new or changed file. -/
def writeRow (host : Host) (st : ScanState) (item : WalkItem) (row : UpsertRow)
    (existing : Option Row) : Except ScanAbort ScanState := do
  strike item .upsert st.table
  let (table, rowid) ← orAbort st.table (upsertEntry host st.table row)
  strike item .touch table
  let touched ← orAbort table (touch st.touched rowid)
  return { st with
    table, touched
    added := if existing.isSome then st.added else st.added + 1
    updated := if existing.isSome then st.updated + 1 else st.updated }

/-- Index the row of a file that was read. -/
def indexRow (host : Host) (o : ScanOptions) (st : ScanState) (item : WalkItem)
    (row : UpsertRow) : Except ScanAbort ScanState := do
  strike item .lookup st.table
  match ← orAbort st.table (select host st.table o.source row.id) with
  | some existing =>
      if o.skipUnchanged && unchanged existing.value.columns item then keepRow st item existing
      else writeRow host st item row (some existing)
  | none => writeRow host st item row none

/-- One turn of the loop over the files. -/
def scanFile (host : Host) (o : ScanOptions) (st : ScanState) (item : WalkItem) :
    Except ScanAbort ScanState := do
  strike item .read st.table
  match readRow host o.source item with
  | .ok row => indexRow host o st item row
  | .error (.constraint e) => skipFile o st item e
  | .error e => .error { error := .entry e, table := st.table }

/-- `DELETE FROM entries WHERE source = ? AND rowid NOT IN (SELECT rowid FROM touched)`. -/
def Table.sweep (t : Table) (source : Source) (touched : List Nat) : Table :=
  t.keep (fun r => r.key.1 ≠ source || r.rowid ∈ touched)

/-- The loop over the files and the deletion after it. -/
def scanFiles (host : Host) (o : ScanOptions) (t : Table) (walk : List WalkItem)
    (sweepFault : Bool := false) : Except ScanAbort (Table × ScanResult) := do
  let st ← walk.foldlM (scanFile host o) { table := t }
  if sweepFault then .error { error := .io, table := st.table }
  else
    let swept := st.table.sweep o.source st.touched
    return (swept, { added := st.added, updated := st.updated
                     deleted := st.table.rows.length - swept.rows.length
                     diagnostics := st.diagnostics })

/-- `scanSource`; the walk is `none` when the root does not exist. -/
def scanSource (host : Host) (t : Table) (source : Source) (walk : Option (List WalkItem))
    (force : Bool) (sweepFault : Bool := false) : Except ScanAbort (Table × ScanResult) :=
  scanFiles host { source, skipUnchanged := !force } t (walk.getD []) sweepFault

/-- A file of an unsealed bundle. -/
structure SealedFile where
  relPath : Text
  size : Nat
  content : Text
  now : Int := 0
  fault : Option FaultPoint := none

/-- A bundle's files, all with the bundle's own time. -/
structure Unsealed where
  mtimeMs : Rat
  files : List SealedFile

/-- The files of a bundle that the scan looks at. -/
def Unsealed.walk (u : Unsealed) : List WalkItem :=
  (u.files.filter (fun f => (".md".toList).isSuffixOf f.relPath)).map (fun f =>
    { file := { path := f.relPath, mtimeMs := u.mtimeMs, size := f.size, content := f.content }
      now := f.now, fault := f.fault })

/--
`scanSealedSource`; the bundle is `none` when reading its header, resolving its key or unsealing
it throws, which is before the first statement.
-/
def scanSealedSource (host : Host) (t : Table) (source : Source) (bundle : Option Unsealed)
    (sweepFault : Bool := false) : Except ScanAbort (Table × ScanResult) :=
  match bundle with
  | none => .error { error := .io, table := t }
  | some u => scanFiles host { source, skipUnchanged := false } t u.walk sweepFault

end Caveat.Index
