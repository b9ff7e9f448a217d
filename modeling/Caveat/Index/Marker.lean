import Caveat.Index.Digest
import Caveat.Index.Mirror
import Caveat.Index.Isolation

/-!
# The digest marker

A reindex job scans the sources one after another while the files go on changing, and leaves the
digest of the files in a marker. A process that finds the marker equal to the digest of the files
as they are starts no job. The background worker takes the digest before its scans, the reindex at
the end of a sync cycle after them, and neither looks at how the scans ended.

The reindex lock lets one job run at a time. What an action does not say is left open: a scan
during which files were edited may see anything.
-/

namespace Caveat.Index

open Js Entry

/-! ## Scanning what is on disk -/

/-- How a scan goes: its clock and its failures. -/
structure ScanRun where
  now : Text → Int := fun _ => 0
  fault : Text → Option FaultPoint := fun _ => none
  /-- Reading the bundle, resolving its key or unsealing it throws. -/
  locked : Bool := false
  late : LateFaults := {}

def ScanRun.item (run : ScanRun) (file : SourceFile) : WalkItem :=
  { file, now := run.now file.path, fault := run.fault file.path }

def ScanRun.sealedFile (run : ScanRun) (file : BundleFile) : SealedFile :=
  { relPath := file.relPath, size := file.size, content := file.content
    now := run.now file.relPath, fault := run.fault file.relPath }

/-- A file of a bundle as the scan reads it. -/
def BundleFile.sourceFile (mtimeMs : Rat) (file : BundleFile) : SourceFile :=
  { path := file.relPath, mtimeMs, size := file.size, content := file.content }

/-- The files a scan of the root looks at. -/
def RootDir.files : RootDir → List SourceFile
  | .plaintext files => files
  | .sealed mtimeMs _ files =>
      (files.filter (fun f => (".md".toList).isSuffixOf f.relPath)).map
        (BundleFile.sourceFile mtimeMs)

/-- The scan of a source as `reindexAllSources` makes it. -/
def RootDir.scan (host : Host) (source : Source) (run : ScanRun) : RootDir → SourceScan
  | .plaintext files => fun t =>
      scanSource host t source (some (files.map run.item)) false run.late.sweep
  | .sealed mtimeMs _ files => fun t =>
      scanSealedSource host t source
        (if run.locked then none else some { mtimeMs, files := files.map run.sealedFile })
        run.late.sweep

/-- The files of a source, none when it has no root. -/
def rootFiles (root : Option RootDir) : List SourceFile := (root.map RootDir.files).getD []

/-- A scan of a source that may have no root. -/
def scanRoot (host : Host) (source : Source) (root : Option RootDir) (run : ScanRun) :
    SourceScan := (root.getD (.plaintext [])).scan host source run

/-! ## Jobs -/

inductive JobKind where
  /-- `runReindexWorker`. -/
  | worker
  /-- `reindexAndMark`. -/
  | cycle
deriving DecidableEq

/-- Where a job stands in `reindexAllSources` and around it. -/
inductive JobPc where
  /-- The worker, before its digest. -/
  | starting
  /-- Before `own`. -/
  | own
  /-- Inside the scan of a source; `todo` is `none` for `own`, which comes before the listing. -/
  | reading (source : Source) (steady : Bool) (todo : Option (List Text))
  /-- Before the community directories are listed. -/
  | listing
  | community (todo : List Text)
  /-- The cycle, before its digest. -/
  | marking
  /-- Before `writeDigestMarker`. -/
  | writing
deriving DecidableEq

/-- Scans lie ahead and the digest of the files matters to them. -/
def JobPc.underway : JobPc → Bool
  | .own | .reading .. | .listing | .community _ => true
  | .starting | .marking | .writing => false

/-- A digest that was taken, and of what; the last two fields are ghosts. -/
structure Stamp where
  digest : EntriesDigest
  taken : EntryTrees
  /-- While some job was scanning, the files had another digest. -/
  departed : Bool := false

structure Job where
  kind : JobKind
  pc : JobPc
  held : Option Stamp := none
  /-- `presentCommunitySources`. -/
  present : List Text := []
  /--
  A ghost: what this job scanned a source from, if the scan ended well, held no old row for a
  refused file, and has not been purged.
  -/
  clean : Source → Option RootDir := fun _ => none

structure MarkerState where
  trees : EntryTrees
  table : Table
  marker : Option Stamp := none
  job : Option Job := none

inductive MarkerAction where
  /-- Entry files are edited, or a repository is pulled. -/
  | edit (trees : EntryTrees)
  | start (kind : JobKind)
  | digest
  | begin
  /-- A source without a root, or a bundle without a key provider. -/
  | skip
  /-- The scan ends; `seen` is what it saw if files were edited during it. -/
  | finish (seen : RootDir) (run : ScanRun)
  | list
  | purge
  | write
  /-- The job throws or its process dies; SQLite undoes an open savepoint. -/
  | fail

section Steps

variable (host : Host) (sha256 : Text → Text)

/-- A row of the source lies at the path of a file that is refused. -/
def holdsRow (source : Source) (t : Table) (files : List SourceFile) : Bool :=
  files.any (fun file =>
    refused host source (bare file) && !(rowsAt t source file.path).isEmpty)

/-- What the pc of a job becomes when the files are edited. -/
def JobPc.edited (same : Bool) : JobPc → JobPc
  | .reading source steady todo => .reading source (steady && same) todo
  | pc => pc

/-- After the scan of a source. -/
def JobPc.after : Option (List Text) → JobPc
  | none => .listing
  | some todo => .community todo

/-- The worker takes its digest first. -/
def JobKind.first : JobKind → JobPc
  | .worker => .starting
  | .cycle => .own

/-- The cycle takes its digest last. -/
def JobKind.afterPurge : JobKind → JobPc
  | .worker => .writing
  | .cycle => .marking

/-- `reindexAllSources` gets to a source. -/
def Job.next (job : Job) : Option (Source × Option (List Text)) :=
  match job.pc with
  | .own => some (.own, none)
  | .community (handle :: todo) => some (.community handle, some todo)
  | _ => none

/-- A root that is passed over. -/
def skipped : Option RootDir → Bool
  | none | some (.sealed ..) => true
  | some (.plaintext _) => false

/-- The job after the scan of a source, and what it scanned cleanly. -/
def Job.scanned (job : Job) (source : Source) (seen : Option RootDir)
    (todo : Option (List Text)) : Job :=
  { job with pc := .after todo, clean := fun s => if s = source then seen else job.clean s }

/-- The scan of a source ends. -/
def finishScan (st : MarkerState) (job : Job) (source : Source) (root : RootDir)
    (todo : Option (List Text)) (run : ScanRun) : MarkerState :=
  match withSourceSavepoint { table := st.table } (root.scan host source run)
      run.late.release with
  | (connection, .ok _) =>
      let seen := if holdsRow host source st.table root.files then none else some root
      { st with table := connection.table, job := some (job.scanned source seen todo) }
  | (connection, .error _) =>
      { st with table := connection.table, job := some (job.scanned source none todo) }

/-- `computeEntriesDigest(paths)`, with the files it was taken of. -/
def takeStamp (trees : EntryTrees) : Stamp :=
  { digest := computeEntriesDigest host sha256 trees, taken := trees }

/-- A step of the running job. -/
def jobStep (st : MarkerState) (job : Job) : MarkerAction → Option MarkerState
  | .digest =>
      let held := some (takeStamp host sha256 st.trees)
      match job.pc with
      | .starting => some { st with job := some { job with pc := .own, held } }
      | .marking => some { st with job := some { job with pc := .writing, held } }
      | _ => none
  | .begin => job.next.bind fun (source, todo) =>
      if (st.trees.root source).isSome then
        some { st with job := some { job with pc := .reading source true todo } }
      else none
  | .skip => job.next.bind fun (source, todo) =>
      if skipped (st.trees.root source) then
        some { st with job := some { job with pc := .after todo } }
      else none
  | .finish seen run =>
      match job.pc with
      | .reading source steady todo =>
          let root := if steady then (st.trees.root source).getD (.plaintext []) else seen
          some (finishScan host st job source root todo run)
      | _ => none
  | .list =>
      match job.pc with
      | .listing => some { st with job := some { job with
          pc := .community st.trees.listed, present := st.trees.listed } }
      | _ => none
  | .purge =>
      match job.pc with
      | .community [] => some { st with
          table := purge st.table job.present
          job := some { job with
            pc := job.kind.afterPurge
            clean := fun s => if absent job.present s then none else job.clean s } }
      | _ => none
  | .write =>
      match job.pc with
      | .writing => some { st with marker := job.held, job := none }
      | _ => none
  | .fail => some { st with job := none }
  | .edit _ | .start _ => none

/-- What an action does, without the ghost of the stamps. -/
def act (st : MarkerState) : MarkerAction → Option MarkerState
  | .edit trees =>
      let same := decide
        (computeEntriesDigest host sha256 trees = computeEntriesDigest host sha256 st.trees)
      some { st with trees, job := st.job.map (fun job => { job with pc := job.pc.edited same }) }
  | .start kind =>
      match st.job with
      | some _ => none
      | none => some { st with job := some { kind, pc := kind.first } }
  | a => st.job.bind (fun job => jobStep host sha256 st job a)

/-- The stamp, now that the files have this digest while a job is scanning. -/
def Stamp.beside (current : EntriesDigest) (stamp : Stamp) : Stamp :=
  { stamp with departed := stamp.departed || stamp.digest ≠ current }

/-- Note which stamps the files have departed from. -/
def noteDeparted (st : MarkerState) : MarkerState :=
  match st.job with
  | none => st
  | some job =>
      if job.pc.underway then
        let current := computeEntriesDigest host sha256 st.trees
        { st with
          marker := st.marker.map (Stamp.beside current)
          job := some { job with held := job.held.map (Stamp.beside current) } }
      else st

def markerStep (st : MarkerState) (a : MarkerAction) : Option MarkerState :=
  (act host sha256 st a).map (noteDeparted host sha256)

/-- Nothing is indexed yet and no job is running. -/
def MarkerStart (st : MarkerState) : Prop :=
  st.table = Lib.RowStore.empty ∧ st.marker = none ∧ st.job = none

/-- `maybeTriggerAutoReindex` finds nothing to do. -/
def MarkerMatches (st : MarkerState) : Prop :=
  ∃ stamp, st.marker = some stamp ∧ stamp.digest = computeEntriesDigest host sha256 st.trees

/-- The rows of every source are those that a scan of its files leaves in an empty index. -/
def RowsCurrent (st : MarkerState) : Prop :=
  ∀ source (now : Text → Int), ∃ t₀ res,
    scanRoot host source (st.trees.root source) { now } Lib.RowStore.empty = .ok (t₀, res) ∧
      ∀ id, (st.table.contents source id).map Record.columns =
        (t₀.contents source id).map Record.columns

end Steps

end Caveat.Index
