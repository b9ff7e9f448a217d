import Caveat.Index.Scan
import Mathlib.Data.List.Dedup

/-!
# Reindexing every source

`reindexAllSources` scans the own entries and each community directory in the order they are
listed, each inside a savepoint of its own, and then deletes the rows of community sources that
are no longer listed. A scan that throws is rolled back and reported; the next source goes on.
-/

namespace Caveat.Index

open Js Entry

/-! ## Savepoints -/

/-- A database connection: the table and the open savepoints, the latest first. -/
structure Connection where
  table : Table
  savepoints : List (String × Table) := []

/-- `SAVEPOINT name`. -/
def Connection.savepoint (c : Connection) (name : String) : Connection :=
  { c with savepoints := (name, c.table) :: c.savepoints }

/-- `ROLLBACK TO SAVEPOINT name`: the savepoint stays open. -/
def Connection.rollbackTo (c : Connection) (name : String) : Connection :=
  match c.savepoints.dropWhile (fun s => s.1 ≠ name) with
  | [] => c
  | s :: rest => { table := s.2, savepoints := s :: rest }

/-- `RELEASE SAVEPOINT name`. -/
def Connection.release (c : Connection) (name : String) : Connection :=
  { c with savepoints := (c.savepoints.dropWhile (fun s => s.1 ≠ name)).tail }

abbrev SourceScan := Table → Except ScanAbort (Table × ScanResult)

/--
`withSourceSavepoint`, over a scan of the connection's table. The release may itself fail, and is
then handled like a failure of the scan.
-/
def withSourceSavepoint (c : Connection) (scan : SourceScan) (releaseFault : Bool := false) :
    Connection × Except ScanError ScanResult :=
  let opened := c.savepoint "reindex_source"
  let undo := fun (table : Table) =>
    (({ opened with table } : Connection).rollbackTo "reindex_source").release "reindex_source"
  match scan opened.table with
  | .ok (table, result) =>
      if releaseFault then (undo table, .error .io)
      else (({ opened with table } : Connection).release "reindex_source", .ok result)
  | .error e => (undo e.table, .error e.error)

/-! ## The sources on disk -/

/-- Failures that strike a source after its files. -/
structure LateFaults where
  sweep : Bool := false
  release : Bool := false

/-- What a listed community directory holds. -/
inductive CommunityDir where
  /-- `bundle/entries.caveat` exists; `none` when reading, resolving its key or unsealing throws. -/
  | sealedBundle (bundle : Option Unsealed)
  /-- `entries/` exists. -/
  | entries (walk : List WalkItem)
  /-- Neither of them does. -/
  | rootless

structure CommunityEntry where
  handle : Text
  dir : CommunityDir
  faults : LateFaults := {}

/-- What `reindexAllSources` finds: a directory lists each name once. -/
structure ReindexInput where
  /-- The walk of `entriesDir`, `none` when it does not exist. -/
  own : Option (List WalkItem)
  ownFaults : LateFaults := {}
  /-- The directories under `communityDir` in listing order. -/
  community : List CommunityEntry
  nodup : (community.map CommunityEntry.handle).Nodup
  keyProvider : Bool
  force : Bool

inductive Warning where
  | ownMissing
  | noKeyProvider (source : Source)
  | failed (source : Source) (error : ScanError)
deriving DecidableEq

structure Reindexed where
  connection : Connection
  perSource : List (Source × ScanResult) := []
  warnings : List Warning := []

/-- Scan a source inside its savepoint and note the result or the failure. -/
def Reindexed.scan (st : Reindexed) (source : Source) (scan : SourceScan) (releaseFault : Bool) :
    Reindexed :=
  match withSourceSavepoint st.connection scan releaseFault with
  | (connection, .ok result) =>
      { st with connection, perSource := st.perSource ++ [(source, result)] }
  | (connection, .error e) =>
      { st with connection, warnings := st.warnings ++ [.failed source e] }

def reindexOwn (host : Host) (input : ReindexInput) (st : Reindexed) : Reindexed :=
  match input.own with
  | some walk => st.scan .own
      (fun t => scanSource host t .own (some walk) input.force input.ownFaults.sweep)
      input.ownFaults.release
  | none => { st with warnings := st.warnings ++ [.ownMissing] }

def reindexCommunity (host : Host) (input : ReindexInput) (st : Reindexed)
    (entry : CommunityEntry) : Reindexed :=
  let source := Source.community entry.handle
  match entry.dir with
  | .sealedBundle bundle =>
      if input.keyProvider then st.scan source
        (fun t => scanSealedSource host t source bundle entry.faults.sweep) entry.faults.release
      else { st with warnings := st.warnings ++ [.noKeyProvider source] }
  | .entries walk => st.scan source
      (fun t => scanSource host t source (some walk) input.force entry.faults.sweep)
      entry.faults.release
  | .rootless => st

/-! ## The purge -/

/-- `SELECT DISTINCT source FROM entries WHERE source LIKE 'community/%'`. -/
def communitySources (t : Table) : List Text :=
  (t.rows.filterMap (fun r => match r.key.1 with
    | .own => none
    | .community handle => some handle)).dedup

/-- `DELETE FROM entries WHERE source = ?`. -/
def deleteSource (t : Table) (source : Source) : Table := t.keep (fun r => r.key.1 ≠ source)

/-- Delete the rows of every community source that is not present. -/
def purge (t : Table) (present : List Text) : Table :=
  (communitySources t).foldl
    (fun t handle => if handle ∈ present then t else deleteSource t (.community handle)) t

/-- `reindexAllSources`. -/
def reindexAllSources (host : Host) (input : ReindexInput) (c : Connection) : Reindexed :=
  let st := input.community.foldl (reindexCommunity host input)
    (reindexOwn host input { connection := c })
  { st with connection := { st.connection with
      table := purge st.connection.table (input.community.map CommunityEntry.handle) } }

end Caveat.Index
