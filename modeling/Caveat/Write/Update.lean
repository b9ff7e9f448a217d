import Caveat.Write.Record

/-!
# `updateEntry`

The file of an indexed entry is read, its frontmatter is merged with the patch, its body is read
into sections and written back with the patched ones, and the row is upserted under the id and
the path the index has.
-/

namespace Caveat.Write

open Js Entry Index

structure UpdatePatch where
  frontmatter : Option (List (Text × JsValue)) := none
  sections : Option (List (Text × Text)) := none

structure UpdateContext where
  source : Source := .own
  nowDate : Int
  /-- `formatYmd(nowDate)`. -/
  ymd : Text

def immutableKeys : List Text :=
  ["id".toList, "created_at".toList, "source_session".toList, "source_project".toList]

/-- The own properties that `{ ...v }` copies. -/
def ownFields : JsValue → List (Text × JsValue)
  | .object fields => entries fields
  | .array items => items.zipIdx.map (fun (v, i) => (ofNat i, v))
  | .string s => s.zipIdx.map (fun (c, i) => (ofNat i, .string [c]))
  | _ => []

/-- `patch.frontmatter?.key`. -/
def UpdatePatch.get (patch : UpdatePatch) (key : Text) : JsValue :=
  JsValue.get (.object (patch.frontmatter.getD [])) key

/-- `{ ...environment, ...patch.environment }`. -/
def mergedEnvironment (parsed : JsValue) (patch : UpdatePatch) : JsValue :=
  .object (spread (spread [] (ownFields (parsed.get "environment".toList)))
    (ownFields ((patch.get "environment".toList).orElse (.object []))))

/-- The value an update sets a key to, over the patched copy of the frontmatter. -/
def forcedKeys (parsed : JsValue) (patch : UpdatePatch) (ymd : Text) : List (Text × JsValue) :=
  [("environment".toList, mergedEnvironment parsed patch),
   ("id".toList, parsed.get "id".toList),
   ("source_session".toList, parsed.get "source_session".toList),
   ("source_project".toList, parsed.get "source_project".toList),
   ("created_at".toList, parsed.get "created_at".toList),
   ("updated_at".toList, .string ymd)]

/-- `mergedFrontmatter`, with the assignment of the tags after it. -/
def mergedFrontmatter (parsed : JsValue) (patch : UpdatePatch) (ymd : Text) : JsValue :=
  let merged := spread (spread (spread [] (ownFields parsed))
    (entries (patch.frontmatter.getD []))) (forcedKeys parsed patch ymd)
  match patch.get "tags".toList with
  | .undefined => .object merged
  | tags => .object (setProp merged "tags".toList tags)

/-- The key under which a patched heading is stored: an existing one that differs only in case
and outer white space, unless it is empty. -/
def sectionKey (host : Host) (sections : List (Text × Text)) (heading : Text) : Text :=
  match (entries sections).find? (fun s =>
      host.lower (trim s.1) = host.lower (trim heading)) with
  | some s => if s.1.isEmpty then heading else s.1
  | none => heading

/-- One turn of the loop over the patched sections. -/
def patchSection (host : Host) (sections : List (Text × Text)) (patched : Text × Text) :
    List (Text × Text) :=
  assign sections (sectionKey host sections patched.1) patched.2

/-- `mergedSections`. -/
def mergedSections (host : Host) (sections : List (Text × Text)) (patch : UpdatePatch) :
    List (Text × Text) :=
  (entries (patch.sections.getD [])).foldl (patchSection host) (spread [] (entries sections))

/-- The text that an update writes for a file it read. -/
def rebuildEntry (host : Host) (parsed : ParsedMarkdown) (patch : UpdatePatch) (ymd : Text) :
    Except EntryError BuiltEntry :=
  buildEntry host (mergedFrontmatter parsed.frontmatter patch ymd)
    (mergedSections host parsed.sections patch)

/-- The first key of the patch that may not be changed. -/
def assertMutable (patch : UpdatePatch) : Except WriteError Unit :=
  match (entries (patch.frontmatter.getD [])).find? (fun f =>
      immutableKeys.any (fun key => key = f.1)) with
  | some f => .error (.immutableKey f.1)
  | none => .ok ()

/-- The row and the text of the file that an update starts from. -/
def readForUpdate (env : Environment) (id : Text) (ctx : UpdateContext) (w : World) :
    Except WriteError (Row × Text) :=
  if ctx.source ≠ .own then .error .notOwn
  else
    match w.table.find? (ctx.source, id) with
    | none => .error (.notFound id)
    | some row =>
        match w.disk (Lib.PosixPath.join env.entriesRoot row.value.columns.path) with
        | none => .error .io
        | some file => .ok (row, file.text)

/-- `parsed.frontmatter.environment` is read off the frontmatter. -/
def assertObject : JsValue → Except WriteError Unit
  | .undefined => .error .typeError
  | .null => .error .typeError
  | _ => .ok ()

/-- The row of an updated entry, once its file has a time. -/
def updateRow (id : Text) (ctx : UpdateContext) (relPath : Text) (merged : JsValue) (body : Text)
    (mtime : Int) : UpsertRow :=
  { id := .string id, source := ctx.source, path := relPath, title := merged.get "title".toList
    body, frontmatterJson := merged.stringify, tags := (merged.get "tags".toList).stringify
    confidence := merged.get "confidence".toList, visibility := merged.get "visibility".toList
    fileMtime := mtime, indexedAt := ctx.nowDate }

/-- Everything before the file is written. -/
def prepareUpdate (host : Host) (env : Environment) (id : Text) (patch : UpdatePatch)
    (ctx : UpdateContext) (w : World) : Except WriteError Prepared := do
  let (row, raw) ← readForUpdate env id ctx w
  let parsed ← liftEntry (parseMarkdown host raw true)
  assertMutable patch
  assertObject parsed.frontmatter
  let built ← liftEntry (rebuildEntry host parsed patch ctx.ymd)
  let merged := mergedFrontmatter parsed.frontmatter patch ctx.ymd
  return { relPath := row.value.columns.path, content := built.content
           row := updateRow id ctx row.value.columns.path merged built.body }

/-- `updateEntry`: the result and what it leaves. -/
def updateEntry (host : Host) (env : Environment) (id : Text) (patch : UpdatePatch)
    (ctx : UpdateContext) (w : World) : Except WriteError EntryRef × World :=
  match prepareUpdate host env id patch ctx w with
  | .error e => (.error e, w)
  | .ok p => commitEntry host env w p

end Caveat.Write
