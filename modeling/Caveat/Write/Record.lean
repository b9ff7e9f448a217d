import Caveat.Write.Disk

/-!
# `recordEntry`

A new entry gets an id that the index does not hold yet, a file under its category and a row. The
id comes from the title unless the caller passes one, which the tool schema lets through unread.
-/

namespace Caveat.Write

open Js Entry Index

inductive Confidence where
  | confirmed
  | reproduced
  | tentative
deriving DecidableEq

inductive EntryOutcome where
  | resolved
  | impossible
deriving DecidableEq

inductive Visibility where
  | isPublic
  | isPrivate
deriving DecidableEq

def Confidence.text : Confidence → Text
  | .confirmed => "confirmed".toList
  | .reproduced => "reproduced".toList
  | .tentative => "tentative".toList

def EntryOutcome.text : EntryOutcome → Text
  | .resolved => "resolved".toList
  | .impossible => "impossible".toList

def Visibility.text : Visibility → Text
  | .isPublic => "public".toList
  | .isPrivate => "private".toList

/-- `RecordInput`. `id` is not in the schema, so any value may come with the other keys. -/
structure RecordInput where
  title : Text
  symptom : Text
  cause : Option Text := none
  resolution : Option Text := none
  evidence : Option Text := none
  context : Option Text := none
  confidence : Option Confidence := none
  outcome : Option EntryOutcome := none
  visibility : Option Visibility := none
  tags : Option (List Text) := none
  environment : Option (List (Text × Text)) := none
  id : JsValue := .undefined
  category : Option Text := none

/-- The clock, the random generator and the machine, as one call reads them. -/
structure RecordContext where
  source : Source := .own
  nowDate : Int
  /-- `formatYmd(nowDate)`. -/
  ymd : Text
  /-- The `yyyymmdd-hhhhhh` of a slug that the title does not give. -/
  slugStamp : Text
  /-- `generateSourceSession(now)`. -/
  session : Text
  /-- `fingerprint()`. -/
  fingerprint : List (Text × Text)

/-- `[a-z0-9]`. -/
def isSlugChar (c : Char) : Bool := ('a' ≤ c && c ≤ 'z') || ('0' ≤ c && c ≤ '9')

/-- `lowered.replace(/[^a-z0-9]+/g, '-')`; the flag says whether a hyphen stands for a run. -/
def hyphenate : Bool → Text → Text
  | _, [] => []
  | inRun, c :: s =>
      if isSlugChar c then c :: hyphenate false s
      else if inRun then hyphenate true s
      else '-' :: hyphenate true s

/-- `slugify`. -/
def slugify (host : Host) (title slugStamp : Text) : Text :=
  let slug := ((hyphenate false (host.lower title)).dropWhile (· = '-')).rdropWhile (· = '-')
  if slug.isEmpty then "entry-".toList ++ slugStamp else slug

/-- `${value}` of a value that can be bound. -/
def template (host : Host) : JsValue → Text
  | .string s => s
  | .number n => host.numberText n
  | _ => []

/-- `entryExists`. -/
def entryExists (host : Host) (t : Table) (source : Source) (id : JsValue) :
    Except DbError Bool := do
  return (← select host t source id).isSome

/-- The first free candidate `${baseId}-${n}`, from `n` on. -/
def numberedId (host : Host) (t : Table) (source : Source) (baseId : JsValue) :
    Nat → Nat → Option Text
  | 0, _ => none
  | fuel + 1, n =>
      let candidate := template host baseId ++ '-' :: ofNat n
      if (t.find? (source, candidate)).isSome then numberedId host t source baseId fuel (n + 1)
      else some candidate

/--
`resolveCollision`. One more candidate than the table has rows is enough, and the loop over them
always finds one (`numberedId_isSome`).
-/
def resolveCollision (host : Host) (t : Table) (source : Source) (baseId : JsValue) :
    Except DbError JsValue := do
  if ← entryExists host t source baseId then
    match numberedId host t source baseId (t.rows.length + 1) 2 with
    | some id => return .string id
    | none => return baseId
  else return baseId

/-- `frontmatter` of a new entry. -/
def recordFrontmatter (input : RecordInput) (ctx : RecordContext) (id : JsValue) : JsValue :=
  let environment := spread ctx.fingerprint (entries (input.environment.getD []))
  .object
    [("id".toList, id),
     ("title".toList, .string input.title),
     ("visibility".toList, .string (input.visibility.getD .isPrivate).text),
     ("confidence".toList, .string (input.confidence.getD .tentative).text),
     ("outcome".toList, .string (input.outcome.getD .resolved).text),
     ("tags".toList, .array ((input.tags.getD []).map .string)),
     ("environment".toList, .object (environment.map (fun f => (f.1, .string f.2)))),
     ("source_project".toList, .null),
     ("source_session".toList, .string ctx.session),
     ("created_at".toList, .string ctx.ymd),
     ("updated_at".toList, .string ctx.ymd),
     ("last_verified".toList, .string ctx.ymd)]

/-- `sections` of a new entry. -/
def recordSections (input : RecordInput) : List (Text × Text) :=
  (input.context.map (fun c => ("Context".toList, c))).toList ++
    [("Symptom".toList, input.symptom),
     ("Cause".toList, input.cause.getD []),
     ("Resolution".toList, input.resolution.getD []),
     ("Evidence".toList, input.evidence.getD [])]

def defaultCategory : Text := "misc".toList

/-- `${category}/${id}.md`. -/
def recordPath (host : Host) (input : RecordInput) (id : JsValue) : Text :=
  input.category.getD defaultCategory ++ '/' :: (template host id ++ ".md".toList)

/-- `input.id ?? slugify(input.title, now)`. -/
def baseId (host : Host) (input : RecordInput) (ctx : RecordContext) : JsValue :=
  input.id.orElse (.string (slugify host input.title ctx.slugStamp))

def liftDb {α : Type} : Except DbError α → Except WriteError α
  | .ok a => .ok a
  | .error e => .error (.db e)

def liftEntry {α : Type} : Except EntryError α → Except WriteError α
  | .ok a => .ok a
  | .error e => .error (.entry e)

attribute [local simp] liftDb liftEntry

@[simp] theorem liftDb_ok {α : Type} {x : Except DbError α} {a : α} :
    liftDb x = .ok a ↔ x = .ok a := by
  cases x <;> simp

@[simp] theorem liftEntry_ok {α : Type} {x : Except EntryError α} {a : α} :
    liftEntry x = .ok a ↔ x = .ok a := by
  cases x <;> simp

/-- The row of a new entry, once its file has a time. -/
def recordRow (host : Host) (input : RecordInput) (ctx : RecordContext) (id : JsValue) (body : Text)
    (mtime : Int) : UpsertRow :=
  let frontmatter := recordFrontmatter input ctx id
  { id, source := ctx.source, path := recordPath host input id
    title := frontmatter.get "title".toList, body, frontmatterJson := frontmatter.stringify
    tags := (frontmatter.get "tags".toList).stringify
    confidence := frontmatter.get "confidence".toList
    visibility := frontmatter.get "visibility".toList
    fileMtime := mtime, indexedAt := ctx.nowDate }

/-- The text, the place and the row of a new entry under an id. -/
def prepareUnder (host : Host) (input : RecordInput) (ctx : RecordContext) (id : JsValue) :
    Except WriteError Prepared := do
  let built ← liftEntry (buildEntry host (recordFrontmatter input ctx id) (recordSections input))
  return { relPath := recordPath host input id, content := built.content
           row := recordRow host input ctx id built.body }

/-- Everything before the file is written. -/
def prepareRecord (host : Host) (input : RecordInput) (ctx : RecordContext) (t : Table) :
    Except WriteError Prepared := do
  let id ← liftDb (resolveCollision host t ctx.source (baseId host input ctx))
  prepareUnder host input ctx id

/-- `recordEntry`: the result and what it leaves. -/
def recordEntry (host : Host) (env : Environment) (input : RecordInput) (ctx : RecordContext)
    (w : World) : Except WriteError EntryRef × World :=
  match prepareRecord host input ctx w.table with
  | .error e => (.error e, w)
  | .ok p => commitEntry host env w p

end Caveat.Write
