import Caveat.Index.Table
import Caveat.Lib.Transition

/-!
# Opening the database

`openDb` reads `user_version`. On an empty file it runs `schema.sql`, whose first statement sets the
version; on any other it runs the migrations behind that version, and then derives the role texts of
the rows that have none. Each statement commits by itself. Several processes may open one file, and a
process may die between two statements.
-/

namespace Caveat.Index.Opening

open Js Entry Lib

/-! ## The file -/

/-- A column that a migration adds to `entries`. -/
inductive Column where
  | lastHitAt
  | topicalText
  | symptomText
deriving DecidableEq

/-- `entries_ai`, `entries_ad` and `entries_au`. -/
inductive Trigger where
  | afterInsert
  | afterDelete
  | afterUpdate
deriving DecidableEq

structure Schema where
  userVersion : Nat
  /-- The added columns of `entries`, if the table is there. -/
  entries : Option (List Column)
  /-- `entries_fts`. -/
  search : Bool
  triggers : List Trigger
deriving DecidableEq

/-- A row of `entries`. A column that the table does not have reads as NULL. -/
structure StoredEntry where
  rowid : Nat
  id : Text
  source : Text
  path : Text
  title : Text
  body : Text
  frontmatterJson : JsValue
  tags : Option JsValue
  confidence : Option Text
  visibility : Option Text
  fileMtime : Int
  indexedAt : Int
  lastHitAt : Option Int
  topicalText : Option Text
  symptomText : Option Text

structure Database where
  schema : Schema
  rows : List StoredEntry

inductive Statement where
  | setUserVersion (n : Nat)
  | createEntries
  | createSearch
  | createTrigger (t : Trigger)
  | addColumn (c : Column)
  /-- `UPDATE entries SET topical_text = ?, symptom_text = ? WHERE rowid = ?`. -/
  | setRoleTexts (rowid : Nat) (texts : RoleTexts)
deriving DecidableEq

/-- What a statement makes of the schema, or `none` if it fails. -/
def Statement.change (s : Schema) : Statement → Option Schema
  | .setUserVersion n => some { s with userVersion := n }
  | .createEntries =>
      if s.entries.isSome then none
      else some { s with entries := some [.lastHitAt, .topicalText, .symptomText] }
  | .createSearch => if s.search then none else some { s with search := true }
  | .createTrigger t =>
      if s.entries.isNone || s.triggers.contains t then none
      else some { s with triggers := s.triggers ++ [t] }
  | .addColumn c =>
      s.entries.bind (fun columns =>
        if columns.contains c then none else some { s with entries := some (columns ++ [c]) })
  | .setRoleTexts _ _ =>
      s.entries.bind (fun columns =>
        if columns.contains .topicalText && columns.contains .symptomText then some s else none)

def StoredEntry.withTexts (r : StoredEntry) (texts : RoleTexts) : StoredEntry :=
  { r with topicalText := some texts.topical, symptomText := some texts.symptom }

def Statement.write (rows : List StoredEntry) : Statement → List StoredEntry
  | .setRoleTexts rowid texts =>
      rows.map (fun r => if r.rowid = rowid then r.withTexts texts else r)
  | _ => rows

def Statement.exec (st : Statement) (db : Database) : Option Database :=
  (st.change db.schema).map (fun schema => ⟨schema, st.write db.rows⟩)

/-- Statements in turn, up to the first that fails. -/
def execAll : List Statement → Database → Option Database
  | [], db => some db
  | st :: left, db => (st.exec db).bind (execAll left)

/-! ## `openDb` -/

/-- `schema.sql`. -/
def schemaSql : List Statement :=
  [.setUserVersion 3, .createEntries, .createSearch, .createTrigger .afterInsert,
    .createTrigger .afterDelete, .createTrigger .afterUpdate]

/-- `migrations/`, in their order. -/
def migrations : List (Nat × List Statement) :=
  [(2, [.addColumn .lastHitAt]), (3, [.addColumn .topicalText, .addColumn .symptomText])]

/-- `applyMigrations`. -/
def applyMigrations (currentVersion : Nat) : List Statement :=
  (migrations.filter (fun m => currentVersion < m.1)).flatMap
    (fun m => m.2 ++ [.setUserVersion m.1])

section

variable (host : Host)

def StoredEntry.roleTexts (r : StoredEntry) : RoleTexts :=
  deriveRoleTexts host (.string r.title) r.body (r.tags.getD .null) r.frontmatterJson

/-- The updates of `backfillRoleTexts`. It returns where the rows cannot be selected. -/
def backfillRoleTexts (db : Database) : List Statement :=
  if db.schema.entries.any (·.contains .topicalText) then
    (db.rows.filter (·.topicalText.isNone)).map (fun r => .setRoleTexts r.rowid (r.roleTexts host))
  else []

/-- `openDb`: the file as it leaves it, or `none` if it throws. -/
def openDb (db : Database) : Option Database :=
  if db.schema.userVersion = 0 then execAll schemaSql db
  else (execAll (applyMigrations db.schema.userVersion) db).bind
    (fun db => execAll (backfillRoleTexts host db) db)

/-! ## Processes that open one file -/

inductive Phase where
  | start
  /-- The statements of `schema.sql` or of the migrations that are left. -/
  | script (left : List Statement) (backfills : Bool)
  | backfill (left : List Statement)
  | opened
  | threw
  | died

/-- The next statement, with what follows it. -/
def runStatement (db : Database) (st : Statement) (next : Phase) : Database × Phase :=
  match st.exec db with
  | some db' => (db', next)
  | none => (db, .threw)

/-- The next thing that a process does. -/
def advance (db : Database) : Phase → Option (Database × Phase)
  | .start =>
      some (db, if db.schema.userVersion = 0 then .script schemaSql false
        else .script (applyMigrations db.schema.userVersion) true)
  | .script (st :: left) backfills => some (runStatement db st (.script left backfills))
  | .script [] false => some (db, .opened)
  | .script [] true => some (db, .backfill (backfillRoleTexts host db))
  | .backfill (st :: left) => some (runStatement db st (.backfill left))
  | .backfill [] => some (db, .opened)
  | _ => none

/-- The file, and the processes that open it. -/
structure World (Proc : Type) where
  db : Database
  phase : Proc → Phase

inductive Action (Proc : Type) where
  | advance (p : Proc)
  | die (p : Proc)

variable {Proc : Type} [DecidableEq Proc]

def World.setPhase (w : World Proc) (p : Proc) (phase : Phase) : World Proc :=
  { w with phase := Function.update w.phase p phase }

def step (w : World Proc) : Action Proc → Option (World Proc)
  | .advance p =>
      (advance host w.db (w.phase p)).map (fun next => { w with db := next.1 }.setPhase p next.2)
  | .die p => some (w.setPhase p .died)

end

/-! ## What a later opening finds -/

variable {Proc : Type}

def emptySchema : Schema := ⟨0, none, false, []⟩

def allTriggers : List Trigger := [.afterInsert, .afterDelete, .afterUpdate]

/-- The schema of a version from 1 to 3. -/
def versionSchema (version : Nat) (columns : List Column) : Schema :=
  ⟨version, some columns, true, allTriggers⟩

def currentSchema : Schema := versionSchema 3 [.lastHitAt, .topicalText, .symptomText]

/-- An empty file, or one of an older version or the current one. -/
structure Start (db : Database) : Prop where
  schema : db.schema ∈ [emptySchema, versionSchema 1 [], versionSchema 2 [.lastHitAt], currentSchema]
  empty : db.schema = emptySchema → db.rows = []
  rowids : (db.rows.map (·.rowid)).Nodup

/-- A row with its role texts. -/
def StoredEntry.complete (host : Host) (r : StoredEntry) : StoredEntry :=
  if r.topicalText.isNone then r.withTexts (r.roleTexts host) else r

/-- A later `openDb` succeeds, with the current schema and every row of the start. -/
def Recovers (host : Host) (start db : Database) : Prop :=
  ∃ db', openDb host db = some db' ∧ db'.schema = currentSchema ∧
    db'.rows = start.rows.map (StoredEntry.complete host)

/-- In the middle of `schema.sql` or of a migration. -/
def Phase.inside : Phase → Bool
  | .script left false => left ≠ schemaSql && left ≠ []
  | .script left true => !((migrations.map (fun m => applyMigrations (m.1 - 1))).contains left ||
      left.isEmpty)
  | _ => false

def Phase.finished : Phase → Bool
  | .opened => true
  | .threw => true
  | .died => true
  | _ => false

/-- No process dies in the middle of `schema.sql` or of a migration. -/
def DiesBetween (w : World Proc) : Action Proc → Prop
  | .advance _ => True
  | .die p => (w.phase p).inside = false

/-- The processes begin, on a file. -/
def Begins (start : Database) (w : World Proc) : Prop := w.db = start ∧ ∀ p, w.phase p = .start

end Caveat.Index.Opening
