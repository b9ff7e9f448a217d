import Caveat.Entry.Markdown
import Caveat.Lib.Loop
import Caveat.Lib.RowStore

/-!
# The `entries` table

One row per `(source, id)`, numbered by `AUTOINCREMENT`, and `upsertEntry`, which every writer of
the index goes through. A bound value is refused by node:sqlite, or stored with the column's TEXT
affinity. JSON columns are kept by the value they hold and times by their millisecond.
-/

namespace Caveat.Index

open Js Entry

inductive Source where
  | own
  /-- `community/${handle}`. -/
  | community (handle : Text)
deriving DecidableEq

/-- What `upsertEntry` writes into a row besides its key and `indexed_at`. -/
structure Columns where
  path : Text
  title : Text
  body : Text
  frontmatterJson : JsValue
  tags : Option JsValue
  confidence : Option Text
  visibility : Option Text
  fileMtime : Int
  roleTexts : RoleTexts

structure Record where
  columns : Columns
  indexedAt : Int
  /-- `last_hit_at`, which no writer of a row changes. -/
  lastHitAt : Option Int

abbrev Row := Lib.StoredRow (Source × Text) Record

/-- The table. `UNIQUE (source, id)` and the row numbers are carried by the store. -/
abbrev Table := Lib.RowStore (Source × Text) Record

/-- What a source's rows say, by id. -/
def Table.contents (t : Table) (source : Source) (id : Text) : Option Record :=
  t.value? (source, id)

/-- The rows of a source, numbers included. -/
def Table.rowsOf (t : Table) (source : Source) : List Row :=
  t.rows.filter (fun r => r.key.1 = source)

inductive DbError where
  /-- `Provided value cannot be bound to SQLite parameter`. -/
  | unbindable
  /-- `NOT NULL constraint failed: entries.${column}`. -/
  | notNull (column : String)
  /-- `UNIQUE constraint failed: touched.rowid`. -/
  | touchedTwice
deriving DecidableEq

/--
A bound value as a TEXT column stores and compares it, `none` for NULL. `undefined`, booleans,
arrays and objects cannot be bound, and SQLite reads `NaN` as NULL.
-/
def bindText (host : Host) : JsValue → Except DbError (Option Text)
  | .string s => .ok (some s)
  | .null => .ok none
  | .number .nan => .ok none
  | .number n => .ok (some (host.realText n))
  | _ => .error .unbindable

/-- `UpsertRow`. `JSON.stringify` may have given `undefined`, which cannot be bound. -/
structure UpsertRow where
  id : JsValue
  source : Source
  path : Text
  title : JsValue
  body : Text
  frontmatterJson : Option JsValue
  tags : Option JsValue
  confidence : JsValue
  visibility : JsValue
  fileMtime : Int
  indexedAt : Int

def bindJson : Option JsValue → Except DbError JsValue
  | some v => .ok v
  | none => .error .unbindable

/-- The parameters after the key, as `.run` binds and the NOT NULL columns accept them. -/
def UpsertRow.columns (host : Host) (row : UpsertRow) : Except DbError Columns := do
  let title ← bindText host row.title
  let frontmatterJson ← bindJson row.frontmatterJson
  let tags ← bindJson row.tags
  let confidence ← bindText host row.confidence
  let visibility ← bindText host row.visibility
  match title with
  | none => .error (.notNull "title")
  | some title =>
      return { path := row.path, title, body := row.body, frontmatterJson, tags := some tags,
               confidence, visibility, fileMtime := row.fileMtime
               roleTexts := deriveRoleTexts host row.title row.body tags frontmatterJson }

/-- `SELECT … WHERE source = ? AND id = ?`: a NULL parameter matches no row. -/
def select (host : Host) (t : Table) (source : Source) (id : JsValue) :
    Except DbError (Option Row) := do
  let id ← bindText host id
  return id.bind (fun id => t.find? (source, id))

/-- Write the columns, keeping `last_hit_at`. -/
def Table.write (t : Table) (source : Source) (id : Text) (columns : Columns) (indexedAt : Int) :
    Table × Nat :=
  t.put (source, id) (fun old =>
    { columns, indexedAt, lastHitAt := old.bind Record.lastHitAt })

/-- `upsertEntry`: the table and the row's number. -/
def upsertEntry (host : Host) (t : Table) (row : UpsertRow) : Except DbError (Table × Nat) := do
  let id ← bindText host row.id
  let columns ← row.columns host
  match id with
  | none => .error (.notNull "id")
  | some id => return t.write row.source id columns row.indexedAt

/-- The path and the time of a row go into its columns as they are. -/
theorem columns_fields {host : Host} {row : UpsertRow} {columns : Columns}
    (h : row.columns host = .ok columns) :
    columns.path = row.path ∧ columns.fileMtime = row.fileMtime := by
  rw [UpsertRow.columns] at h
  obtain ⟨title, _, h⟩ := Lib.bind_eq_ok.mp h
  obtain ⟨_, _, h⟩ := Lib.bind_eq_ok.mp h
  obtain ⟨_, _, h⟩ := Lib.bind_eq_ok.mp h
  obtain ⟨_, _, h⟩ := Lib.bind_eq_ok.mp h
  obtain ⟨_, _, h⟩ := Lib.bind_eq_ok.mp h
  cases title with
  | none => exact absurd h (by simp)
  | some title => cases h; exact ⟨rfl, rfl⟩

/-! ## What a write does to the contents -/

theorem contents_write (t : Table) (source s : Source) (id i : Text) (columns : Columns)
    (indexedAt : Int) :
    (t.write source id columns indexedAt).1.contents s i =
      if s = source ∧ i = id then
        some { columns, indexedAt, lastHitAt := (t.contents source id).bind Record.lastHitAt }
      else t.contents s i := by
  simp only [Table.contents, Table.write, Lib.RowStore.value?_put, Prod.mk.injEq]

/-- A write leaves the rows of the other sources as they were, numbers included. -/
theorem rowsOf_write (t : Table) {source s : Source} (h : s ≠ source) (id : Text)
    (columns : Columns) (indexedAt : Int) :
    (t.write source id columns indexedAt).1.rowsOf s = t.rowsOf s := by
  have := t.filter_put (source, id)
    (fun old => { columns, indexedAt, lastHitAt := old.bind Record.lastHitAt })
    (fun k => decide (k.1 = s)) (decide_eq_false (fun he => h he.symm))
  simpa only [Table.rowsOf, Table.write] using this

/-- The contents of a source are read off its rows. -/
theorem contents_eq_of_rowsOf {t t' : Table} {s : Source} (h : t.rowsOf s = t'.rowsOf s)
    (id : Text) : t.contents s id = t'.contents s id := by
  have hfind : ∀ u : Table, u.contents s id =
      ((u.rowsOf s).find? (fun r => r.key = (s, id))).map Lib.StoredRow.value := by
    intro u
    rw [Table.contents, Lib.RowStore.value?, Lib.RowStore.find?, Table.rowsOf, List.find?_filter]
    congr 2
    funext r
    by_cases hr : r.key = (s, id) <;> simp [hr]
  rw [hfind t, hfind t', h]

end Caveat.Index
