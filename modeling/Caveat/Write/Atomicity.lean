import Caveat.Index.Completion
import Caveat.Write.RecordProof
import Caveat.Write.UpdateProof

/-!
# Which failed writes leave no trace

Both writers put the file down first and the row after it, and neither takes the file back. A
call that throws therefore leaves everything as it was just when it throws before the write. What
can still throw after it is the file system, SQLite, and a row that cannot be bound, which a
hand-written frontmatter gives; `failed_writes_atomic_iff` says exactly which calls are safe.
-/

namespace Caveat.Write

open Js Entry Index

/-- A call that throws leaves the files and the rows as they were. -/
def Atomic (w : World) (r : Except WriteError EntryRef × World) : Prop :=
  ∀ e, r.1 = .error e → r.2 = w

/-- A value that can be bound: a string, a number or `null`. -/
def bindable : JsValue → Bool
  | .string _ => true
  | .number _ => true
  | .null => true
  | _ => false

/-- A value that fills a NOT NULL column: a string or a number other than `NaN`. -/
def hasText : JsValue → Bool
  | .string _ => true
  | .number .nan => false
  | .number _ => true
  | _ => false

/-- Nothing fails once the file has been opened. -/
def Unharmed (env : Environment) : Prop := env.fault = none

variable {host : Host}

theorem bindText_ok_iff (host : Host) {v : JsValue} : (∃ s, bindText host v = .ok s) ↔ bindable v = true := by
  cases v with
  | number n => cases n <;> simp [bindText, bindable]
  | _ => simp [bindText, bindable]

theorem bindText_some_iff (host : Host) {v : JsValue} :
    (∃ s, bindText host v = .ok (some s)) ↔ hasText v = true := by
  cases v with
  | number n => cases n <;> simp [bindText, hasText]
  | _ => simp [bindText, hasText]

/-- When the columns of a row can be stored. -/
theorem columns_ok_iff {row : UpsertRow} : (∃ columns, row.columns host = .ok columns) ↔
    hasText row.title = true ∧ row.frontmatterJson.isSome = true ∧ row.tags.isSome = true ∧
      bindable row.confidence = true ∧ bindable row.visibility = true := by
  rw [← bindText_some_iff host, ← bindText_ok_iff host (v := row.confidence),
    ← bindText_ok_iff host (v := row.visibility)]
  constructor
  · rintro ⟨columns, h⟩
    rw [UpsertRow.columns] at h
    obtain ⟨title, htitle, h⟩ := Lib.bind_eq_ok.mp h
    obtain ⟨json, hjson, h⟩ := Lib.bind_eq_ok.mp h
    obtain ⟨tags, htags, h⟩ := Lib.bind_eq_ok.mp h
    obtain ⟨confidence, hconf, h⟩ := Lib.bind_eq_ok.mp h
    obtain ⟨visibility, hvis, h⟩ := Lib.bind_eq_ok.mp h
    have hsome : ∀ {x : Option JsValue} {v : JsValue}, bindJson x = .ok v → x.isSome = true := by
      intro x v hx
      cases x with
      | none => exact absurd hx (by simp [bindJson])
      | some _ => rfl
    cases title with
    | none => exact absurd h (by simp)
    | some title =>
        exact ⟨⟨title, htitle⟩, hsome hjson, hsome htags, ⟨confidence, hconf⟩, visibility, hvis⟩
  · rintro ⟨⟨title, htitle⟩, hjson, htags, ⟨confidence, hconf⟩, visibility, hvis⟩
    obtain ⟨json, hjson⟩ := Option.isSome_iff_exists.mp hjson
    obtain ⟨tags, htags⟩ := Option.isSome_iff_exists.mp htags
    refine ⟨{ path := row.path, title, body := row.body, frontmatterJson := json,
              tags := some tags, confidence, visibility, fileMtime := row.fileMtime
              roleTexts := deriveRoleTexts host row.title row.body tags json }, ?_⟩
    simp only [UpsertRow.columns, htitle, hjson, htags, hconf, hvis, bindJson, bind, Except.bind]
    rfl

theorem upsertEntry_ok_iff {t : Table} {row : UpsertRow} :
    (∃ res, upsertEntry host t row = .ok res) ↔
      hasText row.id = true ∧ ∃ columns, row.columns host = .ok columns := by
  rw [← bindText_some_iff host]
  constructor
  · rintro ⟨res, h⟩
    obtain ⟨i, columns, hid, hcols, _⟩ := upsertEntry_passes h
    exact ⟨⟨i, hid⟩, columns, hcols⟩
  · rintro ⟨⟨i, hid⟩, columns, hcols⟩
    exact ⟨_, upsertEntry_ok hid hcols⟩

/-! ## The second half of a call -/

variable {env : Environment} {w : World} {p : Prepared}

/-- Once a file is prepared, the call is atomic just when the write does not start or nothing
fails after it. -/
theorem commitEntry_atomic_iff : Atomic w (commitEntry host env w p) ↔
    '\x00' ∈ p.relPath ∨ env.fault = some .open ∨
      (Unharmed env ∧ ∃ res, upsertEntry host w.table (p.row env.mtime) = .ok res) := by
  have hmoved : ∀ text, ({ w with
      disk := w.disk.write (Lib.PosixPath.join env.entriesRoot p.relPath) text } : World) ≠ w :=
    fun text he => write_ne _ _ text (congrArg World.disk he)
  unfold Atomic Unharmed commitEntry
  by_cases hnul : '\x00' ∈ p.relPath
  · simp [hnul]
  · rw [if_neg hnul]
    cases env.fault with
    | some fault =>
        cases fault with
        | «open» => simp
        | write torn => simpa [hnul] using hmoved torn
        | stat => simpa [hnul] using hmoved p.content
        | database => simpa [hnul] using hmoved p.content
    | none =>
        simp only [hnul, indexEntry, reduceCtorEq, false_or, true_and]
        cases hups : upsertEntry host w.table (p.row env.mtime) with
        | error e => simpa using hmoved p.content
        | ok res => simp

/-! ## Records -/

variable {input : RecordInput} {rctx : RecordContext} {id : JsValue} {body : Text} {mtime : Int}

/-- Everything but the id of a new row can be stored. -/
theorem recordRow_columns :
    ∃ columns, (recordRow host input rctx id body mtime).columns host = .ok columns :=
  columns_ok_iff.mpr ⟨rfl, rfl, rfl, rfl, rfl⟩

/-- What can be looked up can be bound. -/
theorem bindText_of_select {t : Table} {source : Source} {v : JsValue} {r : Option Row}
    (h : select host t source v = .ok r) :
    ∃ s, bindText host v = .ok s ∧ (r.isSome = true → s.isSome = true) := by
  obtain ⟨s, hs, hr⟩ := Lib.bind_eq_ok.mp h
  refine ⟨s, hs, fun hsome => ?_⟩
  have hr' : s.bind (fun i => t.find? (source, i)) = r := Except.ok.inj hr
  cases s with
  | none => rw [← hr'] at hsome; exact absurd hsome (by simp)
  | some s => rfl

theorem hasText_baseId (h : bindable (baseId host input rctx) = true) :
    hasText (baseId host input rctx) = true ↔ input.id ≠ .number .nan := by
  unfold baseId at h ⊢
  cases hid : input.id with
  | number n => cases n <;> simp [JsValue.orElse, hasText]
  | string s => simp [JsValue.orElse, hasText]
  | undefined => simp [JsValue.orElse, hasText]
  | null => simp [JsValue.orElse, hasText]
  | _ => rw [hid] at h; exact absurd h (by simp [JsValue.orElse, bindable])

/-- The id of a new row is refused by the table just when the caller passed `NaN`. -/
theorem hasText_id {t : Table}
    (h : resolveCollision host t rctx.source (baseId host input rctx) = .ok id) :
    hasText id = true ↔ input.id ≠ .number .nan := by
  obtain ⟨hselect, rfl | ⟨⟨r, hheld⟩, n, rfl⟩⟩ := resolveCollision_ok h
  · obtain ⟨s, hs, _⟩ := bindText_of_select hselect
    exact hasText_baseId ((bindText_ok_iff host).mp ⟨s, hs⟩)
  · obtain ⟨s, hs, hsome⟩ := bindText_of_select hheld
    obtain ⟨s, rfl⟩ := Option.isSome_iff_exists.mp (hsome rfl)
    have hbase := (hasText_baseId ((bindText_ok_iff host).mp ⟨_, hs⟩)).mp ((bindText_some_iff host).mp ⟨s, hs⟩)
    simp [hasText, hbase]

/-- A new entry with this id gets to its write: the id is free and the text fits. -/
def RecordWrites (host : Host) (input : RecordInput) (ctx : RecordContext) (t : Table)
    (id : JsValue) : Prop :=
  resolveCollision host t ctx.source (baseId host input ctx) = .ok id ∧
    ∃ built, buildEntry host (recordFrontmatter input ctx id) (recordSections input) = .ok built

/-- Nothing after the start of a new entry's write fails. -/
def RecordSafe (host : Host) (env : Environment) (input : RecordInput) (ctx : RecordContext)
    (t : Table) : Prop :=
  ∀ id, RecordWrites host input ctx t id → '\x00' ∈ recordPath host input id ∨
    env.fault = some .open ∨ (Unharmed env ∧ input.id ≠ .number .nan)

theorem recordEntry_atomic_iff :
    Atomic w (recordEntry host env input rctx w) ↔ RecordSafe host env input rctx w.table := by
  -- whether the row of the prepared file is stored depends on the id alone
  have hcommit : ∀ (id : JsValue) (built : BuiltEntry), resolveCollision host w.table rctx.source (baseId host input rctx) =
      .ok id → (Atomic w (commitEntry host env w
        { relPath := recordPath host input id, content := built.content
          row := recordRow host input rctx id built.body }) ↔
      '\x00' ∈ recordPath host input id ∨ env.fault = some .open ∨
        (Unharmed env ∧ input.id ≠ .number .nan)) := by
    intro id built hid
    rw [commitEntry_atomic_iff, upsertEntry_ok_iff, ← hasText_id hid]
    have hcolumns : ∃ columns, (recordRow host input rctx id built.body env.mtime).columns host =
      .ok columns := recordRow_columns
    simp only [hcolumns, and_true]
    rfl
  unfold recordEntry
  constructor
  · rintro h id ⟨hid, built, hbuilt⟩
    rw [prepareRecord_ok_iff.mpr ⟨id, built, hid, hbuilt, rfl⟩] at h
    exact (hcommit id built hid).mp h
  · intro h
    cases hprep : prepareRecord host input rctx w.table with
    | error e => exact fun _ _ => rfl
    | ok p =>
        obtain ⟨id, built, hid, hbuilt, rfl⟩ := prepareRecord_ok_iff.mp hprep
        exact (hcommit id built hid).mpr (h id ⟨hid, built, hbuilt⟩)

/-! ## Updates -/

variable {uid : Text} {patch : UpdatePatch} {uctx : UpdateContext} {parsed : JsValue} {ymd : Text}

/-- The value of a key that an update does not set itself: the patch's, or else the file's. -/
def patchedValue (parsed : JsValue) (patch : UpdatePatch) (key : Text) : JsValue :=
  ((getProp? (patch.frontmatter.getD []) key).or (getProp? (ownFields parsed) key)).getD .undefined

/-- The patched frontmatter fits a row. -/
def Storable (parsed : JsValue) (patch : UpdatePatch) : Prop :=
  hasText (patchedValue parsed patch "title".toList) = true ∧
    (patchedValue parsed patch "tags".toList).stringify.isSome = true ∧
    bindable (patchedValue parsed patch "confidence".toList) = true ∧
    bindable (patchedValue parsed patch "visibility".toList) = true

/-- Where an update sets no value of its own, the patch and then the file decide. -/
theorem mergedFrontmatter_get {key : Text}
    (h : getProp? (forcedKeys parsed patch ymd) key = none) :
    (mergedFrontmatter parsed patch ymd).get key = patchedValue parsed patch key := by
  have hmerged : (getProp? (spread (spread (spread [] (ownFields parsed))
      (entries (patch.frontmatter.getD []))) (forcedKeys parsed patch ymd)) key) =
      (getProp? (patch.frontmatter.getD []) key).or (getProp? (ownFields parsed) key) := by
    simp [getProp?_spread, h, getProp?_nil]
  unfold mergedFrontmatter
  cases htags : patch.get "tags".toList with
  | undefined => simp only [JsValue.get, hmerged, patchedValue]
  | _ =>
      simp only [JsValue.get]
      by_cases hkey : key = "tags".toList
      · -- the assignment after the merge repeats the patch's own tags
        subst hkey
        rw [getProp?_setProp_self, patchedValue]
        rw [UpdatePatch.get, JsValue.get] at htags
        cases hp : getProp? (patch.frontmatter.getD []) "tags".toList with
        | none => rw [hp] at htags; exact absurd htags (by simp)
        | some v => rw [hp] at htags; simpa using htags.symm
      · rw [getProp?_setProp_of_ne hkey, hmerged, patchedValue]

/-- The row of an update is stored just when the patched frontmatter fits it. -/
theorem updateRow_columns {relPath body : Text} : (∃ columns,
    (updateRow uid uctx relPath (mergedFrontmatter parsed patch ymd) body mtime).columns host =
      .ok columns) ↔ Storable parsed patch := by
  have hobject : (mergedFrontmatter parsed patch ymd).stringify.isSome = true := by
    unfold mergedFrontmatter
    split <;> rfl
  rw [columns_ok_iff, Storable]
  simp only [updateRow, hobject, true_and]
  rw [mergedFrontmatter_get rfl, mergedFrontmatter_get rfl, mergedFrontmatter_get rfl,
    mergedFrontmatter_get rfl]

/-- Nothing after the start of an update's write fails. -/
def UpdateSafe (host : Host) (env : Environment) (id : Text) (patch : UpdatePatch)
    (ctx : UpdateContext) (w : World) : Prop :=
  ∀ row raw parsed built, UpdateWrites host env id patch ctx w row raw parsed built →
    '\x00' ∈ row.value.columns.path ∨ env.fault = some .open ∨
      (Unharmed env ∧ Storable parsed.frontmatter patch)

theorem updateEntry_atomic_iff :
    Atomic w (updateEntry host env uid patch uctx w) ↔ UpdateSafe host env uid patch uctx w := by
  have hcommit : ∀ (row : Row) (parsed : ParsedMarkdown) (built : BuiltEntry),
      Atomic w (commitEntry host env w
        { relPath := row.value.columns.path, content := built.content
          row := updateRow uid uctx row.value.columns.path
            (mergedFrontmatter parsed.frontmatter patch uctx.ymd) built.body }) ↔
      '\x00' ∈ row.value.columns.path ∨ env.fault = some .open ∨
        (Unharmed env ∧ Storable parsed.frontmatter patch) := by
    intro row parsed built
    rw [commitEntry_atomic_iff, upsertEntry_ok_iff, updateRow_columns]
    simp [updateRow, hasText]
  unfold updateEntry
  constructor
  · intro h row raw parsed built hwrites
    rw [prepareUpdate_ok_iff.mpr ⟨row, raw, parsed, built, hwrites, rfl⟩] at h
    exact (hcommit row parsed built).mp h
  · intro h
    cases hprep : prepareUpdate host env uid patch uctx w with
    | error e => exact fun _ _ => rfl
    | ok p =>
        obtain ⟨row, raw, parsed, built, hwrites, rfl⟩ := prepareUpdate_ok_iff.mp hprep
        exact (hcommit row parsed built).mpr (h row raw parsed built hwrites)

/--
**Failed writes are atomic just when nothing fails after the file is opened**: neither the file
system nor SQLite, and the row takes the values that the caller or a hand-written file gives.
-/
theorem failed_writes_atomic_iff (host : Host) (env : Environment) (w : World) :
    (∀ (input : RecordInput) (ctx : RecordContext),
      Atomic w (recordEntry host env input ctx w) ↔ RecordSafe host env input ctx w.table) ∧
    ∀ (id : Text) (patch : UpdatePatch) (ctx : UpdateContext),
      Atomic w (updateEntry host env id patch ctx w) ↔ UpdateSafe host env id patch ctx w :=
  ⟨fun _ _ => recordEntry_atomic_iff, fun _ _ _ => updateEntry_atomic_iff⟩

/-! ## A file without tags -/

/-- One scanned file: a scan stores `[]` for the tags that its frontmatter lacks. -/
def scannedWorld : World where
  disk := Disk.write (fun _ => none) ["a.md".toList] (plainFile "a.md" "a").file.content
  table := ((scanSource flatHost Lib.RowStore.empty .own
    (some [plainFile "a.md" "a"]) false).toOption.map Prod.fst).getD Lib.RowStore.empty

def emptyUpdate (w : World) : Except WriteError EntryRef × World :=
  updateEntry flatHost { entriesRoot := [] } "a".toList {}
    { nowDate := 0, ymd := "2026-11-06".toList } w

/-- An update rewrites the scanned file and throws at its row, whose tags are `undefined`. -/
theorem updateEntry_writes_and_throws :
    ¬ ∀ (env : Environment) (w : World) (id : Text) (patch : UpdatePatch) (ctx : UpdateContext),
      Atomic w (updateEntry flatHost env id patch ctx w) := by
  intro h
  obtain ⟨hthrows, hrewritten, hscanned⟩ : (emptyUpdate scannedWorld).1.toOption.isNone = true ∧
      ((emptyUpdate scannedWorld).2.disk ["a.md".toList]).map DiskFile.revision = some 2 ∧
      (scannedWorld.disk ["a.md".toList]).map DiskFile.revision = some 1 := by
    decide +kernel
  cases hr : (emptyUpdate scannedWorld).1 with
  | ok ref => rw [hr] at hthrows; exact absurd hthrows (by simp [Except.toOption])
  | error e =>
      have hsame : (emptyUpdate scannedWorld).2 = scannedWorld := h _ _ _ _ _ e hr
      rw [hsame, hscanned] at hrewritten
      exact absurd hrewritten (by decide)

end Caveat.Write
