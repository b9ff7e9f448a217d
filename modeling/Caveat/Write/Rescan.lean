import Caveat.Write.RoundTrip

/-!
# The row of a call and the row of a scan

A call stores the row of what it has in memory; a scan stores the row of what it reads. The body
in memory lacks the line breaks that stand around it in the file, so no row of a call is the one
that a scan makes. In every other column a new entry's row is that of the scan.
-/

namespace Caveat.Write

open Js Entry Index

variable {host : Host} {env : Environment} {w : World} {p : Prepared}

/-- A forced scan of the written file makes the row that the call has written: it finds the row
under the same id, so that it makes no second one, and leaves its columns but the time. -/
def ScansTheSame (host : Host) (source : Source) (w : World) (ref : EntryRef) (item : WalkItem) :
    Prop :=
  ∃ row id record columns, readRow host source item = .ok row ∧
    bindText host ref.id = .ok (some id) ∧ bindText host row.id = .ok (some id) ∧
    w.table.contents source id = some record ∧ row.columns host = .ok columns ∧
    { columns with fileMtime := record.columns.fileMtime } = record.columns

/-- The file of a call as a walk yields it. -/
def WalksTo (w : World) (ref : EntryRef) (item : WalkItem) : Prop :=
  item.file.path = ref.path ∧
    (w.disk ref.filePath).map DiskFile.text = some item.file.content

theorem columns_body {row : UpsertRow} {columns : Columns} (h : row.columns host = .ok columns) :
    columns.body = row.body := by
  rw [UpsertRow.columns] at h
  obtain ⟨title, _, h⟩ := Lib.bind_eq_ok.mp h
  obtain ⟨_, _, h⟩ := Lib.bind_eq_ok.mp h
  obtain ⟨_, _, h⟩ := Lib.bind_eq_ok.mp h
  obtain ⟨_, _, h⟩ := Lib.bind_eq_ok.mp h
  obtain ⟨_, _, h⟩ := Lib.bind_eq_ok.mp h
  cases title with
  | none => exact absurd h (by simp)
  | some title => cases h; rfl

theorem parseMarkdown_ok {source : Text} {allowOversizedBody : Bool} {parsed : ParsedMarkdown}
    (h : parseMarkdown host source allowOversizedBody = .ok parsed) : ∃ data,
      host.matter (loadFrontmatter host) source = .ok (data, parsed.body) := by
  have hrest : (do
      assertYamlLanguage host source
      let read ← host.matter (loadFrontmatter host) source
      return { frontmatter := read.1, body := read.2, sections := extractSections read.2 }) =
        Except.ok parsed := by
    cases allowOversizedBody with
    | true => exact h
    | false =>
        obtain ⟨_, _, h⟩ := Lib.bind_eq_ok.mp h
        exact h
  obtain ⟨_, _, hrest⟩ := Lib.bind_eq_ok.mp hrest
  obtain ⟨⟨data, content⟩, hmatter, hrest⟩ := Lib.bind_eq_ok.mp hrest
  cases hrest
  exact ⟨data, hmatter⟩

/-- What a scan reads of a file with a given content. -/
theorem readRow_ok {source : Source} {item : WalkItem} {row : UpsertRow}
    (h : readRow host source item = .ok row) : ∃ data,
      host.matter (loadFrontmatter host) item.file.content = .ok (data, row.body) := by
  rw [readRow] at h
  split at h
  · cases h
  · rw [buildEntryUpsertRow] at h
    obtain ⟨parsed, hparsed, h⟩ := Lib.bind_eq_ok.mp h
    obtain ⟨data, hmatter⟩ := parseMarkdown_ok hparsed
    cases h
    exact ⟨data, hmatter⟩

/-- What a call leaves on the disk and in the index. -/
theorem commitEntry_leaves {ref : EntryRef} {w' : World}
    (h : commitEntry host env w p = (.ok ref, w')) : ∃ id columns,
      bindText host ref.id = .ok (some id) ∧ (p.row env.mtime).columns host = .ok columns ∧
      ref.id = (p.row env.mtime).id ∧ ref.path = p.relPath ∧
      (w'.disk ref.filePath).map DiskFile.text = some p.content ∧
      (w'.table.contents (p.row env.mtime).source id).map Record.columns = some columns := by
  obtain ⟨id, columns, _, hid, hcols, href, hworld⟩ :=
    commitEntry_ok (show (commitEntry host env w p).1 = .ok ref by rw [h])
  rw [h] at hworld
  subst href hworld
  refine ⟨id, columns, hid, hcols, rfl, rfl, ?_, ?_⟩
  · obtain ⟨f, hf, htext⟩ := write_self w.disk (Lib.PosixPath.join env.entriesRoot p.relPath)
      p.content
    simp only [hf, Option.map_some, htext]
  · rw [contents_write, if_pos ⟨rfl, rfl⟩]
    rfl

/-- A call that wrote `entryText` of frontmatter and body, and has stored the body. -/
theorem not_scansTheSame {v : JsValue} (hsplits : Splits host v) {body : Text}
    (hcontent : p.content = entryText (host.yamlDump v) body)
    (hbody : ∀ m, (p.row m).body = body) {ref : EntryRef} {w' : World}
    (h : commitEntry host env w p = (.ok ref, w')) {item : WalkItem} (hitem : WalksTo w' ref item) :
    ¬ ScansTheSame host (p.row env.mtime).source w' ref item := by
  rintro ⟨row, id, record, columns, hread, hid, _, hrecord, hcols, hsame⟩
  obtain ⟨id', columns', hid', hcols', _, _, htext, hstored⟩ := commitEntry_leaves h
  rw [hid] at hid'
  obtain rfl : id = id' := Option.some.inj (Except.ok.inj hid')
  rw [hrecord] at hstored
  have hcolumns : record.columns = columns' := Option.some.inj hstored
  have hfile : item.file.content = entryText (host.yamlDump v) body := by
    rw [← hcontent]
    exact Option.some.inj (hitem.2.symm.trans htext)
  obtain ⟨data, hmatter⟩ := readRow_ok hread
  rw [hfile] at hmatter
  -- the body that was read has the line breaks, the one that was stored has not
  have hdiff : writtenContent body = body := by
    have hscanned := (columns_body hcols).trans (content_written hsplits hmatter)
    have hwritten := (columns_body hcols').trans (hbody env.mtime)
    rw [← hscanned, ← hwritten, ← hcolumns, ← hsame]
  exact writtenContent_ne body hdiff

/-- A new entry's call is the commit of what it built under its id. -/
theorem recordEntry_commits {input : RecordInput} {ctx : RecordContext} {ref : EntryRef} {w' : World}
    (h : recordEntry host env input ctx w = (.ok ref, w')) : ∃ built,
      resolveCollision host w.table ctx.source (baseId host input ctx) = .ok ref.id ∧
      buildEntry host (recordFrontmatter input ctx ref.id) (recordSections input) = .ok built ∧
      commitEntry host env w
        { relPath := recordPath host input ref.id, content := built.content
          row := recordRow host input ctx ref.id built.body } = (.ok ref, w') := by
  rw [recordEntry] at h
  cases hprep : prepareRecord host input ctx w.table with
  | error e =>
      rw [hprep] at h
      cases h
  | ok p =>
      simp only [hprep] at h
      obtain ⟨id, built, hfree, hbuilt, rfl⟩ := prepareRecord_ok_iff.mp hprep
      obtain ⟨_, _, _, _, href, _⟩ := commitEntry_leaves h
      have hid : ref.id = id := href
      rw [hid]
      exact ⟨built, hfree, hbuilt, h⟩

/-- An update is the commit of what it built over the file that it read. -/
theorem updateEntry_commits {id : Text} {patch : UpdatePatch} {ctx : UpdateContext} {ref : EntryRef}
    {w' : World} (h : updateEntry host env id patch ctx w = (.ok ref, w')) :
    ∃ row raw parsed built, UpdateWrites host env id patch ctx w row raw parsed built ∧
      commitEntry host env w
        { relPath := row.value.columns.path, content := built.content
          row := updateRow id ctx row.value.columns.path
            (mergedFrontmatter parsed.frontmatter patch ctx.ymd) built.body } = (.ok ref, w') := by
  rw [updateEntry] at h
  cases hprep : prepareUpdate host env id patch ctx w with
  | error e =>
      rw [hprep] at h
      cases h
  | ok p =>
      simp only [hprep] at h
      obtain ⟨row, raw, parsed, built, hwrites, rfl⟩ := prepareUpdate_ok_iff.mp hprep
      exact ⟨row, raw, parsed, built, hwrites, h⟩

/-- **No row of a call is the row of a scan**, whatever is recorded or updated. -/
theorem written_rows_never_scanned (host : Host) (env : Environment) (w w' : World)
    (ref : EntryRef) (item : WalkItem) (hitem : WalksTo w' ref item) :
    (∀ input ctx, recordEntry host env input ctx w = (.ok ref, w') →
      Splits host (recordFrontmatter input ctx ref.id) →
        ¬ ScansTheSame host ctx.source w' ref item) ∧
    ∀ id patch ctx row raw parsed built, updateEntry host env id patch ctx w = (.ok ref, w') →
      UpdateWrites host env id patch ctx w row raw parsed built →
      Splits host (mergedFrontmatter parsed.frontmatter patch ctx.ymd) →
        ¬ ScansTheSame host ctx.source w' ref item := by
  constructor
  · intro input ctx h hsplits
    obtain ⟨built, _, hbuilt, hcommit⟩ := recordEntry_commits h
    obtain ⟨_, _, _, rfl⟩ := buildEntry_ok_iff.mp hbuilt
    exact not_scansTheSame hsplits rfl (fun _ => rfl) hcommit hitem
  · intro id patch ctx row raw parsed built h hwrites hsplits
    rw [updateEntry, prepareUpdate_ok_iff.mpr ⟨row, raw, parsed, built, hwrites, rfl⟩] at h
    obtain ⟨_, _, _, rfl⟩ := buildEntry_ok_iff.mp hwrites.fits
    exact not_scansTheSame hsplits rfl (fun _ => rfl) h hitem

/-! ## What a scan leaves as it is -/

/-- The role texts depend on the body by its sections. -/
theorem columns_with_body {row : UpsertRow} {columns : Columns}
    (h : row.columns host = .ok columns) {body : Text}
    (hbody : extractSections body = extractSections row.body) (mtime now : Int) :
    ({ row with body, fileMtime := mtime, indexedAt := now } : UpsertRow).columns host =
      .ok { columns with body, fileMtime := mtime } := by
  rw [UpsertRow.columns] at h ⊢
  obtain ⟨title, htitle, h⟩ := Lib.bind_eq_ok.mp h
  obtain ⟨json, hjson, h⟩ := Lib.bind_eq_ok.mp h
  obtain ⟨tags, htags, h⟩ := Lib.bind_eq_ok.mp h
  obtain ⟨confidence, hconf, h⟩ := Lib.bind_eq_ok.mp h
  obtain ⟨visibility, hvis, h⟩ := Lib.bind_eq_ok.mp h
  cases title with
  | none => exact absurd h (by simp)
  | some title =>
      cases h
      simp only [htitle, hjson, htags, hconf, hvis, bind, Except.bind, deriveRoleTexts, hbody]
      rfl

/-- **A scan of a new entry changes its body and nothing else**, and finds it under its id. -/
theorem record_rescanned {input : RecordInput} {ctx : RecordContext} {ref : EntryRef} {w' : World}
    {item : WalkItem} (h : recordEntry host env input ctx w = (.ok ref, w'))
    (hreads : Rereads host (recordFrontmatter input ctx ref.id)
      (recordFrontmatter input ctx ref.id))
    (hitem : WalksTo w' ref item) (hsize : item.file.size = utf8Length item.file.content) :
    ∃ row id record, readRow host ctx.source item = .ok row ∧
      bindText host ref.id = .ok (some id) ∧ row.id = ref.id ∧
      w'.table.contents ctx.source id = some record ∧
      row.columns host = .ok { record.columns with
        body := writtenContent record.columns.body
        fileMtime := mtimeOf item.file.mtimeMs } := by
  obtain ⟨built, _, hbuilt, hcommit⟩ := recordEntry_commits h
  obtain ⟨i, columns, hid, hcols, _, hpath, htext, hstored⟩ := commitEntry_leaves hcommit
  have hcontent : item.file.content = built.content :=
    Option.some.inj (hitem.2.symm.trans htext)
  have hparse := parseMarkdown_built hreads hbuilt false
  obtain ⟨_, _, hlimit, rfl⟩ := buildEntry_ok_iff.mp hbuilt
  have hfits : ¬ markdownLimit < item.file.size := by
    rw [hsize, hcontent]
    intro hlt
    rw [assertUtf8Limit, if_pos hlt] at hlimit
    cases hlimit
  obtain ⟨record, hrecord, hsame⟩ := Option.map_eq_some_iff.mp hstored
  subst hsame
  obtain ⟨hne, hlast⟩ := buildBody_ends (record_ne_nil input) fun f hf => record_heading hf
  have hsections : extractSections (writtenContent (buildBody (recordSections input))) =
      extractSections (buildBody (recordSections input)) := by
    have hwritten : writtenContent (buildBody (recordSections input)) =
        '\n' :: (buildBody (recordSections input) ++ ['\n']) := by simp [writtenContent, hne]
    rw [hwritten, extractSections_surrounded hlast]
  have hcolumns := columns_with_body hcols hsections (mtimeOf item.file.mtimeMs) item.now
  have hpath' : item.file.path = recordPath host input ref.id := hitem.1.trans hpath
  have hbody : record.columns.body = buildBody (recordSections input) := columns_body hcols
  refine ⟨{ recordRow host input ctx ref.id (buildBody (recordSections input)) env.mtime with
    body := writtenContent (buildBody (recordSections input))
    fileMtime := mtimeOf item.file.mtimeMs
    indexedAt := item.now }, i, record, ?_, hid, rfl, hrecord, ?_⟩
  · rw [readRow, if_neg hfits, buildEntryUpsertRow, hpath', hcontent, hparse]
    rfl
  · rw [hbody]
    exact hcolumns

/-! ## A record and an update of it -/

def rootEnv : Environment := { entriesRoot := [] }

/-- The entry of `simpleInput` in an empty directory. -/
def recorded : Except WriteError EntryRef × World :=
  recordEntry flatHost rootEnv (simpleInput none) simpleContext emptyWorld

def nextDay : UpdateContext := { nowDate := 0, ymd := "2026-11-07".toList }

/-- The text of the file that `recorded` leaves. -/
def recordedText : Text :=
  entryText (flatDump simpleFrontmatter) (buildBody (recordSections (simpleInput none)))

def updatedIn (w : World) : Except WriteError EntryRef × World :=
  updateEntry flatHost rootEnv "slow-build".toList {} nextDay w

theorem exists_returned {r : Except WriteError EntryRef × World}
    (h : r.1.toOption.isSome = true) : ∃ ref w', r = (.ok ref, w') := by
  obtain ⟨ref, href⟩ := exists_ok h
  exact ⟨ref, r.2, Prod.ext href rfl⟩

/-- The file that a call has left, as a walk yields it. -/
def walkItem (ref : EntryRef) (w : World) : WalkItem :=
  let content := ((w.disk ref.filePath).map DiskFile.text).getD []
  { file := { path := ref.path, mtimeMs := 0, size := utf8Length content, content } }

theorem walkItem_walksTo {ref : EntryRef} {w' : World}
    (h : commitEntry host env w p = (.ok ref, w')) : WalksTo w' ref (walkItem ref w') := by
  obtain ⟨_, _, _, _, _, _, htext, _⟩ := commitEntry_leaves h
  refine ⟨rfl, ?_⟩
  rw [walkItem, htext]
  rfl

/-- The frontmatter that the update writes. -/
def updatedFrontmatter : JsValue :=
  mergedFrontmatter (flatRead simpleFrontmatter) {} nextDay.ymd

theorem updatedFrontmatter_rereads :
    Rereads flatHost updatedFrontmatter (flatRead updatedFrontmatter) :=
  flat_rereads (by decide +kernel) (by decide +kernel) (by decide +kernel) (by decide +kernel)

theorem recorded_id {id : JsValue} (h : resolveCollision flatHost emptyWorld.table
    simpleContext.source (baseId flatHost (simpleInput none) simpleContext) = .ok id) :
    id = .string "slow-build".toList := by
  have hbase : resolveCollision flatHost emptyWorld.table simpleContext.source
      (baseId flatHost (simpleInput none) simpleContext) = .ok (.string "slow-build".toList) := by
    rfl
  exact Except.ok.inj (h.symm.trans hbase)

/-- What the call and the update behind it come to. -/
structure RecordedRun : Prop where
  recorded : recorded.1.toOption.isSome = true
  updated : (updatedIn Write.recorded.2).1.toOption.isSome = true
  read : (readForUpdate rootEnv "slow-build".toList nextDay Write.recorded.2).toOption.map Prod.snd =
    some recordedText

theorem recordedRun : RecordedRun := ⟨by decide +kernel, by decide +kernel, by decide +kernel⟩

/-- Neither a call for a new entry nor an update of it leaves the row that a scan would make. -/
theorem written_rows_never_scanned_update : ∃ ref w₁ ref' w₂, recorded = (.ok ref, w₁) ∧
    ¬ ScansTheSame flatHost .own w₁ ref (walkItem ref w₁) ∧ updatedIn w₁ = (.ok ref', w₂) ∧
    ¬ ScansTheSame flatHost .own w₂ ref' (walkItem ref' w₂) := by
  obtain ⟨hsome, hboth, hfile⟩ := recordedRun
  obtain ⟨ref, w₁, hrecord⟩ := exists_returned hsome
  rw [hrecord] at hboth hfile
  obtain ⟨ref', w₂, hupdate⟩ := exists_returned hboth
  obtain ⟨built, hfree, hbuilt, hcommit⟩ := recordEntry_commits hrecord
  have hid := recorded_id hfree
  have hreads := symptomInput_rereads "x"
  have hsplits : Splits flatHost (recordFrontmatter (simpleInput none) simpleContext ref.id) := by
    rw [hid]
    exact hreads.matter
  refine ⟨ref, w₁, ref', w₂, hrecord, ?_, hupdate, ?_⟩
  · exact (written_rows_never_scanned flatHost rootEnv emptyWorld w₁ ref (walkItem ref w₁)
      (walkItem_walksTo hcommit)).1 _ _ hrecord hsplits
  · obtain ⟨row, raw, parsed, built', hwrites, hcommit'⟩ := updateEntry_commits hupdate
    have hparsed : parsed.frontmatter = flatRead simpleFrontmatter := by
      rw [readForUpdate_ok_iff.mpr ⟨hwrites.own, hwrites.found, hwrites.read⟩] at hfile
      have hraw : raw = recordedText := Option.some.inj hfile
      rw [hid] at hbuilt
      have hparse := parseMarkdown_built hreads hbuilt true
      obtain ⟨_, _, _, rfl⟩ := buildEntry_ok_iff.mp hbuilt
      have hread := hwrites.parses
      rw [hraw] at hread
      have hsame := Except.ok.inj (hread.symm.trans hparse)
      rw [hsame]
      rfl
    refine (written_rows_never_scanned flatHost rootEnv w₁ w₂ ref' (walkItem ref' w₂)
      (walkItem_walksTo hcommit')).2 _ _ _ row raw parsed built' hupdate hwrites ?_
    rw [hparsed]
    exact updatedFrontmatter_rereads.matter

/-- A row that a call has just written is changed by a forced scan. -/
theorem scan_changes_written_row :
    ¬ ∀ (host : Host) (env : Environment) (w w' : World) (ref : EntryRef) (item : WalkItem)
      (input : RecordInput) (ctx : RecordContext), WalksTo w' ref item →
      recordEntry host env input ctx w = (.ok ref, w') →
      Rereads host (recordFrontmatter input ctx ref.id)
        (flatRead (recordFrontmatter input ctx ref.id)) →
        ScansTheSame host ctx.source w' ref item := by
  intro h
  obtain ⟨ref, w₁, hrecord⟩ := exists_returned recordedRun.recorded
  obtain ⟨built, hfree, hbuilt, hcommit⟩ := recordEntry_commits hrecord
  have hid := recorded_id hfree
  have hreads := symptomInput_rereads "x"
  have hitem : WalksTo w₁ ref (walkItem ref w₁) := walkItem_walksTo hcommit
  have hsame := h flatHost rootEnv emptyWorld w₁ ref (walkItem ref w₁) (simpleInput none)
    simpleContext hitem hrecord (by rw [hid]; exact hreads)
  have hsplits : Splits flatHost (recordFrontmatter (simpleInput none) simpleContext ref.id) := by
    rw [hid]
    exact hreads.matter
  obtain ⟨_, _, _, rfl⟩ := buildEntry_ok_iff.mp hbuilt
  exact not_scansTheSame hsplits rfl (fun _ => rfl) hcommit hitem hsame

end Caveat.Write
