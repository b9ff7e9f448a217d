import Caveat.Index.Rebuild
import Caveat.Write.RecordProof
import Caveat.Write.UpdateProof

/-!
# Which writes stay inside the entries directory

The place of a new entry is put together from the category and the id, and an update takes its place
from the row. `writes_contained_of_named`: as long as the pieces between the slashes are proper
names without a backslash, every call writes one file, below the root, under the very path its row
has; and a new entry that is contained has such a path.
-/

namespace Caveat.Write

open Js Entry Index Lib.PosixPath

/--
`relative(root, path).replace(/\\/g, '/')` of a file that `walkMarkdown(root)` yields.
-/
def scannedPath (root path : Path) : Option Text :=
  let below := path.drop root.length
  if root <+: path ∧ ".md".toList <:+ below.getLast?.getD [] then
    some ((relativePath below).map (fun c => if c = '\\' then '/' else c))
  else none

/-- A path of proper names without backslashes that leads to a Markdown file. -/
structure Named (rel : Text) : Prop where
  straight : Straight rel
  slashes : '\\' ∉ rel
  markdown : ".md".toList <:+ rel

theorem map_slashes_eq_self {s : Text} (h : '\\' ∉ s) :
    s.map (fun c => if c = '\\' then '/' else c) = s := by
  conv_rhs => rw [← List.map_id s]
  refine List.map_congr_left fun c hc => ?_
  have hne : c ≠ '\\' := by
    rintro rfl
    exact h hc
  rw [if_neg hne]
  rfl

theorem scannedPath_eq_some {root path : Path} {rel : Text} :
    scannedPath root path = some rel ↔ ∃ below, path = root ++ below ∧
      ".md".toList <:+ below.getLast?.getD [] ∧
      (relativePath below).map (fun c => if c = '\\' then '/' else c) = rel := by
  unfold scannedPath
  constructor
  · intro h
    by_cases hcond : root <+: path ∧ ".md".toList <:+ (path.drop root.length).getLast?.getD []
    · rw [if_pos hcond] at h
      obtain ⟨⟨below, rfl⟩, hlast⟩ := hcond
      rw [List.drop_left] at h hlast
      exact ⟨below, rfl, hlast, Option.some.inj h⟩
    · rw [if_neg hcond] at h
      exact absurd h (by simp)
  · rintro ⟨below, rfl, hlast, rfl⟩
    simp only [List.drop_left]
    rw [if_pos ⟨List.prefix_append root below, hlast⟩]

/-- **A scan finds the file of a path under that very path just when the path is named.** -/
theorem scannedPath_join_iff {root : Path} {rel : Text} :
    scannedPath root (join root rel) = some rel ↔ Named rel := by
  have hmd : '/' ∉ ".md".toList := by decide
  rw [scannedPath_eq_some]
  constructor
  · rintro ⟨below, hbelow, hlast, hrel⟩
    have hslashes : '\\' ∉ rel := by
      rw [← hrel]
      intro hc
      obtain ⟨c, _, hc⟩ := List.mem_map.mp hc
      by_cases he : c = '\\'
      · rw [if_pos he] at hc; exact absurd hc (by decide)
      · rw [if_neg he] at hc; exact he hc
    -- the names below the root are names of the path, so neither slash is in them
    have hparts := mem_of_join_eq hbelow
    have hclean : '\\' ∉ relativePath below := by
      intro hc
      rcases Lib.mem_intercalate hc with he | ⟨c, hcb, hc⟩
      · exact absurd he (by decide)
      · exact hslashes (Lib.mem_of_mem_splitOn c (hparts c hcb).1 _ hc).1
    rw [map_slashes_eq_self hclean] at hrel
    rcases List.eq_nil_or_concat' below with rfl | ⟨init, last, rfl⟩
    · exact absurd hlast (by decide)
    · have hsplit : rel.splitOn '/' = init ++ [last] := by
        rw [← hrel]
        exact splitOn_relativePath (by simp)
          fun c hc hslash => (Lib.mem_of_mem_splitOn c (hparts c hc).1 _ hslash).2 rfl
      refine ⟨fun c hc => (hparts c (hsplit ▸ hc)).2, hslashes, ?_⟩
      rw [← hrel, suffix_relativePath_iff hmd]
      simpa using hlast
  · intro h
    rcases List.eq_nil_or_concat' (rel.splitOn '/') with hnil | ⟨init, last, hsplit⟩
    · exact absurd hnil (List.splitOn_ne_nil '/' rel)
    · have hlast : ".md".toList <:+ last := by
        have := h.markdown
        rwa [← relativePath_splitOn rel, hsplit, suffix_relativePath_iff hmd] at this
      refine ⟨rel.splitOn '/', join_of_straight h.straight root, ?_, ?_⟩
      · rw [hsplit]; simpa using hlast
      · rw [relativePath_splitOn, map_slashes_eq_self h.slashes]

/-! ## One call -/

/--
A call writes at most one file, that file lies strictly below the root, and a scan of the root
finds it; when the call returns, it finds it under the path that the returned reference and the
row have.
-/
structure Contained (host : Host) (root : Path) (source : Source) (w : World)
    (r : Except WriteError EntryRef × World) : Prop where
  oneFile : ∀ p q, r.2.disk p ≠ w.disk p → r.2.disk q ≠ w.disk q → p = q
  inside : ∀ p, r.2.disk p ≠ w.disk p → ∃ below, below ≠ [] ∧ p = root ++ below
  found : ∀ p, r.2.disk p ≠ w.disk p → (scannedPath root p).isSome = true
  stored : ∀ ref, r.1 = .ok ref → r.2.disk ref.filePath ≠ w.disk ref.filePath ∧
    scannedPath root ref.filePath = some ref.path ∧
    ∃ row, select host r.2.table source ref.id = .ok (some row) ∧
      row.value.columns.path = ref.path

variable {host : Host} {env : Environment} {w : World} {p : Prepared} {source : Source}

/-- A call changes no file but the one it is prepared for. -/
theorem commitEntry_disk (q : Path) (h : (commitEntry host env w p).2.disk q ≠ w.disk q) :
    q = join env.entriesRoot p.relPath := by
  by_contra hq
  have hsame : ∀ text, w.disk.write (join env.entriesRoot p.relPath) text q = w.disk q :=
    fun text => write_of_ne w.disk hq text
  refine h ?_
  unfold commitEntry
  by_cases hnul : '\x00' ∈ p.relPath
  · rw [if_pos hnul]
  · rw [if_neg hnul]
    cases env.fault with
    | some fault => cases fault <;> simp only [hsame]
    | none =>
        simp only [indexEntry]
        split <;> exact hsame p.content

/-- What a call that returns has done: the file is written, and the row is put into the table. -/
theorem commitEntry_ok {ref : EntryRef} (h : (commitEntry host env w p).1 = .ok ref) :
    ∃ id columns, '\x00' ∉ p.relPath ∧ bindText host (p.row env.mtime).id = .ok (some id) ∧
      (p.row env.mtime).columns host = .ok columns ∧
      ref = { id := (p.row env.mtime).id, path := p.relPath
              filePath := join env.entriesRoot p.relPath } ∧
      (commitEntry host env w p).2 =
        { disk := w.disk.write (join env.entriesRoot p.relPath) p.content
          table := (w.table.write (p.row env.mtime).source id columns
            (p.row env.mtime).indexedAt).1 } := by
  unfold commitEntry at h ⊢
  by_cases hnul : '\x00' ∈ p.relPath
  · rw [if_pos hnul] at h
    exact absurd h (by simp)
  · rw [if_neg hnul] at h ⊢
    cases hfault : env.fault with
    | some fault => rw [hfault] at h; cases fault <;> exact absurd h (by simp)
    | none =>
        rw [hfault] at h
        simp only [indexEntry] at h ⊢
        cases hups : upsertEntry host w.table (p.row env.mtime) with
        | error e => rw [hups] at h; exact absurd h (by simp)
        | ok res =>
            rw [hups] at h
            obtain ⟨id, columns, hid, hcols, rfl⟩ := upsertEntry_passes hups
            exact ⟨id, columns, hnul, hid, hcols, (Except.ok.inj h).symm, rfl⟩

/-- The table of a call that throws is the one it found. -/
theorem commitEntry_error {e : WriteError} (h : (commitEntry host env w p).1 = .error e) :
    (commitEntry host env w p).2.table = w.table := by
  unfold commitEntry at h ⊢
  by_cases hnul : '\x00' ∈ p.relPath
  · rw [if_pos hnul]
  · rw [if_neg hnul] at h ⊢
    cases hfault : env.fault with
    | some fault => cases fault <;> rfl
    | none =>
        rw [hfault] at h
        simp only [indexEntry] at h ⊢
        cases hups : upsertEntry host w.table (p.row env.mtime) with
        | error e => rfl
        | ok res => rw [hups] at h; exact absurd h (by simp)

variable (hpath : (p.row env.mtime).path = p.relPath) (hsource : (p.row env.mtime).source = source)

include hpath hsource in
/-- A call with a named path is contained. -/
theorem commitEntry_contained (hnamed : Named p.relPath) :
    Contained host env.entriesRoot source w (commitEntry host env w p) := by
  have hscan : scannedPath env.entriesRoot (join env.entriesRoot p.relPath) = some p.relPath :=
    scannedPath_join_iff.mpr hnamed
  refine ⟨?_, ?_, ?_, ?_⟩
  · intro q q' hq hq'
    rw [commitEntry_disk q hq, commitEntry_disk q' hq']
  · intro q hq
    rw [commitEntry_disk q hq, join_of_straight hnamed.straight]
    exact ⟨_, List.splitOn_ne_nil '/' p.relPath, rfl⟩
  · intro q hq
    rw [commitEntry_disk q hq, hscan]
    rfl
  · intro ref href
    obtain ⟨id, columns, _, hid, hcols, rfl, hafter⟩ := commitEntry_ok href
    refine ⟨?_, hscan, ?_⟩
    · rw [hafter]
      exact write_self_ne w.disk _ p.content
    · have hrow := contents_write w.table (p.row env.mtime).source source id id columns
        (p.row env.mtime).indexedAt
      rw [if_pos ⟨hsource.symm, rfl⟩] at hrow
      obtain ⟨row, hfind, hvalue⟩ := find?_of_contents hrow
      refine ⟨row, ?_, ?_⟩
      · rw [hafter, select, hid]
        exact congrArg Except.ok hfind
      · rw [hvalue]
        exact (columns_fields hcols).1.trans hpath

/-- A call that returns is contained only if its path is named. -/
theorem named_of_contained {ref : EntryRef} (href : (commitEntry host env w p).1 = .ok ref)
    (h : Contained host env.entriesRoot source w (commitEntry host env w p)) :
    Named p.relPath := by
  obtain ⟨_, _, _, _, _, rfl, _⟩ := commitEntry_ok href
  exact scannedPath_join_iff.mp (h.stored _ href).2.1

/-- A call that is refused before its write is contained. -/
theorem contained_refused {root : Path} (e : WriteError) :
    Contained host root source w (.error e, w) :=
  ⟨fun _ _ h => absurd rfl h, fun _ h => absurd rfl h, fun _ h => absurd rfl h,
    fun _ h => absurd h (by simp)⟩

/-! ## Records -/

variable {input : RecordInput} {ctx : RecordContext}

/-- The pieces of the category and of the wanted id are proper names without backslashes. -/
def NamedRecord (host : Host) (input : RecordInput) (ctx : RecordContext) : Prop :=
  Straight (recordPath host input (baseId host input ctx)) ∧
    '\\' ∉ recordPath host input (baseId host input ctx)

instance : Decidable (NamedRecord host input ctx) := inferInstanceAs (Decidable (_ ∧ _))

/-- A number behind the wanted id changes nothing about the names. -/
theorem named_recordPath_iff {t : Table} {id : JsValue}
    (h : resolveCollision host t source (baseId host input ctx) = .ok id) :
    Named (recordPath host input id) ↔ NamedRecord host input ctx := by
  have hmarkdown : ∀ v, ".md".toList <:+ recordPath host input v := fun v =>
    ⟨input.category.getD defaultCategory ++ '/' :: template host v, by simp [recordPath]⟩
  have hnamed : ∀ v, Named (recordPath host input v) ↔
      Straight (recordPath host input v) ∧ '\\' ∉ recordPath host input v :=
    fun v => ⟨fun hn => ⟨hn.straight, hn.slashes⟩, fun hn => ⟨hn.1, hn.2, hmarkdown v⟩⟩
  rw [hnamed, NamedRecord]
  obtain ⟨_, rfl | ⟨_, n, rfl⟩⟩ := resolveCollision_ok h
  · rfl
  · have hdigits : ∀ c ∈ ofNat n, c ≠ '/' ∧ c ≠ '\\' := by
      intro c hc
      have hdigit := isDigit_of_mem_ofNat hc
      constructor <;> rintro rfl <;> exact absurd hdigit (by decide)
    let stem := input.category.getD defaultCategory ++ '/' :: template host (baseId host input ctx)
    let suffix := '-' :: (ofNat n ++ ".md".toList)
    have hbase : recordPath host input (baseId host input ctx) = stem ++ ".md".toList := by
      simp [recordPath, stem]
    have hnumbered : recordPath host input (.string (candidate host (baseId host input ctx) n)) =
        stem ++ suffix := by
      simp [recordPath, stem, suffix, template, candidate]
    have hslash : '/' ∉ suffix := by
      intro hc
      simp only [suffix, List.mem_cons, List.mem_append] at hc
      rcases hc with hc | hc | hc
      · exact absurd hc (by decide)
      · exact (hdigits _ hc).1 rfl
      · exact absurd hc (by decide)
    have hback : '\\' ∉ suffix := by
      intro hc
      simp only [suffix, List.mem_cons, List.mem_append] at hc
      rcases hc with hc | hc | hc
      · exact absurd hc (by decide)
      · exact (hdigits _ hc).2 rfl
      · exact absurd hc (by decide)
    have hlong : 3 ≤ suffix.length := by
      simp only [suffix, List.length_cons, List.length_append]
      have : ".md".toList.length = 3 := by decide
      omega
    rw [hbase, hnumbered,
      straight_append_iff hslash (by decide : '/' ∉ ".md".toList) hlong (by decide)]
    simp [hback]

theorem recordEntry_contained (h : NamedRecord host input ctx) :
    Contained host env.entriesRoot ctx.source w (recordEntry host env input ctx w) := by
  unfold recordEntry
  cases hprep : prepareRecord host input ctx w.table with
  | error e => exact contained_refused e
  | ok p =>
      obtain ⟨id, built, hid, _, rfl⟩ := prepareRecord_ok_iff.mp hprep
      exact commitEntry_contained rfl rfl ((named_recordPath_iff hid).mpr h)

/-- A new entry that is contained has a named path. -/
theorem namedRecord_of_contained {ref : EntryRef}
    (href : (recordEntry host env input ctx w).1 = .ok ref)
    (h : Contained host env.entriesRoot ctx.source w (recordEntry host env input ctx w)) :
    NamedRecord host input ctx := by
  unfold recordEntry at href h
  cases hprep : prepareRecord host input ctx w.table with
  | error e => rw [hprep] at href; exact absurd href (by simp)
  | ok p =>
      rw [hprep] at href h
      obtain ⟨id, built, hid, _, rfl⟩ := prepareRecord_ok_iff.mp hprep
      exact (named_recordPath_iff hid).mp (named_of_contained href h)

/-! ## Updates, and whole runs -/

/-- The own rows have named paths, which the updates of them write to. -/
def OwnNamed (t : Table) : Prop :=
  ∀ id r, t.contents .own id = some r → Named r.columns.path

theorem updateEntry_contained (hown : OwnNamed w.table) (id : Text) (patch : UpdatePatch)
    (uctx : UpdateContext) :
    Contained host env.entriesRoot .own w (updateEntry host env id patch uctx w) := by
  unfold updateEntry
  cases hprep : prepareUpdate host env id patch uctx w with
  | error e => exact contained_refused e
  | ok p =>
      obtain ⟨row, raw, parsed, built, hwrites, rfl⟩ := prepareUpdate_ok_iff.mp hprep
      exact commitEntry_contained rfl hwrites.own (hown id _ (contents_of_find? hwrites.found))

theorem ownNamed_write {t : Table} (h : OwnNamed t) {source : Source} {id : Text}
    {columns : Columns} {indexedAt : Int} (hnamed : source = .own → Named columns.path) :
    OwnNamed (t.write source id columns indexedAt).1 := by
  intro i r hr
  rw [contents_write] at hr
  split at hr
  · rename_i heq
    cases hr
    exact hnamed heq.1.symm
  · exact h i r hr

theorem ownNamed_commit (h : OwnNamed w.table) (hpath : ∀ mtime, (p.row mtime).path = p.relPath)
    (hnamed : Named p.relPath) : OwnNamed (commitEntry host env w p).2.table := by
  cases hres : (commitEntry host env w p).1 with
  | error e => rw [commitEntry_error hres]; exact h
  | ok ref =>
      obtain ⟨id, columns, _, _, hcols, _, hafter⟩ := commitEntry_ok hres
      rw [hafter]
      refine ownNamed_write h fun _ => ?_
      rw [(columns_fields hcols).1, hpath]
      exact hnamed

theorem ownNamed_keptByScan {o : ScanOptions} {walk : List WalkItem}
    (h : o.source = .own → ∀ item ∈ walk, Named item.file.path) :
    KeptByScan host o walk OwnNamed where
  write := by
    intro item hitem row hrow id _ columns hcols t ht
    refine ownNamed_write ht fun hown => ?_
    rw [(columns_fields hcols).1, (readRow_fields hrow).2.2.1]
    exact h hown item hitem
  sweep := fun touched t ht i r hr => ht i r (contents_sweep_of_some hr)

/-- What happens to the entries directory and the index. -/
inductive EntriesAction where
  | record (fault : Option WriteFault) (mtime : Int) (input : RecordInput) (ctx : RecordContext)
  | update (fault : Option WriteFault) (mtime : Int) (id : Text) (patch : UpdatePatch)
      (ctx : UpdateContext)
  | scan (a : ScanAction)
  /-- Anything else that changes files. -/
  | edit (disk : Disk)

def entriesStep (host : Host) (root : Path) (w : World) : EntriesAction → Option World
  | .record fault mtime input ctx =>
      some (recordEntry host { entriesRoot := root, fault, mtime } input ctx w).2
  | .update fault mtime id patch ctx =>
      some (updateEntry host { entriesRoot := root, fault, mtime } id patch ctx w).2
  | .scan a => (scanStep host w.table a).map (fun table => { w with table })
  | .edit disk => some { w with disk }

/-- New entries get named paths, and so do the files that a scan of the own entries finds. -/
def NamedStep (host : Host) (_ : World) : EntriesAction → Prop
  | .record _ _ input ctx => NamedRecord host input ctx
  | .scan a => a.source = .own → ∀ item ∈ a.kind.files, Named item.file.path
  | _ => True

theorem ownNamed_step {root : Path} {w w' : World} {a : EntriesAction} (h : OwnNamed w.table)
    (hok : NamedStep host w a) (hs : entriesStep host root w a = some w') : OwnNamed w'.table := by
  cases a with
  | record fault mtime input ctx =>
      cases hs
      unfold recordEntry
      cases hprep : prepareRecord host input ctx w.table with
      | error e => exact h
      | ok p =>
          obtain ⟨id, built, hid, _, rfl⟩ := prepareRecord_ok_iff.mp hprep
          exact ownNamed_commit h (fun _ => rfl) ((named_recordPath_iff hid).mpr hok)
  | update fault mtime id patch ctx =>
      cases hs
      unfold updateEntry
      cases hprep : prepareUpdate host { entriesRoot := root, fault, mtime } id patch ctx w with
      | error e => exact h
      | ok p =>
          obtain ⟨row, raw, parsed, built, hwrites, rfl⟩ := prepareUpdate_ok_iff.mp hprep
          exact ownNamed_commit h (fun _ => rfl) (h id _ (contents_of_find? hwrites.found))
  | scan a =>
      obtain ⟨table, htable, rfl⟩ := Option.map_eq_some_iff.mp hs
      exact scanStep_keeps (I := OwnNamed)
        (fun o ho => ownNamed_keptByScan fun he => hok (ho.symm.trans he)) h htable
  | edit disk => cases hs; exact h

theorem ownNamed_init {t : Table} (h : t.rowsOf .own = []) : OwnNamed t := by
  intro id r hr
  obtain ⟨x, hx, _⟩ := find?_of_contents hr
  obtain ⟨hmem, hkey⟩ := Lib.RowStore.find?_eq_some.mp hx
  have : x ∈ t.rowsOf .own := List.mem_filter.mpr ⟨hmem, by simp [hkey]⟩
  rw [h] at this
  exact absurd this (by simp)

/--
**Writes are contained as long as new entries and scanned files have named paths**, in every state
that calls, scans and edits reach. A call for a new entry that returns is not contained otherwise.
-/
theorem writes_contained_of_named (host : Host) (env : Environment) {w : World}
    (h : Lib.Reaches (entriesStep host env.entriesRoot) (NamedStep host)
      (fun w => w.table.rowsOf .own = []) w) :
    (∀ input ctx, NamedRecord host input ctx →
      Contained host env.entriesRoot ctx.source w (recordEntry host env input ctx w)) ∧
    (∀ id patch ctx,
      Contained host env.entriesRoot .own w (updateEntry host env id patch ctx w)) ∧
    ∀ input ctx ref, (recordEntry host env input ctx w).1 = .ok ref →
      Contained host env.entriesRoot ctx.source w (recordEntry host env input ctx w) →
      NamedRecord host input ctx := by
  have hown : OwnNamed w.table := h.invariant (fun _ hi => ownNamed_init hi)
    fun _ _ _ hi hok hs => ownNamed_step hi hok hs
  exact ⟨fun _ _ hnamed => recordEntry_contained hnamed, updateEntry_contained hown,
    fun _ _ _ href hc => namedRecord_of_contained href hc⟩

/-! ## Calls on an empty directory -/

def emptyWorld : World where
  disk _ := none
  table := Lib.RowStore.empty

def simpleContext : RecordContext where
  nowDate := 0
  ymd := "2026-11-06".toList
  slugStamp := "20261106-000000".toList
  session := "s".toList
  fingerprint := []

def simpleInput (category : Option String) : RecordInput where
  title := "Slow build".toList
  symptom := "x".toList
  category := category.map String.toList

/-- A record under the default category, and an update of it, are contained and return. -/
theorem writes_contained_of_named_update :
    let env : Environment := { entriesRoot := ["entries".toList] }
    let w := (recordEntry flatHost env (simpleInput none) simpleContext emptyWorld).2
    let result := updateEntry flatHost env "slow-build".toList {}
      { nowDate := 0, ymd := "2026-11-06".toList } w
    (∃ ref, result.1 = .ok ref) ∧ Contained flatHost env.entriesRoot .own w result := by
  intro env w result
  have hnamed : NamedRecord flatHost (simpleInput none) simpleContext := by decide +kernel
  have hinit : Lib.Reaches (entriesStep flatHost env.entriesRoot) (NamedStep flatHost)
      (fun w => w.table.rowsOf .own = []) emptyWorld := .init rfl
  have hreach := hinit.act (EntriesAction.record none 0 (simpleInput none) simpleContext) hnamed rfl
  exact ⟨exists_ok (by decide +kernel),
    (writes_contained_of_named flatHost env hreach).2.1 _ _ _⟩

/-- With the category `..` the first call on an empty directory writes beside the directory. -/
theorem recordEntry_escapes :
    ¬ ∀ (host : Host) (env : Environment) (w : World) (input : RecordInput) (ctx : RecordContext),
      w.table = Lib.RowStore.empty →
        Contained host env.entriesRoot ctx.source w (recordEntry host env input ctx w) := by
  intro h
  have hwritten : ((recordEntry flatHost { entriesRoot := ["entries".toList] }
      (simpleInput (some "..")) simpleContext emptyWorld).2.disk
      ["slow-build.md".toList]).isSome = true := by decide +kernel
  obtain ⟨below, _, hbelow⟩ := (h flatHost { entriesRoot := ["entries".toList] } emptyWorld
    (simpleInput (some "..")) simpleContext rfl).inside ["slow-build.md".toList] (by
      intro he
      rw [he] at hwritten
      exact absurd hwritten (by decide))
  rw [List.cons_append] at hbelow
  exact absurd (List.cons.inj hbelow).1 (by decide)

end Caveat.Write
