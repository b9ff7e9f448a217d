import Caveat.Index.Rebuild

/-!
# Rows that mirror files

The rows of a source mirror some files when every file can be stored or is refused, no two carry
one id, and the rows are what the files say, whatever was in the table before. A scan that holds no
old row for a refused file leaves such rows, a scan of an empty index leaves the same ones, and the
order of the files does not matter.
-/

namespace Caveat.Index

open Js Entry

variable {host : Host} {source : Source}

/-- The file by itself, without the clock and the failures of a scan. -/
def bare (file : SourceFile) : WalkItem := { file }

/-- The rows of the source are those of the files. -/
structure Mirrors (host : Host) (source : Source) (files : List SourceFile) (t : Table) :
    Prop where
  columns : ∀ file ∈ files, refused host source (bare file) = false →
    (freshColumns host source (bare file)).isSome = true
  carry : ∀ file ∈ files, refused host source (bare file) = false →
    ∃ id, storedId host source (bare file) = some id
  ids : files.Pairwise (fun a b => ∀ id, storedId host source (bare a) = some id →
    storedId host source (bare b) ≠ some id)
  rows : ∀ id, (t.contents source id).map Record.columns =
    (files.find? (fun file => storedId host source (bare file) = some id)).bind
      (fun file => freshColumns host source (bare file))

/-! ## The clock of a scan -/

theorem readRow_bare (item : WalkItem) : readRow host source item =
    (readRow host source (bare item.file)).map (fun row => { row with indexedAt := item.now }) := by
  unfold readRow buildEntryUpsertRow bare
  by_cases hsize : markdownLimit < item.file.size
  · rw [if_pos hsize, if_pos hsize]
    rfl
  · rw [if_neg hsize, if_neg hsize]
    cases parseMarkdown host item.file.content <;> rfl

theorem storedId_bare (item : WalkItem) :
    storedId host source item = storedId host source (bare item.file) := by
  rw [storedId, storedId, readRow_bare]
  cases readRow host source (bare item.file) <;> rfl

theorem freshColumns_bare (item : WalkItem) :
    freshColumns host source item = freshColumns host source (bare item.file) := by
  rw [freshColumns, freshColumns, readRow_bare]
  cases readRow host source (bare item.file) <;> rfl

theorem refused_bare (item : WalkItem) :
    refused host source item = refused host source (bare item.file) := by
  rw [refused, refused, readRow_bare]
  cases readRow host source (bare item.file) <;> rfl

/-- A file with columns has a row. -/
theorem row_of_columns {item : WalkItem} (h : (freshColumns host source item).isSome = true) :
    ∃ row, readRow host source item = .ok row := by
  rw [freshColumns] at h
  cases hrow : readRow host source item with
  | ok row => exact ⟨row, rfl⟩
  | error e => rw [hrow] at h; exact absurd h (by simp)

theorem find?_map_file (walk : List WalkItem) (id : Text) :
    ((walk.map WalkItem.file).find? (fun file => storedId host source (bare file) = some id)).bind
        (fun file => freshColumns host source (bare file)) =
      (walk.find? (fun item => storedId host source item = some id)).bind
        (freshColumns host source) := by
  induction walk with
  | nil => rfl
  | cons item walk ih =>
      rw [List.map_cons, List.find?_cons, List.find?_cons, ← storedId_bare item]
      by_cases hid : storedId host source item = some id
      · simp only [hid, decide_true, Option.bind_some]
        exact (freshColumns_bare item).symm
      · simpa only [hid, decide_false] using ih

/-! ## What mirroring depends on -/

section Mirrors

variable {files files' : List SourceFile} {t t' : Table}

theorem Mirrors.of_rowsOf (h : Mirrors host source files t) (he : t'.rowsOf source = t.rowsOf source) :
    Mirrors host source files t' where
  columns := h.columns
  carry := h.carry
  ids := h.ids
  rows := fun id => by rw [contents_eq_of_rowsOf he, h.rows]

/-- At most one file carries an id, so the order of the files does not change what is found. -/
theorem Mirrors.perm (h : Mirrors host source files t) (hp : files.Perm files') :
    Mirrors host source files' t where
  columns := fun file hf => h.columns file (hp.mem_iff.mpr hf)
  carry := fun file hf => h.carry file (hp.mem_iff.mpr hf)
  ids := (hp.pairwise_iff fun hab id hb ha => hab id ha hb).mp h.ids
  rows := by
    intro id
    rw [h.rows id]
    have hshort : ∀ l : List SourceFile, (l.filter
        (fun file => decide (storedId host source (bare file) = some id))).head? =
        l.find? (fun file => storedId host source (bare file) = some id) :=
      fun l => List.head?_filter ..
    have hfp := hp.filter (fun file => decide (storedId host source (bare file) = some id))
    have hids := h.ids.filter (fun file => decide (storedId host source (bare file) = some id))
    rw [← hshort, ← hshort]
    cases hl : files.filter (fun file => decide (storedId host source (bare file) = some id)) with
    | nil =>
        rw [hl] at hfp
        rw [List.nil_perm.mp hfp]
    | cons a rest =>
        have hall : ∀ file ∈ a :: rest, storedId host source (bare file) = some id := by
          intro file hf
          rw [← hl] at hf
          exact of_decide_eq_true (List.mem_filter.mp hf).2
        cases rest with
        | nil =>
            rw [hl] at hfp
            rw [List.singleton_perm.mp hfp]
        | cons b rest =>
            rw [hl] at hids
            exact absurd (hall b (by simp))
              ((List.pairwise_cons.mp hids).1 b (by simp) id (hall a (by simp)))

theorem mirrors_nil_iff :
    Mirrors host source [] t ↔ ∀ id, t.contents source id = none := by
  constructor
  · intro h id
    have := h.rows id
    rwa [List.find?_nil, Option.bind_none, Option.map_eq_none_iff] at this
  · intro h
    exact { columns := by simp, carry := by simp, ids := .nil
            rows := fun id => by rw [h id]; rfl }

theorem mirrors_nil_of_rowsOf (h : t.rowsOf source = []) : Mirrors host source [] t := by
  refine mirrors_nil_iff.mpr fun id => ?_
  cases hc : t.contents source id with
  | none => rfl
  | some r =>
      obtain ⟨x, hx, _⟩ := find?_of_contents hc
      obtain ⟨hmem, hkey⟩ := Lib.RowStore.find?_eq_some.mp hx
      have : x ∈ t.rowsOf source := List.mem_filter.mpr ⟨hmem, by simp [hkey]⟩
      exact absurd this (by simp [h])

/-- A row that mirrors a file lies at the file's path. -/
theorem freshColumns_path {item : WalkItem} {columns : Columns}
    (h : freshColumns host source item = some columns) : columns.path = item.file.path := by
  obtain ⟨row, hrow⟩ := row_of_columns (by rw [h]; rfl)
  rw [freshColumns, hrow] at h
  cases hc : row.columns host with
  | error e => simp only [hc, Except.toOption] at h; exact absurd h (by simp)
  | ok c =>
      simp only [hc, Except.toOption, Option.some.injEq] at h
      have hfields := readRow_fields (o := { source, skipUnchanged := false }) hrow
      rw [← h, (columns_fields hc).1, hfields.2.2.1]

/-- Rows that mirror files with different paths hold none for a refused file. -/
theorem Mirrors.unheld (h : Mirrors host source files t)
    (hpaths : (files.map SourceFile.path).Nodup) {walk : List WalkItem}
    (hwalk : (walk.map WalkItem.file).Perm files) :
    Unheld host source (t.contents source) walk := by
  intro item hitem href id r hr hpath
  have hrow := h.rows id
  rw [hr, Option.map_some] at hrow
  obtain ⟨file, hf, hcols⟩ := Option.bind_eq_some_iff.mp hrow.symm
  have hid : storedId host source (bare file) = some id := by simpa using List.find?_some hf
  have hsame : file = item.file := by
    refine List.inj_on_of_nodup_map hpaths (List.mem_of_find?_eq_some hf)
      (hwalk.mem_iff.mp (List.mem_map_of_mem hitem)) ?_
    rw [← hpath, freshColumns_path hcols]
    rfl
  obtain ⟨row, hread⟩ := row_of_storedId hid
  rw [refused_bare, ← hsame, refused_of_row hread] at href
  exact absurd href (by simp)

end Mirrors

/-! ## Scans leave mirrored rows -/

variable {content : Text → Int → Text} {o : ScanOptions} {t t' : Table} {walk : List WalkItem}
  {sweepFault : Bool} {res : ScanResult}

/-- A scan that completes and holds no old row for a refused file leaves rows that mirror. -/
theorem mirrors_of_scan (hexp : Explained host content o.source t)
    (hset : ∀ item ∈ walk, Settled content item)
    (hheld : Unheld host o.source (t.contents o.source) walk)
    (hres : scanFiles host o t walk sweepFault = .ok (t', res)) :
    Mirrors host o.source (walk.map WalkItem.file) t' := by
  have hall := (scanFiles_ok_iff.mp ⟨_, hres⟩).1
  have hpasses := Lib.eachStep_iff.mp hall
  have hitem : ∀ item ∈ walk, refused host o.source item = false →
      (∃ id, storedId host o.source item = some id) ∧
        (freshColumns host o.source item).isSome = true := by
    intro item hmem href
    obtain ⟨pre, post, hsplit⟩ := List.append_of_mem hmem
    obtain ⟨_, hpass⟩ := hpasses pre item post hsplit
    cases hrow : readRow host o.source item with
    | error e =>
        rw [hrow] at hpass
        cases e with
        | constraint c => rw [refused, hrow] at href; exact absurd href (by simp)
        | format => exact hpass.elim
        | yaml => exact hpass.elim
    | ok row =>
        rw [hrow] at hpass
        obtain ⟨_, _, id, hid, _, hcols⟩ := hpass
        refine ⟨⟨id, storedId_of_row hrow hid⟩, (freshColumns_isSome hrow).mpr ?_⟩
        rcases hcols with hskip | ⟨_, hcols⟩
        · -- the row of an unchanged file was built from its content
          obtain ⟨r, hr, hun⟩ := (Option.any_eq_true _ _).mp (Bool.and_eq_true_iff.mp hskip).2
          exact ⟨_, columns_of_unchanged hexp (hset item hmem) hrow hr hun⟩
        · exact hcols
  constructor
  · rintro _ hfile href
    obtain ⟨item, hmem, rfl⟩ := List.mem_map.mp hfile
    rw [← refused_bare] at href
    rw [← freshColumns_bare]
    exact (hitem item hmem href).2
  · rintro _ hfile href
    obtain ⟨item, hmem, rfl⟩ := List.mem_map.mp hfile
    rw [← refused_bare] at href
    rw [← storedId_bare]
    exact (hitem item hmem href).1
  · -- an id that an earlier file carries is claimed when a later file is looked at
    rw [List.pairwise_map]
    refine hall.pairwise fun done item hpass d hd id hid hid' => ?_
    rw [← storedId_bare] at hid hid'
    obtain ⟨_, hpass⟩ := hpass
    obtain ⟨row, hrow⟩ := row_of_storedId hid'
    rw [hrow] at hpass
    obtain ⟨_, _, i, hi, hclaimed, _⟩ := hpass
    obtain rfl : id = i := Option.some.inj (hid'.symm.trans (storedId_of_row hrow hi))
    exact (claimed_eq_false_iff.mp hclaimed).1 d hd hid
  · intro id
    rw [(scanFiles_contents hres).1, find?_map_file]
    exact rescanned_columns hexp hset hheld id

/-- Mirrored files can be stored in an empty index, each in a row of its own. -/
theorem Mirrors.admissible {files : List SourceFile} (h : Mirrors host o.source files t)
    (hpaths : (files.map SourceFile.path).Nodup) (hwalk : walk.map WalkItem.file = files) :
    Admissible host o (fun _ => none) walk := by
  subst hwalk
  have hmem : ∀ item ∈ walk, item.file ∈ walk.map WalkItem.file :=
    fun item hitem => List.mem_map_of_mem hitem
  constructor
  · intro item hitem row hrow
    have href : refused host o.source (bare item.file) = false := by
      rw [← refused_bare]
      exact refused_of_row hrow
    obtain ⟨id, hid⟩ := h.carry _ (hmem item hitem) href
    have hcols := h.columns _ (hmem item hitem) href
    rw [← storedId_bare] at hid
    rw [← freshColumns_bare] at hcols
    exact ⟨id, bindText_of_storedId hrow hid, .inr ((freshColumns_isSome hrow).mp hcols)⟩
  · rw [Lib.eachStep_iff]
    rintro pre item post rfl
    have hpair := (List.pairwise_append.mp (List.pairwise_map.mp h.ids)).2.2
    rw [List.map_append, List.map_append, List.map_cons, List.map_cons] at hpaths
    have hnew := (List.nodup_append.mp hpaths).2.2
    refine ⟨fun d hd id hid => ?_, fun d _ _ id r hr => absurd hr (by simp),
      fun _ d hd hpath => ?_, fun _ d _ _ _ id r hr => absurd hr (by simp)⟩
    · rw [List.nil_append] at hd
      rw [storedId_bare] at hid ⊢
      exact hpair d hd item (by simp) id hid
    · -- no two of the files have one path
      rw [List.nil_append] at hd
      exact absurd hpath
        (hnew _ (List.mem_map_of_mem (List.mem_map_of_mem hd)) _ (by simp))

/-- Over an empty index a scan of mirrored files completes and leaves the same rows. -/
theorem Mirrors.fresh {files : List SourceFile} (h : Mirrors host o.source files t)
    (hpaths : (files.map SourceFile.path).Nodup) (hwalk : walk.map WalkItem.file = files)
    (hset : ∀ item ∈ walk, Settled content item) (hfault : ∀ item ∈ walk, item.fault = none) :
    ∃ t₀ res, scanFiles host o Lib.RowStore.empty walk = .ok (t₀, res) ∧
      ∀ id, (t.contents o.source id).map Record.columns =
        (t₀.contents o.source id).map Record.columns := by
  have hread : ∀ item ∈ walk, Readable host o.source item := by
    intro item hitem
    refine ⟨hfault item hitem, fun e he => ?_⟩
    by_cases href : refused host o.source item = true
    · rw [refused, he] at href
      cases e with
      | constraint c => exact ⟨c, rfl⟩
      | format => exact absurd href (by simp)
      | yaml => exact absurd href (by simp)
    · have hfile : item.file ∈ files := hwalk ▸ List.mem_map_of_mem hitem
      have hcols := h.columns _ hfile (by rw [← refused_bare]; simpa using href)
      rw [← freshColumns_bare] at hcols
      obtain ⟨row, hrow⟩ := row_of_columns hcols
      rw [hrow] at he
      exact absurd he (by simp)
  obtain ⟨⟨t₀, res⟩, hres⟩ := (scanFiles_completes_iff Lib.RowStore.empty hread).mpr
    (h.admissible hpaths hwalk)
  have hfresh := mirrors_of_scan (explained_init rfl) hset
    (fun _ _ _ id r hr => absurd hr (by simp [Table.contents])) hres
  rw [hwalk] at hfresh
  exact ⟨t₀, res, hres, fun id => (h.rows id).trans (hfresh.rows id).symm⟩

end Caveat.Index
