import Caveat.Index.Completion
import Caveat.Lib.Transition

/-!
# An incremental scan is a rebuild

A scan without `force` skips a file whose row has the file's path and time. It is still right when
a change of content changes the time: then a row that any earlier scan left, aborted ones
included, holds what the content at its path and time gives (`Explained`), and the scan leaves the
rows that a scan of an empty index would leave.
-/

namespace Caveat.Index

open Js Entry

/-! ## Histories of scans -/

inductive ScanKind where
  /-- `scanSource`. -/
  | walked (walk : Option (List WalkItem)) (force : Bool)
  /-- `scanSealedSource`. -/
  | unsealed (bundle : Option Unsealed)

structure ScanAction where
  source : Source
  kind : ScanKind
  sweepFault : Bool := false
  /-- The caller rolls an aborted scan back. -/
  savepoint : Bool

/-- The files a scan looks at. -/
def ScanKind.files : ScanKind → List WalkItem
  | .walked walk _ => walk.getD []
  | .unsealed bundle => (bundle.map Unsealed.walk).getD []

def ScanAction.run (host : Host) (t : Table) (a : ScanAction) :
    Except ScanAbort (Table × ScanResult) :=
  match a.kind with
  | .walked walk force => scanSource host t a.source walk force a.sweepFault
  | .unsealed bundle => scanSealedSource host t a.source bundle a.sweepFault

/-- The table after a scan that may have thrown. -/
def scanStep (host : Host) (t : Table) (a : ScanAction) : Option Table :=
  match a.run host t with
  | .ok (t', _) => some t'
  | .error e => some (if a.savepoint then t else e.table)

/-- The content of a file is the one its path and time determine. -/
def Settled (content : Text → Int → Text) (item : WalkItem) : Prop :=
  item.file.content = content item.file.path (mtimeOf item.file.mtimeMs)

/-- The scans of a source see only settled files. -/
def SettledScans (content : Text → Int → Text) (source : Source) (_ : Table) (a : ScanAction) :
    Prop :=
  a.source = source → ∀ item ∈ a.kind.files, Settled content item

/-! ## Every row says what the content at its path and time gives -/

variable (host : Host) (content : Text → Int → Text) (source : Source)

def Explained (t : Table) : Prop :=
  ∀ id r, t.contents source id = some r → ∃ row now,
    buildEntryUpsertRow host source r.columns.path
      (content r.columns.path r.columns.fileMtime) r.columns.fileMtime now = .ok row ∧
    row.columns host = .ok r.columns

variable {host content source} {o : ScanOptions} {item : WalkItem} {row : UpsertRow}

/-- A file that is read is within the limit, and its row is built from its content. -/
theorem readRow_eq_build (h : readRow host o.source item = .ok row) :
    buildEntryUpsertRow host o.source item.file.path item.file.content
      (mtimeOf item.file.mtimeMs) item.now = .ok row := by
  rw [readRow] at h
  split at h
  · exact absurd h (by simp)
  · exact h

theorem contents_sweep_of_some {t : Table} {s : Source} {touched : List Nat} {s' : Source}
    {id : Text} {r : Record} (h : (t.sweep s touched).contents s' id = some r) :
    t.contents s' id = some r := by
  rw [Table.contents, Lib.RowStore.value?, Table.sweep, Lib.RowStore.find?_keep] at h
  rw [Table.contents, Lib.RowStore.value?]
  cases hf : t.find? (s', id) with
  | none => rw [hf] at h; exact absurd h (by simp)
  | some x =>
      rw [hf, Option.map_eq_some_iff] at h
      obtain ⟨y, hy, hyr⟩ := h
      rw [(Option.filter_eq_some_iff.mp hy).1]
      exact congrArg some hyr

theorem explained_keptByScan {walk : List WalkItem}
    (hset : o.source = source → ∀ item ∈ walk, Settled content item) :
    KeptByScan host o walk (Explained host content source) where
  write := by
    intro item hitem row hrow id hid columns hcols t h i r hr
    rw [contents_write] at hr
    split at hr
    · rename_i heq
      cases hr
      obtain ⟨_, _, hpath, hmtime⟩ := readRow_fields hrow
      obtain ⟨hp, hm⟩ := columns_fields hcols
      rw [hpath] at hp
      rw [hmtime] at hm
      refine ⟨row, item.now, ?_, hcols⟩
      rw [heq.1, hp, hm, ← hset heq.1.symm item hitem]
      exact readRow_eq_build hrow
    · exact h i r hr
  sweep := fun touched t h i r hr => h i r (contents_sweep_of_some hr)

theorem explained_init {t : Table} (h : t.rowsOf source = []) : Explained host content source t := by
  intro id r hr
  obtain ⟨x, hx, _⟩ := find?_of_contents hr
  obtain ⟨hmem, hkey⟩ := Lib.RowStore.find?_eq_some.mp hx
  have : x ∈ t.rowsOf source := List.mem_filter.mpr ⟨hmem, by simp [hkey]⟩
  rw [h] at this
  exact absurd this (by simp)

/-- What writing the rows of its files and deleting keep, a scan keeps, rolled back or not. -/
theorem scanStep_keeps {I : Table → Prop} {t t' : Table} {a : ScanAction}
    (hI : ∀ o : ScanOptions, o.source = a.source → KeptByScan host o a.kind.files I) (h : I t)
    (hs : scanStep host t a = some t') : I t' := by
  have hrun : Leaves I (fun res => I res.1) (a.run host t) := by
    unfold ScanAction.run
    cases hk : a.kind with
    | walked walk force =>
        rw [hk] at hI
        exact scanFiles_leaves (hI _ rfl) h a.sweepFault
    | unsealed bundle =>
        rw [hk] at hI
        cases bundle with
        | none => exact leaves_error h
        | some u => exact scanFiles_leaves (hI _ rfl) h a.sweepFault
  rw [scanStep] at hs
  cases hres : a.run host t with
  | ok res => rw [hres] at hs; cases hs; exact hrun.1 res hres
  | error e =>
      rw [hres] at hs
      cases hs
      split
      · exact h
      · exact hrun.2 e hres

theorem explained_step {t t' : Table} {a : ScanAction} (h : Explained host content source t)
    (hset : SettledScans content source t a) (hs : scanStep host t a = some t') :
    Explained host content source t' :=
  scanStep_keeps (fun _ ho => explained_keptByScan fun he => hset (ho.symm.trans he)) h hs

/-- **Rows are explained** in every table that scans reach. -/
theorem explained_reachable {t : Table}
    (h : Lib.Reaches (scanStep host) (SettledScans content source)
      (fun t => t.rowsOf source = []) t) : Explained host content source t :=
  h.invariant (fun _ => explained_init) fun _ _ _ hi hok hs => explained_step hi hok hs

/-! ## The incremental scan -/

/-- The clock does not reach the columns. -/
theorem columns_of_build {path text : Text} {mtime now now' : Int} {row row' : UpsertRow}
    (h : buildEntryUpsertRow host source path text mtime now = .ok row)
    (h' : buildEntryUpsertRow host source path text mtime now' = .ok row') :
    row.columns host = row'.columns host := by
  rw [buildEntryUpsertRow] at h h'
  obtain ⟨parsed, hp, h⟩ := Lib.bind_eq_ok.mp h
  obtain ⟨parsed', hp', h'⟩ := Lib.bind_eq_ok.mp h'
  rw [hp] at hp'
  cases hp'
  cases h
  cases h'
  rfl

/-- The row of an unchanged, settled file is the one the file gives. -/
theorem columns_of_unchanged {t : Table} {id : Text} {r : Record}
    (hexp : Explained host content o.source t) (hset : Settled content item)
    (hrow : readRow host o.source item = .ok row) (hr : t.contents o.source id = some r)
    (hun : unchanged r.columns item = true) : row.columns host = .ok r.columns := by
  rw [unchanged, Bool.and_eq_true, decide_eq_true_iff, decide_eq_true_iff] at hun
  obtain ⟨row', now, hbuild, hcols⟩ := hexp id r hr
  rw [hun.1, hun.2, ← hset] at hbuild
  rw [← hcols]
  exact columns_of_build (readRow_eq_build hrow) hbuild

/-- A file that parses. -/
def Parses (host : Host) (source : Source) (item : WalkItem) : Prop :=
  item.fault = none ∧ ∃ row, readRow host source item = .ok row

theorem Parses.readable (h : Parses host source item) : Readable host source item := by
  obtain ⟨hfault, row, hrow⟩ := h
  refine ⟨hfault, fun e he => ?_⟩
  rw [hrow] at he
  exact absurd he (by simp)

theorem Parses.not_refused (h : Parses host source item) : refused host source item = false := by
  obtain ⟨_, row, hrow⟩ := h
  exact refused_of_row hrow

/-- Files that parse and carry different ids pass the tests of `Free` over any prior rows. -/
theorem free_of_distinct {P : Contents} {walk : List WalkItem}
    (hparse : ∀ item ∈ walk, Parses host o.source item)
    (hids : walk.Pairwise (fun a b => ∀ id, storedId host o.source a = some id →
      storedId host o.source b ≠ some id)) : Lib.EachStep (Free host o P) [] walk := by
  rw [Lib.eachStep_iff]
  rintro pre item post rfl
  have hpre : ∀ d ∈ pre, refused host o.source d = false :=
    fun d hd => (hparse d (by simp [hd])).not_refused
  have hitem : refused host o.source item = false := (hparse item (by simp)).not_refused
  have hpair := (List.pairwise_append.mp hids).2.2
  refine ⟨fun d hd => ?_, fun d hd href => ?_, fun href => ?_, fun href => ?_⟩
  · rw [List.nil_append] at hd
    exact hpair d hd item (by simp)
  · rw [List.nil_append] at hd
    exact absurd href (by simp [hpre d hd])
  · exact absurd href (by simp [hitem])
  · exact absurd href (by simp [hitem])

/-- No row of the source lies at the path of a file that the scan refuses. -/
def Unheld (host : Host) (source : Source) (P : Contents) (walk : List WalkItem) : Prop :=
  ∀ item ∈ walk, refused host source item = true →
    ∀ id r, P id = some r → r.columns.path ≠ item.file.path

theorem row_of_storedId {id : Text} (hid : storedId host source item = some id) :
    ∃ row, readRow host source item = .ok row := by
  rw [storedId] at hid
  cases hrow : readRow host source item with
  | ok row => exact ⟨row, rfl⟩
  | error e => rw [hrow] at hid; exact absurd hid (by simp)

/-- Where no row is held for a refused file, what a scan leaves does not depend on prior rows. -/
theorem rescanned_columns {t : Table} {walk : List WalkItem}
    (hexp : Explained host content o.source t) (hset : ∀ item ∈ walk, Settled content item)
    (hheld : Unheld host o.source (t.contents o.source) walk) (id : Text) :
    (rescanned host o (t.contents o.source) walk id).map Record.columns =
      ((walk.find? (fun item => storedId host o.source item = some id)).bind
        (freshColumns host o.source)) := by
  have hnone : (t.contents o.source id).any (fun r => walk.any (fun item =>
      refused host o.source item && item.file.path = r.columns.path)) = false := by
    rw [Bool.eq_false_iff, Ne, Option.any_eq_true]
    rintro ⟨r, hr, hany⟩
    obtain ⟨item, hitem, hb⟩ := List.any_eq_true.mp hany
    rw [Bool.and_eq_true, decide_eq_true_iff] at hb
    exact hheld item hitem hb.1 id r hr hb.2.symm
  rw [rescanned, claimed, hnone, Bool.or_false, indexed]
  cases hf : walk.find? (fun item => storedId host o.source item = some id) with
  | none =>
      have hany : walk.any (fun item => storedId host o.source item = some id) = false := by
        rw [List.any_eq_false]
        exact List.find?_eq_none.mp hf
      rw [hany]
      rfl
  | some item =>
      have hitem := List.mem_of_find?_eq_some hf
      have hid : storedId host o.source item = some id := by simpa using List.find?_some hf
      have hany : walk.any (fun item => storedId host o.source item = some id) = true :=
        List.any_eq_true.mpr ⟨item, hitem, by simpa using hid⟩
      rw [hany, if_pos rfl]
      simp only [Option.bind_some, recordOf]
      split
      · rename_i hskip
        obtain ⟨r, hr, hun⟩ := (Option.any_eq_true _ _).mp (Bool.and_eq_true_iff.mp hskip).2
        obtain ⟨row, hrow⟩ := row_of_storedId hid
        have hcols := columns_of_unchanged hexp (hset item hitem) hrow hr hun
        rw [hr, freshColumns, hrow]
        simp [hcols, Except.toOption]
      · rw [Option.map_map]
        exact Option.map_id'

theorem freshColumns_isSome (hrow : readRow host source item = .ok row) :
    (freshColumns host source item).isSome = true ↔ ∃ columns, row.columns host = .ok columns := by
  rw [freshColumns, hrow]
  cases hc : row.columns host <;> simp [Except.toOption, hc]

theorem bindText_of_storedId {id : Text} (hrow : readRow host source item = .ok row)
    (hid : storedId host source item = some id) : bindText host row.id = .ok (some id) := by
  rw [storedId, hrow] at hid
  cases hb : bindText host row.id with
  | error e =>
      simp only [hb, Except.toOption, Option.join_none] at hid
      exact absurd hid (by simp)
  | ok b =>
      simp only [hb, Except.toOption, Option.join_some] at hid
      rw [hid]

/-- Over explained rows the scan completes just when every file could be stored afresh. -/
theorem completes_iff_fresh {walk : List WalkItem} {t : Table}
    (hexp : Explained host content source t) (hset : ∀ item ∈ walk, Settled content item)
    (hparse : ∀ item ∈ walk, Parses host source item)
    (hcarry : ∀ item ∈ walk, ∃ id, storedId host source item = some id)
    (hids : walk.Pairwise (fun a b => ∀ id, storedId host source a = some id →
      storedId host source b ≠ some id)) (force : Bool) :
    (∃ res, scanSource host t source (some walk) force = .ok res) ↔
      ∀ item ∈ walk, (freshColumns host source item).isSome = true := by
  have hiff := scanFiles_completes_iff (o := { source, skipUnchanged := !force }) t
    (fun item hitem => (hparse item hitem).readable)
  refine hiff.trans ⟨fun hadm item hitem => ?_, fun hfresh => ⟨fun item hitem row hrow => ?_, ?_⟩⟩
  · obtain ⟨_, row, hrow⟩ := hparse item hitem
    obtain ⟨id, _, hcols⟩ := hadm.storable item hitem row hrow
    rw [freshColumns_isSome hrow]
    rcases hcols with hskip | hcols
    · -- an unchanged row was stored from this very content
      obtain ⟨r, hr, hun⟩ := (Option.any_eq_true _ _).mp (Bool.and_eq_true_iff.mp hskip).2
      exact ⟨_, columns_of_unchanged (o := { source, skipUnchanged := !force }) hexp
        (hset item hitem) hrow hr hun⟩
    · exact hcols
  · obtain ⟨id, hid⟩ := hcarry item hitem
    exact ⟨id, bindText_of_storedId hrow hid,
      .inr ((freshColumns_isSome hrow).mp (hfresh item hitem))⟩
  · exact free_of_distinct (o := { source, skipUnchanged := !force }) hparse hids

/--
**Incremental scans rebuild.** After any scans, over files that parse and carry different ids, the
scan without `force` completes just when the scan of an empty index does, which is when every row
can be stored; it then leaves the same rows for the source and the rows of the others untouched.
-/
theorem incremental_eq_rebuild (host : Host) (content : Text → Int → Text) (source : Source)
    (walk : List WalkItem) (t : Table)
    (hreach : Lib.Reaches (scanStep host) (SettledScans content source)
      (fun t => t.rowsOf source = []) t)
    (hset : ∀ item ∈ walk, Settled content item)
    (hparse : ∀ item ∈ walk, Parses host source item)
    (hcarry : ∀ item ∈ walk, ∃ id, storedId host source item = some id)
    (hids : walk.Pairwise (fun a b => ∀ id, storedId host source a = some id →
      storedId host source b ≠ some id)) :
    ((∃ res, scanSource host t source (some walk) false = .ok res) ↔
        ∀ item ∈ walk, (freshColumns host source item).isSome = true) ∧
      ((∃ res, scanSource host Lib.RowStore.empty source (some walk) false = .ok res) ↔
        ∀ item ∈ walk, (freshColumns host source item).isSome = true) ∧
      ∀ t' res, scanSource host t source (some walk) false = .ok (t', res) →
        (∀ s, s ≠ source → t'.rowsOf s = t.rowsOf s) ∧
        ∀ t₀ res₀, scanSource host Lib.RowStore.empty source (some walk) false = .ok (t₀, res₀) →
          ∀ id, (t'.contents source id).map Record.columns =
            (t₀.contents source id).map Record.columns := by
  have hexp := explained_reachable hreach
  have hexp₀ : Explained host content source Lib.RowStore.empty := explained_init rfl
  refine ⟨completes_iff_fresh hexp hset hparse hcarry hids false,
    completes_iff_fresh hexp₀ hset hparse hcarry hids false, fun t' res hres => ?_⟩
  obtain ⟨hcontents, hothers⟩ := scanFiles_contents hres
  refine ⟨hothers, fun t₀ res₀ hres₀ id => ?_⟩
  rw [hcontents, (scanFiles_contents hres₀).1]
  let o : ScanOptions := { source, skipUnchanged := !false }
  -- files that parse are not refused, so no row is held for them
  have hheld : ∀ P, Unheld host source P walk := fun P item hitem href =>
    absurd href (by simp [(hparse item hitem).not_refused])
  exact (rescanned_columns (o := o) hexp hset (hheld _) id).trans
    (rescanned_columns (o := o) hexp₀ hset (hheld _) id).symm

/-- After a first file was scanned, the scan of it and a second one completes. -/
theorem incremental_eq_rebuild_secondFile :
    ∃ t : Table, (t.contents .own "a".toList).isSome = true ∧
      ((∃ res, scanSource flatHost t .own
          (some [plainFile "a.md" "a", plainFile "b.md" "b"]) false = .ok res) ↔
        ∀ item ∈ [plainFile "a.md" "a", plainFile "b.md" "b"],
          (freshColumns flatHost .own item).isSome = true) := by
  let content : Text → Int → Text := fun path _ =>
    if path = "a.md".toList then (plainFile "a.md" "a").file.content
    else (plainFile "b.md" "b").file.content
  let first : ScanAction :=
    { source := .own, kind := .walked (some [plainFile "a.md" "a"]) false, savepoint := true }
  have hset : ∀ item ∈ [plainFile "a.md" "a", plainFile "b.md" "b"], Settled content item := by
    intro item hitem
    rcases List.mem_pair.mp hitem with rfl | rfl <;> rfl
  have hrow : (scanStep flatHost Lib.RowStore.empty first).any
      (fun t => (t.contents .own "a".toList).isSome) = true := by decide +kernel
  obtain ⟨t, ht, hrow⟩ := (Option.any_eq_true _ _).mp hrow
  have hparse : ∀ item ∈ [plainFile "a.md" "a", plainFile "b.md" "b"],
      Parses flatHost .own item := by
    intro item hitem
    rcases List.mem_pair.mp hitem with rfl | rfl
    · exact ⟨rfl, exists_ok (by decide +kernel)⟩
    · exact ⟨rfl, exists_ok (by decide +kernel)⟩
  have hida : storedId flatHost .own (plainFile "a.md" "a") = some "a".toList := by decide +kernel
  have hidb : storedId flatHost .own (plainFile "b.md" "b") = some "b".toList := by decide +kernel
  refine ⟨t, hrow, (incremental_eq_rebuild flatHost content .own _ t
    (Lib.Reaches.act (.init rfl) first (fun _ item hitem => hset item ?_) ht) hset hparse ?_ ?_).1⟩
  · rw [List.mem_singleton.mp hitem]
    simp
  · intro item hitem
    rcases List.mem_pair.mp hitem with rfl | rfl
    · exact ⟨_, hida⟩
    · exact ⟨_, hidb⟩
  · refine List.pairwise_pair.mpr fun id hid => ?_
    rw [hida] at hid
    rw [hidb, ← hid]
    decide

end Caveat.Index
