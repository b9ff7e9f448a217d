import Caveat.Index.ScanProof

/-!
# When a scan runs to its end

A file that parses, or that breaks a limit the scan records, is no reason to stop by itself. Two
files can still get in each other's way: every one of them touches the number of a row, and
`touched` accepts a number once. `scans_complete_iff` says exactly which trees and bundles a scan
gets through, given the rows it starts from.
-/

namespace Caveat.Index

open Js Entry

variable (host : Host) (o : ScanOptions)

/-- Nothing fails on the file itself: it parses, or it breaks a limit. -/
def Readable (source : Source) (item : WalkItem) : Prop :=
  item.fault = none ∧
    ∀ e, readRow host source item = .error e → ∃ c, e = EntryError.constraint c

/--
A file that parses has an id that can be bound and is not null, and either its row is the
file's already or the rest of the row can be bound and has a title.
-/
def Storable (P : Contents) (item : WalkItem) : Prop :=
  ∀ row, readRow host o.source item = .ok row → ∃ id, bindText host row.id = .ok (some id) ∧
    ((o.skipUnchanged && (P id).any (fun r => unchanged r.columns item)) = true ∨
      ∃ columns, row.columns host = .ok columns)

/-- The file touches no row that one of the files before it touches. -/
structure Free (P : Contents) (done : List WalkItem) (item : WalkItem) : Prop where
  /-- No earlier file carries its id. -/
  ids : ∀ d ∈ done, ∀ id, storedId host o.source d = some id → storedId host o.source item ≠ some id
  /-- No row at the path of an earlier refused file has its id. -/
  heldIds : ∀ d ∈ done, refused host o.source d = true → ∀ id r, P id = some r →
    r.columns.path = d.file.path → storedId host o.source item ≠ some id
  /-- Where it is refused itself, no earlier file at its path carries an id. -/
  paths : refused host o.source item = true → ∀ d ∈ done, d.file.path = item.file.path →
    storedId host o.source d = none
  /-- Where it and an earlier file at its path are refused, no row has stayed at that path. -/
  heldPaths : refused host o.source item = true → ∀ d ∈ done, refused host o.source d = true →
    d.file.path = item.file.path → ∀ id r, P id = some r → r.columns.path = item.file.path →
    ∃ c ∈ done, storedId host o.source c = some id

/-- Every file can be stored, and no two of them touch one row. -/
structure Admissible (P : Contents) (walk : List WalkItem) : Prop where
  storable : ∀ item ∈ walk, Storable host o P item
  free : Lib.EachStep (Free host o P) [] walk

variable {host : Host} {o : ScanOptions} {P : Contents} {done : List WalkItem} {item : WalkItem}

theorem claimed_eq_false_iff {id : Text} :
    claimed host o P done id = false ↔ (∀ d ∈ done, storedId host o.source d ≠ some id) ∧
      ∀ r, P id = some r → ∀ d ∈ done, refused host o.source d = true →
        r.columns.path ≠ d.file.path := by
  rw [claimed, Bool.or_eq_false_iff, List.any_eq_false]
  refine and_congr (by simp) ?_
  cases hP : P id with
  | none => simp
  | some r =>
      simp only [Option.any_some, List.any_eq_false, Option.some.injEq, forall_eq',
        Bool.and_eq_true, decide_eq_true_eq, not_and]
      exact forall₃_congr fun _ _ _ => not_congr eq_comm

theorem recordOf_path {id : Text} {r : Record} (h : recordOf host o P item id = some r) :
    r.columns.path = item.file.path := by
  rw [recordOf] at h
  split at h
  · rename_i hskip
    rw [h, Option.any_some, Bool.and_eq_true, unchanged, Bool.and_eq_true] at hskip
    exact of_decide_eq_true hskip.2.2
  · rw [Option.map_eq_some_iff] at h
    obtain ⟨columns, hcols, rfl⟩ := h
    rw [freshColumns] at hcols
    cases hrow : readRow host o.source item with
    | error e => rw [hrow] at hcols; exact absurd hcols (by simp)
    | ok row =>
        rw [hrow] at hcols
        cases hc : row.columns host with
        | error e =>
            simp only [hc, Except.toOption] at hcols
            exact absurd hcols (by simp)
        | ok c =>
            simp only [hc, Except.toOption, Option.some.injEq] at hcols
            rw [← hcols, (columns_fields hc).1, (readRow_fields hrow).2.2.1]

/-- A file that carries an id and can be stored has a record. -/
theorem recordOf_isSome {id : Text} (hst : Storable host o P item)
    (hid : storedId host o.source item = some id) : ∃ r, recordOf host o P item id = some r := by
  rw [storedId] at hid
  cases hrow : readRow host o.source item with
  | error e => rw [hrow] at hid; exact absurd hid (by simp)
  | ok row =>
      obtain ⟨i, hi, hcols⟩ := hst row hrow
      have : i = id := by simpa [hrow, hi, Except.toOption] using hid
      subst this
      rw [recordOf]
      rcases hcols with hskip | ⟨columns, hcols⟩
      · rw [if_pos hskip]
        obtain ⟨r, hr, _⟩ := (Option.any_eq_true _ _).mp (Bool.and_eq_true_iff.mp hskip).2
        exact ⟨r, hr⟩
      · split
        · rename_i hskip
          obtain ⟨r, hr, _⟩ := (Option.any_eq_true _ _).mp (Bool.and_eq_true_iff.mp hskip).2
          exact ⟨r, hr⟩
        · simp [freshColumns, hrow, hcols, Except.toOption]

/-- Each id that a file has carried holds that file's record. -/
def OneEach (host : Host) (o : ScanOptions) (P : Contents) (done : List WalkItem) : Prop :=
  ∀ d ∈ done, ∀ id, storedId host o.source d = some id →
    indexed host o P done id = recordOf host o P d id

theorem indexed_of_not_stored {id : Text} (h : ∀ d ∈ done, storedId host o.source d ≠ some id) :
    indexed host o P done id = P id := by
  have : done.find? (fun item => storedId host o.source item = some id) = none :=
    List.find?_eq_none.mpr fun d hd => by simpa using h d hd
  rw [indexed, this]

theorem OneEach.snoc (h : OneEach host o P done) (hfree : Free host o P done item) :
    OneEach host o P (done ++ [item]) := by
  intro d hd id hid
  rcases List.mem_append.mp hd with hd | hd
  · rw [indexed_snoc_of_ne (hfree.ids d hd id hid)]
    exact h d hd id hid
  · rw [List.mem_singleton] at hd
    rw [hd] at hid ⊢
    have hnone : done.find? (fun item => storedId host o.source item = some id) = none :=
      List.find?_eq_none.mpr fun d hd => by
        simpa using fun hdi => hfree.ids d hd id hdi hid
    rw [indexed, List.find?_append, hnone]
    simp [hid]

theorem passesRow_iff_free {row : UpsertRow} (hfault : item.fault = none)
    (hrow : readRow host o.source item = .ok row) (hst : Storable host o P item) :
    PassesRow host o P done item row ↔ Free host o P done item := by
  have hnot : ¬ refused host o.source item = true := by rw [refused_of_row hrow]; simp
  constructor
  · rintro ⟨_, _, id, hid, hnew, _⟩
    obtain ⟨hstored, hheld⟩ := claimed_eq_false_iff.mp hnew
    have hitem := storedId_of_row hrow hid
    refine ⟨fun d hd i hdi hi => ?_, fun d hd href i r hP hpath hi => ?_,
      fun h => absurd h hnot, fun h => absurd h hnot⟩
    · rw [hitem] at hi
      exact hstored d hd (hdi.trans hi.symm)
    · rw [hitem, Option.some.injEq] at hi
      exact hheld r (by rw [hi]; exact hP) d hd href hpath
  · intro hfree
    obtain ⟨id, hid, hcols⟩ := hst row hrow
    have hitem := storedId_of_row hrow hid
    refine ⟨by simp [hfault], by simp [hfault], id, hid, ?_, ?_⟩
    · rw [claimed_eq_false_iff]
      exact ⟨fun d hd hdi => hfree.ids d hd id hdi hitem,
        fun r hP d hd href hpath => hfree.heldIds d hd href id r hP hpath hitem⟩
    · exact hcols.imp_right fun h => ⟨by simp [hfault], h⟩

theorem passesRefused_iff_free {e : EntryInputConstraintError} (hfault : item.fault = none)
    (href : readRow host o.source item = .error (.constraint e))
    (hone : OneEach host o P done) (hdone : ∀ d ∈ done, Storable host o P d) :
    PassesRefused host o P done item ↔ Free host o P done item := by
  have hitem : refused host o.source item = true := by simp [refused, href]
  have hnone := storedId_of_refused href
  constructor
  · rintro ⟨_, _, hpaths⟩
    refine ⟨fun d _ i _ => by simp [hnone], fun d _ _ i r _ _ => by simp [hnone], ?_, ?_⟩
    · -- an earlier file that carries an id has its row, claimed, at its own path
      intro _ d hd hpath
      by_contra hsome
      obtain ⟨i, hi⟩ := Option.ne_none_iff_exists'.mp hsome
      obtain ⟨r, hr⟩ := recordOf_isSome (hdone d hd) hi
      have hfree := hpaths i r ((hone d hd i hi).trans hr) ((recordOf_path hr).trans hpath)
      exact (claimed_eq_false_iff.mp hfree).1 d hd hi
    · intro _ d hd hdref hpath i r hP hrpath
      by_contra hcarried
      have hstored : ∀ c ∈ done, storedId host o.source c ≠ some i :=
        fun c hc hci => hcarried ⟨c, hc, hci⟩
      have hfree := hpaths i r ((indexed_of_not_stored hstored).trans hP) hrpath
      exact (claimed_eq_false_iff.mp hfree).2 r hP d hd hdref (hrpath.trans hpath.symm)
  · intro hfree
    refine ⟨by simp [hfault], by simp [hfault], ?_⟩
    intro i r hidx hpath
    have hstored : ∀ d ∈ done, storedId host o.source d ≠ some i := by
      intro d hd hdi
      rw [hone d hd i hdi] at hidx
      have := hfree.paths hitem d hd ((recordOf_path hidx).symm.trans hpath)
      rw [this] at hdi
      exact absurd hdi (by simp)
    rw [indexed_of_not_stored hstored] at hidx
    refine claimed_eq_false_iff.mpr ⟨hstored, fun r' hP d hd hdref hdpath => ?_⟩
    rw [hidx, Option.some.injEq] at hP
    rw [← hP, hpath] at hdpath
    obtain ⟨c, hc, hci⟩ := hfree.heldPaths hitem d hd hdref hdpath.symm i r hidx hpath
    exact hstored c hc hci

/-- **The test of a file, read off the files and the prior rows.** -/
theorem passes_iff_free (hread : Readable host o.source item) (hst : Storable host o P item)
    (hone : OneEach host o P done) (hdone : ∀ d ∈ done, Storable host o P d) :
    Passes host o P done item ↔ Free host o P done item := by
  obtain ⟨hfault, hread⟩ := hread
  rw [Passes, hfault]
  cases hrow : readRow host o.source item with
  | ok row => simpa using passesRow_iff_free hfault hrow hst
  | error e =>
      obtain ⟨c, rfl⟩ := hread e hrow
      simpa using passesRefused_iff_free hfault hrow hone hdone

theorem storable_of_passes (h : Passes host o P done item) : Storable host o P item := by
  intro row hrow
  obtain ⟨_, h⟩ := h
  rw [hrow] at h
  obtain ⟨_, _, id, hid, _, hcols⟩ := h
  exact ⟨id, hid, hcols.imp_right And.right⟩

theorem eachStep_passes_iff {walk : List WalkItem} :
    ∀ {done : List WalkItem}, (∀ item ∈ walk, Readable host o.source item) →
      (∀ item ∈ walk, Storable host o P item) → OneEach host o P done →
      (∀ d ∈ done, Storable host o P d) →
      (Lib.EachStep (Passes host o P) done walk ↔ Lib.EachStep (Free host o P) done walk) := by
  induction walk with
  | nil => intro _ _ _ _ _; exact Iff.rfl
  | cons item walk ih =>
      intro done hread hst hone hdone
      rw [List.forall_mem_cons] at hread hst
      rw [Lib.EachStep, Lib.EachStep, passes_iff_free hread.1 hst.1 hone hdone]
      refine and_congr_right fun hfree => ih hread.2 hst.2 (hone.snoc hfree) ?_
      intro d hd
      rcases List.mem_append.mp hd with hd | hd
      · exact hdone d hd
      · exact List.mem_singleton.mp hd ▸ hst.1

theorem scanFiles_completes_iff (prior : Table) {walk : List WalkItem}
    (hread : ∀ item ∈ walk, Readable host o.source item) :
    (∃ res, scanFiles host o prior walk = .ok res) ↔
      Admissible host o (prior.contents o.source) walk := by
  rw [scanFiles_ok_iff, and_iff_left rfl]
  have hnil : OneEach host o (prior.contents o.source) [] := fun d hd => absurd hd (by simp)
  constructor
  · intro hall
    have hst : ∀ item ∈ walk, Storable host o (prior.contents o.source) item := by
      intro item hitem
      obtain ⟨pre, post, hwalk⟩ := List.append_of_mem hitem
      exact storable_of_passes (Lib.eachStep_iff.mp hall pre item post hwalk)
    exact ⟨hst, (eachStep_passes_iff hread hst hnil (by simp)).mp hall⟩
  · intro hadm
    exact (eachStep_passes_iff hread hadm.storable hnil (by simp)).mpr hadm.free

/--
**When a scan completes.** Over files that each parse or break a recorded limit, both scans end
without an exception just when every parsed file can be stored and no two files touch one row.
-/
theorem scans_complete_iff (host : Host) (prior : Table) (source : Source) :
    (∀ (walk : Option (List WalkItem)) (force : Bool),
      (∀ item ∈ walk.getD [], Readable host source item) →
      ((∃ res, scanSource host prior source walk force = .ok res) ↔
        Admissible host { source, skipUnchanged := !force } (prior.contents source)
          (walk.getD []))) ∧
    ∀ bundle : Unsealed, (∀ item ∈ bundle.walk, Readable host source item) →
      ((∃ res, scanSealedSource host prior source (some bundle) = .ok res) ↔
        Admissible host { source, skipUnchanged := false } (prior.contents source) bundle.walk) :=
  ⟨fun _ force hread =>
      scanFiles_completes_iff (o := { source, skipUnchanged := !force }) prior hread,
    fun _ hread => scanFiles_completes_iff (o := { source, skipUnchanged := false }) prior hread⟩

/-! ## Two small trees -/

/-- A file whose frontmatter is an id, a title and the two enumerations. -/
def plainFile (path id : String) : WalkItem :=
  { file :=
      { path := path.toList, mtimeMs := 0, size := 64
        content := "---\nid: ".toList ++ id.toList ++
          "\ntitle: t\nconfidence: tentative\nvisibility: private\n---\n\n## Symptom\n\nx\n".toList } }

theorem readable_of_ok {source : Source} (hfault : item.fault = none)
    (h : (readRow host source item).toOption.isSome = true) : Readable host source item := by
  refine ⟨hfault, fun e he => ?_⟩
  rw [he] at h
  exact absurd h (by simp [Except.toOption])

theorem exists_ok {ε α : Type} {x : Except ε α} (h : x.toOption.isSome = true) :
    ∃ a, x = .ok a := by
  cases x with
  | error e => exact absurd h (by simp [Except.toOption])
  | ok a => exact ⟨a, rfl⟩

theorem plainFile_readable {path id : String}
    (h : (readRow flatHost .own (plainFile path id)).toOption.isSome = true) :
    Readable flatHost .own (plainFile path id) := readable_of_ok rfl h

/-- Two files with two ids are admissible, as a tree and as a bundle. -/
theorem scans_complete_iff_twoIds :
    Admissible flatHost { source := .own, skipUnchanged := true }
        (Table.contents Lib.RowStore.empty .own) [plainFile "a.md" "a", plainFile "b.md" "b"] ∧
      Admissible flatHost { source := .own, skipUnchanged := false }
        (Table.contents Lib.RowStore.empty .own)
        (Unsealed.walk { mtimeMs := 0, files := [] }) :=
  ⟨((scans_complete_iff flatHost Lib.RowStore.empty .own).1
      (some [plainFile "a.md" "a", plainFile "b.md" "b"]) false (by
        intro item hitem
        rcases List.mem_pair.mp hitem with rfl | rfl
        · exact plainFile_readable (by decide +kernel)
        · exact plainFile_readable (by decide +kernel))).mp (exists_ok (by decide +kernel)),
    ((scans_complete_iff flatHost Lib.RowStore.empty .own).2 { mtimeMs := 0, files := [] }
      (by intro item hitem; exact absurd hitem (by simp [Unsealed.walk]))).mp
      (exists_ok (by decide +kernel))⟩

/-- Two files that parse and declare one id end the scan of an empty index with an exception. -/
theorem scan_aborts_on_repeated_id :
    ∃ (host : Host) (prior : Table) (source : Source) (walk : List WalkItem),
      (∀ item ∈ walk, Readable host source item) ∧
        ¬ ∃ res, scanSource host prior source (some walk) false = .ok res := by
  refine ⟨flatHost, Lib.RowStore.empty, .own,
    [plainFile "a.md" "same", plainFile "b.md" "same"], ?_, ?_⟩
  · intro item hitem
    rcases List.mem_pair.mp hitem with rfl | rfl
    · exact plainFile_readable (by decide +kernel)
    · exact plainFile_readable (by decide +kernel)
  · rintro ⟨res, hres⟩
    have hnone : (scanSource flatHost Lib.RowStore.empty .own
        (some [plainFile "a.md" "same", plainFile "b.md" "same"]) false).toOption.isSome =
        false := by decide +kernel
    rw [hres] at hnone
    exact absurd hnone (by simp [Except.toOption])

end Caveat.Index
