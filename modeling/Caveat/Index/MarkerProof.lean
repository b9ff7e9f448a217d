import Caveat.Index.Marker
import Mathlib.Data.Rat.Denumerable

/-!
# When the marker can be trusted

A marker that equals the digest of the files says nothing by itself: the cycle's digest may be of
files that were edited after they were scanned, both kinds of job write theirs when scans failed,
and files that go back to an earlier state go back to its digest. `marker_sound` says what has to
hold instead. The invariant is that a stamp the files have not departed from names files that the
rows mirror.
-/

namespace Caveat.Index

open Js Entry

variable {host : Host} {sha256 : Text → Text} {content : Source → Text → Int → Text}
  {bundle : Source → Rat → Nat → List BundleFile} {texts : Set Text}

/-! ## Files that time and size determine -/

/-- The content of a file follows from its path and time, that of a bundle from time and size. -/
structure RootSettled (content : Source → Text → Int → Text)
    (bundle : Source → Rat → Nat → List BundleFile) (source : Source) (root : RootDir) :
    Prop where
  paths : (root.files.map SourceFile.path).Nodup
  content : ∀ file ∈ root.files, file.content = content source file.path (mtimeOf file.mtimeMs)
  bundle : ∀ mtimeMs size files, root = .sealed mtimeMs size files →
    files = bundle source mtimeMs size

/-- The files that a run may come across. -/
structure TreesSettled (host : Host) (content : Source → Text → Int → Text)
    (bundle : Source → Rat → Nat → List BundleFile) (texts : Set Text) (f : EntryTrees) :
    Prop where
  lines : ∀ line ∈ f.lines, line.Plain
  text : digestText host f ∈ texts
  roots : ∀ source root, f.root source = some root → RootSettled content bundle source root

theorem rootSettled_nil (source : Source) :
    RootSettled content bundle source (.plaintext []) where
  paths := by simp [RootDir.files]
  content := by simp [RootDir.files]
  bundle := by simp

theorem rootFiles_getD (root : Option RootDir) :
    rootFiles root = (root.getD (.plaintext [])).files := by
  cases root <;> rfl

theorem sourceLines_getD (source : Source) (root : Option RootDir) :
    sourceLines source root = sourceLines source (some (root.getD (.plaintext []))) := by
  cases root <;> rfl

theorem TreesSettled.root {f : EntryTrees} (h : TreesSettled host content bundle texts f)
    (source : Source) : RootSettled content bundle source ((f.root source).getD (.plaintext [])) := by
  cases hr : f.root source with
  | none => exact rootSettled_nil source
  | some root => exact h.roots source root hr

/-- Settled files with one line are one file. -/
theorem fileLine_injOn (source : Source) : Set.InjOn (fileLine source)
    { file | file.content = content source file.path (mtimeOf file.mtimeMs) } := by
  rintro ⟨path, mtimeMs, size, text⟩ h ⟨path', mtimeMs', size', text'⟩ h' heq
  simp only [fileLine, DigestLine.mk.injEq, Option.some.injEq, true_and] at heq
  obtain ⟨rfl, rfl, rfl⟩ := heq
  have hsame : text = text' := h.trans h'.symm
  rw [hsame]

/-- **Settled roots with the same lines have the same files**, up to their order. -/
theorem files_perm_of_lines {source : Source} {r r' : RootDir}
    (h : RootSettled content bundle source r) (h' : RootSettled content bundle source r')
    (hp : (sourceLines source (some r)).Perm (sourceLines source (some r'))) :
    r.files.Perm r'.files := by
  -- a bundle has a line without a path, files have none of those
  have hmixed : ∀ (files : List SourceFile) mtimeMs size bundled,
      ¬ (sourceLines source (some (.plaintext files))).Perm
        (sourceLines source (some (.sealed mtimeMs size bundled))) := by
    intro files mtimeMs size bundled hperm
    have hmem := hperm.mem_iff.mpr (List.mem_singleton.mpr rfl)
    obtain ⟨file, _, hfile⟩ := List.mem_map.mp hmem
    exact absurd (congrArg DigestLine.path hfile) (by simp [fileLine])
  cases r with
  | plaintext files =>
      cases r' with
      | plaintext files' =>
          have : Nonempty SourceFile := ⟨{ path := [], mtimeMs := 0, size := 0, content := [] }⟩
          exact perm_of_perm_map (fileLine_injOn source) h.content h'.content hp
      | sealed mtimeMs size bundled => exact (hmixed _ _ _ _ hp).elim
  | sealed mtimeMs size bundled =>
      cases r' with
      | plaintext files' => exact (hmixed _ _ _ _ hp.symm).elim
      | sealed mtimeMs' size' bundled' =>
          have hline := List.singleton_perm_singleton.mp hp
          simp only [DigestLine.mk.injEq, true_and] at hline
          obtain ⟨rfl, rfl⟩ := hline
          rw [h.bundle _ _ _ rfl, h'.bundle _ _ _ rfl]

/-! ## The scan of a root -/

/-- What the scan of a root does differently. -/
def RootDir.options (source : Source) : RootDir → ScanOptions
  | .plaintext _ => { source, skipUnchanged := true }
  | .sealed .. => { source, skipUnchanged := false }

@[simp] theorem RootDir.options_source (source : Source) (root : RootDir) :
    (root.options source).source = source := by
  cases root <;> rfl

theorem unsealed_walk (run : ScanRun) (mtimeMs : Rat) (size : Nat) (files : List BundleFile) :
    Unsealed.walk { mtimeMs, files := files.map run.sealedFile } =
      (RootDir.files (.sealed mtimeMs size files)).map run.item := by
  rw [Unsealed.walk, RootDir.files, List.filter_map, List.map_map, List.map_map]
  rfl

/-- Unless its bundle stays locked, the scan of a root goes over its files. -/
theorem scan_eq (host : Host) (source : Source) (root : RootDir) {run : ScanRun}
    (hrun : run.locked = false) (t : Table) : root.scan host source run t =
      scanFiles host (root.options source) t (root.files.map run.item) run.late.sweep := by
  cases root with
  | plaintext files => rfl
  | sealed mtimeMs size files =>
      simp only [RootDir.scan, hrun, Bool.false_eq_true, if_false, scanSealedSource]
      rw [unsealed_walk run mtimeMs size files]
      rfl

theorem scan_ok {source : Source} {root : RootDir} {run : ScanRun} {t t' : Table}
    {res : ScanResult} (h : root.scan host source run t = .ok (t', res)) :
    scanFiles host (root.options source) t (root.files.map run.item) run.late.sweep =
      .ok (t', res) := by
  cases hl : run.locked with
  | false => rw [← scan_eq host source root hl t, h]
  | true =>
      cases root with
      | plaintext files => exact h
      | sealed mtimeMs size files =>
          rw [RootDir.scan, hl, if_pos rfl] at h
          exact absurd h (by simp [scanSealedSource])

theorem map_item_file (run : ScanRun) (files : List SourceFile) :
    (files.map run.item).map WalkItem.file = files := by
  rw [List.map_map]
  exact List.map_id' files

theorem settled_items {source : Source} {root : RootDir}
    (h : RootSettled content bundle source root) (run : ScanRun) :
    ∀ item ∈ root.files.map run.item, Settled (content source) item := by
  rintro _ hitem
  obtain ⟨file, hfile, rfl⟩ := List.mem_map.mp hitem
  exact h.content file hfile

theorem unheld_of_holdsRow {source : Source} {t : Table} {files : List SourceFile}
    (h : holdsRow host source t files = false) (run : ScanRun) :
    Unheld host source (t.contents source) (files.map run.item) := by
  rintro _ hitem href id r hr hpath
  obtain ⟨file, hfile, rfl⟩ := List.mem_map.mp hitem
  rw [refused_bare] at href
  have hno := List.any_eq_false.mp h file hfile
  obtain ⟨x, hx, rfl⟩ := find?_of_contents hr
  refine hno ?_
  have hmem : x ∈ rowsAt t source file.path := by
    rw [mem_rowsAt]
    exact ⟨id, hx, hpath⟩
  have hne : (rowsAt t source file.path).isEmpty = false := by
    rw [List.isEmpty_eq_false_iff]
    exact List.ne_nil_of_mem hmem
  rw [Bool.and_eq_true, hne]
  exact ⟨href, rfl⟩

/-- A scan that ends well and holds no old row leaves rows that mirror the root. -/
theorem mirrors_of_rootScan {source : Source} {root : RootDir} {run : ScanRun} {t t' : Table}
    {res : ScanResult} (hroot : RootSettled content bundle source root)
    (hexp : Explained host (content source) source t)
    (hheld : Unheld host source (t.contents source) (root.files.map run.item))
    (h : root.scan host source run t = .ok (t', res)) : Mirrors host source root.files t' := by
  have hm := mirrors_of_scan (o := root.options source) (by simpa using hexp)
    (settled_items hroot run) (by simpa using hheld) (scan_ok h)
  rwa [map_item_file, RootDir.options_source] at hm

/-- A scan of a settled root keeps the rows of every source explained. -/
theorem explained_rootScan {source : Source} {root : RootDir} {run : ScanRun} {t t' : Table}
    {res : ScanResult} (hroot : RootSettled content bundle source root)
    (h : root.scan host source run t = .ok (t', res)) (s : Source)
    (hexp : Explained host (content s) s t) : Explained host (content s) s t' := by
  have hkept : KeptByScan host (root.options source) (root.files.map run.item)
      (Explained host (content s) s) := by
    refine explained_keptByScan fun hs => ?_
    rw [RootDir.options_source] at hs
    subst hs
    exact settled_items hroot run
  exact (scanFiles_leaves hkept hexp run.late.sweep).1 _ (scan_ok h)

/-! ## The condition -/

/--
The job has scanned every source that has a root in `f` from files with the same lines, and the
sources that have none were purged or have no rows.
-/
def Covered (job : Job) (t : Table) (f : EntryTrees) : Prop :=
  ∀ source, match f.root source with
    | some root => ∃ seen, job.clean source = some seen ∧
        (sourceLines source (some seen)).Perm (sourceLines source (some root))
    | none => absent job.present source = true ∨ t.rowsOf source = []

/-- The stamps in a state. -/
def MarkerState.Stamped (st : MarkerState) (stamp : Stamp) : Prop :=
  st.marker = some stamp ∨ ∃ job, st.job = some job ∧ job.held = some stamp

variable (host sha256 content bundle texts)

/--
What a step has to meet. Files stay settled and do not come back to a digest they departed from;
the cycle takes its digest of what it has scanned, and the worker, unless the files have departed
from its digest, has scanned what it took the digest of.
-/
def MarkerCareful (st : MarkerState) : MarkerAction → Prop
  | .edit trees => TreesSettled host content bundle texts trees ∧
      ∀ stamp, st.Stamped stamp → stamp.departed = true →
        computeEntriesDigest host sha256 trees ≠ stamp.digest
  | .finish seen _ => ∀ job source steady todo, st.job = some job →
      job.pc = .reading source steady todo → RootSettled content bundle source seen
  | .digest => ∀ job, st.job = some job → job.pc = .marking → Covered job st.table st.trees
  | .write => ∀ job stamp, st.job = some job → job.kind = .worker → job.held = some stamp →
      stamp.departed = false → Covered job st.table stamp.taken
  | _ => True

/-! ## The invariant -/

/-- The rows mirror all settled files that have the digest. -/
def RowsMatch (digest : EntriesDigest) (t : Table) : Prop :=
  ∀ f, TreesSettled host content bundle texts f → computeEntriesDigest host sha256 f = digest →
    ∀ source, Mirrors host source (rootFiles (f.root source)) t

/-- The community directories have been listed. -/
def JobPc.listed : JobPc → Bool
  | .reading _ _ (some _) | .community _ => true
  | _ => false

/-- The invariant of a running job. The digest `d` is that of the marker or is no longer there. -/
structure JobInv (f : EntryTrees) (t : Table) (marker : Option Stamp) (job : Job) : Prop where
  /-- While the files have the marker's digest, a scan sees the files that are there. -/
  steady : ∀ stamp source b todo, marker = some stamp → stamp.departed = false →
    stamp.digest = computeEntriesDigest host sha256 f → job.pc = .reading source b todo → b = true
  /-- And the directories that were listed are the ones with files. -/
  unlisted : ∀ stamp, marker = some stamp → stamp.departed = false →
    stamp.digest = computeEntriesDigest host sha256 f → job.pc.listed = true →
    ∀ source, absent job.present source = true → sourceLines source (f.root source) = []
  clean : ∀ source seen, job.clean source = some seen →
    RootSettled content bundle source seen ∧ Mirrors host source seen.files t
  purged : job.pc = .marking ∨ job.pc = .writing →
    ∀ source, absent job.present source = true → t.rowsOf source = []
  held : ∀ stamp, job.held = some stamp → TreesSettled host content bundle texts stamp.taken ∧
    stamp.digest = computeEntriesDigest host sha256 stamp.taken
  /-- The cycle takes its digest only when the rows match. -/
  cycle : ∀ stamp, job.held = some stamp → job.kind = .cycle →
    job.pc = .writing ∧ RowsMatch host sha256 content bundle texts stamp.digest t
  starting : job.pc = .starting → job.kind = .worker

structure MarkerInv (st : MarkerState) : Prop where
  trees : TreesSettled host content bundle texts st.trees
  explained : ∀ source, Explained host (content source) source st.table
  marker : ∀ stamp, st.marker = some stamp → stamp.departed = false →
    RowsMatch host sha256 content bundle texts stamp.digest st.table
  left : ∀ stamp, st.Stamped stamp → stamp.departed = true →
    stamp.digest ≠ computeEntriesDigest host sha256 st.trees
  job : ∀ job, st.job = some job →
    JobInv host sha256 content bundle texts st.trees st.table st.marker job

/-- While a job is scanning, the files have the digest of the stamps they have not departed from. -/
def Beside (st : MarkerState) : Prop :=
  ∀ job, st.job = some job → job.pc.underway = true → ∀ stamp, st.Stamped stamp →
    stamp.departed = false → stamp.digest = computeEntriesDigest host sha256 st.trees

variable {host sha256 content bundle texts}

/-! ## Rows that match a digest -/

/-- Settled trees with one digest have the same files, source by source. -/
theorem rootFiles_perm (hnum : PlainNumbers host) (hsha : Set.InjOn sha256 texts)
    {f f' : EntryTrees} (hf : TreesSettled host content bundle texts f)
    (hf' : TreesSettled host content bundle texts f')
    (he : computeEntriesDigest host sha256 f = computeEntriesDigest host sha256 f')
    (source : Source) : (rootFiles (f.root source)).Perm (rootFiles (f'.root source)) := by
  have hlines := sourceLines_perm_of_digest hnum hsha hf.lines hf'.lines hf.text hf'.text he source
  rw [sourceLines_getD, sourceLines_getD source (f'.root source)] at hlines
  rw [rootFiles_getD, rootFiles_getD]
  exact files_perm_of_lines (hf.root source) (hf'.root source) hlines

theorem RowsMatch.of_trees (hnum : PlainNumbers host) (hsha : Set.InjOn sha256 texts)
    {f : EntryTrees} {t : Table} (hf : TreesSettled host content bundle texts f)
    (h : ∀ source, Mirrors host source (rootFiles (f.root source)) t) :
    RowsMatch host sha256 content bundle texts (computeEntriesDigest host sha256 f) t :=
  fun _ hf' he source => (h source).perm (rootFiles_perm hnum hsha hf hf' he.symm source)

/-- What a job has covered, the rows mirror. -/
theorem rowsMatch_of_covered (hnum : PlainNumbers host) (hsha : Set.InjOn sha256 texts)
    {f : EntryTrees} {t : Table} {job : Job} (hf : TreesSettled host content bundle texts f)
    (hclean : ∀ source seen, job.clean source = some seen →
      RootSettled content bundle source seen ∧ Mirrors host source seen.files t)
    (hpurged : ∀ source, absent job.present source = true → t.rowsOf source = [])
    (hc : Covered job t f) :
    RowsMatch host sha256 content bundle texts (computeEntriesDigest host sha256 f) t := by
  refine RowsMatch.of_trees hnum hsha hf fun source => ?_
  have hc := hc source
  cases hr : f.root source with
  | some root =>
      rw [hr] at hc
      obtain ⟨seen, hseen, hlines⟩ := hc
      obtain ⟨hsettled, hm⟩ := hclean source seen hseen
      exact hm.perm (files_perm_of_lines hsettled (hf.roots source root hr) hlines)
  | none =>
      rw [hr] at hc
      have hrows : t.rowsOf source = [] := hc.elim (hpurged source) id
      exact mirrors_nil_of_rowsOf hrows

/-! ## Every step keeps the invariant -/

section Steps

variable {st st' : MarkerState} {job : Job}

/-- Only the place of the job changes. -/
theorem JobInv.move {f : EntryTrees} {t : Table} {marker : Option Stamp}
    (h : JobInv host sha256 content bundle texts f t marker job) {pc : JobPc}
    (hsteady : ∀ source b todo, pc = .reading source b todo → b = true)
    (hlisted : pc.listed = true → job.pc.listed = true)
    (hlast : pc ≠ .marking ∧ pc ≠ .writing ∧ pc ≠ .starting) (hold : job.pc ≠ .writing) :
    JobInv host sha256 content bundle texts f t marker { job with pc } where
  steady := fun _ source b todo _ _ _ hpc => hsteady source b todo hpc
  unlisted := fun stamp hm hu hd hl => h.unlisted stamp hm hu hd (hlisted hl)
  clean := h.clean
  purged := fun hpc => absurd hpc (by simp [hlast.1, hlast.2.1])
  held := h.held
  cycle := fun stamp hh hk => absurd (h.cycle stamp hh hk).1 hold
  starting := fun hpc => absurd hpc hlast.2.2

theorem edited_listed (same : Bool) (pc : JobPc) : (pc.edited same).listed = pc.listed := by
  cases pc with
  | reading source b todo => cases todo <;> rfl
  | _ => rfl

theorem edited_eq_marking {same : Bool} {pc : JobPc} (h : pc.edited same = .marking) :
    pc = .marking := by
  cases pc with
  | reading source b todo => exact absurd h (by simp [JobPc.edited])
  | _ => exact h

theorem edited_eq_writing {same : Bool} {pc : JobPc} (h : pc.edited same = .writing) :
    pc = .writing := by
  cases pc with
  | reading source b todo => exact absurd h (by simp [JobPc.edited])
  | _ => exact h

theorem edited_eq_starting {same : Bool} {pc : JobPc} (h : pc.edited same = .starting) :
    pc = .starting := by
  cases pc with
  | reading source b todo => exact absurd h (by simp [JobPc.edited])
  | _ => exact h

theorem writing_edited (same : Bool) {pc : JobPc} (h : pc = .writing) :
    pc.edited same = .writing := by
  rw [h]
  rfl

theorem edited_eq_reading {same b : Bool} {pc : JobPc} {source : Source}
    {todo : Option (List Text)} (h : pc.edited same = .reading source b todo) :
    ∃ b₀, pc = .reading source b₀ todo ∧ b = (b₀ && same) := by
  cases pc with
  | reading source' b₀ todo' =>
      simp only [JobPc.edited, JobPc.reading.injEq] at h
      obtain ⟨rfl, rfl, rfl⟩ := h
      exact ⟨b₀, rfl, rfl⟩
  | _ => exact absurd h (by simp [JobPc.edited])

theorem underway_of_listed {pc : JobPc} (h : pc.listed = true) : pc.underway = true := by
  cases pc with
  | reading source b todo => rfl
  | community todo => rfl
  | _ => exact absurd h (by simp [JobPc.listed])

theorem jobInv_edit (hnum : PlainNumbers host) (hsha : Set.InjOn sha256 texts)
    (h : MarkerInv host sha256 content bundle texts st) (hbeside : Beside host sha256 st)
    {trees : EntryTrees} (hsettled : TreesSettled host content bundle texts trees)
    (hjob : st.job = some job) :
    JobInv host sha256 content bundle texts trees st.table st.marker
      { job with pc := job.pc.edited (decide (computeEntriesDigest host sha256 trees =
          computeEntriesDigest host sha256 st.trees)) } where
  steady := by
    intro stamp source b todo hm hu hd hpc
    obtain ⟨b₀, hpc₀, rfl⟩ := edited_eq_reading hpc
    -- the digest was the marker's before the edit, so the edit did not change it
    have hold := hbeside job hjob (by rw [hpc₀]; rfl) stamp (.inl hm) hu
    rw [(h.job job hjob).steady stamp source b₀ todo hm hu hold hpc₀, Bool.true_and,
      decide_eq_true_iff, ← hd, hold]
  unlisted := by
    intro stamp hm hu hd hl source habs
    rw [edited_listed] at hl
    have hold := hbeside job hjob (underway_of_listed hl) stamp (.inl hm) hu
    have hnil := (h.job job hjob).unlisted stamp hm hu hold hl source habs
    have hp := sourceLines_perm_of_digest hnum hsha hsettled.lines h.trees.lines hsettled.text
      h.trees.text (hd.symm.trans hold) source
    rw [hnil] at hp
    exact List.perm_nil.mp hp
  clean := (h.job job hjob).clean
  purged := fun hpc => (h.job job hjob).purged (hpc.imp edited_eq_marking edited_eq_writing)
  held := (h.job job hjob).held
  cycle := fun stamp hh hk =>
    let ⟨hpc, hrows⟩ := (h.job job hjob).cycle stamp hh hk
    ⟨writing_edited _ hpc, hrows⟩
  starting := fun hpc => (h.job job hjob).starting (edited_eq_starting hpc)

theorem markerInv_edit (hnum : PlainNumbers host) (hsha : Set.InjOn sha256 texts)
    (h : MarkerInv host sha256 content bundle texts st) (hbeside : Beside host sha256 st)
    {trees : EntryTrees}
    (hok : MarkerCareful host sha256 content bundle texts st (.edit trees))
    (hs : act host sha256 st (.edit trees) = some st') :
    MarkerInv host sha256 content bundle texts st' := by
  obtain ⟨hsettled, hback⟩ := hok
  cases hs
  constructor
  · exact hsettled
  · exact h.explained
  · exact h.marker
  · intro stamp hst hd
    refine (hback stamp ?_ hd).symm
    rcases hst with hm | ⟨job, hjob, hheld⟩
    · exact .inl hm
    · obtain ⟨job₀, hjob₀, rfl⟩ := Option.map_eq_some_iff.mp hjob
      exact .inr ⟨job₀, hjob₀, hheld⟩
  · intro job hjob
    obtain ⟨job₀, hjob₀, rfl⟩ := Option.map_eq_some_iff.mp hjob
    exact jobInv_edit hnum hsha h hbeside hsettled hjob₀

theorem markerInv_start (h : MarkerInv host sha256 content bundle texts st) {kind : JobKind}
    (hs : act host sha256 st (.start kind) = some st') :
    MarkerInv host sha256 content bundle texts st' := by
  unfold act at hs
  cases hjob : st.job with
  | some job => rw [hjob] at hs; exact absurd hs (by simp)
  | none =>
      rw [hjob] at hs
      cases hs
      have hfirst : kind.first = .starting ∨ kind.first = .own := by cases kind <;> simp [JobKind.first]
      refine ⟨h.trees, h.explained, h.marker, fun stamp hst => h.left stamp ?_, ?_⟩
      · rcases hst with hm | ⟨job, hj, hheld⟩
        · exact .inl hm
        · cases hj
          exact absurd hheld (by simp)
      · intro job hj
        cases hj
        constructor
        · intro stamp source b todo _ _ _ hpc
          rcases hfirst with hf | hf <;> rw [hf] at hpc <;> exact absurd hpc (by simp)
        · intro stamp _ _ _ hl
          rcases hfirst with hf | hf <;> rw [hf] at hl <;> exact absurd hl (by simp [JobPc.listed])
        · intro source seen hseen
          exact absurd hseen (by simp)
        · intro hpc
          rcases hfirst with hf | hf <;> rw [hf] at hpc <;> exact absurd hpc (by simp)
        · intro stamp hheld
          exact absurd hheld (by simp)
        · intro stamp hheld
          exact absurd hheld (by simp)
        · intro hpc
          cases kind with
          | worker => rfl
          | cycle => exact absurd hpc (by simp [JobKind.first])

/-- The running job ends and the table and the marker stay. -/
theorem markerInv_fail (h : MarkerInv host sha256 content bundle texts st) :
    MarkerInv host sha256 content bundle texts { st with job := none } where
  trees := h.trees
  explained := h.explained
  marker := h.marker
  left := fun stamp hst => h.left stamp (.inl (hst.elim id fun ⟨_, hj, _⟩ => absurd hj (by simp)))
  job := fun _ hj => absurd hj (by simp)

/-- Only the job changes, and the stamp it holds stays. -/
theorem MarkerInv.setJob (h : MarkerInv host sha256 content bundle texts st)
    (hjob : st.job = some job) {job' : Job} (hheld : job'.held = job.held)
    (hj : JobInv host sha256 content bundle texts st.trees st.table st.marker job') :
    MarkerInv host sha256 content bundle texts { st with job := some job' } where
  trees := h.trees
  explained := h.explained
  marker := h.marker
  left := by
    rintro stamp (hm | ⟨_, hj', hs⟩) hd
    · exact h.left stamp (.inl hm) hd
    · cases hj'
      exact h.left stamp (.inr ⟨job, hjob, hheld ▸ hs⟩) hd
  job := by
    intro _ hj'
    cases hj'
    exact hj

/-- The places a job moves on from to a source. -/
theorem Job.next_cases {source : Source} {todo : Option (List Text)}
    (h : job.next = some (source, todo)) : job.pc.listed = todo.isSome ∧ job.pc ≠ .writing := by
  unfold Job.next at h
  split at h
  · rename_i hpc
    cases h
    exact ⟨by rw [hpc]; rfl, by simp [hpc]⟩
  · rename_i hpc
    cases h
    exact ⟨by rw [hpc]; rfl, by simp [hpc]⟩
  · exact absurd h (by simp)

theorem listed_after (todo : Option (List Text)) : (JobPc.after todo).listed = todo.isSome := by
  cases todo <;> rfl

theorem after_ne (todo : Option (List Text)) :
    (JobPc.after todo ≠ .marking ∧ JobPc.after todo ≠ .writing ∧ JobPc.after todo ≠ .starting) ∧
      ∀ source b todo', JobPc.after todo ≠ .reading source b todo' := by
  cases todo <;> simp [JobPc.after]

theorem markerInv_begin (h : MarkerInv host sha256 content bundle texts st)
    (hjob : st.job = some job) (hs : jobStep host sha256 st job .begin = some st') :
    MarkerInv host sha256 content bundle texts st' := by
  obtain ⟨⟨source, todo⟩, hnext, hs⟩ := Option.bind_eq_some_iff.mp hs
  obtain ⟨hlisted, hpc⟩ := Job.next_cases hnext
  dsimp only at hs
  split at hs
  · cases hs
    refine h.setJob hjob rfl ((h.job job hjob).move ?_ ?_ (by simp) hpc)
    · intro _ b _ he
      cases he
      rfl
    · intro hl
      rw [hlisted]
      cases todo with
      | none => exact absurd hl (by simp [JobPc.listed])
      | some todo => rfl
  · exact absurd hs (by simp)

theorem markerInv_skip (h : MarkerInv host sha256 content bundle texts st)
    (hjob : st.job = some job) (hs : jobStep host sha256 st job .skip = some st') :
    MarkerInv host sha256 content bundle texts st' := by
  obtain ⟨⟨source, todo⟩, hnext, hs⟩ := Option.bind_eq_some_iff.mp hs
  obtain ⟨hlisted, hpc⟩ := Job.next_cases hnext
  have hafter := after_ne todo
  dsimp only at hs
  split at hs
  · cases hs
    refine h.setJob hjob rfl ((h.job job hjob).move ?_ ?_ hafter.1 hpc)
    · intro source b todo' he
      exact absurd he (hafter.2 source b todo')
    · intro hl
      rw [hlisted, ← listed_after, hl]
  · exact absurd hs (by simp)

theorem markerInv_list (h : MarkerInv host sha256 content bundle texts st)
    (hjob : st.job = some job) (hs : jobStep host sha256 st job .list = some st') :
    MarkerInv host sha256 content bundle texts st' := by
  have hj := h.job job hjob
  cases hpc : job.pc with
  | listing =>
      simp only [jobStep, hpc, Option.some.injEq] at hs
      subst hs
      refine h.setJob hjob rfl ⟨?_, ?_, hj.clean, ?_, hj.held, ?_, ?_⟩
      · intro stamp source b todo _ _ _ he
        exact absurd he (by simp)
      · -- a source that is not listed has no root
        intro stamp _ _ _ _ source habs
        cases source with
        | own => exact absurd habs (by simp [absent])
        | community handle =>
            have hnot := absent_community.mp habs
            have hnone : st.trees.root (.community handle) = none := by
              have hfind : st.trees.community.find? (fun d => d.1 = handle) = none := by
                rw [List.find?_eq_none]
                intro d hd he
                exact hnot (List.mem_map.mpr ⟨d, hd, by simpa using he⟩)
              rw [EntryTrees.root, hfind]
              rfl
            rw [hnone]
            rfl
      · intro he
        exact absurd he (by simp)
      · intro stamp hheld hkind
        exact absurd ((hj.cycle stamp hheld hkind).1.symm.trans hpc) (by simp)
      · intro he
        exact absurd he (by simp)
  | _ => simp [jobStep, hpc] at hs

/-- What a purge leaves of rows that mirror. -/
theorem mirrors_purge {source : Source} {files : List SourceFile} {t : Table} {present : List Text}
    (h : Mirrors host source files t) (hpresent : absent present source = true → files = []) :
    Mirrors host source files (purge t present) := by
  have hrows := rowsOf_purge t present source
  by_cases habs : absent present source = true
  · rw [if_pos habs] at hrows
    rw [hpresent habs]
    exact mirrors_nil_of_rowsOf hrows
  · rw [if_neg habs] at hrows
    exact h.of_rowsOf hrows

theorem explained_purge {source : Source} {t : Table} {present : List Text}
    (h : Explained host (content source) source t) :
    Explained host (content source) source (purge t present) := by
  have hrows := rowsOf_purge t present source
  by_cases habs : absent present source = true
  · rw [if_pos habs] at hrows
    exact explained_init hrows
  · rw [if_neg habs] at hrows
    intro id r hr
    rw [contents_eq_of_rowsOf hrows] at hr
    exact h id r hr

theorem rootFiles_nil_of_lines {source : Source} {root : Option RootDir}
    (h : sourceLines source root = []) : rootFiles root = [] := by
  cases root with
  | none => rfl
  | some root =>
      cases root with
      | plaintext files => exact List.map_eq_nil_iff.mp h
      | sealed mtimeMs size files => exact absurd h (by simp [sourceLines])

theorem markerInv_purge (hnum : PlainNumbers host) (hsha : Set.InjOn sha256 texts)
    (h : MarkerInv host sha256 content bundle texts st) (hbeside : Beside host sha256 st)
    (hjob : st.job = some job) (hs : jobStep host sha256 st job .purge = some st') :
    MarkerInv host sha256 content bundle texts st' := by
  have hj := h.job job hjob
  cases hpc : job.pc with
  | community todo =>
      cases todo with
      | cons handle todo => simp [jobStep, hpc] at hs
      | nil =>
          simp only [jobStep, hpc, Option.some.injEq] at hs
          subst hs
          have hlast : job.kind.afterPurge = .marking ∨ job.kind.afterPurge = .writing := by
            cases job.kind <;> simp [JobKind.afterPurge]
          refine ⟨h.trees, fun source => explained_purge (h.explained source), ?_, ?_, ?_⟩
          · -- the directories that are not listed have no files under the marker's digest
            intro stamp hm hu
            have hd := hbeside job hjob (by rw [hpc]; rfl) stamp (.inl hm) hu
            dsimp only
            rw [hd]
            refine RowsMatch.of_trees hnum hsha h.trees fun source => ?_
            refine mirrors_purge (h.marker stamp hm hu st.trees h.trees hd.symm source) ?_
            intro habs
            exact rootFiles_nil_of_lines
              (hj.unlisted stamp hm hu hd (by rw [hpc]; rfl) source habs)
          · rintro stamp (hm | ⟨_, hj', hheld⟩) hd
            · exact h.left stamp (.inl hm) hd
            · cases hj'
              exact h.left stamp (.inr ⟨job, hjob, hheld⟩) hd
          · intro _ hj'
            cases hj'
            constructor
            · intro _ source b todo _ _ _ he
              rcases hlast with hl | hl <;> rw [hl] at he <;> exact absurd he (by simp)
            · intro _ _ _ _ he
              rcases hlast with hl | hl <;> rw [hl] at he <;>
                exact absurd he (by simp [JobPc.listed])
            · intro source seen hseen
              dsimp only at hseen
              split at hseen
              · exact absurd hseen (by simp)
              · rename_i habs
                obtain ⟨hsettled, hm⟩ := hj.clean source seen hseen
                exact ⟨hsettled, mirrors_purge hm fun ha => absurd ha habs⟩
            · intro _ source habs
              exact (rowsOf_purge st.table job.present source).trans (if_pos habs)
            · exact hj.held
            · intro stamp hheld hkind
              exact absurd ((hj.cycle stamp hheld hkind).1.symm.trans hpc) (by simp)
            · intro he
              rcases hlast with hl | hl <;> rw [hl] at he <;> exact absurd he (by simp)
  | _ => simp [jobStep, hpc] at hs

theorem markerInv_digest (hnum : PlainNumbers host) (hsha : Set.InjOn sha256 texts)
    (h : MarkerInv host sha256 content bundle texts st)
    (hok : MarkerCareful host sha256 content bundle texts st .digest) (hjob : st.job = some job)
    (hs : jobStep host sha256 st job .digest = some st') :
    MarkerInv host sha256 content bundle texts st' := by
  have hj := h.job job hjob
  -- the stamp that is taken is of the files as they are
  have hleft : ∀ job' : Job, job'.held = some (takeStamp host sha256 st.trees) → ∀ stamp, MarkerState.Stamped { st with job := some job' } stamp →
      stamp.departed = true → stamp.digest ≠ computeEntriesDigest host sha256 st.trees := by
    rintro job' hheld' stamp (hm | ⟨_, hj', hheld⟩) hd
    · exact h.left stamp (.inl hm) hd
    · cases hj'
      rw [hheld'] at hheld
      cases hheld
      exact absurd hd (by simp [takeStamp])
  cases hpc : job.pc with
  | starting =>
      simp only [jobStep, hpc, Option.some.injEq] at hs
      subst hs
      refine ⟨h.trees, h.explained, h.marker, hleft _ rfl, ?_⟩
      intro _ hj'
      cases hj'
      constructor
      · intro _ source b todo _ _ _ he
        exact absurd he (by simp)
      · intro _ _ _ _ he
        exact absurd he (by simp [JobPc.listed])
      · exact hj.clean
      · intro he
        exact absurd he (by simp)
      · intro stamp hheld
        cases hheld
        exact ⟨h.trees, rfl⟩
      · intro stamp _ hkind
        exact absurd ((hj.starting hpc).symm.trans hkind) (by simp)
      · intro he
        exact absurd he (by simp)
  | marking =>
      simp only [jobStep, hpc, Option.some.injEq] at hs
      subst hs
      refine ⟨h.trees, h.explained, h.marker, hleft _ rfl, ?_⟩
      intro _ hj'
      cases hj'
      constructor
      · intro _ source b todo _ _ _ he
        exact absurd he (by simp)
      · intro _ _ _ _ he
        exact absurd he (by simp [JobPc.listed])
      · exact hj.clean
      · intro _
        exact hj.purged (.inl hpc)
      · intro stamp hheld
        cases hheld
        exact ⟨h.trees, rfl⟩
      · intro stamp hheld _
        cases hheld
        exact ⟨rfl, rowsMatch_of_covered hnum hsha h.trees hj.clean (hj.purged (.inl hpc))
          (hok job hjob hpc)⟩
      · intro he
        exact absurd he (by simp)
  | _ => simp [jobStep, hpc] at hs

theorem markerInv_write (hnum : PlainNumbers host) (hsha : Set.InjOn sha256 texts)
    (h : MarkerInv host sha256 content bundle texts st)
    (hok : MarkerCareful host sha256 content bundle texts st .write) (hjob : st.job = some job)
    (hs : jobStep host sha256 st job .write = some st') :
    MarkerInv host sha256 content bundle texts st' := by
  have hj := h.job job hjob
  cases hpc : job.pc with
  | writing =>
      simp only [jobStep, hpc, Option.some.injEq] at hs
      subst hs
      refine ⟨h.trees, h.explained, ?_, ?_, fun _ hj' => absurd hj' (by simp)⟩
      · intro stamp hheld hu
        cases hkind : job.kind with
        | worker =>
            obtain ⟨hsettled, hd⟩ := hj.held stamp hheld
            dsimp only
            rw [hd]
            exact rowsMatch_of_covered hnum hsha hsettled hj.clean (hj.purged (.inr hpc))
              (hok job stamp hjob hkind hheld hu)
        | cycle => exact (hj.cycle stamp hheld hkind).2
      · rintro stamp (hm | ⟨_, hj', _⟩) hd
        · exact h.left stamp (.inr ⟨job, hjob, hm⟩) hd
        · exact absurd hj' (by simp)
  | _ => simp [jobStep, hpc] at hs

theorem finishScan_ok (st : MarkerState) (job : Job) {source : Source} {root : RootDir}
    (todo : Option (List Text)) {run : ScanRun} {t' : Table} {res : ScanResult}
    (h : root.scan host source run st.table = .ok (t', res)) (hr : run.late.release = false) :
    finishScan host st job source root todo run = { st with
      table := t'
      job := some (job.scanned source
        (if holdsRow host source st.table root.files then none else some root) todo) } := by
  unfold finishScan
  rw [hr, withSourceSavepoint_ok (c := { table := st.table }) h]

/-- A scan ends with its table or leaves the one it found. -/
theorem finishScan_cases (host : Host) (st : MarkerState) (job : Job) (source : Source)
    (root : RootDir) (todo : Option (List Text)) (run : ScanRun) :
    finishScan host st job source root todo run =
        { st with job := some (job.scanned source none todo) } ∨
      ∃ t' res, root.scan host source run st.table = .ok (t', res) ∧
        finishScan host st job source root todo run = { st with
          table := t'
          job := some (job.scanned source
            (if holdsRow host source st.table root.files then none else some root) todo) } := by
  cases hscan : root.scan host source run st.table with
  | error e =>
      unfold finishScan
      rw [withSourceSavepoint_error (c := { table := st.table }) hscan]
      exact .inl rfl
  | ok res =>
      obtain ⟨t', result⟩ := res
      cases hr : run.late.release with
      | true =>
          unfold finishScan
          rw [hr, withSourceSavepoint_releaseFault (c := { table := st.table }) hscan]
          exact .inl rfl
      | false => exact .inr ⟨t', result, rfl, finishScan_ok st job todo hscan hr⟩

/-- The job after a scan, given what holds of the sources it has scanned cleanly. -/
theorem JobInv.scanned {f : EntryTrees} {t t' : Table} {marker : Option Stamp}
    (h : JobInv host sha256 content bundle texts f t marker job) {source : Source} {b : Bool}
    {todo : Option (List Text)} (hpc : job.pc = .reading source b todo) {seen : Option RootDir}
    (hclean : ∀ s root, (job.scanned source seen todo).clean s = some root →
      RootSettled content bundle s root ∧ Mirrors host s root.files t') :
    JobInv host sha256 content bundle texts f t' marker (job.scanned source seen todo) := by
  have hafter := after_ne todo
  constructor
  · intro _ s b' todo' _ _ _ he
    exact absurd he (hafter.2 s b' todo')
  · intro stamp hm hu hd hl
    refine h.unlisted stamp hm hu hd ?_
    rw [Job.scanned, listed_after] at hl
    rw [hpc]
    cases todo with
    | none => exact absurd hl (by simp)
    | some todo => rfl
  · exact hclean
  · intro he
    exact absurd he (by simp [Job.scanned, hafter.1])
  · exact h.held
  · intro stamp hheld hkind
    exact absurd ((h.cycle stamp hheld hkind).1.symm.trans hpc) (by simp)
  · intro he
    exact absurd he hafter.1.2.2

/-- The scan of a source from the files the marker's digest names leaves its rows right. -/
theorem mirrors_rescan {source : Source} {f : EntryTrees} {t t' : Table} {run : ScanRun}
    {res : ScanResult} (hroot : RootSettled content bundle source
      ((f.root source).getD (.plaintext [])))
    (hexp : Explained host (content source) source t)
    (hm : Mirrors host source (rootFiles (f.root source)) t)
    (hscan : ((f.root source).getD (.plaintext [])).scan host source run t = .ok (t', res)) :
    Mirrors host source (rootFiles (f.root source)) t' := by
  rw [rootFiles_getD] at hm ⊢
  have hperm : (((f.root source).getD (.plaintext [])).files.map run.item).map WalkItem.file =
      ((f.root source).getD (.plaintext [])).files := map_item_file run _
  exact mirrors_of_rootScan hroot hexp (hm.unheld hroot.paths (by rw [hperm])) hscan

theorem markerInv_finish (hnum : PlainNumbers host) (hsha : Set.InjOn sha256 texts)
    (h : MarkerInv host sha256 content bundle texts st) (hbeside : Beside host sha256 st)
    {seen : RootDir} {run : ScanRun}
    (hok : MarkerCareful host sha256 content bundle texts st (.finish seen run))
    (hjob : st.job = some job) (hs : jobStep host sha256 st job (.finish seen run) = some st') :
    MarkerInv host sha256 content bundle texts st' := by
  have hj := h.job job hjob
  cases hpc : job.pc with
  | reading source steady todo =>
      simp only [jobStep, hpc, Option.some.injEq] at hs
      subst hs
      have hroot : RootSettled content bundle source
          (if steady then (st.trees.root source).getD (.plaintext []) else seen) := by
        split
        · exact h.trees.root source
        · exact hok job source steady todo hjob hpc
      generalize hr : (if steady then (st.trees.root source).getD (.plaintext []) else seen) =
        root at hroot ⊢
      rcases finishScan_cases host st job source root todo run with he | ⟨t', res, hscan, he⟩
      · rw [he]
        refine h.setJob hjob rfl (hj.scanned hpc fun s r hc => ?_)
        dsimp only [Job.scanned] at hc
        split at hc
        · exact absurd hc (by simp)
        · exact hj.clean s r hc
      · rw [he]
        have hothers : ∀ s, s ≠ source → t'.rowsOf s = st.table.rowsOf s := by
          intro s hs
          exact (scanFiles_contents (scan_ok hscan)).2 s (by rwa [RootDir.options_source])
        refine ⟨h.trees, fun s => explained_rootScan hroot hscan s (h.explained s), ?_, ?_, ?_⟩
        · intro stamp hm hu
          have hd := hbeside job hjob (by rw [hpc]; rfl) stamp (.inl hm) hu
          have hsteady := hj.steady stamp source steady todo hm hu hd hpc
          rw [hsteady, if_pos rfl] at hr
          subst hr
          dsimp only
          rw [hd]
          refine RowsMatch.of_trees hnum hsha h.trees fun s => ?_
          have hold := h.marker stamp hm hu st.trees h.trees hd.symm s
          by_cases hs : s = source
          · subst hs
            exact mirrors_rescan hroot (h.explained s) hold hscan
          · exact hold.of_rowsOf (hothers s hs)
        · rintro stamp (hm | ⟨_, hj', hheld⟩) hd
          · exact h.left stamp (.inl hm) hd
          · cases hj'
            exact h.left stamp (.inr ⟨job, hjob, hheld⟩) hd
        · intro _ hj'
          cases hj'
          refine hj.scanned hpc fun s r hc => ?_
          dsimp only [Job.scanned] at hc
          split at hc
          · rename_i hs
            subst hs
            split at hc
            · exact absurd hc (by simp)
            · rename_i hheld
              cases hc
              exact ⟨hroot, mirrors_of_rootScan hroot (h.explained s)
                (unheld_of_holdsRow (by simpa using hheld) run) hscan⟩
          · rename_i hs
            obtain ⟨hsettled, hm⟩ := hj.clean s r hc
            exact ⟨hsettled, hm.of_rowsOf (hothers s hs)⟩
  | _ => simp [jobStep, hpc] at hs

/-! ## Stamps that are departed from -/

theorem departed_beside {current : EntriesDigest} {stamp : Stamp}
    (h : (stamp.beside current).departed = false) :
    stamp.departed = false ∧ stamp.digest = current := by
  rw [Stamp.beside, Bool.or_eq_false_iff] at h
  exact ⟨h.1, by simpa using h.2⟩

theorem beside_left {current : EntriesDigest} {stamp : Stamp}
    (h : stamp.departed = true → stamp.digest ≠ current)
    (hd : (stamp.beside current).departed = true) : stamp.digest ≠ current := by
  rw [Stamp.beside, Bool.or_eq_true] at hd
  exact hd.elim h fun hne => by simpa using hne

/-- Noting who has departed weakens nothing that is used of a stamp. -/
theorem markerInv_note (h : MarkerInv host sha256 content bundle texts st) :
    MarkerInv host sha256 content bundle texts (noteDeparted host sha256 st) ∧
      Beside host sha256 (noteDeparted host sha256 st) := by
  unfold noteDeparted
  cases hjob : st.job with
  | none => exact ⟨h, fun job hj => absurd (hjob.symm.trans hj) (by simp)⟩
  | some job =>
      have hj := h.job job hjob
      dsimp only
      split
      · refine ⟨⟨h.trees, h.explained, ?_, ?_, ?_⟩, ?_⟩
        · intro stamp hm hu
          obtain ⟨stamp₀, hm₀, rfl⟩ := Option.map_eq_some_iff.mp hm
          exact h.marker stamp₀ hm₀ (departed_beside hu).1
        · rintro stamp (hm | ⟨_, hj', hheld⟩) hd
          · obtain ⟨stamp₀, hm₀, rfl⟩ := Option.map_eq_some_iff.mp hm
            have hne : stamp₀.digest ≠ _ := beside_left (h.left stamp₀ (.inl hm₀)) hd
            exact hne
          · cases hj'
            obtain ⟨stamp₀, hheld₀, rfl⟩ := Option.map_eq_some_iff.mp hheld
            have hne : stamp₀.digest ≠ _ :=
              beside_left (h.left stamp₀ (.inr ⟨job, hjob, hheld₀⟩)) hd
            exact hne
        · intro _ hj'
          cases hj'
          constructor
          · intro stamp source b todo hm hu hd hpc
            obtain ⟨stamp₀, hm₀, rfl⟩ := Option.map_eq_some_iff.mp hm
            exact hj.steady stamp₀ source b todo hm₀ (departed_beside hu).1 hd hpc
          · intro stamp hm hu hd hl
            obtain ⟨stamp₀, hm₀, rfl⟩ := Option.map_eq_some_iff.mp hm
            exact hj.unlisted stamp₀ hm₀ (departed_beside hu).1 hd hl
          · exact hj.clean
          · exact hj.purged
          · intro stamp hheld
            obtain ⟨stamp₀, hheld₀, rfl⟩ := Option.map_eq_some_iff.mp hheld
            exact hj.held stamp₀ hheld₀
          · intro stamp hheld hkind
            obtain ⟨stamp₀, hheld₀, rfl⟩ := Option.map_eq_some_iff.mp hheld
            exact hj.cycle stamp₀ hheld₀ hkind
          · exact hj.starting
        · rintro _ _ _ stamp (hm | ⟨_, hj', hheld⟩) hu
          · obtain ⟨stamp₀, hm₀, rfl⟩ := Option.map_eq_some_iff.mp hm
            exact (departed_beside hu).2
          · cases hj'
            obtain ⟨stamp₀, hheld₀, rfl⟩ := Option.map_eq_some_iff.mp hheld
            exact (departed_beside hu).2
      · rename_i hpc
        exact ⟨h, fun job' hj' hu => absurd (Option.some.inj (hjob.symm.trans hj') ▸ hu) hpc⟩

/-- **One step.** -/
theorem markerInv_step (hnum : PlainNumbers host) (hsha : Set.InjOn sha256 texts) {a : MarkerAction}
    (h : MarkerInv host sha256 content bundle texts st ∧ Beside host sha256 st)
    (hok : MarkerCareful host sha256 content bundle texts st a)
    (hs : markerStep host sha256 st a = some st') :
    MarkerInv host sha256 content bundle texts st' ∧ Beside host sha256 st' := by
  obtain ⟨h, hbeside⟩ := h
  obtain ⟨st₁, hact, rfl⟩ := Option.map_eq_some_iff.mp hs
  refine markerInv_note ?_
  cases a with
  | edit trees => exact markerInv_edit hnum hsha h hbeside hok hact
  | start kind => exact markerInv_start h hact
  | digest =>
      obtain ⟨job, hjob, hact⟩ := Option.bind_eq_some_iff.mp hact
      exact markerInv_digest hnum hsha h hok hjob hact
  | begin =>
      obtain ⟨job, hjob, hact⟩ := Option.bind_eq_some_iff.mp hact
      exact markerInv_begin h hjob hact
  | skip =>
      obtain ⟨job, hjob, hact⟩ := Option.bind_eq_some_iff.mp hact
      exact markerInv_skip h hjob hact
  | finish seen run =>
      obtain ⟨job, hjob, hact⟩ := Option.bind_eq_some_iff.mp hact
      exact markerInv_finish hnum hsha h hbeside hok hjob hact
  | list =>
      obtain ⟨job, hjob, hact⟩ := Option.bind_eq_some_iff.mp hact
      exact markerInv_list h hjob hact
  | purge =>
      obtain ⟨job, hjob, hact⟩ := Option.bind_eq_some_iff.mp hact
      exact markerInv_purge hnum hsha h hbeside hjob hact
  | write =>
      obtain ⟨job, hjob, hact⟩ := Option.bind_eq_some_iff.mp hact
      exact markerInv_write hnum hsha h hok hjob hact
  | fail =>
      obtain ⟨job, _, hact⟩ := Option.bind_eq_some_iff.mp hact
      cases hact
      exact markerInv_fail h

theorem markerInv_init (hst : MarkerStart st)
    (htrees : TreesSettled host content bundle texts st.trees) :
    MarkerInv host sha256 content bundle texts st ∧ Beside host sha256 st := by
  obtain ⟨htable, hmarker, hjob⟩ := hst
  refine ⟨⟨htrees, ?_, ?_, ?_, ?_⟩, fun job hj => absurd (hjob.symm.trans hj) (by simp)⟩
  · intro source
    rw [htable]
    exact explained_init rfl
  · intro stamp hm
    exact absurd (hmarker.symm.trans hm) (by simp)
  · rintro stamp (hm | ⟨job, hj, _⟩)
    · exact absurd (hmarker.symm.trans hm) (by simp)
    · exact absurd (hjob.symm.trans hj) (by simp)
  · intro job hj
    exact absurd (hjob.symm.trans hj) (by simp)

end Steps

/--
**A marker that matches can be trusted in careful runs.** If every step of a run meets
`MarkerCareful`, then in every state that is reached a marker equal to the digest of the files
means that the rows of every source are what a scan of its files leaves in an empty index.
-/
theorem marker_sound (host : Host) (sha256 : Text → Text) (content : Source → Text → Int → Text)
    (bundle : Source → Rat → Nat → List BundleFile) (texts : Set Text) (hnum : PlainNumbers host)
    (hsha : Set.InjOn sha256 texts) (st : MarkerState)
    (hreach : Lib.Reaches (markerStep host sha256)
      (MarkerCareful host sha256 content bundle texts)
      (fun st => MarkerStart st ∧ TreesSettled host content bundle texts st.trees) st)
    (hmatch : MarkerMatches host sha256 st) : RowsCurrent host st := by
  have hinv := (hreach.invariant
    (I := fun st => MarkerInv host sha256 content bundle texts st ∧ Beside host sha256 st)
    (fun _ hst => markerInv_init hst.1 hst.2) fun _ _ _ => markerInv_step hnum hsha).1
  obtain ⟨stamp, hm, hd⟩ := hmatch
  have hu : stamp.departed = false := by
    by_contra hne
    exact hinv.left stamp (.inl hm) (by simpa using hne) hd
  intro source now
  have hmirror := hinv.marker stamp hm hu st.trees hinv.trees hd.symm source
  have hroot := hinv.trees.root source
  rw [rootFiles_getD] at hmirror
  unfold scanRoot
  generalize (st.trees.root source).getD (.plaintext []) = root at hmirror hroot
  rw [scan_eq host source root rfl]
  have hmirror : Mirrors host (root.options source).source root.files st.table := by
    rwa [RootDir.options_source]
  have hfresh := hmirror.fresh hroot.paths
    (map_item_file { now } root.files) (settled_items hroot { now }) ?_
  · simpa only [RootDir.options_source] using hfresh
  · intro item hitem
    obtain ⟨file, _, rfl⟩ := List.mem_map.mp hitem
    rfl

/-! ## Two runs -/

/-- `flatHost` with numbers written in unary, so that different numbers have different texts. -/
def unaryHost : Host := { flatHost with
  numberText := fun n => match n with
    | .finite q => List.replicate (Encodable.encode q) '1'
    | _ => [] }

theorem unaryHost_plainNumbers : PlainNumbers unaryHost where
  injective := by
    intro q q' h
    have hlen := congrArg List.length h
    simp only [unaryHost, List.length_replicate] at hlen
    exact Encodable.encode_injective hlen
  plain := by
    intro q
    constructor
    · intro h
      exact absurd (List.eq_of_mem_replicate h) (by decide)
    · intro h
      exact absurd (List.eq_of_mem_replicate h) (by decide)

/-- Own files only. -/
def ownTrees (files : List SourceFile) : EntryTrees where
  own := some files
  community := []
  nodup := by simp

/-- One file, `a.md`. -/
def oneFile : SourceFile := (plainFile "a.md" "a").file

/-- Every file has the text of `oneFile`, and bundles are empty. -/
def oneContent : Source → Text → Int → Text := fun _ _ _ => oneFile.content

theorem ownTrees_root (files : List SourceFile) {source : Source} {root : RootDir}
    (h : (ownTrees files).root source = some root) : source = .own ∧ root = .plaintext files := by
  cases source with
  | own => cases h; exact ⟨rfl, rfl⟩
  | community handle => exact absurd h (by simp [EntryTrees.root, ownTrees])

theorem ownTrees_settled {files : List SourceFile} (h : files = [] ∨ files = [oneFile]) :
    TreesSettled unaryHost oneContent (fun _ _ _ => []) Set.univ (ownTrees files) where
  lines := by
    have hplain : (fileLine .own oneFile).Plain := by
      refine ⟨⟨by decide, by decide⟩, ?_, by decide⟩
      intro path hp
      cases hp
      exact ⟨by decide, by decide⟩
    rcases h with rfl | rfl
    · simp [EntryTrees.lines, EntryTrees.root, ownTrees, sourceLines]
    · intro line hline
      obtain rfl : line = fileLine .own oneFile := by
        simpa [EntryTrees.lines, EntryTrees.root, ownTrees, sourceLines] using hline
      exact hplain
  text := Set.mem_univ _
  roots := by
    intro source root hr
    obtain ⟨_, rfl⟩ := ownTrees_root files hr
    refine ⟨?_, ?_, by simp⟩
    · rcases h with rfl | rfl <;> simp [RootDir.files]
    · intro file hfile
      rcases h with rfl | rfl
      · exact absurd hfile (by simp [RootDir.files])
      · rw [List.mem_singleton.mp hfile]
        rfl

/-- A job that is to scan the own files. -/
def freshState (files : List SourceFile) : MarkerState :=
  { trees := ownTrees files, table := Lib.RowStore.empty }

/-- Files change only together with their time or size, and a scan may see any such files. -/
def SettledFiles (host : Host) (content : Source → Text → Int → Text)
    (bundle : Source → Rat → Nat → List BundleFile) (_ : MarkerState) : MarkerAction → Prop
  | .edit trees => TreesSettled host content bundle Set.univ trees
  | .finish seen _ => ∀ source, RootSettled content bundle source seen
  | _ => True

/-- The scan of `oneFile` ends well. -/
theorem oneFile_scanned : ∃ res : Table × ScanResult,
    (RootDir.plaintext [oneFile]).scan unaryHost .own {} Lib.RowStore.empty = .ok res :=
  exists_ok (by decide +kernel)

/-- A cycle that is scanning `oneFile`. -/
def readingOne : MarkerState := { freshState [oneFile] with
  job := some { kind := .cycle, pc := .reading .own true none } }

/-- The cycle after that. -/
def scannedOne (t : Table) : MarkerState := { freshState [oneFile] with
  table := t
  job := some (Job.scanned { kind := .cycle, pc := .own } .own (some (.plaintext [oneFile])) none) }

theorem oneFile_finished {t : Table} {res : ScanResult}
    (h : (RootDir.plaintext [oneFile]).scan unaryHost .own {} Lib.RowStore.empty = .ok (t, res)) :
    markerStep unaryHost id readingOne (.finish (.plaintext []) {}) = some (scannedOne t) := by
  have hheld : holdsRow unaryHost .own readingOne.table (RootDir.plaintext [oneFile]).files =
      false := by decide +kernel
  have hfin := finishScan_ok readingOne { kind := .cycle, pc := .reading .own true none } none h rfl
  rw [hheld, if_neg (by simp)] at hfin
  have hact : act unaryHost id readingOne (.finish (.plaintext []) {}) = some (scannedOne t) :=
    congrArg some hfin
  rw [markerStep, hact]
  rfl

/-- The careful cycle over `oneFile` leaves a marker, and rows that match it. -/
theorem marker_sound_oneFile : ∃ st, st.marker.isSome = true ∧ st.trees = ownTrees [oneFile] ∧
    RowsCurrent unaryHost st := by
  obtain ⟨⟨t, res⟩, hscan⟩ := oneFile_scanned
  have hstart : Lib.Reaches (markerStep unaryHost id)
      (MarkerCareful unaryHost id oneContent (fun _ _ _ => []) Set.univ)
      (fun st => MarkerStart st ∧
        TreesSettled unaryHost oneContent (fun _ _ _ => []) Set.univ st.trees)
      (freshState [oneFile]) := .init ⟨⟨rfl, rfl, rfl⟩, ownTrees_settled (.inr rfl)⟩
  have hread := (hstart.act (.start .cycle) trivial rfl).act .begin trivial rfl
  -- the scan ends well, so the job has scanned the own files cleanly
  have hfinish := hread.act (.finish (.plaintext []) {})
    (by intro _ source _ _ _ _; exact rootSettled_nil source) (oneFile_finished hscan)
  have hpurge := (hfinish.act .list trivial rfl).act .purge trivial rfl
  have hcovered : ∀ source, match (ownTrees [oneFile]).root source with
      | some root => ∃ seen, (if absent [] source then none
          else if source = .own then some (RootDir.plaintext [oneFile]) else none) = some seen ∧
          (sourceLines source (some seen)).Perm (sourceLines source (some root))
      | none => absent [] source = true ∨ (purge t []).rowsOf source = [] := by
    intro source
    cases source with
    | own => exact ⟨.plaintext [oneFile], rfl, List.Perm.refl _⟩
    | community handle => exact .inl rfl
  have hwrite := (hpurge.act .digest (by rintro _ hj _; cases hj; exact hcovered) rfl).act .write
    (by rintro _ _ hj hkind; cases hj; exact absurd (show JobKind.cycle = .worker from hkind) (by simp)) rfl
  exact ⟨_, rfl, rfl, marker_sound unaryHost id oneContent (fun _ _ _ => []) Set.univ
    unaryHost_plainNumbers (Set.injOn_of_injective Function.injective_id) _ hwrite ⟨_, rfl, rfl⟩⟩

/--
The cycle scans the empty own directory, a file is added, the cycle takes its digest: the marker
matches and the file has no row.
-/
theorem marker_matches_stale_rows : ∃ (host : Host) (sha256 : Text → Text)
    (content : Source → Text → Int → Text) (bundle : Source → Rat → Nat → List BundleFile)
    (st : MarkerState), PlainNumbers host ∧ Function.Injective sha256 ∧
      Lib.Reaches (markerStep host sha256) (SettledFiles host content bundle)
        (fun st => MarkerStart st ∧ TreesSettled host content bundle Set.univ st.trees) st ∧
      MarkerMatches host sha256 st ∧ ¬ RowsCurrent host st := by
  have hstart : Lib.Reaches (markerStep unaryHost id)
      (SettledFiles unaryHost oneContent (fun _ _ _ => []))
      (fun st => MarkerStart st ∧
        TreesSettled unaryHost oneContent (fun _ _ _ => []) Set.univ st.trees)
      (freshState []) := .init ⟨⟨rfl, rfl, rfl⟩, ownTrees_settled (.inl rfl)⟩
  have hread := (hstart.act (.start .cycle) trivial rfl).act .begin trivial rfl
  have hpurge := ((hread.act (.finish (.plaintext []) {}) (fun source => rootSettled_nil source)
    rfl).act .list trivial rfl).act .purge trivial rfl
  have hwrite := ((hpurge.act (.edit (ownTrees [oneFile])) (ownTrees_settled (.inr rfl))
    rfl).act .digest trivial rfl).act .write trivial rfl
  refine ⟨unaryHost, id, oneContent, fun _ _ _ => [], _, unaryHost_plainNumbers,
    Function.injective_id, hwrite, ⟨_, rfl, rfl⟩, ?_⟩
  intro hrows
  obtain ⟨t₀, res, hscan, hsame⟩ := hrows .own (fun _ => 0)
  have hrow : ((scanRoot unaryHost .own ((ownTrees [oneFile]).root .own) { now := fun _ => 0 }
      Lib.RowStore.empty).toOption.bind (fun r => r.1.contents .own "a".toList)).isSome = true := by
    decide +kernel
  have hnone : (t₀.contents .own "a".toList).map Record.columns = none := (hsame "a".toList).symm
  rw [Option.map_eq_none_iff] at hnone
  have hres : scanRoot unaryHost .own ((ownTrees [oneFile]).root .own) { now := fun _ => 0 }
      Lib.RowStore.empty = .ok (t₀, res) := hscan
  rw [hres] at hrow
  simp only [Except.toOption, Option.bind_some, hnone] at hrow
  exact absurd hrow (by simp)

end Caveat.Index
