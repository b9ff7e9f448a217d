import Caveat.Entry.Markdown
import Caveat.Publish.Scan
import Caveat.Sealed.Bundle

/-!
# What is published

`collectPublishSet` reads each entry file once and keeps its bytes if it is public. The same bytes
are scanned and sealed, and `buildSealedReadme` writes those of a showcase out in the clear.
-/

namespace Caveat.Publish

open Js Entry Sealed

/-! ## Visibility -/

inductive VisibilityClassification where
  | pub
  | priv
  | invalid
deriving DecidableEq

def classifyVisibility (value : JsValue) : VisibilityClassification :=
  match value with
  | .string s =>
      if s = "public".toList then .pub else if s = "private".toList then .priv else .invalid
  | _ => .invalid

/-! ## Collecting -/

/-- A file that `walkMarkdown` finds, by its path below the directory of entries. -/
structure EntryFile where
  path : Units
  content : Bytes
  markdown : (unitsOf ".md".toList).isSuffixOf path = true
  noNul : path.contains 0 = false

inductive InvalidReason where
  | visibility
  | thrown (e : EntryError)
deriving DecidableEq

structure PublishInvalid where
  relPath : Units
  reason : InvalidReason
deriving DecidableEq

structure PublishSet where
  files : List PublishFile := []
  invalid : List PublishInvalid := []

/-- `relative(entriesDir, path).replace(/\\/g, '/')`. -/
def relPathOf (path : Units) : Units :=
  path.map (fun u => if u = unitOf '\\' then unitOf '/' else u)

/-- `value === true`. -/
def isTrue : JsValue → Bool
  | .bool b => b
  | _ => false

section Collect

variable (host : Host)

/-- What a file of the walk is: public, private, or invalid for a reason. -/
def readEntry (file : EntryFile) : Except InvalidReason (Option PublishFile) :=
  match parseMarkdown host (decodeUtf8 file.content) with
  | .error e => .error (.thrown e)
  | .ok parsed =>
      match classifyVisibility (parsed.frontmatter.get "visibility".toList) with
      | .pub =>
          .ok (some
            { relPath := relPathOf file.path, content := file.content
              showcase := isTrue (parsed.frontmatter.get "showcase".toList) })
      | .invalid => .error .visibility
      | .priv => .ok none

def collectFile (set : PublishSet) (file : EntryFile) : PublishSet :=
  match readEntry host file with
  | .ok (some publishFile) => { set with files := set.files ++ [publishFile] }
  | .ok none => set
  | .error reason =>
      { set with invalid := set.invalid ++ [{ relPath := relPathOf file.path, reason }] }

def collectPublishSet (walk : List EntryFile) : PublishSet := walk.foldl (collectFile host) {}

/-! ## The README -/

/-- The lines of every README, up to the showcase. -/
def readmeHead (fileCount : Nat) : List Text :=
  ["# Caveat-Public".toList,
    [],
    "This repository is generated by \x60caveat publish\x60. Do not edit it by hand.".toList,
    [],
    "Subscribe with:".toList,
    [],
    "\x60\x60\x60sh".toList,
    "npm i -g caveat-cli && caveat community add <https URL or username>".toList,
    "\x60\x60\x60".toList,
    [],
    "## Threat Model".toList,
    [],
    ("This sealed mirror is designed to block casual browsing, copying, LLM training crawlers, " ++
      "and GitHub-hosted AI training from reading entry text directly.").toList,
    [],
    ("It is not designed to stop a motivated human from analyzing the published bundle or " ++
      "client code.").toList,
    [],
    "Public entries: ".toList ++ ofNat fileCount,
    [],
    "Caveat: https://github.com/kitepon/Caveat".toList,
    []]

/-- The lines above the first file of the showcase. -/
def showcaseHead (fileCount : Nat) : List Text :=
  readmeHead fileCount ++ ["## Showcase".toList, []]

/-- The files of the showcase, sorted by the bytes of their paths. -/
def showcaseFiles (files : List PublishFile) : List PublishFile :=
  (files.filter (fun f => f.showcase)).insertionSort
    (fun a b => bytesLe (toUtf8 a.relPath) (toUtf8 b.relPath) = true)

/-- `String.prototype.trimEnd`. -/
def trimEndUnits (s : Units) : Units := s.rdropWhile isSpaceUnit

/-- `### ${file.relPath}`. -/
def showcaseHeading (file : PublishFile) : Units := unitsOf "### ".toList ++ file.relPath

/-- The parts that are pushed for the files of the showcase. -/
def showcaseParts : List PublishFile → Except EntryError (List Units)
  | [] => .ok []
  | file :: files => do
      let parsed ← parseMarkdown host (decodeUtf8 file.content)
      let parts ← showcaseParts files
      return showcaseHeading file :: [] :: unitsOf (trimEnd parsed.body) :: [] :: parts

def buildSealedReadme (fileCount : Nat) (files : List PublishFile) : Except EntryError Units := do
  let showcase := showcaseFiles files
  let parts ← showcaseParts host showcase
  let lines :=
    if showcase.isEmpty then (readmeHead fileCount).map unitsOf
    else (showcaseHead fileCount).map unitsOf ++ parts
  return trimEndUnits ([unitOf '\n'].intercalate lines) ++ [unitOf '\n']

/-- A file as it is sealed. -/
def PublishFile.bundled (file : PublishFile) : BundleFile :=
  { relPath := file.relPath, content := file.content }

/-- The README as a file. -/
def readmeFile (readme : Units) : PublishFile :=
  { relPath := unitsOf "README.md".toList, content := toUtf8 readme, showcase := false }

/-! ## What is collected -/

variable {host}

theorem classifyVisibility_eq_pub_iff {value : JsValue} :
    classifyVisibility value = .pub ↔ value = .string "public".toList := by
  cases value with
  | string s =>
      show (if s = "public".toList then VisibilityClassification.pub
        else if s = "private".toList then .priv else .invalid) = .pub ↔ _
      by_cases hs : s = "public".toList
      · simp [hs]
      · rw [if_neg hs]
        refine iff_of_false ?_ fun h => hs (JsValue.string.inj h)
        split <;> simp
  | _ => simp [classifyVisibility]

/-- A file of the walk that parses and is public. -/
structure IsPublic (host : Host) (source : EntryFile) (file : PublishFile) : Prop where
  relPath : file.relPath = relPathOf source.path
  content : file.content = source.content
  visible : ∃ parsed, parseMarkdown host (decodeUtf8 file.content) = .ok parsed ∧
    parsed.frontmatter.get "visibility".toList = .string "public".toList

theorem readEntry_public {source : EntryFile} {file : PublishFile}
    (h : readEntry host source = .ok (some file)) : IsPublic host source file := by
  unfold readEntry at h
  cases hparse : parseMarkdown host (decodeUtf8 source.content) with
  | error e => simp [hparse] at h
  | ok parsed =>
      rw [hparse] at h
      dsimp only at h
      cases hclass : classifyVisibility (parsed.frontmatter.get "visibility".toList) with
      | priv =>
          rw [hclass] at h
          exact absurd h (by simp)
      | invalid =>
          rw [hclass] at h
          exact absurd h (by simp)
      | pub =>
          rw [hclass] at h
          simp only [Except.ok.injEq, Option.some.injEq] at h
          subst h
          exact ⟨rfl, rfl, parsed, hparse, classifyVisibility_eq_pub_iff.mp hclass⟩

/-- **The files that are collected**, and those that are not because they are invalid. -/
theorem collectPublishSet_eq (walk : List EntryFile) :
    (collectPublishSet host walk).files =
        walk.filterMap (fun source => (readEntry host source).toOption.join) ∧
      ((collectPublishSet host walk).invalid = [] ↔
        ∀ source ∈ walk, ∃ file, readEntry host source = .ok file) := by
  have hfold : ∀ set : PublishSet,
      (walk.foldl (collectFile host) set).files =
          set.files ++ walk.filterMap (fun source => (readEntry host source).toOption.join) ∧
        ((walk.foldl (collectFile host) set).invalid = [] ↔ set.invalid = [] ∧
          ∀ source ∈ walk, ∃ file, readEntry host source = .ok file) := by
    induction walk with
    | nil => intro set; simp
    | cons source walk ih =>
        intro set
        rw [List.foldl_cons, (ih _).1, (ih _).2]
        unfold collectFile
        cases hread : readEntry host source with
        | error reason => simp [hread, Except.toOption]
        | ok file =>
            cases file with
            | none => simp [hread, Except.toOption]
            | some file => simp [hread, Except.toOption]
  have h := hfold {}
  exact ⟨by simpa [collectPublishSet] using h.1, by simpa [collectPublishSet] using h.2⟩

theorem mem_collectPublishSet {walk : List EntryFile} {file : PublishFile}
    (h : file ∈ (collectPublishSet host walk).files) :
    ∃ source ∈ walk, IsPublic host source file := by
  rw [(collectPublishSet_eq walk).1] at h
  obtain ⟨source, hsource, hread⟩ := List.mem_filterMap.mp h
  refine ⟨source, hsource, readEntry_public ?_⟩
  cases hr : readEntry host source with
  | error reason => simp [hr, Except.toOption] at hread
  | ok file' =>
      rw [hr] at hread
      exact congrArg Except.ok (by simpa [Except.toOption] using hread)

/-- A path of the set ends with `.md` and has no NUL. -/
theorem relPath_of_mem {walk : List EntryFile} {file : PublishFile}
    (h : file ∈ (collectPublishSet host walk).files) :
    (unitsOf ".md".toList).isSuffixOf file.relPath = true ∧ (0 : UInt16) ∉ file.relPath := by
  obtain ⟨source, _, hpublic⟩ := mem_collectPublishSet h
  rw [hpublic.relPath]
  constructor
  · obtain ⟨stem, hstem⟩ := List.isSuffixOf_iff_suffix.mp source.markdown
    rw [← hstem, relPathOf, List.map_append]
    exact List.isSuffixOf_iff_suffix.mpr ⟨_, rfl⟩
  · intro hzero
    obtain ⟨u, hu, hmap⟩ := List.mem_map.mp hzero
    split at hmap
    · exact absurd hmap (by decide)
    · have hno := source.noNul
      rw [hmap] at hu
      rw [List.contains_iff_mem.mpr hu] at hno
      exact absurd hno (by simp)

end Collect

end Caveat.Publish
