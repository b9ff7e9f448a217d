import Caveat.Entry.Constraints
import Caveat.Entry.Sections

/-!
# Reading and writing entry text

`parseMarkdown`, `dumpFrontmatter` and `buildEntry` over what the repository imports:
gray-matter, js-yaml, the number formats of JavaScript and SQLite, and Unicode case mapping.
-/

namespace Caveat.Entry

open Js

/-- Why `yaml.load` threw. -/
inductive YamlFailure where
  /-- A reason that begins `nesting exceeded maxDepth (`. -/
  | maxDepth
  | other

/-- The code outside the repository that reading, writing and indexing an entry calls. -/
structure Host where
  /-- `matter.language(text).name`. -/
  language : Text → Text
  /-- `matter(source, { engines: { yaml } })`: its `data` and `content`. -/
  matter : (Text → Except EntryError JsValue) → Text → Except EntryError (JsValue × Text)
  /-- `yaml.load(raw, { schema, maxDepth })`. -/
  yamlLoad : Text → Except YamlFailure JsValue
  /-- `yaml.dump(value, { schema, noRefs, lineWidth: -1 })`. -/
  yamlDump : JsValue → Text
  /-- `String.prototype.toLowerCase`. -/
  lower : Text → Text
  /-- `String(n)`. -/
  numberText : JsNumber → Text
  /-- The text SQLite stores for a REAL in a column of TEXT affinity. -/
  realText : JsNumber → Text

variable (host : Host)

/-- `loadFrontmatter`. -/
def loadFrontmatter (raw : Text) : Except EntryError JsValue := do
  assertUtf8Limit raw "frontmatter" frontmatterLimit
  let value ← match host.yamlLoad raw with
    | .ok v => .ok (v.orElse (.object []))
    | .error .maxDepth =>
        .error (.constraint
          { field := "frontmatter.parser_depth", limit := depthLimit, actual := depthLimit
            measure := .depth, actualKind := .lowerBound, reason := "parser_max_depth" })
    | .error .other => .error .yaml
  assertFrontmatterGraph value
  return value

/-- `dumpFrontmatter`. -/
def dumpFrontmatter (value : JsValue) : Except EntryError Text := do
  assertFrontmatterGraph value
  let raw := host.yamlDump value
  assertUtf8Limit raw "frontmatter" frontmatterLimit
  return raw

structure ParsedMarkdown where
  frontmatter : JsValue
  body : Text
  sections : List (Text × Text)

/-- `source.charCodeAt(0) === 0xfeff ? source.slice(1) : source`. -/
def stripBom : Text → Text
  | c :: s => if c.val = 0xfeff then s else c :: s
  | [] => []

/-- The declared language of a text that opens with `---` and no fourth hyphen. -/
def assertYamlLanguage (source : Text) : Except EntryError Unit :=
  let normalized := stripBom source
  if ("---".toList).isPrefixOf normalized && normalized[3]? ≠ some '-' then
    let language := host.lower (host.language normalized)
    if language.isEmpty || language = "yaml".toList || language = "yml".toList then .ok ()
    else .error .format
  else .ok ()

def parseMarkdown (source : Text) (allowOversizedBody : Bool := false) :
    Except EntryError ParsedMarkdown := do
  if !allowOversizedBody then assertUtf8Limit source "entry_markdown" markdownLimit
  assertYamlLanguage host source
  let (data, content) ← host.matter (loadFrontmatter host) source
  return { frontmatter := data, body := content, sections := extractSections content }

structure BuiltEntry where
  content : Text
  body : Text

/-- ``---\n${yaml}---\n\n${body}${body ? '\n' : ''}``. -/
def entryText (yaml body : Text) : Text :=
  "---\n".toList ++ yaml ++ "---\n\n".toList ++ body ++ if body.isEmpty then [] else ['\n']

def buildEntry (frontmatter : JsValue) (sections : List (Text × Text)) :
    Except EntryError BuiltEntry := do
  let body := buildBody sections
  let yaml ← dumpFrontmatter host frontmatter
  let content := entryText yaml body
  assertUtf8Limit content "entry_markdown" markdownLimit
  return { content, body }

/-! ## Role texts -/

/-- The labels among the tags: the strings of an array. -/
def tagLabels (tags : JsValue) : List Text :=
  match tags with
  | .array items => items.filterMap (fun
      | .string s => some s
      | _ => none)
  | _ => []

/-- `String(v)` of the environment values that are kept. -/
def environmentLabel (v : JsValue) : Option Text :=
  match v with
  | .string s => some s
  | .number n => some (host.numberText n)
  | .bool b => some (if b then "true".toList else "false".toList)
  | _ => none

/-- The environment values of the stored frontmatter. -/
def environmentValues (frontmatterJson : JsValue) : List Text :=
  match frontmatterJson.get "environment".toList with
  | .object fields => (entries fields).filterMap (fun f => environmentLabel host f.2)
  | .array items => items.filterMap (environmentLabel host)
  | _ => []

/-- How `Array.prototype.join` writes a scalar title. -/
def titleLabel (title : JsValue) : Text :=
  match title with
  | .string s => s
  | .number n => host.numberText n
  | .bool b => if b then "true".toList else "false".toList
  | _ => []

structure RoleTexts where
  topical : Text
  symptom : Text
deriving DecidableEq

/-- `deriveRoleTexts`, given the stored JSON by its value. -/
def deriveRoleTexts (title : JsValue) (body : Text) (tags frontmatterJson : JsValue) : RoleTexts :=
  let sections := extractSections body
  { topical := joinLines
      (titleLabel host title :: tagLabels tags ++ environmentValues host frontmatterJson)
    symptom :=
      match (entries sections).find? (fun s => host.lower (trim s.1) = "symptom".toList) with
      | some s => s.2
      | none => [] }

/-! ## A host for flat frontmatter -/

/-- The text before the first occurrence of a pattern and the text after it. -/
def cutAt (pattern : Text) : Text → Text × Text
  | [] => ([], [])
  | c :: s =>
      if pattern.isPrefixOf (c :: s) then ([], (c :: s).drop pattern.length)
      else ((cutAt pattern s).map (c :: ·) id)

/-- gray-matter on a text with `---\n` before its frontmatter and `\n---` after it. -/
def flatMatter (engine : Text → Except EntryError JsValue) (source : Text) :
    Except EntryError (JsValue × Text) :=
  if ("---".toList).isPrefixOf source then do
    let (raw, rest) := cutAt "\n---".toList (source.drop 3)
    let data ← if (trim raw).isEmpty then .ok (.object []) else engine raw
    return (data, match rest with
      | '\n' :: rest => rest
      | rest => rest)
  else .ok (.object [], source)

/-- A scalar or an empty collection, unquoted. -/
def flatValue (s : Text) : JsValue :=
  if s = "null".toList then .null
  else if s = "true".toList then .bool true
  else if s = "[]".toList then .array []
  else if s = "\x7b\x7d".toList then .object []
  else .string s

/-- `yaml.load` on lines `key: value`. -/
def flatLoad (raw : Text) : Except YamlFailure JsValue :=
  .ok (.object (((splitLines raw).filter (fun l => !(trim l).isEmpty)).map (fun l =>
    let (key, value) := cutAt ": ".toList l
    (key, flatValue value))))

def flatScalar : JsValue → Text
  | .null => "null".toList
  | .bool true => "true".toList
  | .array _ => "[]".toList
  | .object _ => "\x7b\x7d".toList
  | .string s => s
  | _ => []

/-- `yaml.dump` of a mapping to plain strings, `null`, `true` and empty collections. -/
def flatDump : JsValue → Text
  | .object fields => (fields.filterMap (fun
      | (_, .undefined) => none
      | (key, v) => some (key ++ ": ".toList ++ flatScalar v ++ ['\n']))).flatten
  | _ => []

/--
What the imported code does on entries whose frontmatter is a mapping from plain words to plain
words, `null`, `true` and empty collections, and whose letters are ASCII.
-/
def flatHost : Host where
  language _ := []
  matter := flatMatter
  yamlLoad := flatLoad
  yamlDump := flatDump
  lower := List.map Char.toLower
  numberText _ := []
  realText _ := []

end Caveat.Entry
