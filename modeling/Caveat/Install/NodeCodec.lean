import Caveat.Install.McpClient
import Caveat.Install.Shared
import Caveat.Js.Decoder
import Mathlib.Data.List.Sort

/-!
# Editing the node path of a registration

`editRegistrationNodeBytes` puts a new path of the node binary where the old one stands in a
configuration, within the strings and without writing the file anew. The parsers of JSON and TOML
are given.
-/

namespace Caveat.Install

open Js

inductive PathKey where
  | name (s : Units)
  | index (n : Nat)
deriving DecidableEq

/-- The name of the property that a key stands for. -/
def PathKey.property : PathKey → Units
  | .name s => s
  | .index n => unitsOf (ofNat n)

inductive TargetKind where
  | mcp
  | hook
deriving DecidableEq

structure RegistrationNodeTarget where
  path : List PathKey
  kind : TargetKind
  suffix : Units
  beforeCommandSha256 : Units
  proposedCommandSha256 : Units
  argsSha256 : Option Units

/-- What the visitor of a JSON text is told. -/
inductive JsonEvent where
  | objectBegin
  | objectProperty (key : Units)
  | objectEnd
  | arrayBegin
  | arrayEnd
  | error

/-- A node of a JSON text; the value counts only for a string. -/
structure JsonNode where
  isString : Bool
  value : Units
  offset : Nat
  length : Nat

/-- The libraries: a string node is located at its token, with the quotation marks. -/
structure Parsers (σ : Type) where
  letterOrNumber : Char → Bool
  sha256Hex : Bytes → Units
  visit : Units → List JsonEvent
  jsonParse : Units → Option (Data σ)
  locate : Units → List PathKey → Option JsonNode
  parseToml : Option Nat → Units → Option (Data σ)
  locate_string : ∀ text path node, locate text path = some node → node.isString = true →
    ∃ a raw b, text = a ++ quoteMark :: (raw ++ quoteMark :: b) ∧ a.length = node.offset ∧
      raw.length + 2 = node.length

/-! ## Strict JSON -/

structure Visit where
  objects : List (List Units) := []
  depth : Nat := 0
  invalid : Bool := false

def Visit.step (s : Visit) : JsonEvent → Except String Visit
  | .objectBegin =>
      if 32 < s.depth + 1 then .error "json_depth"
      else .ok { s with depth := s.depth + 1, objects := [] :: s.objects }
  | .objectProperty key =>
      match s.objects with
      | [] => .ok s
      | keys :: objects =>
          .ok { s with objects := (key :: keys) :: objects, invalid := s.invalid || key ∈ keys }
  | .objectEnd => .ok { s with objects := s.objects.tail, depth := s.depth - 1 }
  | .arrayBegin =>
      if 32 < s.depth + 1 then .error "json_depth" else .ok { s with depth := s.depth + 1 }
  | .arrayEnd => .ok { s with depth := s.depth - 1 }
  | .error => .ok { s with invalid := true }

/-- `assert.ok(condition, message)`. -/
def ensure (condition : Prop) [Decidable condition] (message : String) : Except String Unit :=
  if condition then .ok () else .error message

/-- A result, or the exception of a library. -/
def orThrow {α : Type} (message : String) : Option α → Except String α
  | some v => .ok v
  | none => .error message

variable {σ : Type} (lib : Parsers σ)

/-- `strictJson`; a leading mark is kept. -/
def strictJson (bytes : Bytes) (limit : Nat) : Except String (Data σ) := do
  ensure (bytes.length ≠ 0 ∧ bytes.length ≤ limit) "json_budget"
  ensure (encodeUtf8 (decodeUtf8 bytes) = bytes) "json_encoding"
  let s ← (lib.visit (unitsOf (decodeUtf8 bytes))).foldlM Visit.step {}
  ensure (s.invalid = false ∧ s.depth = 0 ∧ s.objects = []) "json_invalid"
  orThrow "json_syntax" (lib.jsonParse (unitsOf (decodeUtf8 bytes)))

/-- `decode`. -/
def decodeConfig (format : ConfigFormat) (text : Units) : Except String (Data σ) :=
  match format with
  | .json => strictJson lib (toUtf8 text) (2 * 1024 * 1024)
  | .toml => orThrow "toml_syntax" (lib.parseToml (some 32) text)

/-! ## Paths -/

/-- `Object.hasOwn(value, key)`, and the value under the key. -/
def Data.child : Data σ → PathKey → Option (Data σ)
  | .object members, key => own members key.property
  | .array items, key => (unitIndex? key.property).bind fun i => items[i]?
  | _, _ => none

def atPath (value : Data σ) (path : List PathKey) : Except String (Data σ) :=
  path.foldlM (fun value key => orThrow "registration_target_missing" (value.child key)) value

/-- A copy with another value under the key, which has one. -/
def Data.withChild (value : Data σ) (key : PathKey) (next : Data σ) : Data σ :=
  match value with
  | .object members => .object (define members (key.property, next))
  | .array items =>
      match unitIndex? key.property with
      | some i => .array (items.set i next)
      | none => value
  | _ => value

def replaceAt (value : Data σ) : List PathKey → Units → Except String (Data σ)
  | [], _ => .error "registration_root_replacement_forbidden"
  | [key], next => .ok (value.withChild key (.string next))
  | key :: rest, next => do
      let child ← orThrow "registration_target_missing" (value.child key)
      let copy ← replaceAt child rest next
      .ok (value.withChild key copy)

/-! ## Tokens -/

/-- The unit that an escape stands for, or an exception of `JSON.parse`. -/
def unescape : Units → Option UInt16
  | [u, c] => if u = unitOf '\\' ∧ c ≠ unitOf 'u' then escaped (Char.ofNat c.toNat) else none
  | [u, x, a, b, c, d] =>
      if u = unitOf '\\' ∧ x = unitOf 'u' then
        hexUnit (Char.ofNat a.toNat) (Char.ofNat b.toNat) (Char.ofNat c.toNat) (Char.ofNat d.toNat)
      else none
  | _ => none

/-- The units that spell the first `missing` units of a string. -/
def prefixUnits : Nat → Units → Nat → Except String (Nat × Units)
  | _, _, 0 => .ok (0, [])
  | 0, _, _ => .error "registration_encoded_prefix_missing"
  | _, [], _ => .error "registration_encoded_prefix_missing"
  | fuel + 1, u :: raw, missing + 1 =>
      if u = unitOf '\\' then
        let size := if raw.head? = some (unitOf 'u') then 6 else 2
        do
          let v ← orThrow "json_syntax" (unescape ((u :: raw).take size))
          let more ← prefixUnits fuel ((u :: raw).drop size) missing
          .ok (size + more.1, v :: more.2)
      else do
        let more ← prefixUnits fuel raw missing
        .ok (1 + more.1, u :: more.2)

def jsonPrefixLength (raw decodedPrefix : Units) : Except String Nat := do
  let found ← prefixUnits raw.length raw decodedPrefix.length
  ensure (found.2 = decodedPrefix) "registration_encoded_prefix_changed"
  .ok found.1

structure TomlToken (σ : Type) where
  offset : Nat
  stop : Nat
  quote : UInt16
  multiline : Bool
  value : Option (Data σ)

/-- The units up to the end of a string that is open. -/
def closeString (quote : UInt16) (multiline : Bool) : Units → Option Nat
  | [] => none
  | [u] =>
      if quote = quoteMark && u = unitOf '\\' then none
      else if !multiline && u = quote then some 1
      else none
  | u :: v :: rest =>
      let width := if multiline then 3 else 1
      if quote = quoteMark && u = unitOf '\\' then (closeString quote multiline rest).map (· + 2)
      else if (u :: v :: rest).take width = List.replicate width quote then
        some (width + if multiline then (((u :: v :: rest).drop width).takeWhile (· = quote)).length
          else 0)
      else (closeString quote multiline (v :: rest)).map (· + 1)

/-- `tomlStrings`: the strings of a text, from an offset on. -/
def tomlStringsFrom : Nat → Nat → Units → Except String (List (TomlToken σ))
  | 0, _, _ => .ok []
  | _, _, [] => .ok []
  | fuel + 1, offset, u :: rest =>
      if u = unitOf '#' then
        let line := (u :: rest).takeWhile (· ≠ unitOf '\n')
        tomlStringsFrom fuel (offset + line.length + 1) ((u :: rest).drop (line.length + 1))
      else if u ≠ quoteMark && u ≠ unitOf '\'' then tomlStringsFrom fuel (offset + 1) rest
      else
        let multiline : Bool := (u :: rest).take 3 = List.replicate 3 u
        let width := if multiline then 3 else 1
        match closeString u multiline ((u :: rest).drop width) with
        | none => .error "registration_toml_string_unclosed"
        | some n =>
            let raw := (u :: rest).take (width + n)
            match lib.parseToml none (unitsOf "value = ".toList ++ raw) with
            | some (.object members) => do
                let tokens ← tomlStringsFrom fuel (offset + width + n) ((u :: rest).drop (width + n))
                .ok ({ offset := offset, stop := offset + width + n, quote := u
                       multiline := multiline
                       value := own members (unitsOf "value".toList) } :: tokens)
            | _ => .error "toml_syntax"

def tomlStrings (text : Units) : Except String (List (TomlToken σ)) :=
  tomlStringsFrom lib text.length 0 text

/-! ## The edits -/

structure Edit where
  offset : Nat
  length : Nat
  content : Units
deriving DecidableEq

/-- What an edit replaces. -/
def Edit.old (e : Edit) (text : Units) : Units := (text.drop e.offset).take e.length

/-- `JSON.stringify(s).slice(1, -1)`. -/
def innerQuote (s : Units) : Units := unitsOf ((quote s).drop 1).dropLast

def RegistrationNodeTarget.command (t : RegistrationNodeTarget) (node : Units) : Units :=
  match t.kind with
  | .mcp => node
  | .hook => quoteCommandPath node ++ t.suffix

/-- What a command begins with: the node path as it stands there. -/
def RegistrationNodeTarget.nodeText (t : RegistrationNodeTarget) (node : Units) : Units :=
  match t.kind with
  | .mcp => node
  | .hook => quoteCommandPath node

def RegistrationNodeTarget.commandPath (t : RegistrationNodeTarget) : List PathKey :=
  match t.kind with
  | .mcp => t.path ++ [.name (unitsOf "command".toList)]
  | .hook => t.path

def hashCommand (t : RegistrationNodeTarget) (value : Units) : Units :=
  match t.kind with
  | .mcp => lib.sha256Hex (encodeUtf8 (quote value))
  | .hook => lib.sha256Hex (toUtf8 value)

/-- `args.every(value => typeof value === 'string')`, with the strings. -/
def stringItems : List (Data σ) → Option (List Units)
  | [] => some []
  | .string s :: items => (stringItems items).map (s :: ·)
  | _ => none

def stringArray : Data σ → Option (List Units)
  | .array items => stringItems items
  | _ => none

/-- The arguments of a registered server are those that were saved. -/
def checkArgs (before : Data σ) (t : RegistrationNodeTarget) : Except String Unit :=
  match t.kind with
  | .hook => .ok ()
  | .mcp => do
      let value ← atPath before (t.path ++ [.name (unitsOf "args".toList)])
      let args ← orThrow "registration_args_invalid" (stringArray value)
      ensure (args.length = 3) "registration_args_invalid"
      ensure (some (lib.sha256Hex (encodeUtf8
        ('[' :: [',', ' '].intercalate (args.map quote) ++ [']']))) = t.argsSha256)
        "registration_args_changed"

section Plan

variable (text : Units) (beforeNode proposedNode : Units)

def jsonEdit (t : RegistrationNodeTarget) : Except String Edit := do
  let node ← orThrow "registration_json_target_invalid" (lib.locate text t.commandPath)
  ensure (node.isString = true ∧ node.value = t.command beforeNode)
    "registration_json_target_invalid"
  let length ← jsonPrefixLength ((text.drop (node.offset + 1)).take (node.length - 2))
    (t.nodeText beforeNode)
  .ok { offset := node.offset + 1, length := length, content := innerQuote (t.nodeText proposedNode) }

/-- The value is the given string. -/
def Data.isString (value : Data σ) (s : Units) : Bool :=
  match value with
  | .string s' => s' = s
  | _ => false

/-- The only one of some tokens. -/
def onlyToken : List (TomlToken σ) → Option (TomlToken σ)
  | [token] => some token
  | _ => none

def tomlEdit (tokens : List (TomlToken σ)) (count : Nat) (t : RegistrationNodeTarget) :
    Except String Edit := do
  ensure (t.kind = .mcp ∧ count = 1) "registration_toml_scope_invalid"
  let token ← orThrow "registration_toml_target_ambiguous" (onlyToken
    (tokens.filter fun token => token.value.any fun v => v.isString (t.command beforeNode)))
  ensure (token.multiline = false) "registration_toml_multiline_target_unproved"
  ensure (token.quote ≠ unitOf '\'' ∨ unitOf '\'' ∉ t.nodeText proposedNode)
    "registration_toml_literal_unrepresentable"
  .ok { offset := token.offset + 1, length := token.stop - token.offset - 2
        content := if token.quote = quoteMark then innerQuote (t.nodeText proposedNode)
          else t.nodeText proposedNode }

def targetEdit (format : ConfigFormat) (tokens : List (TomlToken σ)) (count : Nat)
    (t : RegistrationNodeTarget) : Except String Edit :=
  match format with
  | .json => jsonEdit lib text beforeNode proposedNode t
  | .toml => tomlEdit beforeNode proposedNode tokens count t

/-- What the loop over the targets keeps. -/
structure Planned (σ : Type) where
  paths : List (List PathKey) := []
  edits : List Edit := []
  expected : Data σ

/-- One target. `tokens` are the strings of a TOML text, and `before` is what the text is read as. -/
def planTarget (format : ConfigFormat) (tokens : List (TomlToken σ)) (count : Nat)
    (before : Data σ) (s : Planned σ) (t : RegistrationNodeTarget) : Except String (Planned σ) := do
  ensure (t.path ∉ s.paths) "registration_duplicate_target"
  ensure (hashCommand lib t (t.command beforeNode) = t.beforeCommandSha256)
    "registration_saved_before_hash_changed"
  ensure (hashCommand lib t (t.command proposedNode) = t.proposedCommandSha256)
    "registration_saved_proposed_hash_changed"
  let value ← atPath before t.commandPath
  ensure (value.isString (t.command beforeNode) = true) "registration_target_value_changed"
  checkArgs lib before t
  let edit ← targetEdit lib text beforeNode proposedNode format tokens count t
  let expected ← replaceAt s.expected t.commandPath (t.command proposedNode)
  .ok { paths := t.path :: s.paths, edits := s.edits ++ [edit], expected := expected }

end Plan

/-- The edits, the last one first, on a text that is unchanged before `previous`. -/
def applyEdits : Units → Nat → List Edit → Except String Units
  | text, _, [] => .ok text
  | text, previous, e :: edits =>
      if previous < e.offset + e.length then .error "registration_edit_overlap"
      else applyEdits (text.take e.offset ++ e.content ++ text.drop (e.offset + e.length)) e.offset
        edits

/-- `/^[\p{L}\p{N}_ .:/\\-]+$/u`. -/
def isNodePath (node : Units) : Bool :=
  !node.isEmpty && (codePoints node).all fun p =>
    match p with
    | .char c => lib.letterOrNumber c || "_ .:/\\-".toList.any (· = c)
    | .lone _ => false

structure EditedNode where
  bytes : Bytes
  beforeSha256 : Units
  afterSha256 : Units
  tokenEdits : Nat
deriving DecidableEq

/-- The mark at the start of a file, which is kept. -/
def leadingMark (bytes : Bytes) : Bytes := if bytes.take 3 = bom then bom else []

/-- The text of a file. The decoder drops a mark of its own. -/
def readText (bytes : Bytes) : Except String Units :=
  (orThrow "registration_encoding" (decodeFatal (bytes.drop (leadingMark bytes).length))).map unitsOf

def formatStrings (format : ConfigFormat) (text : Units) : Except String (List (TomlToken σ)) :=
  match format with
  | .json => .ok []
  | .toml => tomlStrings lib text

/-- What is planned for a text. -/
def planEdits (format : ConfigFormat) (targets : List RegistrationNodeTarget)
    (beforeNode proposedNode : Units) (text : Units) : Except String (Planned σ) := do
  let before ← decodeConfig lib format text
  let tokens ← formatStrings lib format text
  targets.foldlM (planTarget lib text beforeNode proposedNode format tokens targets.length before)
    { expected := before }

section Run

variable [DecidableEq σ]

def editRegistrationNodeBytes (bytes : Bytes) (format : ConfigFormat)
    (targets : List RegistrationNodeTarget) (beforeNode proposedNode : Units) :
    Except String EditedNode := do
  ensure (0 < bytes.length ∧ bytes.length ≤ 2 * 1024 * 1024 ∧ 0 < targets.length ∧
    targets.length ≤ 4) "registration_codec_bound"
  ensure (beforeNode ≠ proposedNode ∧ isNodePath lib beforeNode = true ∧
    isNodePath lib proposedNode = true) "registration_node_token_invalid"
  let text ← readText bytes
  let planned ← planEdits lib format targets beforeNode proposedNode text
  let afterText ← applyEdits text text.length
    (planned.edits.insertionSort fun a b => b.offset ≤ a.offset)
  let after ← decodeConfig lib format afterText
  ensure (sameValue after planned.expected = true) "registration_other_values_changed"
  let output := leadingMark bytes ++ toUtf8 afterText
  .ok { bytes := output, beforeSha256 := lib.sha256Hex bytes, afterSha256 := lib.sha256Hex output
        tokenEdits := planned.edits.length }

end Run

end Caveat.Install
