import Caveat.Js.Value

/-!
# Limits on entry input

`entryConstraints.ts`: the size of an entry and the shape of its frontmatter are bounded, and a
value over a bound is refused with an `EntryInputConstraintError`. A scan records such a refusal
as a diagnostic and goes on; any other error ends it.
-/

namespace Caveat.Entry

open Js

def markdownLimit : Nat := 1024 * 1024
def frontmatterLimit : Nat := 64 * 1024
def graphLimit : Nat := 10000
def depthLimit : Nat := 128

inductive ConstraintMeasure where
  | utf8Bytes
  | expandedNodesAndEdges
  | depth
deriving DecidableEq

inductive ActualKind where
  | exact
  | lowerBound
deriving DecidableEq

structure EntryInputConstraintError where
  field : String
  limit : Nat
  actual : Nat
  measure : ConstraintMeasure := .utf8Bytes
  actualKind : ActualKind := .exact
  reason : String := "limit_exceeded"
deriving DecidableEq

/-- What reading or writing an entry may throw. -/
inductive EntryError where
  | constraint (e : EntryInputConstraintError)
  /-- `EntryFrontmatterFormatError`: the frontmatter is not YAML by its own declaration. -/
  | format
  /-- A `YAMLException` other than the depth bound. -/
  | yaml
deriving DecidableEq

/-- `Buffer.byteLength(text, 'utf8')`. -/
def utf8Length (text : Text) : Nat := (text.map Char.utf8Size).sum

def assertUtf8Limit (text : Text) (field : String) (limit : Nat) : Except EntryError Unit :=
  if limit < utf8Length text then
    .error (.constraint { field := field, limit := limit, actual := utf8Length text })
  else .ok ()

/-! ## The frontmatter graph -/

/-- The running counts of `assertFrontmatterGraph`. -/
structure GraphCount where
  work : Nat
  scalarBytes : Nat
deriving DecidableEq

/-- `++work > ENTRY_LIMITS.graph`. -/
def GraphCount.tick (c : GraphCount) : Except EntryError GraphCount :=
  if graphLimit < c.work + 1 then
    .error (.constraint
      { field := "frontmatter.graph", limit := graphLimit, actual := c.work + 1
        measure := .expandedNodesAndEdges, actualKind := .lowerBound })
  else .ok { c with work := c.work + 1 }

def GraphCount.addBytes (c : GraphCount) (s : Text) : GraphCount :=
  { c with scalarBytes := c.scalarBytes + utf8Length s }

/-- Count a node and refuse it below the depth bound. -/
def enterNode (depth : Nat) (c : GraphCount) : Except EntryError GraphCount := do
  let c ← c.tick
  if depthLimit < depth then
    .error (.constraint
      { field := "frontmatter.depth", limit := depthLimit, actual := depth
        measure := .depth, actualKind := .lowerBound })
  else .ok c

mutual

/-- `visit`: aliases are counted at each place they occur, so the value is walked as a tree. -/
def visit (v : JsValue) (depth : Nat) (c : GraphCount) : Except EntryError GraphCount := do
  let c ← enterNode depth c
  match v with
  | .string s => .ok (c.addBytes s)
  | .array items => visitItems items depth c
  | .object fields => visitFields fields depth c
  | _ => .ok c

def visitItems : List JsValue → Nat → GraphCount → Except EntryError GraphCount
  | [], _, c => .ok c
  | v :: vs, depth, c => do
      let c ← c.tick
      let c ← visit v (depth + 1) c
      visitItems vs depth c

def visitFields : List (Text × JsValue) → Nat → GraphCount → Except EntryError GraphCount
  | [], _, c => .ok c
  | (k, v) :: fs, depth, c => do
      let c ← c.tick
      let c ← visit v (depth + 1) (c.addBytes k)
      visitFields fs depth c

end

def assertFrontmatterGraph (v : JsValue) : Except EntryError Unit := do
  let c ← visit v 0 { work := 0, scalarBytes := 0 }
  if frontmatterLimit < c.scalarBytes then
    .error (.constraint
      { field := "frontmatter", limit := frontmatterLimit, actual := c.scalarBytes
        actualKind := .lowerBound })
  else .ok ()

end Caveat.Entry
