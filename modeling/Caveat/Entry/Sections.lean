import Caveat.Js.Value

/-!
# The H2 sections of an entry body

`extractSections` reads a body into a record keyed by heading, and `buildBody` (the first half of
`buildEntry`) writes such a record back. Text before the first heading belongs to no section.
-/

namespace Caveat.Entry

open Js

/-- `body.split(/\r?\n/)`. -/
def splitLines : Text → List Text
  | [] => [[]]
  | '\n' :: s => [] :: splitLines s
  | '\r' :: '\n' :: s => [] :: splitLines s
  | c :: s => (splitLines s).modifyHead (c :: ·)

/--
The trimmed capture of `/^##\s+(.+?)\s*$/`. The lazy group is the text after the white space, and
`.` refuses a line terminator in it. On a line of white space only, `\s+` gives its last
characters back to the group, so two of them are enough and the heading is empty.
-/
def headingOf (line : Text) : Option Text :=
  match line with
  | '#' :: '#' :: c :: rest =>
      if !isSpace c then none
      else if (trim rest).isEmpty then
        if rest.any (fun d => !isLineTerminator d) then some [] else none
      else if (trim rest).any isLineTerminator then none
      else some (trim rest)
  | _ => none

/-- Lines joined with `\n`. -/
def joinLines (lines : List Text) : Text := ['\n'].intercalate lines

/-- The loop variables of `extractSections`. -/
structure SectionScan where
  result : List (Text × Text) := []
  heading : Option Text := none
  buf : List Text := []

/-- Store the section being read, if there is one. -/
def SectionScan.close (s : SectionScan) : List (Text × Text) :=
  match s.heading with
  | some heading => assign s.result heading (trim (joinLines s.buf))
  | none => s.result

def SectionScan.line (s : SectionScan) (line : Text) : SectionScan :=
  match headingOf line with
  | some heading => { result := s.close, heading := some heading, buf := [] }
  | none =>
      match s.heading with
      | some _ => { s with buf := s.buf ++ [line] }
      | none => s

def extractSections (body : Text) : List (Text × Text) :=
  ((splitLines body).foldl SectionScan.line {}).close

/-- `## ${heading}\n\n${content.trim()}`. -/
def buildSection (heading content : Text) : Text :=
  "## ".toList ++ heading ++ ['\n', '\n'] ++ trim content

/-- The body that `buildEntry` writes: its parts in property order, joined with `\n\n`. -/
def buildBody (sections : List (Text × Text)) : Text :=
  ['\n', '\n'].intercalate ((entries sections).map (fun s => buildSection s.1 s.2))

end Caveat.Entry
