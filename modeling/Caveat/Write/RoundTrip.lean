import Caveat.Entry.Written
import Caveat.Write.Containment

/-!
# The sections of a record, written and read

`recordEntry` writes up to five texts, each under a heading of its own. They are read back, from
the body in memory as from the file, exactly when each of them is a text that a section keeps. A
line `## …` inside one of them ends its section, and a `\r\n` comes back as `\n`.
-/

namespace Caveat.Write

open Js Entry Index

variable {host : Host} {input : RecordInput} {ctx : RecordContext} {id w : JsValue}
  {built : BuiltEntry}

/-- The headings of a record, with and without a context. -/
theorem record_headings (input : RecordInput) :
    (recordSections input).map Prod.fst =
        ["Symptom".toList, "Cause".toList, "Resolution".toList, "Evidence".toList] ∨
      (recordSections input).map Prod.fst = ["Context".toList, "Symptom".toList, "Cause".toList,
        "Resolution".toList, "Evidence".toList] := by
  cases hc : input.context with
  | none => exact .inl (by simp [recordSections, hc])
  | some c => exact .inr (by simp [recordSections, hc])

theorem record_nodup (input : RecordInput) : ((recordSections input).map Prod.fst).Nodup := by
  rcases record_headings input with h | h
  · rw [h]
    decide
  · rw [h]
    decide

theorem record_heading {f : Text × Text} (hf : f ∈ recordSections input) : Heading f.1 := by
  have hall : ∀ h ∈ ["Context".toList, "Symptom".toList, "Cause".toList, "Resolution".toList,
      "Evidence".toList], headingOf ("## ".toList ++ h) = some h ∧ '\n' ∉ h ∧ '\r' ∉ h ∧
      h ≠ "__proto__".toList ∧ arrayIndex? h = none := by decide
  have hname : f.1 ∈ (recordSections input).map Prod.fst := List.mem_map_of_mem hf
  have hmem : f.1 ∈ ["Context".toList, "Symptom".toList, "Cause".toList, "Resolution".toList,
      "Evidence".toList] := by
    rcases record_headings input with h | h
    · rw [h] at hname
      exact List.mem_cons_of_mem _ hname
    · rw [h] at hname
      exact hname
  obtain ⟨read, newline, carriage, settable, ordered⟩ := hall _ hmem
  exact { read, newline, carriage, settable, ordered }

theorem record_ne_nil (input : RecordInput) : recordSections input ≠ [] := by
  simp [recordSections]

/-- **A record's sections are read back, trimmed, exactly when a section keeps each text.** -/
theorem record_sections_read_back_iff (hreads : Rereads host (recordFrontmatter input ctx id) w)
    (hbuilt : buildEntry host (recordFrontmatter input ctx id) (recordSections input) =
      .ok built) :
    (TrimmedCopy (extractSections built.body) (recordSections input) ∧
      ∃ parsed, parseMarkdown host built.content = .ok parsed ∧
        TrimmedCopy parsed.sections (recordSections input)) ↔
      ∀ f ∈ recordSections input, Kept f.2 := by
  obtain ⟨hne, hlast⟩ := buildBody_ends (record_ne_nil input) fun f hf => record_heading hf
  have hparse := parseMarkdown_built hreads hbuilt false
  obtain ⟨_, _, _, rfl⟩ := buildEntry_ok_iff.mp hbuilt
  have hiff := trimmedCopy_iff (record_ne_nil input) (fun f hf => record_heading hf)
    (record_nodup input)
  rw [extractSections_append_newline hlast] at hiff
  rw [← hiff]
  constructor
  · exact fun h => h.1
  · intro hcopy
    refine ⟨hcopy, _, hparse, ?_⟩
    have hcontent : writtenContent (buildBody (recordSections input)) =
        '\n' :: (buildBody (recordSections input) ++ ['\n']) := by simp [writtenContent, hne]
    simp only [hcontent, extractSections_surrounded hlast]
    exact hcopy

/-! ## Records under the default category -/

def symptomInput (symptom : String) : RecordInput :=
  { simpleInput none with symptom := symptom.toList }

/-- The frontmatter does not depend on the texts. -/
def simpleFrontmatter : JsValue :=
  recordFrontmatter (simpleInput none) simpleContext (.string "slow-build".toList)

theorem symptomInput_rereads (symptom : String) :
    Rereads flatHost (recordFrontmatter (symptomInput symptom) simpleContext
      (.string "slow-build".toList)) (flatRead simpleFrontmatter) := by
  have hsame : recordFrontmatter (symptomInput symptom) simpleContext
      (.string "slow-build".toList) = simpleFrontmatter := rfl
  rw [hsame]
  exact flat_rereads (by decide +kernel) (by decide +kernel) (by decide +kernel)
    (by decide +kernel)

/-- The entry of a symptom under its first id. -/
def symptomEntry (symptom : String) : Except EntryError BuiltEntry :=
  buildEntry flatHost (recordFrontmatter (symptomInput symptom) simpleContext
    (.string "slow-build".toList)) (recordSections (symptomInput symptom))

/-- An entry of several lines fits and its texts are kept, and one with a heading line fits. -/
structure SymptomEntries : Prop where
  lines : (symptomEntry " Hangs.\n\n### Where\n##\nAt link. ").toOption.isSome = true
  kept : ∀ f ∈ recordSections (symptomInput " Hangs.\n\n### Where\n##\nAt link. "), Kept f.2
  heading : (symptomEntry "Log:\n## Failed\nx").toOption.isSome = true

theorem symptomEntries : SymptomEntries :=
  ⟨by decide +kernel, by decide +kernel, by decide +kernel⟩

/-- A symptom of several lines, one of them a heading of another depth, is read back. -/
theorem record_sections_read_back_iff_lines : ∃ built,
    symptomEntry " Hangs.\n\n### Where\n##\nAt link. " = .ok built ∧
    TrimmedCopy (extractSections built.body)
      (recordSections (symptomInput " Hangs.\n\n### Where\n##\nAt link. ")) := by
  obtain ⟨built, hbuilt⟩ := exists_ok symptomEntries.lines
  exact ⟨built, hbuilt,
    ((record_sections_read_back_iff (symptomInput_rereads _) hbuilt).mpr symptomEntries.kept).1⟩

/-- A heading line within the symptom cuts it there. -/
theorem heading_line_cuts_symptom :
    ¬ ∀ (host : Host) (input : RecordInput) (ctx : RecordContext) (id w : JsValue)
      (built : BuiltEntry), Rereads host (recordFrontmatter input ctx id) w →
      buildEntry host (recordFrontmatter input ctx id) (recordSections input) = .ok built →
        TrimmedCopy (extractSections built.body) (recordSections input) ∧
          ∃ parsed, parseMarkdown host built.content = .ok parsed ∧
            TrimmedCopy parsed.sections (recordSections input) := by
  intro h
  obtain ⟨built, hbuilt⟩ := exists_ok symptomEntries.heading
  have hcopy := (h _ _ _ _ _ _ (symptomInput_rereads "Log:\n## Failed\nx") hbuilt).1
  rw [symptomEntry] at hbuilt
  obtain ⟨_, _, _, rfl⟩ := buildEntry_ok_iff.mp hbuilt
  exact absurd (hcopy "Failed".toList) (by decide +kernel)

end Caveat.Write
