import Caveat.Entry.Markdown
import Caveat.Entry.SectionLaw

/-!
# Reading an entry that `buildEntry` wrote

gray-matter takes what stands between the two `---` lines for the frontmatter and what follows
them for the content. So a written body comes back between two line breaks, whatever is in it.
-/

namespace Caveat.Entry

open Js

/-- gray-matter hands what is between the two `---` lines to the engine, with the line break that
opens it, and gives what follows the second line. -/
def Splits (host : Host) (v : JsValue) : Prop :=
  ∀ engine rest,
    host.matter engine ("---\n".toList ++ host.yamlDump v ++ "---\n".toList ++ rest) =
      (engine ('\n' :: (host.yamlDump v).dropLast)).map (fun data => (data, rest))

/-- What gray-matter and js-yaml do with the text of frontmatter `v`, which is read back as `w`. -/
structure Rereads (host : Host) (v w : JsValue) : Prop where
  /-- No language is named behind the first `---`. -/
  language : ∀ rest, host.lower (host.language ("---\n".toList ++ rest)) = []
  /-- `yaml.dump` ends its last line. -/
  ended : (host.yamlDump v).getLast? = some '\n'
  matter : Splits host v
  /-- `yaml.load` reads what `yaml.dump` wrote, -/
  load : host.yamlLoad ('\n' :: (host.yamlDump v).dropLast) = .ok w
  /-- and it is a mapping of no more than the size that was written. -/
  fits : assertFrontmatterGraph (w.orElse (.object [])) = .ok ()

variable {host : Host} {v w : JsValue} {sections : List (Text × Text)} {built : BuiltEntry}

theorem buildEntry_ok_iff : buildEntry host v sections = .ok built ↔
    assertFrontmatterGraph v = .ok () ∧
    assertUtf8Limit (host.yamlDump v) "frontmatter" frontmatterLimit = .ok () ∧
    assertUtf8Limit (entryText (host.yamlDump v) (buildBody sections)) "entry_markdown"
      markdownLimit = .ok () ∧
    built = { content := entryText (host.yamlDump v) (buildBody sections)
              body := buildBody sections } := by
  simp only [buildEntry, dumpFrontmatter]
  cases hgraph : assertFrontmatterGraph v with
  | error e => simp [bind, Except.bind]
  | ok _ =>
      cases hyaml : assertUtf8Limit (host.yamlDump v) "frontmatter" frontmatterLimit with
      | error e => simp [bind, Except.bind]
      | ok _ =>
          cases htext : assertUtf8Limit (entryText (host.yamlDump v) (buildBody sections))
              "entry_markdown" markdownLimit with
          | error e => simp [bind, Except.bind, htext, pure, Except.pure]
          | ok _ => simp [bind, Except.bind, htext, pure, Except.pure, eq_comm]

/-- What a written file says behind its frontmatter. -/
def writtenContent (body : Text) : Text := '\n' :: body ++ if body.isEmpty then [] else ['\n']

theorem entryText_eq (yaml body : Text) :
    entryText yaml body = "---\n".toList ++ yaml ++ "---\n".toList ++ writtenContent body := by
  simp [entryText, writtenContent]

theorem utf8Length_cons_dropLast {raw : Text} {c : Char} (h : raw.getLast? = some c) :
    utf8Length (c :: raw.dropLast) = utf8Length raw := by
  have hraw : raw = raw.dropLast ++ [c] := (List.dropLast_append_getLast? c h).symm
  conv_rhs => rw [hraw]
  simp [utf8Length, Nat.add_comm]

/-- However its frontmatter is read, the content of a written file is its body between breaks. -/
theorem content_written (h : Splits host v) {engine : Text → Except EntryError JsValue} {body : Text}
    {data : JsValue} {content : Text}
    (hmatter : host.matter engine (entryText (host.yamlDump v) body) = .ok (data, content)) :
    content = writtenContent body := by
  rw [entryText_eq, h] at hmatter
  cases hload : engine ('\n' :: (host.yamlDump v).dropLast) with
  | error e =>
      rw [hload] at hmatter
      cases hmatter
  | ok value =>
      rw [hload] at hmatter
      exact (Prod.mk.inj (Except.ok.inj hmatter)).2.symm

theorem writtenContent_ne (body : Text) : writtenContent body ≠ body := by
  intro h
  have hlen := congrArg List.length h
  simp only [writtenContent, List.length_cons, List.length_append] at hlen
  omega

theorem loadFrontmatter_written (h : Rereads host v w)
    (hsize : assertUtf8Limit (host.yamlDump v) "frontmatter" frontmatterLimit = .ok ()) :
    loadFrontmatter host ('\n' :: (host.yamlDump v).dropLast) = .ok (w.orElse (.object [])) := by
  have hsize' : assertUtf8Limit ('\n' :: (host.yamlDump v).dropLast) "frontmatter"
      frontmatterLimit = .ok () := by
    rw [assertUtf8Limit, utf8Length_cons_dropLast h.ended]
    exact hsize
  simp only [loadFrontmatter, hsize', h.load, bind, Except.bind, h.fits, pure, Except.pure]

/-- **A written entry is read back**: the frontmatter that js-yaml gives, and the body between
line breaks. -/
theorem parseMarkdown_built (h : Rereads host v w)
    (hbuilt : buildEntry host v sections = .ok built) (allowOversizedBody : Bool) :
    parseMarkdown host built.content allowOversizedBody =
      .ok { frontmatter := w.orElse (.object []), body := writtenContent built.body
            sections := extractSections (writtenContent built.body) } := by
  obtain ⟨_, hyaml, htext, rfl⟩ := buildEntry_ok_iff.mp hbuilt
  have hlang : assertYamlLanguage host (entryText (host.yamlDump v) (buildBody sections)) =
      .ok () := by
    have htext : entryText (host.yamlDump v) (buildBody sections) = "---\n".toList ++
        (host.yamlDump v ++ "---\n".toList ++ writtenContent (buildBody sections)) := by
      rw [entryText_eq]
      simp
    have hstrip : ∀ rest : Text, stripBom ("---\n".toList ++ rest) = "---\n".toList ++ rest :=
      fun rest => by simp [stripBom]
    rw [htext, assertYamlLanguage, hstrip]
    simp only [h.language]
    simp
  have hmatter : host.matter (loadFrontmatter host)
      (entryText (host.yamlDump v) (buildBody sections)) =
      .ok (w.orElse (.object []), writtenContent (buildBody sections)) := by
    rw [entryText_eq, h.matter, loadFrontmatter_written h hyaml]
    rfl
  cases allowOversizedBody <;>
    simp [parseMarkdown, htext, hlang, hmatter, bind, Except.bind, pure, Except.pure]

/-! ## The host for flat frontmatter -/

/-- Where a pattern ends a text, what follows the pattern is cut off with it. -/
theorem cutAt_append {pattern : Text} (hne : pattern ≠ []) {a : Text}
    (h : cutAt pattern (a ++ pattern) = (a, [])) (rest : Text) :
    cutAt pattern (a ++ pattern ++ rest) = (a, rest) := by
  induction a with
  | nil =>
      cases pattern with
      | nil => exact absurd rfl hne
      | cons p ps => simp [cutAt]
  | cons c a ih =>
      rw [List.cons_append, cutAt] at h
      by_cases hpre : pattern.isPrefixOf (c :: (a ++ pattern))
      · rw [if_pos hpre] at h
        exact absurd (congrArg Prod.fst h) (by simp)
      · rw [if_neg hpre] at h
        have hcut : cutAt pattern (a ++ pattern) = (a, []) := by
          cases hc : cutAt pattern (a ++ pattern) with
          | mk x y =>
              rw [hc] at h
              simpa using h
        have hlonger : ¬ pattern.isPrefixOf (c :: (a ++ pattern ++ rest)) := by
          intro hlong
          refine hpre (List.isPrefixOf_iff_prefix.mpr ?_)
          have hshort : c :: (a ++ pattern) <+: c :: (a ++ pattern ++ rest) := ⟨rest, by simp⟩
          refine List.prefix_of_prefix_length_le (List.isPrefixOf_iff_prefix.mp hlong) hshort ?_
          rw [List.length_cons, List.length_append]
          omega
        rw [List.cons_append, List.cons_append, cutAt, if_neg hlonger, ih hcut]
        rfl

/-- What `flatLoad` gives of the text that `flatDump` wrote. -/
def flatRead (v : JsValue) : JsValue :=
  .object (((splitLines ('\n' :: (flatDump v).dropLast)).filter (fun l => !(trim l).isEmpty)).map
    (fun l => let (key, value) := cutAt ": ".toList l
      (key, flatValue value)))

theorem flat_rereads {v : JsValue} (ended : (flatDump v).getLast? = some '\n')
    (hcut : cutAt "\n---".toList ('\n' :: (flatDump v).dropLast ++ "\n---".toList) =
      ('\n' :: (flatDump v).dropLast, []))
    (hblank : (trim ('\n' :: (flatDump v).dropLast)).isEmpty = false)
    (fits : assertFrontmatterGraph (flatRead v) = .ok ()) : Rereads flatHost v (flatRead v) where
  language rest := rfl
  ended := ended
  matter engine rest := by
    have hdump : flatDump v = (flatDump v).dropLast ++ ['\n'] :=
      (List.dropLast_append_getLast? '\n' ended).symm
    have hsource : "---\n".toList ++ flatDump v ++ "---\n".toList ++ rest = "---".toList ++
        ('\n' :: (flatDump v).dropLast ++ "\n---".toList ++ '\n' :: rest) := by
      conv_lhs => rw [hdump]
      simp
    have hpre : ∀ t : Text, "---".toList.isPrefixOf ("---".toList ++ t) = true := by
      intro t
      simp
    have hdrop : ∀ t : Text, ("---".toList ++ t).drop 3 = t := fun t => by simp
    have hraw := cutAt_append (by decide) hcut ('\n' :: rest)
    show flatMatter engine ("---\n".toList ++ flatDump v ++ "---\n".toList ++ rest) = _
    rw [hsource, flatMatter, if_pos (hpre _), hdrop, hraw]
    simp only [hblank, Bool.false_eq_true, if_false]
    show _ = (engine ('\n' :: (flatDump v).dropLast)).map _
    cases engine ('\n' :: (flatDump v).dropLast) <;> rfl
  load := rfl
  fits := fits

end Caveat.Entry
