import Caveat.Entry.Lines
import Mathlib.Algebra.Order.BigOperators.Group.List
import Mathlib.Data.List.Infix

/-!
# Which texts a section keeps

A text between two headings is read back trimmed, with every `\r\n` of it as `\n`, unless a line
of it is a heading itself. Nothing outside the headings is read twice: the ink of what
`extractSections` returns, its characters but the white space, is bounded by the ink of the lines
that are not headings. So a record whose texts are all read back has no heading line in any.
-/

namespace Caveat.Entry

open Js

/-- The characters of a text that are not white space, counted. -/
def ink (s : Text) : Nat := s.countP (fun c => !isSpace c)

theorem ink_append (a b : Text) : ink (a ++ b) = ink a + ink b := List.countP_append

theorem ink_of_isSpace {u : Text} (h : ∀ c ∈ u, isSpace c = true) : ink u = 0 := by
  rw [ink, List.countP_eq_zero]
  intro c hc
  simp [h c hc]

theorem ink_trim (s : Text) : ink (trim s) = ink s := by
  have hstart : ink (trimStart s) = ink s := by
    have happ : s.takeWhile isSpace ++ trimStart s = s := List.takeWhile_append_dropWhile
    have hink := ink_append (s.takeWhile isSpace) (trimStart s)
    rw [happ, ink_of_isSpace fun c hc => List.mem_takeWhile_imp hc] at hink
    omega
  obtain ⟨u, hs, hu⟩ := exists_trimEnd_append (trimStart s)
  have hink := ink_append (trimEnd (trimStart s)) u
  rw [← hs, ink_of_isSpace hu, hstart] at hink
  rw [trim]
  omega

theorem ink_cons_of_isSpace {c : Char} (h : isSpace c = true) (s : Text) : ink (c :: s) = ink s := by
  rw [ink, ink, List.countP_cons_of_neg (by simp [h])]

theorem ink_joinLines (lines : List Text) : ink (joinLines lines) = (lines.map ink).sum := by
  induction lines with
  | nil => rfl
  | cons l lines ih =>
      cases lines with
      | nil => simp [joinLines, List.intercalate]
      | cons m lines =>
          rw [joinLines_cons_cons, ink_append, ink_cons_of_isSpace (by decide), ih]
          rfl

theorem ink_splitLines (s : Text) : ((splitLines s).map ink).sum = ink s := by
  induction s using splitLines.induct with
  | case1 => rfl
  | case2 s ih =>
      rw [splitLines_newline, ink_cons_of_isSpace (by decide), ← ih]
      simp [ink]
  | case3 s ih =>
      rw [splitLines, ink_cons_of_isSpace (by decide), ink_cons_of_isSpace (by decide), ← ih]
      simp [ink]
  | case4 c s h1 h2 ih =>
      rw [splitLines.eq_4 c s h1 h2]
      have hcons : ∀ l : Text, ink (c :: l) = ink [c] + ink l := fun l => ink_append [c] l
      cases hs : splitLines s with
      | nil => exact absurd hs (splitLines_ne_nil s)
      | cons l ls =>
          rw [hs] at ih
          rw [List.modifyHead_cons, hcons s, ← ih]
          simp only [List.map_cons, List.sum_cons, hcons l]
          omega

/-- A heading begins with `##`. -/
theorem ink_pos_of_headingOf {line h : Text} (hl : headingOf line = some h) : 0 < ink line := by
  unfold headingOf at hl
  split at hl
  · have hmem : ∀ l : Text, '#' ∈ '#' :: l := fun l => List.mem_cons_self
    exact List.countP_pos_iff.mpr ⟨'#', hmem _, by decide⟩
  · cases hl

/-! ## What a scan keeps -/

/-- The ink under some keys of a record. -/
def inkUnder (keys : List Text) (result : List (Text × Text)) : Nat :=
  (keys.map (fun k => ink ((getProp? result k).getD []))).sum

/-- Raising a function at one place raises its sum over distinct places by no more. -/
theorem sum_map_le_add {α : Type} [DecidableEq α] {keys : List α} (hnodup : keys.Nodup)
    {f g : α → Nat} (key : α) {n : Nat} (hne : ∀ k, k ≠ key → g k = f k) (hkey : g key ≤ n) :
    (keys.map g).sum ≤ (keys.map f).sum + n := by
  induction keys with
  | nil => simp
  | cons k keys ih =>
      have hih := ih (List.nodup_cons.mp hnodup).2
      simp only [List.map_cons, List.sum_cons]
      by_cases hk : k = key
      · -- the key is met here and nowhere behind
        have hrest : keys.map g = keys.map f := List.map_congr_left fun a ha => by
          refine hne a fun he => (List.nodup_cons.mp hnodup).1 ?_
          rw [hk, ← he]
          exact ha
        rw [hrest, hk]
        omega
      · rw [hne k hk]
        omega

theorem inkUnder_assign_le {keys : List Text} (hnodup : keys.Nodup)
    (result : List (Text × Text)) (key value : Text) :
    inkUnder keys (assign result key value) ≤ inkUnder keys result + ink value := by
  by_cases hproto : key = "__proto__".toList
  · rw [assign, if_pos hproto]
    omega
  · rw [assign, if_neg hproto]
    refine sum_map_le_add hnodup key (fun k hk => ?_) ?_
    · rw [getProp?_setProp_of_ne hk]
    · rw [getProp?_setProp_self]
      rfl

/-- The ink that a scan holds under some keys, with the lines it has not stored yet. -/
def SectionScan.inkUnder (keys : List Text) (s : SectionScan) : Nat :=
  Entry.inkUnder keys s.result + (s.buf.map ink).sum

theorem inkUnder_close_le {keys : List Text} (hnodup : keys.Nodup) (s : SectionScan) :
    inkUnder keys s.close ≤ s.inkUnder keys := by
  cases hs : s.heading with
  | none =>
      rw [SectionScan.close, hs, SectionScan.inkUnder]
      exact Nat.le_add_right _ _
  | some h =>
      have hle := inkUnder_assign_le hnodup s.result h (trim (joinLines s.buf))
      rw [ink_trim, ink_joinLines] at hle
      rw [SectionScan.close, hs, SectionScan.inkUnder]
      exact hle

/-- The ink of the lines that are no headings. -/
def plainInk (lines : List Text) : Nat :=
  ((lines.filter (fun l => (headingOf l).isNone)).map ink).sum

theorem plainInk_append (a b : List Text) : plainInk (a ++ b) = plainInk a + plainInk b := by
  simp [plainInk]

theorem plainInk_flatMap {α : Type} (f : α → List Text) (l : List α) :
    plainInk (l.flatMap f) = (l.map (fun a => plainInk (f a))).sum := by
  induction l with
  | nil => rfl
  | cons a l ih => rw [List.flatMap_cons, plainInk_append, ih]; rfl

theorem plainInk_cons (l : Text) (lines : List Text) :
    plainInk (l :: lines) = (if (headingOf l).isNone then ink l else 0) + plainInk lines := by
  have happ := plainInk_append [l] lines
  rw [List.singleton_append] at happ
  rw [happ]
  by_cases hl : (headingOf l).isNone <;> simp [plainInk, hl]

theorem plainInk_le (lines : List Text) : plainInk lines ≤ (lines.map ink).sum := by
  induction lines with
  | nil => exact Nat.le_refl _
  | cons l lines ih =>
      rw [plainInk_cons, List.map_cons, List.sum_cons]
      split <;> omega

theorem plainInk_lt {lines : List Text} {l h : Text} (hl : l ∈ lines)
    (hh : headingOf l = some h) : plainInk lines < (lines.map ink).sum := by
  induction lines with
  | nil => exact absurd hl (by simp)
  | cons m lines ih =>
      have hle := plainInk_le lines
      rw [plainInk_cons, List.map_cons, List.sum_cons]
      rcases List.mem_cons.mp hl with rfl | hl
      · have hpos := ink_pos_of_headingOf hh
        rw [hh, if_neg (by simp)]
        omega
      · have hlt := ih hl
        split <;> omega

/-- A line adds its ink at most, and a heading none. -/
theorem inkUnder_line_le {keys : List Text} (hnodup : keys.Nodup) (s : SectionScan) (l : Text) :
    (s.line l).inkUnder keys ≤ s.inkUnder keys + plainInk [l] := by
  cases hl : headingOf l with
  | some h =>
      have hclose := inkUnder_close_le hnodup s
      simp only [SectionScan.line, hl, SectionScan.inkUnder, List.map_nil, List.sum_nil] at hclose ⊢
      omega
  | none =>
      have hink : plainInk [l] = ink l := by simp [plainInk, hl]
      rw [hink]
      cases hs : s.heading with
      | none =>
          simp only [SectionScan.line, hl, hs]
          omega
      | some h =>
          simp only [SectionScan.line, hl, hs, SectionScan.inkUnder, List.map_append,
            List.map_cons, List.map_nil, List.sum_append, List.sum_cons, List.sum_nil]
          omega

theorem inkUnder_foldl_le {keys : List Text} (hnodup : keys.Nodup) (lines : List Text)
    (s : SectionScan) :
    (lines.foldl SectionScan.line s).inkUnder keys ≤ s.inkUnder keys + plainInk lines := by
  induction lines generalizing s with
  | nil => exact Nat.le_add_right _ _
  | cons l lines ih =>
      have hline := inkUnder_line_le hnodup s l
      have hrest := ih (s.line l)
      have happ := plainInk_append [l] lines
      rw [List.singleton_append] at happ
      rw [List.foldl_cons]
      omega

/-- **What is read has at most the ink of the lines between the headings.** -/
theorem inkUnder_extractSections_le {keys : List Text} (hnodup : keys.Nodup) (body : Text) :
    inkUnder keys (extractSections body) ≤ plainInk (splitLines body) := by
  have hclose := inkUnder_close_le hnodup ((splitLines body).foldl SectionScan.line {})
  have hrun := inkUnder_foldl_le hnodup (splitLines body) {}
  have hinit : SectionScan.inkUnder keys {} = 0 := by simp [SectionScan.inkUnder, inkUnder, ink]
  rw [extractSections]
  omega

/-- A line that is no heading is read under the heading above it. -/
theorem foldl_plain {lines : List Text} (h : ∀ l ∈ lines, headingOf l = none) {s : SectionScan}
    {heading : Text} (hs : s.heading = some heading) :
    lines.foldl SectionScan.line s = { s with buf := s.buf ++ lines } := by
  induction lines generalizing s with
  | nil => simp
  | cons l lines ih =>
      have hline : s.line l = { s with buf := s.buf ++ [l] } := by
        simp only [SectionScan.line, h l List.mem_cons_self, hs]
      have hrest := @ih (fun m hm => h m (List.mem_cons_of_mem _ hm))
        { s with buf := s.buf ++ [l] } hs
      rw [List.foldl_cons, hline, hrest, List.append_assoc]
      rfl

/-! ## Reading what `buildBody` wrote -/

/-- A heading that is read back from the line `## ${heading}`, and is no special key. -/
structure Heading (h : Text) : Prop where
  read : headingOf ("## ".toList ++ h) = some h
  newline : '\n' ∉ h
  carriage : '\r' ∉ h
  settable : h ≠ "__proto__".toList
  ordered : arrayIndex? h = none

/-- The lines of a written section, with the empty line that parts it from the next. -/
def sectionLines (f : Text × Text) : List Text :=
  ("## ".toList ++ f.1) :: [] :: splitLines (trim f.2) ++ [[]]

/-- A section's text as it is read back when none of its lines is a heading. -/
def reread (content : Text) : Text := trim (joinLines (splitLines (trim content)))

theorem buildSection_ne_return (heading content : Text) :
    (buildSection heading content).getLast? ≠ some '\r' := by
  have hlast : ∀ c, (trim content).getLast? = some c → isSpace c = false :=
    fun c hc => getLast?_of_trimEnd_eq (trimEnd_trimEnd (trimStart content)) hc
  rw [buildSection, List.getLast?_append]
  cases ht : (trim content).getLast? with
  | none =>
      rw [List.getLast?_append]
      intro hr
      exact absurd (show some '\n' = some '\r' from hr) (by decide)
  | some c =>
      intro hr
      have hc : c = '\r' := by simpa using hr
      have hspace := hlast c ht
      rw [hc] at hspace
      exact absurd hspace (by decide)

theorem splitLines_buildSection {f : Text × Text} (h : Heading f.1) :
    splitLines (buildSection f.1 f.2) ++ [[]] = sectionLines f := by
  have hhead : '\n' ∉ "## ".toList ++ f.1 := by
    simp only [List.mem_append, not_or]
    exact ⟨by decide, h.newline⟩
  have hline : ("## ".toList ++ f.1).getLast? ≠ some '\r' := by
    intro hr
    rcases List.mem_append.mp (List.mem_of_getLast? hr) with hmem | hmem
    · exact absurd hmem (by decide)
    · exact h.carriage hmem
  have hparts : buildSection f.1 f.2 =
      ("## ".toList ++ f.1) ++ '\n' :: ([] ++ '\n' :: trim f.2) := by simp [buildSection]
  rw [hparts, splitLines_append_newline hline, splitLines_append_newline (by simp),
    splitLines_of_no_newline hhead]
  rfl

/-- Without array indices the entries of a record are its properties as created. -/
theorem entries_eq_self {α : Type} {fields : List (Text × α)}
    (h : ∀ f ∈ fields, arrayIndex? f.1 = none) : entries fields = fields := by
  have hnone : fields.filter (fun f => (arrayIndex? f.1).isSome) = [] :=
    List.filter_eq_nil_iff.mpr fun f hf => by simp [h f hf]
  have hall : fields.filter (fun f => (arrayIndex? f.1).isNone) = fields :=
    List.filter_eq_self.mpr fun f hf => by simp [h f hf]
  rw [entries, hnone, hall]
  rfl

/-- The lines of a body, with the line break that ends its file. -/
theorem splitLines_buildBody {sections : List (Text × Text)} (hne : sections ≠ [])
    (h : ∀ f ∈ sections, Heading f.1) :
    splitLines (buildBody sections ++ ['\n']) = sections.flatMap sectionLines := by
  rw [buildBody, entries_eq_self fun f hf => (h f hf).ordered]
  induction sections with
  | nil => exact absurd rfl hne
  | cons f rest ih =>
      have hf := splitLines_buildSection (h f List.mem_cons_self)
      have hreturn := buildSection_ne_return f.1 f.2
      cases rest with
      | nil =>
          have hone : ['\n', '\n'].intercalate [buildSection f.1 f.2] = buildSection f.1 f.2 := by
            simp [List.intercalate]
          rw [List.map_cons, List.map_nil, hone, splitLines_append_newline hreturn,
            List.flatMap_cons, List.flatMap_nil, List.append_nil]
          exact hf
      | cons g rest =>
          have htail := ih (by simp) fun k hk => h k (List.mem_cons_of_mem _ hk)
          have happ : ['\n', '\n'].intercalate
              ((f :: g :: rest).map fun s => buildSection s.1 s.2) ++ ['\n'] =
              buildSection f.1 f.2 ++ '\n' :: ([] ++ '\n' :: (['\n', '\n'].intercalate
                ((g :: rest).map fun s => buildSection s.1 s.2) ++ ['\n'])) := by
            simp [List.intercalate]
          have hsplit : (f :: g :: rest).flatMap sectionLines =
              sectionLines f ++ (g :: rest).flatMap sectionLines := List.flatMap_cons
          rw [happ, splitLines_append_newline hreturn, splitLines_append_newline (by simp), htail,
            hsplit, ← hf, List.append_assoc]
          rfl

theorem trim_append_of_isSpace (a : Text) {u : Text} (hu : ∀ c ∈ u, isSpace c = true) :
    trim (a ++ u) = trim a := by
  have hnil : u.dropWhile isSpace = [] := List.dropWhile_eq_nil_iff.mpr hu
  rw [trim, trim, trimStart, trimStart, List.dropWhile_append]
  by_cases ha : (a.dropWhile isSpace).isEmpty
  · rw [if_pos ha, hnil, List.isEmpty_iff.mp ha]
  · rw [if_neg ha, trimEnd_append_of_isSpace _ hu]

theorem trim_cons_of_isSpace {c : Char} (h : isSpace c = true) (s : Text) :
    trim (c :: s) = trim s := by
  rw [trim, trim, trimStart, trimStart, List.dropWhile_cons_of_pos h]

theorem intercalate_ends {sep : Text} {parts : List Text} (hne : parts ≠ []) :
    ∃ a, ∃ part ∈ parts, sep.intercalate parts = a ++ part := by
  induction parts with
  | nil => exact absurd rfl hne
  | cons p rest ih =>
      cases rest with
      | nil => exact ⟨[], p, by simp, by simp [List.intercalate]⟩
      | cons q rest =>
          obtain ⟨a, part, hpart, ha⟩ := ih (by simp)
          refine ⟨p ++ sep ++ a, part, List.mem_cons_of_mem _ hpart, ?_⟩
          have hcons : sep.intercalate (p :: q :: rest) =
              p ++ sep ++ sep.intercalate (q :: rest) := by simp [List.intercalate]
          rw [hcons, ha, List.append_assoc, List.append_assoc, List.append_assoc]

/-- A body is a text that goes on in the file: it is not empty and does not end within `\r\n`. -/
theorem buildBody_ends {sections : List (Text × Text)} (hne : sections ≠ [])
    (h : ∀ f ∈ sections, Heading f.1) :
    (buildBody sections).isEmpty = false ∧ (buildBody sections).getLast? ≠ some '\r' := by
  rw [buildBody, entries_eq_self fun f hf => (h f hf).ordered]
  obtain ⟨a, part, hpart, hbody⟩ := @intercalate_ends ['\n', '\n']
    (sections.map fun s => buildSection s.1 s.2) (by simpa using hne)
  obtain ⟨f, _, rfl⟩ := List.mem_map.mp hpart
  have hlast := buildSection_ne_return f.1 f.2
  have hpos : buildSection f.1 f.2 ≠ [] := by simp [buildSection]
  rw [hbody, List.getLast?_append_of_ne_nil _ hpos]
  exact ⟨by simp [hpos], hlast⟩

/-- An empty line at the end of a body is trimmed off. -/
theorem close_line_nil (s : SectionScan) : (s.line []).close = s.close := by
  cases hs : s.heading with
  | none => simp only [SectionScan.line, headingOf, hs]
  | some h =>
      have htrim : trim (joinLines (s.buf ++ [[]])) = trim (joinLines s.buf) := by
        cases hb : s.buf with
        | nil => rfl
        | cons l ls =>
            rw [← joinLines_append_newline (by simp)]
            exact trim_append_of_isSpace _ (by simp; decide)
      simp only [SectionScan.line, headingOf, hs, SectionScan.close, htrim]

/-- The empty lines around a body say nothing. -/
theorem extractSections_surrounded {body : Text} (h : body.getLast? ≠ some '\r') :
    extractSections ('\n' :: (body ++ ['\n'])) = extractSections body := by
  have hinit : SectionScan.line {} [] = {} := rfl
  rw [extractSections, splitLines_newline, splitLines_append_newline h, List.foldl_cons, hinit,
    List.foldl_append]
  exact close_line_nil _

theorem extractSections_append_newline {body : Text} (h : body.getLast? ≠ some '\r') :
    extractSections (body ++ ['\n']) = extractSections body := by
  rw [extractSections, splitLines_append_newline h, List.foldl_append]
  exact close_line_nil _

/-- A section without a heading among its lines is stored as a whole. -/
theorem close_sectionLines {f : Text × Text} (h : Heading f.1)
    (hplain : ∀ l ∈ splitLines (trim f.2), headingOf l = none) (s : SectionScan) :
    ((sectionLines f).foldl SectionScan.line s).close = assign s.close f.1 (reread f.2) := by
  have hhead : s.line ("## ".toList ++ f.1) =
      { result := s.close, heading := some f.1, buf := [] } := by
    simp only [SectionScan.line, h.read]
  have hlines : ∀ l ∈ [] :: splitLines (trim f.2), headingOf l = none := by
    intro l hl
    rcases List.mem_cons.mp hl with rfl | hl
    · rfl
    · exact hplain l hl
  have hrun := @foldl_plain _ hlines { result := s.close, heading := some f.1, buf := [] } f.1 rfl
  have hne : splitLines (trim f.2) ≠ [] := splitLines_ne_nil _
  have htext : trim (joinLines ([] :: splitLines (trim f.2))) = reread f.2 := by
    cases hls : splitLines (trim f.2) with
    | nil => exact absurd hls hne
    | cons l ls =>
        rw [joinLines_cons_cons, List.nil_append, trim_cons_of_isSpace (by decide), reread, hls]
  have hfold : (("## ".toList ++ f.1) :: [] :: splitLines (trim f.2)).foldl SectionScan.line s =
      { result := s.close, heading := some f.1, buf := [] :: splitLines (trim f.2) } := by
    rw [List.foldl_cons, hhead, hrun]
    rfl
  rw [sectionLines, List.foldl_append, hfold, List.foldl_cons, List.foldl_nil, close_line_nil,
    SectionScan.close]
  simp only [htext]

theorem close_sections {sections : List (Text × Text)} (h : ∀ f ∈ sections, Heading f.1)
    (hplain : ∀ f ∈ sections, ∀ l ∈ splitLines (trim f.2), headingOf l = none) (s : SectionScan) :
    ((sections.flatMap sectionLines).foldl SectionScan.line s).close =
      spread s.close (sections.map (fun f => (f.1, reread f.2))) := by
  induction sections generalizing s with
  | nil => rfl
  | cons f rest ih =>
      have hf := close_sectionLines (h f List.mem_cons_self) (hplain f List.mem_cons_self) s
      rw [List.flatMap_cons, List.foldl_append, ih (fun g hg => h g (List.mem_cons_of_mem _ hg))
        (fun g hg => hplain g (List.mem_cons_of_mem _ hg)), hf, assign,
        if_neg (h f List.mem_cons_self).settable]
      rfl

/-! ## Line breaks -/

theorem joinLines_modifyHead_cons (c : Char) {lines : List Text} (hne : lines ≠ []) :
    joinLines (lines.modifyHead (c :: ·)) = c :: joinLines lines := by
  cases lines with
  | nil => exact absurd rfl hne
  | cons l ls =>
      cases ls with
      | nil => simp [joinLines, List.intercalate]
      | cons m ls => rw [List.modifyHead_cons, joinLines_cons_cons, joinLines_cons_cons]; rfl

theorem joinLines_cons_nil {lines : List Text} (hne : lines ≠ []) :
    joinLines ([] :: lines) = '\n' :: joinLines lines := by
  cases lines with
  | nil => exact absurd rfl hne
  | cons l ls => exact joinLines_cons_cons [] l ls

/-- Lines joined again lose a character for each `\r\n`, and are the same text without one. -/
theorem joinLines_splitLines (s : Text) :
    (joinLines (splitLines s)).length ≤ s.length ∧
      ((joinLines (splitLines s)).length = s.length ↔ ¬ "\r\n".toList <:+: s) ∧
      (¬ "\r\n".toList <:+: s → joinLines (splitLines s) = s) := by
  induction s using splitLines.induct with
  | case1 => simp [splitLines, joinLines]
  | case2 s ih =>
      obtain ⟨hle, hiff, heq⟩ := ih
      have hinfix : "\r\n".toList <:+: '\n' :: s ↔ "\r\n".toList <:+: s := by
        simp [List.infix_cons_iff]
      rw [splitLines_newline, joinLines_cons_nil (splitLines_ne_nil s), hinfix,
        List.length_cons, List.length_cons]
      refine ⟨by omega, ?_, fun h => by rw [heq h]⟩
      rw [← hiff]
      omega
  | case3 s ih =>
      obtain ⟨hle, hiff, heq⟩ := ih
      have hinfix : "\r\n".toList <:+: '\r' :: '\n' :: s := ⟨[], s, rfl⟩
      rw [splitLines, joinLines_cons_nil (splitLines_ne_nil s)]
      simp only [List.length_cons]
      refine ⟨by omega, ?_, fun h => absurd hinfix h⟩
      constructor
      · intro h
        omega
      · exact fun h => absurd hinfix h
  | case4 c s h1 h2 ih =>
      obtain ⟨hle, hiff, heq⟩ := ih
      have hinfix : "\r\n".toList <:+: c :: s ↔ "\r\n".toList <:+: s := by
        rw [List.infix_cons_iff, or_iff_right_iff_imp]
        rintro ⟨t, ht⟩
        obtain ⟨hc, hs⟩ := List.cons.inj (show '\r' :: '\n' :: t = c :: s from ht)
        exact absurd hs.symm (h2 t hc.symm)
      rw [splitLines.eq_4 c s h1 h2, joinLines_modifyHead_cons c (splitLines_ne_nil s), hinfix,
        List.length_cons, List.length_cons]
      refine ⟨by omega, ?_, fun h => by rw [heq h]⟩
      rw [← hiff]
      omega

/-! ## The round trip -/

/-- A text that a section keeps: no line of it is a heading, and no line break is `\r\n`. -/
structure Kept (content : Text) : Prop where
  plain : ∀ l ∈ splitLines (trim content), headingOf l = none
  breaks : ¬ "\r\n".toList <:+: trim content

instance (content : Text) : Decidable (Kept content) :=
  decidable_of_iff ((∀ l ∈ splitLines (trim content), headingOf l = none) ∧
    ¬ "\r\n".toList <:+: trim content) ⟨fun h => ⟨h.1, h.2⟩, fun h => ⟨h.plain, h.breaks⟩⟩

theorem head?_trim {s : Text} {c : Char} (h : (trim s).head? = some c) : isSpace c = false := by
  obtain ⟨u, hu, _⟩ := exists_trimEnd_append (trimStart s)
  have hhead : (trimStart s).head? = some c := by
    rw [hu, show trimEnd (trimStart s) = trim s from rfl, List.head?_append, h]
    rfl
  have hc := List.head?_dropWhile_not isSpace s
  rw [show s.dropWhile isSpace = trimStart s from rfl, hhead] at hc
  simpa using hc

theorem getLast?_trim {s : Text} {c : Char} (h : (trim s).getLast? = some c) :
    isSpace c = false := getLast?_of_trimEnd_eq (trimEnd_trimEnd (trimStart s)) h

/-- A text that white space neither begins nor ends is its own trimmed form. -/
theorem trim_eq_of_ends {s : Text} (hhead : ∀ c, s.head? = some c → isSpace c = false)
    (hlast : ∀ c, s.getLast? = some c → isSpace c = false) : trim s = s := by
  have hstart : trimStart s = s := by
    cases s with
    | nil => rfl
    | cons c s => rw [trimStart, List.dropWhile_cons_of_neg (by simp [hhead c rfl])]
  rw [trim, hstart, trimEnd, List.rdropWhile_eq_self_iff]
  intro hne
  simp [hlast _ (List.getLast?_eq_some_getLast hne)]

theorem trim_trim (s : Text) : trim (trim s) = trim s :=
  trim_eq_of_ends (fun _ h => head?_trim h) fun _ h => getLast?_trim h

theorem reread_eq_iff (content : Text) :
    reread content = trim content ↔ ¬ "\r\n".toList <:+: trim content := by
  obtain ⟨_, hiff, heq⟩ := joinLines_splitLines (trim content)
  constructor
  · intro h
    -- trimming shortens, so nothing was lost between the lines
    have hshort : (reread content).length ≤ (joinLines (splitLines (trim content))).length := by
      rw [reread, trim, trimEnd, trimStart]
      exact ((List.rdropWhile_prefix _ _).length_le).trans (List.dropWhile_suffix _).length_le
    rw [h] at hshort
    exact hiff.mp (by omega)
  · intro h
    rw [reread, heq h, trim_trim]

/-- The two records have the same keys, and the one read has the trimmed texts. -/
def TrimmedCopy (read written : List (Text × Text)) : Prop :=
  ∀ heading, getProp? read heading = (getProp? written heading).map trim

theorem getProp?_map {α β : Type} (g : α → β) (fields : List (Text × α)) (k : Text) :
    getProp? (fields.map (fun f => (f.1, g f.2))) k = (getProp? fields k).map g := by
  rw [getProp?, getProp?, List.filter_map, List.getLast?_map, Option.map_map, Option.map_map]
  rfl

/-- Under distinct keys a property is found as it is listed. -/
theorem getProp?_of_mem {α : Type} {fields : List (Text × α)} (hnodup : (fields.map Prod.fst).Nodup)
    {f : Text × α} (hf : f ∈ fields) : getProp? fields f.1 = some f.2 := by
  induction fields with
  | nil => exact absurd hf (by simp)
  | cons g rest ih =>
      obtain ⟨hg, hrest⟩ := List.nodup_cons.mp hnodup
      have happ := getProp?_append [g] rest f.1
      rw [List.singleton_append] at happ
      rw [happ]
      rcases List.mem_cons.mp hf with rfl | hf
      · have hnone : rest.filter (fun k => k.1 = f.1) = [] :=
          List.filter_eq_nil_iff.mpr fun k hk hkey =>
            hg (List.mem_map.mpr ⟨k, hk, by simpa using hkey⟩)
        simp [getProp?, hnone]
      · rw [ih hrest hf]
        rfl

theorem mem_of_getProp? {α : Type} {fields : List (Text × α)} {k : Text} {v : α}
    (h : getProp? fields k = some v) : (k, v) ∈ fields := by
  rw [getProp?, Option.map_eq_some_iff] at h
  obtain ⟨f, hf, rfl⟩ := h
  obtain ⟨hmem, hkey⟩ := List.mem_filter.mp (List.mem_of_getLast? hf)
  have hk : f.1 = k := by simpa using hkey
  rw [← hk]
  exact hmem

theorem plainInk_sectionLines {f : Text × Text} (h : Heading f.1) :
    plainInk (sectionLines f) = plainInk (splitLines (trim f.2)) := by
  have hempty : plainInk [[]] = 0 := rfl
  rw [sectionLines, plainInk_append, plainInk_cons, plainInk_cons, h.read, hempty]
  simp [ink]

/-- The body of some sections, each under its own heading, is read back as their trimmed copy
exactly when every text is one that a section keeps. -/
theorem trimmedCopy_iff {sections : List (Text × Text)} (hne : sections ≠ [])
    (h : ∀ f ∈ sections, Heading f.1) (hnodup : (sections.map Prod.fst).Nodup) :
    TrimmedCopy (extractSections (buildBody sections ++ ['\n'])) sections ↔
      ∀ f ∈ sections, Kept f.2 := by
  have hlines := splitLines_buildBody hne h
  have hplain : TrimmedCopy (extractSections (buildBody sections ++ ['\n'])) sections →
      ∀ f ∈ sections, ∀ l ∈ splitLines (trim f.2), headingOf l = none := by
    intro hcopy f hf l hl
    by_contra hsome
    obtain ⟨heading, hh⟩ := Option.ne_none_iff_exists'.mp hsome
    -- the texts that are read have all the ink, and the lines between the headings less
    have hread : inkUnder (sections.map Prod.fst)
        (extractSections (buildBody sections ++ ['\n'])) =
        (sections.map (fun g => ((splitLines (trim g.2)).map ink).sum)).sum := by
      rw [inkUnder, List.map_map]
      refine congrArg List.sum (List.map_congr_left fun g hg => ?_)
      rw [Function.comp, hcopy g.1, getProp?_of_mem hnodup hg, ink_splitLines]
      rfl
    have hle := inkUnder_extractSections_le hnodup (buildBody sections ++ ['\n'])
    rw [hread, hlines, plainInk_flatMap] at hle
    have hlt : (sections.map (fun g => plainInk (sectionLines g))).sum <
        (sections.map (fun g => ((splitLines (trim g.2)).map ink).sum)).sum := by
      refine List.sum_lt_sum _ _ (fun g hg => ?_) ⟨f, hf, ?_⟩
      · rw [plainInk_sectionLines (h g hg)]
        exact plainInk_le _
      · rw [plainInk_sectionLines (h f hf)]
        exact plainInk_lt hl hh
    omega
  have hread : (∀ f ∈ sections, ∀ l ∈ splitLines (trim f.2), headingOf l = none) → ∀ heading,
      getProp? (extractSections (buildBody sections ++ ['\n'])) heading =
        (getProp? sections heading).map reread := by
    intro hall heading
    rw [extractSections, hlines, close_sections h hall, getProp?_spread, getProp?_map]
    exact Option.or_none
  constructor
  · intro hcopy f hf
    refine ⟨hplain hcopy f hf, (reread_eq_iff f.2).mp ?_⟩
    have hk := (hread (hplain hcopy) f.1).symm.trans (hcopy f.1)
    rw [getProp?_of_mem hnodup hf] at hk
    exact Option.some.inj hk
  · intro hkept heading
    rw [hread fun f hf => (hkept f hf).plain]
    cases hk : getProp? sections heading with
    | none => rfl
    | some content =>
        exact congrArg some ((reread_eq_iff content).mpr (hkept _ (mem_of_getProp? hk)).breaks)

end Caveat.Entry
