import Caveat.Entry.Markdown
import Caveat.Entry.SectionLaw

/-!
# Which section the symptom text is

`deriveRoleTexts` takes the first heading that is `symptom` but for its case, and of the sections
under that very heading the last. A body is given here in parts: what stands before the heading
line, the line and its break, the text of the section, and what begins at the next heading.
-/

namespace Caveat.Entry

open Js

/-- What `toLowerCase` does to the names that matter here. -/
structure LowersAscii (host : Host) : Prop where
  symptom : host.lower "Symptom".toList = "symptom".toList
  digits : ∀ t : Text, (∀ c ∈ t, c.isDigit = true) → host.lower t = t

/-- The heading is that of the symptom, in any case. -/
def NamesSymptom (host : Host) (heading : Text) : Prop :=
  host.lower (trim heading) = "symptom".toList

instance (host : Host) (heading : Text) : Decidable (NamesSymptom host heading) :=
  inferInstanceAs (Decidable (_ = _))

/-- The first heading of a body that names the symptom is `Symptom`, and its section is the last
of that name. -/
structure SymptomAt (host : Host) (before head eol text after : Text) : Prop where
  start : before = [] ∨ before.getLast? = some '\n'
  heading : headingOf head = some "Symptom".toList
  line : '\n' ∉ head ∧ head.getLast? ≠ some '\r'
  eol : eol = "\n".toList ∨ eol = "\r\n".toList
  inside : ∀ l ∈ splitLines text, headingOf l = none
  ends : after = [] ∨ (text = [] ∨ text.getLast? = some '\n') ∧
    ∃ h, (splitLines after).head?.bind headingOf = some h
  first : ∀ l ∈ splitLines before, ∀ h, headingOf l = some h → ¬ NamesSymptom host h
  last : ∀ l ∈ splitLines after, headingOf l ≠ some "Symptom".toList

/-- The body of these parts. -/
def bodyOf (before head eol text after : Text) : Text := before ++ (head ++ eol ++ (text ++ after))

/-! ## Lines of the parts -/

/-- A line break ends the lines before it, whatever follows. -/
theorem splitLines_ended (x : Text) : ∃ l ls, splitLines (x ++ ['\n']) = l :: ls ++ [[]] ∧
    ∀ y, splitLines (x ++ '\n' :: y) = l :: ls ++ splitLines y := by
  induction x using splitLines.induct with
  | case1 => exact ⟨[], [], rfl, fun y => by rw [List.nil_append, splitLines_newline]; rfl⟩
  | case2 s ih =>
      obtain ⟨l, ls, hls, hall⟩ := ih
      refine ⟨[], l :: ls, ?_, fun y => ?_⟩
      · rw [List.cons_append, splitLines_newline, hls]
        rfl
      · rw [List.cons_append, splitLines_newline, hall]
        rfl
  | case3 s ih =>
      obtain ⟨l, ls, hls, hall⟩ := ih
      refine ⟨[], l :: ls, ?_, fun y => ?_⟩
      · rw [List.cons_append, List.cons_append, splitLines, hls]
        rfl
      · rw [List.cons_append, List.cons_append, splitLines, hall]
        rfl
  | case4 c s h1 h2 ih =>
      obtain ⟨l, ls, hls, hall⟩ := ih
      have hn : c ≠ '\n' := fun hc => h1 hc
      by_cases hbreak : s = [] ∧ c = '\r'
      · -- the break is this character's
        obtain ⟨rfl, rfl⟩ := hbreak
        exact ⟨[], [], rfl, fun y => by rw [List.cons_append, List.nil_append, splitLines]; rfl⟩
      · have hr : ∀ y : Text, c = '\r' → (s ++ '\n' :: y).head? ≠ some '\n' := by
          rintro y rfl
          cases s with
          | nil => exact absurd ⟨rfl, rfl⟩ hbreak
          | cons d s =>
              intro hd
              exact h2 s rfl (by rw [show d = '\n' from by simpa using hd])
        refine ⟨c :: l, ls, ?_, fun y => ?_⟩
        · rw [List.cons_append, splitLines_cons hn (hr []), hls]
          rfl
        · rw [List.cons_append, splitLines_cons hn (hr y), hall]
          rfl

theorem trim_joinLines_concat_nil (lines : List Text) :
    trim (joinLines (lines ++ [[]])) = trim (joinLines lines) := by
  cases lines with
  | nil => rfl
  | cons l ls =>
      rw [← joinLines_append_newline (by simp)]
      exact trim_append_of_isSpace _ (by simp; decide)

/-! ## Before, in and behind the section -/

variable {host : Host} {before head eol text after : Text}

/-- No key so far names the symptom. -/
def Unnamed (host : Host) (result : List (Text × Text)) : Prop :=
  ∀ f ∈ result, ¬ NamesSymptom host f.1

/-- The symptom has been stored, and no key before it names it. -/
def Stored (host : Host) (value : Text) (result : List (Text × Text)) : Prop :=
  ∃ p q, result = p ++ ("Symptom".toList, value) :: q ∧ Unnamed host p

theorem line_heading (s : SectionScan) {l k : Text} (hl : headingOf l = some k) :
    s.line l = { result := s.close, heading := some k, buf := [] } := by
  simp only [SectionScan.line, hl]

theorem line_plain (s : SectionScan) {l : Text} (hl : headingOf l = none) :
    (s.line l).result = s.result ∧ (s.line l).heading = s.heading := by
  cases hh : s.heading <;> simp [SectionScan.line, hl, hh]

theorem mem_setProp {α : Type} {fields : List (Text × α)} {key : Text} {v : α} {f : Text × α}
    (h : f ∈ setProp fields key v) : f ∈ fields ∨ f = (key, v) := by
  rw [setProp] at h
  split at h
  · obtain ⟨g, hg, hf⟩ := List.mem_map.mp h
    by_cases hk : g.1 = key
    · rw [if_pos hk] at hf
      exact .inr hf.symm
    · rw [if_neg hk] at hf
      exact .inl (hf ▸ hg)
  · rcases List.mem_append.mp h with h | h
    · exact .inl h
    · exact .inr (List.mem_singleton.mp h)

theorem Unnamed.assign {result : List (Text × Text)} (h : Unnamed host result) {key : Text}
    (hkey : ¬ NamesSymptom host key) (value : Text) : Unnamed host (assign result key value) := by
  intro f hf
  rw [Js.assign] at hf
  split at hf
  · exact h f hf
  · rcases mem_setProp hf with hf | rfl
    · exact h f hf
    · exact hkey

theorem unnamed_close {s : SectionScan} (h : Unnamed host s.result)
    (hs : ∀ k, s.heading = some k → ¬ NamesSymptom host k) : Unnamed host s.close := by
  cases hk : s.heading with
  | none =>
      rw [SectionScan.close, hk]
      exact h
  | some k =>
      rw [SectionScan.close, hk]
      exact h.assign (hs k hk) _

theorem foldl_unnamed {lines : List Text}
    (hlines : ∀ l ∈ lines, ∀ k, headingOf l = some k → ¬ NamesSymptom host k) {s : SectionScan}
    (h : Unnamed host s.result) (hs : ∀ k, s.heading = some k → ¬ NamesSymptom host k) :
    Unnamed host (lines.foldl SectionScan.line s).close := by
  induction lines generalizing s with
  | nil => exact unnamed_close h hs
  | cons l lines ih =>
      have hrest := fun m hm => hlines m (List.mem_cons_of_mem _ hm)
      rw [List.foldl_cons]
      cases hl : headingOf l with
      | some k =>
          rw [line_heading s hl]
          refine ih hrest (unnamed_close h hs) fun k' hk' => ?_
          rw [← Option.some.inj hk']
          exact hlines l List.mem_cons_self k hl
      | none =>
          have hline := line_plain s hl
          exact ih hrest (hline.1 ▸ h) fun k hk => hs k (hline.2 ▸ hk)

theorem Stored.assign {value : Text} {result : List (Text × Text)} (h : Stored host value result)
    {key : Text} (hkey : key ≠ "Symptom".toList) (v : Text) :
    Stored host value (assign result key v) := by
  obtain ⟨p, q, rfl, hp⟩ := h
  rw [Js.assign]
  split
  · exact ⟨p, q, rfl, hp⟩
  · rw [setProp]
    split
    · refine ⟨p.map fun f => if f.1 = key then (key, v) else f,
        q.map fun f => if f.1 = key then (key, v) else f, ?_, ?_⟩
      · rw [List.map_append, List.map_cons, if_neg fun he => hkey he.symm]
      · intro f hf
        obtain ⟨g, hg, rfl⟩ := List.mem_map.mp hf
        by_cases hk : g.1 = key
        · rw [if_pos hk]
          rw [← hk]
          exact hp g hg
        · rw [if_neg hk]
          exact hp g hg
    · exact ⟨p, q ++ [(key, v)], by simp, hp⟩

theorem foldl_stored {value : Text} {lines : List Text}
    (hlines : ∀ l ∈ lines, headingOf l ≠ some "Symptom".toList) {s : SectionScan}
    (h : Stored host value s.result) (hs : s.heading ≠ some "Symptom".toList) :
    Stored host value (lines.foldl SectionScan.line s).close := by
  have hclose : ∀ s : SectionScan, Stored host value s.result →
      s.heading ≠ some "Symptom".toList → Stored host value s.close := by
    intro s h hs
    cases hk : s.heading with
    | none =>
        rw [SectionScan.close, hk]
        exact h
    | some k =>
        rw [SectionScan.close, hk]
        exact h.assign (fun he => hs (by rw [hk, he])) _
  induction lines generalizing s with
  | nil => exact hclose s h hs
  | cons l lines ih =>
      have hrest := fun m hm => hlines m (List.mem_cons_of_mem _ hm)
      rw [List.foldl_cons]
      cases hl : headingOf l with
      | some k =>
          rw [line_heading s hl]
          exact ih hrest (hclose s h hs) (hl ▸ hlines l List.mem_cons_self)
      | none =>
          have hline := line_plain s hl
          exact ih hrest (hline.1 ▸ h) (hline.2 ▸ hs)

/-- The first entry that names the symptom is the one that is stored first. -/
theorem find?_stored (hlower : LowersAscii host) {value : Text} {result : List (Text × Text)}
    (h : Stored host value result) :
    (entries result).find? (fun f => host.lower (trim f.1) = "symptom".toList) =
      some ("Symptom".toList, value) := by
  have hindex : ∀ k : Text, (arrayIndex? k).isSome = true → ¬ NamesSymptom host k := by
    intro k hk hnames
    have hdigits : ∀ c ∈ k, c.isDigit = true := by
      rw [arrayIndex?] at hk
      split at hk
      · exact absurd hk (by simp)
      · rename_i hno
        rw [Bool.or_eq_true, not_or] at hno
        simpa using hno.2
    rw [NamesSymptom, trim_eq_self fun c hc => isSpace_eq_false_of_isDigit (hdigits c hc),
      hlower.digits k hdigits] at hnames
    exact absurd (hdigits 's' (by rw [hnames]; decide)) (by decide)
  obtain ⟨p, q, rfl, hp⟩ := h
  have hnone : arrayIndex? "Symptom".toList = none := by decide
  have hfirst : host.lower (trim "Symptom".toList) = "symptom".toList := hlower.symptom
  rw [entries, List.find?_append]
  have hnumbers : ((List.filter (fun f => (arrayIndex? f.1).isSome)
      (p ++ ("Symptom".toList, value) :: q)).insertionSort
      (fun f g => (arrayIndex? f.1).getD 0 ≤ (arrayIndex? g.1).getD 0)).find?
      (fun f => host.lower (trim f.1) = "symptom".toList) = none := by
    rw [List.find?_eq_none]
    intro f hf hnames
    have hmem := (List.perm_insertionSort _ _).mem_iff.mp hf
    exact hindex f.1 (List.mem_filter.mp hmem).2 (of_decide_eq_true hnames)
  have hbefore : (p.filter fun f => (arrayIndex? f.1).isNone).find?
      (fun f => host.lower (trim f.1) = "symptom".toList) = none := by
    rw [List.find?_eq_none]
    exact fun f hf hnames => hp f (List.mem_filter.mp hf).1 (of_decide_eq_true hnames)
  have hkeep : ((arrayIndex? "Symptom".toList).isNone) = true := by
    rw [hnone]
    rfl
  have hrest : (("Symptom".toList, value) :: q).filter (fun f => (arrayIndex? f.1).isNone) =
      ("Symptom".toList, value) :: q.filter (fun f => (arrayIndex? f.1).isNone) :=
    List.filter_cons_of_pos hkeep
  rw [hnumbers, List.filter_append, List.find?_append, hbefore, hrest, Option.none_or,
    Option.none_or]
  exact List.find?_cons_of_pos (decide_eq_true hfirst)

theorem eq_append_newline {x : Text} (h : x.getLast? = some '\n') : ∃ y, x = y ++ ['\n'] :=
  ⟨x.dropLast, (List.dropLast_append_getLast? '\n' h).symm⟩

/-- The heading line is one line, whichever break ends it. -/
theorem splitLines_heading (h : SymptomAt host before head eol text after) (rest : Text) :
    splitLines (head ++ eol ++ rest) = head :: splitLines rest := by
  obtain ⟨init, last, hhead, hall⟩ := splitLines_append h.line.2
  rw [splitLines_of_no_newline h.line.1] at hhead
  have hbreak : splitLines (eol ++ rest) = [] :: splitLines rest := by
    rcases h.eol with rfl | rfl
    · exact splitLines_newline rest
    · exact splitLines.eq_3 rest
  obtain ⟨rfl, rfl⟩ : init = [] ∧ last = head := by
    cases init with
    | nil => exact ⟨rfl, (List.cons.inj hhead).1.symm⟩
    | cons i init => simp at hhead
  rw [List.append_assoc, hall, hbreak, List.modifyHead_cons, List.append_nil]
  rfl

/-- The lines of a section, as far as the next heading. -/
theorem splitLines_section (h : SymptomAt host before head eol text after) : ∃ ms,
    splitLines (text ++ after) = ms ++ (if after = [] then [] else splitLines after) ∧
    (∀ m ∈ ms, headingOf m = none) ∧ trim (joinLines ms) = trim (joinLines (splitLines text)) := by
  rcases h.ends with rfl | ⟨htext, k, hk⟩
  · exact ⟨splitLines text, by simp, h.inside, rfl⟩
  · have hne : after ≠ [] := by
      rintro rfl
      exact absurd hk (by simp [splitLines, headingOf])
    rw [if_neg hne]
    rcases htext with rfl | hlast
    · exact ⟨[], rfl, by simp, rfl⟩
    · obtain ⟨t, rfl⟩ := eq_append_newline hlast
      obtain ⟨l, ls, hls, hall⟩ := splitLines_ended t
      have hinside := h.inside
      rw [hls] at hinside ⊢
      refine ⟨l :: ls, ?_, fun m hm => hinside m (List.mem_append_left _ hm), ?_⟩
      · rw [List.append_assoc, List.singleton_append, hall]
      · exact (trim_joinLines_concat_nil _).symm

/-- The lines of a body in its parts, and what the lines of its section are. -/
theorem splitLines_bodyOf (h : SymptomAt host before head eol text after) : ∃ ls ms,
    splitLines (bodyOf before head eol text after) = ls ++ (head :: ms ++
      (if after = [] then [] else splitLines after)) ∧
    (∀ l ∈ ls, l ∈ splitLines before) ∧ (∀ m ∈ ms, headingOf m = none) ∧
    trim (joinLines ms) = trim (joinLines (splitLines text)) := by
  obtain ⟨ms, hms, hplain, htext⟩ := splitLines_section h
  rcases h.start with rfl | hlast
  · refine ⟨[], ms, ?_, by simp, hplain, htext⟩
    rw [bodyOf, List.nil_append, splitLines_heading h, hms]
    rfl
  · obtain ⟨b, rfl⟩ := eq_append_newline hlast
    obtain ⟨l, ls, hls, hall⟩ := splitLines_ended b
    refine ⟨l :: ls, ms, ?_, fun m hm => ?_, hplain, htext⟩
    · rw [bodyOf, List.append_assoc, List.singleton_append, hall, splitLines_heading h, hms]
      rfl
    · rw [hls]
      exact List.mem_append_left _ hm

/-- **The symptom text of such a body is the text of that section.** -/
theorem deriveRoleTexts_symptom (hlower : LowersAscii host)
    (h : SymptomAt host before head eol text after) (title tags frontmatterJson : JsValue) :
    (deriveRoleTexts host title (bodyOf before head eol text after) tags frontmatterJson).symptom =
      trim (joinLines (splitLines text)) := by
  obtain ⟨ls, ms, hlines, hls, hms, htext⟩ := splitLines_bodyOf h
  have hbefore := @foldl_unnamed host ls (fun l hl => h.first l (hls l hl)) {}
    (fun f hf => absurd hf (by simp)) (fun k hk => absurd hk (by simp))
  have hstored : Stored host (trim (joinLines (splitLines text)))
      (extractSections (bodyOf before head eol text after)) := by
    have hrun := @foldl_plain ms hms
      { result := (ls.foldl SectionScan.line {}).close
        heading := some "Symptom".toList } _ rfl
    rw [extractSections, hlines, List.foldl_append, List.cons_append, List.foldl_cons,
      line_heading _ h.heading, List.foldl_append, hrun]
    have hclose : Stored host (trim (joinLines (splitLines text)))
        (assign (ls.foldl SectionScan.line {}).close "Symptom".toList (trim (joinLines ms))) := by
      rw [← htext, assign, if_neg (by decide)]
      refine ⟨(ls.foldl SectionScan.line {}).close, [], ?_, hbefore⟩
      rw [setProp, if_neg]
      intro hany
      obtain ⟨f, hf, hkey⟩ := List.any_eq_true.mp hany
      refine hbefore f hf ?_
      rw [of_decide_eq_true hkey]
      exact hlower.symptom
    by_cases hafter : after = []
    · rw [if_pos hafter]
      exact hclose
    · -- the next heading stores the section
      rw [if_neg hafter]
      obtain ⟨_, k, hk⟩ := h.ends.resolve_left hafter
      have hlast := h.last
      cases hal : splitLines after with
      | nil => exact absurd hal (splitLines_ne_nil after)
      | cons l rest =>
          rw [hal] at hk hlast
          have hl : headingOf l = some k := hk
          rw [List.foldl_cons, line_heading _ hl]
          refine foldl_stored (fun m hm => hlast m (List.mem_cons_of_mem _ hm)) hclose ?_
          exact hl ▸ hlast l List.mem_cons_self
  rw [deriveRoleTexts]
  simp only [find?_stored hlower hstored]

end Caveat.Entry
