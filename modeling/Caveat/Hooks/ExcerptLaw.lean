import Caveat.Entry.RoleText
import Caveat.Hooks.ExcerptText
import Caveat.Lib.Breaks

/-!
# The excerpt and the symptom text

Where the regular expression begins at the heading of the section that the index has, the excerpt
is the first 200 code units of the symptom text exactly when it is not cut there by a line with
`##`, does not run into the next section, and has no `\r\n`, which the index has as `\n`.
-/

namespace Caveat.Hooks

open Js Entry Lib
open Publish (isSpaceUnit unitsOf_append)

/-! ## Line breaks -/

theorem joinLines_splitLines_eq (s : Text) :
    joinLines (splitLines s) = dropReturns '\r' '\n' s := by
  induction s using splitLines.induct with
  | case1 => rfl
  | case2 s ih =>
      rw [splitLines_newline, joinLines_cons_nil (splitLines_ne_nil s), ih,
        dropReturns_cons (by simp)]
  | case3 s ih =>
      rw [splitLines, joinLines_cons_nil (splitLines_ne_nil s), ih]
      rfl
  | case4 c s h1 h2 ih =>
      have hpair : ¬ (c = '\r' ∧ s.head? = some '\n') := by
        rintro ⟨rfl, hs⟩
        cases s with
        | nil => exact absurd hs (by simp)
        | cons d s => exact h2 s rfl (by rw [show d = '\n' from by simpa using hs])
      rw [splitLines.eq_4 c s h1 h2, joinLines_modifyHead_cons c (splitLines_ne_nil s), ih,
        dropReturns_cons hpair]

theorem head?_unitsOf {c : Char} (hc : c.toNat < 0xd800) (t : Text) :
    (unitsOf t).head? = some (unitOf c) ↔ t.head? = some c := by
  have hpre := @prefix_unitsOf [c] (by simpa using hc) t
  have hone : unitsOf [c] = [unitOf c] := by rw [unitsOf_cons, charUnits_small hc]; rfl
  rw [hone] at hpre
  have hhead : ∀ {β : Type} (x : β) (l : List β), l.head? = some x ↔ [x] <+: l := by
    intro β x l
    cases l with
    | nil => simp
    | cons y l => simp [eq_comm]
  rw [hhead, hhead, hpre]

theorem unitsOf_dropReturns (t : Text) : unitsOf (dropReturns '\r' '\n' t) =
    dropReturns (unitOf '\r') (unitOf '\n') (unitsOf t) := by
  induction t using dropReturns.induct '\r' '\n' with
  | case1 c d t hcd ih =>
      obtain ⟨rfl, rfl⟩ := hcd
      have hcut : dropReturns '\r' '\n' ('\r' :: '\n' :: t) = '\n' :: dropReturns '\r' '\n' t := rfl
      have hunits : dropReturns (unitOf '\r') (unitOf '\n') (unitOf '\r' :: unitOf '\n' :: unitsOf t) =
          unitOf '\n' :: dropReturns (unitOf '\r') (unitOf '\n') (unitsOf t) := rfl
      rw [hcut, unitsOf_cons, unitsOf_cons, unitsOf_cons, charUnits_small (c := '\n') (by decide),
        charUnits_small (c := '\r') (by decide), ih]
      exact hunits.symm
  | case2 c d t hcd ih =>
      have hcut : dropReturns '\r' '\n' (c :: d :: t) = c :: dropReturns '\r' '\n' (d :: t) :=
        if_neg hcd
      have hhead : (unitsOf (d :: t)).head? = some (unitOf '\n') ↔ d = '\n' := by
        rw [head?_unitsOf (by decide)]
        simp
      rw [hcut, unitsOf_cons, ih, unitsOf_cons c]
      rcases charUnits_cases c with ⟨hsmall, hone⟩ | ⟨high, low, htwo, hne⟩
      · rw [hone, List.singleton_append, List.singleton_append, dropReturns_cons]
        rw [unitOf_inj hsmall (by decide), hhead]
        exact hcd
      · have hr := hne '\r' (by decide)
        rw [htwo, List.cons_append, List.cons_append, List.nil_append, List.cons_append,
          List.cons_append, List.nil_append, dropReturns_cons fun he => hr.1 he.1,
          dropReturns_cons fun he => hr.2 he.1]
  | case3 t ht =>
      cases t with
      | nil => rfl
      | cons c t =>
          cases t with
          | nil =>
              have hsame : dropReturns '\r' '\n' [c] = [c] := rfl
              have hc : unitsOf [c] = charUnits c := by simp [unitsOf]
              rw [hsame, hc]
              rcases charUnits_cases c with ⟨_, hone⟩ | ⟨high, low, htwo, hne⟩
              · rw [hone]
                rfl
              · rw [htwo, dropReturns_cons fun he => (hne '\r' (by decide)).1 he.1]
                rfl
          | cons d t => exact absurd rfl (ht c d t)

theorem isSpace_of_mem_dropReturns {t : Text} (h : ∀ c ∈ t, isSpace c = true) :
    ∀ c ∈ dropReturns '\r' '\n' t, isSpace c = true := fun c hc => h c (mem_dropReturns hc)

theorem trim_append_left {a : Text} (ha : ∀ c ∈ a, isSpace c = true) (b : Text) :
    trim (a ++ b) = trim b := by
  rw [trim, trim, trimStart, trimStart, List.dropWhile_append_of_pos ha]

/-- A text is its trimmed form between white space. -/
theorem exists_trim (t : Text) : ∃ a b, t = a ++ (trim t ++ b) ∧ (∀ c ∈ a, isSpace c = true) ∧
    ∀ c ∈ b, isSpace c = true := by
  obtain ⟨b, hb, hspace⟩ := exists_trimEnd_append (trimStart t)
  refine ⟨t.takeWhile isSpace, b, ?_, fun c hc => List.mem_takeWhile_imp hc, hspace⟩
  rw [trim, ← hb, trimStart, List.takeWhile_append_dropWhile]

/-- The text of a section with its line breaks is its trimmed text with them. -/
theorem trim_dropReturns (t : Text) :
    trim (dropReturns '\r' '\n' t) = dropReturns '\r' '\n' (trim t) := by
  obtain ⟨a, b, ht, ha, hb⟩ := exists_trim t
  cases hT : trim t with
  | nil =>
      rw [hT, List.nil_append] at ht
      have hall : ∀ c ∈ dropReturns '\r' '\n' t, isSpace c = true := by
        refine isSpace_of_mem_dropReturns fun c hc => ?_
        rw [ht] at hc
        rcases List.mem_append.mp hc with hc | hc
        · exact ha c hc
        · exact hb c hc
      have hnil := trim_append_left hall []
      rw [List.append_nil] at hnil
      exact hnil
  | cons c s =>
      rw [hT] at ht
      have hc : isSpace c = false := head?_trim (by rw [hT]; rfl)
      have hlast : ∀ d, (c :: s).getLast? = some d → isSpace d = false :=
        fun d hd => getLast?_trim (by rw [hT]; exact hd)
      -- no pair goes over either end of the trimmed text
      have hsplit : dropReturns '\r' '\n' t = dropReturns '\r' '\n' a ++
          (dropReturns '\r' '\n' (c :: s) ++ dropReturns '\r' '\n' b) := by
        have hleft : ¬ (a.getLast? = some '\r' ∧ (c :: s ++ b).head? = some '\n') := by
          rintro ⟨_, hn⟩
          rw [show c = '\n' from by simpa using hn] at hc
          exact absurd hc (by decide)
        have hright : ¬ ((c :: s).getLast? = some '\r' ∧ b.head? = some '\n') :=
          fun h => absurd (hlast '\r' h.1) (by decide)
        rw [ht, dropReturns_append hleft, dropReturns_append hright]
      have hfirst : (dropReturns '\r' '\n' (c :: s)).head? = some c := by
        rw [dropReturns_cons]
        · rfl
        · rintro ⟨rfl, _⟩
          exact absurd hc (by decide)
      have hend : ∀ d, (dropReturns '\r' '\n' (c :: s)).getLast? = some d → isSpace d = false := by
        obtain ⟨init, d, hinit⟩ := List.eq_nil_or_concat (c :: s) |>.resolve_left (by simp)
        rw [List.concat_eq_append] at hinit
        have hd := hlast d (by rw [hinit]; simp)
        have happ : dropReturns '\r' '\n' (init ++ [d]) = dropReturns '\r' '\n' init ++ [d] := by
          refine dropReturns_append ?_
          rintro ⟨_, hn⟩
          rw [show d = '\n' from by simpa using hn] at hd
          exact absurd hd (by decide)
        intro e he
        rw [hinit, happ, List.getLast?_concat] at he
        rw [← Option.some.inj he]
        exact hd
      rw [hsplit, trim_append_left (isSpace_of_mem_dropReturns ha),
        trim_append_of_isSpace _ (isSpace_of_mem_dropReturns hb)]
      refine trim_eq_of_ends (fun d hd => ?_) hend
      rw [hfirst] at hd
      rw [← Option.some.inj hd]
      exact hc

/-! ## The excerpt -/

variable {host : Host} {before head eol text after : Text}

/-- What the pattern takes of a section: its trimmed text up to the first line with `##`. -/
def shownText (text : Text) : Text := trimEnd (cutAt "\n##".toList (trim text)).1

/-- The regular expression does not begin in what stands before the heading. -/
def FirstMatch (before head eol text after : Text) : Prop :=
  ∀ y, y <:+ before → y ≠ [] →
    symptomStart (unitsOf (y ++ (head ++ eol ++ (text ++ after)))) = none

/-- What the excerpt shows of the text is all that it has room for. -/
structure ShownWhole (text after : Text) : Prop where
  /-- The white space behind the heading does not reach the next one. -/
  filled : trim text = [] → after = []
  uncut : ¬ "\n##".toList <:+: trim text ∨
    symptomExcerptLength ≤ (unitsOf (shownText text)).length
  breaks : ¬ units "\r\n" <:+: (unitsOf (trim text)).take (symptomExcerptLength + 1)

theorem prefix_of_head_splitLines {s l : Text} (h : (splitLines s).head? = some l) : l <+: s := by
  induction s using splitLines.induct generalizing l with
  | case1 =>
      have hl : l = [] := by simpa [splitLines, eq_comm] using h
      rw [hl]
  | case2 s ih =>
      have hl : l = [] := by simpa [splitLines, eq_comm] using h
      rw [hl]
      exact List.nil_prefix
  | case3 s ih =>
      have hl : l = [] := by simpa [splitLines, eq_comm] using h
      rw [hl]
      exact List.nil_prefix
  | case4 c s h1 h2 ih =>
      rw [splitLines.eq_4 c s h1 h2] at h
      cases hs : splitLines s with
      | nil => exact absurd hs (splitLines_ne_nil s)
      | cons m ms =>
          rw [hs] at h ih
          have hl : l = c :: m := by simpa [eq_comm] using h
          rw [hl]
          exact List.cons_prefix_cons.mpr ⟨rfl, ih rfl⟩

/-- The next section begins with its heading. -/
theorem signs_prefix_after (h : SymptomAt host before head eol text after) (hne : after ≠ []) :
    "##".toList <+: after ∧ (text = [] ∨ text.getLast? = some '\n') := by
  obtain ⟨htext, k, hk⟩ := h.ends.resolve_left hne
  refine ⟨?_, htext⟩
  cases hal : (splitLines after).head? with
  | none =>
      rw [hal] at hk
      cases hk
  | some l =>
      rw [hal] at hk
      have hl : headingOf l = some k := hk
      have hsigns : "##".toList <+: l := by
        unfold headingOf at hl
        split at hl
        · exact ⟨_, rfl⟩
        · cases hl
      exact hsigns.trans (prefix_of_head_splitLines hal)

theorem symptomEnd_append {lead : Units} (h : ∀ u ∈ lead, isSpaceUnit u = true ∧ u ≠ unitOf '\n')
    (s : Units) : symptomEnd (lead ++ s) = lead ++ symptomEnd s := by
  induction lead with
  | nil => rfl
  | cons u lead ih =>
      have hu := (h u List.mem_cons_self).2
      have hno : ¬ ((units "\n##").isPrefixOf (u :: (lead ++ s)) ||
          (u :: (lead ++ s)).all (· = unitOf '\n')) = true := by
        rw [show units "\n##" = unitOf '\n' :: units "##" from rfl, List.isPrefixOf]
        simp [hu, hu.symm]
      rw [List.cons_append, symptomEnd, if_neg hno, ih fun v hv => h v (List.mem_cons_of_mem _ hv)]
      rfl

/-- What the pattern takes of the body, trimmed. -/
theorem symptomSection_bodyOf (h : SymptomAt host before head eol text after)
    (hfirst : FirstMatch before head eol text after) :
    (symptomSection (unitsOf (bodyOf before head eol text after))).map trimUnits =
      some (unitsOf (trim (sectionEnd ((text ++ after).dropWhile isSpace)))) := by
  have heol : (∀ c ∈ eol, isSpace c = true) ∧ '\n' ∈ eol := by
    rcases h.eol with rfl | rfl
    · exact ⟨List.all_eq_true.mp rfl, by decide⟩
    · exact ⟨List.all_eq_true.mp rfl, by decide⟩
  obtain ⟨lead, hlead, hstart⟩ := symptomStart_heading h.heading heol.1 heol.2 (text ++ after)
  obtain ⟨c, a, b, hline, _⟩ := headingOf_cases h.heading (by decide)
  obtain ⟨u, us, hunits⟩ : ∃ u us, unitsOf (head ++ eol ++ (text ++ after)) = u :: us := by
    rw [hline]
    exact ⟨unitOf '#', _, rfl⟩
  have hend : symptomSection (unitsOf (head ++ eol ++ (text ++ after))) =
      some (lead ++ unitsOf (sectionEnd ((text ++ after).dropWhile isSpace))) := by
    rw [hunits, symptomSection, ← hunits, hstart, Option.map_some, symptomEnd_append hlead,
      symptomEnd_unitsOf]
    rfl
  rw [bodyOf, symptomSection_append hfirst, hend, Option.map_some, trimUnits,
    List.dropWhile_append_of_pos fun u hu => (hlead u hu).1, ← trimUnits, trimUnits_unitsOf]

theorem trim_eq_nil {t : Text} (h : trim t = []) : ∀ c ∈ t, isSpace c = true := by
  obtain ⟨a, b, ht, ha, hb⟩ := exists_trim t
  rw [h, List.nil_append] at ht
  intro c hc
  rw [ht] at hc
  rcases List.mem_append.mp hc with hc | hc
  · exact ha c hc
  · exact hb c hc

/-- A blank section before another: the pattern takes the other one's heading. -/
theorem trim_sectionEnd_blank (h : SymptomAt host before head eol text after)
    (hblank : trim text = []) (hne : after ≠ []) :
    trim (sectionEnd ((text ++ after).dropWhile isSpace)) ≠ [] := by
  obtain ⟨r, hr⟩ := (signs_prefix_after h hne).1
  have hdrop : (text ++ after).dropWhile isSpace = '#' :: '#' :: r := by
    rw [List.dropWhile_append_of_pos (trim_eq_nil hblank), ← hr]
    rfl
  intro hnil
  have hall := trim_eq_nil hnil
  rw [hdrop, sectionEnd, if_neg (by simp [List.isPrefixOf])] at hall
  exact absurd (hall '#' List.mem_cons_self) (by decide)

/-- Of a section with a text the pattern takes what is shown. -/
theorem trim_sectionEnd (h : SymptomAt host before head eol text after)
    (hfilled : trim text = [] → after = []) :
    trim (sectionEnd ((text ++ after).dropWhile isSpace)) = shownText text := by
  cases hT : trim text with
  | nil =>
      have hdrop : text.dropWhile isSpace = [] := List.dropWhile_eq_nil_iff.mpr (trim_eq_nil hT)
      rw [hfilled hT, List.append_nil, hdrop, shownText, hT]
      rfl
  | cons c s =>
      obtain ⟨b, hb, hspace⟩ := exists_trimEnd_append (trimStart text)
      rw [show trimEnd (trimStart text) = c :: s from hT] at hb
      have hlast : ∀ d, (c :: s).getLast? = some d → isSpace d = false :=
        fun d hd => getLast?_trim (by rw [hT]; exact hd)
      have hdrop : (text ++ after).dropWhile isSpace = c :: s ++ (b ++ after) := by
        have hstart : text.dropWhile isSpace = c :: s ++ b := hb
        rw [List.dropWhile_append, hstart, if_neg (by simp), List.append_assoc]
      have hafter : after = [] ∨ b.getLast? = some '\n' ∧ "##".toList <+: after := by
        by_cases hne : after = []
        · exact .inl hne
        · obtain ⟨hsigns, htext⟩ := signs_prefix_after h hne
          refine .inr ⟨?_, hsigns⟩
          rcases htext with rfl | htext
          · exact absurd hT.symm (List.cons_ne_nil c s)
          · -- the last line break of the section is behind its trimmed text
            have htext' : text = text.takeWhile isSpace ++ (c :: s ++ b) := by
              rw [← hb, trimStart, List.takeWhile_append_dropWhile]
            rw [htext', List.getLast?_append_of_ne_nil _ (by simp), List.getLast?_append] at htext
            cases hbl : b.getLast? with
            | none =>
                rw [hbl, Option.none_or] at htext
                exact absurd (hlast '\n' htext) (by decide)
            | some d =>
                rw [hbl, Option.some_or] at htext
                exact htext
      have hhead : (b ++ after).head? ≠ some '#' := by
        cases b with
        | nil =>
            rcases hafter with rfl | ⟨hn, _⟩
            · simp
            · exact absurd hn (by simp)
        | cons d b =>
            intro hd
            have hd' : d = '#' := by simpa using hd
            have := hspace d List.mem_cons_self
            rw [hd'] at this
            exact absurd this (by decide)
      obtain ⟨hin, hout⟩ := sectionEnd_append hlast hhead
      rw [hdrop, shownText, hT]
      by_cases hbreak : "\n##".toList <:+: c :: s
      · have hc : isSpace c = false := head?_trim (by rw [hT]; rfl)
        have hcut : ∃ r, (cutAt "\n##".toList (c :: s)).1 = c :: r := by
          have hpre : ¬ "\n##".toList.isPrefixOf (c :: s) = true := by
            intro hpre
            obtain ⟨t, ht⟩ := List.isPrefixOf_iff_prefix.mp hpre
            rw [← (List.cons.inj (show '\n' :: _ = c :: s from ht)).1] at hc
            exact absurd hc (by decide)
          rw [cutAt, if_neg hpre]
          exact ⟨_, rfl⟩
        obtain ⟨r, hr⟩ := hcut
        rw [hin hbreak, hr, trim, trimStart, List.dropWhile_cons_of_neg (by simp [hc])]
      · obtain ⟨hend, hcut⟩ := hout hbreak
        rw [hend, hcut, trim_append_of_isSpace _ (isSpace_of_mem_sectionEnd hspace hafter), ← hT,
          trim_trim]
        exact (trimEnd_trimEnd (trimStart text)).symm

/-! ## Agreement -/

theorem cutAt_spec (pattern s : Text) :
    (pattern <:+: s → s = (cutAt pattern s).1 ++ (pattern ++ (cutAt pattern s).2)) ∧
      (¬ pattern <:+: s → (cutAt pattern s).1 = s) := by
  induction s with
  | nil =>
      refine ⟨fun h => ?_, fun _ => rfl⟩
      rw [List.infix_nil.mp h]
      rfl
  | cons c s ih =>
      rw [List.infix_cons_iff, ← List.isPrefixOf_iff_prefix, cutAt]
      by_cases hpre : pattern.isPrefixOf (c :: s) = true
      · rw [if_pos hpre]
        refine ⟨fun _ => ?_, fun h => absurd (.inl hpre) h⟩
        obtain ⟨t, ht⟩ := List.isPrefixOf_iff_prefix.mp hpre
        rw [← ht, List.drop_left]
        rfl
      · rw [if_neg hpre]
        constructor
        · intro h
          exact congrArg (c :: ·) (ih.1 (h.resolve_left hpre))
        · intro h
          exact congrArg (c :: ·) (ih.2 fun hs => h (.inr hs))

/-- Cut before a line with `##`, a text is shorter by more than white space. -/
theorem ink_shownText_lt {text : Text} (h : "\n##".toList <:+: trim text) :
    ink (shownText text) < ink (trim text) := by
  have hcut := congrArg ink ((cutAt_spec _ _).1 h)
  rw [ink_append, ink_append] at hcut
  obtain ⟨u, hu, hspace⟩ := exists_trimEnd_append (cutAt "\n##".toList (trim text)).1
  have hend := congrArg ink hu
  rw [ink_append, ink_of_isSpace hspace] at hend
  have hsigns : ink "\n##".toList = 2 := by decide
  rw [shownText]
  omega

theorem shownText_eq {text : Text} (h : ¬ "\n##".toList <:+: trim text) :
    shownText text = trim text := by
  rw [shownText, (cutAt_spec _ _).2 h]
  exact trimEnd_trimEnd (trimStart text)

theorem shownText_prefix (text : Text) : shownText text <+: trim text := by
  by_cases h : "\n##".toList <:+: trim text
  · refine (List.rdropWhile_prefix _ _).trans ?_
    exact ⟨_, ((cutAt_spec _ _).1 h).symm⟩
  · rw [shownText_eq h]

/-- Of a section whose text is shown, the excerpt agrees with the index where it is not cut and has
no break of two characters. -/
theorem take_shownText_iff (text : Text) (n : Nat) :
    (unitsOf (dropReturns '\r' '\n' (trim text))).take n = (unitsOf (shownText text)).take n ↔
      (¬ "\n##".toList <:+: trim text ∨ n ≤ (unitsOf (shownText text)).length) ∧
        ¬ units "\r\n" <:+: (unitsOf (trim text)).take (n + 1) := by
  have hbreaks := take_dropReturns (show unitOf '\r' ≠ unitOf '\n' by decide)
    (unitsOf (trim text)) n
  rw [← unitsOf_dropReturns, show [unitOf '\r', unitOf '\n'] = units "\r\n" from rfl] at hbreaks
  have hlong : (¬ "\n##".toList <:+: trim text ∨ n ≤ (unitsOf (shownText text)).length) →
      (unitsOf (shownText text)).take n = (unitsOf (trim text)).take n := by
    rintro (hno | hlen)
    · rw [shownText_eq hno]
    · obtain ⟨r, hr⟩ := shownText_prefix text
      rw [← hr, unitsOf_append, List.take_append_of_le_length hlen]
  constructor
  · intro hsame
    have huncut : ¬ "\n##".toList <:+: trim text ∨ n ≤ (unitsOf (shownText text)).length := by
      by_contra hcut
      rw [not_or, not_not, Nat.not_le] at hcut
      -- a shorter excerpt would be the whole indexed text, which has the ink of the rest as well
      rw [List.take_of_length_le (Nat.le_of_lt hcut.2)] at hsame
      have hall : unitsOf (dropReturns '\r' '\n' (trim text)) = unitsOf (shownText text) := by
        have hlen := congrArg List.length hsame
        rw [List.length_take] at hlen
        rwa [List.take_of_length_le (by omega)] at hsame
      have hink := congrArg ink (unitsOf_inj hall)
      rw [← joinLines_splitLines_eq, ink_joinLines, ink_splitLines] at hink
      have hlt := ink_shownText_lt hcut.1
      omega
    refine ⟨huncut, hbreaks.mp ?_⟩
    rw [hsame, hlong huncut]
  · rintro ⟨huncut, hno⟩
    rw [hlong huncut]
    exact hbreaks.mpr hno

/-- **The excerpt agrees with the index when it shows the whole of what it has room for**, and
only then, where the pattern first matches at the heading of the indexed section. -/
theorem excerpt_agrees_iff {row : EntryRow} {title tags frontmatterJson : JsValue}
    (hlower : LowersAscii host) (h : SymptomAt host before head eol text after)
    (hfirst : FirstMatch before head eol text after)
    (hbody : row.body = unitsOf (bodyOf before head eol text after))
    (hsymptom : row.symptomText = some (unitsOf (deriveRoleTexts host title
      (bodyOf before head eol text after) tags frontmatterJson).symptom)) :
    row.symptomText.map (List.take symptomExcerptLength) =
        some (toSearchResult row).symptomExcerpt ↔
      ShownWhole text after := by
  have hindex : row.symptomText = some (unitsOf (dropReturns '\r' '\n' (trim text))) := by
    rw [hsymptom, deriveRoleTexts_symptom hlower h, joinLines_splitLines_eq, trim_dropReturns]
  have hexcerpt : (toSearchResult row).symptomExcerpt = (unitsOf (trim (sectionEnd
      ((text ++ after).dropWhile isSpace)))).take symptomExcerptLength := by
    rw [toSearchResult, hbody, symptomSection_bodyOf h hfirst]
    rfl
  rw [hindex, hexcerpt, Option.map_some, Option.some_inj]
  by_cases hfilled : trim text = [] → after = []
  · rw [trim_sectionEnd h hfilled, take_shownText_iff]
    exact ⟨fun hs => ⟨hfilled, hs.1, hs.2⟩, fun hs => ⟨hs.uncut, hs.breaks⟩⟩
  · refine ⟨fun hs => absurd hs ?_, fun hs => absurd hs.filled hfilled⟩
    rw [Classical.not_imp] at hfilled
    have hne := trim_sectionEnd_blank h hfilled.1 hfilled.2
    rw [hfilled.1]
    intro hs
    have hnil := List.take_eq_nil_iff.mp hs.symm
    exact hne (unitsOf_inj (hnil.resolve_left (by decide)))

/-! ## Two rows -/

theorem flat_lowersAscii : LowersAscii flatHost where
  symptom := by decide
  digits t ht := by
    have hself : ∀ c ∈ t, c.toLower = id c := by
      intro c hc
      have hdigit := ht c hc
      rw [Char.isDigit, Bool.and_eq_true, decide_eq_true_eq, decide_eq_true_eq] at hdigit
      have h9 := UInt32.le_iff_toNat_le.mp hdigit.2
      refine dif_neg ?_
      rintro ⟨hA, _⟩
      have hA' := UInt32.le_iff_toNat_le.mp hA
      rw [show 'A'.val.toNat = 65 from rfl] at hA'
      rw [show '9'.val.toNat = 57 from rfl] at h9
      omega
    exact (List.map_congr_left hself).trans (List.map_id t)

/-- The row of a body, with the symptom text that the index derives. -/
def derivedRow (body : Text) : EntryRow where
  rowid := 1
  id := units "a"
  source := units "own"
  title := units "t"
  body := unitsOf body
  frontmatter := .object []
  confidence := units "tentative"
  visibility := none
  topicalText := none
  symptomText := some (unitsOf
    (deriveRoleTexts flatHost (.string "t".toList) body (.array []) (.object [])).symptom)

/-- A body as a scan reads it: the excerpt is the symptom text. -/
theorem excerpt_agrees_iff_scanned :
    (derivedRow "\n## Symptom\n\nHangs.\n\n## Cause\n\nx\n".toList).symptomText.map
        (List.take symptomExcerptLength) =
      some (toSearchResult
        (derivedRow "\n## Symptom\n\nHangs.\n\n## Cause\n\nx\n".toList)).symptomExcerpt := by
  have hparts : "\n## Symptom\n\nHangs.\n\n## Cause\n\nx\n".toList =
      bodyOf "\n".toList "## Symptom".toList "\n".toList "\nHangs.\n\n".toList
        "## Cause\n\nx\n".toList := by decide
  rw [hparts]
  refine (excerpt_agrees_iff flat_lowersAscii
    { start := .inr rfl, heading := by decide, line := by decide, eol := .inl rfl
      inside := by decide, ends := .inr ⟨.inr rfl, _, rfl⟩, first := by decide
      last := by decide } ?_ rfl rfl).mpr
    { filled := by decide, uncut := by decide, breaks := by decide }
  intro y hy hne
  obtain rfl : y = "\n".toList := by
    rcases List.suffix_cons_iff.mp hy with rfl | hy
    · rfl
    · exact absurd (List.suffix_nil.mp hy) hne
  decide

/-- A heading in lower case is one to the index, but not to the pattern. -/
theorem lower_case_heading_disagrees :
    ¬ ∀ (host : Host) (row : EntryRow) (title tags frontmatterJson : JsValue) (body : Text),
      LowersAscii host → row.body = unitsOf body →
      (∃ f ∈ extractSections body, NamesSymptom host f.1) →
      row.symptomText =
        some (unitsOf (deriveRoleTexts host title body tags frontmatterJson).symptom) →
      row.symptomText.map (List.take symptomExcerptLength) =
        some (toSearchResult row).symptomExcerpt := by
  intro h
  have hsame := h flatHost (derivedRow "## symptom\n\nx".toList) (.string "t".toList) (.array [])
    (.object []) "## symptom\n\nx".toList flat_lowersAscii rfl
    ⟨("symptom".toList, "x".toList), by decide, by decide⟩ rfl
  exact absurd hsame (by decide)

end Caveat.Hooks
