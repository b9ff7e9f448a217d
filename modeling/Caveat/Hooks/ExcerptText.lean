import Caveat.Entry.SectionLaw
import Caveat.Hooks.Retrieval
import Caveat.Publish.Plaintext

/-!
# The symptom of a body, as the regular expression takes it

The pattern reads code units. On a body that is text every part of it is plain ASCII or white
space, so it begins and ends between characters, and what it takes is again text: what follows
the heading, up to the first `\n##` or to the line breaks at the end.
-/

namespace Caveat.Hooks

open Js Entry
open Publish (isSpaceUnit isSpaceUnit_of_mem_charUnits isSpaceUnit_of_mem_unitsOf unitsOf_append
  trimEndUnits_unitsOf)

/-! ## Characters and their units -/

theorem charUnits_small {c : Char} (h : c.toNat < 0xd800) : charUnits c = [unitOf c] := by
  rw [charUnits, if_pos (by omega)]
  rfl

theorem unitsOf_cons (c : Char) (t : Text) : unitsOf (c :: t) = charUnits c ++ unitsOf t := rfl

theorem toNat_unit {n : Nat} (h : n < 0x10000) : (UInt16.ofNat n).toNat = n :=
  UInt16.toNat_ofNat_of_lt h

/-- The units of a character: one, or two of which none is a plain character. -/
theorem charUnits_cases (d : Char) : (d.toNat < 0x10000 ∧ charUnits d = [unitOf d]) ∨
    ∃ high low, charUnits d = [high, low] ∧ ∀ c : Char, c.toNat < 0xd800 →
      high ≠ unitOf c ∧ low ≠ unitOf c := by
  have hvalid : d.toNat < 0xd800 ∨ 0xdfff < d.toNat ∧ d.toNat < 0x110000 := d.valid
  by_cases hsmall : d.toNat < 0x10000
  · refine .inl ⟨hsmall, ?_⟩
    rw [charUnits, if_pos hsmall]
    rfl
  · refine .inr ⟨_, _, by rw [charUnits, if_neg hsmall], fun c hc => ?_⟩
    have hu : (unitOf c).toNat = c.toNat := toNat_unit (by omega)
    constructor
    · intro he
      have hnat := congrArg UInt16.toNat he
      rw [hu, toNat_unit (by omega)] at hnat
      omega
    · intro he
      have hnat := congrArg UInt16.toNat he
      rw [hu, toNat_unit (by omega)] at hnat
      omega

theorem unitOf_inj {c d : Char} (hc : c.toNat < 0x10000) (hd : d.toNat < 0x10000) :
    unitOf c = unitOf d ↔ c = d := by
  constructor
  · intro h
    have hnat := congrArg UInt16.toNat h
    rw [unitOf, unitOf, toNat_unit hc, toNat_unit hd] at hnat
    exact Char.toNat_inj.mp hnat
  · rintro rfl
    rfl

/-- A plain pattern begins the units of a text when it begins the text. -/
theorem prefix_unitsOf {p : Text} (hp : ∀ c ∈ p, c.toNat < 0xd800) (t : Text) :
    unitsOf p <+: unitsOf t ↔ p <+: t := by
  induction p generalizing t with
  | nil => exact ⟨fun _ => List.nil_prefix, fun _ => List.nil_prefix⟩
  | cons c p ih =>
      have hc := charUnits_small (hp c List.mem_cons_self)
      have hp' : ∀ d ∈ p, d.toNat < 0xd800 := fun d hd => hp d (List.mem_cons_of_mem _ hd)
      rw [unitsOf_cons, hc]
      cases t with
      | nil => simp [unitsOf]
      | cons d t =>
          constructor
          · rintro ⟨r, hr⟩
            have hd : d = c := by
              rcases charUnits_cases d with ⟨_, hone⟩ | ⟨high, low, htwo, hne⟩
              · rw [unitsOf_cons, hone] at hr
                have hplain := hp c List.mem_cons_self
                exact ((unitOf_inj (by omega) (by assumption)).mp (List.cons.inj hr).1).symm
              · rw [unitsOf_cons, htwo] at hr
                exact absurd (List.cons.inj hr).1.symm (hne c (hp c List.mem_cons_self)).1
            rw [hd, unitsOf_cons, hc] at hr
            have htail : unitsOf p <+: unitsOf t := ⟨r, (List.cons.inj hr).2⟩
            rw [hd]
            exact List.cons_prefix_cons.mpr ⟨rfl, (ih hp' t).mp htail⟩
          · intro h
            obtain ⟨rfl, ht⟩ := List.cons_prefix_cons.mp h
            rw [unitsOf_cons, hc]
            exact List.cons_prefix_cons.mpr ⟨rfl, (ih hp' t).mpr ht⟩

theorem takeWhile_unitsOf (t : Text) :
    (unitsOf t).takeWhile isSpaceUnit = unitsOf (t.takeWhile isSpace) ∧
      (unitsOf t).dropWhile isSpaceUnit = unitsOf (t.dropWhile isSpace) := by
  induction t with
  | nil => exact ⟨rfl, rfl⟩
  | cons c t ih =>
      rw [unitsOf_cons]
      by_cases hc : isSpace c = true
      · have hunits : ∀ u ∈ charUnits c, isSpaceUnit u = true :=
          fun u hu => (isSpaceUnit_of_mem_charUnits hu).trans hc
        rw [List.takeWhile_append_of_pos hunits, List.dropWhile_append_of_pos hunits,
          List.takeWhile_cons_of_pos hc, List.dropWhile_cons_of_pos hc, ih.1, ih.2]
        exact ⟨rfl, rfl⟩
      · cases hu : charUnits c with
        | nil =>
            have hempty : [c] = [] := unitsOf_inj (by simp [unitsOf, hu])
            exact absurd hempty (by simp)
        | cons u us =>
            have hsolid : ¬ isSpaceUnit u = true := by
              rw [isSpaceUnit_of_mem_charUnits (c := c) (by rw [hu]; exact List.mem_cons_self)]
              exact hc
            rw [List.cons_append, List.takeWhile_cons_of_neg hsolid,
              List.dropWhile_cons_of_neg hsolid, List.takeWhile_cons_of_neg hc,
              List.dropWhile_cons_of_neg hc, unitsOf_cons, hu]
            exact ⟨rfl, rfl⟩

theorem trimUnits_unitsOf (t : Text) : trimUnits (unitsOf t) = unitsOf (trim t) := by
  rw [trimUnits, (takeWhile_unitsOf t).2]
  exact trimEndUnits_unitsOf _

/-! ## Where the symptom ends -/

/-- `symptomEnd` of a text. -/
def sectionEnd : Text → Text
  | [] => []
  | c :: s =>
      if "\n##".toList.isPrefixOf (c :: s) || (c :: s).all (· = '\n') then []
      else c :: sectionEnd s

theorem isPrefixOf_break (t : Text) :
    (units "\n##").isPrefixOf (unitsOf t) = "\n##".toList.isPrefixOf t := by
  rw [Bool.eq_iff_iff, List.isPrefixOf_iff_prefix, List.isPrefixOf_iff_prefix]
  refine prefix_unitsOf (fun c hc => ?_) t
  obtain rfl | rfl : c = '\n' ∨ c = '#' := by simpa using hc
  · decide
  · decide

theorem all_newline_unitsOf (t : Text) :
    (unitsOf t).all (· = unitOf '\n') = t.all (· = '\n') := by
  induction t with
  | nil => rfl
  | cons c t ih =>
      rw [unitsOf_cons, List.all_append, ih, List.all_cons]
      congr 1
      rcases charUnits_cases c with ⟨hsmall, hone⟩ | ⟨high, low, htwo, hne⟩
      · rw [hone]
        simp [unitOf_inj hsmall (show '\n'.toNat < 0x10000 by decide)]
      · have hc : c ≠ '\n' := by
          rintro rfl
          rw [charUnits_small (by decide)] at htwo
          simp at htwo
        rw [htwo]
        simp [hne '\n' (by decide), hc]

theorem symptomEnd_unitsOf (t : Text) : symptomEnd (unitsOf t) = unitsOf (sectionEnd t) := by
  induction t with
  | nil => rfl
  | cons c t ih =>
      have hpre := isPrefixOf_break (c :: t)
      have hall := all_newline_unitsOf (c :: t)
      rw [sectionEnd, ← hpre, ← hall, unitsOf_cons]
      rcases charUnits_cases c with ⟨_, hone⟩ | ⟨high, low, htwo, hne⟩
      · rw [hone, List.singleton_append, symptomEnd]
        split
        · rfl
        · rw [ih, unitsOf_cons, hone]
          rfl
      · -- neither surrogate begins the end
        have hstep : ∀ (u : UInt16) (s : Units), u ≠ unitOf '\n' → symptomEnd (u :: s) =
            u :: symptomEnd s := by
          intro u s hu
          have hno : ¬ ((units "\n##").isPrefixOf (u :: s) ||
              (u :: s).all (· = unitOf '\n')) = true := by
            rw [show units "\n##" = unitOf '\n' :: units "##" from rfl, List.isPrefixOf]
            simp [hu, hu.symm]
          rw [symptomEnd, if_neg hno]
        have hnewline := hne '\n' (by decide)
        have hno : ¬ ((units "\n##").isPrefixOf (high :: low :: unitsOf t) ||
            (high :: low :: unitsOf t).all (· = unitOf '\n')) = true := by
          rw [show units "\n##" = unitOf '\n' :: units "##" from rfl, List.isPrefixOf]
          simp [hnewline.1, hnewline.1.symm]
        rw [htwo, List.cons_append, List.cons_append, List.nil_append, if_neg hno,
          hstep _ _ hnewline.1, hstep _ _ hnewline.2, ih, unitsOf_cons, htwo]
        rfl

/-- White space behind the text of a section, up to the next heading or the end. -/
theorem isSpace_of_mem_sectionEnd {w after : Text} (hw : ∀ c ∈ w, isSpace c = true)
    (hafter : after = [] ∨ w.getLast? = some '\n' ∧ "##".toList <+: after) :
    ∀ c ∈ sectionEnd (w ++ after), isSpace c = true := by
  induction w with
  | nil =>
      rcases hafter with rfl | ⟨hlast, _⟩
      · simp [sectionEnd]
      · exact absurd hlast (by simp)
  | cons d w ih =>
      have hrest : after = [] ∨ w.getLast? = some '\n' ∧ "##".toList <+: after ∨
          w = [] ∧ d = '\n' ∧ "##".toList <+: after := by
        rcases hafter with h | ⟨hlast, hpre⟩
        · exact .inl h
        · cases w with
          | nil => exact .inr (.inr ⟨rfl, by simpa using hlast, hpre⟩)
          | cons e w => exact .inr (.inl ⟨hlast, hpre⟩)
      rw [List.cons_append, sectionEnd]
      split
      · simp
      · rename_i hno
        have htail : ∀ c ∈ sectionEnd (w ++ after), isSpace c = true := by
          rcases hrest with h | h | ⟨rfl, rfl, r, hr⟩
          · exact ih (fun c hc => hw c (List.mem_cons_of_mem _ hc)) (.inl h)
          · exact ih (fun c hc => hw c (List.mem_cons_of_mem _ hc)) (.inr h)
          · -- the break before the next heading is where the section ended
            refine absurd ?_ hno
            rw [← hr]
            rfl
        intro c hc
        rcases List.mem_cons.mp hc with rfl | hc
        · exact hw c List.mem_cons_self
        · exact htail c hc

/-- A text that does not end with white space is taken up to the first `\n##` in it, or as a whole
with what is taken of the rest. -/
theorem sectionEnd_append {t : Text} (ht : ∀ c, t.getLast? = some c → isSpace c = false)
    {rest : Text} (hrest : rest.head? ≠ some '#') :
    ("\n##".toList <:+: t → sectionEnd (t ++ rest) = (cutAt "\n##".toList t).1) ∧
      (¬ "\n##".toList <:+: t → sectionEnd (t ++ rest) = t ++ sectionEnd rest ∧
        (cutAt "\n##".toList t).1 = t) := by
  induction t with
  | nil => exact ⟨fun h => absurd h (by decide), fun _ => ⟨rfl, rfl⟩⟩
  | cons c t ih =>
      have htail : ∀ d, t.getLast? = some d → isSpace d = false := by
        intro d hd
        refine ht d ?_
        rw [List.getLast?_cons, hd]
        rfl
      obtain ⟨hin, hout⟩ := ih htail
      have hblank : (c :: (t ++ rest)).all (· = '\n') = false := by
        obtain ⟨d, hd⟩ : ∃ d, (c :: t).getLast? = some d := by
          rw [List.getLast?_cons]
          exact ⟨_, rfl⟩
        rw [List.all_eq_false]
        refine ⟨d, ?_, fun hnl => ?_⟩
        · rw [← List.cons_append]
          exact List.mem_append_left _ (List.mem_of_getLast? hd)
        · have hspace := ht d hd
          rw [of_decide_eq_true hnl] at hspace
          exact absurd hspace (by decide)
      -- no occurrence goes over the end of the text
      have hpre : "\n##".toList.isPrefixOf (c :: (t ++ rest)) =
          "\n##".toList.isPrefixOf (c :: t) := by
        cases t with
        | nil =>
            have hc : c ≠ '\n' := by
              rintro rfl
              exact absurd (ht '\n' rfl) (by decide)
            simp [List.isPrefixOf, hc.symm]
        | cons d t =>
            cases t with
            | nil =>
                have hend : "#".toList.isPrefixOf rest = false := by
                  cases rest with
                  | nil => rfl
                  | cons e rest =>
                      have he : '#' ≠ e := fun he => hrest (by rw [← he]; rfl)
                      simp [List.isPrefixOf, he]
                have hend' : ['#'].isPrefixOf rest = false := hend
                simp [List.isPrefixOf, hend']
            | cons e t => simp [List.isPrefixOf]
      rw [List.cons_append, sectionEnd, cutAt, hpre, hblank, Bool.or_false, List.infix_cons_iff,
        ← List.isPrefixOf_iff_prefix]
      by_cases hp : "\n##".toList.isPrefixOf (c :: t) = true
      · rw [if_pos hp, if_pos hp]
        exact ⟨fun _ => rfl, fun h => absurd (.inl hp) h⟩
      · rw [if_neg hp, if_neg hp]
        constructor
        · intro h
          rw [hin (h.resolve_left hp)]
          rfl
        · intro h
          obtain ⟨hend, hcut⟩ := hout fun ht => h (.inr ht)
          rw [hend]
          exact ⟨rfl, congrArg (c :: ·) hcut⟩

/-! ## Where the symptom begins -/

/-- A heading line is its heading between white space, behind the two signs. -/
theorem headingOf_cases {line h : Text} (hh : headingOf line = some h) (hne : h ≠ []) :
    ∃ c a b, line = '#' :: '#' :: c :: (a ++ h ++ b) ∧ (∀ d ∈ c :: a, isSpace d = true) ∧
      ∀ d ∈ b, isSpace d = true := by
  unfold headingOf at hh
  split at hh
  · rename_i c rest
    by_cases hc : isSpace c = true
    · simp only [hc, Bool.not_true, Bool.false_eq_true, if_false] at hh
      have htrim : trim rest = h := by
        split at hh
        · split at hh
          · exact absurd (Option.some.inj hh).symm hne
          · cases hh
        · split at hh
          · cases hh
          · exact Option.some.inj hh
      obtain ⟨b, hb, hspace⟩ := exists_trimEnd_append (trimStart rest)
      refine ⟨c, rest.takeWhile isSpace, b, ?_, ?_, hspace⟩
      · rw [List.append_assoc, ← htrim, trim, ← hb, trimStart, List.takeWhile_append_dropWhile]
      · intro d hd
        rcases List.mem_cons.mp hd with rfl | hd
        · exact hc
        · exact List.mem_takeWhile_imp hd
    · simp [hc] at hh
  · cases hh

theorem after_unitsOf (p t : Text) : after (unitsOf p) (unitsOf (p ++ t)) = some (unitsOf t) := by
  rw [after, unitsOf_append, if_pos (List.isPrefixOf_iff_prefix.mpr ⟨_, rfl⟩), List.drop_left]

/-- Behind its heading a section begins after the last line break of the white space there. -/
theorem symptomStart_heading {head eol : Text} (hh : headingOf head = some "Symptom".toList)
    (heol : ∀ c ∈ eol, isSpace c = true) (hnl : '\n' ∈ eol) (rest : Text) : ∃ lead : Units,
      (∀ u ∈ lead, isSpaceUnit u = true ∧ u ≠ unitOf '\n') ∧
        symptomStart (unitsOf (head ++ eol ++ rest)) =
          some (lead ++ unitsOf (rest.dropWhile isSpace)) := by
  obtain ⟨c, a, b, hline, ha, hb⟩ := headingOf_cases hh (by decide)
  have hspace : ∀ d ∈ b ++ eol, isSpace d = true := by
    intro d hd
    rcases List.mem_append.mp hd with h | h
    · exact hb d h
    · exact heol d h
  have hopen : unitsOf (head ++ eol ++ rest) = unitsOf ("##".toList ++
      (c :: a ++ ("Symptom".toList ++ (b ++ eol ++ rest)))) := by rw [hline]; simp
  have htake := takeWhile_unitsOf (c :: a ++ ("Symptom".toList ++ (b ++ eol ++ rest)))
  rw [List.takeWhile_append_of_pos ha, List.dropWhile_append_of_pos ha] at htake
  have hname : ("Symptom".toList ++ (b ++ eol ++ rest)).takeWhile isSpace = [] ∧
      ("Symptom".toList ++ (b ++ eol ++ rest)).dropWhile isSpace =
        "Symptom".toList ++ (b ++ eol ++ rest) := ⟨rfl, rfl⟩
  rw [hname.1, hname.2, List.append_nil] at htake
  have hsome : takeSome isSpaceUnit (unitsOf (c :: a ++
      ("Symptom".toList ++ (b ++ eol ++ rest)))) =
      some (unitsOf (c :: a), unitsOf ("Symptom".toList ++ (b ++ eol ++ rest))) := by
    have hne : unitsOf (c :: a) ≠ [] := fun he => by
      have : c :: a = [] := unitsOf_inj he
      exact absurd this (by simp)
    rw [takeSome, htake.1, htake.2, if_neg hne]
  have hblank := takeWhile_unitsOf (b ++ eol ++ rest)
  rw [List.takeWhile_append_of_pos hspace, List.dropWhile_append_of_pos hspace] at hblank
  have hcontains : (unitsOf (b ++ eol ++ rest.takeWhile isSpace)).contains (unitOf '\n') = true := by
    rw [List.contains_iff_mem, unitsOf_append, unitsOf_append]
    refine List.mem_append_left _ (List.mem_append_right _ (List.mem_flatMap.mpr ⟨_, hnl, ?_⟩))
    rw [charUnits_small (by decide)]
    exact List.mem_singleton_self _
  refine ⟨((unitsOf (b ++ eol ++ rest.takeWhile isSpace)).reverse.takeWhile
    (· ≠ unitOf '\n')).reverse, ?_, ?_⟩
  · intro u hu
    have hmem := List.mem_reverse.mp hu
    have hin := List.mem_reverse.mp ((List.takeWhile_prefix _).subset hmem)
    refine ⟨?_, by simpa using List.mem_takeWhile_imp hmem⟩
    rw [← hblank.1] at hin
    exact List.mem_takeWhile_imp hin
  · rw [symptomStart, hopen, show units "##" = unitsOf "##".toList from rfl, after_unitsOf]
    simp only [Option.bind_eq_bind, Option.bind_some, hsome,
      show units "Symptom" = unitsOf "Symptom".toList from rfl, after_unitsOf, hblank.1, hblank.2,
      hcontains, if_true]

/-- The search goes on behind places where the symptom does not begin. -/
theorem symptomSection_append {before rest : Text}
    (h : ∀ y, y <:+ before → y ≠ [] → symptomStart (unitsOf (y ++ rest)) = none) :
    symptomSection (unitsOf (before ++ rest)) = symptomSection (unitsOf rest) := by
  induction before with
  | nil => rfl
  | cons c before ih =>
      have hhere := h (c :: before) List.suffix_rfl (by simp)
      have htail := ih fun y hy hne => h y (hy.trans (List.suffix_cons _ _)) hne
      rw [List.cons_append, unitsOf_cons] at hhere ⊢
      rcases charUnits_cases c with ⟨_, hone⟩ | ⟨high, low, htwo, hne⟩
      · rw [hone, List.singleton_append] at hhere ⊢
        rw [symptomSection, hhere, htail]
        rfl
      · have hlow : ∀ s, symptomStart (low :: s) = none := by
          intro s
          have hsign := (hne '#' (by decide)).2
          have hafter : after (units "##") (low :: s) = none := by
            rw [after, show units "##" = unitOf '#' :: units "#" from rfl, List.isPrefixOf]
            simp [hsign.symm]
          rw [symptomStart, hafter]
          rfl
        rw [htwo, List.cons_append, List.cons_append, List.nil_append] at hhere ⊢
        rw [symptomSection, hhere, symptomSection, hlow, htail]
        rfl

end Caveat.Hooks
