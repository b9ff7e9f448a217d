import Caveat.Hooks.ReminderProof

/-!
# The lines that read as hits

`reads` is what the pattern finds in the lines of a text. The lines of a reminder that are not of hits
are found nothing in, and what is kept of the hits is the first line with each reference.
-/

namespace Caveat.Hooks

open Js
open Publish (isSpaceUnit isDigitUnit)

/-! ## One line -/

theorem takeSome_append {p : UInt16 → Bool} {a b : Units} (hne : a ≠ []) (ha : ∀ u ∈ a, p u = true)
    (hb : b.head?.any p = false) : takeSome p (a ++ b) = some (a, b) := by
  have hstop : b.takeWhile p = [] ∧ b.dropWhile p = b := by
    cases b with
    | nil => exact ⟨rfl, rfl⟩
    | cons u b =>
        have hu : p u = false := hb
        simp [hu]
  rw [takeSome, List.takeWhile_append_of_pos ha, List.dropWhile_append_of_pos ha, hstop.1, hstop.2,
    List.append_nil, if_neg hne]

theorem takeSome_eq_some {p : UInt16 → Bool} {s a b : Units} (h : takeSome p s = some (a, b)) :
    a ≠ [] ∧ (∀ u ∈ a, p u = true) ∧ s = a ++ b := by
  rw [takeSome] at h
  split at h
  · exact absurd h (by simp)
  · rename_i hne
    obtain ⟨rfl, rfl⟩ := Prod.mk.inj (Option.some.inj h)
    exact ⟨hne, fun u hu => List.mem_takeWhile_imp hu, List.takeWhile_append_dropWhile.symm⟩

theorem takeSome_of_head {p : UInt16 → Bool} {s : Units} (h : s.head?.any p = false) :
    takeSome p s = none := by
  cases s with
  | nil => rfl
  | cons u s =>
      have hu : p u = false := h
      simp [takeSome, hu]

theorem after_append (part s : Units) : after part (part ++ s) = some s := by
  rw [after, if_pos (List.isPrefixOf_iff_prefix.mpr (List.prefix_append part s)),
    List.drop_left]

/-- What follows the number of a hit line. -/
def readNumbered (rest : Units) : Option Hit := do
  let (id, rest) ← takeSome (fun u => !isSpaceUnit u) rest
  let rest ← after (units " (") rest
  let (source, rest) ← takeSome (· ≠ unitOf ')') rest
  let rest ← after (units ") — ") rest
  let (title, rest) ← takeSome (fun u => !isLineEnd u) rest
  if rest = [] then some ⟨id, source, title⟩ else none

theorem charUnits_of_isDigit {c : Char} (h : c.isDigit = true) :
    charUnits c = [unitOf c] ∧ isDigitUnit (unitOf c) = true := by
  simp only [Char.isDigit, Bool.and_eq_true, decide_eq_true_eq, ge_iff_le] at h
  have h0 : 48 ≤ c.toNat := UInt32.le_iff_toNat_le.mp h.1
  have h9 : c.toNat ≤ 57 := UInt32.le_iff_toNat_le.mp h.2
  have hval : (UInt16.ofNat c.toNat).toNat = c.toNat := UInt16.toNat_ofNat_of_lt (by
    show c.toNat < 65536
    omega)
  refine ⟨?_, ?_⟩
  · rw [charUnits, if_pos (by omega)]
    rfl
  · show (decide _ && decide _) = true
    rw [unitOf, hval]
    simp only [Bool.and_eq_true, decide_eq_true_eq]
    exact ⟨h0, h9⟩

theorem digits_ofNat {n : Nat} {u : UInt16} (h : u ∈ unitsOf (ofNat n)) : isDigitUnit u = true := by
  obtain ⟨c, hc, hu⟩ := List.mem_flatMap.mp h
  obtain ⟨hunits, hdigit⟩ := charUnits_of_isDigit (isDigit_of_mem_ofNat hc)
  rw [hunits, List.mem_singleton] at hu
  rw [hu]
  exact hdigit

theorem units_ofNat_ne_nil (n : Nat) : unitsOf (ofNat n) ≠ [] := by
  cases hdigits : ofNat n with
  | nil => exact absurd hdigits (ofNat_ne_nil n)
  | cons c t =>
      have hdigit : c.isDigit = true :=
        isDigit_of_mem_ofNat (hdigits ▸ List.mem_cons_self)
      rw [unitsOf, List.flatMap_cons, (charUnits_of_isDigit hdigit).1]
      simp

theorem readHit_numbered (n : Nat) (rest : Units) :
    readHit (unitsOf (ofNat n) ++ (units ". " ++ rest)) = readNumbered rest := by
  have hnumber : takeSome isDigitUnit (unitsOf (ofNat n) ++ (units ". " ++ rest)) =
      some (unitsOf (ofNat n), units ". " ++ rest) := by
    refine takeSome_append (units_ofNat_ne_nil n) (fun u hu => digits_ofNat hu) ?_
    show isDigitUnit (unitOf '.') = false
    decide
  simp only [readHit, hnumber, Option.bind_eq_bind, Option.bind_some, after_append]
  rfl

/-- The number of a hit line says nothing. -/
theorem readHit_hitLine (n : Nat) (id source title : Units) :
    readHit (hitLine n id source title) =
      readNumbered (id ++ (units " (" ++ (source ++ (units ") — " ++ title)))) := by
  rw [hitLine]
  simp only [List.append_assoc]
  exact readHit_numbered n _

theorem readHit_of_head {line : Units} (h : line.head?.any isDigitUnit = false) :
    readHit line = none := by
  simp only [readHit, takeSome_of_head h, Option.bind_eq_bind, Option.bind_none]

/-- What is read has no white space in its id and no closing parenthesis in its source. -/
theorem readNumbered_fields {rest : Units} {h : Hit} (hread : readNumbered rest = some h) :
    h.id ≠ [] ∧ (∀ u ∈ h.id, isSpaceUnit u = false) ∧ unitOf ')' ∉ h.source := by
  simp only [readNumbered, Option.bind_eq_bind, Option.bind_eq_some_iff] at hread
  obtain ⟨⟨id, r1⟩, hid, r2, _, ⟨source, r3⟩, hsource, r4, _, ⟨title, r5⟩, _, hrest⟩ := hread
  dsimp only at hid hsource hrest
  split at hrest
  · obtain rfl := Option.some.inj hrest
    obtain ⟨hne, hspace, _⟩ := takeSome_eq_some hid
    obtain ⟨_, hparen, _⟩ := takeSome_eq_some hsource
    refine ⟨hne, fun u hu => by simpa using hspace u hu, fun hmem => ?_⟩
    simpa using hparen _ hmem
  · exact absurd hrest (by simp)

/-- An id without white space and a source without a closing parenthesis are read as they are. -/
theorem readNumbered_parts {id source title : Units} (hid : id ≠ [])
    (hspace : ∀ u ∈ id, isSpaceUnit u = false) (hsource : source ≠ [])
    (hparen : unitOf ')' ∉ source) (hline : ∀ u ∈ title, isLineEnd u = false) :
    readNumbered (id ++ (units " (" ++ (source ++ (units ") — " ++ title)))) =
      if title = [] then none else some ⟨id, source, title⟩ := by
  have hfirst : takeSome (fun u => !isSpaceUnit u)
      (id ++ (units " (" ++ (source ++ (units ") — " ++ title)))) =
        some (id, units " (" ++ (source ++ (units ") — " ++ title))) := by
    refine takeSome_append hid (fun u hu => by simpa using hspace u hu) ?_
    show (!isSpaceUnit (unitOf ' ')) = false
    decide +kernel
  have hsecond : takeSome (· ≠ unitOf ')') (source ++ (units ") — " ++ title)) =
      some (source, units ") — " ++ title) := by
    refine takeSome_append hsource (fun u hu => ?_) ?_
    · simp only [ne_eq, decide_not, Bool.not_eq_true', decide_eq_false_iff_not]
      rintro rfl
      exact hparen hu
    · show (decide (unitOf ')' ≠ unitOf ')')) = false
      decide
  simp only [readNumbered, hfirst, hsecond, Option.bind_eq_bind, Option.bind_some, after_append]
  by_cases htitle : title = []
  · rw [if_pos htitle, htitle]
    rfl
  · have hthird : takeSome (fun u => !isLineEnd u) (title ++ []) = some (title, []) :=
      takeSome_append htitle (fun u hu => by simpa using hline u hu) rfl
    rw [List.append_nil] at hthird
    rw [hthird, if_neg htitle]
    rfl

theorem readNumbered_no_id (rest : Units) : readNumbered (units " (" ++ rest) = none := by
  have hstop : takeSome (fun u => !isSpaceUnit u) (units " (" ++ rest) = none := by
    refine takeSome_of_head ?_
    show (!isSpaceUnit (unitOf ' ')) = false
    decide +kernel
  simp only [readNumbered, hstop, Option.bind_eq_bind, Option.bind_none]

theorem readNumbered_no_source {id : Units} (hid : id ≠ [])
    (hspace : ∀ u ∈ id, isSpaceUnit u = false) (title : Units) :
    readNumbered (id ++ (units " (" ++ (units ") — " ++ title))) = none := by
  have hfirst : takeSome (fun u => !isSpaceUnit u) (id ++ (units " (" ++ (units ") — " ++ title))) =
      some (id, units " (" ++ (units ") — " ++ title)) := by
    refine takeSome_append hid (fun u hu => by simpa using hspace u hu) ?_
    show (!isSpaceUnit (unitOf ' ')) = false
    decide +kernel
  have hstop : takeSome (· ≠ unitOf ')') (units ") — " ++ title) = none := by
    refine takeSome_of_head ?_
    show (decide (unitOf ')' ≠ unitOf ')')) = false
    decide
  simp only [readNumbered, hfirst, hstop, Option.bind_eq_bind, Option.bind_some, after_append,
    Option.bind_none]

/-! ## The lines of a text -/

def reads (text : Units) : List Hit := (text.splitOn (unitOf '\n')).filterMap readHit

theorem reads_append (a b : Units) : reads (a ++ unitOf '\n' :: b) = reads a ++ reads b := by
  rw [reads, List.splitOn_append_cons_self, List.filterMap_append]
  rfl

theorem joinUnits_cons (line : Units) (lines : List Units) :
    joinUnits (line :: lines) = line ++ lines.flatMap (unitOf '\n' :: ·) := by
  induction lines generalizing line with
  | nil => simp [joinUnits]
  | cons next lines ih =>
      have hnext := ih next
      rw [joinUnits] at hnext ⊢
      rw [List.intercalate_cons_cons, hnext, List.flatMap_cons]
      simp only [List.append_assoc, List.cons_append, List.nil_append]

theorem reads_joinUnits (lines : List Units) : reads (joinUnits lines) = lines.flatMap reads := by
  have hrest : ∀ (lines : List Units) (line : Units),
      reads (line ++ lines.flatMap (unitOf '\n' :: ·)) = reads line ++ lines.flatMap reads := by
    intro lines
    induction lines with
    | nil => simp
    | cons next lines ih =>
        intro line
        rw [List.flatMap_cons, List.cons_append, reads_append, ih, List.flatMap_cons]
  cases lines with
  | nil => rfl
  | cons line lines =>
      rw [joinUnits_cons, hrest, List.flatMap_cons]

theorem reads_of_line {line : Units} (h : unitOf '\n' ∉ line) :
    reads line = (readHit line).toList := by
  rw [reads, List.splitOn_eq_singleton h]
  cases hread : readHit line with
  | none => simp [hread]
  | some hit => simp [hread]

/-- A line that is not numbered. -/
structure Unnumbered (line : Units) : Prop where
  one : unitOf '\n' ∉ line
  head : line.head?.any isDigitUnit = false

instance (line : Units) : Decidable (Unnumbered line) :=
  decidable_of_iff (unitOf '\n' ∉ line ∧ line.head?.any isDigitUnit = false)
    ⟨fun h => ⟨h.1, h.2⟩, fun h => ⟨h.one, h.head⟩⟩

theorem Unnumbered.reads {line : Units} (h : Unnumbered line) : reads line = [] := by
  rw [reads_of_line h.one, readHit_of_head h.head]
  rfl

theorem Unnumbered.append {a b : Units} (ha : Unnumbered a) (hne : a ≠ []) (hb : unitOf '\n' ∉ b) :
    Unnumbered (a ++ b) := by
  refine ⟨fun hmem => ?_, ?_⟩
  · rcases List.mem_append.mp hmem with hmem | hmem
    · exact ha.one hmem
    · exact hb hmem
  · rw [List.head?_append_of_ne_nil _ hne]
    exact ha.head

/-! ### Fixed texts

A text of the source is looked at as its characters. -/

theorem mem_of_unitOf_mem {d : Char} (hd : d.toNat < 0xd800) {t : Text}
    (h : unitOf d ∈ unitsOf t) : d ∈ t := by
  obtain ⟨c, hc, hunit⟩ := List.mem_flatMap.mp h
  have hvalid : c.toNat < 0x110000 := by
    have : c.toNat < 0xd800 ∨ 0xdfff < c.toNat ∧ c.toNat < 0x110000 := c.valid
    omega
  have hval : (unitOf d).toNat = d.toNat := UInt16.toNat_ofNat_of_lt (by
    show d.toNat < 65536
    omega)
  have hcode : ∀ n, n < 65536 → unitOf d = UInt16.ofNat n → d.toNat = n := by
    intro n hn heq
    rw [← hval, heq]
    exact UInt16.toNat_ofNat_of_lt hn
  rw [charUnits] at hunit
  split at hunit
  · rename_i hsmall
    have heq := hcode c.toNat hsmall (List.mem_singleton.mp hunit)
    have hchar : d = c := by rw [← Char.ofNat_toNat d, heq, Char.ofNat_toNat]
    rw [hchar]
    exact hc
  · -- the units of a pair are no characters
    rcases List.mem_cons.mp hunit with hunit | hunit
    · have := hcode _ (by omega) hunit
      omega
    · have := hcode _ (by omega) (List.mem_singleton.mp hunit)
      omega

theorem newline_not_mem_units (t : Text) (h : '\n' ∉ t) :
    unitOf '\n' ∉ units (String.ofList t) := by
  rw [units, String.toList_ofList]
  exact fun hmem => h (mem_of_unitOf_mem (by decide) hmem)

/-- Characters of one line that do not start with a digit. -/
def still (t : Text) : Bool :=
  !t.contains '\n' && t.head?.all (fun c => c.toNat < 0xd800 && !isDigitUnit (unitOf c))

theorem unnumbered_units (t : Text) (h : still t = true) :
    Unnumbered (units (String.ofList t)) := by
  simp only [still, Bool.and_eq_true, Bool.not_eq_true', List.contains_eq_mem,
    decide_eq_false_iff_not] at h
  refine ⟨newline_not_mem_units t h.1, ?_⟩
  rw [units, String.toList_ofList]
  cases t with
  | nil => rfl
  | cons c t =>
      have hc : c.toNat < 0xd800 ∧ isDigitUnit (unitOf c) = false := by simpa using h.2
      rw [unitsOf, List.flatMap_cons, charUnits, if_pos (by omega)]
      exact hc.2

theorem head_units (c : Char) (t : Text) (h : c.toNat < 0xd800) :
    (units (String.ofList (c :: t))).head? = some (unitOf c) := by
  rw [units, String.toList_ofList, unitsOf, List.flatMap_cons, charUnits, if_pos (by omega)]
  rfl

theorem units_ne_nil (c : Char) (t : Text) (h : c.toNat < 0xd800) :
    units (String.ofList (c :: t)) ≠ [] := by
  intro hnil
  have hhead := head_units c t h
  rw [hnil] at hhead
  exact absurd hhead (by simp)

/-- A line that does not end in white space. -/
structure Closing (line : Units) : Prop where
  ne_nil : line ≠ []
  last : line.getLast?.any isSpaceUnit = false

theorem Closing.append {line : Units} (h : Closing line) (before : Units) :
    Closing (before ++ line) := by
  refine ⟨by simp [h.ne_nil], ?_⟩
  rw [List.getLast?_append_of_ne_nil _ h.ne_nil]
  exact h.last

theorem closing_units (t : Text) (h : t.getLast?.any (fun c => c.toNat < 0xd800 && !isSpace c) = true) :
    Closing (units (String.ofList t)) := by
  cases hlast : t.getLast? with
  | none =>
      rw [hlast] at h
      exact absurd h (by simp)
  | some c =>
      rw [hlast] at h
      obtain ⟨hsmall, hspace⟩ : c.toNat < 0xd800 ∧ isSpace c = false := by simpa using h
      obtain ⟨init, rfl⟩ := List.getLast?_eq_some_iff.mp hlast
      have hunit : (unitOf c).toNat = c.toNat := UInt16.toNat_ofNat_of_lt (by
        show c.toNat < 65536
        omega)
      have hunits : units (String.ofList (init ++ [c])) = unitsOf init ++ [unitOf c] := by
        rw [units, String.toList_ofList, unitsOf, List.flatMap_append, List.flatMap_singleton,
          charUnits, if_pos (by omega)]
        rfl
      rw [hunits]
      refine ⟨by simp, ?_⟩
      rw [List.getLast?_concat, Option.any_some, isSpaceUnit, hunit, Char.ofNat_toNat]
      exact hspace

theorem newline_not_mem_digits (n : Nat) : unitOf '\n' ∉ unitsOf (ofNat n) := by
  intro h
  have hdigit := digits_ofNat h
  exact absurd hdigit (by decide)

/-! ## What is kept -/

/-- The first hit with each reference that is not among some. -/
def newHits (seen : List Units) : List Hit → List Hit
  | [] => []
  | h :: hs => if seen.contains h.ref then newHits seen hs else h :: newHits (h.ref :: seen) hs

theorem newHits_sublist (seen : List Units) (hs : List Hit) : (newHits seen hs).Sublist hs := by
  induction hs generalizing seen with
  | nil => exact List.Sublist.refl _
  | cons h hs ih =>
      rw [newHits]
      split
      · exact (ih seen).cons h
      · exact (ih _).cons_cons h

theorem ref_not_mem_of_newHits {seen : List Units} {hs : List Hit} {h : Hit}
    (hh : h ∈ newHits seen hs) : h.ref ∉ seen := by
  induction hs generalizing seen with
  | nil => exact absurd hh (by simp [newHits])
  | cons g hs ih =>
      rw [newHits] at hh
      split at hh
      · exact ih hh
      · rename_i hnew
        rcases List.mem_cons.mp hh with rfl | hh
        · simpa using hnew
        · exact fun hmem => ih hh (List.mem_cons_of_mem _ hmem)

theorem nodup_newHits (seen : List Units) (hs : List Hit) :
    ((newHits seen hs).map Hit.ref).Nodup := by
  induction hs generalizing seen with
  | nil => exact List.nodup_nil
  | cons h hs ih =>
      rw [newHits]
      split
      · exact ih seen
      · rw [List.map_cons, List.nodup_cons]
        refine ⟨fun hmem => ?_, ih _⟩
        obtain ⟨g, hg, href⟩ := List.mem_map.mp hmem
        exact ref_not_mem_of_newHits hg (by rw [href]; exact List.mem_cons_self)

/-- Every reference that is not among those is kept. -/
theorem ref_mem_newHits {seen : List Units} {hs : List Hit} {h : Hit} (hh : h ∈ hs)
    (hnew : h.ref ∉ seen) : h.ref ∈ (newHits seen hs).map Hit.ref := by
  induction hs generalizing seen with
  | nil => exact absurd hh (by simp)
  | cons g hs ih =>
      rw [newHits]
      split
      · rename_i hseen
        rcases List.mem_cons.mp hh with rfl | hh
        · exact absurd (by simpa using hseen) hnew
        · exact ih hh hnew
      · rw [List.map_cons]
        by_cases href : h.ref = g.ref
        · rw [href]
          exact List.mem_cons_self
        · rcases List.mem_cons.mp hh with rfl | hh
          · exact absurd rfl href
          · exact List.mem_cons_of_mem _ (ih hh (by simp [href, hnew]))

theorem newHits_congr {a b : List Units} (hab : ∀ r, r ∈ a ↔ r ∈ b) (hs : List Hit) :
    newHits a hs = newHits b hs := by
  induction hs generalizing a b with
  | nil => rfl
  | cons h hs ih =>
      have hcontains : a.contains h.ref = b.contains h.ref := by
        simp only [List.contains_eq_mem, hab]
      rw [newHits, newHits, hcontains, ih hab]
      congr 2
      exact ih fun r => by simp only [List.mem_cons, hab]

/-- What has been seen before only takes away. -/
theorem newHits_append (more seen : List Units) (hs : List Hit) :
    newHits (more ++ seen) hs = (newHits more hs).filter (fun h => !seen.contains h.ref) := by
  induction hs generalizing more with
  | nil => rfl
  | cons h hs ih =>
      rw [newHits, newHits]
      by_cases hmore : h.ref ∈ more
      · rw [if_pos (by simp [hmore]), if_pos (by simp [hmore]), ih]
      · rw [if_neg (by simpa using hmore : ¬ more.contains h.ref = true)]
        by_cases hseen : h.ref ∈ seen
        · rw [if_pos (by simp [hseen]), List.filter_cons_of_neg (by simp [hseen]), ← ih]
          -- the reference is seen, so that remembering it again changes nothing
          refine newHits_congr (fun r => ?_) hs
          simp only [List.mem_append, List.mem_cons]
          by_cases hr : r = h.ref
          · simp [hr, hseen]
          · simp [hr]
        · rw [if_neg (by simp [hmore, hseen]), List.filter_cons_of_pos (by simp [hseen]), ← ih]
          rfl

end Caveat.Hooks
