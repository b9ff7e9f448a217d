import Caveat.Lib.Separated
import Caveat.Publish.Approval

/-!
# Facts about the scan

A scan without findings says that no block-level rule finds something in a line, and then none
does when white space behind the line is gone.
-/

namespace Caveat.Publish

open Js Lib Entry

variable {d : Doubles} {sha256 : Bytes → Units} {selfIdentity : List Units}

/-! ## Blocked lines -/

variable (d selfIdentity) in
/-- No block-level rule finds something in the line. -/
def LineClean (line : Text) : Prop := blockFound d selfIdentity (unitsOf line) = []

instance (line : Text) : Decidable (LineClean d selfIdentity line) :=
  inferInstanceAs (Decidable (_ = _))

/-- Nothing is found in an empty line. -/
theorem lineClean_nil : LineClean d selfIdentity [] := by
  have hidentity : selfIdentityFound selfIdentity [] = [] := by
    unfold selfIdentityFound
    rw [List.flatMap_eq_nil_iff]
    intro token _
    split
    · rfl
    · rename_i hlong
      rw [tokenMatches, if_pos]
      rw [List.length_nil]
      omega
  have hmatches : ∀ rule ∈ highEntropyRules, rule.1.matchAll [] = [] := by decide
  have hcandidates : entropyCandidates d (knownFound []) [] = [] := by
    unfold entropyCandidates
    rw [List.filter_eq_nil_iff]
    intro f hf
    obtain ⟨rule, hrule, hf⟩ := List.mem_flatMap.mp hf
    rw [hmatches rule hrule] at hf
    exact absurd hf (by simp)
  have hentropy : highEntropyFound d (knownFound []) [] = [] := by
    rw [highEntropyFound, hcandidates]
    rfl
  show blockFound d selfIdentity [] = []
  unfold blockFound
  dsimp only
  rw [hidentity, hentropy]
  rfl

theorem severity_of_mem_regexFound {rule : ScanRule} {severity : ScanSeverity} {pattern : Re UInt16}
    {line : Units} {f : Found} (h : f ∈ regexFound rule severity pattern line) :
    f.severity = severity := by
  obtain ⟨m, _, rfl⟩ := List.mem_map.mp h
  rfl

theorem severity_of_mem_tokenMatches {line token : Units} {f : Found} (fuel : Nat) :
    ∀ start, f ∈ tokenMatches line token fuel start → f.severity = .block := by
  induction fuel with
  | zero => intro start h; exact absurd h (by simp [tokenMatches])
  | succ fuel ih =>
      intro start h
      rw [tokenMatches] at h
      split at h
      · exact absurd h (by simp)
      · split at h
        · exact absurd h (by simp)
        · rename_i index _
          by_cases halone : standsAlone line token index = true
          · rw [if_pos halone] at h
            rcases List.mem_cons.mp h with rfl | h
            · rfl
            · exact ih _ h
          · rw [if_neg halone] at h
            exact ih _ h

theorem severity_of_mem_highEntropyFound {known : List Found} {line : Units} {f : Found}
    (h : f ∈ highEntropyFound d known line) : f.severity = .block := by
  -- the normalised candidates are candidates
  have hfold : ∀ cs acc : List Found, f ∈ cs.foldl addCandidate acc → f ∈ acc ∨ f ∈ cs := by
    intro cs
    induction cs with
    | nil => intro acc hf; exact Or.inl hf
    | cons c cs ih =>
        intro acc hf
        rcases ih _ hf with hf | hf
        · unfold addCandidate at hf
          split at hf
          · exact Or.inl hf
          · rcases List.mem_append.mp hf with hf | hf
            · exact Or.inl hf
            · exact Or.inr (List.mem_cons.mpr (Or.inl (List.mem_singleton.mp hf)))
        · exact Or.inr (List.mem_cons_of_mem c hf)
  have hmem := (hfold _ [] h).resolve_left (by simp)
  rw [List.mem_insertionSort] at hmem
  obtain ⟨rule, _, hf⟩ := List.mem_flatMap.mp (List.mem_of_mem_filter hmem)
  obtain ⟨m, _, rfl⟩ := List.mem_map.mp hf
  rfl

theorem severity_of_mem_blockFound {line : Units} {f : Found}
    (h : f ∈ blockFound d selfIdentity line) : f.severity = .block := by
  unfold blockFound at h
  rcases List.mem_append.mp h with h | h
  · rcases List.mem_append.mp h with h | h
    · rcases List.mem_append.mp h with h | h
      · obtain ⟨rule, _, hf⟩ := List.mem_flatMap.mp h
        exact severity_of_mem_regexFound hf
      · exact severity_of_mem_highEntropyFound h
    · obtain ⟨token, _, hf⟩ := List.mem_flatMap.mp h
      split at hf
      · exact absurd hf (by simp)
      · exact severity_of_mem_tokenMatches _ _ hf
  · split at h
    · exact absurd h (by simp)
    · obtain ⟨pattern, _, hf⟩ := List.mem_flatMap.mp h
      exact severity_of_mem_regexFound hf

/-- The block-level matches of a line are what its block-level rules find. -/
theorem mem_blockFound_iff {line : Units} {f : Found} : f ∈ blockFound d selfIdentity line ↔
    f ∈ lineFound d selfIdentity line ∧ f.severity = .block := by
  unfold lineFound
  rw [List.mem_append, List.mem_append]
  constructor
  · intro h
    exact ⟨Or.inl (Or.inl h), severity_of_mem_blockFound h⟩
  · rintro ⟨(h | h) | h, hblock⟩
    · exact h
    · rw [severity_of_mem_regexFound h] at hblock
      exact absurd hblock (by decide)
    · rw [severity_of_mem_regexFound h] at hblock
      exact absurd hblock (by decide)

/-! ## What a scan without findings says -/

theorem mem_added_of_first {h : Hit} {post : List Hit} (pre : List Hit) :
    ∀ seen, h.key ∉ seen → (∀ g ∈ pre, g.key ≠ h.key) → h ∈ added seen (pre ++ h :: post) := by
  induction pre with
  | nil =>
      intro seen hseen _
      rw [List.nil_append, added, if_neg ?_]
      · exact List.mem_cons_self
      · intro hany
        obtain ⟨key, hkey, heq⟩ := List.any_eq_true.mp hany
        exact hseen (of_decide_eq_true heq ▸ hkey)
  | cons g pre ih =>
      intro seen hseen hpre
      have hrest := fun seen hseen => ih seen hseen fun k hk => hpre k (List.mem_cons_of_mem g hk)
      rw [List.cons_append, added]
      split
      · exact hrest seen hseen
      · refine List.mem_cons_of_mem g (hrest _ fun hmem => ?_)
        rcases List.mem_cons.mp hmem with heq | hmem
        · exact hpre g List.mem_cons_self heq.symm
        · exact hseen hmem

/-- A key tells the path and the line, if no path has a NUL. -/
theorem key_inj {g h : Hit} (hg : (0 : UInt16) ∉ g.relPath) (hh : (0 : UInt16) ∉ h.relPath)
    (heq : g.key = h.key) : g.relPath = h.relPath ∧ g.lineNumber = h.lineNumber := by
  have hdigits : ∀ n : Nat, (0 : UInt16) ∉ unitsOf (ofNat n) := by
    intro n hmem
    have hpoints := zero_not_mem_unitsOf (t := ofNat n) fun hzero =>
      absurd (isDigit_of_mem_ofNat hzero) (by decide)
    exact hpoints hmem
  unfold Hit.key nul at heq
  simp only [List.append_assoc, List.singleton_append] at heq
  obtain ⟨hpath, hrest⟩ := append_separator_inj hg hh heq
  obtain ⟨hline, _⟩ := append_separator_inj (hdigits _) (hdigits _) hrest
  exact ⟨hpath, ofNat_inj.mp (unitsOf_inj hline)⟩

theorem ne_of_nodup_map {α β : Type*} {f : α → β} {pre post : List α} {x : α}
    (h : ((pre ++ x :: post).map f).Nodup) : ∀ y ∈ pre, f y ≠ f x := by
  intro y hy heq
  rw [List.map_append, List.map_cons] at h
  exact (List.nodup_append.mp h).2.2 (f y) (List.mem_map_of_mem hy) (f x) List.mem_cons_self heq

/-- **Without a blocking finding every line is clean**, if the paths differ. -/
theorem lineClean_of_scan {files : List PublishFile}
    (hscan : (scanPublishFiles d sha256 selfIdentity [] files).blocking = [])
    (hnodup : (files.map PublishFile.relPath).Nodup)
    (hnul : ∀ file ∈ files, (0 : UInt16) ∉ file.relPath) :
    ∀ file ∈ files, ∀ line ∈ splitLines (decodeUtf8 file.content),
      LineClean d selfIdentity line := by
  intro file hfile line hline
  by_contra hdirty
  obtain ⟨f, found, hfound⟩ := List.exists_cons_of_ne_nil hdirty
  -- the first match of the line, in its place among all matches
  obtain ⟨pre, post, rfl⟩ := List.append_of_mem hfile
  obtain ⟨i, hi⟩ := List.mem_iff_getElem?.mp hline
  have hnumbered : (line, i) ∈ (splitLines (decodeUtf8 file.content)).zipIdx :=
    List.mk_mem_zipIdx_iff_getElem?.mpr hi
  obtain ⟨above, below, hlines⟩ := List.append_of_mem hnumbered
  let hit : Hit := { relPath := file.relPath, lineNumber := i + 1
                     fileDigest := sha256 file.content, found := f }
  obtain ⟨earlier, later, hhits, hearlier⟩ : ∃ earlier later,
      scanHits d sha256 selfIdentity (pre ++ file :: post) = earlier ++ hit :: later ∧
        ∀ g ∈ earlier, (∃ other ∈ pre, g.relPath = other.relPath) ∨
          g.relPath = file.relPath ∧ ∃ l ∈ above, g.lineNumber = l.2 + 1 := by
    refine ⟨pre.flatMap (fileHits d sha256 selfIdentity) ++
      above.flatMap (lineHits d sha256 selfIdentity file), ?_, ?_, ?_⟩
    · exact (found ++ regexFound .privateIp .warn privateIp (unitsOf line) ++
          regexFound .email .warn emailAddress (unitsOf line)).map
            (fun found => { hit with found }) ++
        below.flatMap (lineHits d sha256 selfIdentity file) ++
          post.flatMap (fileHits d sha256 selfIdentity)
    · have hline : lineHits d sha256 selfIdentity file (line, i) =
          hit :: (found ++ regexFound .privateIp .warn privateIp (unitsOf line) ++
            regexFound .email .warn emailAddress (unitsOf line)).map
              (fun found => { hit with found }) := by
        rw [lineHits, lineFound, hfound]
        rfl
      have hfile : fileHits d sha256 selfIdentity file =
          above.flatMap (lineHits d sha256 selfIdentity file) ++
            (lineHits d sha256 selfIdentity file (line, i) ++
              below.flatMap (lineHits d sha256 selfIdentity file)) := by
        rw [fileHits, hlines, List.flatMap_append, List.flatMap_cons]
      rw [scanHits, List.flatMap_append, List.flatMap_cons, hfile, hline]
      simp only [List.append_assoc, List.cons_append]
    · intro g hg
      rcases List.mem_append.mp hg with hg | hg
      · obtain ⟨other, hother, hg⟩ := List.mem_flatMap.mp hg
        obtain ⟨l, _, hg⟩ := List.mem_flatMap.mp hg
        obtain ⟨f, _, rfl⟩ := List.mem_map.mp hg
        exact Or.inl ⟨other, hother, rfl⟩
      · obtain ⟨l, hl, hg⟩ := List.mem_flatMap.mp hg
        obtain ⟨f, _, rfl⟩ := List.mem_map.mp hg
        exact Or.inr ⟨rfl, l, hl, rfl⟩
  have hadded : hit ∈ added [] (scanHits d sha256 selfIdentity (pre ++ file :: post)) := by
    rw [hhits]
    refine mem_added_of_first earlier [] (by simp) fun g hg hkey => ?_
    have hin : hit.relPath = file.relPath := rfl
    rcases hearlier g hg with ⟨other, hother, hpath⟩ | ⟨hpath, l, hl, hnumber⟩
    · have heq := (key_inj (hpath ▸ hnul other (by simp [hother])) (hnul file (by simp)) hkey).1
      exact ne_of_nodup_map hnodup other hother (hpath ▸ heq)
    · have heq := (key_inj (hpath ▸ hnul file (by simp)) (hnul file (by simp)) hkey).2
      have hnumbers : ((above ++ (line, i) :: below).map Prod.snd).Nodup := by
        rw [← hlines, List.zipIdx_map_snd]
        exact List.nodup_range'
      have hne := ne_of_nodup_map hnumbers l hl
      have hsame : g.lineNumber = i + 1 := heq
      exact hne (by show l.2 = i; omega)
  have hblock : hit.found.severity = .block :=
    severity_of_mem_blockFound (by rw [hfound]; exact List.mem_cons_self)
  have := blocking_eq_nil_iff.mp hscan hit hadded hblock
  exact absurd this (by simp)

/-! ## White space behind a line -/

/-- A code unit of an ASCII text is no white space, unless its character is. -/
theorem isSpaceUnit_of_lt {u : UInt16} (h : u.toNat < 128) :
    isSpaceUnit u = decide (u.toNat = 32 ∨ 9 ≤ u.toNat ∧ u.toNat ≤ 13) := by
  have hall : ∀ n < 128, isSpace (Char.ofNat n) = decide (n = 32 ∨ 9 ≤ n ∧ n ≤ 13) := by
    decide +kernel
  exact hall u.toNat h

theorem not_between_of_isSpaceUnit {lo hi : Char} (hlo : 32 < lo.toNat) (hhi : hi.toNat < 128)
    {u : UInt16} (h : isSpaceUnit u = true) : between lo hi u = false := by
  by_contra hin
  simp only [between, Bool.not_eq_false, Bool.and_eq_true, decide_eq_true_eq] at hin
  rw [isSpaceUnit_of_lt (by omega), decide_eq_true_eq] at h
  omega

theorem not_oneOf_of_isSpaceUnit {chars : String}
    (hchars : ∀ c ∈ chars.toList, isSpaceUnit (unitOf c) = false) {u : UInt16}
    (h : isSpaceUnit u = true) : oneOf chars u = false := by
  by_contra hin
  rw [Bool.not_eq_false] at hin
  obtain ⟨c, hc, hu⟩ := List.any_eq_true.mp hin
  rw [of_decide_eq_true hu, hchars c hc] at h
  exact absurd h (by simp)

theorem not_isAlnumUnit_of_isSpaceUnit {u : UInt16} (h : isSpaceUnit u = true) :
    isAlnumUnit u = false := by
  simp only [isAlnumUnit, isDigitUnit, isUpperUnit, isLowerUnit, Bool.or_eq_false_iff]
  exact ⟨⟨not_between_of_isSpaceUnit (by decide) (by decide) h,
    not_between_of_isSpaceUnit (by decide) (by decide) h⟩,
    not_between_of_isSpaceUnit (by decide) (by decide) h⟩

theorem not_isHexUnit_of_isSpaceUnit {u : UInt16} (h : isSpaceUnit u = true) :
    isHexUnit u = false := by
  simp only [isHexUnit, isDigitUnit, Bool.or_eq_false_iff]
  exact ⟨⟨not_between_of_isSpaceUnit (by decide) (by decide) h,
    not_between_of_isSpaceUnit (by decide) (by decide) h⟩,
    not_between_of_isSpaceUnit (by decide) (by decide) h⟩

theorem not_isAsciiLetter_of_isSpaceUnit {u : UInt16} (h : isSpaceUnit u = true) :
    isAsciiLetter u = false := by
  by_contra hin
  simp only [isAsciiLetter, Bool.not_eq_false, Bool.or_eq_true, Bool.and_eq_true,
    decide_eq_true_eq] at hin
  rw [isSpaceUnit_of_lt (by omega), decide_eq_true_eq] at h
  omega

/-- The fixed patterns look at nothing but what they match, which is never empty. -/
theorem blockRules_plain : ∀ rule ∈ blockRules, rule.2.Plain ∧ rule.2.Consuming := by
  simp [blockRules, literal, exactly, atLeast, Re.Plain, Re.Consuming]

/-- White space ends a candidate of high entropy. -/
theorem highEntropyRules_avoid : ∀ rule ∈ highEntropyRules,
    rule.1.Avoids (fun u => isSpaceUnit u = true) ∧ ∀ b, rule.1.run ⟨b, []⟩ = [] := by
  have hclass : ∀ (chars : String) (u : UInt16), isSpaceUnit u = true →
      chars.toList.all (fun c => !isSpaceUnit (unitOf c)) = true →
        (isAlnumUnit u || oneOf chars u) = false := by
    intro chars u hu hchars
    have hnone : ∀ c ∈ chars.toList, isSpaceUnit (unitOf c) = false := fun c hc =>
      Bool.not_eq_true' _ ▸ List.all_eq_true.mp hchars c hc
    rw [not_isAlnumUnit_of_isSpaceUnit hu, not_oneOf_of_isSpaceUnit hnone hu]
    rfl
  intro rule hrule
  rcases List.mem_cons.mp hrule with rfl | hrule
  · refine ⟨⟨fun u hu => hclass "+/" u hu (by decide), fun u hu => ?_⟩, fun b => rfl⟩
    rw [decide_eq_false_iff_not]
    rintro rfl
    exact absurd hu (by decide)
  · rcases List.mem_cons.mp hrule with rfl | hrule
    · exact ⟨fun u hu => hclass "_-" u hu (by decide), fun b => rfl⟩
    · rw [List.mem_singleton.mp hrule]
      refine ⟨⟨trivial, fun u hu => not_isHexUnit_of_isSpaceUnit hu,
        fun u hu => not_isHexUnit_of_isSpaceUnit hu⟩, fun b => ?_⟩
      show (if b.any isHexUnit then [] else [(⟨b, []⟩ : Place UInt16)]).flatMap _ = []
      split <;> rfl

theorem regexFound_eq_nil_iff {rule : ScanRule} {severity : ScanSeverity} {pattern : Re UInt16}
    (h : pattern.Consuming) {line : Units} :
    regexFound rule severity pattern line = [] ↔ pattern.matchAll line = [] := by
  rw [regexFound, List.map_eq_nil_iff, List.filter_eq_nil_iff]
  constructor
  · intro hnone
    rw [List.eq_nil_iff_forall_not_mem]
    intro m hm
    exact hnone m hm (by simpa using Re.raw_ne_nil_of_mem_matchAll h hm)
  · intro hnil m hm
    rw [hnil] at hm
    exact absurd hm (by simp)

section Space

variable {s u : Units}

theorem knownFound_of_append (h : knownFound (s ++ u) = []) : knownFound s = [] := by
  unfold knownFound at h ⊢
  rw [List.flatMap_eq_nil_iff] at h ⊢
  intro rule hrule
  obtain ⟨hplain, hconsuming⟩ := blockRules_plain rule hrule
  have hnone := (regexFound_eq_nil_iff hconsuming).mp (h rule hrule)
  refine (regexFound_eq_nil_iff hconsuming).mpr ?_
  by_contra hsome
  exact Re.matchAll_append_ne_nil hplain u hsome hnone

theorem highEntropyFound_append (hu : ∀ c ∈ u, isSpaceUnit c = true) (known : List Found) :
    highEntropyFound d known (s ++ u) = highEntropyFound d known s := by
  have hmatches : ∀ rule ∈ highEntropyRules, rule.1.matchAll (s ++ u) = rule.1.matchAll s :=
    fun rule hrule => Re.matchAll_append (highEntropyRules_avoid rule hrule).1 hu
      (highEntropyRules_avoid rule hrule).2 s
  have hcandidates : entropyCandidates d known (s ++ u) = entropyCandidates d known s := by
    have hall := List.flatMap_congr (l := highEntropyRules) fun rule hrule =>
      congrArg (fun ms : List (Match UInt16) =>
        (ms.filter (fun m => isHighEntropy d m.raw rule.2)).map (fun m =>
          ({ rule := .highEntropy, severity := .block, raw := m.raw, index := m.index } : Found)))
        (hmatches rule hrule)
    exact congrArg (List.filter (fun f =>
      !known.any (fun span => span.index ≤ f.index && f.stop ≤ span.stop))) hall
  rw [highEntropyFound, highEntropyFound, hcandidates]

theorem indexOfFrom_eq_some_iff {token : Units} {start index : Nat} :
    indexOfFrom s token start = some index ↔ start ≤ index ∧ index ≤ s.length ∧
      token <+: s.drop index ∧ ∀ j, start ≤ j → j < index → ¬ token <+: s.drop j := by
  unfold indexOfFrom
  rw [List.find?_map, Option.map_eq_some_iff]
  constructor
  · rintro ⟨k, hk, rfl⟩
    obtain ⟨hstarts, hmem, hfirst⟩ := List.find?_range_eq_some.mp hk
    rw [List.mem_range] at hmem
    refine ⟨Nat.le_add_left _ _, by omega, List.isPrefixOf_iff_prefix.mp hstarts, ?_⟩
    intro j hj hlt hstarts'
    have hnot := hfirst (j - start) (by omega)
    rw [Function.comp_apply, Nat.sub_add_cancel hj, List.isPrefixOf_iff_prefix.mpr hstarts'] at hnot
    exact absurd hnot (by simp)
  · rintro ⟨hstart, hle, hstarts, hfirst⟩
    refine ⟨index - start, List.find?_range_eq_some.mpr ⟨?_, ?_, ?_⟩, Nat.sub_add_cancel hstart⟩
    · rw [Function.comp_apply, Nat.sub_add_cancel hstart]
      exact List.isPrefixOf_iff_prefix.mpr hstarts
    · rw [List.mem_range]
      omega
    · intro j hj
      have hnot := hfirst (j + start) (by omega) (by omega)
      rw [Function.comp_apply, Bool.not_eq_true', Bool.eq_false_iff]
      exact fun h => hnot (List.isPrefixOf_iff_prefix.mp h)

/-- An occurrence is found in a text that goes on. -/
theorem indexOfFrom_append {token : Units} {start index : Nat}
    (h : indexOfFrom s token start = some index) : indexOfFrom (s ++ u) token start = some index ∧
      index + token.length ≤ s.length := by
  obtain ⟨hstart, hle, hstarts, hfirst⟩ := indexOfFrom_eq_some_iff.mp h
  have hinside : index + token.length ≤ s.length := by
    have := hstarts.length_le
    rw [List.length_drop] at this
    omega
  refine ⟨indexOfFrom_eq_some_iff.mpr ⟨hstart, ?_, ?_, ?_⟩, hinside⟩
  · rw [List.length_append]
    omega
  · rw [List.drop_append_of_le_length hle]
    exact hstarts.trans (List.prefix_append _ _)
  · -- an earlier occurrence lies inside of the text as well
    intro j hj hlt hstarts'
    rw [List.drop_append_of_le_length (by omega)] at hstarts'
    refine hfirst j hj hlt (List.prefix_of_prefix_length_le hstarts' (List.prefix_append _ _) ?_)
    rw [List.length_drop]
    omega

theorem standsAlone_append (hu : ∀ c ∈ u, isSpaceUnit c = true) {token : Units} {index : Nat}
    (h : index + token.length ≤ s.length) :
    standsAlone (s ++ u) token index = standsAlone s token index := by
  have hbefore : (if index = 0 then none else (s ++ u)[index - 1]?) =
      if index = 0 then none else s[index - 1]? := by
    split
    · rfl
    · rw [List.getElem?_append_left (by omega)]
  have hafter : ((s ++ u)[index + token.length]?).any isAsciiLetter =
      (s[index + token.length]?).any isAsciiLetter := by
    by_cases hlt : index + token.length < s.length
    · rw [List.getElem?_append_left hlt]
    · rw [List.getElem?_append_right (by omega), List.getElem?_eq_none (l := s) (by omega)]
      cases hc : u[index + token.length - s.length]? with
      | none => rfl
      | some c => exact not_isAsciiLetter_of_isSpaceUnit (hu c (List.mem_of_getElem? hc))
  unfold standsAlone
  dsimp only
  rw [hbefore, hafter]

theorem tokenMatches_append (hu : ∀ c ∈ u, isSpaceUnit c = true) (token : Units) (fuel : Nat) :
    ∀ fuel' start, fuel ≤ fuel' → tokenMatches s token fuel start ≠ [] →
      tokenMatches (s ++ u) token fuel' start ≠ [] := by
  induction fuel with
  | zero => intro fuel' start _ h; exact absurd rfl h
  | succ fuel ih =>
      intro fuel' start hfuel h
      obtain ⟨fuel', rfl⟩ : ∃ n, fuel' = n + 1 := ⟨fuel' - 1, by omega⟩
      rw [tokenMatches] at h ⊢
      split at h
      · exact absurd rfl h
      · rename_i hfits
        rw [if_neg (by rw [List.length_append]; omega)]
        cases hindex : indexOfFrom s token start with
        | none =>
            rw [hindex] at h
            exact absurd rfl h
        | some index =>
            obtain ⟨hsame, hinside⟩ := indexOfFrom_append (u := u) hindex
            rw [hindex] at h
            rw [hsame]
            dsimp only at h ⊢
            rw [standsAlone_append hu hinside]
            split at h
            · rename_i halone
              rw [if_pos halone]
              simp
            · rename_i halone
              rw [if_neg halone]
              exact ih fuel' _ (by omega) h

/-- **White space behind a clean line may go.** -/
theorem blockFound_of_append (hu : ∀ c ∈ u, isSpaceUnit c = true)
    (h : blockFound d selfIdentity (s ++ u) = []) : blockFound d selfIdentity s = [] := by
  unfold blockFound at h ⊢
  simp only [List.append_eq_nil_iff] at h ⊢
  obtain ⟨⟨⟨hknown, hentropy⟩, hidentity⟩, _⟩ := h
  have hknown' := knownFound_of_append hknown
  have hidentity' : selfIdentityFound selfIdentity s = [] := by
    unfold selfIdentityFound at hidentity ⊢
    rw [List.flatMap_eq_nil_iff] at hidentity ⊢
    intro token htoken
    have hnone := hidentity token htoken
    split at hnone
    · rename_i hshort
      rw [if_pos hshort]
    · rename_i hshort
      rw [if_neg hshort]
      by_contra hsome
      refine tokenMatches_append hu token _ _ 0 ?_ hsome hnone
      rw [List.length_append]
      omega
  refine ⟨⟨⟨hknown', ?_⟩, hidentity'⟩, by rw [hidentity']; rfl⟩
  rw [hknown'] at *
  rw [hknown, highEntropyFound_append hu] at hentropy
  exact hentropy

end Space

end Caveat.Publish
